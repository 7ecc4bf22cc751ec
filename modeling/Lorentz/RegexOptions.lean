import Lorentz.Access
import Lorentz.Lookup

/-!
`compile_regex`: a filter's pattern and the options behind it, cut out with `strtok_r` and read
with `sscanf`. The regex engine is a parameter.
-/

set_option autoImplicit false

namespace Lorentz
open Split List

def getQueryTypeStr : QueryType → List Char
  | .none => "NONE".toList
  | .a => "A".toList
  | .aaaa => "AAAA".toList
  | .any => "ANY".toList
  | .srv => "SRV".toList
  | .soa => "SOA".toList
  | .ptr => "PTR".toList
  | .txt => "TXT".toList
  | .naptr => "NAPTR".toList
  | .mx => "MX".toList
  | .ds => "DS".toList
  | .rrsig => "RRSIG".toList
  | .dnskey => "DNSKEY".toList
  | .ns => "NS".toList
  | .other => "OTHER".toList
  | .svcb => "SVCB".toList
  | .https => "HTTPS".toList

structure RegexEnv where
  regcomp : List Char → Bool
  inetPton4 : List Char → Bool
  inetPton6 : List Char → Bool

inductive RegexMessage where
  | overwriting
  | unknownQuerytype (extra : List Char)
  | missingDomain
  | unknownReply (extra : List Char)
  | invalidOption (part : List Char)
  | engine
  deriving DecidableEq

structure RegexExt where
  queryType : Nat := 0
  inverted : Bool := false
  reply : ReplyType := .unknown
  cnameTarget : Option (List Char) := none
  deriving DecidableEq

def strtok (sep : Char) (s : List Char) : List (List Char) := (s.splitOn sep).filter (fun t => t ≠ [])

/-- `sscanf` of a word of at most `width` characters behind `keyword`: `none` if it returns 0. At
the end of the text it returns `EOF`, which is no 0, and stores nothing. -/
def scanWord (keyword : List Char) (width : Nat) (part : List Char) : Option (List Char) :=
  if keyword.isPrefixOf part then
    some ((((part.drop keyword.length).dropWhile isspace).takeWhile (fun c => !isspace c)).take width)
  else if part.isPrefixOf keyword then some []
  else none

def querytypeKey : List Char := "querytype=".toList
def replyKey : List Char := "reply=".toList

def typeNamed (token : List Char) : Option QueryType :=
  (QueryType.all.drop 1).find? (fun t => strcasecmp token (getQueryTypeStr t))

def queryMask (tokens : List (List Char)) : Nat :=
  tokens.foldl (fun mask token =>
    match typeNamed token with
    | some t => mask ^^^ 2^t.index
    | none => mask) 0

def invertMask (mask : Nat) : Nat := mask ^^^ (2^32-1)

def parseQuerytype (ext : RegexExt) (extra : List Char) : Except RegexMessage RegexExt :=
  if ext.queryType ≠ 0 then .error .overwriting
  else
    let inverted := extra.head? = some '!'
    let list := if inverted then extra.drop 1 else extra
    let mask := queryMask (strtok ',' list)
    -- `strtok_r` has put a NUL behind the first token
    if mask = 0 then .error (.unknownQuerytype
      (list.takeWhile (fun c => c = ',') ++
        (list.dropWhile (fun c => c = ',')).takeWhile (fun c => c ≠ ',')))
    else .ok { ext with queryType := if inverted then invertMask mask else mask }

def parseReply (E : RegexEnv) (ext : RegexExt) (extra : List Char) : Except RegexMessage RegexExt :=
  if strcasecmp extra "NODATA".toList then .ok { ext with reply := .nodata }
  else if strcasecmp extra "NXDOMAIN".toList then .ok { ext with reply := .nxdomain }
  else if strcasecmp extra "REFUSED".toList then .ok { ext with reply := .refused }
  else if strcasecmp extra "IP".toList then .ok { ext with reply := .ip }
  else if E.inetPton4 extra then .ok { ext with reply := .ip }
  else if E.inetPton6 extra then .ok { ext with reply := .ip }
  else if strcasecmp extra "NONE".toList then .ok { ext with reply := .none }
  -- `strncasecmp` with a length of 4
  else if strcasecmp (extra.take 4) ("CNAME".toList.take 4) then
    match extra.dropWhile (fun c => c ≠ ',') with
    | [] => .error .missingDomain
    | _ :: target => .ok { ext with reply := .cname, cnameTarget := some target }
  else .error (.unknownReply extra)

def parseOption (E : RegexEnv) (ext : RegexExt) (part : List Char) : Except RegexMessage RegexExt :=
  match scanWord querytypeKey 63 part with
  | some extra => parseQuerytype ext extra
  | none =>
    if strcasecmp part "invert".toList then .ok { ext with inverted := true }
    else
      match scanWord replyKey 255 part with
      | some extra => parseReply E ext extra
      | none => .error (.invalidOption part)

def regexParts (regexin : List Char) : List Char × List (List Char) :=
  if ';' ∈ regexin then
    match strtok ';' regexin with
    | [] => ([],[])
    | part :: parts => (part,parts)
  else (regexin,[])

/-- The pattern that is compiled and what the options say. -/
def compileRegex (E : RegexEnv) (regexin : List Char) :
    Except RegexMessage (List Char × RegexExt) := do
  let parts := regexParts regexin
  let ext ← parts.2.foldlM (parseOption E) {}
  if E.regcomp parts.1 then .ok (parts.1,ext) else .error .engine

def regexData (E : RegexEnv) (databaseID : Int) (regexin : List Char) : RegexData :=
  match compileRegex E regexin with
  | .ok (_,ext) => ⟨databaseID,true,regexin,ext.inverted,ext.queryType,ext.reply,ext.cnameTarget⟩
  | .error _ => ⟨databaseID,false,regexin,false,0,.unknown,none⟩

/-- `match_regex` comes to run the regex engine for a query of this type. -/
def RegexData.considers (r : RegexData) (t : QueryType) : Bool := r.available && r.typeMatches t

variable (tokens : List (List Char)) {n : List Char} {t : QueryType}

section

variable (h : typeNamed n = some t)
include h

theorem typeNamed_name : t ≠ .none ∧ n.map Char.toLower = (getQueryTypeStr t).map Char.toLower := by
  have hmem := mem_of_find?_eq_some h
  have hname := find?_some h
  refine ⟨?_,by simpa [strcasecmp] using hname⟩
  rintro rfl
  revert hmem
  decide

theorem typeNamed_char {c d : Char} (hc : c ∈ n) (hd : d.toLower.isLower = false) : c ≠ d := by
  rintro rfl
  have hlow : ((getQueryTypeStr t).map Char.toLower).all Char.isLower := by cases t <;> decide
  rw [← (typeNamed_name h).2] at hlow
  have := all_eq_true.mp hlow _ (mem_map_of_mem hc)
  rw [hd] at this
  cases this

end

def oddly (tokens : List (List Char)) (t : QueryType) : Bool :=
  tokens.countP (fun n => typeNamed n = some t)%2 = 1

theorem index_inj {t t' : QueryType} (h : t.index = t'.index) : t = t' := by
  cases t <;> cases t' <;> first | rfl | cases h

theorem queryMask_bit (i : Nat) : (queryMask tokens).testBit i =
      decide (tokens.countP (fun n => (typeNamed n).any (fun t => t.index = i))%2 = 1) := by
  have hacc (mask : Nat) : (tokens.foldl (fun mask token =>
      match typeNamed token with
      | some t => mask ^^^ 2^t.index
      | none => mask) mask).testBit i = (mask.testBit i ^^
        decide (tokens.countP (fun n => (typeNamed n).any (fun t => t.index = i))%2 = 1)) := by
    induction tokens generalizing mask with
    | nil => simp
    | cons n ns ih =>
      rw [foldl_cons,ih,countP_cons]
      generalize ns.countP (fun n => (typeNamed n).any (fun t => t.index = i)) = k
      cases hn : typeNamed n with
      | none => simp
      | some t =>
        by_cases ht : t.index = i
        · have hodd : decide ((k+1)%2 = 1) = !decide (k%2 = 1) := by
            by_cases hk : k%2 = 1 <;> simp [hk] <;> omega
          simp [ht,hodd]
        · simp [ht]
  simpa [queryMask] using hacc 0

theorem queryMask_testBit (t : QueryType) :
    (queryMask tokens).testBit t.index = oddly tokens t := by
  rw [queryMask_bit,oddly]
  congr 4
  funext n
  cases typeNamed n with
  | none => simp
  | some q =>
    rw [Option.any_some,decide_eq_decide,Option.some.injEq]
    exact ⟨index_inj,congrArg QueryType.index⟩

theorem queryMask_none : (queryMask tokens).testBit QueryType.none.index = false := by
  rw [queryMask_testBit,oddly,countP_eq_zero.mpr]
  · rfl
  · intro n _ h
    exact (typeNamed_name (of_decide_eq_true h)).1 rfl

theorem queryMask_eq_zero : queryMask tokens = 0 ↔ ∀ t, t ≠ .none → oddly tokens t = false := by
  constructor
  · intro h t _
    rw [← queryMask_testBit,h,Nat.zero_testBit]
  intro h
  refine Nat.eq_of_testBit_eq fun i => ?_
  rw [queryMask_bit,Nat.zero_testBit,decide_eq_false_iff_not]
  intro hodd
  have hpos : 0 < tokens.countP (fun n => (typeNamed n).any (fun t => t.index = i)) := by omega
  obtain ⟨n,-,hn⟩ := countP_pos_iff.mp hpos
  obtain ⟨t,ht,hi⟩ := (Option.any_eq_true ..).mp hn
  have hoff := h t (typeNamed_name ht).1
  rw [← queryMask_testBit,queryMask_bit,of_decide_eq_true hi] at hoff
  simp [hodd] at hoff

theorem invertMask_testBit (mask : Nat) (t : QueryType) :
    (invertMask mask).testBit t.index = !mask.testBit t.index := by
  have hfull : (2^32-1).testBit t.index = true := by cases t <;> decide
  rw [invertMask,Nat.testBit_xor,hfull,Bool.xor_true]

section

variable {E : RegexEnv} {ext : RegexExt} {pattern : List Char} {pre post names : List (List Char)}
  {neg : Bool}

theorem parseOption_queryType {o : List Char} (h : scanWord querytypeKey 63 o = none)
    (ext : RegexExt) (q : Nat) :
    parseOption E { ext with queryType := q } o =
      (parseOption E ext o).map (fun e => { e with queryType := q }) := by
  simp only [parseOption,h]
  split
  · rfl
  cases scanWord replyKey 255 o with
  | none => rfl
  | some extra =>
    simp only [parseReply]
    split_ifs
    all_goals first | rfl | skip
    cases extra.dropWhile (fun c => c ≠ ',') <;> rfl

theorem parseOptions_queryType {os : List (List Char)}
    (h : ∀ o ∈ os, scanWord querytypeKey 63 o = none) (ext : RegexExt) (q : Nat) :
    os.foldlM (parseOption E) { ext with queryType := q } =
      (os.foldlM (parseOption E) ext).map (fun e => { e with queryType := q }) := by
  induction os generalizing ext with
  | nil => rfl
  | cons o os ih =>
    rw [foldlM_cons,foldlM_cons,parseOption_queryType (h o (by simp))]
    cases parseOption E ext o with
    | error m => rfl
    | ok e => exact ih (fun o' ho => h o' (by simp [ho])) e

def querytypeOption (neg : Bool) (names : List (List Char)) : List Char :=
  querytypeKey ++ ((if neg then ['!'] else []) ++ [','].intercalate names)

def listRead (neg : Bool) (names : List (List Char)) : List Char :=
  ([','].intercalate names).take (if neg then 62 else 63)

def namedIn (names : List (List Char)) (t : QueryType) : Bool :=
  names.any (fun n => typeNamed n = some t)

/-- Each type is named an odd number of times in what is read exactly if it is named at all;
otherwise only a negated list that names all types and of which nothing is left is right. -/
def typesKept (neg : Bool) (names : List (List Char)) : Bool :=
  (QueryType.all.drop 1).all (fun t => oddly (strtok ',' (listRead neg names)) t = namedIn names t) ||
    neg && (QueryType.all.drop 1).all (fun t =>
      namedIn names t && !oddly (strtok ',' (listRead neg names)) t)

theorem all_types {f : QueryType → Bool} :
    (QueryType.all.drop 1).all f = true ↔ ∀ t, t ≠ .none → f t = true := by
  rw [all_eq_true]
  refine forall_congr' fun t => imp_congr ?_ .rfl
  cases t <;> decide

theorem isspace_isLower {c : Char} (h : isspace c) : c.toLower.isLower = false := by
  simp only [isspace,Bool.or_eq_true,decide_eq_true_eq] at h
  rcases h with ((((rfl | rfl) | rfl) | rfl) | rfl) | rfl <;> decide

theorem scanWord_whole {keyword value : List Char} (width : Nat)
    (h : ∀ c ∈ value, isspace c = false) :
    scanWord keyword width (keyword ++ value) = some (value.take width) := by
  have hkey : keyword.isPrefixOf (keyword ++ value) := by
    rw [List.isPrefixOf_iff_prefix]
    exact prefix_append ..
  have hdrop : value.dropWhile isspace = value := by
    cases value with
    | nil => rfl
    | cons c cs => simp [dropWhile,h c (by simp)]
  have htake : value.takeWhile (fun c => !isspace c) = value :=
    takeWhile_eq_self_iff.mpr fun c hc => by simp [h c hc]
  rw [scanWord,if_pos hkey,drop_left,hdrop,htake]

theorem parseOption_querytype (E : RegexEnv) (neg : Bool) (hnames : ∀ n ∈ names, (typeNamed n).isSome)
    (h0 : ext.queryType = 0) :
    ∃ m, parseOption E ext (querytypeOption neg names) =
      let mask := queryMask (strtok ',' (listRead neg names))
      if mask = 0 then .error m
      else .ok { ext with queryType := if neg then invertMask mask else mask } := by
  have hchar {d : Char} (hd : d.toLower.isLower = false) (hsep : ',' ≠ d) :
      ∀ c ∈ [','].intercalate names, c ≠ d :=
    intercalate_chars (P := fun c => c ≠ d) hsep fun n hn c hc => by
      obtain ⟨t,ht⟩ := Option.isSome_iff_exists.mp (hnames n hn)
      exact typeNamed_char ht hc hd
  have hspace : ∀ c ∈ [','].intercalate names, isspace c = false := by
    intro c hc
    refine Bool.eq_false_iff.mpr fun hs => ?_
    refine hchar (isspace_isLower hs) ?_ c hc rfl
    rintro rfl
    revert hs
    decide
  have hread : scanWord querytypeKey 63 (querytypeOption neg names) =
      some (((if neg then ['!'] else []) ++ [','].intercalate names).take 63) := by
    refine scanWord_whole 63 fun c hc => ?_
    rcases mem_append.mp hc with hc | hc
    · cases neg <;> simp at hc
      rw [hc]
      decide
    · exact hspace c hc
  have hmark : (([','].intercalate names).take 63).head? ≠ some '!' := by
    intro h
    exact hchar (d := '!') (by decide) (by decide) '!'
      (mem_of_mem_take (mem_of_mem_head? h)) rfl
  rw [parseOption,hread]
  simp only [parseQuerytype,h0]
  cases neg with
  | true => exact ⟨_,rfl⟩
  | false =>
    simp only [Bool.false_eq_true,if_false,nil_append,if_neg hmark]
    exact ⟨_,rfl⟩

theorem compileRegex_querytype {s : List Char} {e : RegexExt}
    (hs : regexParts s = (pattern,pre ++ querytypeOption neg names :: post))
    (hone : ∀ o ∈ pre ++ post, scanWord querytypeKey 63 o = none)
    (hrest : (pre ++ post).foldlM (parseOption E) {} = .ok e) (hpat : E.regcomp pattern)
    (hnames : ∀ n ∈ names, (typeNamed n).isSome) :
    ∃ m, compileRegex E s =
      let mask := queryMask (strtok ',' (listRead neg names))
      if mask = 0 then .error m
      else .ok (pattern,{ e with queryType := if neg then invertMask mask else mask }) := by
  obtain ⟨e₁,h₁,h₂⟩ : ∃ e₁, pre.foldlM (parseOption E) {} = .ok e₁ ∧
      post.foldlM (parseOption E) e₁ = .ok e := by
    cases h : pre.foldlM (parseOption E) {} with
    | error m => simp [h,bind,Except.bind] at hrest
    | ok e₁ => exact ⟨e₁,rfl,by simpa [h,bind,Except.bind] using hrest⟩
  have h0 : e₁.queryType = 0 := by
    have hpre : ∀ o ∈ pre, scanWord querytypeKey 63 o = none := fun o ho => hone o (by simp [ho])
    have := parseOptions_queryType (E := E) hpre {} 0
    rw [h₁] at this
    exact congrArg RegexExt.queryType (Except.ok.inj this)
  obtain ⟨m,hm⟩ := parseOption_querytype E neg hnames h0
  refine ⟨m,?_⟩
  simp only [compileRegex,hs,foldlM_append,h₁,foldlM_cons,hm,hpat,bind,Except.bind]
  have hpost : ∀ o ∈ post, scanWord querytypeKey 63 o = none := fun o ho => hone o (by simp [ho])
  by_cases h : queryMask (strtok ',' (listRead neg names)) = 0
  · simp only [if_pos h]
  have hp := parseOptions_queryType (E := E) hpost e₁
    (if neg then invertMask (queryMask (strtok ',' (listRead neg names)))
      else queryMask (strtok ',' (listRead neg names)))
  rw [h₂] at hp
  simp only [if_neg h,hp]
  rfl

/-- One option that lists types means the named types exactly if `typesKept` holds. -/
theorem querytype_named_set (E : RegexEnv) (databaseID : Int) (s pattern : List Char)
    (pre post names : List (List Char)) (neg : Bool) (e : RegexExt)
    (hs : regexParts s = (pattern,pre ++ querytypeOption neg names :: post))
    (hone : ∀ o ∈ pre ++ post, scanWord querytypeKey 63 o = none)
    (hrest : (pre ++ post).foldlM (parseOption E) {} = .ok e) (hpat : E.regcomp pattern)
    (hne : names ≠ []) (hnames : ∀ n ∈ names, (typeNamed n).isSome) :
    (∀ t, t ≠ .none → (regexData E databaseID s).considers t = (namedIn names t != neg)) ↔
      typesKept neg names := by
  obtain ⟨m,hm⟩ := compileRegex_querytype hs hone hrest hpat hnames
  -- some type is named
  have hsome : ∃ t, t ≠ .none ∧ namedIn names t := by
    obtain ⟨n,hn⟩ := exists_mem_of_ne_nil names hne
    obtain ⟨t,ht⟩ := Option.isSome_iff_exists.mp (hnames n hn)
    exact ⟨t,(typeNamed_name ht).1,any_eq_true.mpr ⟨n,hn,by simpa using ht⟩⟩
  have hzero := queryMask_eq_zero (strtok ',' (listRead neg names))
  have hbit := queryMask_testBit (strtok ',' (listRead neg names))
  have hnone := queryMask_none (strtok ',' (listRead neg names))
  simp only [typesKept,Bool.or_eq_true,Bool.and_eq_true,all_types,decide_eq_true_eq,
    Bool.not_eq_true']
  generalize oddly (strtok ',' (listRead neg names)) = odd at hzero hbit
  generalize queryMask (strtok ',' (listRead neg names)) = mask at hm hzero hbit hnone
  by_cases h0 : mask = 0
  · have hrej : ∀ t, (regexData E databaseID s).considers t = false := by
      intro t
      simp [regexData,hm,h0,RegexData.considers]
    have hodd := hzero.mp h0
    constructor
    · intro h
      right
      have hneg : neg = true := by
        obtain ⟨t,ht,hn⟩ := hsome
        simpa [hrej,hn] using h t ht
      refine ⟨hneg,fun t ht => ⟨?_,hodd t ht⟩⟩
      simpa [hrej,hneg] using h t ht
    · rintro (h | ⟨hneg,h⟩) t ht
      · obtain ⟨t,ht,hn⟩ := hsome
        rw [← h t ht,hodd t ht] at hn
        cases hn
      · rw [hrej,hneg,(h t ht).1]
        rfl
  have hacc : ∀ t, (regexData E databaseID s).considers t = (odd t != neg) := by
    intro t
    simp only [regexData,hm,h0,if_false,RegexData.considers,RegexData.typeMatches,Bool.true_and]
    cases neg with
    | false => simp [h0,hbit]
    | true =>
      -- the bit of no type is set
      have hne' : invertMask mask ≠ 0 := by
        intro hx
        have := invertMask_testBit mask .none
        rw [hx,hnone,Nat.zero_testBit] at this
        cases this
      simp only [if_true,decide_eq_false hne',Bool.false_or,invertMask_testBit,hbit]
      cases odd t <;> rfl
  simp only [hacc]
  constructor
  · intro h
    exact .inl fun t ht => by simpa using h t ht
  · rintro (h | ⟨-,h⟩) t ht
    · rw [h t ht]
    · exact absurd (hzero.mpr fun t ht => (h t ht).2) h0

def bareRegex : RegexEnv := ⟨fun _ => true,fun _ => false,fun _ => false⟩

theorem querytype_named_set_sample :
    (∀ t, t ≠ .none → (regexData bareRegex 1 "x;querytype=!A,mx".toList).considers t =
      (namedIn [['A'],['m','x']] t != true)) ↔ typesKept true [['A'],['m','x']] :=
  querytype_named_set bareRegex 1 "x;querytype=!A,mx".toList ['x'] [] [] [['A'],['m','x']] true {}
    (by decide) (by decide) rfl rfl (by decide) (by decide)

/-- A type that is named twice is not looked at. -/
theorem querytype_named_set_fail :
    (regexData bareRegex 1 "x;querytype=A,A,MX".toList).considers .a = false ∧
      namedIn [['A'],['A'],['M','X']] .a = true := by
  decide

end

def typeList (list : List Char) : Bool :=
  ((if list.head? = some '!' then list.drop 1 else list).splitOn ',').all
    (fun n => (typeNamed n).isSome)

def cnameReply (x : List Char) : Bool :=
  strcasecmp (x.take 6) "CNAME,".toList && decide (6 < x.length)

def replyNames : List (List Char) :=
  ["NODATA".toList,"NXDOMAIN".toList,"REFUSED".toList,"IP".toList,"NONE".toList]

def documentedReply (E : RegexEnv) (x : List Char) : Bool :=
  replyNames.any (strcasecmp x) || E.inetPton4 x || E.inetPton6 x || cnameReply x

def documentedOption (E : RegexEnv) (o : List Char) : Bool :=
  strcasecmp o "invert".toList ||
  (querytypeKey.isPrefixOf o && typeList (o.drop querytypeKey.length)) ||
  (replyKey.isPrefixOf o && documentedReply E (o.drop replyKey.length))

/-- What `sscanf` stores is all that stands behind the keyword. -/
def wholeText (o : List Char) : Prop :=
  (querytypeKey.isPrefixOf o → scanWord querytypeKey 63 o = some (o.drop querytypeKey.length)) ∧
  (replyKey.isPrefixOf o → scanWord replyKey 255 o = some (o.drop replyKey.length))

/-- The text before the first semicolon is the pattern, and every option has a documented form and
is used as a whole. -/
def Documented (E : RegexEnv) (s pattern : List Char) : Prop :=
  pattern = (s.splitOn ';').headD [] ∧
    ∀ o ∈ (s.splitOn ';').tail, documentedOption E o ∧ wholeText o

def cutShort (width : Nat) (value : List Char) : Bool :=
  value.any isspace || decide (width < value.length)

/-- An option accepted although not documented or not used as a whole: its value has white space
or is too long, a list has an empty or an unknown name, or a reply only begins like `CNAME`. -/
def looseOption (E : RegexEnv) (o : List Char) : Bool :=
  (querytypeKey.isPrefixOf o &&
    (cutShort 63 (o.drop querytypeKey.length) || !typeList (o.drop querytypeKey.length))) ||
  (replyKey.isPrefixOf o &&
    (cutShort 255 (o.drop replyKey.length) ||
      !E.inetPton4 (o.drop replyKey.length) && !E.inetPton6 (o.drop replyKey.length) &&
      strcasecmp ((o.drop replyKey.length).take 4) ("CNAME".toList.take 4) &&
      !cnameReply (o.drop replyKey.length)))

/-- There is such an option, or nothing stands in front of, between or behind semicolons. -/
def loose (E : RegexEnv) (s : List Char) : Bool :=
  (decide (1 < (s.splitOn ';').length) && (s.splitOn ';').contains []) ||
    (s.splitOn ';').tail.any (looseOption E)

section

variable {E : RegexEnv} {ext ext' : RegexExt} {o s pattern : List Char}

theorem strcasecmp_take {v w : List Char} (h : strcasecmp v w) (n : Nat) (u : List Char) :
    strcasecmp (v.take n) u = strcasecmp (w.take n) u := by
  rw [strcasecmp,decide_eq_true_eq] at h
  rw [strcasecmp,strcasecmp,map_take,h,map_take]

variable {keyword extra : List Char} {os : List (List Char)} {p : List Char} {width : Nat}

theorem scanWord_word (h : scanWord keyword width o = some extra) :
    cutShort width extra = false := by
  have hword (v : List Char) : cutShort width
      ((v.takeWhile (fun c => !isspace c)).take width) = false := by
    rw [cutShort,Bool.or_eq_false_iff,decide_eq_false_iff_not,any_eq_false]
    refine ⟨fun c hc => ?_,by simp⟩
    simpa using mem_takeWhile_imp (mem_of_mem_take hc)
  rw [scanWord] at h
  split at h
  · cases h
    exact hword _
  split at h
  · cases h
    simp [cutShort]
  · cases h

theorem scanWord_uncut {keyword : List Char} {width : Nat} (hk : keyword.isPrefixOf o)
    (h : cutShort width (o.drop keyword.length) = false) :
    scanWord keyword width o = some (o.drop keyword.length) := by
  obtain ⟨v,rfl⟩ := List.isPrefixOf_iff_prefix.mp hk
  rw [drop_left] at h ⊢
  rw [cutShort,Bool.or_eq_false_iff,decide_eq_false_iff_not,any_eq_false] at h
  rw [scanWord_whole width (fun c hc => by simpa using h.1 c hc),
    take_of_length_le (by omega)]

theorem key_head {key : List Char} {c : Char} (hc : key.head? = some c) (h : key.isPrefixOf o) :
    o.head? = some c := by
  obtain ⟨v,rfl⟩ := List.isPrefixOf_iff_prefix.mp h
  rw [head?_append,hc]
  rfl

theorem querytypeKey_head (h : querytypeKey.isPrefixOf o) : o.head? = some 'q' :=
  key_head (by decide) h

theorem replyKey_head (h : replyKey.isPrefixOf o) : o.head? = some 'r' := key_head (by decide) h

theorem invert_head (h : strcasecmp o "invert".toList) : o.head?.map Char.toLower = some 'i' := by
  rw [strcasecmp,decide_eq_true_eq] at h
  rw [← head?_map,h]
  decide

theorem not_querytype_reply (h : replyKey.isPrefixOf o) : querytypeKey.isPrefixOf o = false := by
  refine Bool.eq_false_iff.mpr fun hq => ?_
  have := (querytypeKey_head hq).symm.trans (replyKey_head h)
  revert this
  decide

theorem not_key_invert (h : strcasecmp o "invert".toList) :
    querytypeKey.isPrefixOf o = false ∧ replyKey.isPrefixOf o = false := by
  have hi := invert_head h
  constructor
  · refine Bool.eq_false_iff.mpr fun hq => ?_
    rw [querytypeKey_head hq] at hi
    revert hi
    decide
  · refine Bool.eq_false_iff.mpr fun hq => ?_
    rw [replyKey_head hq] at hi
    revert hi
    decide

theorem scanWord_nil (h : scanWord keyword width o = some extra) (hk : keyword.isPrefixOf o = false) :
    extra = [] := by
  rw [scanWord,hk] at h
  simp only [Bool.false_eq_true,if_false] at h
  split at h
  · cases h
    rfl
  · cases h

theorem documentedReply_name {x w : List Char} (hw : w ∈ replyNames) (h : strcasecmp x w) :
    documentedReply E x := by
  have hany : replyNames.any (strcasecmp x) := any_eq_true.mpr ⟨w,hw,h⟩
  simp only [documentedReply,hany,Bool.true_or]

theorem parseReply_documented {x : List Char} (h : parseReply E ext x = .ok ext')
    (hc : E.inetPton4 x = false → E.inetPton6 x = false →
      strcasecmp (x.take 4) ("CNAME".toList.take 4) → cnameReply x) : documentedReply E x := by
  rw [parseReply] at h
  split at h
  · exact documentedReply_name (w := "NODATA".toList) (by decide) ‹_›
  split at h
  · exact documentedReply_name (w := "NXDOMAIN".toList) (by decide) ‹_›
  split at h
  · exact documentedReply_name (w := "REFUSED".toList) (by decide) ‹_›
  split at h
  · exact documentedReply_name (w := "IP".toList) (by decide) ‹_›
  split at h
  · rename_i hx
    simp [documentedReply,hx]
  rename_i hi4
  split at h
  · rename_i hx
    simp [documentedReply,hx]
  rename_i hi6
  split at h
  · exact documentedReply_name (w := "NONE".toList) (by decide) ‹_›
  split at h
  · rename_i hx
    simp [documentedReply,hc (by simpa using hi4) (by simpa using hi6) hx]
  · cases h

/-- What an accepted option is if it is not loose. -/
theorem parseOption_documented (h4 : E.inetPton4 [] = false) (h6 : E.inetPton6 [] = false)
    (h : parseOption E ext o = .ok ext') (hl : looseOption E o = false) :
    documentedOption E o ∧ wholeText o := by
  rw [looseOption,Bool.or_eq_false_iff] at hl
  obtain ⟨hq,hr⟩ := hl
  by_cases hqk : querytypeKey.isPrefixOf o
  · have hrk : replyKey.isPrefixOf o = false := by
      refine Bool.eq_false_iff.mpr fun hr => ?_
      rw [not_querytype_reply hr] at hqk
      cases hqk
    simp only [hqk,Bool.true_and,Bool.or_eq_false_iff,Bool.not_eq_false'] at hq
    refine ⟨by rw [documentedOption,hqk,hq.2]; simp,fun _ => scanWord_uncut hqk hq.1,fun h => ?_⟩
    rw [hrk] at h
    cases h
  have hqk : querytypeKey.isPrefixOf o = false := Bool.eq_false_iff.mpr hqk
  have hwhole (h : querytypeKey.isPrefixOf o) :
      scanWord querytypeKey 63 o = some (o.drop querytypeKey.length) := by
    rw [hqk] at h
    cases h
  rw [parseOption] at h
  cases hs : scanWord querytypeKey 63 o with
  | some extra =>
    -- the text ends inside the keyword
    rw [hs,scanWord_nil hs hqk] at h
    have hmask : queryMask (strtok ',' []) = 0 := by decide
    simp only [parseQuerytype,head?_nil,drop_nil,ite_self,hmask,if_true] at h
    split at h <;> cases h
  | none =>
    simp only [hs] at h
    split at h
    · rename_i hi
      refine ⟨by rw [documentedOption,hi]; rfl,hwhole,fun h => ?_⟩
      rw [(not_key_invert hi).2] at h
      cases h
    cases hw : scanWord replyKey 255 o with
    | none => simp [hw] at h
    | some extra =>
      simp only [hw] at h
      by_cases hrk : replyKey.isPrefixOf o
      · simp only [hrk,Bool.true_and,Bool.or_eq_false_iff] at hr
        have hval := scanWord_uncut hrk hr.1
        rw [hw,Option.some.injEq] at hval
        rw [hval] at h
        have hdoc := parseReply_documented h fun hi4 hi6 hc => by
          have hr := hr.2
          rw [hi4,hi6,hc] at hr
          simpa using hr
        exact ⟨by rw [documentedOption,hrk,hdoc]; simp,hwhole,fun _ => by rw [hw,hval]⟩
      · rw [scanWord_nil hw (Bool.eq_false_iff.mpr hrk),parseReply,if_neg (by decide),
          if_neg (by decide),if_neg (by decide),if_neg (by decide),if_neg (by simp [h4]),
          if_neg (by simp [h6]),if_neg (by decide),if_neg (by decide)] at h
        cases h

theorem not_loose_of_documented (hd : documentedOption E o) (hw : wholeText o) :
    looseOption E o = false := by
  have hnames : ∀ w ∈ replyNames, strcasecmp (w.take 4) ("CNAME".toList.take 4) = false := by decide
  rw [looseOption,Bool.or_eq_false_iff]
  simp only [documentedOption,Bool.or_eq_true,Bool.and_eq_true] at hd
  constructor
  · by_cases hq : querytypeKey.isPrefixOf o
    · have hcut := scanWord_word (hw.1 hq)
      rcases hd with (hi | hd) | hd
      · rw [(not_key_invert hi).1] at hq
        cases hq
      · simp [hq,hcut,hd.2]
      · rw [not_querytype_reply hd.1] at hq
        cases hq
    · simp [hq]
  by_cases hr : replyKey.isPrefixOf o
  · have hcut := scanWord_word (hw.2 hr)
    rcases hd with (hi | hd) | hd
    · rw [(not_key_invert hi).2] at hr
      cases hr
    · rw [not_querytype_reply hr] at hd
      cases hd.1
    simp only [hr,hcut,Bool.true_and,Bool.false_or]
    have hdoc := hd.2
    simp only [documentedReply,Bool.or_eq_true,any_eq_true] at hdoc
    rcases hdoc with ((⟨w,hw,hx⟩ | hx) | hx) | hx
    · rw [strcasecmp_take hx,hnames w hw,Bool.and_false,Bool.false_and]
    · simp [hx]
    · simp [hx]
    · simp [hx]
  · simp [hr]

theorem foldlM_accepted (h : os.foldlM (parseOption E) ext = .ok ext') :
    ∀ o ∈ os, ∃ a b, parseOption E a o = .ok b := by
  induction os generalizing ext with
  | nil => simp
  | cons o os ih =>
    cases ho : parseOption E ext o with
    | error m => simp [ho,bind,Except.bind] at h
    | ok e =>
      have hrest : os.foldlM (parseOption E) e = .ok ext' := by
        simpa [ho,bind,Except.bind] using h
      exact forall_mem_cons.mpr ⟨⟨ext,e,ho⟩,ih hrest⟩

theorem compileRegex_ok (h : compileRegex E s = .ok (pattern,ext)) :
    pattern = (regexParts s).1 ∧ (regexParts s).2.foldlM (parseOption E) {} = .ok ext := by
  rw [compileRegex] at h
  cases hf : (regexParts s).2.foldlM (parseOption E) {} with
  | error m => simp [hf,bind,Except.bind] at h
  | ok e =>
    simp only [hf,bind,Except.bind] at h
    split at h
    · cases h
      exact ⟨rfl,rfl⟩
    · cases h

theorem semicolon_iff {os : List (List Char)} (hs : s.splitOn ';' = p :: os) :
    ';' ∈ s ↔ os ≠ [] := by
  constructor
  · rintro hsemi rfl
    obtain ⟨u,v,rfl⟩ := append_of_mem hsemi
    obtain ⟨a,as,ha⟩ := exists_splitOn (b := ';') u
    obtain ⟨c,cs,hc⟩ := exists_splitOn (b := ';') v
    rw [splitOn_append_cons_self,ha,hc] at hs
    simp at hs
  · intro hne
    by_contra hsemi
    have := splitOn_append hsemi []
    rw [append_nil,hs] at this
    simp [splitOn,hne] at this

theorem regexParts_segments {os : List (List Char)} (hs : s.splitOn ';' = p :: os)
    (hne : os = [] ∨ [] ∉ p :: os) : regexParts s = (p,os) := by
  rw [regexParts]
  by_cases hsemi : ';' ∈ s
  · have hno := hne.resolve_left ((semicolon_iff hs).mp hsemi)
    have htok : strtok ';' s = p :: os := by
      rw [strtok,hs,filter_eq_self]
      intro t ht
      simpa using ne_of_mem_of_not_mem ht hno
    rw [if_pos hsemi,htok]
  · have := splitOn_append hsemi []
    rw [append_nil,hs] at this
    have hone : p = s ∧ os = [] := by simpa [splitOn] using this
    rw [if_neg hsemi,hone.1,hone.2]

theorem regexParts_lead (hs : s.splitOn ';' = [] :: os) (hne : os ≠ []) (hfull : [] ∉ os) :
    (regexParts s).1 ≠ [] := by
  cases os with
  | nil => exact absurd rfl hne
  | cons o os =>
    have ho : o ≠ [] := fun h => hfull (by simp [h])
    have htok : strtok ';' s = o :: os.filter (fun t => t ≠ []) := by
      rw [strtok,hs]
      simp [ho]
    rw [regexParts,if_pos ((semicolon_iff hs).mpr hne),htok]
    exact ho

/-- What is accepted has the documented form and is used as a whole exactly if it is not
`loose`. -/
theorem regex_options_documented (E : RegexEnv) (h4 : E.inetPton4 [] = false)
    (h6 : E.inetPton6 [] = false) (s pattern : List Char) (ext : RegexExt)
    (h : compileRegex E s = .ok (pattern,ext)) : Documented E s pattern ↔ loose E s = false := by
  obtain ⟨hpat,hfold⟩ := compileRegex_ok h
  obtain ⟨p,os,hs⟩ := exists_splitOn (b := ';') s
  simp only [Documented,loose,hs,headD_cons,tail_cons,Bool.or_eq_false_iff,
    Bool.and_eq_false_iff,decide_eq_false_iff_not,any_eq_false]
  constructor
  · rintro ⟨rfl,hdoc⟩
    refine ⟨?_,fun o ho => by simp [not_loose_of_documented (hdoc o ho).1 (hdoc o ho).2]⟩
    by_cases hos : os = []
    · simp [hos]
    right
    have hfull : [] ∉ os := by
      intro hmem
      have := (hdoc [] hmem).1
      cases this
    refine Bool.eq_false_iff.mpr fun hc => ?_
    rcases mem_cons.mp (contains_iff_mem.mp hc) with hp | hp
    · exact regexParts_lead (hp ▸ hs) hos hfull (hpat.symm.trans hp.symm)
    · exact hfull hp
  rintro ⟨hseg,hloose⟩
  have hparts : regexParts s = (p,os) := by
    refine regexParts_segments hs ?_
    rcases hseg with hseg | hseg
    · left
      simpa using hseg
    · right
      simpa using hseg
  rw [hparts] at hpat hfold
  refine ⟨hpat,fun o ho => ?_⟩
  obtain ⟨a,b,hab⟩ := foldlM_accepted hfold o ho
  exact parseOption_documented h4 h6 hab (by simpa using hloose o ho)

theorem regex_options_documented_sample : Documented bareRegex "x;invert".toList ['x'] :=
  (regex_options_documented bareRegex rfl rfl "x;invert".toList ['x'] { inverted := true } rfl).mpr
    (by decide)

/-- An option in front of which nothing stands is taken as the pattern. -/
theorem regex_options_documented_fail :
    compileRegex bareRegex ";invert".toList = .ok ("invert".toList,{}) ∧
      ¬ Documented bareRegex ";invert".toList "invert".toList := by
  refine ⟨rfl,fun h => ?_⟩
  have := h.1
  revert this
  decide

end

end Lorentz
