import Lorentz.Library.Utf8
import Lorentz.ConfigFile

/-!
The values of `lorentz.toml` as text: what `writeTOMLvalue` writes, the TOML values such a text
stands for, and which `readTOMLvalue` gets back. A text is the list of its bytes.
-/

set_option autoImplicit false

namespace Lorentz

open BasicString List

namespace TomlText

def skipBlank : Bool → List Char → List Char
  | _, [] => []
  | true, c :: cs => skipBlank (c ≠ '\n') cs
  | false, c :: cs =>
    if c = ' ' ∨ c = '\t' ∨ c = '\n' then skipBlank false cs
    else if c = '#' then skipBlank true cs
    else if c = '\r' ∧ cs.head? = some '\n' then skipBlank false cs
    else c :: cs

def INT64_MIN : Int := -9223372036854775808

def INT64_MAX : Int := 9223372036854775807

def signed (negative : Bool) (n : Nat) : Int := if negative then -n else n

section

-- the double next to a number
variable (nearest : Rat → Rat)

def readDecimal (negative : Bool) (cs : List Char) : Option (Toml × List Char) :=
  let ds := cs.takeWhile Char.isDigit
  if ds = [] ∨ 1 < ds.length ∧ ds.head? = some '0' then none
  else
    match cs.dropWhile Char.isDigit with
    | '.' :: cs =>
      let fs := cs.takeWhile Char.isDigit
      if fs = [] then none
      else
        let n := signed negative (Nat.ofDigitChars 10 (ds ++ fs) 0)
        some (.fp64 (nearest (n/10^fs.length)),cs.dropWhile Char.isDigit)
    | cs =>
      let n := signed negative (Nat.ofDigitChars 10 ds 0)
      if INT64_MIN ≤ n ∧ n ≤ INT64_MAX then some (.int64 n,cs) else none

def readNumber : List Char → Option (Toml × List Char)
  | '-' :: cs => readDecimal nearest true cs
  | '+' :: cs => readDecimal nearest false cs
  | cs => readDecimal nearest false cs

mutual

def readValue : Nat → List Char → Option (Toml × List Char)
  | 0, _ => none
  | fuel+1, cs =>
    match cs with
    | '"' :: cs => (readBasic cs).map (fun r => (.str r.1,r.2))
    | '[' :: cs => (readItems fuel (skipBlank false cs)).map (fun r => (.arr r.1,r.2))
    | 't' :: 'r' :: 'u' :: 'e' :: cs => some (.bool true,cs)
    | 'f' :: 'a' :: 'l' :: 's' :: 'e' :: cs => some (.bool false,cs)
    | cs => readNumber nearest cs

def readItems : Nat → List Char → Option (List Toml × List Char)
  | 0, _ => none
  | fuel+1, cs =>
    if cs.head? = some ']' then some ([],cs.tail)
    else
      match readValue fuel cs with
      | none => none
      | some (v,cs) =>
        match skipBlank false cs with
        | ']' :: cs => some ([v],cs)
        | ',' :: cs => (readItems fuel (skipBlank false cs)).map (fun r => (v :: r.1,r.2))
        | _ => none

end

/-- The value of a TOML text with only booleans, decimal numbers, basic strings and arrays. The
parser is used without its check of UTF-8. -/
def parse (cs : List Char) : Option Toml :=
  match readValue nearest (cs.length+2) cs with
  | some (v,[]) => some v
  | _ => none

end

end TomlText

/-- The string behind `get_ptr_type_str` and its siblings. -/
def ConfType.names : ConfType → List String
  | .ptrType => ["LORENTZ.LAN","HOSTNAME","HOSTNAMEFQDN","NONE"]
  | .busyType => ["BLOCK","ALLOW","REFUSE","DROP"]
  | .blockingMode => ["IP","NX","NULL","IP_NODATA_AAAA","NODATA"]
  | .refreshHostnames => ["ALL","IPV4_ONLY","UNKNOWN","NONE"]
  | .listeningMode => ["LOCAL","ALL","SINGLE","BIND","NONE"]
  | .webTheme => ["default-auto","default-light","default-dark","default-darker","high-contrast",
      "high-contrast-dark","lcars"]
  | .tempUnit => ["C","F","K"]
  | .blockingEdnsMode => ["NONE","CODE","TEXT"]
  | _ => []

/-- `get_ptr_type_str` and its siblings: without a name NULL, which is written as the empty
string, and for two of them `N/A`. -/
def ConfType.optionStr (t : ConfType) (n : Int) : List Char :=
  match t.names[n.toNat]? with
  | some name => name.toList
  | none => if t = .refreshHostnames ∨ t = .blockingMode then "N/A".toList else []

def printTOMLstring (s : List Char) : List Char := '"' :: escape s ++ ['"']

def indentTOML (indent : Nat) : List Char := List.replicate (2*indent) ' '

/-- The millionths that `%f` prints: the next whole number, the even one of two. -/
def millionths (d : Rat) : Nat :=
  let x : Rat := |d| * 10^6
  let f : Nat := ⌊x⌋.toNat
  if x-f < 1/2 ∨ x-f = 1/2 ∧ f%2 = 0 then f else f+1

def printDouble (d : Rat) : List Char :=
  let fraction := Nat.toDigits 10 (millionths d%10^6)
  (if d < 0 then ['-'] else []) ++ Nat.toDigits 10 (millionths d/10^6) ++
    '.' :: List.replicate (6-fraction.length) '0' ++ fraction

/-- The blanks in front of an element. Without an indentation the array is in one line. -/
def beforeElement : Option Nat → List Char
  | some n => indentTOML (n+1)
  | none => []

def elementEnd (indent : Option Nat) : Char := if indent.isSome then '\n' else ' '

def beforeEnd : Option Nat → List Char
  | some n => indentTOML n
  | none => []

/-- Empty elements are skipped. The comma is for the next element, be it empty or not. -/
def writeElements (indent : Option Nat) : List (List Char) → List Char
  | [] => []
  | s :: l =>
    if s = [] then writeElements indent l
    else
      beforeElement indent ++ printTOMLstring s ++ (if l ≠ [] then [','] else []) ++
        elementEnd indent :: writeElements indent l

def writeArray (indent : Option Nat) (l : List (List Char)) : List Char :=
  if l = [] then ['[',']']
  else '[' :: elementEnd indent :: (writeElements indent l ++ (beforeEnd indent ++ [']']))

section

variable (inetNtop4 inetNtop6 : Nat → List Char)

def writeTOMLvalue (indent : Option Nat) : ConfType → ConfVal → List Char
  | .bool, .bool b | .allDebugBool, .bool b => if b then "true".toList else "false".toList
  | .int, .num n | .uint, .num n | .uint16, .num n | .privacyLevel, .num n => printInteger n
  | .double, .double d => printDouble d
  | .string, .text s => printTOMLstring s
  | .password, _ => printTOMLstring PASSWORD_VALUE
  | .inAddr, .num a => printTOMLstring (if a = 0 then [] else inetNtop4 a.toNat)
  | .in6Addr, .num a => printTOMLstring (if a = 0 then [] else inetNtop6 a.toNat)
  | .jsonStringArray, .strings l => writeArray indent l
  | t, .num n => printTOMLstring (t.optionStr n)
  | _, _ => []

end

def PlainText (s : List Char) : Prop := ∀ c ∈ s, c.toNat ≠ DEL

namespace TomlText

variable {nearest : Rat → Rat}

variable {cs : List Char} {s : List Char}

theorem parse_eq_some {v : Toml} (h : readValue nearest (cs.length+2) cs = some (v,[])) :
    parse nearest cs = some v := by
  rw [parse,h]

theorem parse_eq_none (h : readValue nearest (cs.length+2) cs = none) :
    parse nearest cs = none := by
  rw [parse,h]

theorem parse_string (hs : PlainText s) : parse nearest (printTOMLstring s) = some (.str s) := by
  refine parse_eq_some ?_
  rw [printTOMLstring,cons_append,readValue,readBasic_escape hs]
  rfl

theorem exists_del (hs : ¬ PlainText s) : ∃ c ∈ s, c.toNat = DEL := by
  by_contra h
  exact hs (fun c hc hdel => h ⟨c,hc,hdel⟩)

theorem parse_string_none (hs : ¬ PlainText s) : parse nearest (printTOMLstring s) = none := by
  refine parse_eq_none ?_
  rw [printTOMLstring,cons_append,readValue,readBasic_escape_del (exists_del hs)]
  rfl

section

variable {indent : Option Nat} {l : List (List Char)}

def isBlankChar (c : Char) : Bool := c = ' ' || c = '\n'

theorem skipBlank_append {b t : List Char} (hb : ∀ c ∈ b, isBlankChar c) :
    skipBlank false (b ++ t) = skipBlank false t := by
  induction b with
  | nil => rfl
  | cons c b ih =>
    have hc : c = ' ' ∨ c = '\t' ∨ c = '\n' := by
      have := hb c (by simp)
      simp only [isBlankChar,Bool.or_eq_true,decide_eq_true_eq] at this
      tauto
    rw [cons_append,skipBlank,if_pos hc,ih (fun d hd => hb d (mem_cons_of_mem c hd))]

theorem blank_indentTOML (n : Nat) : ∀ c ∈ indentTOML n, isBlankChar c := by
  intro c hc
  rw [eq_of_mem_replicate hc]
  rfl

theorem blank_beforeElement : ∀ c ∈ beforeElement indent, isBlankChar c := by
  cases indent with
  | none => simp [beforeElement]
  | some n => exact blank_indentTOML (n+1)

theorem isBlankChar_elementEnd : isBlankChar (elementEnd indent) = true := by
  cases indent <;> rfl

theorem writeElements_cons {s : List Char} (hs : s ≠ []) (t : List Char) :
    writeElements indent (s :: l) ++ t =
      beforeElement indent ++ '"' :: (escape s ++ '"' :: ((if l ≠ [] then [','] else []) ++
        elementEnd indent :: (writeElements indent l ++ t))) := by
  rw [writeElements,if_neg hs]
  simp [printTOMLstring]

variable (u : List Char) {t : List Char}

theorem skipBlank_elementEnd : skipBlank false (elementEnd indent :: u) = skipBlank false u :=
  skipBlank_append (b := [elementEnd indent]) (by simp [isBlankChar_elementEnd])

theorem skipBlank_quote : skipBlank false ('"' :: u) = '"' :: u := by
  simp [skipBlank]

theorem skipBlank_comma : skipBlank false (',' :: u) = ',' :: u := by
  simp [skipBlank]

def ClosesArray (t : List Char) : Prop := skipBlank false t = [']']

theorem readItems_elements (ht : ClosesArray t) (hl : ∀ s ∈ l, PlainText s) {fuel : Nat}
    (hf : (l.filter (· ≠ [])).length+1 < fuel) :
    readItems nearest fuel (skipBlank false (writeElements indent l ++ t)) =
      some ((l.filter (· ≠ [])).map Toml.str,[]) := by
  induction l generalizing fuel with
  | nil =>
    obtain ⟨fuel,rfl⟩ : ∃ n, fuel = n+1 := ⟨fuel-1,by omega⟩
    rw [writeElements,nil_append,show skipBlank false t = [']'] from ht]
    rfl
  | cons s l ih =>
    have hl' : ∀ s ∈ l, PlainText s := fun u hu => hl u (mem_cons_of_mem s hu)
    by_cases hs : s = []
    · subst hs
      have hih := ih hl' (by simpa using hf)
      simpa [writeElements] using hih
    have hfilter : (s :: l).filter (· ≠ []) = s :: l.filter (· ≠ []) := by simp [hs]
    rw [hfilter,length_cons] at hf
    obtain ⟨fuel,rfl⟩ : ∃ n, fuel = n+1+1 := ⟨fuel-2,by omega⟩
    have hvalue : ∀ u, readValue nearest (fuel+1) ('"' :: (escape s ++ '"' :: u)) =
        some (.str s,u) := by
      intro u
      rw [readValue,readBasic_escape (hl s (by simp))]
      rfl
    rw [writeElements_cons hs,skipBlank_append blank_beforeElement,skipBlank_quote,readItems,
      if_neg (by simp),hvalue,hfilter]
    by_cases hempty : l = []
    · subst hempty
      simp only [ne_eq,not_true_eq_false,if_false,nil_append,skipBlank_elementEnd,
        writeElements]
      rw [show skipBlank false t = [']'] from ht]
      rfl
    simp only [ne_eq,hempty,not_false_eq_true,if_true,cons_append,nil_append,
      skipBlank_comma,skipBlank_elementEnd]
    have hih := ih hl' (by omega : (l.filter (· ≠ [])).length+1 < fuel+1)
    rw [hih]
    rfl

theorem readItems_elements_none (hl : ∃ s ∈ l, ∃ c ∈ s, c.toNat = DEL) {fuel : Nat} :
    readItems nearest fuel (skipBlank false (writeElements indent l ++ t)) = none := by
  induction l generalizing fuel with
  | nil => simp at hl
  | cons s l ih =>
    by_cases hs : s = []
    · subst hs
      have hl' : ∃ s ∈ l, ∃ c ∈ s, c.toNat = DEL := by simpa using hl
      simpa [writeElements] using ih hl'
    rw [writeElements_cons hs,skipBlank_append blank_beforeElement,skipBlank_quote]
    cases fuel with
    | zero => rfl
    | succ fuel =>
      rw [readItems,if_neg (by simp)]
      cases fuel with
      | zero => rfl
      | succ fuel =>
        by_cases hdel : ∃ c ∈ s, c.toNat = DEL
        · rw [readValue,readBasic_escape_del hdel]
          rfl
        have hplain : ∀ c ∈ s, c.toNat ≠ DEL := fun c hc h => hdel ⟨c,hc,h⟩
        have hl' : ∃ s ∈ l, ∃ c ∈ s, c.toNat = DEL := by
          obtain ⟨u,hu,hdu⟩ := hl
          rcases mem_cons.mp hu with rfl | hu
          · exact absurd hdu hdel
          · exact ⟨u,hu,hdu⟩
        have hempty : l ≠ [] := by
          rintro rfl
          simp at hl'
        rw [readValue,readBasic_escape hplain]
        simp only [hempty,ne_eq,not_false_eq_true,if_true,cons_append,nil_append,
          Option.map_some,skipBlank_comma,skipBlank_elementEnd,ih hl',Option.map_none]

theorem blank_beforeEnd : ∀ c ∈ beforeEnd indent, isBlankChar c := by
  cases indent with
  | none => simp [beforeEnd]
  | some n => exact blank_indentTOML n

theorem closesArray_beforeEnd : ClosesArray (beforeEnd indent ++ [']']) := by
  rw [ClosesArray,skipBlank_append blank_beforeEnd]
  simp [skipBlank]

theorem length_filter_le_elements (indent : Option Nat) (l : List (List Char)) :
    (l.filter (· ≠ [])).length ≤ (writeElements indent l).length := by
  induction l with
  | nil => exact Nat.le_refl _
  | cons s l ih =>
    by_cases hs : s = []
    · subst hs
      simpa [writeElements] using ih
    have hfilter : (s :: l).filter (· ≠ []) = s :: l.filter (· ≠ []) := by simp [hs]
    rw [hfilter,writeElements,if_neg hs]
    simp only [length_cons,length_append]
    omega

theorem readValue_array (hl : l ≠ []) (fuel : Nat) :
    readValue nearest (fuel+1) (writeArray indent l) =
      (readItems nearest fuel (skipBlank false
        (writeElements indent l ++ (beforeEnd indent ++ [']'])))).map (fun r => (.arr r.1,r.2)) := by
  rw [writeArray,if_neg hl,readValue,skipBlank_elementEnd]

theorem parse_array (h : ∀ s ∈ l, PlainText s) :
    parse nearest (writeArray indent l) = some (.arr ((l.filter (· ≠ [])).map Toml.str)) := by
  refine parse_eq_some ?_
  by_cases hl : l = []
  · subst hl
    rfl
  have hle := length_filter_le_elements indent l
  have hlen : (l.filter (· ≠ [])).length+1 < (writeArray indent l).length+1 := by
    rw [writeArray,if_neg hl]
    simp only [length_cons,length_append]
    omega
  rw [readValue_array hl,readItems_elements closesArray_beforeEnd h hlen]
  rfl

theorem parse_array_none (h : ∃ s ∈ l, ¬ PlainText s) :
    parse nearest (writeArray indent l) = none := by
  obtain ⟨s,hs,hplain⟩ := h
  refine parse_eq_none ?_
  rw [readValue_array (ne_nil_of_mem hs),readItems_elements_none ⟨s,hs,exists_del hplain⟩]
  rfl

end

section

theorem head?_toDigits {n : Nat} (hn : 0 < n) : (Nat.toDigits 10 n).head? ≠ some '0' := by
  induction n using Nat.strong_induction_on with
  | _ n ih =>
    by_cases hlt : n < 10
    · rw [Nat.toDigits_of_lt_base hlt]
      have hdigit : ∀ m < 10, 0 < m → Nat.digitChar m ≠ '0' := by decide
      simpa using hdigit n hlt hn
    · rw [Nat.toDigits_of_base_le (by decide) (by omega),
        head?_append_of_ne_nil _ Nat.toDigits_ne_nil]
      exact ih (n/10) (by omega) (by omega)

variable (n : Nat) {ds rest : List Char} {negative : Bool} {fuel : Nat}

theorem no_leading_zero : ¬ (Nat.toDigits 10 n = [] ∨
      1 < (Nat.toDigits 10 n).length ∧ (Nat.toDigits 10 n).head? = some '0') := by
  rintro (h | ⟨hlen,hzero⟩)
  · exact Nat.toDigits_ne_nil h
  · rcases Nat.eq_zero_or_pos n with rfl | hn
    · exact absurd hlen (by decide)
    · exact head?_toDigits hn hzero

theorem isDigit_toDigits : ∀ c ∈ Nat.toDigits 10 n, c.isDigit = true :=
  fun _ hc => Nat.isDigit_of_mem_toDigits (by decide) (by decide) hc

theorem span_digits (hds : ∀ c ∈ ds, c.isDigit = true) (hr : ∀ c ∈ rest.head?, c.isDigit = false) :
    (ds ++ rest).takeWhile Char.isDigit = ds ∧ (ds ++ rest).dropWhile Char.isDigit = rest := by
  rw [takeWhile_append_of_pos hds,dropWhile_append_of_pos hds]
  cases rest with
  | nil => simp
  | cons c cs => simp [hr c rfl]

theorem readDecimal_integer {n : Nat}
    (hn : INT64_MIN ≤ signed negative n ∧ signed negative n ≤ INT64_MAX) :
    readDecimal nearest negative (Nat.toDigits 10 n) = some (.int64 (signed negative n),[]) := by
  have htake := takeWhile_eq_self_iff.mpr (isDigit_toDigits n)
  have hdrop := dropWhile_eq_nil_iff.mpr (isDigit_toDigits n)
  simp only [readDecimal,htake,hdrop,if_neg (no_leading_zero n),Nat.ofDigitChars_ten_toDigits,
    if_pos hn]

theorem readDecimal_fraction {n : Nat} {fs : List Char} (hne : fs ≠ [])
    (hfs : ∀ c ∈ fs, c.isDigit = true) :
    readDecimal nearest negative (Nat.toDigits 10 n ++ '.' :: fs) =
      some (.fp64 (nearest ((signed negative (10^fs.length*n+Nat.ofDigitChars 10 fs 0) : Int)/
        10^fs.length)),[]) := by
  have hdot : ∀ c ∈ ('.' :: fs).head?, c.isDigit = false := by
    intro c hc
    cases hc
    rfl
  obtain ⟨hint,hrest⟩ := span_digits (isDigit_toDigits n) hdot
  have htake := takeWhile_eq_self_iff.mpr hfs
  have hdrop := dropWhile_eq_nil_iff.mpr hfs
  simp only [readDecimal,hint,hrest,if_neg (no_leading_zero n),htake,hdrop,
    if_neg hne,Nat.ofDigitChars_append,Nat.ofDigitChars_ten_toDigits]
  rw [Nat.ofDigitChars_eq_ofDigitChars_zero]

theorem readNumber_minus (cs : List Char) :
    readNumber nearest ('-' :: cs) = readDecimal nearest true cs := rfl

theorem exists_cons_toDigits (rest : List Char) :
    ∃ c cs, Nat.toDigits 10 n ++ rest = c :: cs ∧ c.isDigit = true := by
  obtain ⟨c,cs,hcs⟩ := exists_cons_of_ne_nil (Nat.toDigits_ne_nil (n := n) (b := 10))
  exact ⟨c,cs ++ rest,by rw [hcs]; rfl,isDigit_toDigits n c (by simp [hcs])⟩

theorem readNumber_digits (rest : List Char) : readNumber nearest (Nat.toDigits 10 n ++ rest) =
      readDecimal nearest false (Nat.toDigits 10 n ++ rest) := by
  obtain ⟨c,cs,hcs,hc⟩ := exists_cons_toDigits n rest
  rw [hcs]
  unfold readNumber
  split
  · rename_i heq
    cases heq
    exact absurd hc (by decide)
  · rename_i heq
    cases heq
    exact absurd hc (by decide)
  · rfl

theorem readValue_number {c : Char} {cs : List Char} (hc : c.isDigit = true ∨ c = '-') :
    readValue nearest (fuel+1) (c :: cs) = readNumber nearest (c :: cs) := by
  have hne : c ≠ '"' ∧ c ≠ '[' ∧ c ≠ 't' ∧ c ≠ 'f' := by
    rcases hc with hc | rfl
    · refine ⟨?_,?_,?_,?_⟩ <;> rintro rfl <;> exact absurd hc (by decide)
    · decide
  rw [readValue]
  all_goals
    intro cs' heq
    cases heq
    simp at hne

theorem readValue_signed {negative : Bool} (n : Nat) (rest : List Char) :
    readValue nearest (fuel+1) ((if negative then ['-'] else []) ++ (Nat.toDigits 10 n ++ rest)) =
      readDecimal nearest negative (Nat.toDigits 10 n ++ rest) := by
  cases negative with
  | true => exact (readValue_number (.inr rfl)).trans (readNumber_minus _)
  | false =>
    obtain ⟨c,cs,hcs,hc⟩ := exists_cons_toDigits n rest
    rw [if_neg (by simp),nil_append,← readNumber_digits,hcs]
    exact readValue_number (.inl hc)

theorem parse_integer {n : Int} (hn : INT64_MIN ≤ n ∧ n ≤ INT64_MAX) :
    parse nearest (printInteger n) = some (.int64 n) := by
  have hsign : signed (n < 0) n.natAbs = n := by
    unfold signed
    by_cases h : n < 0
    · rw [if_pos (decide_eq_true h)]
      omega
    · rw [if_neg (by simpa using h)]
      omega
  have htext : printInteger n =
      (if decide (n < 0) = true then ['-'] else []) ++ (Nat.toDigits 10 n.natAbs ++ []) := by
    unfold printInteger
    by_cases h : n < 0 <;> simp [h]
  refine parse_eq_some ?_
  rw [htext,readValue_signed,append_nil,readDecimal_integer (by rw [hsign]; exact hn),hsign]

def sixDecimals (d : Rat) : Rat := (signed (d < 0) (millionths d) : Int)/10^6

theorem parse_double (d : Rat) :
    parse nearest (printDouble d) = some (.fp64 (nearest (sixDecimals d))) := by
  let fraction := Nat.toDigits 10 (millionths d%10^6)
  let fs := replicate (6-fraction.length) '0' ++ fraction
  have hdigits : ∀ c ∈ fs, c.isDigit = true := by
    intro c hc
    rcases mem_append.mp hc with hc | hc
    · rw [eq_of_mem_replicate hc]
      rfl
    · exact isDigit_toDigits _ c hc
  have hlen : fs.length = 6 := by
    have hle : fraction.length ≤ 6 :=
      (Nat.length_toDigits_le_iff (by decide) (by decide)).mpr (Nat.mod_lt _ (by decide))
    simp only [fs,length_append,length_replicate]
    omega
  have hvalue : 10^fs.length*(millionths d/10^6)+Nat.ofDigitChars 10 fs 0 = millionths d := by
    rw [hlen,Nat.ofDigitChars_append,Nat.ofDigitChars_replicate_zero,Nat.mul_zero,
      Nat.ofDigitChars_ten_toDigits]
    exact Nat.div_add_mod _ _
  have htext : printDouble d = (if decide (d < 0) = true then ['-'] else []) ++
      (Nat.toDigits 10 (millionths d/10^6) ++ '.' :: fs) := by
    simp [printDouble,fs,fraction]
  have hne : fs ≠ [] := by
    intro h
    rw [h] at hlen
    cases hlen
  refine parse_eq_some ?_
  rw [htext,readValue_signed,readDecimal_fraction hne hdigits,hvalue,hlen]
  rfl

end

theorem parse_bool (b : Bool) :
    parse nearest (if b then "true".toList else "false".toList) = some (.bool b) := by
  cases b <;> rfl

end TomlText

theorem plainText_of_ascii {s : List Char} (hs : s.all (fun c => c.toNat < 127) = true) :
    PlainText s := by
  intro c hc hdel
  have hlt : c.toNat < 127 := of_decide_eq_true (all_eq_true.mp hs c hc)
  simp only [DEL] at hdel
  omega

theorem optionVal_optionStr (t : ConfType) {n : Nat} (hn : n < t.names.length) :
    PlainText (t.optionStr n) ∧ t.optionVal (t.optionStr n) = some (n : Int) := by
  have hall : ∀ t : ConfType, ∀ n < t.names.length,
      (t.optionStr n).all (fun c => c.toNat < 127) = true ∧
        t.optionVal (t.optionStr n) = some (n : Int) := by
    intro t
    cases t <;> decide
  exact ⟨plainText_of_ascii (hall t n hn).1,(hall t n hn).2⟩

def ConfType.Holds : ConfType → ConfVal → Prop
  | .bool, v | .allDebugBool, v => ∃ b, v = .bool b
  | .int, v => ∃ n, v = .num n ∧ INT_MIN ≤ n ∧ n ≤ INT_MAX
  | .uint, v => ∃ n, v = .num n ∧ 0 ≤ n ∧ n ≤ UINT_MAX
  | .uint16, v => ∃ n, v = .num n ∧ 0 ≤ n ∧ n ≤ UINT16_MAX
  | .privacyLevel, v => ∃ n, v = .num n ∧ 0 ≤ n ∧ n ≤ PRIVACY_MAXIMUM
  | .double, v => ∃ d, v = .double d
  | .string, v | .password, v => ∃ s, v = .text s
  | .inAddr, v => ∃ a : Nat, v = .num a ∧ a < 2^32
  | .in6Addr, v => ∃ a : Nat, v = .num a ∧ a < 2^128
  | .jsonStringArray, v => ∃ l, v = .strings l
  | t, v => ∃ n : Nat, v = .num n ∧ n < t.names.length

def ConfVal.withoutEmpty : ConfVal → ConfVal
  | .strings l => .strings (l.filter (· ≠ []))
  | v => v

/-- What `inet_ntop` prints is read by `inet_pton`, and has neither quotes nor control
characters. -/
def PrintsAddresses (ntop : Nat → List Char) (pton : List Char → Option Nat) (bound : Nat) : Prop :=
  ∀ a, 0 < a → a < bound →
    ntop a ≠ [] ∧ (ntop a).all (fun c => c.toNat < 127) = true ∧ pton (ntop a) = some a

section

variable (P : Platform) (nearest : Rat → Rat) (inetNtop4 inetNtop6 : Nat → List Char)

/-- What is read of the text, whatever was configured, is the value; the password is none and
stays, and `debug.all` is worked out from the others. -/
def ReadsBack (i : Item) (v : ConfVal) (text : List Char) : Prop :=
  ∃ d, TomlText.parse nearest text = some d ∧ ∀ new : Configuration,
    match i.type with
    | .password => P.readTOMLvalue i (some d) new = new
    | .allDebugBool => (P.readTOMLvalue i (some d) new).setDebugFlags.value i = v
    | _ => (P.readTOMLvalue i (some d) new).value i = v.withoutEmpty

/-- Strings have to be plain, and a double has to be the one next to its six decimals. -/
def Survives : ConfType → ConfVal → Prop
  | .string, .text s => PlainText s
  | .jsonStringArray, .strings l => ∀ s ∈ l, PlainText s
  | .double, .double d => nearest (TomlText.sixDecimals d) = d
  | _, _ => True

variable {P nearest inetNtop4 inetNtop6}
variable {i : Item} {v : ConfVal} {text : List Char}

theorem readsBack_iff {d : Toml} {w : ConfVal} (hp : i.type ≠ .password ∧ i.type ≠ .allDebugBool)
    (hparse : TomlText.parse nearest text = some d)
    (hval : P.tomlValue i d = some w) : ReadsBack P nearest i v text ↔ w = v.withoutEmpty := by
  have hread : ∀ new : Configuration, (P.readTOMLvalue i (some d) new).value i = w := by
    intro new
    simp [Platform.readTOMLvalue,hval,hp.2]
  unfold ReadsBack
  rw [hparse]
  constructor
  · rintro ⟨d',hd',hnew⟩
    cases hd'
    have := hnew .initial
    split at this
    · exact absurd ‹_› hp.1
    · exact absurd ‹_› hp.2
    · rw [← this,hread]
  · rintro rfl
    refine ⟨d,rfl,fun new => ?_⟩
    split
    · exact absurd ‹_› hp.1
    · exact absurd ‹_› hp.2
    · exact hread new

theorem not_readsBack (hparse : TomlText.parse nearest text = none) :
    ¬ ReadsBack P nearest i v text := by
  rintro ⟨d,hd,-⟩
  rw [hparse] at hd
  cases hd

theorem allDebugSet_setAllDebug (c : Configuration) (b : Bool) :
    (c.setAllDebug b).allDebugSet = b := by
  cases b with
  | false => exact c.allDebugSet_setAllDebug_false
  | true =>
    simp only [Configuration.allDebugSet,all_eq_true]
    intro j _
    cases hj : j.isDebug with
    | false => rfl
    | true => simp [Configuration.bool,ConfVal.toBool,c.setAllDebug_true_value hj]

theorem readsBack_debugAll (hd : i.type = .allDebugBool) (b : Bool)
    (hparse : TomlText.parse nearest text = some (.bool b)) :
    ReadsBack P nearest i (.bool b) text := by
  refine ⟨_,hparse,fun new => ?_⟩
  have hi := Item.eq_debugAll hd
  subst hi
  rw [Platform.readTOMLvalue]
  simp only [Option.bind_some,Platform.tomlValue,hd,if_true,ConfVal.toBool]
  rw [Configuration.setDebugFlags,Configuration.set_value_self,allDebugSet_setAllDebug]

theorem readsBack_password (hp : i.type = .password)
    {d : Toml} (hparse : TomlText.parse nearest text = some d) :
    ReadsBack P nearest i v text := by
  refine ⟨d,hparse,fun new => ?_⟩
  simp [hp,Platform.readTOMLvalue,P.tomlValue_password hp]

section

variable (hp : i.type ≠ .password ∧ i.type ≠ .allDebugBool)
include hp

theorem readsBack_integer {n lo hi : Int} (hn : lo ≤ n ∧ n ≤ hi) (hlo : TomlText.INT64_MIN ≤ lo)
    (hhi : hi ≤ TomlText.INT64_MAX) (hval : P.tomlValue i (.int64 n) = tomlInteger lo hi (.int64 n)) :
    ReadsBack P nearest i (.num n) (printInteger n) := by
  have hparse : TomlText.parse nearest (printInteger n) = some (.int64 n) :=
    TomlText.parse_integer ⟨hlo.trans hn.1,hn.2.trans hhi⟩
  rw [tomlInteger,if_pos hn] at hval
  exact (readsBack_iff hp hparse hval).mpr rfl

theorem readsBack_enum {n : Nat} (hn : n < i.type.names.length)
    (hval : ∀ s, P.tomlValue i (.str s) = (i.type.optionVal s).map ConfVal.num) :
    ReadsBack P nearest i (.num n) (printTOMLstring (i.type.optionStr n)) := by
  obtain ⟨hplain,hname⟩ := optionVal_optionStr i.type hn
  have hv := hval (i.type.optionStr n)
  rw [hname,Option.map_some] at hv
  exact (readsBack_iff hp (TomlText.parse_string hplain) hv).mpr rfl

theorem readsBack_address {ntop : Nat → List Char} {pton : List Char → Option Nat} {bound a : Nat}
    (h : PrintsAddresses ntop pton bound) (ha : a < bound)
    (hval : ∀ s, P.tomlValue i (.str s) = addressValue pton s) : ReadsBack P nearest i (.num a)
      (printTOMLstring (if (a : Int) = 0 then [] else ntop (a : Int).toNat)) := by
  rcases Nat.eq_zero_or_pos a with rfl | hpos
  · have hplain : PlainText [] := by simp [PlainText]
    exact (readsBack_iff hp (TomlText.parse_string hplain) (hval [])).mpr rfl
  obtain ⟨hne,hascii,hread⟩ := h a hpos ha
  have hz : ¬ (a : Int) = 0 := by omega
  have hv := hval (ntop a)
  rw [addressValue,if_neg hne,hread] at hv
  rw [if_neg hz,Int.toNat_natCast]
  exact (readsBack_iff hp (TomlText.parse_string (plainText_of_ascii hascii)) hv).mpr rfl

end

theorem tomlStrings_map_str {l : List (List Char)} (h : ∀ s ∈ l, s ≠ []) :
    Toml.strings (l.map Toml.str) = l := by
  have htake : (l.map Toml.str).takeWhile (fun t => t.text?.isSome) = l.map Toml.str := by
    simp [Toml.text?]
  have hmap : (l.map Toml.str).filterMap Toml.text? = l := by
    rw [filterMap_map]
    exact filterMap_some
  rw [Toml.strings,htake,hmap,filter_eq_self]
  exact fun s hs => decide_eq_true (h s hs)

attribute [local simp] Platform.tomlValue

end

def decimalPlatform : Platform :=
  { Platform.plain with
    inetPton4 := fun s => some (Nat.ofDigitChars 10 s 0)
    inetPton6 := fun s => some (Nat.ofDigitChars 10 s 0) }

theorem printsAddresses_decimal (bound : Nat) :
    PrintsAddresses (Nat.toDigits 10) (fun s => some (Nat.ofDigitChars 10 s 0)) bound := by
  intro a _ _
  refine ⟨Nat.toDigits_ne_nil,all_eq_true.mpr ?_,congrArg some Nat.ofDigitChars_ten_toDigits⟩
  intro c hc
  have hd := TomlText.isDigit_toDigits a c hc
  have hlt : c.toNat ≤ 57 := by
    simp only [Char.isDigit,Bool.and_eq_true,decide_eq_true_eq] at hd
    exact UInt32.le_iff_toNat_le.mp hd.2
  exact decide_eq_true (by omega)

end Lorentz
