import Lorentz.Library.SqlLexer
import Lorentz.Library.Split

/-!
`translateSql` makes SQLite's SQL PostgreSQL's: placeholders become `$N`, LIKE becomes ILIKE.
Tokens, and SQLite's numbering of the placeholders, are described on their own.
-/

set_option autoImplicit false

namespace Lorentz.Translation

open Quoting Search List

def isNameStart (c : Char) : Bool := c.isAlpha || c = '_'

def isNameChar (c : Char) : Bool := c.isAlphanum || c = '_'

def isWordChar (c : Char) : Bool := c.isAlphanum || c = '_' || c = '$'

/-- Behind the opening quote `c`: what is copied, and what is left of the text. -/
def takeQuoted (c : Char) : List Char → List Char × List Char
  | [] => ([],[])
  | [x] => ([x],[])
  | x :: y :: ys =>
    if x = c then
      if y = c then ((x :: y :: (takeQuoted c ys).1),(takeQuoted c ys).2) else ([x],y :: ys)
    else (x :: (takeQuoted c (y :: ys)).1,(takeQuoted c (y :: ys)).2)

def takeBlockComment : List Char → List Char × List Char
  | [] => ([],[])
  | [x] => ([x],[])
  | x :: y :: ys =>
    if x = '*' ∧ y = '/' then ([x,y],ys)
    else (x :: (takeBlockComment (y :: ys)).1,(takeBlockComment (y :: ys)).2)

def takeDollarQuoted (tag : List Char) : List Char → List Char × List Char
  | [] => ([],[])
  | c :: cs =>
    if c = '$' ∧ tag.isPrefixOf (c :: cs) then (tag,(c :: cs).drop tag.length)
    else (c :: (takeDollarQuoted tag cs).1,(takeDollarQuoted tag cs).2)

def decimal (ds : List Char) : Nat := ds.foldl (fun n d => n*10+(d.toNat - '0'.toNat)) 0

/-- The state of the scan. The table of names has `cap` entries, its length. -/
structure Scan where
  out : List Char := []
  maxIdx : Nat := 0
  names : List (Option (List Char)) := List.replicate 8 none

namespace Scan

def copy (sc : Scan) (s : List Char) : Scan := { sc with out := sc.out ++ s }

def raise (sc : Scan) (idx : Nat) : Scan :=
  { sc with maxIdx := if idx > sc.maxIdx then idx else sc.maxIdx }

def place (sc : Scan) (idx : Nat) : Scan := sc.copy ('$' :: Nat.toDigits 10 idx)

def lookup (sc : Scan) (name : List Char) : Option Nat :=
  (sc.names.take sc.maxIdx).findIdx? (· = some name)

def remember (sc : Scan) (name : List Char) : Scan :=
  let idx := sc.maxIdx+1
  let names :=
    if idx > sc.names.length then sc.names ++ List.replicate (idx*2-sc.names.length) none
    else sc.names
  { sc with maxIdx := idx, names := names.set (idx-1) (some name) }

def positional (sc : Scan) (ds : List Char) : Scan :=
  let idx := if ds = [] then sc.maxIdx+1 else decimal ds
  (sc.raise idx).place idx

def named (sc : Scan) (name : List Char) : Scan :=
  match sc.lookup name with
  | some k => sc.place (k+1)
  | none => (sc.remember name).place (sc.maxIdx+1)

end Scan

def isLike (w : List Char) : Bool := w.map Char.toUpper = "LIKE".toList

/-- One pass of the loop: what it goes over, what is left, the new state. -/
structure Pass where
  taken : List Char
  left : List Char
  scan : Scan

def Scan.copied (sc : Scan) (r : List Char × List Char) : Pass := ⟨r.1,r.2,sc.copy r.1⟩

def startsPlaceholder (prev : Option Char) (c : Char) (cs : List Char) : Bool :=
  ((c = ':' && cs.head? ≠ some ':' && prev ≠ some ':') || c = '@') && cs.head?.any isNameStart

def pass (prev : Option Char) (c : Char) (cs : List Char) (sc : Scan) : Pass :=
  if c = '\'' ∨ c = '"' then
    sc.copied (c :: (takeQuoted c cs).1,(takeQuoted c cs).2)
  else if c = '-' ∧ cs.head? = some '-' then
    sc.copied ((c :: cs).takeWhile (· ≠ '\n'),(c :: cs).dropWhile (· ≠ '\n'))
  else if c = '/' ∧ cs.head? = some '*' then
    sc.copied (c :: '*' :: (takeBlockComment cs.tail).1,(takeBlockComment cs.tail).2)
  else if c = '$' then
    let ds := cs.takeWhile Char.isDigit
    if ds ≠ [] then (sc.raise (decimal ds)).copied (c :: ds,cs.dropWhile Char.isDigit)
    else match cs.dropWhile isNameChar with
      | '$' :: left =>
        let tag := c :: cs.takeWhile isNameChar ++ ['$']
        sc.copied (tag ++ (takeDollarQuoted tag left).1,(takeDollarQuoted tag left).2)
      | _ => sc.copied ([c],cs)
  else if c = '?' then
    let ds := cs.takeWhile Char.isDigit
    ⟨c :: ds,cs.dropWhile Char.isDigit,sc.positional ds⟩
  else if startsPlaceholder prev c cs then
    let name := c :: cs.takeWhile isNameChar
    ⟨name,cs.dropWhile isNameChar,sc.named name⟩
  else if isNameStart c then
    let w := (c :: cs).takeWhile isWordChar
    ⟨w,(c :: cs).dropWhile isWordChar,
      sc.copy (if isLike w ∧ prev ≠ some '.' then "ILIKE".toList else w)⟩
  else sc.copied ([c],cs)

/-- The loop over the text; `prev` is the character in front of what is left. -/
def scanSql : Nat → Option Char → List Char → Scan → Scan
  | 0, _, _, sc => sc
  | _+1, _, [], sc => sc
  | fuel+1, prev, c :: cs, sc =>
    let p := pass prev c cs sc
    scanSql fuel p.taken.getLast? p.left p.scan

structure Translated where
  text : List Char
  nparams : Nat
  names : List (Option (List Char))

/-- No result stands for a write behind the end of `out`, whose size is estimated. -/
def translateSql (sql : List Char) : Option Translated :=
  let sc := scanSql sql.length none sql {}
  if sc.out.length+1 ≤ sql.length*4+16 then
    some ⟨sc.out,sc.maxIdx,sc.names ++ List.replicate (sc.maxIdx-sc.names.length) none⟩
  else none

def pgParamIndex (s : Translated) (name : List Char) : Nat :=
  match (s.names.take s.nparams).findIdx? (· = some name) with
  | some i => i+1
  | none => 0

inductive SqlToken where
  | quoted (quote : Char) (value : List Char)
  | lineComment (text : List Char)
  | blockComment (text : List Char)
  | dollarQuoted (tag text : List Char)
  | word (text : List Char)
  | cast
  | symbol (c : Char)
  | question
  | numbered (digits : List Char)
  | named (sigil : Char) (name : List Char)
  deriving DecidableEq

namespace SqlToken

def dollarTag (tag : List Char) : List Char := '$' :: tag ++ ['$']

def text : SqlToken → List Char
  | quoted q value => quotedText q value
  | lineComment s => '-' :: '-' :: s
  | blockComment s => '/' :: '*' :: s ++ ['*','/']
  | dollarQuoted tag s => dollarTag tag ++ s ++ dollarTag tag
  | word w => w
  | cast => [':',':']
  | symbol c => [c]
  | question => ['?']
  | numbered ds => '?' :: ds
  | named sigil name => sigil :: name

def identStart (c : Char) : Bool := isNameStart c || 127 < c.toNat

def identChar (c : Char) : Bool := isWordChar c || 127 < c.toNat

def isName (name : List Char) : Prop := (∃ c ∈ name.head?, isNameStart c) ∧ ∀ c ∈ name, isNameChar c

/-- The tokens that both databases read alike. A block comment does not have another one in
it, which PostgreSQL would nest. -/
def Common : SqlToken → Prop
  | quoted q _ => q = '\'' ∨ q = '"'
  | lineComment s => '\n' ∉ s
  | blockComment s => strstr ['*','/'] s = none ∧ strstr ['/','*'] s = none
  | dollarQuoted tag s =>
    (tag = [] ∨ isName tag) ∧ strstr (dollarTag tag) (s ++ dollarTag tag) = some s.length
  | word w => (∃ c ∈ w.head?, identStart c) ∧ ∀ c ∈ w, identChar c
  | cast => True
  | symbol c => c.toNat < 128 ∧ isNameStart c = false ∧ c ∉ ['\'','"','$','?',':','@']
  | question => True
  | numbered ds => ds ≠ [] ∧ (∀ d ∈ ds, d.isDigit) ∧ 1 ≤ decimal ds ∧ decimal ds ≤ 32766
  | named sigil name => (sigil = ':' ∨ sigil = '@') ∧ isName name

/-- The token ends in front of `rest`. SQLite takes `:a::b` and `:a(b)` for one name. -/
def EndsAt (rest : List Char) : SqlToken → Prop
  | quoted q _ => rest.head? ≠ some q
  | lineComment _ => rest = [] ∨ rest.head? = some '\n'
  | word _ => ∀ c ∈ rest.head?, identChar c = false
  | cast => rest.head? ≠ some ':'
  | symbol c => (c = '-' → rest.head? ≠ some '-') ∧ (c = '/' → rest.head? ≠ some '*')
  | question => ∀ c ∈ rest.head?, c.isDigit = false
  | numbered _ => ∀ c ∈ rest.head?, c.isDigit = false
  | named _ _ =>
    (∀ c ∈ rest.head?, identChar c = false) ∧ rest.head? ≠ some '(' ∧
      [':',':'].isPrefixOf rest = false
  | _ => True

end SqlToken

def sqlText (ts : List SqlToken) : List Char := ts.flatMap SqlToken.text

def Separated : List SqlToken → Prop
  | [] => True
  | t :: ts => t.EndsAt (sqlText ts) ∧ Separated ts

structure SqliteVars where
  nVar : Nat := 0
  vlist : List (List Char × Nat) := []

def SqliteVars.assign (v : SqliteVars) : SqlToken → Option Nat × SqliteVars
  | .question => (some (v.nVar+1),{ v with nVar := v.nVar+1 })
  | .numbered ds => (some (decimal ds),{ v with nVar := max v.nVar (decimal ds) })
  | .named sigil name =>
    match v.vlist.lookup (sigil :: name) with
    | some x => (some x,v)
    | none =>
      (some (v.nVar+1),{ nVar := v.nVar+1, vlist := (sigil :: name,v.nVar+1) :: v.vlist })
  | _ => (none,v)

def SqliteVars.numbers : SqliteVars → List SqlToken → List (SqlToken × Option Nat)
  | _, [] => []
  | v, t :: ts => (t,(v.assign t).1) :: (v.assign t).2.numbers ts

def sqliteNumbers (ts : List SqlToken) : List (SqlToken × Option Nat) := SqliteVars.numbers {} ts

/-- PostgreSQL's text: a placeholder is `$N`, and the word LIKE is ILIKE unless a dot makes it a
column. -/
def postgresToken (before : Option SqlToken) : SqlToken × Option Nat → List Char
  | (_,some n) => '$' :: Nat.toDigits 10 n
  | (.word w,none) => if isLike w ∧ before ≠ some (.symbol '.') then "ILIKE".toList else w
  | (t,none) => t.text

def postgresText : Option SqlToken → List (SqlToken × Option Nat) → List Char
  | _, [] => []
  | before, p :: ps => postgresToken before p ++ postgresText (some p.1) ps

def largestNumber (ps : List (SqlToken × Option Nat)) : Nat :=
  (ps.filterMap Prod.snd).foldr max 0

section

theorem takeQuoted_close {q : Char} {rest : List Char} (h : rest.head? ≠ some q) :
    takeQuoted q (q :: rest) = ([q],rest) := by
  cases rest with
  | nil => rfl
  | cons d ds =>
    have hd : d ≠ q := by simpa using h
    simp [takeQuoted,hd]

theorem takeQuoted_cons {q c : Char} (hc : c ≠ q) (cs : List Char) :
    takeQuoted q (c :: cs) = (c :: (takeQuoted q cs).1,(takeQuoted q cs).2) := by
  cases cs with
  | nil => rfl
  | cons d ds => simp [takeQuoted,hc]

theorem takeQuoted_doubled {q : Char} (value : List Char) {rest : List Char}
    (h : rest.head? ≠ some q) :
    takeQuoted q (doubled q value ++ q :: rest) = (doubled q value ++ [q],rest) := by
  induction value with
  | nil => exact takeQuoted_close h
  | cons c cs ih =>
    by_cases hc : c = q
    · subst hc
      simp [doubled,takeQuoted,ih]
    · rw [doubled,if_neg hc,cons_append,takeQuoted_cons hc,ih]
      rfl

theorem takeBlockComment_append {s : List Char} (rest : List Char)
    (h : strstr ['*','/'] s = none) :
    takeBlockComment (s ++ '*' :: '/' :: rest) = (s ++ ['*','/'],rest) := by
  induction s with
  | nil => simp [takeBlockComment]
  | cons c cs ih =>
    simp only [strstr] at h
    split at h
    · cases h
    rename_i hp
    have hcs := ih (by simpa using h)
    cases cs with
    | nil => simp [takeBlockComment]
    | cons d ds =>
      have hd : ¬ (c = '*' ∧ d = '/') := by
        rintro ⟨rfl,rfl⟩
        simp at hp
      rw [cons_append,cons_append,takeBlockComment,if_neg hd,← cons_append,hcs]
      rfl

theorem takeDollarQuoted_append {tag s u : List Char} (htag : tag.head? = some '$')
    (h : strstr tag (s ++ u) = some s.length) :
    takeDollarQuoted tag (s ++ u) = (s ++ tag,u.drop tag.length) := by
  induction s with
  | nil =>
    cases u with
    | nil =>
      have := strstr_le h
      cases tag with
      | nil => cases htag
      | cons _ _ => simp at this
    | cons c cs =>
      simp only [nil_append,strstr] at h
      split at h
      · rename_i hp
        have hc : c = '$' := by
          cases tag with
          | nil => cases htag
          | cons d ds =>
            have hd : d = '$' := by simpa using htag
            have := isPrefixOf_iff_prefix.mp hp
            rw [cons_prefix_cons] at this
            rw [← this.1,hd]
        simp [takeDollarQuoted,hc,hc ▸ hp]
      · simp at h
  | cons c cs ih =>
    simp only [cons_append,strstr] at h
    split at h
    · simp at h
    · rename_i hp
      have hcs := ih (by simpa using h)
      simp [takeDollarQuoted,hp,hcs]

variable {c : Char} {p : Char → Bool} {w rest : List Char}

theorem takeWhile_stop (hw : ∀ c ∈ w, p c) (hr : ∀ c ∈ rest.head?, p c = false) :
    (w ++ rest).takeWhile p = w := by
  rw [takeWhile_append_of_pos hw]
  cases rest with
  | nil => simp
  | cons c cs => simp [hr c rfl]

theorem dropWhile_stop (hw : ∀ c ∈ w, p c) (hr : ∀ c ∈ rest.head?, p c = false) :
    (w ++ rest).dropWhile p = rest := by
  rw [dropWhile_append_of_pos hw]
  cases rest with
  | nil => simp
  | cons c cs => simp [hr c rfl]

theorem ne_of_isNameStart {c x : Char} (hc : isNameStart c = true) (hx : isNameStart x = false) :
    c ≠ x := by
  rintro rfl
  rw [hc] at hx
  cases hx

theorem isWordChar_of_not_identChar (hc : SqlToken.identChar c = false) : isWordChar c = false := by
  simp only [SqlToken.identChar,Bool.or_eq_false_iff] at hc
  exact hc.1

theorem isNameChar_of_not_identChar (hc : SqlToken.identChar c = false) : isNameChar c = false := by
  have := isWordChar_of_not_identChar hc
  simp only [isWordChar,Bool.or_eq_false_iff] at this
  simp [isNameChar,this]

theorem isNameChar_of_isNameStart (hc : isNameStart c = true) : isNameChar c = true := by
  simp only [isNameStart,Bool.or_eq_true] at hc
  rcases hc with hc | hc
  · simp [isNameChar,Char.isAlphanum,hc]
  · simp [isNameChar,hc]

variable {prev : Option Char} {sc : Scan} {rest : List Char}

theorem pass_quoted {q : Char} {value : List Char} (hq : q = '\'' ∨ q = '"')
    (h : rest.head? ≠ some q) :
    pass prev q (doubled q value ++ q :: rest) sc = sc.copied (quotedText q value,rest) := by
  rw [pass,if_pos hq,takeQuoted_doubled value h]
  rfl

variable {c : Char} {s : List Char}

theorem pass_lineComment (hs : '\n' ∉ s) (h : rest = [] ∨ rest.head? = some '\n') :
    pass prev '-' ('-' :: s ++ rest) sc = sc.copied ('-' :: '-' :: s,rest) := by
  have hw : ∀ c ∈ '-' :: '-' :: s, decide (c ≠ '\n') = true := by
    intro c hc
    have hne : c ≠ '\n' := by
      rintro rfl
      simp [hs] at hc
    exact decide_eq_true hne
  have hr : ∀ c ∈ rest.head?, decide (c ≠ '\n') = false := by
    intro c hc
    rcases h with rfl | h
    · cases hc
    · rw [h] at hc
      cases hc
      rfl
  have htake := takeWhile_stop hw hr
  have hdrop := dropWhile_stop hw hr
  exact congrArg sc.copied (Prod.ext htake hdrop)

theorem pass_blockComment (h : strstr ['*','/'] s = none) :
    pass prev '/' ('*' :: s ++ ['*','/'] ++ rest) sc =
      sc.copied ('/' :: '*' :: s ++ ['*','/'],rest) := by
  have hin := takeBlockComment_append rest h
  simp [pass,hin]

theorem isDigit_of_isNameStart (hc : isNameStart c = true) : c.isDigit = false := by
  simp only [isNameStart,Char.isAlpha,Char.isUpper,Char.isLower,Bool.or_eq_true,
    Bool.and_eq_true,decide_eq_true_eq] at hc
  simp only [Char.isDigit,Bool.and_eq_false_iff,decide_eq_false_iff_not]
  rcases hc with (hc | hc) | rfl
  · right
    intro hd
    exact absurd (UInt32.le_trans hc.1 hd) (by decide)
  · right
    intro hd
    exact absurd (UInt32.le_trans hc.1 hd) (by decide)
  · right
    decide

theorem pass_dollarQuoted {tag s : List Char} (htag : tag = [] ∨ SqlToken.isName tag)
    (h : strstr (SqlToken.dollarTag tag) (s ++ SqlToken.dollarTag tag) = some s.length) :
    pass prev '$' (tag ++ '$' :: (s ++ (SqlToken.dollarTag tag ++ rest))) sc =
      sc.copied ((SqlToken.dollarQuoted tag s).text,rest) := by
  have hchars : ∀ c ∈ tag, isNameChar c = true := by
    rcases htag with rfl | htag
    · simp
    · exact htag.2
  have hdollar : ∀ c ∈ ('$' :: (s ++ (SqlToken.dollarTag tag ++ rest))).head?,
      isNameChar c = false := by
    intro c hc
    cases hc
    rfl
  have hdigits : (tag ++ '$' :: (s ++ (SqlToken.dollarTag tag ++ rest))).takeWhile Char.isDigit
      = [] := by
    rcases htag with rfl | ⟨⟨c,hc,hstart⟩,-⟩
    · rfl
    cases tag with
    | nil => cases hc
    | cons d ds =>
      cases hc
      simp [isDigit_of_isNameStart hstart]
  have hin : takeDollarQuoted (SqlToken.dollarTag tag) (s ++ (SqlToken.dollarTag tag ++ rest)) =
      (s ++ SqlToken.dollarTag tag,rest) := by
    have happ := strstr_append h rest
    rw [append_assoc] at happ
    rw [takeDollarQuoted_append rfl happ,drop_left]
  rw [pass,if_neg (by decide),if_neg (by simp),if_neg (by simp),if_pos rfl]
  simp only [hdigits,ne_eq,not_true_eq_false,if_false,takeWhile_stop hchars hdollar,
    dropWhile_stop hchars hdollar]
  have htag' : '$' :: (tag ++ ['$']) = SqlToken.dollarTag tag := rfl
  simp only [cons_append,htag',hin,SqlToken.text,append_assoc]

theorem pass_question {ds : List Char} (hds : ∀ d ∈ ds, d.isDigit)
    (h : ∀ c ∈ rest.head?, c.isDigit = false) :
    pass prev '?' (ds ++ rest) sc = ⟨'?' :: ds,rest,sc.positional ds⟩ := by
  rw [pass,if_neg (by decide),if_neg (by simp),if_neg (by simp),if_neg (by decide),if_pos rfl,
    takeWhile_stop hds h,dropWhile_stop hds h]

theorem pass_named {sigil : Char} {name : List Char} (hs : sigil = ':' ∨ sigil = '@')
    (hname : SqlToken.isName name) (hprev : sigil = ':' → prev ≠ some ':')
    (h : ∀ c ∈ rest.head?, isNameChar c = false) :
    pass prev sigil (name ++ rest) sc = ⟨sigil :: name,rest,sc.named (sigil :: name)⟩ := by
  obtain ⟨⟨c,hc,hstart⟩,hchars⟩ := hname
  have hhead : (name ++ rest).head? = some c := by
    cases name with
    | nil => cases hc
    | cons d ds => exact hc
  have hcolon : c ≠ ':' := ne_of_isNameStart hstart (by decide)
  have hph : startsPlaceholder prev sigil (name ++ rest) = true := by
    rcases hs with rfl | rfl
    · simp [startsPlaceholder,hhead,hcolon,hstart,hprev rfl]
    · simp [startsPlaceholder,hhead,hstart]
  have hns : ∀ x ∈ ['\'','"','-','/','$','?'], sigil ≠ x := by
    rcases hs with rfl | rfl <;> simp
  rw [pass,if_neg (by simp [hns]),if_neg (by simp [hns]),if_neg (by simp [hns]),
    if_neg (by simp [hns]),if_neg (by simp [hns]),if_pos hph,takeWhile_stop hchars h,
    dropWhile_stop hchars h]

theorem pass_word {w : List Char} (hc : isNameStart c = true)
    (hw : ∀ d ∈ c :: w, isWordChar d = true) (h : ∀ d ∈ rest.head?, isWordChar d = false) :
    pass prev c (w ++ rest) sc = ⟨c :: w,rest,
      sc.copy (if isLike (c :: w) ∧ prev ≠ some '.' then "ILIKE".toList else c :: w)⟩ := by
  have hns : ∀ x ∈ ['\'','"','-','/','$','?',':','@'], c ≠ x := by
    have hall : ['\'','"','-','/','$','?',':','@'].all (fun x => !isNameStart x) = true := rfl
    intro x hx
    exact ne_of_isNameStart hc (by simpa using all_eq_true.mp hall x hx)
  have hph : startsPlaceholder prev c (w ++ rest) = false := by
    simp [startsPlaceholder,hns]
  have htake := takeWhile_stop hw h
  have hdrop := dropWhile_stop hw h
  rw [cons_append] at htake hdrop
  rw [pass,if_neg (by simp [hns]),if_neg (by simp [hns]),if_neg (by simp [hns]),
    if_neg (by simp [hns]),if_neg (by simp [hns]),hph,if_neg (by simp),if_pos hc,htake,hdrop]

theorem pass_symbol (hc : isNameStart c = false) (hns : c ∉ ['\'','"','$','?',':','@'])
    (hm : c = '-' → rest.head? ≠ some '-') (hd : c = '/' → rest.head? ≠ some '*') :
    pass prev c rest sc = sc.copied ([c],rest) := by
  simp only [mem_cons,not_mem_nil,or_false,not_or] at hns
  obtain ⟨h₁,h₂,h₃,h₄,h₅,h₆⟩ := hns
  have hph : startsPlaceholder prev c rest = false := by
    simp [startsPlaceholder,h₅,h₆]
  rw [pass,if_neg (by simp [h₁,h₂]),if_neg (by tauto),if_neg (by tauto),if_neg h₃,if_neg h₄,
    hph,if_neg (by simp),hc,if_neg (by simp)]

theorem pass_colon (h : rest.head? = some ':' ∨ prev = some ':') :
    pass prev ':' rest sc = sc.copied ([':'],rest) := by
  have hph : startsPlaceholder prev ':' rest = false := by
    rcases h with h | h <;> simp [startsPlaceholder,h]
  rw [pass,if_neg (by decide),if_neg (by simp),if_neg (by simp),if_neg (by decide),
    if_neg (by decide),hph,if_neg (by simp),if_neg (by decide)]

end

def Scan.token (sc : Scan) (before : Option SqlToken) : SqlToken → Scan
  | .question => sc.positional []
  | .numbered ds => sc.positional ds
  | .named sigil name => sc.named (sigil :: name)
  | .word w =>
    sc.copy (if isLike w ∧ before ≠ some (.symbol '.') then "ILIKE".toList else w)
  | t => sc.copy t.text

def Scan.tokens : Scan → Option SqlToken → List SqlToken → Scan
  | sc, _, [] => sc
  | sc, before, t :: ts => (sc.token before t).tokens (some t) ts

/-- The scanner takes only ASCII letters for letters: a word falls into letters outside of ASCII
and digits, which are copied one by one, and runs of word characters, none of them LIKE. -/
inductive InParts : Option Char → List Char → Prop
  | nil {prev : Option Char} : InParts prev []
  | single {prev : Option Char} {c : Char} {w : List Char} (hc : c.isDigit = true ∨ 127 < c.toNat)
      (h : InParts (some c) w) : InParts prev (c :: w)
  | run {prev : Option Char} {c : Char} {p w : List Char} (hc : isNameStart c = true)
      (hp : ∀ d ∈ c :: p, isWordChar d = true) (hw : ∀ d ∈ w.head?, isWordChar d = false)
      (hlike : isLike (c :: p) = true → prev = some '.') (h : InParts (c :: p).getLast? w) :
      InParts prev (c :: p ++ w)

def SqlToken.Kept (prev : Option Char) : SqlToken → Prop
  | word w => (∀ c ∈ w, isWordChar c = true) ∨ InParts prev w
  | _ => True

def WordsKept : Option Char → List SqlToken → Prop
  | _, [] => True
  | prev, t :: ts => t.Kept prev ∧ WordsKept t.text.getLast? ts

/-- What the character in front of `rest` tells about the token in front of it. -/
def Behind (prev : Option Char) (before : Option SqlToken) (rest : List Char) : Prop :=
  (prev = some ':' → rest.head? ≠ some ':') ∧
  (∀ c ∈ rest.head?, isNameStart c → (prev = some '.' ↔ before = some (.symbol '.')))

attribute [local simp] SqlToken.text SqlToken.dollarTag

section

variable {prev : Option Char} {before : Option SqlToken} {sc : Scan} {rest : List Char}
variable {t : SqlToken}

variable {c : Char} {w : List Char}

theorem behind_of_ne (hcolon : c ≠ ':') (hdot : c ≠ '.') (ht : before ≠ some (.symbol '.')) :
    Behind (some c) before rest := by
  refine ⟨fun h => ?_,fun d _ _ => ?_⟩
  · exact absurd (Option.some.inj h) hcolon
  · exact ⟨fun h => absurd (Option.some.inj h) hdot,fun h => absurd h ht⟩

theorem ne_of_identChar {c x : Char} (hc : SqlToken.identChar c = true)
    (hx : SqlToken.identChar x = false) : c ≠ x := by
  rintro rfl
  rw [hc] at hx
  cases hx

theorem identChar_of_isNameChar (hc : isNameChar c = true) : SqlToken.identChar c = true := by
  simp only [isNameChar,Bool.or_eq_true] at hc
  rcases hc with hc | hc <;> simp [SqlToken.identChar,isWordChar,hc]

theorem identChar_of_isDigit (hc : c.isDigit = true) : SqlToken.identChar c = true :=
  identChar_of_isNameChar (by simp [isNameChar,Char.isAlphanum,hc])

theorem behind_ident (hne : w ≠ []) (hw : ∀ c ∈ w, SqlToken.identChar c = true)
    (ht : before ≠ some (.symbol '.')) : Behind w.getLast? before rest := by
  rw [getLast?_eq_some_getLast hne]
  have hl := hw _ (getLast_mem hne)
  exact behind_of_ne (ne_of_identChar hl (by decide)) (ne_of_identChar hl (by decide)) ht

theorem ne_nil_of_head {p : Char → Prop} {w : List Char} (h : ∃ c ∈ w.head?, p c) : w ≠ [] := by
  rintro rfl
  obtain ⟨c,hc,-⟩ := h
  cases hc

theorem behind_of_endsAt (hc : t.Common) (he : t.EndsAt rest) :
    Behind t.text.getLast? (some t) rest := by
  cases t with
  | quoted q value =>
    rw [SqlToken.text,quotedText,getLast?_concat]
    have hq : q ≠ ':' ∧ q ≠ '.' := by rcases hc with rfl | rfl <;> decide
    exact behind_of_ne hq.1 hq.2 (by simp)
  | lineComment s =>
    -- the next character is a line break, whatever the comment ends with
    have hrest : ∀ c ∈ rest.head?, c = '\n' := by
      intro c hc
      rcases he with rfl | he
      · cases hc
      · rw [he] at hc
        exact (Option.some.inj hc).symm
    refine ⟨fun _ h => absurd (hrest ':' h) (by decide),fun c hc hs => ?_⟩
    rw [hrest c hc] at hs
    exact absurd hs (by decide)
  | blockComment s =>
    have ht : (SqlToken.blockComment s).text = ('/' :: '*' :: s ++ ['*']) ++ ['/'] := by
      simp
    rw [ht,getLast?_concat]
    exact behind_of_ne (by decide) (by decide) (by simp)
  | dollarQuoted tag s =>
    have ht : (SqlToken.dollarQuoted tag s).text =
        (SqlToken.dollarTag tag ++ s ++ '$' :: tag) ++ ['$'] := by
      simp
    rw [ht,getLast?_concat]
    exact behind_of_ne (by decide) (by decide) (by simp)
  | word w => exact behind_ident (ne_nil_of_head hc.1) hc.2 (by simp)
  | cast =>
    refine ⟨fun _ => he,fun c _ _ => ?_⟩
    simp
  | symbol c =>
    have hns := hc.2.2
    simp only [mem_cons,not_mem_nil,or_false,not_or] at hns
    refine ⟨fun h => absurd (Option.some.inj h) hns.2.2.2.2.1,fun d _ _ => ?_⟩
    simp
  | question => exact behind_of_ne (by decide) (by decide) (by simp)
  | numbered ds =>
    rw [SqlToken.text,getLast?_cons_of_ne_nil hc.1]
    exact behind_ident hc.1 (fun d hd => identChar_of_isDigit (hc.2.1 d hd)) (by simp)
  | named sigil name =>
    have hne := ne_nil_of_head hc.2.1
    rw [SqlToken.text,getLast?_cons_of_ne_nil hne]
    exact behind_ident hne (fun c h => identChar_of_isNameChar (hc.2.2 c h)) (by simp)

theorem scanSql_pass {cs taken left : List Char} {sc' : Scan} {fuel : Nat}
    (h : pass prev c cs sc = ⟨taken,left,sc'⟩) (hf : 0 < fuel) :
    scanSql fuel prev (c :: cs) sc = scanSql (fuel-1) taken.getLast? left sc' := by
  obtain ⟨fuel,rfl⟩ : ∃ n, fuel = n+1 := ⟨fuel-1,by omega⟩
  rw [scanSql,h]
  rfl

/-- In `n` characters the scan gets from `text` to `rest`. -/
def Goes (n : Nat) (prev : Option Char) (text : List Char) (sc : Scan) (prev' : Option Char)
    (rest : List Char) (sc' : Scan) : Prop :=
  ∀ fuel, n ≤ fuel → ∃ fuel', fuel ≤ fuel'+n ∧
    scanSql fuel prev text sc = scanSql fuel' prev' rest sc'

theorem goes_pass {cs taken left : List Char} {sc' : Scan} {n : Nat} (hn : 0 < n)
    (h : pass prev c cs sc = ⟨taken,left,sc'⟩) :
    Goes n prev (c :: cs) sc taken.getLast? left sc' :=
  fun fuel hf => ⟨fuel-1,by omega,scanSql_pass h (by omega)⟩

theorem Goes.trans {n m : Nat} {prev prev₁ prev₂ : Option Char} {t t₁ t₂ : List Char}
    {sc sc₁ sc₂ : Scan} (h : Goes n prev t sc prev₁ t₁ sc₁) (k : Goes m prev₁ t₁ sc₁ prev₂ t₂ sc₂) :
    Goes (n+m) prev t sc prev₂ t₂ sc₂ := by
  intro fuel hf
  obtain ⟨f₁,hf₁,h₁⟩ := h fuel (by omega)
  obtain ⟨f₂,hf₂,h₂⟩ := k f₁ (by omega)
  exact ⟨f₂,by omega,h₁.trans h₂⟩

theorem Scan.copy_copy (sc : Scan) (a b : List Char) : (sc.copy a).copy b = sc.copy (a ++ b) := by
  simp [Scan.copy]

theorem not_isWordChar_of_high (hc : 127 < c.toNat) : isWordChar c = false := by
  have hval : ∀ n : UInt32, n.toNat < 128 → n < c.val := fun n hn =>
    UInt32.lt_iff_toNat_lt.mpr (hn.trans_le hc)
  have hne : ∀ d : Char, d.toNat < 128 → c ≠ d := by
    rintro d hd rfl
    omega
  simp only [isWordChar,Char.isAlphanum,Char.isAlpha,Char.isUpper,Char.isLower,Char.isDigit,
    hne '_' (by decide),hne '$' (by decide)]
  simp [hval 90 (by decide),hval 122 (by decide),hval 57 (by decide)]

theorem goes_parts {w : List Char} (h : InParts prev w)
    (hr : ∀ c ∈ rest.head?, isWordChar c = false) :
    Goes w.length prev (w ++ rest) sc (w.getLast?.or prev) rest (sc.copy w) := by
  induction h generalizing sc with
  | nil => exact fun fuel _ => ⟨fuel,Nat.le_refl _,by simp [Scan.copy]⟩
  | @single prev c w hc h ih =>
    have hne : ∀ d : Char, d.isDigit = false → d.toNat < 128 → c ≠ d := by
      rintro d hd hlt rfl
      rcases hc with hc | hc
      · simp [hd] at hc
      · omega
    have hstart : isNameStart c = false := by
      rcases hc with hc | hc
      · by_contra hs
        simp [isDigit_of_isNameStart (by simpa using hs)] at hc
      · have := not_isWordChar_of_high hc
        simp only [isWordChar,Char.isAlphanum,Bool.or_eq_false_iff] at this
        simp [isNameStart,this]
    have hsym : c ∉ ['\'','"','$','?',':','@'] := by
      simp only [mem_cons,not_mem_nil,or_false,not_or]
      refine ⟨?_,?_,?_,?_,?_,?_⟩ <;> exact hne _ rfl (by decide)
    have hone : Goes 1 prev (c :: (w ++ rest)) sc _ _ _ := goes_pass (by decide)
      (pass_symbol hstart hsym (fun h => absurd h (hne _ rfl (by decide)))
        (fun h => absurd h (hne _ rfl (by decide))))
    have hall := hone.trans ih
    rw [Scan.copy_copy,Nat.add_comm] at hall
    cases w <;> exact hall
  | @run prev c p w hc hp hw hlike h ih =>
    have hpass : pass prev c (p ++ (w ++ rest)) sc = _ := pass_word hc hp
      (by cases w <;> assumption)
    rw [if_neg (fun h => h.2 (hlike h.1))] at hpass
    have hall := (goes_pass (n := (c :: p).length) (by simp) hpass).trans ih
    rw [Scan.copy_copy,← length_append] at hall
    rw [append_assoc,getLast?_append]
    simpa [getLast?_cons] using hall

theorem token_word_high {w : List Char} (hc : c ∈ w) (hx : 127 < c.toNat) (sc : Scan) :
    sc.token before (.word w) = sc.copy w := by
  have hlike : isLike w = false := by
    rw [isLike,decide_eq_false_iff_not]
    intro h
    have hup : c.toUpper ∈ "LIKE".toList := h ▸ mem_map_of_mem hc
    have hsame : c.toUpper = c := by
      have hz : ¬ c.val ≤ 122 := fun hle =>
        absurd (UInt32.le_iff_toNat_le.mp hle) (not_le.mpr (lt_of_lt_of_le (by decide) hx))
      simp [Char.toUpper,hz]
    have hall : "LIKE".toList.all (fun d => d.toNat < 128) = true := rfl
    rw [hsame] at hup
    have := all_eq_true.mp hall c hup
    simp only [decide_eq_true_eq] at this
    omega
  simp [Scan.token,hlike]

theorem goes_word {w : List Char} (hc : (SqlToken.word w).Common) (hk : (SqlToken.word w).Kept prev)
    (he : (SqlToken.word w).EndsAt rest) (hb : Behind prev before (w ++ rest)) (sc : Scan) :
    Goes w.length prev (w ++ rest) sc w.getLast? rest (sc.token before (.word w)) := by
  obtain ⟨⟨c,hhead,hstart⟩,hchars⟩ := hc
  obtain ⟨ds,rfl⟩ : ∃ ds, w = c :: ds := by
    cases w with
    | nil => cases hhead
    | cons d ds => exact ⟨ds,by rw [Option.some.inj hhead]⟩
  have hrest := fun d hd => isWordChar_of_not_identChar (he d hd)
  by_cases hall : ∀ d ∈ c :: ds, isWordChar d = true
  · have hs : isNameStart c = true := by
      simp only [SqlToken.identStart,Bool.or_eq_true,decide_eq_true_eq] at hstart
      refine hstart.resolve_right (fun hx => ?_)
      simp [not_isWordChar_of_high hx] at hall
    have hpass : pass prev c (ds ++ rest) sc = _ := pass_word hs hall hrest
    simp only [Scan.token,← hb.2 c rfl hs,ne_eq]
    exact goes_pass (by simp) hpass
  · have hparts : Goes _ prev (c :: ds ++ rest) sc _ _ _ := goes_parts (hk.resolve_left hall) hrest
    simp only [not_forall] at hall
    obtain ⟨x,hx,hword⟩ := hall
    have hhigh : 127 < x.toNat := by simpa [SqlToken.identChar,hword] using hchars x hx
    rw [token_word_high hx hhigh]
    simpa [getLast?_cons] using hparts

theorem scanSql_token (hc : t.Common) (hk : t.Kept prev) (he : t.EndsAt rest)
    (hb : Behind prev before (t.text ++ rest)) (sc : Scan) :
    Goes t.text.length prev (t.text ++ rest) sc t.text.getLast? rest (sc.token before t) := by
  cases t with
  | quoted q value =>
    have hpass : pass prev q (doubled q value ++ q :: rest) sc = _ := pass_quoted hc he
    have h : Goes (quotedText q value).length _ _ _ _ _ _ := goes_pass (by simp [quotedText]) hpass
    simpa [quotedText,Scan.token] using h
  | lineComment s => exact goes_pass (by simp) (pass_lineComment hc he)
  | blockComment s => exact goes_pass (by simp) (pass_blockComment hc.1)
  | dollarQuoted tag s =>
    have h : Goes (SqlToken.dollarQuoted tag s).text.length prev _ sc _ rest _ :=
      goes_pass (by simp) (pass_dollarQuoted hc.1 hc.2)
    simpa [Scan.token] using h
  | word w => exact goes_word hc hk he hb sc
  | cast =>
    have hfst : Goes 1 prev (':' :: ':' :: rest) sc _ _ _ :=
      goes_pass (by decide) (pass_colon (.inl rfl))
    have hsnd : Goes 1 (some ':') (':' :: rest) (sc.copy [':']) _ _ _ :=
      goes_pass (by decide) (pass_colon (.inr rfl))
    have hall := hfst.trans hsnd
    rw [Scan.copy_copy] at hall
    exact hall
  | symbol c => exact goes_pass (by simp) (pass_symbol hc.2.1 hc.2.2 he.1 he.2)
  | question =>
    have h : pass prev '?' ([] ++ rest) sc = _ := pass_question (by simp) he
    exact goes_pass (by simp) h
  | numbered ds => exact goes_pass (by simp) (pass_question hc.2.1 he)
  | named sigil name =>
    refine goes_pass (by simp) (pass_named hc.1 hc.2 ?_
      (fun c h => isNameChar_of_not_identChar (he.1 c h)))
    rintro rfl hprev
    exact hb.1 hprev rfl

theorem scanSql_tokens {ts : List SqlToken} (hc : ∀ t ∈ ts, t.Common) (hk : WordsKept prev ts)
    (hs : Separated ts) {fuel : Nat} (hf : (sqlText ts).length ≤ fuel)
    (hb : Behind prev before (sqlText ts)) :
    scanSql fuel prev (sqlText ts) sc = sc.tokens before ts := by
  induction ts generalizing fuel prev before sc with
  | nil => cases fuel <;> rfl
  | cons t ts ih =>
    have htext : sqlText (t :: ts) = t.text ++ sqlText ts := rfl
    rw [htext] at hf hb ⊢
    rw [length_append] at hf
    have hct := hc t (by simp)
    obtain ⟨fuel',hle,hscan⟩ := scanSql_token hct hk.1 hs.1 hb sc fuel (by omega)
    rw [hscan,ih (fun u hu => hc u (mem_cons_of_mem t hu)) hk.2 hs.2 (by omega)
      (behind_of_endsAt hct hs.1)]
    rfl

end

def SqliteVars.after : SqliteVars → List SqlToken → SqliteVars
  | v, [] => v
  | v, t :: ts => (v.assign t).2.after ts

def SqliteVars.Bounded (v : SqliteVars) : Prop :=
  ∀ name x, v.vlist.lookup name = some x → x ≤ v.nVar

structure NamesAgree (names : List (Option (List Char))) (v : SqliteVars) : Prop where
  lookup_iff : ∀ name x, v.vlist.lookup name = some x ↔ 0 < x ∧ names[x-1]? = some (some name)
  le : v.Bounded

structure Agrees (sc : Scan) (v : SqliteVars) : Prop extends NamesAgree sc.names v where
  count : sc.maxIdx = v.nVar

section

variable {names : List (Option (List Char))} {v : SqliteVars} {sc : Scan}

theorem agrees_init : Agrees {} {} where
  lookup_iff := by
    intro name x
    rw [getElem?_replicate]
    split <;> simp
  le := by simp [SqliteVars.Bounded]
  count := rfl

theorem NamesAgree.findIdx? (h : NamesAgree names v) {n : Nat} (hn : v.nVar ≤ n)
    (name : List Char) :
    (names.take n).findIdx? (· = some name) = (v.vlist.lookup name).map (·-1) := by
  cases hl : v.vlist.lookup name with
  | none =>
    rw [Option.map_none,List.findIdx?_eq_none_iff]
    intro a ha
    obtain ⟨k,hk⟩ := List.mem_iff_getElem?.mp (List.mem_of_mem_take ha)
    rw [decide_eq_false_iff_not]
    rintro rfl
    have := (h.lookup_iff name (k+1)).mpr ⟨by omega,hk⟩
    rw [hl] at this
    cases this
  | some x =>
    obtain ⟨hx,hget⟩ := (h.lookup_iff name x).mp hl
    have hle := h.le name x hl
    obtain ⟨hlt,hget⟩ := List.getElem?_eq_some_iff.mp hget
    rw [Option.map_some,List.findIdx?_eq_some_iff_getElem]
    refine ⟨by rw [List.length_take]; omega,?_,?_⟩
    · rw [List.getElem_take,hget]
      simp
    intro j hj
    rw [List.getElem_take]
    -- the name has one number only
    intro hname
    have hjx := (h.lookup_iff name (j+1)).mpr
      ⟨by omega,List.getElem?_eq_some_iff.mpr ⟨by omega,of_decide_eq_true hname⟩⟩
    rw [hl] at hjx
    have := Option.some.inj hjx
    omega

theorem NamesAgree.raise (h : NamesAgree names v) {n : Nat} (hn : v.nVar ≤ n) :
    NamesAgree names { v with nVar := n } :=
  ⟨h.lookup_iff,fun name x hx => (h.le name x hx).trans hn⟩

theorem getElem?_append_replicate_none (names : List (Option (List Char))) (n k : Nat)
    (name : List Char) :
    (names ++ replicate n none)[k]? = some (some name) ↔ names[k]? = some (some name) := by
  rw [getElem?_append]
  split
  · rfl
  · rw [getElem?_eq_none (by omega : names.length ≤ k),getElem?_replicate]
    split <;> simp

theorem NamesAgree.grown (h : NamesAgree names v) (n : Nat) :
    NamesAgree (names ++ replicate n none) v :=
  ⟨fun name x => by rw [getElem?_append_replicate_none]; exact h.lookup_iff name x,h.le⟩

theorem NamesAgree.set (h : NamesAgree names v) {name : List Char}
    (hnew : v.vlist.lookup name = none) (hlen : v.nVar < names.length) :
    NamesAgree (names.set v.nVar (some name))
      { nVar := v.nVar+1, vlist := (name,v.nVar+1) :: v.vlist } := by
  have hlook : ∀ other, ((name,v.nVar+1) :: v.vlist).lookup other =
      if other = name then some (v.nVar+1) else v.vlist.lookup other := by
    intro other
    rw [lookup_cons]
    by_cases ho : other = name
    · simp [ho]
    · simp [ho,beq_eq_false_iff_ne.mpr ho]
  constructor
  · intro other x
    rw [hlook,getElem?_set]
    by_cases ho : other = name
    · subst ho
      rw [if_pos rfl]
      constructor
      · rintro ⟨⟩
        simp [hlen]
      rintro ⟨hx,hget⟩
      split at hget
      · congr 1
        omega
      · have := (h.lookup_iff other x).mpr ⟨hx,hget⟩
        rw [hnew] at this
        cases this
    · rw [if_neg ho,h.lookup_iff]
      constructor
      · rintro ⟨hx,hget⟩
        have hle := h.le other x ((h.lookup_iff other x).mpr ⟨hx,hget⟩)
        refine ⟨hx,?_⟩
        rw [if_neg (by omega)]
        exact hget
      · rintro ⟨hx,hget⟩
        split at hget
        · exact absurd (Option.some.inj (Option.some.inj hget)).symm ho
        · exact ⟨hx,hget⟩
  · intro other x hx
    rw [hlook] at hx
    split at hx
    · cases hx
      exact Nat.le_refl _
    · exact (h.le other x hx).trans (Nat.le_succ _)

section

variable (h : Agrees sc v)
include h

theorem Agrees.place (idx : Nat) :
    Agrees ((sc.raise idx).place idx) { v with nVar := max v.nVar idx } := by
  refine ⟨h.toNamesAgree.raise (Nat.le_max_left _ _),?_⟩
  simp only [Scan.place,Scan.copy,Scan.raise,h.count]
  split <;> omega

theorem Agrees.named (sigil : Char) (name : List Char) :
    Agrees (sc.named (sigil :: name)) (v.assign (.named sigil name)).2 ∧
      ∃ n, (v.assign (.named sigil name)).1 = some n ∧
        (sc.named (sigil :: name)).out = sc.out ++ '$' :: Nat.toDigits 10 n := by
  have hfind : sc.lookup (sigil :: name) = (v.vlist.lookup (sigil :: name)).map (·-1) :=
    h.toNamesAgree.findIdx? (h.count ▸ Nat.le_refl _) _
  rw [Scan.named,hfind,SqliteVars.assign]
  cases hl : v.vlist.lookup (sigil :: name) with
  | some x =>
    have hx := ((h.lookup_iff _ x).mp hl).1
    have hsucc : x-1+1 = x := by omega
    simp only [Option.map_some,hsucc]
    exact ⟨⟨h.toNamesAgree,h.count⟩,x,rfl,rfl⟩
  | none =>
    refine ⟨⟨?_,?_⟩,v.nVar+1,rfl,?_⟩
    · simp only [Option.map_none,Scan.place,Scan.copy,Scan.remember,h.count,
        Nat.add_sub_cancel]
      split
      · refine (h.toNamesAgree.grown _).set hl ?_
        rw [length_append,length_replicate]
        omega
      · exact h.toNamesAgree.set hl (by omega)
    · simp [Scan.place,Scan.copy,Scan.remember,h.count]
    · simp [Scan.place,Scan.copy,Scan.remember,h.count]

theorem Agrees.copy (s : List Char) : Agrees (sc.copy s) v :=
  ⟨h.toNamesAgree,h.count⟩

theorem Agrees.token (before : Option SqlToken) {t : SqlToken} (hc : t.Common) :
    Agrees (sc.token before t) (v.assign t).2 ∧
      (sc.token before t).out = sc.out ++ postgresToken before (t,(v.assign t).1) := by
  cases t with
  | question =>
    have hmax : max v.nVar (v.nVar+1) = v.nVar+1 := by omega
    have hidx : sc.token before .question = (sc.raise (v.nVar+1)).place (v.nVar+1) := by
      rw [Scan.token,Scan.positional,if_pos rfl,h.count]
    have hp := h.place (v.nVar+1)
    rw [hmax] at hp
    rw [hidx]
    exact ⟨hp,rfl⟩
  | numbered ds =>
    have hidx : sc.token before (.numbered ds) = (sc.raise (decimal ds)).place (decimal ds) := by
      rw [Scan.token,Scan.positional,if_neg hc.1]
    rw [hidx]
    exact ⟨h.place (decimal ds),rfl⟩
  | named sigil name =>
    obtain ⟨ha,n,hn,hout⟩ := h.named sigil name
    refine ⟨ha,?_⟩
    rw [hn]
    exact hout
  | _ => exact ⟨h.copy _,rfl⟩

theorem Agrees.tokens (before : Option SqlToken) {ts : List SqlToken} (hc : ∀ t ∈ ts, t.Common) :
    Agrees (sc.tokens before ts) (v.after ts) ∧
      (sc.tokens before ts).out = sc.out ++ postgresText before (v.numbers ts) := by
  induction ts generalizing sc v before with
  | nil => exact ⟨h,(append_nil _).symm⟩
  | cons t ts ih =>
    obtain ⟨ht,hout⟩ := h.token before (hc t (by simp))
    obtain ⟨hts,houts⟩ := ih ht (some t) (fun u hu => hc u (mem_cons_of_mem t hu))
    refine ⟨hts,?_⟩
    simp only [Scan.tokens,SqliteVars.numbers,postgresText,houts,hout,append_assoc]

end

end

section

variable {v : SqliteVars}

theorem nVar_assign (h : v.Bounded) (t : SqlToken) :
    (v.assign t).2.nVar = max v.nVar ((v.assign t).1.getD 0) := by
  cases t with
  | question =>
    simp only [SqliteVars.assign,Option.getD_some]
    omega
  | numbered ds => rfl
  | named sigil name =>
    simp only [SqliteVars.assign]
    split
    · rename_i x hx
      have := h _ x hx
      simp only [Option.getD_some]
      omega
    · simp only [Option.getD_some]
      omega
  | _ => simp [SqliteVars.assign]

theorem lookup_assign {t : SqlToken} {name : List Char} {x : Nat}
    (h : v.vlist.lookup name = some x) : (v.assign t).2.vlist.lookup name = some x := by
  cases t with
  | named sigil other =>
    simp only [SqliteVars.assign]
    split
    · exact h
    rename_i hnone
    have hne : name ≠ sigil :: other := by
      rintro rfl
      rw [h] at hnone
      cases hnone
    simp [lookup_cons,beq_eq_false_iff_ne.mpr hne,h]
  | _ => exact h

theorem bounded_assign (h : v.Bounded) (t : SqlToken) : (v.assign t).2.Bounded := by
  intro name x hx
  rw [nVar_assign h]
  cases t with
  | named sigil other =>
    simp only [SqliteVars.assign] at hx ⊢
    split at hx
    · exact (h name x hx).trans (Nat.le_max_left _ _)
    rw [lookup_cons] at hx
    split at hx
    · cases hx
      exact Nat.le_max_right _ _
    · exact (h name x hx).trans (Nat.le_max_left _ _)
  | _ => exact (h name x hx).trans (Nat.le_max_left _ _)

theorem nVar_after (h : v.Bounded) (ts : List SqlToken) :
    (v.after ts).nVar = max v.nVar (largestNumber (v.numbers ts)) := by
  induction ts generalizing v with
  | nil => exact (Nat.max_zero _).symm
  | cons t ts ih =>
    rw [SqliteVars.after,ih (bounded_assign h t),nVar_assign h,SqliteVars.numbers]
    cases (v.assign t).1 <;> simp [largestNumber]

theorem lookup_after {ts : List SqlToken} {name : List Char} {x : Nat}
    (h : v.vlist.lookup name = some x) : (v.after ts).vlist.lookup name = some x := by
  induction ts generalizing v with
  | nil => exact h
  | cons t ts ih => exact ih (lookup_assign h)

theorem lookup_assign_named (sigil : Char) (name : List Char) :
    (v.assign (.named sigil name)).2.vlist.lookup (sigil :: name) =
      (v.assign (.named sigil name)).1 := by
  simp only [SqliteVars.assign]
  split
  · assumption
  · simp

theorem lookup_of_mem_numbers {ts : List SqlToken} {sigil : Char} {name : List Char} {n : Nat}
    (h : (SqlToken.named sigil name,some n) ∈ v.numbers ts) :
    (v.after ts).vlist.lookup (sigil :: name) = some n := by
  induction ts generalizing v with
  | nil => cases h
  | cons t ts ih =>
    rcases mem_cons.mp h with h | h
    · obtain ⟨rfl,hn⟩ := Prod.mk.inj h
      rw [SqliteVars.after]
      exact lookup_after ((lookup_assign_named sigil name).trans hn.symm)
    · exact ih h

end

/-- Tokens that SQLite and PostgreSQL read alike; SQLite has no more than 32766 variables. -/
structure CommonSql (ts : List SqlToken) : Prop where
  common : ∀ t ∈ ts, t.Common
  separated : Separated ts
  numbers : ∀ p ∈ sqliteNumbers ts, ∀ n ∈ p.2, n ≤ 32766

section

variable (rest : List Char) (t : SqlToken)

instance SqlToken.instDecidableIsName (name : List Char) : Decidable (isName name) :=
  decidable_of_iff (name.head?.any isNameStart = true ∧ name.all isNameChar = true)
    (by rw [Option.any_eq_true,List.all_eq_true]; rfl)

instance SqlToken.instDecidableCommon : Decidable t.Common := by
  cases t with
  | word w =>
    exact decidable_of_iff (w.head?.any identStart = true ∧ w.all identChar = true)
      (by rw [Option.any_eq_true,List.all_eq_true]; rfl)
  | numbered ds =>
    exact decidable_of_iff
      (ds ≠ [] ∧ ds.all Char.isDigit = true ∧ 1 ≤ decimal ds ∧ decimal ds ≤ 32766)
      (by rw [List.all_eq_true]; rfl)
  | _ => unfold SqlToken.Common; infer_instance

def decidableNext (p : Char → Bool) : Decidable (∀ c ∈ rest.head?, p c = false) :=
  decidable_of_iff (rest.head?.all (fun c => !p c) = true)
    (by simp [Option.all_eq_true])

instance SqlToken.instDecidableEndsAt : Decidable (t.EndsAt rest) := by
  cases t with
  | word w => exact decidableNext rest identChar
  | question => exact decidableNext rest Char.isDigit
  | numbered ds => exact decidableNext rest Char.isDigit
  | named sigil name =>
    have := decidableNext rest identChar
    unfold SqlToken.EndsAt
    infer_instance
  | _ => unfold SqlToken.EndsAt; infer_instance

instance instDecidableSeparated : (ts : List SqlToken) → Decidable (Separated ts)
  | [] => .isTrue trivial
  | _ :: ts =>
    have := instDecidableSeparated ts
    inferInstanceAs (Decidable (_ ∧ _))

end

/-- `SELECT :a,?3,?,'it''s ?' LIKE :a`, whose third placeholder has the number four. -/
def mixedSql : List SqlToken :=
  [.word "SELECT".toList,.symbol ' ',.named ':' ['a'],.symbol ',',.numbered ['3'],.symbol ',',
    .question,.symbol ',',.quoted '\'' "it's ?".toList,.symbol ' ',.word "LIKE".toList,
    .symbol ' ',.named ':' ['a']]

end Lorentz.Translation
