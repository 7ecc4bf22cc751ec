import Mathlib

/-!
The lexical structure of standard SQL with the nested comments, the literals with a letter in
front and the dollar quotes of PostgreSQL, over quoting by doubling and scanners that take one
token after the other.
-/

set_option autoImplicit false

namespace Quoting

variable {α : Type} [DecidableEq α] (q : α)

def doubled : List α → List α
  | [] => []
  | c :: cs => if c = q then q :: q :: doubled cs else c :: doubled cs

def quotedText (value : List α) : List α := q :: doubled q value ++ [q]

/-- The value of a quoted text behind its opening quote, and what follows the closing one. -/
def readQuoted : List α → Option (List α × List α)
  | [] => none
  | [c] => if c = q then some ([],[]) else none
  | c :: d :: cs =>
    if c = q then
      if d = q then (readQuoted cs).map (fun r => (q :: r.1,r.2)) else some ([],d :: cs)
    else (readQuoted (d :: cs)).map (fun r => (c :: r.1,r.2))

variable {q}

theorem readQuoted_close {rest : List α} (h : rest.head? ≠ some q) :
    readQuoted q (q :: rest) = some ([],rest) := by
  cases rest with
  | nil => simp [readQuoted]
  | cons d ds =>
    have hd : d ≠ q := by simpa using h
    simp [readQuoted,hd]

theorem readQuoted_cons {c : α} (hc : c ≠ q) (cs : List α) :
    readQuoted q (c :: cs) = (readQuoted q cs).map (fun r => (c :: r.1,r.2)) := by
  cases cs with
  | nil | cons d ds => simp [readQuoted,hc]

theorem readQuoted_doubled (value : List α) {rest : List α} (h : rest.head? ≠ some q) :
    readQuoted q (doubled q value ++ q :: rest) = some (value,rest) := by
  induction value with
  | nil => exact readQuoted_close h
  | cons c cs ih =>
    by_cases hc : c = q
    · subst hc
      simp [doubled,readQuoted,ih]
    · rw [doubled,if_neg hc,List.cons_append,readQuoted_cons hc,ih]
      rfl

theorem length_readQuoted {cs value left : List α} (h : readQuoted q cs = some (value,left)) :
    left.length ≤ cs.length := by
  fun_induction readQuoted q cs generalizing value left with
  | case1 => cases h
  | case2 => cases h; simp
  | case3 c hc => cases h
  | case4 cs ih =>
    obtain ⟨r,hr,heq⟩ := Option.map_eq_some_iff.mp h
    obtain ⟨-,rfl⟩ := Prod.mk.inj heq
    have := ih hr
    simp only [List.length_cons]
    omega
  | case5 d cs hd =>
    cases h
    simp
  | case6 c d cs hc ih =>
    obtain ⟨r,hr,heq⟩ := Option.map_eq_some_iff.mp h
    obtain ⟨-,rfl⟩ := Prod.mk.inj heq
    have := ih hr
    simp only [List.length_cons] at this ⊢
    omega

end Quoting

/-- `next` is given the first character and the others; it may fail. -/
structure Scanner (σ α τ : Type) where
  next : σ → α → List α → Option (τ × σ × List α)
  next_le : ∀ s c cs t s' left, next s c cs = some (t,s',left) → left.length ≤ cs.length

namespace Scanner

variable {σ α τ : Type} (m : Scanner σ α τ)

def runFuel : Nat → σ → List α → Option (List τ × σ)
  | _, s, [] => some ([],s)
  | 0, _, _ :: _ => none
  | fuel+1, s, c :: cs =>
    match m.next s c cs with
    | none => none
    | some (t,s',left) => (runFuel fuel s' left).map (fun r => (t :: r.1,r.2))

def run (s : σ) (cs : List α) : Option (List τ × σ) := m.runFuel cs.length s cs

inductive Reaches : σ → List α → List τ → σ → List α → Prop
  | here (s : σ) (cs : List α) : Reaches s cs [] s cs
  | step {s s' s'' : σ} {c : α} {cs left left' : List α} {t : τ} {ts : List τ} :
    m.next s c cs = some (t,s',left) → Reaches s' left ts s'' left' →
    Reaches s (c :: cs) (t :: ts) s'' left'

variable {m}

theorem runFuel_eq {n k : Nat} {s : σ} {cs : List α} (hn : cs.length ≤ n) (hk : cs.length ≤ k) :
    m.runFuel n s cs = m.runFuel k s cs := by
  induction n generalizing k s cs with
  | zero =>
    cases cs with
    | nil => cases k <;> rfl
    | cons c cs => cases hn
  | succ n ih =>
    cases cs with
    | nil => cases k <;> rfl
    | cons c cs =>
      simp only [List.length_cons] at hn hk
      obtain ⟨k,rfl⟩ : ∃ j, k = j+1 := ⟨k-1,by omega⟩
      rw [runFuel,runFuel]
      cases hnext : m.next s c cs with
      | none => rfl
      | some r =>
        obtain ⟨t,s',left⟩ := r
        have hle := m.next_le s c cs t s' left hnext
        simp only
        rw [ih (k := k) (by omega) (by omega)]

theorem run_nil (s : σ) : m.run s [] = some ([],s) := rfl

theorem run_cons {s s' : σ} {c : α} {cs left : List α} {t : τ}
    (h : m.next s c cs = some (t,s',left)) :
    m.run s (c :: cs) = (m.run s' left).map (fun r => (t :: r.1,r.2)) := by
  have hle := m.next_le s c cs t s' left h
  rw [run,List.length_cons,runFuel,h]
  simp only
  rw [runFuel_eq hle (Nat.le_refl _)]
  rfl

theorem Reaches.run_eq {s s' : σ} {cs left : List α} {ts : List τ}
    (h : m.Reaches s cs ts s' left) :
    m.run s cs = (m.run s' left).map (fun r => (ts ++ r.1,r.2)) := by
  induction h with
  | here s cs => cases m.run s cs <;> rfl
  | step hnext _ ih =>
    rw [run_cons hnext,ih,Option.map_map]
    rfl

end Scanner

namespace SqlLexer

open Quoting

inductive Lexeme where
  | literal (value : List Char)
  | identifier (value : List Char)
  | letterLiteral (text : List Char)
  | dollarQuoted (text : List Char)
  | comment (text : List Char)
  | word (text : List Char)
  | number (text : List Char)
  | symbol (c : Char)
  | unterminated (text : List Char)
  deriving DecidableEq

def identStart (c : Char) : Bool := c.isAlpha || c = '_' || 127 < c.toNat

def identChar (c : Char) : Bool := c.isAlphanum || c = '_' || c = '$' || 127 < c.toNat

/-- Behind a literal: what follows the quote that goes on with it, which needs a line break in
between. Only white space and comments up to the end of a line may stand there, too. -/
def continuation : Bool → Bool → List Char → Option (List Char)
  | _, _, [] => none
  | broken, comment, c :: cs =>
    if c = '\n' ∨ c = '\r' then continuation true false cs
    else if comment then continuation broken true cs
    else if c = '\'' then if broken then some cs else none
    else if c ∈ [' ','\t','\x0b','\x0c'] then continuation broken false cs
    else if c = '-' ∧ cs.head? = some '-' then continuation broken true cs
    else none

/-- The value of a literal behind its opening quote, with the parts that go on with it. -/
def readLiteral : Nat → List Char → Option (List Char × List Char)
  | 0, _ => none
  | n+1, cs =>
    match readQuoted '\'' cs with
    | none => none
    | some (value,left) =>
      match continuation false false left with
      | none => some (value,left)
      | some left => (readLiteral n left).map (fun r => (value ++ r.1,r.2))

def quotedLexeme (q : Char) (cs : List Char) : Lexeme × List Char :=
  match if q = '"' then readQuoted q cs else readLiteral (cs.length+1) cs with
  | some (value,left) => (if q = '"' then .identifier value else .literal value,left)
  | none => (.unterminated (q :: cs),[])

/-- Behind the opening of a comment with `depth` more around it. -/
def takeComment : Nat → List Char → List Char × List Char
  | _, [] => ([],[])
  | _, [x] => ([x],[])
  | depth, x :: y :: ys =>
    if x = '*' ∧ y = '/' then
      match depth with
      | 0 => ([x,y],ys)
      | depth+1 => (x :: y :: (takeComment depth ys).1,(takeComment depth ys).2)
    else if x = '/' ∧ y = '*' then
      (x :: y :: (takeComment (depth+1) ys).1,(takeComment (depth+1) ys).2)
    else (x :: (takeComment depth (y :: ys)).1,(takeComment depth (y :: ys)).2)

def takeTagged (tag : List Char) : List Char → List Char × List Char
  | [] => ([],[])
  | c :: cs =>
    if tag.isPrefixOf (c :: cs) then (tag,(c :: cs).drop tag.length)
    else (c :: (takeTagged tag cs).1,(takeTagged tag cs).2)

def takeEscaped : List Char → List Char × List Char
  | [] => ([],[])
  | [x] => ([x],[])
  | x :: y :: ys =>
    if x = '\\' ∨ (x = '\'' ∧ y = '\'') then (x :: y :: (takeEscaped ys).1,(takeEscaped ys).2)
    else if x = '\'' then ([x],y :: ys)
    else (x :: (takeEscaped (y :: ys)).1,(takeEscaped (y :: ys)).2)

def takeEscapes : Nat → List Char → List Char × List Char
  | 0, cs => ([],cs)
  | n+1, cs =>
    let r := takeEscaped cs
    match continuation false false r.2 with
    | none => r
    | some left =>
      (r.1 ++ r.2.take (r.2.length-left.length) ++ (takeEscapes n left).1,(takeEscapes n left).2)

/-- What a word makes of the text behind it: the letters of `E'a'`, `X'a'` and `U&'a'` belong
to the literal. -/
def wordLexeme (w left : List Char) : Lexeme × List Char :=
  match w.map Char.toUpper, left with
  | ['E'], '\'' :: cs =>
    let r := takeEscapes (cs.length+1) cs
    (.letterLiteral (w ++ '\'' :: r.1),r.2)
  | ['U'], '&' :: q :: cs =>
    if q = '\'' ∨ q = '"' then
      match if q = '"' then readQuoted q cs else readLiteral (cs.length+1) cs with
      | some (value,left) => (.letterLiteral (w ++ '&' :: quotedText q value),left)
      | none => (.unterminated (w ++ left),[])
    else (.word w,left)
  | [c], '\'' :: cs =>
    if c ∈ ['B','N','X'] then
      match readLiteral (cs.length+1) cs with
      | some (value,left) => (.letterLiteral (w ++ quotedText '\'' value),left)
      | none => (.unterminated (w ++ left),[])
    else (.word w,left)
  | _, _ => (.word w,left)

def nextLexeme (c : Char) (cs : List Char) : Lexeme × List Char :=
  if c = '\'' ∨ c = '"' then quotedLexeme c cs
  else if c = '-' ∧ cs.head? = some '-' then
    (.comment (c :: cs.takeWhile (fun d => d ≠ '\n' && d ≠ '\r')),
      cs.dropWhile (fun d => d ≠ '\n' && d ≠ '\r'))
  else if c = '/' ∧ cs.head? = some '*' then
    (.comment (c :: '*' :: (takeComment 0 cs.tail).1),(takeComment 0 cs.tail).2)
  else if c = '$' then
    match cs.dropWhile (fun d => identChar d && d ≠ '$') with
    | '$' :: left =>
      let name := cs.takeWhile (fun d => identChar d && d ≠ '$')
      let tag := c :: name ++ ['$']
      if name.head?.all identStart then
        (.dollarQuoted (tag ++ (takeTagged tag left).1),(takeTagged tag left).2)
      else (.symbol c,cs)
    | _ => (.symbol c,cs)
  else if identStart c then
    wordLexeme (c :: cs.takeWhile identChar) (cs.dropWhile identChar)
  else if c.isDigit then
    (.number (c :: cs.takeWhile identChar),cs.dropWhile identChar)
  else (.symbol c,cs)

theorem length_continuation {broken comment : Bool} {cs left : List Char}
    (h : continuation broken comment cs = some left) : left.length ≤ cs.length := by
  fun_induction continuation broken comment cs <;> simp_all <;> omega

theorem length_readLiteral {n : Nat} {cs value left : List Char}
    (h : readLiteral n cs = some (value,left)) : left.length ≤ cs.length := by
  induction n generalizing cs value left with
  | zero => cases h
  | succ n ih =>
    unfold readLiteral at h
    split at h
    · cases h
    rename_i hr
    have hle := length_readQuoted hr
    split at h
    · cases h
      exact hle
    rename_i hc
    obtain ⟨r,hrest,heq⟩ := Option.map_eq_some_iff.mp h
    obtain ⟨-,rfl⟩ := Prod.mk.inj heq
    exact ((ih hrest).trans (length_continuation hc)).trans hle

theorem length_read {q : Char} {n : Nat} {cs value left : List Char}
    (h : (if q = '"' then readQuoted q cs else readLiteral n cs) = some (value,left)) :
    left.length ≤ cs.length := by
  split at h
  · exact length_readQuoted h
  · exact length_readLiteral h

theorem length_quotedLexeme (q : Char) (cs : List Char) :
    (quotedLexeme q cs).2.length ≤ cs.length := by
  unfold quotedLexeme
  split
  · exact length_read ‹_›
  · exact Nat.zero_le _

theorem length_takeComment (depth : Nat) (cs : List Char) :
    (takeComment depth cs).2.length ≤ cs.length := by
  fun_induction takeComment depth cs <;> simp_all <;> omega

theorem length_takeTagged (tag cs : List Char) : (takeTagged tag cs).2.length ≤ cs.length := by
  fun_induction takeTagged tag cs with
  | case1 => exact Nat.le_refl _
  | case2 c cs h => simp
  | case3 c cs h ih =>
    simp only [List.length_cons]
    omega

theorem length_takeEscaped (cs : List Char) : (takeEscaped cs).2.length ≤ cs.length := by
  fun_induction takeEscaped cs <;> simp_all <;> omega

theorem length_takeEscapes (n : Nat) (cs : List Char) :
    (takeEscapes n cs).2.length ≤ cs.length := by
  induction n generalizing cs with
  | zero => exact Nat.le_refl _
  | succ n ih =>
    have hle := length_takeEscaped cs
    unfold takeEscapes
    dsimp only
    split
    · exact hle
    · rename_i left hc
      exact ((ih left).trans (length_continuation hc)).trans hle

theorem length_wordLexeme (w left : List Char) : (wordLexeme w left).2.length ≤ left.length := by
  unfold wordLexeme
  split
  · rename_i cs _
    have := length_takeEscapes (cs.length+1) cs
    simp only [List.length_cons]
    omega
  · split
    · split
      · rename_i hr
        have := length_read hr
        simp only [List.length_cons]
        omega
      · exact Nat.zero_le _
    · exact Nat.le_refl _
  · split
    · split
      · rename_i hr
        have := length_readLiteral hr
        simp only [List.length_cons]
        omega
      · exact Nat.zero_le _
    · exact Nat.le_refl _
  · exact Nat.le_refl _

theorem length_nextLexeme (c : Char) (cs : List Char) :
    (nextLexeme c cs).2.length ≤ cs.length := by
  unfold nextLexeme
  split
  · exact length_quotedLexeme c cs
  split
  · exact List.length_dropWhile_le _ cs
  split
  · have := length_takeComment 0 cs.tail
    simp only [List.length_tail] at this
    simp only
    omega
  split
  · split
    · rename_i left hl
      have hle := List.length_dropWhile_le (fun d => identChar d && d ≠ '$') cs
      rw [hl,List.length_cons] at hle
      have := length_takeTagged (c :: cs.takeWhile (fun d => identChar d && d ≠ '$') ++ ['$']) left
      simp only
      split
      · simp only at this ⊢
        omega
      · exact Nat.le_refl _
    · exact Nat.le_refl _
  split
  · exact Nat.le_trans (length_wordLexeme _ _) (List.length_dropWhile_le _ cs)
  split
  · exact List.length_dropWhile_le _ cs
  · exact Nat.le_refl _

def sqlLexer : Scanner Unit Char Lexeme where
  next _ c cs := some ((nextLexeme c cs).1,(),(nextLexeme c cs).2)
  next_le _ c cs _ _ _ h := by
    cases h
    exact length_nextLexeme c cs

def quotedToken (q : Char) (value : List Char) : Lexeme :=
  if q = '"' then .identifier value else .literal value

/-- Nothing behind a closing quote goes on with the token. -/
def Ends (q : Char) (rest : List Char) : Prop :=
  rest.head? ≠ some q ∧ (q = '\'' → continuation false false rest = none)

instance (q : Char) (rest : List Char) : Decidable (Ends q rest) := by
  unfold Ends
  infer_instance

theorem reaches_quotedText {q : Char} (hq : q = '\'' ∨ q = '"') (value : List Char)
    {rest : List Char} (h : Ends q rest) :
    sqlLexer.Reaches () (quotedText q value ++ rest) [quotedToken q value] () rest := by
  have hread := readQuoted_doubled value h.1
  have hnext : nextLexeme q (doubled q value ++ q :: rest) = (quotedToken q value,rest) := by
    rw [nextLexeme,if_pos hq,quotedLexeme]
    rcases hq with rfl | rfl
    · rw [if_neg (by decide),readLiteral,hread]
      simp only [h.2 rfl]
      rfl
    · rw [if_pos rfl,hread]
      rfl
  have htext : quotedText q value ++ rest = q :: (doubled q value ++ q :: rest) := by
    simp [quotedText]
  rw [htext]
  refine .step ?_ (.here () rest)
  simp only [sqlLexer,hnext]

end SqlLexer
