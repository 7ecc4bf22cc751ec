import Lorentz.DomainSyntax

/-!
List files as a whole: the parser sees only the lines without trailing white space, one after the
other, and what it hands over is read back unless it ends with a dot or is an address.
-/

set_option autoImplicit false

namespace Lorentz
open Feed Split List

theorem rdropWhile_dropTrailing {c : Char} (hc : isspace c = true) (l : List Char) :
    (dropTrailing c l).rdropWhile isspace = l.rdropWhile isspace := by
  rw [dropTrailing]
  split
  · rename_i h
    have hl : l = l.dropLast ++ [c] := (dropLast_append_getLast? c h).symm
    rw [hl,rdropWhile_concat_pos _ _ _ hc,dropLast_concat]
  · rfl

variable (l : List Char) (s : List Char)

theorem trimLine_eq : trimLine l = l.rdropWhile isspace := by
  have h : trimLine l = (dropTrailing '\r' (dropTrailing '\n' l)).rdropWhile isspace := rfl
  rw [h,rdropWhile_dropTrailing (by decide),rdropWhile_dropTrailing (by decide)]

theorem trimLine_cons (c : Char) (l : List Char) :
    trimLine (c :: l) = if trimLine l = [] ∧ isspace c then [] else c :: trimLine l := by
  rw [trimLine_eq,trimLine_eq]
  simp only [List.rdropWhile,List.reverse_cons,List.dropWhile_append,List.isEmpty_iff]
  by_cases h : l.reverse.dropWhile isspace = []
  · by_cases hc : isspace c
    · simp [h,hc]
    · simp [h,hc,List.dropWhile]
  · simp [h]

theorem trimLine_trimLine : trimLine (trimLine l) = trimLine l := by
  rw [trimLine_eq,trimLine_eq,rdropWhile_idempotent]

theorem trimLine_blank {l : List Char} (h : ∀ c ∈ l, isspace c) : trimLine l = [] := by
  rw [trimLine_eq,rdropWhile_eq_nil_iff]
  exact h

def rows (s : List Char) : List (List Char) := (s.splitOn '\n').map trimLine

theorem rows_cons {c : Char} (hc : c ≠ '\n') (s : List Char) :
    rows (c :: s) =
      (rows s).modifyHead (fun r => if r = [] ∧ isspace c then [] else c :: r) := by
  obtain ⟨l,ls,h⟩ := exists_splitOn (b := '\n') s
  simp [rows,splitOn_cons hc,h,trimLine_cons]

theorem rows_break : rows ('\n' :: s) = [] :: rows s := by
  rfl

theorem rows_append_break (u v : List Char) : rows (u ++ '\n' :: v) = rows u ++ rows v := by
  rw [rows,splitOn_append_cons_self,map_append]
  rfl

/-- `getline` sees no line behind the last newline. -/
theorem getlines_rows :
    (getlines s).map trimLine = rows s ∨ (getlines s).map trimLine ++ [[]] = rows s := by
  induction s with
  | nil => exact .inr rfl
  | cons c s ih =>
    by_cases hc : c = '\n'
    · subst hc
      rw [rows_break]
      have hline : trimLine ['\n'] = [] := by decide
      rcases ih with ih | ih
      · exact .inl (by rw [getlines,if_pos rfl,map_cons,ih,hline])
      · exact .inr (by rw [getlines,if_pos rfl,map_cons,cons_append,ih,hline])
    rw [rows_cons hc,getlines,if_neg hc]
    cases hg : getlines s with
    | nil =>
      rw [hg] at ih
      have hrow : rows s = [[]] := by
        rcases ih with ih | ih
        · obtain ⟨l,ls,h⟩ := exists_splitOn (b := '\n') s
          simp [rows,h] at ih
        · exact ih.symm
      have hnil : trimLine [] = [] := rfl
      exact .inl (by rw [hrow]; simp [trimLine_cons,hnil])
    | cons l ls =>
      rw [hg] at ih
      rcases ih with ih | ih
      · exact .inl (by rw [← ih]; simp [trimLine_cons])
      · exact .inr (by rw [← ih]; simp [trimLine_cons])

theorem mark_trimLine : byteOrderMark.isPrefixOf (trimLine l) = byteOrderMark.isPrefixOf l ∧
      (byteOrderMark.isPrefixOf l → (trimLine l).drop 3 = trimLine (l.drop 3)) := by
  have hmark (r : List Char) : trimLine (byteOrderMark ++ r) = byteOrderMark ++ trimLine r := by
    simp only [byteOrderMark,cons_append,nil_append,trimLine_cons]
    have he : isspace (Char.ofNat 0xEF) = false ∧ isspace (Char.ofNat 0xBB) = false ∧
        isspace (Char.ofNat 0xBF) = false := by decide
    simp [he]
  constructor
  · rw [Bool.eq_iff_iff,List.isPrefixOf_iff_prefix,List.isPrefixOf_iff_prefix]
    constructor
    · rw [trimLine_eq]
      exact fun h => h.trans (List.rdropWhile_prefix ..)
    · rintro ⟨r,rfl⟩
      exact ⟨trimLine r,(hmark r).symm⟩
  · intro h
    obtain ⟨r,rfl⟩ := List.isPrefixOf_iff_prefix.mp h
    rw [hmark]
    rfl

theorem dropByteOrderMark_map (ls : List (List Char)) :
    (dropByteOrderMark ls).map trimLine = dropByteOrderMark (ls.map trimLine) := by
  cases ls with
  | nil => rfl
  | cons l ls =>
    obtain ⟨hmark,hdrop⟩ := mark_trimLine l
    simp only [dropByteOrderMark,map_cons,hmark]
    by_cases h : byteOrderMark.isPrefixOf l
    · rw [if_pos h,if_pos h,hdrop h]
    · rw [if_neg h,if_neg h]

theorem dropByteOrderMark_append {ls : List (List Char)} (h : ls ≠ []) (ms : List (List Char)) :
    dropByteOrderMark (ls ++ ms) = dropByteOrderMark ls ++ ms := by
  cases ls with
  | nil => exact absurd rfl h
  | cons l ls => rfl

namespace ListParser

variable (p : ListParser)

theorem parseLine_trimLine {β : Type} (add : List Char → β → Bool × β) (l : List Char) :
    p.parseLine β add (trimLine l) = p.parseLine β add l := by
  have h : cleanLine (trimLine l) = cleanLine l := by
    simp only [cleanLine,trimLine_trimLine]
  simp only [parseLine,h]

variable {x : List Char} (s : List Char) (ls : List (List Char)) (first : Option Char)

theorem each_trimLine (s : ParseStats × List (List Char)) :
    p.parseLine.each _ collect (ls.map trimLine) s = p.parseLine.each _ collect ls s := by
  induction ls generalizing s with
  | nil => rfl
  | cons l ls ih =>
    simp only [Producer.each,map_cons,feed,p.parseLine_trimLine] at ih ⊢
    cases h : p.parseLine _ collect l s with
    | mk ok t => cases ok <;> simp [ih]

theorem each_empty (s : ParseStats × List (List Char)) :
    p.parseLine.each _ collect (ls ++ [[]]) s = p.parseLine.each _ collect ls s := by
  induction ls generalizing s with
  | nil => rfl
  | cons l ls ih =>
    simp only [Producer.each,cons_append,feed] at ih ⊢
    cases h : p.parseLine _ collect l s with
    | mk ok t => cases ok <;> simp [ih]

theorem handedOver_rows :
    p.handedOver s = p.parseLine.each _ collect (dropByteOrderMark (rows s)) (.zero,[]) := by
  have h : p.handedOver s =
      p.parseLine.each _ collect (dropByteOrderMark ((getlines s).map trimLine)) (.zero,[]) := by
    rw [← dropByteOrderMark_map,p.each_trimLine]
    rfl
  rw [h]
  rcases getlines_rows s with hr | hr
  · rw [hr]
  rw [← hr]
  cases hg : (getlines s).map trimLine with
  | nil => rfl
  | cons l ls => rw [dropByteOrderMark_append (by simp),p.each_empty]

/-- What a token, a line or a file adds, whatever was parsed before. -/
def Adds {τ : Type} (P : Producer (List Char) τ ParseStats) (x : τ) : Prop :=
  ∃ (xs : List (List Char)) (e a i : UInt32), ∀ st acc, ∃ st',
    P _ collect x (st,acc) = (true,st',acc ++ xs) ∧ st'.exact = st.exact+e ∧
      st'.abp = st.abp+a ∧ st'.invalid = st.invalid+i

theorem Adds.each {τ : Type} {P : Producer (List Char) τ ParseStats} (h : ∀ x, Adds P x)
    (xs : List τ) : Adds P.each xs := by
  induction xs with
  | nil => exact ⟨[],0,0,0,fun st acc => ⟨st,by simp [Producer.each,feed],by simp,by simp,by simp⟩⟩
  | cons x xs ih =>
    obtain ⟨ys,e,a,i,hx⟩ := h x
    obtain ⟨zs,e',a',i',hxs⟩ := ih
    refine ⟨ys ++ zs,e+e',a+a',i+i',fun st acc => ?_⟩
    obtain ⟨st₁,h₁,he,ha,hi⟩ := hx st acc
    obtain ⟨st₂,h₂,he',ha',hi'⟩ := hxs st₁ (acc ++ ys)
    refine ⟨st₂,?_,by rw [he',he,UInt32.add_assoc],by rw [ha',ha,UInt32.add_assoc],
      by rw [hi',hi,UInt32.add_assoc]⟩
    simp only [Producer.each,feed,h₁] at h₂ ⊢
    rw [h₂,append_assoc]

section

variable (hmem : ∀ n, p.sampleFits n = true)
include hmem

theorem invalidToken_adds (token : List Char) :
    ∃ i : UInt32, ∀ st, (p.invalidToken token st).1 = true ∧
      (p.invalidToken token st).2.exact = st.exact ∧ (p.invalidToken token st).2.abp = st.abp ∧
      (p.invalidToken token st).2.invalid = st.invalid+i := by
  by_cases hf : isFalsePositive token
  · exact ⟨0,fun st => by simp [invalidToken,hf]⟩
  refine ⟨1,fun st => ?_⟩
  simp only [invalidToken,if_neg hf,hmem,if_true]
  split
  · simp
  · split <;> simp

theorem parseToken_adds (first : Option Char) (token : List Char) :
    Adds (p.parseToken first) token := by
  by_cases ha : p.isAddress token
  · exact ⟨[],0,0,0,fun st acc => ⟨st,by simp [parseToken,ha],by simp,by simp,by simp⟩⟩
  by_cases he : normalize token = []
  · exact ⟨[],0,0,0,fun st acc => ⟨st,by simp [parseToken,ha,he],by simp,by simp,by simp⟩⟩
  by_cases hv : first ≠ some p.marker ∧ validDomain (normalize token) true false
  · exact ⟨[normalize token],1,0,0,fun st acc => ⟨{ st with exact := st.exact+1 },
      by simp [parseToken,ha,he,hv,collect],rfl,by simp,by simp⟩⟩
  by_cases hw : (normalize token).head? = some p.marker ∧
    validAbpDomain (normalize token) p.antigravity
  · exact ⟨[normalize token],0,1,0,fun st acc => ⟨{ st with abp := st.abp+1 },
      by simp only [parseToken,ha,he,hv,hw,collect]; rfl,by simp,rfl,by simp⟩⟩
  obtain ⟨i,hi⟩ := p.invalidToken_adds hmem (normalize token)
  refine ⟨[],0,0,i,fun st acc => ⟨(p.invalidToken (normalize token) st).2,?_,?_⟩⟩
  · simp only [parseToken,ha,he,hv,hw,(hi st).1,append_nil]
    rfl
  · simpa using (hi st).2

theorem parseLine_adds (l : List Char) : Adds p.parseLine l :=
  Adds.each (p.parseToken_adds hmem _) (tokens (cleanLine l))

end

def crlf (s : List Char) : List Char := s.flatMap (fun c => if c = '\n' then ['\r','\n'] else [c])

theorem rows_crlf : rows (crlf s) = rows s := by
  induction s with
  | nil => rfl
  | cons c s ih =>
    by_cases hc : c = '\n'
    · subst hc
      have h : crlf ('\n' :: s) = '\r' :: '\n' :: crlf s := rfl
      rw [h,rows_cons (by decide),rows_break,rows_break,ih]
      rfl
    · have h : crlf (c :: s) = c :: crlf s := by simp [crlf,hc]
      rw [h,rows_cons hc,rows_cons hc,ih]

theorem rows_blanks {blanks : List Char} (h : ∀ c ∈ blanks, c = ' ' ∨ c = '\t') :
    rows (s ++ blanks) = rows s := by
  induction s with
  | nil =>
    have hn : '\n' ∉ blanks := fun hn => by simpa using h _ hn
    have hsplit := splitOn_append hn []
    have hspace : ∀ c ∈ blanks, isspace c := fun c hc => by
      rcases h c hc with rfl | rfl <;> rfl
    rw [append_nil] at hsplit
    rw [nil_append,rows,hsplit]
    simp [rows,splitOn,trimLine_blank hspace]
    rfl
  | cons c s ih =>
    by_cases hc : c = '\n'
    · rw [hc,cons_append,rows_break,rows_break,ih]
    · rw [cons_append,rows_cons hc,rows_cons hc,ih]

theorem dropByteOrderMark_rows {s : List Char} (h : byteOrderMark.isPrefixOf s = false) :
    dropByteOrderMark (rows s) = rows s := by
  obtain ⟨l,ls,hl⟩ := exists_splitOn (b := '\n') s
  obtain ⟨rest,hs⟩ := splitOn_front hl
  have hmark : byteOrderMark.isPrefixOf l = false := by
    rw [Bool.eq_false_iff,ne_eq,List.isPrefixOf_iff_prefix] at h ⊢
    exact fun hp => h (hs ▸ hp.trans (prefix_append ..))
  simp [rows,hl,dropByteOrderMark,(mark_trimLine l).1,hmark]

theorem dropByteOrderMark_mark : dropByteOrderMark (rows (byteOrderMark ++ s)) = rows s := by
  obtain ⟨l,ls,hl⟩ := exists_splitOn (b := '\n') s
  have hmark : byteOrderMark.isPrefixOf (byteOrderMark ++ l) := by
    rw [List.isPrefixOf_iff_prefix]
    exact prefix_append ..
  obtain ⟨hsame,hdrop⟩ := mark_trimLine (byteOrderMark ++ l)
  rw [rows,splitOn_append (by decide),hl,modifyHead_cons,map_cons,dropByteOrderMark,hsame,
    if_pos hmark,hdrop hmark,rows,hl]
  rfl

/-- A list file is parsed line by line; line ends, a byte order mark before a file without one,
and blanks behind lines do not matter. -/
theorem list_parsed_by_line (p : ListParser) :
    (∀ A B : List Char, (∀ n, p.sampleFits n = true) → A.getLast? = some '\n' →
      byteOrderMark.isPrefixOf B = false →
      (p.handedOver (A ++ B)).2.2 = (p.handedOver A).2.2 ++ (p.handedOver B).2.2 ∧
      (p.handedOver (A ++ B)).2.1.exact = (p.handedOver A).2.1.exact+(p.handedOver B).2.1.exact ∧
      (p.handedOver (A ++ B)).2.1.abp = (p.handedOver A).2.1.abp+(p.handedOver B).2.1.abp ∧
      (p.handedOver (A ++ B)).2.1.invalid =
        (p.handedOver A).2.1.invalid+(p.handedOver B).2.1.invalid) ∧
    (∀ s, p.handedOver (crlf s) = p.handedOver s) ∧
    (∀ s, byteOrderMark.isPrefixOf s = false →
      p.handedOver (byteOrderMark ++ s) = p.handedOver s) ∧
    (∀ s rest blanks : List Char, (∀ c ∈ blanks, c = ' ' ∨ c = '\t') →
      p.handedOver (s ++ blanks) = p.handedOver s ∧
      p.handedOver (s ++ blanks ++ '\n' :: rest) = p.handedOver (s ++ '\n' :: rest)) := by
  refine ⟨fun A B hmem hA hB => ?_,fun s => ?_,fun s hs => ?_,fun s rest blanks hb => ⟨?_,?_⟩⟩
  · obtain ⟨A,rfl⟩ : ∃ A', A = A' ++ ['\n'] :=
      ⟨A.dropLast,(dropLast_append_getLast? '\n' hA).symm⟩
    have hne : rows A ≠ [] := by
      obtain ⟨l,ls,h⟩ := exists_splitOn (b := '\n') A
      simp [rows,h]
    have hone : rows [] = [[]] := rfl
    have hAB : A ++ ['\n'] ++ B = A ++ '\n' :: B := by simp
    obtain ⟨xs,e,a,i,hxs⟩ := Adds.each (p.parseLine_adds hmem) (dropByteOrderMark (rows A))
    obtain ⟨ys,e',a',i',hys⟩ := Adds.each (p.parseLine_adds hmem) (rows B)
    obtain ⟨st,h₁,he,ha,hi⟩ := hxs .zero []
    obtain ⟨st₁,h₂,he₁,ha₁,hi₁⟩ := hys .zero []
    obtain ⟨st₂,h₃,he₂,ha₂,hi₂⟩ := hys st ([] ++ xs)
    have hA' : p.handedOver (A ++ ['\n']) = (true,st,[] ++ xs) := by
      rw [p.handedOver_rows,rows_append_break,dropByteOrderMark_append hne,hone,p.each_empty,h₁]
    have hB' : p.handedOver B = (true,st₁,[] ++ ys) := by
      rw [p.handedOver_rows,dropByteOrderMark_rows hB,h₂]
    have hboth : p.handedOver (A ++ '\n' :: B) = (true,st₂,[] ++ xs ++ ys) := by
      rw [p.handedOver_rows,rows_append_break,dropByteOrderMark_append hne]
      exact (feed_append h₁).trans h₃
    rw [hAB,hboth,hA',hB']
    simp only [nil_append,he₂,ha₂,hi₂,he,ha,hi,he₁,ha₁,hi₁]
    simp [ParseStats.zero]
  · rw [p.handedOver_rows,rows_crlf,p.handedOver_rows]
  · rw [p.handedOver_rows,dropByteOrderMark_mark,p.handedOver_rows,dropByteOrderMark_rows hs]
  · rw [p.handedOver_rows,rows_blanks s hb,p.handedOver_rows]
  · rw [p.handedOver_rows,rows_append_break,rows_blanks s hb,p.handedOver_rows,rows_append_break]

def bareParser : ListParser := ⟨false,true,fun _ => false,fun _ => false,fun _ => true⟩

theorem list_parsed_by_line_sample :
    bareParser.handedOver (byteOrderMark ++ ['a','.','b']) = bareParser.handedOver ['a','.','b'] :=
  (list_parsed_by_line bareParser).2.2.1 _ (by decide)

/-- With a second mark the first entry is lost. -/
theorem list_parsed_by_line_fail :
    (bareParser.handedOver (byteOrderMark ++ (byteOrderMark ++ ['a','.','b']))).2.2 ≠
      (bareParser.handedOver (byteOrderMark ++ ['a','.','b'])).2.2 := by
  decide

def entryChar (c : Char) : Bool := validDomainChar c || c = '|' || c = '@' || c = '^'

theorem validDomain_ascii {s : List Char} {fqdnOnly : Bool} (h : validDomain s fqdnOnly false) :
    s ≠ [] ∧ ∀ c ∈ s, validDomainChar c := by
  simpa using validDomain_chars h

/-- An entry: lower case, and a domain or a pattern of the list's kind. -/
def Entry (x : List Char) : Prop :=
  x.map Char.toLower = x ∧ (validDomain x true false ∨
    x.head? = some p.marker ∧ validAbpDomain x p.antigravity)

theorem parseToken_entry (token : List Char) (s : ParseStats × List (List Char))
    (hs : ∀ x ∈ s.2, p.Entry x) : ∀ x ∈ (p.parseToken first _ collect token s).2.2, p.Entry x := by
  obtain ⟨st,acc⟩ := s
  have hlow : (normalize token).map Char.toLower = normalize token := by
    simp [normalize]
  have hnew (h : p.Entry (normalize token)) : ∀ x ∈ acc ++ [normalize token], p.Entry x := by
    intro x hx
    rcases mem_append.mp hx with hx | hx
    · exact hs x hx
    · rw [mem_singleton.mp hx]
      exact h
  simp only [parseToken]
  split
  · exact hs
  split
  · exact hs
  split
  · rename_i hv
    exact hnew ⟨hlow,.inl hv.2⟩
  split
  · rename_i hw
    exact hnew ⟨hlow,.inr hw⟩
  · exact hs

theorem handedOver_entry {stream x : List Char} (h : x ∈ (p.handedOver stream).2.2) : p.Entry x := by
  have hline (l : List Char) (s : ParseStats × List (List Char)) (hs : ∀ x ∈ s.2, p.Entry x) :
      ∀ x ∈ (p.parseLine _ collect l s).2.2, p.Entry x :=
    feed_invariant (fun token s hs => p.parseToken_entry _ token s hs) hs
  exact feed_invariant (R := fun s : ParseStats × List (List Char) => ∀ x ∈ s.2, p.Entry x) hline
    (by simp) x h

theorem Entry.chars (h : p.Entry x) : x ≠ [] ∧ ∀ c ∈ x, entryChar c := by
  rcases h.2 with hv | ⟨hm,hw⟩
  · obtain ⟨hne,hc⟩ := validDomain_ascii hv
    exact ⟨hne,fun c hx => by simp [entryChar,hc c hx]⟩
  refine ⟨fun he => by simp [he] at hm,?_⟩
  simp only [validAbpDomain,Bool.and_eq_true,List.isPrefixOf_iff_prefix] at hw
  obtain ⟨⟨⟨hlen,rest,rfl⟩,hlast⟩,hv⟩ := hw
  obtain ⟨hne,hc⟩ := validDomain_ascii hv
  rw [drop_left] at hne hc
  have hrest : rest = rest.dropLast ++ ['^'] := by
    refine (dropLast_append_getLast? '^' ?_).symm
    cases hr : rest.getLast? with
    | none => simp [getLast?_eq_none_iff.mp hr] at hne
    | some c => simpa [hr] using hlast
  have hstart : (abpIntro p.antigravity).all entryChar := by
    cases p.antigravity <;> decide
  intro c hx
  rw [hrest] at hx
  simp only [mem_append,mem_singleton] at hx
  rcases hx with hx | hx | rfl
  · exact all_eq_true.mp hstart c hx
  · simp [entryChar,hc c hx]
  · decide

theorem entryChar_ne {c d : Char} (hc : entryChar c) (hd : entryChar d = false) : c ≠ d := by
  rintro rfl
  rw [hd] at hc
  cases hc

theorem cleanLine_entryChar (hx : ∀ c ∈ x, entryChar c) : cleanLine x = x := by
  have hspace : ∀ c ∈ x, isspace c = false := fun c hc => by
    have hc := hx c hc
    simp [isspace,entryChar_ne hc (d := ' ') (by decide),entryChar_ne hc (d := '\t') (by decide),
      entryChar_ne hc (d := '\n') (by decide),entryChar_ne hc (d := '\x0b') (by decide),
      entryChar_ne hc (d := '\x0c') (by decide),entryChar_ne hc (d := '\r') (by decide)]
  have htrim : trimLine x = x := by
    rw [trimLine_eq,rdropWhile_eq_self_iff]
    exact fun hne => by simpa using hspace _ (getLast_mem hne)
  have htext : cText x = x :=
    takeWhile_eq_self_iff.mpr fun c hc => by simpa using entryChar_ne (hx c hc) (by decide)
  have hhash : ∀ c ∈ x, c ≠ '#' := fun c hc => entryChar_ne (hx c hc) (by decide)
  have hcut : x.takeWhile (fun c => c ≠ '#') = x :=
    takeWhile_eq_self_iff.mpr fun c hc => by simpa using hhash c hc
  have hsel : isSelector x = false := by
    have hdrop : x.dropWhile (fun c => c ≠ '#') = [] :=
      dropWhile_eq_nil_iff.mpr fun c hc => by simpa using hhash c hc
    rw [isSelector,htext,hdrop]
  have hcom : isComment x = false := by
    cases x with
    | nil => rfl
    | cons c cs =>
      have hc := hx c (by simp)
      simp [isComment,entryChar_ne hc (d := '!') (by decide),entryChar_ne hc (d := '#') (by decide),
        entryChar_ne hc (d := ';') (by decide),entryChar_ne hc (d := '[') (by decide)]
  rw [cleanLine,htrim,hcom,hsel,htext]
  exact hcut

theorem handedOver_line (hne : x ≠ []) (hx : ∀ c ∈ x, entryChar c) :
    p.handedOver x = p.parseLine.each _ collect [x] (.zero,[]) ∧
    p.handedOver (x ++ ['\n']) = p.parseLine.each _ collect [x] (.zero,[]) := by
  have hn : '\n' ∉ x := fun hn => entryChar_ne (hx _ hn) (d := '\n') (by decide) rfl
  have hrows : rows x = [trimLine x] := by
    have := splitOn_append hn []
    rw [append_nil] at this
    rw [rows,this]
    simp [splitOn]
  have hmark : byteOrderMark.isPrefixOf x = false := by
    cases x with
    | nil => exact absurd rfl hne
    | cons c cs =>
      have := entryChar_ne (hx c (by simp)) (d := Char.ofNat 0xEF) (by decide)
      simp [byteOrderMark,isPrefixOf,this.symm]
  have hrun : p.parseLine.each _ collect [trimLine x] (ParseStats.zero,[]) =
      p.parseLine.each _ collect [x] (.zero,[]) := p.each_trimLine [x] _
  constructor
  · rw [p.handedOver_rows,dropByteOrderMark_rows hmark,hrows,hrun]
  · have hone : rows [] = [[]] := rfl
    rw [p.handedOver_rows,rows_append_break,dropByteOrderMark_append (by rw [hrows]; simp),
      dropByteOrderMark_rows hmark,hrows,hone,p.each_empty,hrun]

theorem parseLine_entryChar (hne : x ≠ []) (hx : ∀ c ∈ x, entryChar c) :
    (p.parseLine.each _ collect [x] (.zero,[])).2.2 =
      (p.parseToken x.head? _ collect x (.zero,[])).2.2 := by
  have htok : tokens x = [x] := by
    have hb : ∀ c ∈ x, (c = ' ' || c = '\t') = false := fun c hc => by
      simp [entryChar_ne (hx c hc) (d := ' ') (by decide),entryChar_ne (hx c hc) (d := '\t')
        (by decide)]
    rw [tokens,splitOnP_eq_singleton hb]
    simpa using hne
  have hline : p.parseLine _ collect x (ParseStats.zero,[]) =
      (p.parseToken x.head?).each _ collect [x] (.zero,[]) := by
    rw [parseLine,cleanLine_entryChar hx,htok]
  simp only [Producer.each,feed] at hline ⊢
  rw [hline]
  split <;> rename_i h <;> split at h <;> cases h <;> simp [*]

theorem parseToken_alone (x : List Char) : (p.parseToken first _ collect x (.zero,[])).2.2 = [] ∨
      p.isAddress x = false ∧
        (p.parseToken first _ collect x (.zero,[])).2.2 = [normalize x] := by
  simp only [parseToken]
  split
  · exact .inl rfl
  rename_i ha
  split
  · exact .inl rfl
  split
  · exact .inr ⟨by simpa using ha,rfl⟩
  split
  · exact .inr ⟨by simpa using ha,rfl⟩
  · exact .inl rfl

theorem normalize_eq_self (hlow : x.map Char.toLower = x) :
    normalize x = x ↔ x.getLast? ≠ some '.' := by
  constructor
  · intro h hdot
    have hx : x = x.dropLast ++ ['.'] := (dropLast_append_getLast? '.' hdot).symm
    have hlen := congrArg List.length h
    rw [normalize,dropTrailing,if_pos hdot,length_map,length_dropLast] at hlen
    have hpos := congrArg List.length hx
    simp only [length_append,length_dropLast,length_singleton] at hpos
    omega
  · intro hdot
    rw [normalize,dropTrailing,if_neg hdot,hlow]

/-- What is handed over is read back from a line of its own exactly if it ends without a dot and
is no address. -/
theorem list_entry_canonical (p : ListParser) (stream x : List Char)
    (h : x ∈ (p.handedOver stream).2.2) :
    ((p.handedOver x).2.2 = [x] ∧ (p.handedOver (x ++ ['\n'])).2.2 = [x]) ↔
      x.getLast? ≠ some '.' ∧ p.isAddress x = false := by
  have hentry := p.handedOver_entry h
  obtain ⟨hne,hx⟩ := hentry.chars
  obtain ⟨h₁,h₂⟩ := p.handedOver_line hne hx
  rw [h₁,h₂,p.parseLine_entryChar hne hx,and_self]
  constructor
  · intro hback
    rcases p.parseToken_alone x.head? x with hnone | ⟨ha,hone⟩
    · rw [hnone] at hback
      cases hback
    · rw [hone,List.cons.injEq] at hback
      exact ⟨(normalize_eq_self hentry.1).mp hback.1,ha⟩
  rintro ⟨hdot,ha⟩
  have hnorm := (normalize_eq_self hentry.1).mpr hdot
  simp only [parseToken,ha,hnorm,if_neg hne]
  by_cases hv : x.head? ≠ some p.marker ∧ validDomain x true false
  · simp [hv,collect]
  have hw : x.head? = some p.marker ∧ validAbpDomain x p.antigravity := by
    rcases hentry.2 with hd | hw
    · refine absurd ⟨fun hm => ?_,hd⟩ hv
      have hchar := (validDomain_ascii hd).2 p.marker (mem_of_mem_head? hm)
      revert hchar
      rw [marker]
      cases p.antigravity <;> decide
    · exact hw
  simp [hw,collect]

theorem list_entry_canonical_sample :
    let x := ['a','.','b']
    ((bareParser.handedOver x).2.2 = [x] ∧ (bareParser.handedOver (x ++ ['\n'])).2.2 = [x]) ↔
      x.getLast? ≠ some '.' ∧ bareParser.isAddress x = false :=
  list_entry_canonical bareParser ['A','.','b','.','\n'] ['a','.','b'] (by decide)

theorem list_entry_canonical_fail :
    ['a','.','b','.'] ∈ (bareParser.handedOver ['a','.','b','.','.','\n']).2.2 ∧
      (bareParser.handedOver ['a','.','b','.','\n']).2.2 = [['a','.','b']] := by
  decide

end ListParser

end Lorentz
