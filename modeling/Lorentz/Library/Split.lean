import Mathlib

/-!
Separators in a list: the list cut at one, the position of the first one or of a text, and the
suffixes right behind one; and text printed from literals and values, and its lines.
-/

set_option autoImplicit false

namespace Split

variable {α : Type} [DecidableEq α] {b : α}

theorem splitOn_append {s : List α} (hs : b ∉ s) (t : List α) :
    (s ++ t).splitOn b = (t.splitOn b).modifyHead (s ++ ·) := by
  induction s with
  | nil =>
    cases ht : t.splitOn b with
    | nil | cons l ls => simp [ht]
  | cons c cs ih =>
    simp only [List.mem_cons,not_or] at hs
    have hc : (c == b) = false := by simpa using Ne.symm hs.1
    simp only [List.splitOn,List.cons_append,List.splitOnP_cons_eq_if_modifyHead,hc] at ih ⊢
    rw [ih hs.2,List.modifyHead_modifyHead]
    rfl

theorem splitOn_break (t : List α) : (b :: t).splitOn b = [] :: t.splitOn b := by
  simp [List.splitOn,List.splitOnP_cons_eq_if_modifyHead]

theorem splitOn_cons {c : α} (hc : c ≠ b) (t : List α) :
    (c :: t).splitOn b = (t.splitOn b).modifyHead (c :: ·) :=
  splitOn_append (s := [c]) (by simpa using Ne.symm hc) t

theorem exists_splitOn (t : List α) : ∃ l ls, t.splitOn b = l :: ls := by
  cases h : t.splitOn b with
  | nil => exact absurd h (List.splitOnP_ne_nil _ _)
  | cons l ls => exact ⟨l,ls,rfl⟩

theorem splitOn_front {t l : List α} {ls : List (List α)} (h : t.splitOn b = l :: ls) :
    ∃ rest, t = l ++ rest := by
  have ht : [b].intercalate (t.splitOn b) = t := List.intercalate_splitOn b
  rw [h] at ht
  cases ls with
  | nil => exact ⟨[],by simpa using ht.symm⟩
  | cons p ps => exact ⟨b :: [b].intercalate (p :: ps),by
    rw [← ht,List.intercalate_cons_cons]
    simp⟩

theorem getLast_splitOn {s l : List α} (h : (s.splitOn b).getLast? = some l) :
    s.splitOn b = [s] ∧ l = s ∨ ∃ front, s = front ++ b :: l := by
  obtain ⟨ls,hs⟩ := List.getLast?_eq_some_iff.mp h
  have ht : [b].intercalate (s.splitOn b) = s := List.intercalate_splitOn b
  cases ls with
  | nil =>
    rw [hs] at ht
    obtain rfl : l = s := by simpa using ht
    exact .inl ⟨hs,rfl⟩
  | cons p ps =>
    refine .inr ⟨[b].intercalate (p :: ps),?_⟩
    rw [← ht,hs]
    clear hs ht h
    induction ps generalizing p with
    | nil => simp [List.intercalate]
    | cons q qs ih => simpa [List.intercalate_cons_cons] using ih q

theorem splitOn_flatMap_break {l : List (List α)} (h : ∀ s ∈ l, b ∉ s) (t : List α) :
    (l.flatMap (fun s => s ++ [b]) ++ t).splitOn b = l ++ t.splitOn b := by
  induction l with
  | nil => rfl
  | cons s l ih =>
    have hs : s.splitOn b = [s] := by
      simpa [List.splitOn] using splitOn_append (h s (by simp)) []
    have happ : (s :: l).flatMap (fun s => s ++ [b]) ++ t
        = s ++ b :: (l.flatMap (fun s => s ++ [b]) ++ t) := by simp
    rw [happ,List.splitOn_append_cons_self,hs,ih (fun s' hs' => h s' (by simp [hs']))]
    rfl

omit [DecidableEq α] in
theorem intercalate_chars {P : α → Prop} (hb : P b) {l : List (List α)}
    (h : ∀ t ∈ l, ∀ c ∈ t, P c) : ∀ c ∈ [b].intercalate l, P c := by
  induction l with
  | nil => simp [List.intercalate]
  | cons t l ih =>
    have hl := ih (fun t' ht => h t' (by simp [ht]))
    cases l with
    | nil => simpa [List.intercalate] using h t (by simp)
    | cons u l =>
      intro c hc
      simp only [List.intercalate,List.intersperse_cons_cons,List.flatten_cons,List.mem_append,
        List.mem_singleton] at hc hl
      rcases hc with hc | rfl | hc
      · exact h t (by simp) c hc
      · exact hb
      · exact hl c hc

end Split

namespace Search

variable {α : Type} [DecidableEq α]

def strchr (c : α) (s : List α) : Option Nat := s.findIdx? (· = c)

def strstr (needle : List α) : List α → Option Nat
  | [] => if needle = [] then some 0 else none
  | c :: cs => if needle.isPrefixOf (c :: cs) then some 0 else (strstr needle cs).map (·+1)

variable {c : α} {p : List α}

theorem strchr_eq_none {s : List α} : strchr c s = none ↔ c ∉ s := by
  simp only [strchr,List.findIdx?_eq_none_iff,decide_eq_false_iff_not]
  exact ⟨fun h hc => h c hc rfl,fun h x hx hc => h (hc ▸ hx)⟩

theorem strchr_append_of_not_mem (hp : c ∉ p) (t : List α) :
    strchr c (p ++ t) = (strchr c t).map (·+p.length) := by
  rw [strchr,List.findIdx?_append,show p.findIdx? (· = c) = none from strchr_eq_none.mpr hp]
  rfl

theorem strchr_append (hp : c ∉ p) (t : List α) : strchr c (p ++ c :: t) = some p.length := by
  rw [strchr_append_of_not_mem hp]
  simp [strchr,List.findIdx?_cons]

theorem strchr_append_of_eq_some {i : Nat} (h : strchr c p = some i) (t : List α) :
    strchr c (p ++ t) = some i := by
  rw [strchr] at h
  rw [strchr,List.findIdx?_append,h]
  rfl

theorem strchr_lt {i : Nat} (h : strchr c p = some i) : i < p.length :=
  (List.findIdx?_eq_some_iff_getElem.mp h).1

variable {needle s t : List α} {i : Nat}

theorem strstr_le (h : strstr needle s = some i) : i+needle.length ≤ s.length := by
  induction s generalizing i with
  | nil =>
    simp only [strstr] at h
    split at h
    · rename_i hn
      cases h
      simp [hn]
    · cases h
  | cons c cs ih =>
    simp only [strstr] at h
    split at h
    · rename_i hp
      cases h
      simpa using (List.isPrefixOf_iff_prefix.mp hp).length_le
    obtain ⟨j,hj,rfl⟩ := Option.map_eq_some_iff.mp h
    have := ih hj
    simp only [List.length_cons]
    omega

theorem strstr_append (h : strstr needle s = some i) (t : List α) :
    strstr needle (s ++ t) = some i := by
  induction s generalizing i with
  | nil =>
    simp only [strstr] at h
    split at h
    · rename_i hn
      subst hn
      cases h
      cases t <;> simp [strstr]
    · cases h
  | cons c cs ih =>
    have happ : (c :: cs) ++ t = c :: (cs ++ t) := rfl
    have hle := strstr_le h
    simp only [strstr,happ] at h ⊢
    split at h
    · rename_i hp
      cases h
      have hp' : needle <+: c :: (cs ++ t) := (List.isPrefixOf_iff_prefix.mp hp).trans
        (List.prefix_append (c :: cs) t)
      rw [if_pos (List.isPrefixOf_iff_prefix.mpr hp')]
    rename_i hp
    obtain ⟨j,hj,rfl⟩ := Option.map_eq_some_iff.mp h
    -- an earlier occurrence would lie inside of what was searched before
    have hno : ¬ needle.isPrefixOf (c :: (cs ++ t)) = true := by
      intro hp'
      refine hp (List.isPrefixOf_iff_prefix.mpr ?_)
      exact List.prefix_of_prefix_length_le (List.isPrefixOf_iff_prefix.mp hp')
        (List.prefix_append (c :: cs) t) (by omega)
    rw [if_neg hno,ih hj]
    rfl

theorem exists_strstr (p needle : List α) : ∃ i, strstr needle (p ++ needle) = some i := by
  induction p with
  | nil =>
    cases needle with
    | nil => exact ⟨0,rfl⟩
    | cons c cs => exact ⟨0,by simp [strstr]⟩
  | cons c p ih =>
    obtain ⟨i,hi⟩ := ih
    simp only [List.cons_append,strstr,hi]
    split
    · exact ⟨0,rfl⟩
    · exact ⟨i+1,rfl⟩

end Search

namespace Suffix

variable {α : Type} [DecidableEq α] (sep : α)

def behind : List α → List (List α)
  | [] => []
  | c :: r => if c = sep then r :: behind r else behind r

def suffixes (d : List α) : List (List α) := d :: behind sep d

/-- The positions right behind each separator, when the list starts at `pos`. -/
def positions (pos : Nat) : List α → List Nat
  | [] => []
  | c :: r => if c = sep then (pos+1) :: positions (pos+1) r else positions (pos+1) r

theorem mem_behind (d s : List α) : s ∈ behind sep d ↔ ∃ p : List α, d = p ++ sep :: s := by
  induction d with
  | nil => simp [behind]
  | cons c r ih =>
    have hstep : (∃ p : List α, c :: r = p ++ sep :: s) ↔
        (c = sep ∧ r = s) ∨ ∃ p : List α, r = p ++ sep :: s := by
      constructor
      · rintro ⟨p,hp⟩
        cases p with
        | nil => exact .inl (by simpa using hp)
        | cons x p => exact .inr ⟨p,by simpa using (List.cons.inj hp).2⟩
      · rintro (⟨rfl,rfl⟩ | ⟨p,rfl⟩)
        · exact ⟨[],rfl⟩
        · exact ⟨c :: p,rfl⟩
    rw [hstep,← ih]
    by_cases hc : c = sep
    · simp [behind,hc,eq_comm]
    · simp [behind,hc]

theorem mem_suffixes (d s : List α) :
    s ∈ suffixes sep d ↔ s = d ∨ ∃ p : List α, d = p ++ sep :: s := by
  simp [suffixes,mem_behind]

theorem behind_append (a b : List α) :
    behind sep (a ++ b) = (behind sep a).map (fun s => s ++ b) ++ behind sep b := by
  induction a with
  | nil => simp [behind]
  | cons c r ih =>
    by_cases hc : c = sep
    · simp [behind,hc,ih]
    · simp [behind,hc,ih]

theorem behind_eq_nil (a : List α) (h : sep ∉ a) : behind sep a = [] := by
  rw [List.eq_nil_iff_forall_not_mem]
  intro s hs
  obtain ⟨p,rfl⟩ := (mem_behind sep a s).mp hs
  simp at h

theorem length_behind (d : List α) : (behind sep d).length = d.count sep := by
  induction d with
  | nil => rfl
  | cons c r ih =>
    by_cases hc : c = sep
    · simp [behind,hc,ih]
    · simp [behind,hc,ih]

theorem positions_shift (pos : Nat) (d : List α) :
    positions sep pos d = (positions sep 0 d).map (fun i => pos+i) := by
  induction d generalizing pos with
  | nil => rfl
  | cons c r ih =>
    by_cases hc : c = sep
    · simp only [positions,hc,if_true,List.map_cons]
      rw [ih (pos+1),ih (0+1)]
      simp [Nat.add_assoc]
    · simp only [positions,hc,if_false]
      rw [ih (pos+1),ih (0+1)]
      simp [Nat.add_assoc]

theorem map_drop_positions (d : List α) :
    (positions sep 0 d).map (fun i => d.drop i) = behind sep d := by
  induction d with
  | nil => rfl
  | cons c r ih =>
    have htail : (positions sep 1 r).map (fun i => (c :: r).drop i) = behind sep r := by
      rw [positions_shift,List.map_map,← ih]
      refine List.map_congr_left fun i _ => ?_
      simp [Nat.add_comm 1 i]
    by_cases hc : c = sep
    · subst hc
      simp only [positions,behind,if_true,List.map_cons,Nat.zero_add,List.drop_succ_cons,
        List.drop_zero]
      rw [htail]
    · simp only [positions,behind,hc,if_false,Nat.zero_add]
      exact htail

theorem mem_positions_le (d : List α) (i : Nat) (h : i ∈ positions sep 0 d) : i ≤ d.length := by
  induction d generalizing i with
  | nil => simp [positions] at h
  | cons c r ih =>
    have hshift : ∀ j ∈ positions sep 1 r, j ≤ r.length+1 := by
      intro j hj
      rw [positions_shift] at hj
      obtain ⟨k,hk,rfl⟩ := List.mem_map.mp hj
      have := ih k hk
      omega
    by_cases hc : c = sep
    · simp only [positions,hc,if_true,List.mem_cons,Nat.zero_add] at h
      rcases h with rfl | h
      · simp
      · simpa using hshift i h
    · simp only [positions,hc,if_false,Nat.zero_add] at h
      simpa using hshift i h

end Suffix

namespace Print

/-- What is printed at once: a literal, or a value in a hole of it. -/
inductive Piece (κ : Type) where
  | lit (s : List Char)
  | val (hole : κ) (s : List Char)
  deriving DecidableEq

variable {κ : Type}

namespace Piece

def chars : Piece κ → List Char
  | .lit s => s
  | .val _ s => s

def blank : Piece κ → Piece κ
  | .lit s => .lit s
  | .val hole _ => .val hole []

def inLine : Piece κ → Prop
  | .lit _ => True
  | .val _ s => '\n' ∉ s

end Piece

def text (ps : List (Piece κ)) : List Char := ps.flatMap Piece.chars

def cutLit : List Char → List (List (Piece κ)) → List (List (Piece κ))
  | [], ls => ls
  | c :: cs, ls =>
    if c = '\n' then [] :: cutLit cs ls else (cutLit cs ls).modifyHead (.lit [c] :: ·)

def lines : List (Piece κ) → List (List (Piece κ))
  | [] => [[]]
  | .lit s :: ps => cutLit s (lines ps)
  | .val hole s :: ps => (lines ps).modifyHead (.val hole s :: ·)

def Lined (ps : List (Piece κ)) : Prop := ∀ p ∈ ps, p.inLine

@[simp] theorem text_cons (p : Piece κ) (ps : List (Piece κ)) :
    text (p :: ps) = p.chars ++ text ps := rfl

@[simp] theorem text_append (ps ps' : List (Piece κ)) :
    text (ps ++ ps') = text ps ++ text ps' := by
  simp [text]

section

variable {ps ps' : List (Piece κ)}

@[simp] theorem lined_nil : Lined ([] : List (Piece κ)) := by simp [Lined]

@[simp] theorem lined_lit {s : List Char} : Lined (.lit s :: ps) ↔ Lined ps := by
  simp [Lined,Piece.inLine]

@[simp] theorem lined_val {hole : κ} {s : List Char} :
    Lined (.val hole s :: ps) ↔ '\n' ∉ s ∧ Lined ps := by
  simp [Lined,Piece.inLine]

@[simp] theorem lined_append : Lined (ps ++ ps') ↔ Lined ps ∧ Lined ps' := by
  simp only [Lined,List.mem_append]
  constructor
  · exact fun h => ⟨fun p hp => h p (.inl hp),fun p hp => h p (.inr hp)⟩
  · rintro ⟨h,h'⟩ p (hp | hp)
    · exact h p hp
    · exact h' p hp

theorem lined_flatten {pss : List (List (Piece κ))} :
    Lined pss.flatten ↔ ∀ ps ∈ pss, Lined ps := by
  simp only [Lined,List.mem_flatten,forall_exists_index,and_imp]
  exact ⟨fun h ps hps p hp => h p ps hps hp,fun h p ps hps hp => h ps hps p hp⟩

theorem lined_flatMap {α : Type} {l : List α} {f : α → List (Piece κ)}
    (h : ∀ a ∈ l, Lined (f a)) : Lined (l.flatMap f) := by
  intro p hp
  obtain ⟨a,ha,hp⟩ := List.mem_flatMap.mp hp
  exact h a ha p hp

@[simp] theorem lined_ite {b : Prop} [Decidable b] :
    Lined (if b then ps else ps') ↔ (b → Lined ps) ∧ (¬ b → Lined ps') := by
  split <;> simp [*]

end

section

open Split

variable (s : List Char) (ls : List (List (Piece κ))) (ps : List (Piece κ))

theorem map_text_cutLit (t : List Char) (h : ls.map text = t.splitOn '\n') :
    (cutLit s ls).map text = (s ++ t).splitOn '\n' := by
  induction s with
  | nil => exact h
  | cons c cs ih =>
    unfold cutLit
    split
    · rename_i hc
      rw [hc,List.cons_append,splitOn_break,List.map_cons,ih]
      rfl
    rename_i hc
    have hs : '\n' ∉ [c] := by simpa using Ne.symm hc
    have happ : c :: cs ++ t = [c] ++ (cs ++ t) := rfl
    rw [happ,splitOn_append hs,← ih]
    cases cutLit cs ls with
    | nil | cons l ls => rfl

theorem map_text_lines {ps : List (Piece κ)} (h : Lined ps) :
    (lines ps).map text = (text ps).splitOn '\n' := by
  induction ps with
  | nil => rfl
  | cons p ps ih =>
    cases p with
    | lit s => exact map_text_cutLit s (lines ps) (text ps) (ih (lined_lit.mp h))
    | val hole s =>
      obtain ⟨hs,h⟩ := lined_val.mp h
      simp only [lines,text_cons,Piece.chars]
      rw [splitOn_append hs,← ih h]
      cases lines ps with
      | nil | cons l ls => rfl

theorem map_blank_cutLit :
    (cutLit s ls).map (List.map Piece.blank) = cutLit s (ls.map (List.map Piece.blank)) := by
  induction s with
  | nil => rfl
  | cons c cs ih =>
    unfold cutLit
    split
    · rw [List.map_cons,ih]
      rfl
    · rw [← ih]
      cases cutLit cs ls with
      | nil | cons l ls => rfl

def Piece.breaks : Piece κ → Nat
  | .lit s => s.count '\n'
  | .val _ _ => 0

def breaks (ps : List (Piece κ)) : Nat := (ps.map Piece.breaks).sum

@[simp] theorem breaks_append (ps ps' : List (Piece κ)) :
    breaks (ps ++ ps') = breaks ps + breaks ps' := by
  simp [breaks]

theorem length_cutLit : (cutLit s ls).length = s.count '\n' + ls.length := by
  induction s with
  | nil => simp [cutLit]
  | cons c cs ih =>
    unfold cutLit
    split
    · rename_i hc
      simp only [hc,List.length_cons,ih,List.count_cons_self]
      omega
    · rename_i hc
      rw [List.length_modifyHead,ih,List.count_cons_of_ne hc]

theorem length_lines : (lines ps).length = breaks ps + 1 := by
  induction ps with
  | nil => rfl
  | cons p ps ih =>
    cases p with
    | lit s =>
      simp only [lines,length_cutLit,ih,breaks,List.map_cons,List.sum_cons,Piece.breaks]
      omega
    | val hole s => simp [lines,ih,breaks,Piece.breaks]

def layout (ps : List (Piece κ)) : List (List (Piece κ)) := (lines ps).map (List.map Piece.blank)

theorem layout_eq : layout ps = lines (ps.map Piece.blank) := by
  unfold layout
  induction ps with
  | nil => rfl
  | cons p ps ih =>
    cases p with
    | lit s => exact (map_blank_cutLit s (lines ps)).trans (by rw [ih]; rfl)
    | val hole s =>
      simp only [lines,List.map_cons,Piece.blank,← ih]
      cases lines ps with
      | nil | cons l ls => rfl

end

def Same (ps ps' : List (Piece κ)) : Prop := ps.map Piece.blank = ps'.map Piece.blank

namespace Same

variable {ps ps' qs qs' : List (Piece κ)}

theorem rfl : Same ps ps := Eq.refl _

theorem append (h : Same ps ps') (hq : Same qs qs') : Same (ps ++ qs) (ps' ++ qs') := by
  simp only [Same,List.map_append] at h hq ⊢
  rw [h,hq]

theorem cons (p : Piece κ) (h : Same ps ps') : Same (p :: ps) (p :: ps') := by
  simp only [Same,List.map_cons] at h ⊢
  rw [h]

theorem flatten {pss pss' : List (List (Piece κ))} (h : List.Forall₂ Same pss pss') :
    Same pss.flatten pss'.flatten := by
  induction h with
  | nil => exact rfl
  | cons h _ ih => exact append h ih

theorem breaks (h : Same ps ps') : breaks ps = breaks ps' := by
  have hb (qs : List (Piece κ)) : (qs.map Piece.blank).map Piece.breaks = qs.map Piece.breaks := by
    rw [List.map_map]
    exact List.map_congr_left fun p _ => by cases p <;> rfl
  unfold Print.breaks
  rw [← hb ps,← hb ps',h]

theorem layout (h : Same ps ps') : layout ps = layout ps' := by
  rw [layout_eq,layout_eq,h]

theorem flatMap {α β : Type} {l l' : List α} {f : α → β} {g g' : α → List (Piece κ)}
    (hg : ∀ a b, f a = f b → Same (g a) (g' b)) (h : l.map f = l'.map f) :
    Same (l.flatMap g) (l'.flatMap g') := by
  induction l generalizing l' with
  | nil =>
    have hl : l' = [] := by simpa using h.symm
    rw [hl]
    exact rfl
  | cons a l ih =>
    cases l' with
    | nil => simp at h
    | cons b l' =>
      simp only [List.map_cons,List.cons.injEq] at h
      exact append (hg a b h.1) (ih h.2)

end Same

end Print
