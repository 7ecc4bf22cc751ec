import Mathlib

/-!
The best of a list: the elements of the highest positive weight, found by one pass or by grouping
and sorting.
-/

set_option autoImplicit false

namespace Best

variable {α : Type} (w : α → Nat)

def top (xs : List α) : Nat := xs.foldl (fun n x => max n (w x)) 0

def best (xs : List α) : List α := xs.filter (fun x => 0 < w x ∧ ∀ y ∈ xs, w y ≤ w x)

def pick (s : Nat × List α) (x : α) : Nat × List α :=
  if w x ≤ 0 ∨ w x < s.1 then s else if s.1 < w x then (w x,[x]) else (s.1,s.2 ++ [x])

/-- The group of the first weight, once the positive weights are in descending order. -/
def grouped (xs : List α) : Option (Nat × List α) :=
  ((((xs.map w).filter (0 < ·)).dedup.mergeSort (fun m n => n ≤ m)).head?).map
    (fun n => (n,xs.filter (fun x => w x = n)))

variable {w}

theorem top_append (xs : List α) (x : α) : top w (xs ++ [x]) = max (top w xs) (w x) := by
  simp [top]

theorem le_top {xs : List α} {x : α} (h : x ∈ xs) : w x ≤ top w xs := by
  induction xs using List.reverseRecOn with
  | nil => cases h
  | append_singleton xs y ih =>
    rw [top_append]
    rcases List.mem_append.1 h with h | h
    · exact (ih h).trans (le_max_left ..)
    · obtain rfl := List.mem_singleton.1 h
      exact le_max_right ..

theorem top_attained {xs : List α} (h : 0 < top w xs) : ∃ x ∈ xs, w x = top w xs := by
  induction xs using List.reverseRecOn with
  | nil => simp [top] at h
  | append_singleton xs y ih =>
    rw [top_append] at h ⊢
    rcases le_total (w y) (top w xs) with hle | hle
    · rw [max_eq_left hle] at h ⊢
      obtain ⟨x,hx,hw⟩ := ih h
      exact ⟨x,List.mem_append_left _ hx,hw⟩
    · exact ⟨y,by simp,(max_eq_right hle).symm⟩

theorem best_eq_filter (xs : List α) :
    best w xs = xs.filter (fun x => 0 < w x ∧ w x = top w xs) := by
  refine List.filter_congr fun x hx => ?_
  rw [decide_eq_decide]
  refine and_congr_right fun hpos => ?_
  constructor
  · intro hall
    refine le_antisymm (le_top hx) ?_
    obtain ⟨y,hy,hw⟩ := top_attained (lt_of_lt_of_le hpos (le_top hx))
    exact hw ▸ hall y hy
  · intro hw y hy
    exact hw ▸ le_top hy

theorem foldl_pick (xs : List α) : xs.foldl (pick w) (0,[]) = (top w xs,best w xs) := by
  induction xs using List.reverseRecOn with
  | nil => rfl
  | append_singleton xs x ih =>
    rw [List.foldl_append,List.foldl_cons,List.foldl_nil,ih,best_eq_filter,best_eq_filter,
      List.filter_append,top_append,pick]
    rcases Nat.eq_zero_or_pos (w x) with h0 | hpos
    · simp [h0]
    rcases lt_trichotomy (w x) (top w xs) with hlt | heq | hgt
    · have hne : ¬ w x = top w xs := hlt.ne
      simp [hlt,max_eq_left hlt.le,hne]
    · have hne : top w xs ≠ 0 := by omega
      simp [heq,hne,Nat.pos_of_ne_zero hne]
    have hnone : xs.filter (fun y => decide (0 < w y ∧ w y = w x)) = [] := by
      refine List.filter_eq_nil_iff.2 fun y hy => ?_
      have hle := le_top (w := w) hy
      simp
      omega
    rw [max_eq_right hgt.le,hnone,if_neg (by simp; omega),if_pos hgt]
    simp [hpos]

theorem best_eq_nil_iff (xs : List α) : best w xs = [] ↔ top w xs = 0 := by
  rw [best_eq_filter,List.filter_eq_nil_iff]
  constructor
  · intro hall
    by_contra h0
    obtain ⟨x,hx,hw⟩ := top_attained (Nat.pos_of_ne_zero h0)
    refine hall x hx ?_
    simp
    omega
  · intro h0 x _
    simp
    omega

theorem grouped_eq (xs : List α) :
    grouped w xs = if top w xs = 0 then none else some (top w xs,best w xs) := by
  unfold grouped
  generalize hs : (((xs.map w).filter (0 < ·)).dedup.mergeSort (fun m n => n ≤ m)) = sorted
  have hmem : ∀ n, n ∈ sorted ↔ 0 < n ∧ ∃ x ∈ xs, w x = n := by
    intro n
    rw [← hs,List.mem_mergeSort,List.mem_dedup,List.mem_filter,List.mem_map]
    simp [and_comm]
  have hsorted : sorted.Pairwise (fun m n => decide (n ≤ m) = true) := by
    rw [← hs]
    refine List.pairwise_mergeSort ?_ ?_ _
    · intro a b c
      simp
      omega
    · intro a b
      simp
      omega
  cases sorted with
  | nil =>
    have h0 : top w xs = 0 := by
      by_contra h0
      obtain ⟨x,hx,hw⟩ := top_attained (Nat.pos_of_ne_zero h0)
      exact absurd ((hmem _).2 ⟨Nat.pos_of_ne_zero h0,x,hx,hw⟩) (by simp)
    simp [h0]
  | cons n rest =>
    obtain ⟨hpos,x,hx,hw⟩ := (hmem n).1 (by simp)
    have hle : n ≤ top w xs := hw ▸ le_top hx
    have htop : 0 < top w xs := by omega
    obtain ⟨y,hy,hwy⟩ := top_attained htop
    have hge : top w xs ≤ n := by
      rcases List.mem_cons.1 ((hmem _).2 ⟨by omega,y,hy,hwy⟩) with h | h
      · exact h.le
      · simpa using (List.pairwise_cons.1 hsorted).1 _ h
    obtain rfl : n = top w xs := by omega
    rw [if_neg (by omega),List.head?_cons,Option.map_some,best_eq_filter]
    refine congrArg some (Prod.ext rfl (List.filter_congr fun z _ => ?_))
    rw [decide_eq_decide]
    omega

theorem foldl_max_spec (l : List Int) (n : Int) :
    (l.foldl max n = n ∨ l.foldl max n ∈ l) ∧ n ≤ l.foldl max n ∧ ∀ x ∈ l, x ≤ l.foldl max n := by
  induction l using List.reverseRecOn with
  | nil => simp
  | append_singleton l x ih =>
    obtain ⟨hmem,hle,hall⟩ := ih
    rw [List.foldl_append,List.foldl_cons,List.foldl_nil]
    refine ⟨?_,hle.trans (le_max_left ..),?_⟩
    · rcases (show max (l.foldl max n) x = l.foldl max n ∨
        max (l.foldl max n) x = x by omega) with h | h
      · rw [h]
        exact hmem.imp id (List.mem_append_left _)
      · exact .inr (by simp [h])
    intro y hy
    rcases List.mem_append.1 hy with hy | hy
    · exact (hall y hy).trans (le_max_left ..)
    · rw [List.mem_singleton.1 hy]
      exact le_max_right ..

end Best
