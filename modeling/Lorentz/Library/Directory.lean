import Mathlib

/-!
Numbered slots that are searched, given back and perhaps lost.
-/

set_option autoImplicit false

/-- `key i` is the key of the record in slot `i`, if the slot is in use. -/
structure Directory {κ : Type} (key : Nat → Option κ) (lookup free : List Nat) (n : Nat) : Prop where
  listed : ∀ i, i ∈ lookup ↔ key i ≠ none
  nodup : lookup.Nodup
  below : ∀ i ∈ lookup, i < n
  inj : ∀ i j a, key i = some a → key j = some a → i = j
  free_below : ∀ i ∈ free, i < n
  free_unused : ∀ i ∈ free, key i = none
  free_nodup : free.Nodup

namespace Directory
open Function

variable {κ : Type} {key key' : Nat → Option κ} {lookup free : List Nat} {n i : Nat} {a : κ}

theorem empty : Directory (fun _ => (none : Option κ)) [] [] 0 :=
  ⟨by simp,.nil,by simp,by simp,by simp,by simp,.nil⟩

theorem congr (h : Directory key lookup free n) (hk : ∀ i, key' i = key i) :
    Directory key' lookup free n := by
  obtain rfl : key' = key := funext hk
  exact h

/-- The slot for a new record: one that was given back, else the next number. -/
inductive Next (free : List Nat) (n : Nat) : Nat → List Nat → Prop where
  | again {i : Nat} {rest : List Nat} (h : free = i :: rest) : Next free n i rest
  | fresh (h : free = []) : Next free n n []

theorem unused (h : Directory key lookup free n) {rest : List Nat} (hn : Next free n i rest) :
    key i = none := by
  cases hn with
  | again hf => exact h.free_unused i (by simp [hf])
  | fresh hf =>
    by_contra hk
    exact absurd (h.below n ((h.listed n).mpr hk)) (Nat.lt_irrefl n)

theorem take (h : Directory key lookup free n) {rest : List Nat} (hn : Next free n i rest)
    (hnew : ∀ j, key j ≠ some a) : Directory (update key i (some a)) (i :: lookup) rest (n+1) := by
  have hi := h.unused hn
  have hbelow : i < n+1 := by
    cases hn with
    | again hf => exact Nat.lt_succ_of_lt (h.free_below i (by simp [hf]))
    | fresh hf => exact Nat.lt_succ_self n
  have hrest : ∀ j ∈ rest, j ∈ free ∧ j ≠ i := by
    cases hn with
    | again hf =>
      intro j hj
      have hnd := h.free_nodup
      rw [hf,List.nodup_cons] at hnd
      exact ⟨by simp [hf,hj],fun he => hnd.1 (he ▸ hj)⟩
    | fresh hf => simp
  refine ⟨fun j => ?_,?_,fun j hj => ?_,fun j k b hj hk => ?_,fun j hj => ?_,fun j hj => ?_,?_⟩
  · by_cases hji : j = i
    · simp [hji]
    · simp [hji,h.listed]
  · exact List.nodup_cons.mpr ⟨fun hm => (h.listed i).mp hm hi,h.nodup⟩
  · obtain rfl | hj := List.mem_cons.mp hj
    · exact hbelow
    · exact Nat.lt_succ_of_lt (h.below j hj)
  · by_cases hji : j = i
    · by_cases hki : k = i
      · rw [hji,hki]
      · rw [hji,update_self] at hj
        rw [update_of_ne hki,← hj] at hk
        exact absurd hk (hnew k)
    rw [update_of_ne hji] at hj
    by_cases hki : k = i
    · rw [hki,update_self] at hk
      rw [← hk] at hj
      exact absurd hj (hnew j)
    · rw [update_of_ne hki] at hk
      exact h.inj j k b hj hk
  · exact Nat.lt_succ_of_lt (h.free_below j (hrest j hj).1)
  · rw [update_of_ne (hrest j hj).2]
    exact h.free_unused j (hrest j hj).1
  · cases hn with
    | again hf =>
      have hnd := h.free_nodup
      rw [hf] at hnd
      exact hnd.tail
    | fresh hf => exact .nil

theorem release {l₁ l₂ free' : List Nat} (h : Directory key (l₁ ++ i :: l₂) free n)
    (hf : free' = free ∨ free' = i :: free) : Directory (update key i none) (l₁ ++ l₂) free' n := by
  have hmem : i ∈ l₁ ++ i :: l₂ := by simp
  have hnd := h.nodup
  rw [List.nodup_middle,List.nodup_cons] at hnd
  have hkey := (h.listed i).mp hmem
  have hfree : ∀ j ∈ free', j = i ∨ j ∈ free := by
    intro j hj
    obtain rfl | rfl := hf
    · exact .inr hj
    · exact List.mem_cons.mp hj
  refine ⟨fun j => ?_,hnd.2,fun j hj => h.below j ?_,fun j k b hj hk => ?_,fun j hj => ?_,
    fun j hj => ?_,?_⟩
  · by_cases hji : j = i
    · simpa [hji] using hnd.1
    · have hl := h.listed j
      simp only [List.mem_append,List.mem_cons,hji,false_or] at hl
      rw [update_of_ne hji,List.mem_append,hl]
  · rw [List.mem_append] at hj
    rw [List.mem_append,List.mem_cons]
    exact hj.imp_right .inr
  · by_cases hji : j = i
    · simp [hji] at hj
    by_cases hki : k = i
    · simp [hki] at hk
    · rw [update_of_ne hji] at hj
      rw [update_of_ne hki] at hk
      exact h.inj j k b hj hk
  · obtain rfl | hj := hfree j hj
    · exact h.below j hmem
    · exact h.free_below j hj
  · obtain rfl | hj := hfree j hj
    · exact update_self ..
    by_cases hji : j = i
    · rw [hji]
      exact update_self ..
    · rw [update_of_ne hji]
      exact h.free_unused j hj
  · obtain rfl | rfl := hf
    · exact h.free_nodup
    · exact List.nodup_cons.mpr ⟨fun hm => hkey (h.free_unused i hm),h.free_nodup⟩

variable {p : Nat → Bool}

theorem key_of_find? (hp : ∀ i, p i = true ↔ key i = some a) (hf : lookup.find? p = some i) :
    key i = some a :=
  (hp i).mp (List.find?_some hf)

theorem no_key_of_find? (h : Directory key lookup free n) (hp : ∀ i, p i = true ↔ key i = some a)
    (hf : lookup.find? p = none) : ∀ i, key i ≠ some a := by
  intro i hk
  have hm := (h.listed i).mpr (by simp [hk])
  exact List.find?_eq_none.mp hf i hm ((hp i).mpr hk)

end Directory
