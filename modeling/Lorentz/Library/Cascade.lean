import Mathlib

/-!
Links that follow the rows of a table by triggers.
-/

set_option autoImplicit false

namespace Cascade

inductive Change (κ : Type) where
  | deleted (key : κ)
  | inserted (key : κ)
  deriving DecidableEq

variable {κ γ : Type}

def Change.key : Change κ → κ
  | deleted key | inserted key => key

@[simp] theorem Change.key_deleted (k : κ) : (deleted k).key = k := rfl

@[simp] theorem Change.key_inserted (k : κ) : (inserted k).key = k := rfl

variable [DecidableEq κ] [DecidableEq γ]

def last (cs : List (Change κ)) (k : κ) : Option (Change κ) := cs.reverse.find? (fun c => c.key = k)

@[simp] theorem last_concat (cs : List (Change κ)) (c : Change κ) (k : κ) :
    last (cs ++ [c]) k = if c.key = k then some c else last cs k := by
  by_cases h : c.key = k <;> simp [last,h]

theorem last_of_not_deleted {cs : List (Change κ)} {c : Change κ} (hc : c ∈ cs)
    (hd : .deleted c.key ∉ cs) : last cs c.key = some (.inserted c.key) := by
  induction cs using List.reverseRecOn with
  | nil => simp at hc
  | append_singleton cs c' ih =>
    simp only [List.mem_append,List.mem_singleton,not_or] at hc hd
    rw [last_concat]
    split
    · rename_i hk
      cases c' with
      | deleted k =>
        simp at hk
        simp [hk] at hd
      | inserted k =>
        simp at hk
        simp [hk]
    · rename_i hk
      refine ih (hc.resolve_right ?_) hd.1
      rintro rfl
      exact hk rfl

variable (z : γ)

/-- The triggers; `z` is the first link. -/
def fire (links : Finset (κ × γ)) : Change κ → Finset (κ × γ)
  | .deleted k => links.filter (fun l => l.1 ≠ k)
  | .inserted k => insert (k,z) links

def fireAll (links : Finset (κ × γ)) (cs : List (Change κ)) : Finset (κ × γ) :=
  cs.foldl (fire z) links

@[simp] theorem fireAll_nil (links : Finset (κ × γ)) : fireAll z links [] = links := rfl

theorem fireAll_append (links : Finset (κ × γ)) (cs cs' : List (Change κ)) :
    fireAll z links (cs ++ cs') = fireAll z (fireAll z links cs) cs' := by
  simp [fireAll]

theorem mem_fireAll {links : Finset (κ × γ)} {cs : List (Change κ)} {k : κ} {g : γ} :
    (k,g) ∈ fireAll z links cs ↔
      (.deleted k ∉ cs ∧ (k,g) ∈ links) ∨ (last cs k = some (.inserted k) ∧ g = z) := by
  induction cs using List.reverseRecOn with
  | nil => simp [last]
  | append_singleton cs c ih =>
    rw [fireAll_append,last_concat]
    change _ ∈ fire z _ c ↔ _
    cases c with
    | deleted k' =>
      by_cases hk : k = k'
      · simp [fire,hk]
      · simp [fire,ih,hk,Ne.symm hk]
    | inserted k' =>
      by_cases hk : k = k'
      · subst hk
        simp [fire,ih]
        tauto
      · simp [fire,ih,hk,Ne.symm hk]

def linksOf (links : Finset (κ × γ)) (k : κ) : Finset (κ × γ) := links.filter (fun l => l.1 = k)

omit [DecidableEq γ] in
@[simp] theorem mem_linksOf {links : Finset (κ × γ)} {k : κ} {l : κ × γ} :
    l ∈ linksOf links k ↔ l ∈ links ∧ l.1 = k := by
  simp [linksOf]

/-- A deleted row had no links or only the one it gets again; a row only inserted had its first
link already. -/
def Quiet (links : Finset (κ × γ)) (cs : List (Change κ)) : Prop :=
  ∀ c ∈ cs,
    if .deleted c.key ∈ cs then
      linksOf links c.key = if last cs c.key = some (.inserted c.key) then {(c.key,z)} else ∅
    else (c.key,z) ∈ links

instance (links : Finset (κ × γ)) (cs : List (Change κ)) : Decidable (Quiet z links cs) := by
  unfold Quiet
  infer_instance

theorem fireAll_eq_iff {links : Finset (κ × γ)} {cs : List (Change κ)} :
    fireAll z links cs = links ↔ Quiet z links cs := by
  constructor
  · intro h c hc
    have hm (g : γ) : (c.key,g) ∈ links ↔ (.deleted c.key ∉ cs ∧ (c.key,g) ∈ links) ∨
        (last cs c.key = some (.inserted c.key) ∧ g = z) := by
      rw [← mem_fireAll,h]
    split
    · ext ⟨k,g⟩
      by_cases hk : k = c.key
      · split <;> simp_all
      · split <;> simp [hk]
    · rename_i hd
      exact (hm z).2 (.inr ⟨last_of_not_deleted hc hd,rfl⟩)
  intro h
  ext ⟨k,g⟩
  rw [mem_fireAll]
  by_cases hd : .deleted k ∈ cs
  · have hq := h _ hd
    simp only [Change.key_deleted,hd,if_true] at hq
    have hg : (k,g) ∈ links ↔ (k,g) ∈ linksOf links k := by simp
    rw [hg,hq]
    by_cases hl : last cs k = some (.inserted k) <;> simp [hl,hd]
  simp only [hd,not_false_eq_true,true_and,or_iff_left_iff_imp]
  rintro ⟨hl,rfl⟩
  have hi : .inserted k ∈ cs := by
    simpa using List.mem_of_find?_eq_some hl
  simpa [hd] using h _ hi

end Cascade
