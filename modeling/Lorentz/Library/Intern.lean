import Mathlib

/-!
Tables that give each value a row id of its own.
-/

set_option autoImplicit false

/-- The rows of a table, with ids that are positive and all different. -/
structure Intern (α : Type) where
  rows : List (Nat × α)
  unique : (rows.map Prod.fst).Nodup
  pos : ∀ r ∈ rows, 0 < r.1

namespace Intern

variable {α : Type}

def empty : Intern α := ⟨[],List.nodup_nil,by simp⟩

def content (t : Intern α) (id : Nat) : Option α :=
  (t.rows.find? (fun r => r.1 = id)).map Prod.snd

def nextID (t : Intern α) : Nat := (t.rows.map Prod.fst).foldr max ⊥+1

theorem lt_nextID (t : Intern α) {r : Nat × α} (h : r ∈ t.rows) : r.1 < t.nextID :=
  Nat.lt_succ_of_le (List.le_max_of_le (List.mem_map_of_mem h) (Nat.le_refl _))

def insert (t : Intern α) (a : α) : Intern α where
  rows := (t.nextID,a) :: t.rows
  unique := by
    refine List.nodup_cons.mpr ⟨?_,t.unique⟩
    intro hmem
    obtain ⟨r,hr,hid⟩ := List.mem_map.mp hmem
    have := t.lt_nextID hr
    omega
  pos := by
    intro r hr
    rcases List.mem_cons.mp hr with rfl | hr
    · exact Nat.succ_pos _
    · exact t.pos r hr

theorem content_of_mem (t : Intern α) {r : Nat × α} (h : r ∈ t.rows) :
    t.content r.1 = some r.2 := by
  have hu := t.unique
  unfold content
  generalize t.rows = rows at h hu
  induction rows with
  | nil => cases h
  | cons s rows ih =>
    obtain ⟨hs,hrows⟩ := List.nodup_cons.mp hu
    rcases List.mem_cons.mp h with rfl | h
    · simp
    · have hne : s.1 ≠ r.1 := fun heq => hs (heq ▸ List.mem_map_of_mem h)
      simp only [List.find?_cons,hne,decide_false]
      exact ih h hrows

theorem mem_of_content (t : Intern α) {id : Nat} {a : α} (h : t.content id = some a) :
    (id,a) ∈ t.rows := by
  obtain ⟨r,hr,rfl⟩ := Option.map_eq_some_iff.mp h
  have hid := List.find?_some hr
  simp only [decide_eq_true_eq] at hid
  rw [← hid]
  exact List.mem_of_find?_eq_some hr

section

variable [DecidableEq α] (t : Intern α)

def link (a : α) : Nat × Intern α :=
  match t.rows.find? (fun r => r.2 = a) with
  | some r => (r.1,t)
  | none => (t.nextID,t.insert a)

theorem content_link (a : α) : (t.link a).2.content (t.link a).1 = some a := by
  unfold link
  split
  · rename_i hr
    have ha := List.find?_some hr
    simp only [decide_eq_true_eq] at ha
    rw [← ha]
    exact t.content_of_mem (List.mem_of_find?_eq_some hr)
  · exact (t.insert a).content_of_mem List.mem_cons_self

theorem content_link_of_content (a : α) {id : Nat} {b : α} (h : t.content id = some b) :
    (t.link a).2.content id = some b := by
  unfold link
  split
  · exact h
  · exact (t.insert a).content_of_mem (List.mem_cons_of_mem _ (t.mem_of_content h))

end

section

variable {t t' t'' : Intern α}

def Extends (t t' : Intern α) : Prop := ∀ id a, t.content id = some a → t'.content id = some a

theorem Extends.refl (t : Intern α) : t.Extends t := fun _ _ h => h

theorem Extends.trans (h : t.Extends t') (k : t'.Extends t'') : t.Extends t'' :=
  fun id a ha => k id a (h id a ha)

theorem extends_link [DecidableEq α] (t : Intern α) (a : α) : t.Extends (t.link a).2 :=
  fun _ _ h => t.content_link_of_content a h

def Names (t : Intern α) (id : Nat) : Option α → Prop
  | some a => t.content id = some a
  | none => id = 0

theorem content_zero (t : Intern α) : t.content 0 = none := by
  cases h : t.content 0 with
  | none => rfl
  | some a => exact absurd (t.pos _ (t.mem_of_content h)) (Nat.lt_irrefl 0)

theorem Names.content_eq {id : Nat} {o : Option α} (h : t.Names id o) : t.content id = o := by
  cases o with
  | none =>
    have hid : id = 0 := h
    rw [hid,t.content_zero]
  | some a => exact h

theorem Names.extends {id : Nat} {o : Option α} (h : t.Names id o) (k : t.Extends t') :
    t'.Names id o := by
  cases o with
  | none => exact h
  | some a => exact k id a h

end

end Intern
