import Mathlib

/-!
A database with transactions, in which any statement may fail.
-/

set_option autoImplicit false

namespace Transaction

/-- `work` is what an open transaction sees, and `asked` the number of statements made. -/
structure Conn (δ : Type) where
  committed : δ
  work : Option δ
  answers : Nat → Bool
  asked : Nat

variable {δ : Type}

namespace Conn

variable (c : Conn δ)

def current : δ := c.work.getD c.committed

def ask : Bool × Conn δ := (c.answers c.asked,{ c with asked := c.asked+1 })

def start : Bool × Conn δ :=
  if c.answers c.asked then (true,{ c with asked := c.asked+1, work := some c.committed })
  else (false,{ c with asked := c.asked+1 })

/-- A statement that changes the contents; outside a transaction it is one of its own. -/
def exec (f : δ → δ) : Bool × Conn δ :=
  if c.answers c.asked then
    match c.work with
    | some d => (true,{ c with asked := c.asked+1, work := some (f d) })
    | none => (true,{ c with asked := c.asked+1, committed := f c.committed })
  else (false,{ c with asked := c.asked+1 })

def commit : Bool × Conn δ :=
  if c.answers c.asked then
    (true,{ c with asked := c.asked+1, committed := c.current, work := none })
  else (false,{ c with asked := c.asked+1 })

def rollback : Conn δ := { c with work := none }

def change (f : δ → Option δ) : Bool × Conn δ :=
  match f c.current with
  | some d => c.exec (fun _ => d)
  | none => (false,{ c with asked := c.asked+1 })

def later (n : Nat) : Conn δ := { c with asked := c.asked+n }

/-- What follows `n` steps that may fail and change nothing. -/
def attempt {α : Type} (c : Conn δ) : Nat → (Conn δ → α × Conn δ) → α → α × Conn δ
  | 0, k, _ => k c
  | n+1, k, failed =>
    if c.answers c.asked then (c.later 1).attempt n k failed else (failed,c.later 1)

end Conn

def succeed (answers : Nat → Bool) (asked : Nat) : Nat → Bool
  | 0 => true
  | n+1 => answers asked && succeed answers (asked+1) n

theorem succeed_add (answers : Nat → Bool) (asked m n : Nat) :
    succeed answers asked (m+n) = (succeed answers asked m && succeed answers (asked+m) n) := by
  induction m generalizing asked with
  | zero => simp [succeed]
  | succ m ih =>
    rw [Nat.succ_add,succeed,succeed,ih,Bool.and_assoc,Nat.add_assoc,Nat.add_comm 1 m]

theorem later_later (c : Conn δ) (m n : Nat) : (c.later m).later n = c.later (m+n) := by
  simp [Conn.later,Nat.add_assoc]

section

variable {α : Type} {c : Conn δ} {n : Nat} (k : Conn δ → α × Conn δ) (failed : α)

theorem attempt_of_succeed (h : succeed c.answers c.asked n = true) :
    c.attempt n k failed = k (c.later n) := by
  induction n generalizing c with
  | zero => rfl
  | succ n ih =>
    simp only [succeed,Bool.and_eq_true] at h
    rw [Conn.attempt,if_pos h.1,ih h.2,later_later,Nat.add_comm]

theorem attempt_of_not_succeed (h : succeed c.answers c.asked n = false) :
    ∃ m, c.attempt n k failed = (failed,c.later m) := by
  induction n generalizing c with
  | zero => cases h
  | succ n ih =>
    rw [Conn.attempt]
    by_cases ha : c.answers c.asked = true
    · simp only [succeed,ha,Bool.true_and] at h
      obtain ⟨m,hm⟩ := ih (c := c.later 1) h
      rw [if_pos ha,hm,later_later]
      exact ⟨_,rfl⟩
    · rw [if_neg ha]
      exact ⟨1,rfl⟩

end

section

variable {c c' : Conn δ} {f : δ → δ} {d : δ} {ok : Bool}

theorem start_true (h : c.start = (true,c')) :
    c'.work = some c.committed ∧ c'.committed = c.committed := by
  unfold Conn.start at h
  split at h <;> cases h
  exact ⟨rfl,rfl⟩

theorem start_false (h : c.start = (false,c')) :
    c'.work = c.work ∧ c'.committed = c.committed := by
  unfold Conn.start at h
  split at h <;> cases h
  exact ⟨rfl,rfl⟩

theorem ask_keeps (h : c.ask = (ok,c')) : c'.work = c.work ∧ c'.committed = c.committed := by
  cases h
  exact ⟨rfl,rfl⟩

theorem exec_true (hw : c.work = some d) (h : c.exec f = (true,c')) :
    c'.work = some (f d) ∧ c'.committed = c.committed := by
  unfold Conn.exec at h
  rw [hw] at h
  split at h <;> cases h
  exact ⟨rfl,rfl⟩

theorem exec_open (hw : c.work.isSome = true) (h : c.exec f = (ok,c')) :
    c'.work.isSome = true ∧ c'.committed = c.committed := by
  obtain ⟨d,hd⟩ := Option.isSome_iff_exists.1 hw
  unfold Conn.exec at h
  rw [hd] at h
  split at h <;> cases h <;> exact ⟨rfl,rfl⟩

theorem commit_true (hw : c.work = some d) (h : c.commit = (true,c')) :
    c'.work = none ∧ c'.committed = d := by
  unfold Conn.commit at h
  split at h <;> cases h
  exact ⟨rfl,by simp [Conn.current,hw]⟩

theorem commit_false (h : c.commit = (false,c')) :
    c'.work = c.work ∧ c'.committed = c.committed := by
  unfold Conn.commit at h
  split at h <;> cases h
  exact ⟨rfl,rfl⟩

end

end Transaction
