import Mathlib

/-!
Records and what counts them: 32 bit counters, one for each value of a key, and reference counts.
-/

set_option autoImplicit false

namespace Counting
open Function

variable {α β : Type} [DecidableEq α]

def increment (c : α → UInt32) (a : α) : α → UInt32 := update c a (c a+1)
def decrement (c : α → UInt32) (a : α) : α → UInt32 := update c a (c a-1)

def Counts (key : β → α) (c : α → UInt32) (l : List β) : Prop :=
  ∀ a, (c a).toNat = l.countP (fun x => key x = a)

section

variable {key : β → α} {c : α → UInt32} {l r : List β} {x y : β}

theorem Counts.nil : Counts key (fun _ => 0) ([] : List β) := by
  intro a
  rfl

theorem increment_self (c : α → UInt32) (a : α) : increment c a a = c a+1 := by
  simp [increment]

theorem increment_of_ne (c : α → UInt32) {a b : α} (h : b ≠ a) : increment c a b = c b := by
  simp [increment,h]

theorem decrement_self (c : α → UInt32) (a : α) : decrement c a a = c a-1 := by
  simp [decrement]

theorem decrement_of_ne (c : α → UInt32) {a b : α} (h : b ≠ a) : decrement c a b = c b := by
  simp [decrement,h]

@[simp] theorem increment_decrement (c : α → UInt32) (a : α) :
    increment (decrement c a) a = c := by
  funext b
  by_cases hb : b = a
  · subst hb
    rw [increment_self,decrement_self]
    exact UInt32.sub_add_cancel _ _
  · rw [increment_of_ne _ hb,decrement_of_ne _ hb]

theorem increment_toNat (c : α → UInt32) (a b : α) (h : (c a).toNat+1 < 4294967296) :
    (increment c a b).toNat = (c b).toNat+if b = a then 1 else 0 := by
  by_cases hb : b = a
  · subst hb
    rw [increment_self,UInt32.toNat_add,if_pos rfl]
    simp
    omega
  · rw [increment_of_ne _ hb,if_neg hb,Nat.add_zero]

theorem decrement_toNat (c : α → UInt32) (a b : α) (h : 1 ≤ (c a).toNat) :
    (decrement c a b).toNat = (c b).toNat-if b = a then 1 else 0 := by
  by_cases hb : b = a
  · subst hb
    have hle : (1 : UInt32) ≤ c b := by simpa [UInt32.le_iff_toNat_le] using h
    rw [decrement_self,UInt32.toNat_sub_of_le _ _ hle,if_pos rfl]
    rfl
  · rw [decrement_of_ne _ hb,if_neg hb,Nat.sub_zero]

theorem Counts.le_length (h : Counts key c l) (a : α) : (c a).toNat ≤ l.length := by
  rw [h a]
  exact List.countP_le_length

theorem Counts.cons (h : Counts key c l) (hlen : l.length+1 < 4294967296) :
    Counts key (increment c (key x)) (x :: l) := by
  intro a
  have hle := h.le_length (key x)
  rw [increment_toNat c (key x) a (by omega),h a,List.countP_cons]
  by_cases ha : key x = a
  · simp [ha]
  · simp [ha,Ne.symm ha]

theorem Counts.tail (h : Counts key c (x :: l)) : Counts key (decrement c (key x)) l := by
  intro a
  have hx := h (key x)
  rw [List.countP_cons_of_pos (by simp)] at hx
  rw [decrement_toNat c (key x) a (by omega),h a]
  by_cases ha : key x = a
  · rw [List.countP_cons_of_pos (by simp [ha])]
    simp [ha]
  · rw [List.countP_cons_of_neg (by simp [ha])]
    simp [Ne.symm ha]

theorem Counts.perm (h : Counts key c l) (hp : l.Perm r) : Counts key c r := by
  intro a
  rw [h a,hp.countP_eq]

theorem Counts.congr (h : Counts key c l) (hr : r.map key = l.map key) : Counts key c r := by
  intro a
  have hmap : ∀ m : List β, m.countP (fun x => key x = a) = (m.map key).countP (fun b => b = a) := by
    intro m
    rw [List.countP_map]
    rfl
  rw [h a,hmap l,hmap r,hr]

theorem sum_indicator (all : List α) (hnd : all.Nodup) (k : α) :
    (all.map (fun a => if k = a then 1 else 0)).sum = if k ∈ all then 1 else 0 := by
  induction all with
  | nil => rfl
  | cons b all ih =>
    obtain ⟨hb,hnd⟩ := List.nodup_cons.mp hnd
    rw [List.map_cons,List.sum_cons,ih hnd]
    by_cases hk : k = b
    · subst hk
      simp [hb]
    · simp [hk]

theorem sum_countP (all : List α) (hnd : all.Nodup) (hl : ∀ x ∈ l, key x ∈ all) :
    (all.map (fun a => l.countP (fun x => key x = a))).sum = l.length := by
  induction l with
  | nil => simp
  | cons x l ih =>
    have hone : (all.map (fun a => if key x = a then 1 else 0)).sum = 1 := by
      rw [sum_indicator all hnd,if_pos (hl x List.mem_cons_self)]
    have hstep : all.map (fun a => (x :: l).countP (fun x => key x = a)) =
        all.map (fun a => l.countP (fun x => key x = a)+if key x = a then 1 else 0) := by
      refine List.map_congr_left fun a _ => ?_
      simp [List.countP_cons]
    rw [hstep,List.sum_map_add,ih fun y hy => hl y (List.mem_cons_of_mem x hy),hone,List.length_cons]

theorem Counts.sum (h : Counts key c l) (all : List α) (hall : ∀ a, a ∈ all) (hnd : all.Nodup) :
    (all.map (fun a => (c a).toNat)).sum = l.length := by
  rw [← sum_countP all hnd fun x _ => hall (key x)]
  exact congrArg List.sum (List.map_congr_left fun a _ => h a)

end

theorem countP_set_add {p : β → Bool} {l : List β} {i : Nat} {x : β} (h : l[i]? = some x) (y : β) :
    (l.set i y).countP p+(if p x then 1 else 0) = l.countP p+(if p y then 1 else 0) := by
  induction l generalizing i with
  | nil => simp at h
  | cons a l ih =>
    cases i with
    | zero =>
      simp only [List.getElem?_cons_zero,Option.some.injEq] at h
      subst h
      simp only [List.set_cons_zero,List.countP_cons]
      omega
    | succ i =>
      have := ih h
      simp only [List.set_cons_succ,List.countP_cons]
      omega

end Counting

namespace References

variable {α ρ : Type} (refers : α → ρ → Bool)

def credit (x : α) (r : ρ) : Int := if refers x r then 1 else 0

/-- Each counter `watched` has an eye on is the number of records that refer to its place. -/
def Balanced (watched : ρ → Bool) (count : ρ → Int) (l : List α) : Prop :=
  ∀ r, watched r = true → count r = l.countP (fun x => refers x r)

variable {refers} {watched : ρ → Bool} {count count' : ρ → Int} {l l' : List α} {x y : α}

theorem countP_cons_credit (x : α) (l : List α) (r : ρ) :
    ((x :: l).countP (fun z => refers z r) : Int) =
      l.countP (fun z => refers z r)+credit refers x r := by
  by_cases h : refers x r = true <;> simp [credit,h]

theorem Balanced.perm (h : Balanced refers watched count l) (hp : l.Perm l') :
    Balanced refers watched count l' := by
  intro r hr
  rw [h r hr,hp.countP_eq]

theorem Balanced.cons (h : Balanced refers watched count l)
    (hc : ∀ r, watched r = true → count' r = count r+credit refers x r) :
    Balanced refers watched count' (x :: l) := by
  intro r hr
  rw [countP_cons_credit,hc r hr,h r hr]

theorem Balanced.replace (h : Balanced refers watched count (x :: l))
    (hc : ∀ r, watched r = true → count' r = count r+(credit refers y r-credit refers x r)) :
    Balanced refers watched count' (y :: l) := by
  intro r hr
  have hx := h r hr
  rw [countP_cons_credit] at hx ⊢
  rw [hc r hr,hx]
  omega

theorem Balanced.congr (h : Balanced refers watched count l)
    (hc : ∀ r, watched r = true → count' r = count r) : Balanced refers watched count' l := by
  intro r hr
  rw [hc r hr,h r hr]

end References
