import Mathlib

/-!
A producer that hands items to a callback which may refuse one and so stop it. What is handed
over can be collected first and fed afterwards.
-/

set_option autoImplicit false

namespace Feed

variable {α τ σ : Type}

def feed {β : Type} (f : α → β → Bool × β) : List α → β → Bool × β
  | [], b => (true,b)
  | x :: xs, b =>
    match f x b with
    | (true,b) => feed f xs b
    | (false,b) => (false,b)

def collect (x : α) (xs : List α) : Bool × List α := (true,xs ++ [x])

abbrev Producer (α τ σ : Type) :=
  (β : Type) → (α → β → Bool × β) → τ → σ × β → Bool × σ × β

/-- The producer only passes items on: if it ends, it has handed over what it would have
handed to any other callback. -/
def Forwards (P : Producer α τ σ) : Prop :=
  ∀ (β : Type) (add : α → β → Bool × β) (x : τ) (s s' : σ) (b b' : β),
    P β add x (s,b) = (true,s',b') →
    ∃ xs, (∀ acc, P (List α) collect x (s,acc) = (true,s',acc ++ xs)) ∧ feed add xs b = (true,b')

def Producer.each (P : Producer α τ σ) : Producer α (List τ) σ :=
  fun β add => feed (P β add)

variable {β : Type} {f : α → β → Bool × β} {P : Producer α τ σ} {R : β → Prop}

theorem feed_append {xs ys : List α} {b b' : β} (h : feed f xs b = (true,b')) :
    feed f (xs ++ ys) b = feed f ys b' := by
  induction xs generalizing b with
  | nil =>
    cases h
    rfl
  | cons x xs ih =>
    simp only [feed,List.cons_append] at h ⊢
    split at h
    · exact ih h
    · cases h

theorem feed_singleton {x : α} {b b' : β} (h : f x b = (true,b')) : feed f [x] b = (true,b') := by
  simp [feed,h]

theorem feed_preserves (hf : ∀ x b b', R b → f x b = (true,b') → R b') {xs : List α} {b b' : β}
    (hb : R b) (h : feed f xs b = (true,b')) : R b' := by
  induction xs generalizing b with
  | nil =>
    cases h
    exact hb
  | cons x xs ih =>
    simp only [feed] at h
    split at h
    · rename_i b₁ hx
      exact ih (hf x b b₁ hb hx) h
    · cases h

theorem feed_invariant (hf : ∀ x b, R b → R (f x b).2) {xs : List α} {b : β} (hb : R b) :
    R (feed f xs b).2 := by
  induction xs generalizing b with
  | nil => exact hb
  | cons x xs ih =>
    have hx := hf x b hb
    simp only [feed]
    split
    · rename_i he
      rw [he] at hx
      exact ih hx
    · rename_i he
      rw [he] at hx
      exact hx

theorem Forwards.each (hP : Forwards P) : Forwards P.each := by
  intro β add xs
  induction xs with
  | nil =>
    rintro s s' b b' ⟨⟩
    exact ⟨[],fun acc => by simp [Producer.each,feed],rfl⟩
  | cons x xs ih =>
    intro s s' b b' h
    simp only [Producer.each,feed] at h
    split at h
    · rename_i p hx
      obtain ⟨s₁,b₁⟩ := p
      obtain ⟨ds,hc,hf⟩ := hP β add x s s₁ b b₁ hx
      obtain ⟨es,hc',hf'⟩ := ih s₁ s' b₁ b' h
      refine ⟨ds ++ es,fun acc => ?_,?_⟩
      · have hrest := hc' (acc ++ ds)
        rw [List.append_assoc] at hrest
        simp only [Producer.each,feed,hc acc]
        exact hrest
      · rw [feed_append hf,hf']
    · cases h

def Keeps (P : Producer α τ σ) : Prop :=
  ∀ (β : Type) (add : α → β → Bool × β) (I : β → Prop), (∀ x b, I b → I (add x b).2) →
    ∀ x s b, I b → I (P β add x (s,b)).2.2

theorem Keeps.each (hP : Keeps P) : Keeps P.each := by
  intro β add I hI xs s b hb
  exact feed_invariant (R := fun r : σ × β => I r.2) (fun x r hr => hP β add I hI x r.1 r.2 hr) hb

end Feed
