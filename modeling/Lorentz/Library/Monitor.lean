import Mathlib

/-!
Machines with a step function on events, routines that work on a shared state in atomic steps,
which the environment answers, and a monitor that runs one at a time. `Machine.Meets` and
`Routine.Ensures` are the rules to reason with.
-/

set_option autoImplicit false

namespace Machine

variable {σ ε : Type} (step : σ → ε → σ)

def run (s : σ) (es : List ε) : σ := es.foldl step s

@[simp] theorem run_nil (s : σ) : run step s [] = s := rfl

@[simp] theorem run_cons (s : σ) (e : ε) (es : List ε) :
    run step s (e :: es) = run step (step s e) es := rfl

variable (allowed : σ → ε → Bool)

def Meets : σ → List ε → Bool
  | _, [] => true
  | s, e :: es => allowed s e && Meets (step s e) es

@[simp] theorem meets_cons (s : σ) (e : ε) (es : List ε) :
    Meets step allowed s (e :: es) = true ↔
      allowed s e = true ∧ Meets step allowed (step s e) es = true := by
  simp [Meets]

variable {step allowed}

theorem Meets.keeps {I : σ → Prop} {s : σ} {es : List ε}
    (hstep : ∀ s e, allowed s e = true → I s → I (step s e)) (hs : I s)
    (hm : Meets step allowed s es = true) : I (run step s es) := by
  induction es generalizing s with
  | nil => exact hs
  | cons e es ih =>
    rw [meets_cons] at hm
    exact ih (hstep s e hm.1 hs) hm.2

theorem Meets.at_event {s : σ} {before after : List ε} {e : ε}
    (hm : Meets step allowed s (before ++ e :: after) = true) :
    allowed (run step s before) e = true := by
  induction before generalizing s with
  | nil => exact ((meets_cons step allowed s e after).1 hm).1
  | cons e' before ih => exact ih ((meets_cons step allowed s e' _).1 hm).2

end Machine

inductive Routine (σ ω ρ : Type) where
  | ret (r : ρ)
  | act (effect : ω → σ → σ) (next : ω → σ → Routine σ ω ρ)

namespace Routine

variable {σ ω α β ρ : Type}

def bind : Routine σ ω α → (α → Routine σ ω β) → Routine σ ω β
  | ret a, f => f a
  | act effect next, f => act effect (fun o s => (next o s).bind f)

instance : Monad (Routine σ ω) where
  pure := ret
  bind := bind

def step (f : ω → σ → α × σ) : Routine σ ω α :=
  act (fun o s => (f o s).2) (fun o s => ret (f o s).1)

def run : Routine σ ω ρ → (Nat → ω) → σ → ρ × σ
  | ret r, _, s => (r,s)
  | act effect next, o, s => (next (o 0) s).run (fun i => o (i+1)) (effect (o 0) s)

/-- Every step from `s` on is allowed by `G`, and `Q` holds of the result and the final state. -/
def Ensures (G : σ → σ → Prop) (Q : ρ → σ → Prop) : Routine σ ω ρ → σ → Prop
  | ret r, s => Q r s
  | act effect next, s => ∀ o, G s (effect o s) ∧ (next o s).Ensures G Q (effect o s)

section

variable {G : σ → σ → Prop} {s : σ}

variable {Q : ρ → σ → Prop}

@[simp]
theorem ensures_ret (r : ρ) : (ret r : Routine σ ω ρ).Ensures G Q s ↔ Q r s :=
  Iff.rfl

@[simp]
theorem ensures_bind {Q : β → σ → Prop} (p : Routine σ ω α) (f : α → Routine σ ω β) :
    (p >>= f).Ensures G Q s ↔ p.Ensures G (fun a => (f a).Ensures G Q) s := by
  change (p.bind f).Ensures G Q s ↔ _
  induction p generalizing s with
  | ret a => rfl
  | act effect next ih => simp only [bind,Ensures,ih]

theorem Ensures.run {p : Routine σ ω ρ} (h : p.Ensures G Q s) (o : Nat → ω) :
    Q (p.run o s).1 (p.run o s).2 := by
  induction p generalizing s o with
  | ret r => exact h
  | act effect next ih => exact ih (o 0) s (h (o 0)).2 _

end

section

variable (allowed : ω → σ → Bool)

def Given (Q : ρ → σ → Prop) : Routine σ ω ρ → σ → Prop
  | ret r, s => Q r s
  | act effect next, s => ∀ o, allowed o s = true → (next o s).Given Q (effect o s)

def answered : Routine σ ω ρ → (Nat → ω) → σ → Bool
  | ret _, _, _ => true
  | act effect next, o, s =>
    allowed (o 0) s && (next (o 0) s).answered (fun i => o (i+1)) (effect (o 0) s)

variable {allowed} {Q : ρ → σ → Prop} {s : σ}

theorem Ensures.given_bind {p : Routine σ ω α} {f : α → Routine σ ω ρ}
    (h : p.Ensures (fun _ _ => True) (fun a => (f a).Given allowed Q) s) :
    (p >>= f).Given allowed Q s := by
  induction p generalizing s with
  | ret a => exact h
  | act effect next ih => exact fun o _ => ih o s (h o).2

theorem Given.run {p : Routine σ ω ρ} (h : p.Given allowed Q s) {o : Nat → ω}
    (ho : p.answered allowed o s = true) : Q (p.run o s).1 (p.run o s).2 := by
  induction p generalizing s o with
  | ret r => exact h
  | act effect next ih =>
    rw [answered,Bool.and_eq_true] at ho
    exact ih (o 0) s (h (o 0) ho.1) ho.2

end

inductive Turn (ω κ : Type) where
  | mine (answer : ω)
  | other (step : κ)
  deriving DecidableEq, Repr

section

variable {κ : Type} (env : κ → σ → σ)

def turn : Routine σ ω ρ × σ → Turn ω κ → Routine σ ω ρ × σ
  | (p,s), .other k => (p,env k s)
  | (ret r,s), .mine _ => (ret r,s)
  | (act effect next,s), .mine o => (next o s,effect o s)

def among (p : Routine σ ω ρ × σ) (turns : List (Turn ω κ)) : Routine σ ω ρ × σ :=
  turns.foldl (turn env) p

/-- Every step of the others meets `allowed` in the state it is made in. -/
def Meets (allowed : κ → σ → Bool) : Routine σ ω ρ × σ → List (Turn ω κ) → Bool
  | _, [] => true
  | p, .mine o :: turns => Meets allowed (turn env p (.mine o)) turns
  | p, .other k :: turns => allowed k p.2 && Meets allowed (turn env p (.other k)) turns

/-- In every state that has `I` the steps keep it, and the result has `Q`. -/
def Under (I : σ → Prop) (Q : ρ → Prop) : Routine σ ω ρ → Prop
  | ret r => Q r
  | act effect next => ∀ o s, I s → I (effect o s) ∧ (next o s).Under I Q

section

variable {I : σ → Prop}

variable {Q : ρ → Prop} {p : Routine σ ω ρ} {s : σ}

@[simp]
theorem under_pure (r : ρ) : (pure r : Routine σ ω ρ).Under I Q ↔ Q r := Iff.rfl

@[simp]
theorem under_step {Q : α → Prop} (f : ω → σ → α × σ) :
    (step f).Under I Q ↔ ∀ o s, I s → I (f o s).2 ∧ Q (f o s).1 :=
  Iff.rfl

@[simp]
theorem under_bind {Q : β → Prop} (p : Routine σ ω α) (f : α → Routine σ ω β) :
    (p >>= f).Under I Q ↔ p.Under I (fun a => (f a).Under I Q) := by
  change (p.bind f).Under I Q ↔ _
  induction p with
  | ret a => rfl
  | act effect next ih => simp only [bind,Under,ih]

theorem Under.mono {Q' : ρ → Prop} (h : p.Under I Q) (hQ : ∀ r, Q r → Q' r) : p.Under I Q' := by
  induction p with
  | ret r => exact hQ r h
  | act effect next ih => exact fun o s hs => ⟨(h o s hs).1,ih o s (h o s hs).2⟩

theorem Under.run (h : p.Under I Q) (hs : I s) (o : Nat → ω) :
    Q (p.run o s).1 ∧ I (p.run o s).2 := by
  induction p generalizing s o with
  | ret r => exact ⟨h,hs⟩
  | act effect next ih => exact ih (o 0) s (h (o 0) s hs).2 (h (o 0) s hs).1 _

variable {env} {allowed : κ → σ → Bool}

theorem Under.among {turns : List (Turn ω κ)}
    (henv : ∀ k s, allowed k s = true → I s → I (env k s)) (hp : p.Under I Q) (hs : I s)
    (hm : Meets env allowed (p,s) turns = true) :
    (Routine.among env (p,s) turns).1.Under I Q ∧ I (Routine.among env (p,s) turns).2 := by
  induction turns generalizing p s with
  | nil => exact ⟨hp,hs⟩
  | cons t turns ih =>
    cases t with
    | mine o =>
      cases p with
      | ret r => exact ih hp hs hm
      | act effect next => exact ih (hp o s hs).2 (hp o s hs).1 hm
    | other k =>
      simp only [Meets,Bool.and_eq_true] at hm
      exact ih hp (henv k s hm.1 hs) hm.2

end

end

end Routine

namespace Monitor

/-- A request that holds the lock: what is left of it, and the state it found. -/
structure Holder (ι κ σ ω ρ : Type) where
  thread : ι
  request : κ
  entered : σ
  rest : Routine σ ω ρ

/-- A request that has returned, with the state it found and the one it left. -/
structure Returned (κ σ ρ : Type) where
  request : κ
  entered : σ
  result : ρ
  left : σ
  deriving DecidableEq, Repr

structure State (ι κ σ ω ρ : Type) where
  shared : σ
  holder : Option (Holder ι κ σ ω ρ)
  returned : List (Returned κ σ ρ)

inductive Event (ι κ ω : Type) where
  | enter (thread : ι) (request : κ)
  | advance (thread : ι) (answer : ω)
  | leave (thread : ι)

variable {ι κ σ ω ρ : Type}

def idle (s : σ) : State ι κ σ ω ρ := ⟨s,none,[]⟩

/-- Entering waits while another thread has the lock; a request whose body is an error returns
without it. -/
def step [DecidableEq ι] (body : κ → Except ρ (Routine σ ω ρ)) (m : State ι κ σ ω ρ) :
    Event ι κ ω → State ι κ σ ω ρ
  | .enter i k =>
    match body k with
    | .error r => { m with returned := ⟨k,m.shared,r,m.shared⟩ :: m.returned }
    | .ok p =>
      match m.holder with
      | some _ => m
      | none => { m with holder := some ⟨i,k,m.shared,p⟩ }
  | .advance i o =>
    match m.holder with
    | some ⟨j,k,s,.act effect next⟩ =>
      if i = j then
        { m with shared := effect o m.shared, holder := some ⟨j,k,s,next o m.shared⟩ }
      else m
    | _ => m
  | .leave i =>
    match m.holder with
    | some ⟨j,k,s,.ret r⟩ =>
      if i = j then
        { m with holder := none, returned := ⟨k,s,r,m.shared⟩ :: m.returned }
      else m
    | _ => m

def run [DecidableEq ι] (body : κ → Except ρ (Routine σ ω ρ)) (m : State ι κ σ ω ρ)
    (es : List (Event ι κ ω)) : State ι κ σ ω ρ :=
  es.foldl (step body) m

section

variable (G : κ → σ → σ → Prop) (Q : κ → σ → ρ → σ → Prop)

/-- The holder has still to do what its request promises, and those that returned did. -/
structure Keeps (m : State ι κ σ ω ρ) : Prop where
  holder : ∀ h, m.holder = some h →
    h.rest.Ensures (G h.request) (Q h.request h.entered) m.shared
  returned : ∀ c ∈ m.returned, Q c.request c.entered c.result c.left

def Promises (body : κ → Except ρ (Routine σ ω ρ)) : Prop :=
  ∀ k s, match body k with
    | .error r => Q k s r s
    | .ok p => p.Ensures (G k) (Q k s) s

variable {G Q}

theorem keeps_idle (s : σ) : Keeps G Q (idle s : State ι κ σ ω ρ) :=
  ⟨by simp [idle],by simp [idle]⟩

variable [DecidableEq ι] {body : κ → Except ρ (Routine σ ω ρ)}

variable {m : State ι κ σ ω ρ}

theorem Keeps.step (hb : Promises G Q body) (h : Keeps G Q m) (e : Event ι κ ω) :
    Keeps G Q (step body m e) ∧
      ((Monitor.step body m e).shared = m.shared ∨
        ∃ k, G k m.shared (Monitor.step body m e).shared) := by
  have hstay : Keeps G Q m ∧ (m.shared = m.shared ∨ ∃ k, G k m.shared m.shared) := ⟨h,.inl rfl⟩
  cases e with
  | enter i k =>
    have hk := hb k m.shared
    simp only [Monitor.step]
    cases hbk : body k with
    | error r =>
      rw [hbk] at hk
      exact ⟨⟨h.holder,by simpa using ⟨hk,h.returned⟩⟩,.inl rfl⟩
    | ok p =>
      rw [hbk] at hk
      cases hm : m.holder with
      | some _ => simpa only [hm] using hstay
      | none => exact ⟨⟨by rintro _ ⟨⟩; exact hk,h.returned⟩,.inl rfl⟩
  | advance i o =>
    simp only [Monitor.step]
    split
    case h_1 j k s effect next hm =>
      split
      · obtain ⟨hG,hrest⟩ := h.holder _ hm o
        exact ⟨⟨by rintro _ ⟨⟩; exact hrest,h.returned⟩,.inr ⟨k,hG⟩⟩
      · exact hstay
    case h_2 => exact hstay
  | leave i =>
    simp only [Monitor.step]
    split
    case h_1 j k s r hm =>
      split
      · exact ⟨⟨by simp,by simpa using ⟨h.holder _ hm,h.returned⟩⟩,.inl rfl⟩
      · exact hstay
    case h_2 => exact hstay

theorem Keeps.run (hb : Promises G Q body) (h : Keeps G Q m) (es : List (Event ι κ ω)) :
    Keeps G Q (run body m es) := by
  induction es generalizing m with
  | nil => exact h
  | cons e es ih => exact ih (h.step hb e).1

theorem Keeps.run_stable {P : σ → Prop} (hb : Promises G Q body) (h : Keeps G Q m)
    (hP : ∀ k s s', G k s s' → P s → P s') (hm : P m.shared) (es : List (Event ι κ ω)) :
    P (Monitor.run body m es).shared := by
  induction es generalizing m with
  | nil => exact hm
  | cons e es ih =>
    obtain ⟨hk,hs⟩ := h.step hb e
    refine ih hk ?_
    rcases hs with hs | ⟨k,hs⟩
    · rw [hs]; exact hm
    · exact hP k _ _ hs hm

end

end Monitor
