import Lorentz.Library.Counting
import Lorentz.Passwords

/-!
The rate limit under concurrent checks: a call counts under a lock, hashes, and gives its
attempt back without the lock if the password was right.
-/

set_option autoImplicit false

namespace Lorentz

/-- Where a call is. The decrement reads the counter before it stores it. -/
inductive CallPhase where
  | restarting
  | hashing
  | givingBack (num : Nat)
  | right
  | wrong
  | refused
  deriving DecidableEq, Repr

/-- A call of `verify_password` with a password and a hash, and the second it was counted
in. -/
structure PasswordCall where
  rateLimiting : Bool
  phase : CallPhase
  second : Int
  deriving DecidableEq, Repr

/-- `lock` is the call that is about to restart the counter with `rate_limit_lock` held. -/
structure Guessing where
  limiter : Limiter
  now : Int
  lock : Option Nat
  calls : List PasswordCall
  deriving DecidableEq, Repr

inductive GuessEvent where
  | tick
  | enter (rateLimiting : Bool)
  | restart (call : Nat)
  | hashed (call : Nat) (fits : Bool)
  | store (call : Nat)
  deriving DecidableEq, Repr

namespace Guessing

def start (now : Int) : Guessing := ⟨⟨0,0⟩,now,none,[]⟩

variable (s : Guessing)

def enter (rateLimiting : Bool) : Guessing :=
  if s.lock.isSome then s
  else if s.limiter.counts rateLimiting s.now then
    let l := s.limiter.count
    let phase := if l.numPasswordAttempts ≤ MAX_PASSWORD_ATTEMPTS_PER_SECOND then .hashing
      else .refused
    { s with limiter := l, calls := s.calls ++ [⟨rateLimiting,phase,s.now⟩] }
  else
    { s with
      lock := some s.calls.length
      calls := s.calls ++ [⟨rateLimiting,.restarting,s.now⟩] }

def step : GuessEvent → Guessing
  | .tick => { s with now := s.now+1 }
  | .enter rateLimiting => s.enter rateLimiting
  | .restart i =>
    match s.lock, s.calls[i]? with
    | some j, some c =>
      if i = j then
        { s with
          limiter := .restart s.now
          lock := none
          calls := s.calls.set i { c with phase := .hashing, second := s.now } }
      else s
    | _, _ => s
  | .hashed i fits =>
    match s.calls[i]? with
    | some ⟨rateLimiting,.hashing,second⟩ =>
      let phase := if fits then .givingBack s.limiter.numPasswordAttempts else .wrong
      { s with calls := s.calls.set i ⟨rateLimiting,phase,second⟩ }
    | _ => s
  | .store i =>
    match s.calls[i]? with
    | some ⟨rateLimiting,.givingBack num,second⟩ =>
      { s with
        limiter := { s.limiter with numPasswordAttempts := num }.giveBack
        calls := s.calls.set i ⟨rateLimiting,.right,second⟩ }
    | _ => s

def wrongIn (second : Int) : Nat :=
  s.calls.countP (fun c => c.rateLimiting && c.phase = .wrong && c.second = second)

end Guessing

def PasswordCall.gives (c : PasswordCall) : Bool :=
  match c.phase with
  | .givingBack _ => true
  | _ => false

def PasswordCall.held (second : Int) (c : PasswordCall) : Bool :=
  c.second = second &&
    match c.phase with
    | .hashing | .givingBack _ | .wrong => true
    | _ => false

namespace Guessing

variable (s : Guessing)

def giving : Bool := s.calls.any PasswordCall.gives

/-- No decrement is under way when the counter is used, a check without rate limiting starts the
count of a second, a right password is given back in the count it was counted in, and the counter
does not overflow. -/
def calm : GuessEvent → Bool
  | .enter true => !s.giving && s.limiter.numPasswordAttempts+1 < 2^32
  | .enter false => s.limiter.lastPasswordAttempt ≠ s.now
  | .restart _ => !s.giving
  | .hashed i true =>
    !s.giving && s.calls[i]?.all (fun c => c.second = s.limiter.lastPasswordAttempt)
  | _ => true

end Guessing

def heldIn (calls : List PasswordCall) (second : Int) : Nat :=
  calls.countP (PasswordCall.held second)

/-- The counter covers the attempts held in its second, and nobody else reads it while an attempt
is given back. -/
structure CountInv (last : Int) (num : Nat) (now : Int) (lock : Option Nat)
    (calls : List PasswordCall) : Prop where
  nonneg : 0 ≤ last
  le_now : last ≤ now
  pos : 0 < now
  later : ∀ t, last < t → heldIn calls t = 0
  few : ∀ t, heldIn calls t ≤ 3
  covered : heldIn calls last ≤ num
  reading : ∀ c ∈ calls, c.gives = true → c.phase = .givingBack num ∧ c.second = last
  single : calls.countP PasswordCall.gives ≤ 1
  bounded : num < 2^32
  locked : ∀ i, lock = some i → last < now ∧ ∀ c, calls[i]? = some c → c.phase = .restarting

namespace CountInv

variable {last now : Int} {num : Nat} {lock : Option Nat} {calls : List PasswordCall}

theorem start (h : 0 < now) : CountInv 0 0 now none [] := by
  constructor <;> simp [heldIn,h,Int.le_of_lt]

theorem heldIn_append (c : PasswordCall) (t : Int) :
    heldIn (calls ++ [c]) t = heldIn calls t+if c.held t then 1 else 0 := by
  rw [heldIn,List.countP_append,heldIn]
  by_cases h : c.held t = true <;> simp [h]

variable {i : Nat} {rateLimiting : Bool} {c : PasswordCall} {second : Int}

theorem mem_append_gives (hc : c.gives = false) {x : PasswordCall} (hx : x ∈ calls ++ [c])
    (hg : x.gives = true) : x ∈ calls := by
  rcases List.mem_append.1 hx with hx | hx
  · exact hx
  · rw [List.mem_singleton.1 hx,hc] at hg
    cases hg

theorem tick (h : CountInv last num now lock calls) : CountInv last num (now+1) lock calls := by
  have hle := h.le_now
  have hpos := h.pos
  refine ⟨h.nonneg,by omega,by omega,h.later,h.few,h.covered,h.reading,h.single,h.bounded,?_⟩
  intro i hi
  exact ⟨by omega,(h.locked i hi).2⟩

theorem count (h : CountInv now num now none calls) (hg : ∀ c ∈ calls, c.gives = false)
    (hnum : num+1 < 2^32) {phase : CallPhase}
    (hphase : phase = .refused ∨ (phase = .hashing ∧ num+1 ≤ 3)) :
    CountInv now (num+1) now none (calls ++ [⟨true,phase,now⟩]) := by
  have hgives : (⟨true,phase,now⟩ : PasswordCall).gives = false := by
    rcases hphase with rfl | ⟨rfl,-⟩ <;> rfl
  have hheld : ∀ t, t ≠ now → heldIn (calls ++ [⟨true,phase,now⟩]) t = heldIn calls t := by
    intro t ht
    rw [heldIn_append]
    simp [PasswordCall.held,Ne.symm ht]
  have hnow : heldIn (calls ++ [⟨true,phase,now⟩]) now ≤ heldIn calls now+1 ∧
      (phase = .refused → heldIn (calls ++ [⟨true,phase,now⟩]) now = heldIn calls now) := by
    rw [heldIn_append]
    rcases hphase with rfl | ⟨rfl,-⟩ <;> simp [PasswordCall.held]
  have hcov := h.covered
  refine ⟨h.nonneg,h.le_now,h.pos,?_,?_,by omega,?_,?_,hnum,by simp⟩
  · intro t ht
    rw [hheld t (by omega)]
    exact h.later t ht
  · intro t
    by_cases ht : t = now
    · subst ht
      have hfew := h.few t
      rcases hphase with hp | ⟨-,hle⟩
      · rw [hnow.2 hp]
        exact hfew
      · omega
    · rw [hheld t ht]
      exact h.few t
  · intro c hc hgc
    rw [hg c (mem_append_gives hgives hc hgc)] at hgc
    cases hgc
  · simpa [hgives] using h.single

theorem wait (h : CountInv last num now none calls) (hlt : last < now) (rateLimiting : Bool) :
    CountInv last num now (some calls.length) (calls ++ [⟨rateLimiting,.restarting,now⟩]) := by
  have hheld : ∀ t, heldIn (calls ++ [⟨rateLimiting,.restarting,now⟩]) t = heldIn calls t := by
    intro t
    rw [heldIn_append]
    simp [PasswordCall.held]
  refine ⟨h.nonneg,h.le_now,h.pos,?_,?_,?_,?_,?_,h.bounded,?_⟩
  · simpa only [hheld] using h.later
  · simpa only [hheld] using h.few
  · simpa only [hheld] using h.covered
  · intro c hc hgc
    exact h.reading c (mem_append_gives rfl hc hgc) hgc
  · simpa [PasswordCall.gives] using h.single
  · rintro i ⟨⟩
    exact ⟨hlt,by simp⟩

theorem restart (h : CountInv last num now (some i) calls) (hg : ∀ c ∈ calls, c.gives = false)
    (hc : calls[i]? = some c) :
    CountInv now 1 now none (calls.set i { c with phase := .hashing, second := now }) := by
  obtain ⟨hlt,hphase⟩ := h.locked i rfl
  have hphase := hphase c hc
  have hheld : ∀ t, heldIn (calls.set i { c with phase := .hashing, second := now }) t =
      heldIn calls t+if t = now then 1 else 0 := by
    intro t
    have hset := Counting.countP_set_add (p := PasswordCall.held t) hc
      { c with phase := .hashing, second := now }
    simpa [heldIn,PasswordCall.held,hphase,eq_comm] using hset
  have hno : ∀ x ∈ calls.set i { c with phase := .hashing, second := now }, x.gives = false := by
    intro x hx
    rcases List.mem_or_eq_of_mem_set hx with hx | rfl
    · exact hg x hx
    · rfl
  have hnow := h.later now hlt
  have hpos := h.pos
  refine ⟨by omega,by omega,hpos,?_,?_,?_,?_,?_,by omega,by simp⟩
  · intro t ht
    rw [hheld,if_neg (by omega),h.later t (by omega)]
  · intro t
    have hfew := h.few t
    rw [hheld]
    split
    · subst t
      omega
    · omega
  · simp [hheld,hnow]
  · intro x hx hgx
    rw [hno x hx] at hgx
    cases hgx
  · rw [List.countP_eq_zero.2 (by simpa using hno)]
    omega

theorem locked_set {c c' : PasswordCall} (h : CountInv last num now lock calls)
    (hc : calls[i]? = some c) (hphase : c.phase ≠ .restarting) : ∀ j, lock = some j → last < now ∧
      ∀ x, (calls.set i c')[j]? = some x → x.phase = .restarting := by
  intro j hj
  obtain ⟨hlt,hwait⟩ := h.locked j hj
  refine ⟨hlt,fun x hx => ?_⟩
  by_cases hij : i = j
  · subst hij
    exact absurd (hwait c hc) hphase
  · rw [List.getElem?_set_ne hij] at hx
    exact hwait x hx

theorem heldIn_hashed {phase : CallPhase} (hc : calls[i]? = some ⟨rateLimiting,.hashing,second⟩)
    (hphase : phase = .wrong ∨ phase = .givingBack num) (t : Int) :
    heldIn (calls.set i ⟨rateLimiting,phase,second⟩) t = heldIn calls t := by
  have hset := Counting.countP_set_add (p := PasswordCall.held t) hc ⟨rateLimiting,phase,second⟩
  rcases hphase with rfl | rfl <;> simpa [heldIn,PasswordCall.held] using hset

theorem hashed {phase : CallPhase} (h : CountInv last num now lock calls)
    (hc : calls[i]? = some ⟨rateLimiting,.hashing,second⟩) (hphase : phase = .wrong ∨
      (phase = .givingBack num ∧ second = last ∧ ∀ c ∈ calls, c.gives = false)) :
    CountInv last num now lock (calls.set i ⟨rateLimiting,phase,second⟩) := by
  have hheld := heldIn_hashed hc (hphase.imp_right And.left)
  have hgives := Counting.countP_set_add (p := PasswordCall.gives) hc ⟨rateLimiting,phase,second⟩
  refine ⟨h.nonneg,h.le_now,h.pos,?_,?_,?_,?_,?_,h.bounded,h.locked_set hc (by simp)⟩
  · simpa only [hheld] using h.later
  · simpa only [hheld] using h.few
  · simpa only [hheld] using h.covered
  · intro x hx hgx
    rcases List.mem_or_eq_of_mem_set hx with hx | rfl
    · exact h.reading x hx hgx
    · rcases hphase with rfl | ⟨rfl,rfl,-⟩
      · cases hgx
      · exact ⟨rfl,rfl⟩
  rcases hphase with rfl | ⟨rfl,-,hg⟩
  · have hsingle := h.single
    simp only [PasswordCall.gives,Bool.false_eq_true,if_false] at hgives
    omega
  have hzero : calls.countP PasswordCall.gives = 0 :=
    List.countP_eq_zero.2 fun x hx => by simp [hg x hx]
  simp only [PasswordCall.gives,if_true,Bool.false_eq_true,if_false] at hgives
  omega

theorem store {i n : Nat} {rateLimiting : Bool} {second : Int}
    (h : CountInv last num now lock calls)
    (hc : calls[i]? = some ⟨rateLimiting,.givingBack n,second⟩) :
    0 < num ∧ n = num ∧
      CountInv last (num-1) now lock (calls.set i ⟨rateLimiting,.right,second⟩) := by
  obtain ⟨hn,hsecond⟩ := h.reading _ (List.mem_of_getElem? hc) rfl
  obtain rfl : n = num := by simpa using hn
  obtain rfl : second = last := hsecond
  have hheld : ∀ t, heldIn (calls.set i ⟨rateLimiting,.right,second⟩) t+
      (if t = second then 1 else 0) = heldIn calls t := by
    intro t
    have hset := Counting.countP_set_add (p := PasswordCall.held t) hc ⟨rateLimiting,.right,second⟩
    simpa [heldIn,PasswordCall.held,eq_comm] using hset
  have hgives := Counting.countP_set_add (p := PasswordCall.gives) hc ⟨rateLimiting,.right,second⟩
  have hsingle := h.single
  simp only [PasswordCall.gives,if_true,Bool.false_eq_true,if_false] at hgives
  have hzero : (calls.set i ⟨rateLimiting,.right,second⟩).countP PasswordCall.gives = 0 := by omega
  have hlast := hheld second
  rw [if_pos rfl] at hlast
  have hcov := h.covered
  have hbound := h.bounded
  refine ⟨by omega,rfl,h.nonneg,h.le_now,h.pos,?_,?_,by omega,?_,by omega,by omega,
    h.locked_set hc (by simp)⟩
  · intro t ht
    have := hheld t
    have := h.later t ht
    omega
  · intro t
    have := hheld t
    have := h.few t
    omega
  · intro x hx hgx
    exact absurd hgx (by simpa using (List.countP_eq_zero.1 hzero) x hx)

end CountInv

namespace Guessing

variable {s : Guessing}

def Inv (s : Guessing) : Prop :=
  CountInv s.limiter.lastPasswordAttempt s.limiter.numPasswordAttempts s.now s.lock s.calls

theorem gives_eq_false (h : s.giving = false) : ∀ c ∈ s.calls, c.gives = false := by
  intro c hc
  simpa using (List.any_eq_false.1 h) c hc

theorem Inv.enter (h : s.Inv) (rateLimiting : Bool) (hc : s.calm (.enter rateLimiting) = true) :
    (s.enter rateLimiting).Inv := by
  obtain ⟨⟨last,num⟩,now,lock,calls⟩ := s
  cases lock with
  | some i => exact h
  | none =>
    by_cases hcounts : (⟨last,num⟩ : Limiter).counts rateLimiting now = true
    · simp only [Guessing.enter,hcounts,Option.isSome_none,Bool.false_eq_true,if_false,if_true]
      simp only [Limiter.counts,Bool.and_eq_true,decide_eq_true_eq] at hcounts
      obtain ⟨⟨rfl,-⟩,rfl⟩ := hcounts
      simp only [calm,Bool.and_eq_true,Bool.not_eq_true',decide_eq_true_eq] at hc
      rw [Limiter.count_eq hc.2]
      refine CountInv.count h (gives_eq_false hc.1) hc.2 ?_
      by_cases hle : num+1 ≤ MAX_PASSWORD_ATTEMPTS_PER_SECOND
      · exact .inr ⟨if_pos hle,hle⟩
      · exact .inl (if_neg hle)
    simp only [Guessing.enter,hcounts,Option.isSome_none,Bool.false_eq_true,if_false]
    have hle : last ≤ now := h.le_now
    have hpos : 0 < now := h.pos
    have hlt : last < now := by
      cases rateLimiting with
      | false =>
        simp only [calm,decide_eq_true_eq] at hc
        omega
      | true =>
        simp only [Limiter.counts,Bool.true_and,Bool.and_eq_true,decide_eq_true_eq,
          not_and] at hcounts
        omega
    exact CountInv.wait h hlt rateLimiting

theorem Inv.step (h : s.Inv) (e : GuessEvent) (hcalm : s.calm e = true) : (s.step e).Inv := by
  cases e with
  | tick => exact CountInv.tick h
  | enter rateLimiting => exact h.enter rateLimiting hcalm
  | restart i =>
    simp only [Guessing.step]
    split
    · rename_i j c hlock hc
      split
      · subst j
        rw [Inv,hlock] at h
        exact h.restart (gives_eq_false (by simpa [calm] using hcalm)) hc
      · exact h
    · exact h
  | hashed i fits =>
    simp only [Guessing.step]
    split
    · rename_i hc
      cases fits with
      | false => exact h.hashed hc (.inl rfl)
      | true =>
        simp only [calm,hc,Option.all_some,Bool.and_eq_true,Bool.not_eq_true',
          decide_eq_true_eq] at hcalm
        obtain ⟨hg,rfl⟩ := hcalm
        exact h.hashed hc (.inr ⟨rfl,rfl,gives_eq_false hg⟩)
    · exact h
  | store i =>
    simp only [Guessing.step]
    split
    · rename_i hc
      obtain ⟨hpos,rfl,hinv⟩ := CountInv.store h hc
      rw [Limiter.giveBack_eq hpos h.bounded]
      exact hinv
    · exact h

theorem wrongIn_le_heldIn (t : Int) : s.wrongIn t ≤ heldIn s.calls t := by
  refine List.countP_mono_left fun c _ h => ?_
  simp only [Bool.and_eq_true,decide_eq_true_eq] at h
  simp [PasswordCall.held,h.1.2,h.2]

/-- In a calm run no second sees more than the allowed number of wrong passwords. -/
theorem wrong_passwords_limited (now : Int) (es : List GuessEvent) (hnow : 0 < now)
    (hcalm : Machine.Meets Guessing.step calm (start now) es = true) (second : Int) :
    (Machine.run Guessing.step (start now) es).wrongIn second ≤
      MAX_PASSWORD_ATTEMPTS_PER_SECOND := by
  have hinv : (Machine.run Guessing.step (start now) es).Inv :=
    Machine.Meets.keeps (fun s e he hs => hs.step e he) (CountInv.start hnow) hcalm
  exact Nat.le_trans (wrongIn_le_heldIn second) (hinv.few second)

theorem wrong_passwords_limited_sample :
    (Machine.run Guessing.step (start 7)
      [.enter true,.restart 0,.hashed 0 false,.enter true,.hashed 1 true,.store 1,.enter true,
        .hashed 2 false,.enter true,.hashed 3 false,.enter true,.tick,.enter true]).wrongIn 7 = 3 ∧
    (Machine.run Guessing.step (start 7)
      [.enter true,.restart 0,.hashed 0 false,.enter true,.hashed 1 true,.store 1,.enter true,
        .hashed 2 false,.enter true,.hashed 3 false,.enter true,.tick,.enter true]).wrongIn 7 ≤
      MAX_PASSWORD_ATTEMPTS_PER_SECOND :=
  ⟨by decide,wrong_passwords_limited 7 _ (by decide) (by decide) 7⟩

/-- A check without rate limiting restarts the count within a second, and so does a right password
counted in the second before. -/
theorem more_wrong_passwords :
    (Machine.run Guessing.step (start 7)
      [.enter true,.restart 0,.hashed 0 false,.enter true,.hashed 1 false,.enter true,
        .hashed 2 false,.enter false,.restart 3,.enter true,.hashed 4 false]).wrongIn 7 = 4 ∧
    (Machine.run Guessing.step (start 7)
      [.enter true,.restart 0,.tick,.enter true,.restart 1,.hashed 1 false,.enter true,
        .hashed 2 false,.enter true,.hashed 3 false,.hashed 0 true,.store 0,.enter true,
        .hashed 4 false]).wrongIn 8 = 4 := by
  decide

end Guessing

end Lorentz
