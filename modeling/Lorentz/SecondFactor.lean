import Lorentz.Library.Bits
import Lorentz.Library.Utf8

/-!
The second factor: `hotp`, `totp` and `verifyTOTP`, and its secret in base32. HMAC-SHA1 is any
function from a key and a message to 20 bytes, and the clock may go backwards.
-/

set_option autoImplicit false

namespace Lorentz

def SHA1_DIGEST_SIZE : Nat := 20
def RFC6238_T0 : Int := 0
def RFC6238_X : Int := 30
def RFC6238_SECRET_LEN : Nat := 20
def RFC6238_DIGITS : Nat := 6

/-- `uint8_t out[SHA1_DIGEST_SIZE]`. -/
abbrev Digest := { out : List UInt8 // out.length = SHA1_DIGEST_SIZE }

abbrev TotpSecret := { key : List UInt8 // key.length = RFC6238_SECRET_LEN }

def htobe64 (counter : UInt64) : List UInt8 :=
  (List.range 8).map (fun i => (counter >>> (56-8*UInt64.ofNat i)).toUInt8)

def hotpMask (digits : Nat) : UInt32 := (List.range (digits-1)).foldl (fun mask _ => mask*10) 10

/-- `binary` and its remainder, or `none` if a byte outside of `out` is read. -/
def truncate (out : List UInt8) (digits : Nat) : Option UInt32 := do
  let last ← out[SHA1_DIGEST_SIZE-1]?
  let offset := (last &&& 0x0F).toNat
  let b0 ← out[offset]?
  let b1 ← out[offset+1]?
  let b2 ← out[offset+2]?
  let b3 ← out[offset+3]?
  let binary := (b0 &&& 0x7F).toUInt32 <<< 24 ||| b1.toUInt32 <<< 16 |||
    b2.toUInt32 <<< 8 ||| b3.toUInt32
  some (binary % hotpMask digits)

theorem nibble_lt (b : UInt8) : (b &&& 0x0F).toNat < 16 := by
  have h : (b &&& 0x0F).toNat = b.toNat % 16 := by
    exact Nat.and_two_pow_sub_one_eq_mod b.toNat 4
  omega

theorem truncate_isSome (out : Digest) (digits : Nat) : (truncate out.1 digits).isSome = true := by
  obtain ⟨out,hout⟩ := out
  have hread : ∀ i, i < 20 → ∃ b, out[i]? = some b := by
    intro i hi
    exact ⟨_,List.getElem?_eq_getElem (by rw [hout]; exact hi)⟩
  obtain ⟨last,hlast⟩ := hread 19 (by omega)
  have hoff := nibble_lt last
  obtain ⟨b0,h0⟩ := hread (last &&& 0x0F).toNat (by omega)
  obtain ⟨b1,h1⟩ := hread ((last &&& 0x0F).toNat+1) (by omega)
  obtain ⟨b2,h2⟩ := hread ((last &&& 0x0F).toNat+2) (by omega)
  obtain ⟨b3,h3⟩ := hread ((last &&& 0x0F).toNat+3) (by omega)
  simp only [truncate,SHA1_DIGEST_SIZE,hlast,h0,h1,h2,h3,Option.bind_eq_bind,Option.bind_some,
    Option.isSome_some]

section

variable (hmac : List UInt8 → List UInt8 → Digest)

def hotp (key : List UInt8) (counter : UInt64) (digits : Nat) : Option UInt32 :=
  truncate (hmac key (htobe64 counter)).1 digits

theorem hotp_isSome (key : List UInt8) (counter : UInt64) (digits : Nat) :
    (hotp hmac key counter digits).isSome = true :=
  truncate_isSome _ _

def timeStep (t : Int) : Nat := ((t-RFC6238_T0).tdiv RFC6238_X % 2^64).toNat

def totp (key : List UInt8) (now : Int) : Option UInt32 :=
  hotp hmac key (UInt64.ofNat (timeStep now)) RFC6238_DIGITS

def stepCode (key : List UInt8) (step : Nat) : Option UInt32 :=
  hotp hmac key (UInt64.ofNat step) RFC6238_DIGITS

end

theorem timeStep_eq {t : Int} (h0 : 0 ≤ t) (h : t < 2^63) : (timeStep t : Int) = t/30 := by
  have hd : t.tdiv 30 = t/30 := Int.tdiv_eq_ediv_of_nonneg h0
  simp only [timeStep,RFC6238_T0,RFC6238_X,Int.sub_zero,hd]
  omega

inductive TotpStatus where
  | invalid
  | correct
  | reused
  | rateLimit
  deriving DecidableEq, Repr

/-- The static variables `last_attempt` and `last_counter`. -/
structure TotpState where
  lastAttempt : Int
  lastCounter : Nat
  deriving DecidableEq, Repr

def TotpState.init : TotpState := ⟨0,0⟩

section

variable (hmac : List UInt8 → List UInt8 → Digest)

def scanWindow (secret : List UInt8) (now : Int) (incode : UInt32) (last : Nat) :
    List Int → Bool → TotpStatus × Nat
  | [], reused => (if reused then .reused else .invalid,last)
  | i :: is, reused =>
    let t := now+i*RFC6238_X
    if totp hmac secret t = some incode then
      if timeStep t ≤ last then scanWindow secret now incode last is true
      else (.correct,timeStep t)
    else scanWindow secret now incode last is reused

/-- `secret` is the configured one, `none` if it is unset or does not decode to 20 bytes. -/
def verifyTOTP (secret : Option TotpSecret) (now : Int) (incode : UInt32) (s : TotpState) :
    TotpStatus × TotpState :=
  if now = s.lastAttempt then (.rateLimit,s)
  else
    match secret with
    | none => (.invalid,{ s with lastAttempt := now })
    | some secret =>
      let r := scanWindow hmac secret.1 now incode s.lastCounter [-1,0,1] false
      (r.1,⟨now,r.2⟩)

variable (secret : List UInt8) (now : Int) (incode : UInt32) (last : Nat)

theorem scanWindow_spec (is : List Int) (reused : Bool) :
    ((scanWindow hmac secret now incode last is reused).1 = .correct ∧
      ∃ i ∈ is,
        (scanWindow hmac secret now incode last is reused).2 = timeStep (now+i*RFC6238_X) ∧
        last < timeStep (now+i*RFC6238_X) ∧ totp hmac secret (now+i*RFC6238_X) = some incode) ∨
    ((scanWindow hmac secret now incode last is reused).1 ≠ .correct ∧
      (scanWindow hmac secret now incode last is reused).2 = last ∧
      ∀ i ∈ is, totp hmac secret (now+i*RFC6238_X) = some incode →
        timeStep (now+i*RFC6238_X) ≤ last) := by
  induction is generalizing reused with
  | nil =>
    right
    cases reused <;> simp [scanWindow]
  | cons i is ih =>
    by_cases hcode : totp hmac secret (now+i*RFC6238_X) = some incode
    · by_cases hlast : timeStep (now+i*RFC6238_X) ≤ last
      · simp only [scanWindow,hcode,hlast,if_true]
        rcases ih true with ⟨hr,j,hj,h⟩ | ⟨hr,hl,h⟩
        · exact .inl ⟨hr,j,List.mem_cons_of_mem _ hj,h⟩
        · exact .inr ⟨hr,hl,by simpa [hlast] using h⟩
      · left
        simp only [scanWindow,hcode,hlast,if_true,if_false]
        exact ⟨trivial,i,List.mem_cons_self,rfl,by omega,hcode⟩
    · simp only [scanWindow,hcode,if_false]
      rcases ih reused with ⟨hr,j,hj,h⟩ | ⟨hr,hl,h⟩
      · exact .inl ⟨hr,j,List.mem_cons_of_mem _ hj,h⟩
      · exact .inr ⟨hr,hl,by simpa [hcode] using h⟩

end

/-- The state, and the accepted codes: submission and time step, the latest first. -/
structure TotpRun where
  state : TotpState
  accepted : List (Int × Nat)
  deriving DecidableEq, Repr

section

variable (hmac : List UInt8 → List UInt8 → Digest) (secret : TotpSecret)

def TotpRun.call (s : TotpRun) (c : Int × UInt32) : TotpRun :=
  let r := verifyTOTP hmac (some secret) c.1 c.2 s.state
  { state := r.2
    accepted := if r.1 = .correct then (c.1,r.2.lastCounter) :: s.accepted else s.accepted }

def totpRun (calls : List (Int × UInt32)) : TotpRun :=
  calls.foldl (TotpRun.call hmac secret) ⟨.init,[]⟩

def StepInWindow (now : Int) (step : Nat) : Prop := now/30-1 ≤ step ∧ (step : Int) ≤ now/30+1

instance (now : Int) (step : Nat) : Decidable (StepInWindow now step) :=
  inferInstanceAs (Decidable (_ ∧ _))

/-- The accepted steps increase and were in the window, and a further call that is not
rate limited accepts the code of a later step in the window, and no other. -/
structure TotpRun.OneTime (s : TotpRun) (now : Int) (incode : UInt32) : Prop where
  increasing : s.accepted.Pairwise (fun a b => b.2 < a.2)
  window : ∀ a ∈ s.accepted, StepInWindow a.1 a.2
  accepts : (verifyTOTP hmac (some secret) now incode s.state).1 ≠ .rateLimit →
    ((verifyTOTP hmac (some secret) now incode s.state).1 = .correct ↔
      ∃ step, StepInWindow now step ∧ (∀ a ∈ s.accepted, a.2 < step) ∧
        stepCode hmac secret.1 step = some incode)

/-- All steps of the window are after the first one, and the sums fit a `time_t`. -/
def ClockRead (now : Int) : Prop := 60 ≤ now ∧ now+30 < 2^63

instance (now : Int) : Decidable (ClockRead now) := inferInstanceAs (Decidable (_ ∧ _))

structure TotpRun.Inv (s : TotpRun) : Prop where
  increasing : s.accepted.Pairwise (fun a b => b.2 < a.2)
  window : ∀ a ∈ s.accepted, StepInWindow a.1 a.2
  last : s.state.lastCounter = (s.accepted.head?.map (·.2)).getD 0

variable {s : TotpRun} {now : Int}

theorem TotpRun.Inv.lt_iff (h : s.Inv) {step : Nat} (hstep : 0 < step) :
    s.state.lastCounter < step ↔ ∀ a ∈ s.accepted, a.2 < step := by
  rw [h.last]
  cases ha : s.accepted with
  | nil => simpa using hstep
  | cons a as =>
    have hp := h.increasing
    rw [ha,List.pairwise_cons] at hp
    simp only [List.head?_cons,Option.map_some,Option.getD_some,List.mem_cons,forall_eq_or_imp]
    refine ⟨fun hlt => ⟨hlt,fun b hb => ?_⟩,fun hlt => hlt.1⟩
    have := hp.1 b hb
    omega

section

variable (hnow : ClockRead now)
include hnow

theorem timeStep_window {i : Int} (hi : i ∈ [-1,0,1]) :
    (timeStep (now+i*RFC6238_X) : Int) = now/30+i := by
  obtain ⟨h0,h1⟩ := hnow
  simp only [List.mem_cons,List.not_mem_nil,or_false] at hi
  rw [timeStep_eq (by simp only [RFC6238_X]; omega) (by simp only [RFC6238_X]; omega)]
  simp only [RFC6238_X]
  omega

theorem exists_of_stepInWindow {step : Nat} (hstep : StepInWindow now step) :
    ∃ i ∈ [(-1 : Int),0,1], timeStep (now+i*RFC6238_X) = step := by
  obtain ⟨hlo,hhi⟩ := hstep
  have hi : (step : Int)-now/30 ∈ [(-1 : Int),0,1] := by
    simp only [List.mem_cons,List.not_mem_nil,or_false]
    omega
  refine ⟨_,hi,?_⟩
  have := timeStep_window hnow hi
  omega

theorem stepInWindow_timeStep {i : Int} (hi : i ∈ [-1,0,1]) :
    StepInWindow now (timeStep (now+i*RFC6238_X)) := by
  rw [StepInWindow,timeStep_window hnow hi]
  simp only [List.mem_cons,List.not_mem_nil,or_false] at hi
  omega

theorem stepInWindow_pos {step : Nat} (hstep : StepInWindow now step) : 0 < step := by
  obtain ⟨h0,-⟩ := hnow
  obtain ⟨hlo,-⟩ := hstep
  omega

end

/-- A call is rate limited, accepts a later step of the window, or keeps the last accepted step
and there was none to accept. -/
theorem verifyTOTP_spec (incode : UInt32) (h : s.Inv) (hnow : ClockRead now) :
    ((verifyTOTP hmac (some secret) now incode s.state) = (.rateLimit,s.state)) ∨
    (∃ step, verifyTOTP hmac (some secret) now incode s.state = (.correct,⟨now,step⟩) ∧
      StepInWindow now step ∧ (∀ a ∈ s.accepted, a.2 < step) ∧
        stepCode hmac secret.1 step = some incode) ∨
    (∃ status, status ≠ .correct ∧
      verifyTOTP hmac (some secret) now incode s.state = (status,⟨now,s.state.lastCounter⟩) ∧
      ∀ step, StepInWindow now step → (∀ a ∈ s.accepted, a.2 < step) →
        stepCode hmac secret.1 step ≠ some incode) := by
  by_cases hrate : now = s.state.lastAttempt
  · exact .inl (by simp [verifyTOTP,hrate])
  right
  simp only [verifyTOTP,hrate,if_false]
  rcases scanWindow_spec hmac secret.1 now incode s.state.lastCounter [-1,0,1] false with
    ⟨hr,i,hi,hstep,hlt,hcode⟩ | ⟨hr,hl,hno⟩
  · have hw := stepInWindow_timeStep hnow hi
    have hlater := (h.lt_iff (stepInWindow_pos hnow hw)).1 hlt
    exact .inl ⟨_,Prod.ext hr (by rw [hstep]),hw,hlater,hcode⟩
  refine .inr ⟨_,hr,by rw [hl],fun step hw hlater hcode => ?_⟩
  obtain ⟨i,hi,rfl⟩ := exists_of_stepInWindow hnow hw
  have := hno i hi hcode
  have := (h.lt_iff (stepInWindow_pos hnow hw)).2 hlater
  omega

theorem TotpRun.Inv.call (incode : UInt32) (h : s.Inv) (hnow : ClockRead now) :
    (s.call hmac secret (now,incode)).Inv := by
  rcases verifyTOTP_spec hmac secret incode h hnow with
    hv | ⟨step,hv,hw,hlater,-⟩ | ⟨status,hne,hv,-⟩
  · simpa [TotpRun.call,hv] using h
  · simp only [TotpRun.call,hv,if_true]
    exact ⟨List.pairwise_cons.2 ⟨hlater,h.increasing⟩,
      List.forall_mem_cons.2 ⟨hw,h.window⟩,rfl⟩
  · simp only [TotpRun.call,hv,hne,if_false]
    exact ⟨h.increasing,h.window,h.last⟩

theorem totpRun_inv {calls : List (Int × UInt32)} (h : ∀ c ∈ calls, ClockRead c.1) :
    (totpRun hmac secret calls).Inv := by
  have hrun : ∀ (calls : List (Int × UInt32)) (s : TotpRun), s.Inv →
      (∀ c ∈ calls, ClockRead c.1) → (calls.foldl (TotpRun.call hmac secret) s).Inv := by
    intro calls
    induction calls with
    | nil => exact fun _ hs _ => hs
    | cons c calls ih =>
      intro s hs hc
      obtain ⟨hc,hcs⟩ := List.forall_mem_cons.1 hc
      exact ih _ (hs.call hmac secret c.2 hc) hcs
  exact hrun calls _ ⟨List.Pairwise.nil,by simp,rfl⟩ h

/-- In every run the readings of which are late enough, codes are accepted once. -/
theorem totp_codes_one_time (calls : List (Int × UInt32)) (now : Int) (incode : UInt32)
    (h : ∀ c ∈ calls, ClockRead c.1) (hnow : ClockRead now) :
    (totpRun hmac secret calls).OneTime hmac secret now incode ∧
      ∀ key counter digits, (hotp hmac key counter digits).isSome = true := by
  have hinv := totpRun_inv hmac secret h
  refine ⟨⟨hinv.increasing,hinv.window,fun hrate => ?_⟩,fun _ _ _ => hotp_isSome _ _ _ _⟩
  rcases verifyTOTP_spec hmac secret incode hinv hnow with
    hv | ⟨step,hv,hw,hlater,hcode⟩ | ⟨status,hne,hv,hno⟩
  · simp [hv] at hrate
  · simpa only [hv,true_iff] using ⟨step,hw,hlater,hcode⟩
  · simp only [hv,hne,false_iff,not_exists,not_and]
    exact hno

end

def sampleHmac (_ msg : List UInt8) : Digest :=
  if msg = htobe64 0 then ⟨List.replicate 20 0,rfl⟩ else ⟨List.replicate 20 1,rfl⟩

def sampleSecret : TotpSecret := ⟨List.replicate 20 7,rfl⟩

theorem totp_codes_one_time_sample :
    (totpRun sampleHmac sampleSecret [(90,843009)]).accepted = [(90,2)] ∧
      ((totpRun sampleHmac sampleSecret [(90,843009)]).OneTime sampleHmac sampleSecret
          150 843009 ∧
        ∀ key counter digits, (hotp sampleHmac key counter digits).isSome = true) :=
  ⟨by decide,totp_codes_one_time sampleHmac sampleSecret [(90,843009)] 150 843009
    (by decide) (by decide)⟩

/-- Right after the epoch the code of step 0 is refused as used, and at the epoch itself the step
before it is the last of 64 bits. -/
theorem totp_codes_after_epoch :
    ¬ (totpRun sampleHmac sampleSecret []).OneTime sampleHmac sampleSecret 10 0 ∧
      ¬ ∀ a ∈ (totpRun sampleHmac sampleSecret [(5,1),(0,843009)]).accepted,
        StepInWindow a.1 a.2 := by
  constructor
  · intro h
    have hstatus : (verifyTOTP sampleHmac (some sampleSecret) 10 0
        (totpRun sampleHmac sampleSecret []).state).1 = .reused := by decide
    have hiff := h.accepts (by rw [hstatus]; decide)
    have hfresh : ∃ step, StepInWindow 10 step ∧
        (∀ a ∈ (totpRun sampleHmac sampleSecret []).accepted, a.2 < step) ∧
          stepCode sampleHmac sampleSecret.1 step = some 0 :=
      ⟨0,by decide,by decide,by decide⟩
    exact absurd (hiff.2 hfresh) (by decide)
  · decide

open Bits CString List

def base32Alphabet : List Char := "ABCDEFGHIJKLMNOPQRSTUVWXYZ234567".toList

/-- `decode_base32_to_uint8_array` of the string in a buffer; `none` is also a read behind the
buffer. -/
def decodeBase32 (base32 : List Char) (outLen : Nat) : Option (List UInt8) := do
  let len ← strlen base32
  if outLen = 0 ∨ outLen*8/5 < len ∨ outLen*8%5 ≠ 0 then none
  else
    let values ← (base32.take len).mapM (fun c => base32Alphabet.idxOf? c.toUpper)
    let out ← regroup 5 8 values outLen
    some (out.map UInt8.ofNat)

/-- `encode_uint8_t_array_to_base32`: what the buffer holds in the end. -/
def encodeBase32 (bytes : List UInt8) (base32Len : Nat) : Option (List Char) :=
  if bytes.length = 0 ∨ bytes.length > base32Len*5/8 ∨ bytes.length%5 ≠ 0 then none
  else do
    let base32 ← regroup 8 5 (bytes.map UInt8.toNat) base32Len
    let base32Pos := (bytes.length*8-1)/5
    let text ← (base32.take (base32Pos+1)).mapM (base32Alphabet[·]?)
    some (text ++ (base32.drop (base32Pos+1)).map Char.ofNat)

def base32Char (a : Nat) : Char := base32Alphabet.getD a 'A'

theorem base32Char_spec : ∀ a < 32, base32Alphabet[a]? = some (base32Char a) ∧
    base32Char a ≠ NUL ∧ base32Alphabet.idxOf? (base32Char a) = some a ∧
    (base32Char a).toUpper = base32Char a := by
  decide

theorem mapM_some {α β γ : Type} {l : List α} {g : α → β} {f : β → Option γ} {h : α → γ}
    (hf : ∀ a ∈ l, f (g a) = some (h a)) : (l.map g).mapM f = some (l.map h) := by
  induction l with
  | nil => rfl
  | cons a l ih =>
    rw [map_cons,mapM_cons,hf a (by simp),ih fun b hb => hf b (by simp [hb])]
    rfl

theorem exists_values {text : List Char} (hc : ∀ c ∈ text, c.toUpper ∈ base32Alphabet) :
    ∃ values, text.mapM (fun c => base32Alphabet.idxOf? c.toUpper) = some values ∧
      values.map base32Char = text.map Char.toUpper ∧ ∀ a ∈ values, a < 32 := by
  induction text with
  | nil => exact ⟨[],rfl,rfl,by simp⟩
  | cons c text ih =>
    obtain ⟨values,hvalues,hmap,hlt⟩ := ih fun d hd => hc d (by simp [hd])
    obtain ⟨a,ha,hac⟩ := getElem_of_mem (hc c (by simp))
    obtain ⟨hget,-,hidx,-⟩ := base32Char_spec a ha
    rw [getElem?_eq_getElem ha,hac,Option.some_inj] at hget
    refine ⟨a :: values,?_,by simp [hget,hmap],?_⟩
    · rw [mapM_cons,hget,hidx,hvalues]
      rfl
    · simpa using ⟨ha,hlt⟩

section

variable {n room : Nat} {bytes : List UInt8} {values : List Nat}

theorem encodeBase32_eq (hn : 0 < n) (hb : bytes.length = 5*n) (hroom : 8*n ≤ room)
    (hl : values.length = 8*n) (hv : ∀ a ∈ values, a < 32)
    (h : regroup 8 5 (bytes.map UInt8.toNat) room = some (values ++ replicate (room-8*n) 0)) :
    encodeBase32 bytes room = some (values.map base32Char ++ replicate (room-8*n) NUL) := by
  have hpos : (5*n*8-1)/5+1 = values.length := by omega
  have htext := mapM_some (g := id) (f := (base32Alphabet[·]?)) (h := base32Char)
    fun a ha => (base32Char_spec a (hv a ha)).1
  rw [map_id] at htext
  rw [encodeBase32,if_neg (by omega),h]
  simp only [hb,hpos,Option.bind_eq_bind,Option.bind_some,take_left,drop_left,htext,map_replicate]
  rfl

theorem decodeBase32_eq {base32 text junk : List Char} (hb : Holds base32 text junk) (hn : 0 < n)
    (ht : text.length = 8*n)
    (hv : text.mapM (fun c => base32Alphabet.idxOf? c.toUpper) = some values)
    (h : regroup 5 8 values (5*n) = some (bytes.map UInt8.toNat)) :
    decodeBase32 base32 (5*n) = some bytes := by
  have htake : base32.take text.length = text := by rw [hb.2,take_left]
  rw [decodeBase32,hb.strlen_eq]
  simp only [Option.bind_eq_bind,Option.bind_some]
  rw [if_neg (by omega),htake,hv]
  simp only [Option.bind_some,h,map_map]
  exact congrArg some (map_id'' (fun b => UInt8.ofNat_toNat) bytes)

/-- The encoder stays inside of every buffer that it accepts, and the bytes are read back from
those that have room for a NUL; a text in a buffer is read and written in upper case. -/
theorem base32_round_trips (n : Nat) (hn : 0 < n) :
    (∀ (bytes : List UInt8) (room : Nat), bytes.length = 5*n → 8*n ≤ room →
      ∃ base32, encodeBase32 bytes room = some base32 ∧ base32.length = room ∧
        (decodeBase32 base32 (5*n) = some bytes ↔ 8*n < room)) ∧
    ∀ (base32 text junk : List Char) (room : Nat), Holds base32 text junk → text.length = 8*n →
      (∀ c ∈ text, c.toUpper ∈ base32Alphabet) → 8*n ≤ room →
      ∃ bytes, decodeBase32 base32 (5*n) = some bytes ∧
        encodeBase32 bytes room = some (text.map Char.toUpper ++ replicate (room-8*n) NUL) := by
  constructor
  · intro bytes room hb hroom
    have hn' : (bytes.map UInt8.toNat).length*8 = 8*n*5 := by
      rw [length_map,hb]
      omega
    have hbyte : ∀ a ∈ bytes.map UInt8.toNat, a < 2^8 := by simpa using fun a _ => a.toNat_lt
    obtain ⟨values,hvalues,hl,hlt,hbit⟩ := regroup_spec (by decide) hn' hroom
    have hback := regroup_regroup (by decide) hbyte hn' hl hbit (Nat.le_refl _)
    have hnul : NUL ∉ values.map base32Char := by
      intro hnul
      obtain ⟨a,ha,hnul⟩ := mem_map.mp hnul
      exact (base32Char_spec a (hlt a ha)).2.1 hnul
    refine ⟨_,encodeBase32_eq hn hb hroom hl hlt hvalues,by simp [hl]; omega,fun hd => ?_,
      fun hlarge => ?_⟩
    · -- without room for a NUL there is none
      by_contra hfull
      have hzero : room-8*n = 0 := by omega
      simp [decodeBase32,strlen,hzero,hnul] at hd
    obtain ⟨k,hk⟩ : ∃ k, room-8*n = k+1 := ⟨room-8*n-1,by omega⟩
    rw [hk,replicate_succ]
    refine decodeBase32_eq ⟨hnul,rfl⟩ hn (by simp [hl]) ?_ (by simpa [hb] using hback)
    refine (mapM_some (h := id) fun a ha => ?_).trans (by simp)
    obtain ⟨-,-,hidx,hup⟩ := base32Char_spec a (hlt a ha)
    rw [hup,hidx]
    rfl
  intro base32 text junk room hb ht hc hroom
  obtain ⟨values,hvalues,hmap,hlt⟩ := exists_values hc
  have hl : values.length = 8*n := by simpa [ht] using congrArg length hmap
  have hn' : values.length*5 = 5*n*8 := by omega
  obtain ⟨out,hout,hol,hbyte,hbit⟩ := regroup_spec (by decide) hn' (Nat.le_refl _)
  have hback := regroup_regroup (by decide) hlt hn' hol hbit (hl ▸ hroom)
  have hnat : (out.map UInt8.ofNat).map UInt8.toNat = out := by
    rw [map_map]
    refine (map_congr_left fun a ha => ?_).trans (map_id out)
    exact UInt8.toNat_ofNat_of_lt (hbyte a ha)
  refine ⟨out.map UInt8.ofNat,decodeBase32_eq hb hn ht hvalues (by simpa [hnat] using hout),?_⟩
  rw [← hmap]
  exact encodeBase32_eq hn (by simp [hol]) hroom hl hlt (by rw [hnat,hback,hl])

theorem base32_round_trips_five :
    0 < 1 ∧ ∃ base32, encodeBase32 [0,1,2,3,255] 9 = some base32 ∧ base32.length = 9 ∧
      (decodeBase32 base32 5 = some [0,1,2,3,255] ↔ 8 < 9) :=
  ⟨by decide,(base32_round_trips 1 (by decide)).1 [0,1,2,3,255] 9 rfl (by decide)⟩

/-- In a buffer of eight characters the text has no NUL, and the decoder reads behind it. -/
theorem base32_unterminated :
    encodeBase32 [0,1,2,3,255] 8 = some "AAAQEA77".toList ∧
      decodeBase32 "AAAQEA77".toList 5 = none := by
  decide

end

end Lorentz
