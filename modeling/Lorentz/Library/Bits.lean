import Mathlib

/-!
The bits of numbers, the highest of each first, and numbers of another width with the same bits;
an `unsigned int` that is passed where an `int` is expected, and records of a code, a length
and as many bytes.
-/

set_option autoImplicit false

def cInt (x : UInt32) : Int := if x.toNat < 2^31 then x.toNat else (x.toNat : Int)-2^32

theorem cInt_of_lt {x : UInt32} (h : x.toNat < 2^31) : cInt x = x.toNat := if_pos h

theorem cInt_ofNat {n : Nat} (h : n < 2^31) : cInt (UInt32.ofNat n) = n := by
  have hn : (UInt32.ofNat n).toNat = n := by
    exact Nat.mod_eq_of_lt (by omega)
  rw [cInt_of_lt (hn.symm ▸ h),hn]

namespace Bits

def bit (a : List UInt8) (i : Nat) : Bool := (a.getD (i/8) 0).toNat.testBit (7-i%8)

def Agree (p : Nat) (a b : List UInt8) : Prop := ∀ i < p, bit a i = bit b i

instance (p : Nat) (a b : List UInt8) : Decidable (Agree p a b) := by
  unfold Agree
  infer_instance

def setBit (m : List UInt8) (i : Nat) : List UInt8 :=
  m.modify (i/8) (fun c => c ||| (1 <<< UInt8.ofNat (7-i%8)))

/-- The mask of the first `p` bits, set one after the other. -/
def bitmask (size p : Nat) : List UInt8 := (List.range p).foldl setBit (List.replicate size 0)

def sameMasked (size : Nat) (m a b : List UInt8) : Bool :=
  (List.range size).all (fun i => a.getD i 0 &&& m.getD i 0 = b.getD i 0 &&& m.getD i 0)

theorem toNat_shift {k : Nat} (h : k ≤ 7) : ((1 : UInt8) <<< UInt8.ofNat k).toNat = 2^k := by
  revert k
  decide

@[simp] theorem length_setBit (m : List UInt8) (i : Nat) : (setBit m i).length = m.length := by
  simp [setBit]

theorem bit_setBit {m : List UInt8} {i : Nat} (h : i/8 < m.length) (j : Nat) :
    bit (setBit m i) j = (bit m j || decide (i = j)) := by
  unfold bit setBit
  by_cases hij : i/8 = j/8
  · rw [hij] at h
    rw [List.getD_eq_getElem _ _ (by simpa using h),List.getD_eq_getElem _ _ h,hij,
      List.getElem_modify_eq,UInt8.toNat_or,Nat.testBit_or,toNat_shift (by omega),
      Nat.testBit_two_pow]
    congr 1
    rw [decide_eq_decide]
    omega
  · have hne : i ≠ j := by
      rintro rfl
      exact hij rfl
    simp [List.getD_eq_getElem?_getD,hij,hne]

theorem bitmask_succ (size p : Nat) : bitmask size (p+1) = setBit (bitmask size p) p := by
  simp [bitmask,List.range_succ]

@[simp] theorem length_bitmask (size p : Nat) : (bitmask size p).length = size := by
  induction p with
  | zero => simp [bitmask]
  | succ p ih => rw [bitmask_succ,length_setBit,ih]

theorem bit_bitmask {size p : Nat} (h : p ≤ 8*size) (j : Nat) :
    bit (bitmask size p) j = decide (j < p) := by
  induction p with
  | zero => simp [bitmask,bit]
  | succ p ih =>
    rw [bitmask_succ,bit_setBit (by rw [length_bitmask]; omega),ih (by omega),← Bool.decide_or,
      decide_eq_decide]
    omega

theorem and_eq_and_iff (c d m : UInt8) :
    c &&& m = d &&& m ↔
      ∀ k ≤ 7, m.toNat.testBit k = true → c.toNat.testBit k = d.toNat.testBit k := by
  rw [← UInt8.toNat_inj,UInt8.toNat_and,UInt8.toNat_and]
  constructor
  · intro h k _ hm
    have hk := congrArg (fun n => n.testBit k) h
    simpa [hm] using hk
  intro h
  refine Nat.eq_of_testBit_eq fun k => ?_
  rw [Nat.testBit_and,Nat.testBit_and]
  by_cases hk : k ≤ 7
  · cases hm : m.toNat.testBit k with
    | false => simp
    | true => rw [h k hk hm]
  · have hlt : m.toNat < 2^k :=
      Nat.lt_of_lt_of_le m.toNat_lt (Nat.pow_le_pow_right (by omega) (by omega))
    rw [Nat.testBit_lt_two_pow hlt,Bool.and_false,Bool.and_false]

theorem sameMasked_bitmask {size p : Nat} (h : p ≤ 8*size) (a b : List UInt8) :
    sameMasked size (bitmask size p) a b = true ↔ Agree p a b := by
  simp only [sameMasked,List.all_eq_true,List.mem_range,decide_eq_true_eq,and_eq_and_iff]
  constructor
  · intro hall i hi
    refine hall (i/8) (by omega) (7-i%8) (by omega) ?_
    have hbit := bit_bitmask h i
    rwa [decide_eq_true hi] at hbit
  intro hagree i hi k hk hm
  -- bit `k` of byte `i` is the one at position `8*i+(7-k)`
  have hdiv : (8*i+(7-k))/8 = i := by omega
  have hmod : 7-(8*i+(7-k))%8 = k := by omega
  have hbit : bit (bitmask size p) (8*i+(7-k)) = true := by rw [bit,hdiv,hmod,hm]
  rw [bit_bitmask h,decide_eq_true_eq] at hbit
  have hsame := hagree _ hbit
  rwa [bit,bit,hdiv,hmod] at hsame

theorem bit_append_zeros (a : List UInt8) (n i : Nat) :
    bit (a ++ List.replicate n 0) i = bit a i := by
  unfold bit
  congr 2
  by_cases h : i/8 < a.length
  · rw [List.getD_append _ _ _ _ h]
  · have hle : a.length ≤ i/8 := by omega
    rw [List.getD_append_right _ _ _ _ hle,List.getD_eq_default _ _ hle]
    simp

theorem agree_append_zeros (p n m : Nat) (a b : List UInt8) :
    Agree p (a ++ List.replicate n 0) (b ++ List.replicate m 0) ↔ Agree p a b := by
  simp only [Agree,bit_append_zeros]

/-- Bit `p` of numbers of `w` bits, the highest bit of each first. -/
def bitOf (w : Nat) (as : List Nat) (p : Nat) : Bool := (as.getD (p/w) 0).testBit (w-1-p%w)

def orBit (v : Nat) (out : List Nat) (p : Nat) (b : Bool) : Option (List Nat) :=
  if p/v < out.length then some (out.modify (p/v) (· ||| (b.toNat <<< (v-1-p%v)))) else none

/-- The bits of numbers of `w` bits as numbers of `v` bits; `none` is a place behind them. -/
def regroup (w v : Nat) (as : List Nat) (len : Nat) : Option (List Nat) :=
  (List.range (as.length*w)).foldlM (fun out p => orBit v out p (bitOf w as p))
    (List.replicate len 0)

section

variable {w v n len : Nat} {as bs out : List Nat}

theorem bitOf_orBit {p : Nat} {b : Bool} (hv : 0 < v) (h : p/v < out.length) :
    ∃ out', orBit v out p b = some out' ∧ out'.length = out.length ∧
      ((∀ a ∈ out, a < 2^v) → ∀ a ∈ out', a < 2^v) ∧
      ∀ q, bitOf v out' q = (bitOf v out q || (decide (p = q) && b)) := by
  refine ⟨_,if_pos h,by simp,fun ha a hmem => ?_,fun q => ?_⟩
  · obtain ⟨i,hi,rfl⟩ := List.getElem_of_mem hmem
    have hold := ha _ (List.getElem_mem (by simpa using hi : i < out.length))
    rw [List.getElem_modify]
    split
    · refine Nat.or_lt_two_pow hold ?_
      rw [Nat.shiftLeft_eq]
      calc b.toNat*2^(v-1-p%v) ≤ 1*2^(v-1-p%v) := Nat.mul_le_mul_right _ (Bool.toNat_le b)
        _ = 2^(v-1-p%v) := Nat.one_mul _
        _ < 2^v := Nat.pow_lt_pow_right (by decide) (by omega)
    · exact hold
  unfold bitOf
  by_cases hpq : p/v = q/v
  · have hq := hpq ▸ h
    have hp := Nat.div_add_mod p v
    have hq' := Nat.div_add_mod q v
    have hm := Nat.mod_lt p hv
    have hm' := Nat.mod_lt q hv
    rw [List.getD_eq_getElem _ _ (by simpa using hq),List.getD_eq_getElem _ _ hq,hpq,
      List.getElem_modify_eq,Nat.testBit_or,Nat.testBit_shiftLeft]
    rw [hpq] at hp
    congr 1
    cases b with
    | false => simp
    | true =>
      rw [Bool.eq_iff_iff]
      simp only [Bool.toNat_true,Bool.and_eq_true,decide_eq_true_eq,and_true,
        Nat.testBit_one_eq_true_iff_self_eq_zero]
      omega
  · have hne : p ≠ q := by
      rintro rfl
      exact hpq rfl
    simp [List.getD_eq_getElem?_getD,hpq,hne]

theorem regroup_loop (hv : 0 < v) (hn : n ≤ len*v) (bit : Nat → Bool) :
    ∃ out, (List.range n).foldlM (fun out p => orBit v out p (bit p)) (List.replicate len 0) =
        some out ∧ out.length = len ∧ (∀ a ∈ out, a < 2^v) ∧
          ∀ q, bitOf v out q = (decide (q < n) && bit q) := by
  induction n with
  | zero =>
    refine ⟨_,rfl,by simp,?_,fun q => ?_⟩
    · intro a ha
      rw [List.eq_of_mem_replicate ha]
      exact Nat.two_pow_pos v
    · simp [bitOf,List.getD_eq_getElem?_getD]
  | succ n ih =>
    obtain ⟨out,hout,hlen,hlt,hbit⟩ := ih (by omega)
    have hin : n/v < out.length := by
      rw [hlen]
      exact Nat.div_lt_of_lt_mul (by rw [Nat.mul_comm]; omega)
    obtain ⟨out',hout',hlen',hlt',hbit'⟩ := bitOf_orBit (b := bit n) hv hin
    refine ⟨out',?_,hlen'.trans hlen,hlt' hlt,fun q => ?_⟩
    · rw [List.range_succ,List.foldlM_append,hout]
      simpa using hout'
    rw [hbit',hbit]
    by_cases hq : q = n
    · simp [hq]
    · have hlt : q < n+1 ↔ q < n := by omega
      simp [hlt,Ne.symm hq]

theorem testBit_getElem {i k : Nat} (hi : i < as.length) (hk : k < w) :
    as[i].testBit k = bitOf w as (i*w+(w-1-k)) := by
  rw [bitOf,Nat.add_comm,Nat.add_mul_div_right _ _ (by omega),Nat.div_eq_of_lt (by omega),
    Nat.zero_add,Nat.add_mul_mod_self_right,Nat.mod_eq_of_lt (by omega),List.getD_eq_getElem _ _ hi]
  congr 1
  omega

theorem eq_of_bitOf (hlen : as.length = bs.length) (ha : ∀ a ∈ as, a < 2^w)
    (hb : ∀ b ∈ bs, b < 2^w) (h : ∀ q < as.length*w, bitOf w as q = bitOf w bs q) : as = bs := by
  refine List.ext_getElem hlen fun i hi hi' => Nat.eq_of_testBit_eq fun k => ?_
  by_cases hk : k < w
  · have hq := Nat.mul_le_mul_right w hi
    rw [Nat.succ_mul] at hq
    rw [testBit_getElem hi hk,testBit_getElem hi' hk,h _ (by omega)]
  · have hpow : 2^w ≤ 2^k := Nat.pow_le_pow_right (by decide) (by omega)
    rw [Nat.testBit_lt_two_pow (Nat.lt_of_lt_of_le (ha _ (List.getElem_mem hi)) hpow),
      Nat.testBit_lt_two_pow (Nat.lt_of_lt_of_le (hb _ (List.getElem_mem hi')) hpow)]

theorem bitOf_take {q : Nat} (h : q < n*w) : bitOf w (as.take n) q = bitOf w as q := by
  have hq : q/w < n := Nat.div_lt_of_lt_mul (by rwa [Nat.mul_comm])
  rw [bitOf,bitOf,List.getD_eq_getElem?_getD,List.getD_eq_getElem?_getD,List.getElem?_take_of_lt hq]

/-- What `regroup` leaves: the bits, and zeros behind them. -/
theorem regroup_spec (hv : 0 < v) (hn : as.length*w = n*v) (hlen : n ≤ len) :
    ∃ out, regroup w v as len = some (out ++ List.replicate (len-n) 0) ∧ out.length = n ∧
      (∀ a ∈ out, a < 2^v) ∧ ∀ q < n*v, bitOf v out q = bitOf w as q := by
  have hle : as.length*w ≤ len*v := hn ▸ Nat.mul_le_mul_right v hlen
  obtain ⟨out,hout,hl,hlt,hbit⟩ := regroup_loop hv hle (bitOf w as)
  have htake : (out.take n).length = n := by simp [hl,hlen]
  refine ⟨out.take n,?_,htake,fun a ha => hlt a (List.mem_of_mem_take ha),fun q hq => ?_⟩
  · rw [regroup,hout]
    refine congrArg some (eq_of_bitOf (w := v) (by simp [hl]; omega) hlt ?_ fun q _ => ?_)
    · intro a ha
      obtain ha | ha := List.mem_append.mp ha
      · exact hlt a (List.mem_of_mem_take ha)
      · exact List.eq_of_mem_replicate ha ▸ Nat.two_pow_pos v
    by_cases hq : q < n*v
    · have hq' : q/v < n := Nat.div_lt_of_lt_mul (by rwa [Nat.mul_comm])
      rw [← bitOf_take hq,bitOf,bitOf,List.getD_append _ _ _ _ (htake.symm ▸ hq')]
    have hq' : n ≤ q/v := (Nat.le_div_iff_mul_le hv).mpr (by omega)
    rw [hbit,hn,decide_eq_false hq,Bool.false_and,bitOf,
      List.getD_append_right _ _ _ _ (htake.symm ▸ hq')]
    simp [List.getD_eq_getElem?_getD]
  · rw [bitOf_take hq,hbit,hn]
    simp [hq]

/-- Regrouped and back, the numbers are those of before. -/
theorem regroup_regroup (hw : 0 < w) (ha : ∀ a ∈ as, a < 2^w) (hn : as.length*w = n*v)
    (hl : out.length = n) (hbit : ∀ q < n*v, bitOf v out q = bitOf w as q)
    (hlen : as.length ≤ len) :
    regroup v w out len = some (as ++ List.replicate (len-as.length) 0) := by
  have hn' : out.length*v = as.length*w := by rw [hl,hn]
  obtain ⟨back,hback,hbl,hlt,hbb⟩ := regroup_spec hw hn' hlen
  rw [hback,eq_of_bitOf hbl hlt ha fun q hq => ?_]
  rw [hbl] at hq
  rw [hbb q hq,hbit q (hn ▸ hq)]

end

end Bits

namespace Tlv

def short (b : List UInt8) (p : Nat) : Option Nat :=
  match b[p]?, b[p+1]? with
  | some hi, some lo => some (hi.toNat*256+lo.toNat)
  | _, _ => none

def bytes (b : List UInt8) (p n : Nat) : Option (List UInt8) :=
  if p+n ≤ b.length then some ((b.drop p).take n) else none

variable {b : List UInt8} {n p : Nat}

theorem bytes_eq (h : p+n ≤ b.length) : bytes b p n = some ((b.drop p).take n) :=
  if_pos h

theorem short_drop (b : List UInt8) (p k : Nat) : short (b.drop p) k = short b (p+k) := by
  simp [short,Nat.add_assoc]

theorem short_take (h : p+2 ≤ n) : short (b.take n) p = short b p := by
  have h1 : p < n := by omega
  have h2 : p+1 < n := by omega
  simp [short,h1,h2]

theorem short_isSome (h : p+2 ≤ b.length) : ∃ n, short b p = some n := by
  have h1 : p < b.length := by omega
  have h2 : p+1 < b.length := by omega
  simp [short,h1,h2]

theorem short_eq_none (h : b.length < p+2) : short b p = none := by
  have hnone : b[p+1]? = none := List.getElem?_eq_none (by omega)
  rw [short,hnone]
  split
  · rename_i h2
    cases h2
  · rfl

def records : Nat → List UInt8 → List (Nat × List UInt8)
  | 0, _ => []
  | fuel+1, b =>
    match short b 0, short b 2 with
    | some code, some n =>
      if 4+n ≤ b.length then (code,(b.drop 4).take n) :: records fuel (b.drop (4+n)) else []
    | _, _ => []

inductive Outcome (σ : Type) where
  | done (s : σ)
  | outside
  | running
  deriving DecidableEq

variable {σ : Type}

/-- Read records from `p` on, none of which goes beyond `stop`. -/
def scan (b : List UInt8) (stop : Nat) (read : Nat → Nat → Nat → σ → Option σ) :
    Nat → Nat → σ → Outcome σ
  | 0, _, _ => .running
  | fuel+1, p, s =>
    if stop < p+4 then .done s
    else
      match short b p, short b (p+2) with
      | some code, some n =>
        if stop < p+4+n then .done s
        else
          match read (p+4) code n s with
          | none => .outside
          | some s => scan b stop read fuel (p+4+n) s
      | _, _ => .outside

theorem scan_eq {stop : Nat} {read : Nat → Nat → Nat → σ → Option σ}
    {apply : Nat → List UInt8 → σ → σ} (hstop : stop ≤ b.length)
    (hread : ∀ p code n s, p+n ≤ b.length → read p code n s = some (apply code ((b.drop p).take n) s))
    {fuel : Nat} (hp : p ≤ stop) (hfuel : stop < p+fuel) (s : σ) :
    scan b stop read fuel p s =
      .done ((records fuel ((b.take stop).drop p)).foldl (fun s r => apply r.1 r.2 s) s) := by
  induction fuel generalizing p s with
  | zero => omega
  | succ fuel ih =>
    rw [scan,records]
    by_cases hend : stop < p+4
    · have hnone : short ((b.take stop).drop p) 2 = none := by
        apply short_eq_none
        simp
        omega
      rw [if_pos hend,hnone]
      split
      · rename_i h
        cases h
      · rfl
    obtain ⟨code,hcode⟩ := short_isSome (b := b) (p := p) (by omega)
    obtain ⟨n,hn⟩ := short_isSome (b := b) (p := p+2) (by omega)
    have hcode' : short ((b.take stop).drop p) 0 = some code := by
      rw [short_drop,short_take (by omega),Nat.add_zero,hcode]
    have hn' : short ((b.take stop).drop p) 2 = some n := by
      rw [short_drop,short_take (by omega),hn]
    rw [if_neg hend,hcode',hn',hcode,hn]
    by_cases hlong : stop < p+4+n
    · have hlen : ¬ 4+n ≤ ((b.take stop).drop p).length := by
        simp
        omega
      simp only [if_pos hlong,if_neg hlen,List.foldl_nil]
    have hlen : 4+n ≤ ((b.take stop).drop p).length := by
      simp
      omega
    have hdata : (((b.take stop).drop p).drop 4).take n = (b.drop (p+4)).take n := by
      rw [List.drop_drop,List.drop_take,List.take_take,Nat.min_eq_left (by omega)]
    have hrest : ((b.take stop).drop p).drop (4+n) = (b.take stop).drop (p+4+n) := by
      rw [List.drop_drop,Nat.add_assoc]
    simp only [if_neg hlong,if_pos hlen,hread (p+4) code n s (by omega),hdata,hrest,
      List.foldl_cons]
    exact ih (by omega) (by omega) _

end Tlv
