import Lorentz.Store

/-!
The window of over-time slots, and what `moveOverTimeMemory` does to it.
-/

set_option autoImplicit false

namespace Lorentz

def centered (timestamp : Int) : Int :=
  timestamp-timestamp.tmod OVERTIME_INTERVAL+OVERTIME_INTERVAL/2

namespace Tables

variable (t : Tables)

def stamp (i : Nat) : Int := (t.overTime i).timestamp

def Consecutive : Prop := ∀ i, i+1 < OVERTIME_SLOTS → t.stamp (i+1) = t.stamp i+OVERTIME_INTERVAL

def SlotKept (i : Nat) (t' : Tables) (i' : Nat) : Prop :=
  t'.overTime i' = t.overTime i ∧
    ∀ c, c < t.numClients → (t.clients c).magic = true →
      (t'.clients c).overTime i' = (t.clients c).overTime i

def SlotZero (i : Nat) : Prop :=
  t.overTime i = ⟨t.stamp i,0,0,0,0⟩ ∧
    ∀ c, c < t.numClients → (t.clients c).magic = true → (t.clients c).overTime i = 0

structure MovedTo (mintime : Int) (t' : Tables) : Prop where
  first : t'.stamp 0 = centered mintime
  consecutive : t'.Consecutive
  kept : ∀ i i', i < OVERTIME_SLOTS → i' < OVERTIME_SLOTS → t'.stamp i' = t.stamp i →
    t.SlotKept i t' i'
  zero : ∀ i', i' < OVERTIME_SLOTS → (∀ i, i < OVERTIME_SLOTS → t'.stamp i' ≠ t.stamp i) →
    t'.SlotZero i'

/-- The slots were moved by `m`, and what came free was set anew. -/
structure ShiftedBy (m : Nat) (t' : Tables) : Prop where
  clients : t'.numClients = t.numClients ∧ ∀ c, (t'.clients c).magic = (t.clients c).magic
  moved : ∀ i, i+m < OVERTIME_SLOTS → t.SlotKept (i+m) t' i
  fresh : ∀ i, i < OVERTIME_SLOTS → OVERTIME_SLOTS ≤ i+m →
    t'.SlotZero i ∧ t'.stamp i =
      t.stamp (OVERTIME_SLOTS-1)+OVERTIME_INTERVAL*(i+m+1-OVERTIME_SLOTS : Nat)

structure SetAnew (k n : Nat) (t' : Tables) : Prop where
  clients : t'.numClients = t.numClients ∧ ∀ c, (t'.clients c).magic = (t.clients c).magic
  others : ∀ i, i < k → t'.overTime i = t.overTime i ∧
    ∀ c, (t'.clients c).overTime i = (t.clients c).overTime i
  fresh : ∀ i, k ≤ i → i < k+n → t'.SlotZero i ∧
    t'.stamp i = t.stamp (k-1)+OVERTIME_INTERVAL*(i+1-k : Nat)

variable {t} {mintime : Int} {m : Nat}

theorem initSlot_clients (k : Nat) (ts : Int) (c : Nat) :
    ((t.initSlot k ts).clients c).magic = (t.clients c).magic ∧
      (∀ i, i ≠ k → ((t.initSlot k ts).clients c).overTime i = (t.clients c).overTime i) ∧
      (c < t.numClients → (t.clients c).magic = true →
        ((t.initSlot k ts).clients c).overTime k = 0) := by
  simp only [initSlot]
  split
  · exact ⟨rfl,fun i hi => by simp [hi],fun _ _ => by simp⟩
  · rename_i h
    refine ⟨rfl,fun _ _ => rfl,fun hc hm => ?_⟩
    simp [hc,hm] at h

theorem initSlots_setAnew (n k : Nat) (hk : 0 < k) : t.SetAnew k n (t.initSlots k n) := by
  induction n generalizing t k with
  | zero => exact ⟨⟨rfl,fun _ => rfl⟩,fun _ _ => ⟨rfl,fun _ => rfl⟩,fun i h h' => by omega⟩
  | succ n ih =>
    have hc := fun c => t.initSlot_clients k (t.stamp (k-1)+OVERTIME_INTERVAL) c
    obtain ⟨⟨hnum,hmagic⟩,hothers,hfresh⟩ := ih (t := t.initSlot k (t.stamp (k-1)+OVERTIME_INTERVAL))
      (k+1) (by omega)
    have hstamp : (t.initSlot k (t.stamp (k-1)+OVERTIME_INTERVAL)).stamp k =
        t.stamp (k-1)+OVERTIME_INTERVAL := by simp [stamp,initSlot]
    refine ⟨⟨hnum,fun c => (hmagic c).trans (hc c).1⟩,fun i hi => ?_,fun i hi hin => ?_⟩
    · obtain ⟨hslot,hclient⟩ := hothers i (by omega)
      have hne : i ≠ k := by omega
      refine ⟨hslot.trans (by simp [initSlot,hne]),fun c => (hclient c).trans ((hc c).2.1 i hne)⟩
    by_cases hik : i = k
    · subst hik
      obtain ⟨hslot,hclient⟩ := hothers i (by omega)
      have hnew : (t.initSlots i (n+1)).overTime i =
          ⟨t.stamp (i-1)+OVERTIME_INTERVAL,0,0,0,0⟩ := hslot.trans (by simp [initSlot])
      refine ⟨⟨by rw [stamp,hnew],fun c hlt hm => ?_⟩,by rw [stamp,hnew]; simp⟩
      rw [show (t.initSlots i (n+1)).numClients = t.numClients from hnum] at hlt
      exact (hclient c).trans ((hc c).2.2 hlt (((hmagic c).trans (hc c).1).symm.trans hm))
    · obtain ⟨hzero,hst⟩ := hfresh i (by omega) (by omega)
      refine ⟨hzero,?_⟩
      rw [Nat.add_sub_cancel,hstamp] at hst
      refine hst.trans ?_
      unfold OVERTIME_INTERVAL
      omega

/-- The two calls of `memmove`. -/
def shift (t : Tables) (m : Nat) : Tables :=
  { t with
    overTime := fun i => if i < OVERTIME_SLOTS-m then t.overTime (i+m) else t.overTime i
    clients := fun i =>
      let c := t.clients i
      if i < t.numClients && c.magic then
        { c with overTime := fun j =>
            if j < OVERTIME_SLOTS-m then c.overTime (j+m) else c.overTime j }
      else c }

theorem shift_magic (t : Tables) (m c : Nat) :
    ((t.shift m).clients c).magic = (t.clients c).magic := by
  simp only [shift]
  split <;> rfl

def moveBy (t : Tables) (mintime : Int) : Nat :=
  ((centered mintime-t.stamp 0).tdiv OVERTIME_INTERVAL % uintMod).toNat

theorem moveOverTimeMemory_of_le (h : OVERTIME_SLOTS ≤ t.moveBy mintime) :
    t.moveOverTimeMemory mintime = t := by
  exact if_pos (.inr h)

theorem moveOverTimeMemory_shiftedBy (h : t.moveBy mintime < OVERTIME_SLOTS) :
    t.ShiftedBy (t.moveBy mintime) (t.moveOverTimeMemory mintime) := by
  by_cases hz : t.moveBy mintime = 0
  · have heq : t.moveOverTimeMemory mintime = t := by
      exact if_pos (.inl hz)
    rw [heq,hz]
    exact ⟨⟨rfl,fun _ => rfl⟩,fun i _ => ⟨rfl,fun _ _ _ => rfl⟩,fun i hi hi' => by omega⟩
  rw [moveOverTimeMemory]
  rw [show ((mintime-mintime.tmod OVERTIME_INTERVAL+OVERTIME_INTERVAL/2-
    (t.overTime 0).timestamp).tdiv OVERTIME_INTERVAL % uintMod).toNat = t.moveBy mintime from rfl]
  generalize t.moveBy mintime = m at h hz
  rw [if_neg (by omega)]
  obtain ⟨⟨hnum,hmagic⟩,hothers,hfresh⟩ := initSlots_setAnew (t := t.shift m) m
    (OVERTIME_SLOTS-m) (by omega)
  refine ⟨⟨hnum,fun c => (hmagic c).trans (t.shift_magic m c)⟩,fun i hi => ?_,fun i hi him => ?_⟩
  · obtain ⟨hslot,hclient⟩ := hothers i (by omega)
    have hlt : i < OVERTIME_SLOTS-m := by omega
    refine ⟨hslot.trans (if_pos hlt),fun c hc hm => (hclient c).trans ?_⟩
    simp [shift,hc,hm,hlt]
  obtain ⟨hzero,hst⟩ := hfresh i (by omega) (by omega)
  refine ⟨hzero,hst.trans ?_⟩
  have hlast : (t.shift m).stamp (OVERTIME_SLOTS-m-1) = t.stamp (OVERTIME_SLOTS-1) := by
    have hlt : OVERTIME_SLOTS-m-1 < OVERTIME_SLOTS-m := by omega
    have hadd : OVERTIME_SLOTS-m-1+m = OVERTIME_SLOTS-1 := by omega
    simp only [stamp,shift,hlt,if_true,hadd]
  rw [hlast,show i+1-(OVERTIME_SLOTS-m) = i+m+1-OVERTIME_SLOTS by omega]

theorem stamp_eq (h : t.Consecutive) {i : Nat} (hi : i < OVERTIME_SLOTS) :
    t.stamp i = t.stamp 0+OVERTIME_INTERVAL*i := by
  induction i with
  | zero => simp
  | succ i ih =>
    rw [h i hi,ih (by omega)]
    unfold OVERTIME_INTERVAL
    omega

theorem ShiftedBy.stamp_eq {t' : Tables} (hs : t.ShiftedBy m t') (h : t.Consecutive) {i : Nat}
    (hi : i < OVERTIME_SLOTS) : t'.stamp i = t.stamp 0+OVERTIME_INTERVAL*(i+m : Nat) := by
  by_cases him : i+m < OVERTIME_SLOTS
  · rw [← t.stamp_eq h him]
    exact congrArg OverTimeData.timestamp (hs.moved i him).1
  · rw [(hs.fresh i hi (by omega)).2,t.stamp_eq h (by decide : OVERTIME_SLOTS-1 < OVERTIME_SLOTS)]
    unfold OVERTIME_INTERVAL OVERTIME_SLOTS at *
    omega

theorem ShiftedBy.movedTo {t' : Tables} (hs : t.ShiftedBy m t') (h : t.Consecutive)
    (hm : centered mintime = t.stamp 0+OVERTIME_INTERVAL*m) : t.MovedTo mintime t' where
  first := by
    rw [hs.stamp_eq h (by decide),hm,Nat.zero_add]
  consecutive := by
    intro i hi
    rw [hs.stamp_eq h hi,hs.stamp_eq h (by omega)]
    unfold OVERTIME_INTERVAL
    omega
  kept := by
    intro i i' hi hi' heq
    rw [hs.stamp_eq h hi',t.stamp_eq h hi] at heq
    have hii : i'+m = i := by
      unfold OVERTIME_INTERVAL at heq
      omega
    subst hii
    exact hs.moved i' hi
  zero := by
    intro i' hi' hnew
    refine (hs.fresh i' hi' ?_).1
    by_contra hlt
    have hlt : i'+m < OVERTIME_SLOTS := by omega
    exact hnew (i'+m) hlt (by rw [hs.stamp_eq h hi',t.stamp_eq h hlt])

theorem lt_centered (timestamp : Int) : timestamp-OVERTIME_INTERVAL/2 < centered timestamp := by
  have := Int.tmod_lt_of_pos timestamp (show 0 < OVERTIME_INTERVAL by decide)
  unfold centered OVERTIME_INTERVAL at *
  omega

/-- The window is moved exactly when its new begin is a multiple of the interval behind the old
one, and no further than its length. -/
theorem over_time_moved (t : Tables) (mintime : Int) (h : t.Consecutive)
    (hmin : t.stamp 0-OVERTIME_INTERVAL/2 ≤ mintime) :
    t.MovedTo mintime (t.moveOverTimeMemory mintime) ↔
      (centered mintime-t.stamp 0) % OVERTIME_INTERVAL = 0 ∧
        centered mintime-t.stamp 0 < OVERTIME_INTERVAL*OVERTIME_SLOTS := by
  have hlt := lt_centered mintime
  constructor
  · rintro ⟨hfirst,-⟩
    by_cases hm : t.moveBy mintime < OVERTIME_SLOTS
    · rw [(moveOverTimeMemory_shiftedBy hm).stamp_eq h (by decide)] at hfirst
      unfold OVERTIME_INTERVAL OVERTIME_SLOTS at *
      omega
    -- nothing was moved
    rw [moveOverTimeMemory_of_le (by omega)] at hfirst
    rw [← hfirst,Int.sub_self]
    decide
  rintro ⟨hdiv,hroom⟩
  obtain ⟨k,hk⟩ : ∃ k : Nat, centered mintime = t.stamp 0+OVERTIME_INTERVAL*k := by
    refine ⟨((centered mintime-t.stamp 0)/OVERTIME_INTERVAL).toNat,?_⟩
    unfold OVERTIME_INTERVAL at *
    omega
  have hlt : k < OVERTIME_SLOTS := by
    unfold OVERTIME_INTERVAL OVERTIME_SLOTS at *
    omega
  have hmove : t.moveBy mintime = k := by
    have hd : centered mintime-t.stamp 0 = OVERTIME_INTERVAL*k := by omega
    rw [moveBy,hd,Int.mul_tdiv_cancel_left _ (by decide)]
    unfold OVERTIME_SLOTS at hlt
    unfold uintMod
    omega
  have hs := moveOverTimeMemory_shiftedBy (hmove.trans_lt hlt)
  rw [hmove] at hs
  exact hs.movedTo h hk

/-- A window that begins at `first`, with one query in each slot. -/
def windowFrom (first : Int) : Tables :=
  { Tables.empty with
    numClients := 1
    clients := fun _ => { ClientsData.wiped with magic := true,overTime := fun _ => 1 }
    overTime := fun i => ⟨first+OVERTIME_INTERVAL*i,1,0,1,0⟩ }

theorem windowFrom_consecutive (first : Int) : (windowFrom first).Consecutive := by
  intro i _
  simp only [stamp,windowFrom]
  unfold OVERTIME_INTERVAL
  omega

theorem over_time_moved_twice :
    (windowFrom 300).MovedTo 1500 ((windowFrom 300).moveOverTimeMemory 1500) :=
  (over_time_moved (windowFrom 300) 1500 (windowFrom_consecutive 300) (by decide)).mpr (by decide)

/-- A clock that jumps by more than a day moves nothing, and a window begun at a full minute never
carries a centred time stamp. -/
theorem over_time_not_moved :
    ((windowFrom 300).moveOverTimeMemory 87300).overTime = (windowFrom 300).overTime ∧
      centered 87300 = 87300 ∧ (windowFrom 300).stamp 0 = 300 ∧
      ((windowFrom 60).moveOverTimeMemory 1800).stamp 0 = 1860 ∧ centered 1800 = 2100 := by
  refine ⟨by rw [moveOverTimeMemory_of_le (by decide)],by decide,by decide,by decide,by decide⟩

end Tables

end Lorentz
