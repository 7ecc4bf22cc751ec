import Lorentz.Library.Monitor
import Lorentz.System

/-!
The shared memory: how many records are allocated at a time, which record the accessors of
`shmem.c` refer to, and the query array over whole runs, which is a list that grows at the end and
loses queries at the front, with a cache of ids that never hides the newest query with an id.
-/

set_option autoImplicit false

namespace Lorentz.SharedMemory

def gcd (a b : Nat) : Nat :=
  if b = 0 then a else gcd b (a % b)
termination_by b
decreasing_by exact Nat.mod_lt a (Nat.pos_of_ne_zero ‹b ≠ 0›)

theorem gcd_eq (a b : Nat) : gcd a b = a.gcd b := by
  fun_induction gcd a b with
  | case1 a => rw [Nat.gcd_zero_right]
  | case2 a b hb ih => rw [ih,Nat.gcd_comm b,← Nat.gcd_rec,Nat.gcd_comm]

def multiplier (optsize minsize : Nat) : Nat :=
  minsize/optsize+if minsize % optsize ≠ 0 then 1 else 0

/-- In records; `gcd` takes its arguments as `unsigned int`. -/
def getOptimalObjectSize (pagesize objsize minsize : Nat) : Nat :=
  let optsize := pagesize/gcd pagesize (objsize % 2^32)
  if optsize < minsize then multiplier optsize minsize*optsize % 2^64 else optsize

theorem isLeast_multiplier {o m : Nat} (ho : 0 < o) :
    IsLeast {n | m ≤ n ∧ o ∣ n} (multiplier o m*o) := by
  have hm := Nat.div_add_mod' m o
  have hlt := Nat.mod_lt m ho
  refine ⟨⟨?_,Nat.dvd_mul_left ..⟩,?_⟩
  · unfold multiplier
    split <;> rw [Nat.add_mul] <;> omega
  rintro n ⟨hn,k,rfl⟩
  rw [Nat.mul_comm o k]
  apply Nat.mul_le_mul_right
  unfold multiplier
  split
  · refine Nat.lt_of_le_of_ne (Nat.div_le_of_le_mul hn) ?_
    rintro rfl
    rw [Nat.mul_comm] at hn
    omega
  · exact Nat.div_le_of_le_mul hn

theorem optimal_object_size {pagesize objsize minsize : Nat} (hp : 0 < pagesize)
    (ho : objsize < 2^32)
    (hfit : multiplier (pagesize/gcd pagesize objsize) minsize*(pagesize/gcd pagesize objsize)
      < 2^64) :
    IsLeast {n | 0 < n ∧ minsize ≤ n ∧ pagesize ∣ n*objsize}
      (getOptimalObjectSize pagesize objsize minsize) := by
  have hg : 0 < gcd pagesize objsize := gcd_eq .. ▸ Nat.gcd_pos_of_pos_left _ hp
  have hd : gcd pagesize objsize ∣ pagesize := gcd_eq .. ▸ Nat.gcd_dvd_left ..
  have haligned (n : Nat) : pagesize ∣ n*objsize ↔ pagesize/gcd pagesize objsize ∣ n := by
    rw [Nat.div_dvd_iff_dvd_mul hd hg,gcd_eq,Nat.dvd_gcd_mul_iff_dvd_mul,Nat.mul_comm]
  have hpos : 0 < pagesize/gcd pagesize objsize := Nat.div_pos (Nat.le_of_dvd hp hd) hg
  simp only [haligned]
  simp only [getOptimalObjectSize,Nat.mod_eq_of_lt ho,Nat.mod_eq_of_lt hfit]
  generalize pagesize/gcd pagesize objsize = o at hpos
  split
  · obtain ⟨hmem,hleast⟩ := isLeast_multiplier (m := minsize) hpos
    exact ⟨⟨Nat.zero_lt_of_lt (Nat.lt_of_lt_of_le ‹_› hmem.1),hmem⟩,fun n hn => hleast hn.2⟩
  · exact ⟨⟨hpos,by omega,dvd_rfl⟩,fun n hn => Nat.le_of_dvd hn.1 hn.2.2⟩

theorem optimal_object_size_clients :
    IsLeast {n | 0 < n ∧ 100 ≤ n ∧ 4096 ∣ n*24} (getOptimalObjectSize 4096 24 100) :=
  optimal_object_size (by decide) (by decide) (by
    simp [gcd_eq,multiplier])

/-- The counters and lengths that the accessors compare with, in records of each region;
`unlocked` if `debug.locks` finds the lock not held. -/
structure Regions where
  unlocked : Bool
  queriesOffset : UInt32
  queriesMAX : UInt32
  clientsMAX : UInt32
  domainsMAX : UInt32
  upstreamsMAX : UInt32
  dnsCacheMAX : UInt32
  numRegexTot : UInt32
  perClientRegex : Nat

/-- The record an accessor reads, and the one it returns a pointer to or writes. -/
structure Access where
  reads : Option UInt32 := none
  result : Option UInt32 := none
deriving DecidableEq

def MAGICBYTE : UInt8 := 0x57

def checkRange (ID MAXID : UInt32) : Bool := !(ID > MAXID)

def checkMagic (check : Bool) (magic : UInt8) : Bool := !(check && magic ≠ MAGICBYTE)

variable (m : Regions)

def Regions.record (ID MAXID : UInt32) (found : Bool) : Access :=
  if m.unlocked then {}
  else if !checkRange ID MAXID then {}
  else ⟨some ID,if found then some ID else none⟩

/-- A recycled record has no magic byte. -/
def Regions.recycledRecord (ID MAXID : UInt32) (check : Bool) (magic : UInt8) : Access :=
  m.record ID MAXID (!(check && magic = 0) && checkMagic check magic)

def Regions.getQuery (queryID : UInt32) (check : Bool) (magic : UInt8) : Access :=
  m.record (queryID+m.queriesOffset) m.queriesMAX (checkMagic check magic)

def Regions.getClient (clientID : UInt32) : Bool → UInt8 → Access :=
  m.recycledRecord clientID m.clientsMAX

def Regions.getDomain (domainID : UInt32) : Bool → UInt8 → Access :=
  m.recycledRecord domainID m.domainsMAX

def Regions.getUpstream (upstreamID : UInt32) : Bool → UInt8 → Access :=
  m.recycledRecord upstreamID m.upstreamsMAX

def Regions.getDNSCache (cacheID : UInt32) : Bool → UInt8 → Access :=
  m.recycledRecord cacheID m.dnsCacheMAX

def Regions.perClientRegexEntry (clientID regexID : UInt32) : Option UInt32 :=
  let id := clientID*m.numRegexTot+regexID
  if id.toNat > m.perClientRegex then none else some id

def Regions.getPerClientRegex (clientID regexID : UInt32) : Access :=
  { reads := m.perClientRegexEntry clientID regexID }

def Regions.setPerClientRegex (clientID regexID : UInt32) : Access :=
  { result := m.perClientRegexEntry clientID regexID }

def Regions.getClientRegexRow (clientID : UInt32) : Access :=
  let base := clientID*m.numRegexTot
  { result := if base.toNat ≥ m.perClientRegex then none else some base }

def Access.Inside (a : Access) (records : Nat) : Prop :=
  ∀ i, a.reads = some i ∨ a.result = some i → i.toNat < records

theorem record_inside_iff (ID MAXID : UInt32) (found : Bool) :
    (m.record ID MAXID found).Inside MAXID.toNat ↔ m.unlocked = true ∨ ID ≠ MAXID := by
  have hlt : ID ≤ MAXID → (ID.toNat < MAXID.toNat ↔ ID ≠ MAXID) := by
    intro hle
    rw [← UInt32.lt_iff_toNat_lt]
    exact ⟨UInt32.ne_of_lt,UInt32.lt_of_le_of_ne hle⟩
  by_cases hu : m.unlocked = true
  · simp [Regions.record,Access.Inside,hu]
  by_cases hr : MAXID < ID
  · simp [Regions.record,Access.Inside,checkRange,hu,hr,(UInt32.ne_of_lt hr).symm]
  · cases found <;>
      simp [Regions.record,Access.Inside,checkRange,hu,hr,hlt (UInt32.not_lt.1 hr)]

theorem perClientRegexEntry_inside_iff (clientID regexID : UInt32) :
    (∀ i, m.perClientRegexEntry clientID regexID = some i → i.toNat < m.perClientRegex) ↔
      (clientID*m.numRegexTot+regexID).toNat ≠ m.perClientRegex := by
  simp only [Regions.perClientRegexEntry]
  generalize clientID*m.numRegexTot+regexID = id
  split <;> simp <;> omega

/-- The comparisons are with `>`: one record behind the region passes, except in
`get_client_regex_row`. -/
theorem accessors_inside_iff (id regexID : UInt32) (check : Bool) (magic : UInt8) :
    ((m.getQuery id check magic).Inside m.queriesMAX.toNat ↔
      m.unlocked = true ∨ id+m.queriesOffset ≠ m.queriesMAX) ∧
    ((m.getClient id check magic).Inside m.clientsMAX.toNat ↔
      m.unlocked = true ∨ id ≠ m.clientsMAX) ∧
    ((m.getDomain id check magic).Inside m.domainsMAX.toNat ↔
      m.unlocked = true ∨ id ≠ m.domainsMAX) ∧
    ((m.getUpstream id check magic).Inside m.upstreamsMAX.toNat ↔
      m.unlocked = true ∨ id ≠ m.upstreamsMAX) ∧
    ((m.getDNSCache id check magic).Inside m.dnsCacheMAX.toNat ↔
      m.unlocked = true ∨ id ≠ m.dnsCacheMAX) ∧
    ((m.getPerClientRegex id regexID).Inside m.perClientRegex ↔
      (id*m.numRegexTot+regexID).toNat ≠ m.perClientRegex) ∧
    ((m.setPerClientRegex id regexID).Inside m.perClientRegex ↔
      (id*m.numRegexTot+regexID).toNat ≠ m.perClientRegex) ∧
    (m.getClientRegexRow id).Inside m.perClientRegex := by
  refine ⟨record_inside_iff ..,record_inside_iff ..,record_inside_iff ..,record_inside_iff ..,
    record_inside_iff ..,?_,?_,fun i h => ?_⟩
  · simp [Regions.getPerClientRegex,Access.Inside,perClientRegexEntry_inside_iff]
  · simp [Regions.setPerClientRegex,Access.Inside,perClientRegexEntry_inside_iff]
  · simp only [Regions.getClientRegexRow] at h
    grind

theorem query_behind_the_region :
    ∃ m : Regions, m.queriesMAX = 4096 ∧ m.getQuery 4094 true 0 = ⟨some 4096,none⟩ ∧
      ¬(m.getQuery 4094 true 0).Inside m.queriesMAX.toNat :=
  ⟨⟨false,2,4096,0,0,0,0,0,0⟩,rfl,rfl,fun h => absurd (h 4096 (.inl rfl)) (by decide)⟩

end Lorentz.SharedMemory

namespace Lorentz
open Function QueryStore

inductive ArrayEvent where
  | lock
  | append (x : QueriesData)
  | remove (n : Nat)

/-- Each operation is made under the lock, and `lock_shm` ensures the size first. -/
def QueryStore.operate (pagesize : Nat) (q : QueryStore) (e : ArrayEvent) : QueryStore :=
  let q := q.ensureSize pagesize
  match e with
  | .lock => q
  | .append x =>
    match q.getQuery q.queries false with
    | some p => q.append p { x with magic := true }
    | none => q
  | .remove n => q.drop (min n q.queries)

def ArrayEvent.onList (l : List QueriesData) : ArrayEvent → List QueriesData
  | .lock => l
  | .append x => l ++ [{ x with magic := true }]
  | .remove n => l.drop n

/-- The memory can be enlarged; the process ends otherwise. -/
def QueryStore.enlarges (pagesize : Nat) (q : QueryStore) (_ : ArrayEvent) : Bool :=
  (q.ensureSize pagesize).queriesMax < uintMod

/-- The free slots are zero, and no cell of the id cache stands behind the newest query. -/
structure QueryStore.Tidy (q : QueryStore) : Prop where
  zeroed : ∀ p, q.offset+q.queries ≤ p → q.mem p = .wiped
  cached : ∀ k, 0 < (q.idMap k).1 → k = ((q.idMap k).1 % 4096).toNat ∧
    ∀ j < q.queries, (q.mem (j+q.offset)).id = (q.idMap k).1 → j ≤ (q.idMap k).2

namespace QueryStore

variable {q : QueryStore} {pagesize : Nat} {id : Int}

theorem Tidy.compact (h : q.Tidy) : q.compact.Tidy := by
  refine ⟨fun p hp => ?_,fun k hk => absurd hk (by simp [QueryStore.compact])⟩
  have hp' : q.queries ≤ p := by simpa [QueryStore.compact] using hp
  simp only [QueryStore.compact,if_neg (Nat.not_lt.2 hp')]
  split
  · rfl
  · exact h.zeroed p (by omega)

theorem Tidy.ensureSize (h : q.Tidy) : (q.ensureSize pagesize).Tidy := by
  obtain ⟨_,hq⟩ | ⟨q₀,h₀,hq⟩ := q.ensureSize_cases pagesize
  · rwa [hq]
  have ht : q₀.Tidy := by
    obtain ⟨rfl,_⟩ | rfl := h₀
    exacts [h,h.compact]
  obtain ⟨_,hq⟩ | hq := hq
  · rwa [hq]
  · rw [hq]
    exact ⟨ht.zeroed,ht.cached⟩

theorem Tidy.append (h : q.Tidy) (hmod : (q.queries+1) % uintMod = q.queries+1)
    (x : QueriesData) : (q.append (q.queries+q.offset) x).Tidy := by
  constructor
  · intro p hp
    have hp' : q.offset+(q.queries+1) ≤ p := hmod ▸ hp
    exact (update_of_ne (by omega) _ _).trans (h.zeroed p (by omega))
  intro k
  by_cases hk : k = (x.id % 4096).toNat
  · simp only [QueryStore.append,insertID,hmod,hk,update_self]
    exact fun _ => ⟨trivial,fun j hj _ => by omega⟩
  simp only [QueryStore.append,insertID,hmod,update_of_ne hk]
  intro hpos
  obtain ⟨hcell,hle⟩ := h.cached k hpos
  refine ⟨hcell,fun j hj hid => ?_⟩
  by_cases hlast : j = q.queries
  · rw [hlast,update_self] at hid
    exact absurd (hid ▸ hcell) hk
  · rw [update_of_ne (by omega)] at hid
    exact hle j (by omega) hid

theorem Tidy.drop (h : q.Tidy) (hv : q.Valid) {removed : Nat} (hr : removed ≤ q.queries) :
    (q.drop removed).Tidy := by
  by_cases hz : removed > 0
  · obtain ⟨ho,hq⟩ := hv.drop_sizes hr
    refine ⟨fun p hp => ?_,fun k hk => absurd hk (by simp [QueryStore.drop,hz])⟩
    rw [drop_mem]
    exact h.zeroed p (by omega)
  · rwa [QueryStore.drop,if_neg hz]

theorem operate_refines (hv : q.Valid) (ht : q.Tidy) (hp : 0 < pagesize) (e : ArrayEvent)
    (hm : q.enlarges pagesize e = true) :
    (q.operate pagesize e).Valid ∧ (q.operate pagesize e).Tidy ∧
      (q.operate pagesize e).live = e.onList q.live := by
  obtain ⟨hv,hroom⟩ := hv.ensureSize hp (of_decide_eq_true hm)
  have ht : (q.ensureSize pagesize).Tidy := ht.ensureSize
  rw [← live_ensureSize (q := q) pagesize]
  unfold operate
  generalize q.ensureSize pagesize = q at hv hroom ht
  cases e with
  | lock => exact ⟨hv,ht,rfl⟩
  | append x =>
    have hrange := hv.range
    simp only [hv.getQuery_next]
    obtain ⟨hv',hl⟩ := hv.append hroom (x := { x with magic := true }) rfl
    exact ⟨hv',ht.append (Nat.mod_eq_of_lt (by omega)) _,hl⟩
  | remove n =>
    have hr := Nat.min_le_right n q.queries
    obtain ⟨hv',hl⟩ := hv.drop hr
    refine ⟨hv',ht.drop hv hr,hl.trans ?_⟩
    rw [ArrayEvent.onList,← length_live,← List.drop_eq_drop_min]

theorem run_refines (hp : 0 < pagesize) (es : List ArrayEvent) (hv : q.Valid) (ht : q.Tidy)
    (hm : Machine.Meets (operate pagesize) (enlarges pagesize) q es = true) :
    (Machine.run (operate pagesize) q es).Valid ∧ (Machine.run (operate pagesize) q es).Tidy ∧
      (Machine.run (operate pagesize) q es).live = es.foldl ArrayEvent.onList q.live := by
  induction es generalizing q with
  | nil => exact ⟨hv,ht,rfl⟩
  | cons e es ih =>
    rw [Machine.meets_cons] at hm
    obtain ⟨hv',ht',hl⟩ := operate_refines hv ht hp e hm.1
    rw [List.foldl_cons,← hl]
    exact ih hv' ht' hm.2

theorem empty_valid (hp : 0 < pagesize) (hmax : pagesize < uintMod) : (empty pagesize).Valid :=
  ⟨hp,hmax,fun _ h => absurd h (Nat.not_lt_zero _),fun _ _ => rfl⟩

theorem empty_tidy (pagesize : Nat) : (empty pagesize).Tidy :=
  ⟨fun _ _ => rfl,fun _ h => absurd h (Int.lt_irrefl 0)⟩

theorem Valid.scanID_spec (h : q.Valid) (id : Int) (start : Nat) :
    ∀ n, start+n ≤ q.queries → match q.scanID id start n with
      | some i => (q.mem (i+q.offset)).id = id ∧ i < start+n ∧
          ∀ j, i < j → j < start+n → (q.mem (j+q.offset)).id ≠ id
      | none => ∀ j, start ≤ j → j < start+n → (q.mem (j+q.offset)).id ≠ id
  | 0, _ => fun j _ _ => by omega
  | n+1, hn => by
    simp only [scanID,h.getQuery_eq (show start+n < q.queries by omega)]
    by_cases hid : (q.mem (start+n+q.offset)).id = id
    · rw [if_pos hid]
      exact ⟨hid,by omega,fun j _ _ => by omega⟩
    · rw [if_neg hid]
      have ih := h.scanID_spec id start n (by omega)
      grind

/-- What `findQueryID` returns, among all live queries and among the newest ones. -/
theorem Valid.findQueryID_newest (h : q.Valid) (ht : q.Tidy) (hid : 0 < id) :
    (∀ i, q.findQueryID id = some i → i < q.queries ∧ (q.mem (i+q.offset)).id = id ∧
      ∀ j, i < j → j < q.queries → (q.mem (j+q.offset)).id ≠ id) ∧
    ∀ i < q.queries, q.queries ≤ i+MAXITER → (q.mem (i+q.offset)).id = id →
      (q.findQueryID id).isSome = true := by
  by_cases hq : q.queries = 0
  · exact ⟨fun i hf => absurd (h.findQueryID_lt hf) (by omega),fun i hi => by omega⟩
  have hpos : 0 < MAXITER := by decide
  simp only [findQueryID]
  split
  · rename_i hhit
    simp only [Bool.and_eq_true,decide_eq_true_eq,Option.any_eq_true] at hhit
    obtain ⟨⟨hcell,hlt⟩,p,hp,hpid⟩ := hhit
    rw [h.getQuery_eq hlt,Option.some.injEq] at hp
    obtain ⟨-,hle⟩ := ht.cached _ (hcell ▸ hid)
    refine ⟨?_,fun _ _ _ _ => rfl⟩
    rintro i ⟨⟩
    refine ⟨hlt,hp ▸ hpid,fun j hj hjq hjid => ?_⟩
    have := hle j hjq (hjid.trans hcell.symm)
    omega
  generalize hstart : q.queries-MAXITER = start
  rw [Nat.max_eq_left (by omega)]
  have hall : start+(q.queries-start) = q.queries := by omega
  have hspec := h.scanID_spec id start _ hall.le
  rw [hall] at hspec
  cases hs : q.scanID id start (q.queries-start) with
  | some i =>
    rw [hs] at hspec
    refine ⟨fun k hk => ?_,fun _ _ _ _ => rfl⟩
    rw [← Option.some.inj hk]
    exact ⟨hspec.2.1,hspec.1,hspec.2.2⟩
  | none =>
    rw [hs] at hspec
    exact ⟨nofun,fun i hi hnew hiid => absurd hiid (hspec i (by omega) hi)⟩

end QueryStore

/-- A slot is zeroed before a query is put into it, and room for it is never missing. The model
has zeros behind the region; whatever is there, only the index one record behind reads it. -/
theorem query_array_refines_list {pagesize : Nat} (hp : 0 < pagesize) (hmax : pagesize < uintMod)
    (es : List ArrayEvent) (hm : Machine.Meets (operate pagesize) (enlarges pagesize)
      (.empty pagesize) es = true) :
    let q := Machine.run (operate pagesize) (.empty pagesize) es
    let l := es.foldl ArrayEvent.onList []
    q.queries = l.length ∧
    (∀ i < l.length, ∀ checkMagic, (q.getQuery i checkMagic).map q.mem = l[i]?) ∧
    (∀ i, l.length ≤ i → i+q.offset < uintMod → q.getQuery i true = none) ∧
    (∀ mem, (∀ p < q.queriesMax, mem p = q.mem p) → ∀ i, l.length ≤ i → i+q.offset < uintMod →
      i+q.offset ≠ q.queriesMax → { q with mem := mem }.getQuery i true = none) ∧
    (q.getQuery q.queries false).map q.mem = some .wiped ∧
    q.queries+q.offset < q.queriesMax := by
  intro q l
  obtain ⟨hv,ht,hl⟩ : q.Valid ∧ q.Tidy ∧ q.live = l :=
    run_refines hp es (empty_valid hp hmax) (empty_tidy pagesize) hm
  clear_value q l
  have hlen : q.queries = l.length := by rw [← hl,length_live]
  have hfree {i : Nat} (hi : l.length ≤ i) : q.mem (i+q.offset) = .wiped :=
    ht.zeroed (i+q.offset) (by rw [Nat.add_comm]; omega)
  refine ⟨hlen,fun i hi checkMagic => ?_,fun i hi hlt => ?_,fun mem hmem i hi hlt hne => ?_,?_,?_⟩
  · have hi' : i < q.queries := hlen ▸ hi
    rw [hv.getQuery_eq hi',Option.map_some,← live_getElem? hi',hl]
  · simp only [getQuery,Nat.mod_eq_of_lt hlt,hfree hi]
    simp [QueriesData.wiped]
  · simp only [getQuery,Nat.mod_eq_of_lt hlt]
    split
    · rfl
    · rw [hmem _ (by omega),hfree hi]
      simp [QueriesData.wiped]
  · rw [hv.getQuery_next,Option.map_some,ht.zeroed _ (Nat.add_comm ..).le]
  · rw [Nat.add_comm]
    exact hv.room

def arraySample : List ArrayEvent :=
  [.append { QueriesData.wiped with id := 7 },.append { QueriesData.wiped with id := 7 },
    .remove 1,.append { QueriesData.wiped with id := 4103 }]

theorem query_array_refines_list_sample :
    let q := Machine.run (operate 3) (.empty 3) arraySample
    q.queriesMax = 6 ∧ q.queries = 2 ∧ (q.getQuery q.queries false).map q.mem = some .wiped :=
  have h := query_array_refines_list (by decide) (by decide) arraySample rfl
  ⟨rfl,h.1,h.2.2.2.2.1⟩

theorem find_query_id_newest {pagesize : Nat} (hp : 0 < pagesize) (hmax : pagesize < uintMod)
    (es : List ArrayEvent) (hm : Machine.Meets (operate pagesize) (enlarges pagesize)
      (.empty pagesize) es = true) {id : Int} (hid : 0 < id) :
    let q := Machine.run (operate pagesize) (.empty pagesize) es
    (∀ i, q.findQueryID id = some i → q.live[i]?.map (·.id) = some id ∧
      ∀ j, i < j → q.live[j]?.map (·.id) ≠ some id) ∧
    ∀ i, q.live.length ≤ i+MAXITER → q.live[i]?.map (·.id) = some id →
      (q.findQueryID id).isSome = true := by
  intro q
  obtain ⟨hv,ht,-⟩ : q.Valid ∧ q.Tidy ∧ _ :=
    run_refines hp es (empty_valid hp hmax) (empty_tidy pagesize) hm
  clear_value q
  obtain ⟨hnewest,hfound⟩ := hv.findQueryID_newest ht hid
  have hlive (i : Nat) : q.live[i]?.map (·.id) = some id ↔
      i < q.queries ∧ (q.mem (i+q.offset)).id = id := by
    by_cases hi : i < q.queries <;> simp [hi,live_getElem]
  simp only [Ne,hlive,length_live]
  refine ⟨fun i hi => ?_,fun i hi hil => hfound i hil.1 hi hil.2⟩
  obtain ⟨hlt,hiid,hlast⟩ := hnewest i hi
  exact ⟨⟨hlt,hiid⟩,fun j hj hjl => hlast j hj hjl.1 hjl.2⟩

theorem find_query_id_newest_sample :
    let q := Machine.run (operate 3) (.empty 3) arraySample
    q.live[0]?.map (·.id) = some 7 ∧ ∀ j, 0 < j → q.live[j]?.map (·.id) ≠ some 7 :=
  (find_query_id_newest (by decide) (by decide) arraySample rfl (by decide)).1 0 (by decide)

end Lorentz
