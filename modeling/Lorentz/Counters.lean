import Lorentz.Layout

/-!
The counters by status, reply and type count the live queries that no open `runGC` is removing,
and how much of the history a `runGC` keeps.
-/

set_option autoImplicit false

namespace Lorentz
open Counting QueryStore

namespace QueryStore.CountedFrom

variable {q : QueryStore}

theorem ensureSize {r : Nat} (h : q.CountedFrom r) (pagesize : Nat) :
    (q.ensureSize pagesize).CountedFrom r := by
  obtain ⟨_,_,hs,hr,ht⟩ := q.ensureSize_counters pagesize
  rw [CountedFrom,live_ensureSize]
  exact ⟨hs ▸ h.status,hr ▸ h.reply,ht ▸ h.type⟩

theorem append {r : Nat} (h : q.CountedFrom r) (hv : q.Valid)
    (hroom : q.offset+q.queries+1 < q.queriesMax) (hr : r ≤ q.queries) {x : QueriesData}
    (hx : x.magic = true) : (q.append (q.queries+q.offset) x).CountedFrom r := by
  have hrange : q.queriesMax < 4294967296 := hv.range
  have hlen : (q.live.drop r).length+1 < 4294967296 := by
    simp
    omega
  rw [CountedFrom,(hv.append hroom hx).2,
    List.drop_append_of_le_length (by simpa using hr)]
  refine Tallied.perm ?_ (List.perm_append_singleton _ _).symm
  exact h.cons hlen rfl rfl rfl

theorem drop {r : Nat} (h : q.CountedFrom r) (hv : q.Valid)
    (hr : r ≤ q.queries) : (q.drop r).CountedFrom 0 := by
  rw [CountedFrom,List.drop_zero,(hv.drop hr).2]
  unfold QueryStore.drop
  split <;> exact ⟨h.status,h.reply,h.type⟩

end QueryStore.CountedFrom

structure System.Counted (s : System) : Prop where
  laid : s.Laid
  counted : s.store.q.CountedFrom s.uncounted

/-- While a `runGC` has released the lock, the event works on no query it removes and is no other
run of it. -/
def Event.safe (s : System) (e : Event) : Bool :=
  e.exclusive s && (e.query s.store).all (fun i => s.uncounted ≤ i)

section

variable {s : System}

theorem QueryStore.Effect.counted {q q' : QueryStore} {query : Option Nat} {r : Nat}
    (h : q.Effect query q') (hv : q.Valid) (hroom : q.offset+q.queries+1 < q.queriesMax)
    (hr : r ≤ q.queries) (hc : q.CountedFrom r) (hsafe : ∀ i, query = some i → r ≤ i) :
    q'.CountedFrom r := by
  cases h with
  | same => exact hc
  | touched i hi hlive ht => exact (hv.changed hlive ht).counted r (hsafe i hi) hc
  | appended x hm _ _ ht =>
    have hlen := hv.append_queries hroom hm
    have hch := (hv.append hroom hm).1.changed (i := q.queries) (by omega) ht
    exact hch.counted r hr (hc.append hv hroom hr hm)

theorem Store.runGC_counted {s : Store} (hv : s.q.Valid) (hc : s.q.CountedFrom 0) (mintime : Int)
    (clock : ℚ) :
    ((s.gcRemove mintime).1.gcFinish (s.gcRemove mintime).2 mintime clock).q.CountedFrom 0 := by
  obtain ⟨hcol,_⟩ := Store.gcRemove_collected hv mintime
  have hle : (s.gcRemove mintime).2 ≤ (s.gcRemove mintime).1.q.queries := by
    rw [hcol.queries]
    exact Store.gcRemove_le hv mintime
  exact (hcol.counted hc).drop hcol.valid hle

theorem System.Counted.handle (h : s.Counted) (hf : s.store.Fits) {e : Event}
    (hs : e.safe s = true) (hgc : e.isFlush = false) :
    (s.store.handle e).q.CountedFrom s.uncounted := by
  obtain ⟨hv,hroom,hlen⟩ := h.laid.lock hf
  have hsafe : ∀ i, e.query s.store = some i → s.uncounted ≤ i := by
    intro i hi
    simp only [Event.safe,hi,Bool.and_eq_true,Option.all_some,decide_eq_true_eq] at hs
    exact hs.2
  obtain hq | heff := s.store.handle_effect hv e hgc
  · rw [hq]
    exact h.counted
  · exact heff.counted hv hroom (by rw [hlen]; exact h.laid.le) (h.counted.ensureSize _) hsafe

theorem System.Counted.step (h : s.Counted) (hf : s.store.Fits) {e : Event}
    (hs : e.safe s = true) : (s.step e).Counted := by
  have hex : e.exclusive s = true := by
    simp only [Event.safe,Bool.and_eq_true] at hs
    exact hs.1
  refine ⟨h.laid.step hf hex,?_⟩
  obtain ⟨hv,_,hlen⟩ := h.laid.lock hf
  have hc : s.store.lockShm.q.CountedFrom s.uncounted := h.counted.ensureSize _
  cases e with
  | gcStart now =>
    cases hg : s.gc with
    | some g =>
      simp only [System.step,hg]
      exact h.counted
    | none =>
      rw [System.uncounted_none hg] at hc
      simp only [System.step,hg]
      exact (Store.gcRemove_collected hv _).1.counted hc
  | gcFinish clock =>
    cases hg : s.gc with
    | none =>
      simp only [System.step,hg]
      exact h.counted
    | some g =>
      have hle := h.laid.le
      rw [System.uncounted_some hg] at hc hle
      simp only [System.step,hg]
      exact hc.drop hv (by rw [hlen]; exact hle)
  | gcFlush now clock =>
    have hg : s.gc = none := by simpa [Event.exclusive,Event.isFlush] using hex
    rw [System.uncounted_none hg] at hc
    show CountedFrom _ s.uncounted
    rw [System.uncounted_none hg]
    exact Store.runGC_counted hv hc _ clock
  | _ => exact h.handle hf hs rfl

end

/-- The states that runs from the empty store reach when every step is safe. -/
inductive System.Reachable : System → Prop where
  | init {store : Store} (hq : store.q = .empty store.config.pagesize) :
      System.Reachable ⟨store,none⟩
  | step {s : System} {e : Event} (h : System.Reachable s) (hf : s.store.Fits)
      (hs : e.safe s = true) : System.Reachable (s.step e)

def System.safeRun (s : System) : List Event → Bool
  | [] => true
  | e :: events => decide s.store.Fits && e.safe s && (s.step e).safeRun events

theorem System.Reachable.run {s : System} (h : s.Reachable) (events : List Event)
    (hs : s.safeRun events = true) : (s.run events).Reachable := by
  induction events generalizing s with
  | nil => exact h
  | cons e events ih =>
    simp only [System.safeRun,Bool.and_eq_true,decide_eq_true_eq] at hs
    exact ih (h.step hs.1.1 hs.1.2) hs.2

theorem System.Reachable.counted {s : System} (h : s.Reachable) : s.Counted := by
  induction h with
  | @init store hq =>
    have hc : (QueryStore.empty store.config.pagesize).CountedFrom 0 :=
      ⟨Counts.nil,Counts.nil,Counts.nil⟩
    rw [← hq] at hc
    exact ⟨System.Laid.init hq,hc⟩
  | step _ hf hs ih => exact ih.step hf hs

/-- In every run in which no event meets the garbage collector, except between its two sections,
each counter is the number of live queries with its value, and each array of counters sums to the
number of queries. -/
theorem counters_count_live_queries {s : System} (h : s.Reachable) (hg : s.gc = none) :
    (∀ st, (s.store.q.status st).toNat = s.store.q.live.countP (fun x => x.status = st)) ∧
      (∀ r, (s.store.q.reply r).toNat = s.store.q.live.countP (fun x => x.reply = r)) ∧
      (∀ t, (s.store.q.querytype t).toNat = s.store.q.live.countP (fun x => x.type = t)) ∧
      (QueryStatus.all.map (fun st => (s.store.q.status st).toNat)).sum = s.store.q.queries ∧
      (ReplyType.all.map (fun r => (s.store.q.reply r).toNat)).sum = s.store.q.queries ∧
      (QueryType.all.map (fun t => (s.store.q.querytype t).toNat)).sum = s.store.q.queries := by
  have hc := h.counted.counted
  have hz : s.uncounted = 0 := by simp [System.uncounted,hg]
  rw [hz] at hc
  obtain ⟨hs,hr,ht⟩ := hc
  rw [List.drop_zero] at hs hr ht
  have hlen := s.store.q.length_live
  refine ⟨hs,hr,ht,?_,?_,?_⟩
  · rw [hs.sum _ QueryStatus.mem_all QueryStatus.nodup_all,hlen]
  · rw [hr.sum _ ReplyType.mem_all ReplyType.nodup_all,hlen]
  · rw [ht.sum _ QueryType.mem_all QueryType.nodup_all,hlen]

def collectorSample : System :=
  .initial { Config.default with rateLimitCount := 0 } .plain .empty

/-- A query that the first section of a `runGC` removes and one that arrives before the
second. -/
theorem counters_count_live_queries_sample :
    ((collectorSample.run [.newQuery .plain (.of "10.0.0.2" "example.com" 1 100),
      .gcStart 87000,.newQuery .plain (.of "10.0.0.2" "example.org" 2 87001),
      .gcFinish 87002]).store.q.status .unknown).toNat = 1 := by
  have h₀ : collectorSample.Reachable := .init rfl
  have h := h₀.run [.newQuery .plain (.of "10.0.0.2" "example.com" 1 100),.gcStart 87000,
    .newQuery .plain (.of "10.0.0.2" "example.org" 2 87001),.gcFinish 87002] (by decide)
  exact ((counters_count_live_queries h (by decide)).1 .unknown).trans (by decide)

/-- A flush falls between the sections of `runGC`; the query that arrives next is dropped without
being counted out. -/
theorem counters_wrong_after_overlap :
    let s := collectorSample.run [.newQuery .plain (.of "10.0.0.2" "example.com" 1 100),
      .gcStart 87000,.gcFlush 87001 87001,
      .newQuery .plain { Packet.of "10.0.0.2" "example.com" 2 87002 with qtype := 28 },
      .gcFinish 87003]
    s.gc = none ∧ s.store.q.live = [] ∧ s.store.q.querytype .aaaa = 1 ∧
      s.store.q.querytype .a = 4294967295 := by
  decide +kernel

def Event.collects : Event → Bool
  | .gcStart _ | .gcFinish _ | .gcFlush _ _ => true
  | _ => false

/-- Outside the garbage collector an event changes only the query it has found by its id. -/
theorem other_queries_unchanged {s : System} (h : s.Reachable) (hf : s.store.Fits) {e : Event}
    (hgc : e.collects = false) {i : Nat} (hi : i < s.store.q.queries)
    (hother : e.query s.store ≠ some i) :
    (s.step e).store.q.live[i]? = s.store.q.live[i]? := by
  obtain ⟨hv,hroom,hlen⟩ := h.counted.laid.lock hf
  have hlock : s.store.lockShm.q.live = s.store.q.live := live_ensureSize _
  obtain ⟨hstep,hflush⟩ : (s.step e).store = s.store.handle e ∧ e.isFlush = false := by
    cases e <;> first | exact ⟨rfl,rfl⟩ | cases hgc
  rw [hstep]
  obtain hq | heff := s.store.handle_effect hv e hflush
  · rw [hq]
  rw [← hlock]
  generalize s.store.lockShm.q = q at *
  cases heff with
  | same => rfl
  | touched j hj hlive ht =>
    have hch := hv.changed hlive ht
    obtain ⟨x,-,hx⟩ := hch.query
    rw [live_update hch.queries hch.offset hx,List.getElem?_set_ne]
    rintro rfl
    exact hother hj
  | appended y hm _ _ ht =>
    obtain ⟨hv',hl⟩ := hv.append hroom hm
    have hlast := hv.append_queries hroom hm
    have hch := hv'.changed (i := q.queries) (by omega) ht
    obtain ⟨x,-,hx⟩ := hch.query
    rw [live_update hch.queries hch.offset hx,List.getElem?_set_ne (by omega),hl,
      List.getElem?_append_left (by rw [length_live]; omega)]

theorem other_queries_unchanged_two :
    let s := collectorSample.run [.newQuery .plain (.of "10.0.0.2" "a.org" 1 100),
      .newQuery .plain (.of "10.0.0.2" "b.org" 2 101)]
    (s.step (.queryInProgress 2)).store.q.live[0]? = s.store.q.live[0]? :=
  other_queries_unchanged (System.Reachable.run (.init rfl) _ (by decide)) (by decide) rfl
    (by decide) (by decide)

open Function QueriesData QueryStore Store

def Config.historyStart (cfg : Config) (now : Int) : Int :=
  now+cfg.gcDelay.toNat-cfg.maxHistory.toNat

def Config.historyLimit (cfg : Config) (now : Int) : Int :=
  cfg.historyStart now-cfg.historyStart now % cfg.gcInterval.toNat

section

variable (cfg : Config) (now : Int)

theorem Config.gcInterval_pos : 0 < (cfg.gcInterval.toNat : Int) := by
  have h := cfg.gcIntervalPos
  rw [UInt32.lt_iff_toNat_lt] at h
  simpa using h

theorem Config.wrapped_difference :
    ((-cfg.gcDelay+cfg.maxHistory).toNat : Int) =
      if cfg.gcDelay.toNat ≤ cfg.maxHistory.toNat
      then (cfg.maxHistory.toNat : Int)-cfg.gcDelay.toNat
      else cfg.maxHistory.toNat-cfg.gcDelay.toNat+4294967296 := by
  have hd := cfg.gcDelay.toNat_lt
  have hh := cfg.maxHistory.toNat_lt
  rw [UInt32.toNat_add,UInt32.toNat_neg]
  simp only [UInt32.size]
  split <;> omega

theorem sub_tmod_eq (m i : Int) (hi : 0 < i) :
    m-m.tmod i = if 0 ≤ m ∨ i ∣ m then m-m % i else m-m % i+i := by
  rw [Int.tmod_eq_emod]
  split
  · simp
  · omega

theorem multiple_eq_one (i k : Int) (hi : 0 < i) (h₀ : 0 < i*k) (h₂ : i*k < i*2) : k = 1 := by
  have hpos : 0 < k := by
    by_contra hn
    have := Int.mul_nonpos_of_nonneg_of_nonpos (Int.le_of_lt hi) (Int.not_lt.mp hn)
    omega
  have hlt : k < 2 := Int.lt_of_mul_lt_mul_left h₂ (Int.le_of_lt hi)
  omega

theorem roundUp_eq_iff (x m i : Int) (hi : 0 < i) (hm : m < x-x % i) :
    m-m.tmod i = x-x % i ↔ m < 0 ∧ x-x % i-i < m := by
  have hpos := Int.emod_nonneg m (Int.ne_of_gt hi)
  have hlt := Int.emod_lt_of_pos m hi
  obtain ⟨k,hk⟩ : i ∣ (x-x % i)-(m-m % i) := Int.dvd_sub Int.dvd_self_sub_emod Int.dvd_self_sub_emod
  rw [sub_tmod_eq m i hi]
  split
  · rename_i h
    constructor
    · intro heq
      omega
    intro hex
    rcases h with h | h
    · omega
    · have := multiple_eq_one i k hi (by omega) (by omega)
      subst this
      omega
  rename_i h
  constructor
  · intro heq
    omega
  intro hex
  have := multiple_eq_one i k hi (by omega) (by omega)
  subst this
  omega

/-- The arguments for which the limit of `runGC` is the one meant: the difference does not wrap
and rounds down, or the two errors cancel, which takes an interval beyond half the range of an
`unsigned int`. -/
def Config.LimitExact (cfg : Config) (now : Int) : Prop :=
  (cfg.gcDelay ≤ cfg.maxHistory ∧
    (0 ≤ cfg.historyStart now ∨ (cfg.gcInterval.toNat : Int) ∣ cfg.historyStart now)) ∨
  (cfg.maxHistory < cfg.gcDelay ∧ cfg.historyStart now < 4294967296 ∧
    4294967296 < cfg.historyStart now % cfg.gcInterval.toNat+cfg.gcInterval.toNat)

theorem gcMintime_eq :
    gcMintime cfg now false =
      let m := if cfg.gcDelay.toNat ≤ cfg.maxHistory.toNat then cfg.historyStart now
        else cfg.historyStart now-4294967296
      m-m.tmod cfg.gcInterval.toNat := by
  have hm : now-((-cfg.gcDelay+cfg.maxHistory).toNat : Int) =
      if cfg.gcDelay.toNat ≤ cfg.maxHistory.toNat then cfg.historyStart now
        else cfg.historyStart now-4294967296 := by
    rw [cfg.wrapped_difference]
    unfold Config.historyStart
    split <;> omega
  unfold gcMintime
  simp only [Bool.false_eq_true,if_false,hm]

theorem gcMintime_eq_historyLimit_iff :
    gcMintime cfg now false = cfg.historyLimit now ↔ cfg.LimitExact now := by
  have hi := cfg.gcInterval_pos
  have hsize : (cfg.gcInterval.toNat : Int) < 4294967296 := by
    have := cfg.gcInterval.toNat_lt
    omega
  have hx₁ := Int.emod_lt_of_pos (cfg.historyStart now) hi
  rw [gcMintime_eq]
  unfold Config.LimitExact Config.historyLimit
  rw [UInt32.le_iff_toNat_le,UInt32.lt_iff_toNat_lt]
  by_cases hw : cfg.gcDelay.toNat ≤ cfg.maxHistory.toNat
  · simp only [hw,if_true]
    rw [sub_tmod_eq _ _ hi]
    split
    · rename_i h
      simp [h]
    rename_i h
    constructor
    · intro heq
      omega
    intro hex
    rcases hex with ⟨_,hex⟩ | ⟨hex,_⟩
    · exact absurd hex h
    · omega
  · simp only [hw,if_false]
    rw [roundUp_eq_iff _ _ _ hi (by omega)]
    constructor
    · intro h
      exact .inr ⟨by omega,by omega,by omega⟩
    intro hex
    rcases hex with ⟨hex,_⟩ | ⟨_,hneg,hclose⟩
    · exact absurd hex (by simp)
    · exact ⟨by omega,by omega⟩

end

def Store.collect (s : Store) (now : Int) (clock : ℚ) : Store :=
  (System.run ⟨s,none⟩ [.gcStart now,.gcFinish clock]).store

def QueryStore.Sorted (q : QueryStore) : Prop :=
  q.live.Pairwise (fun x y => x.timestamp ≤ y.timestamp)

/-- Exactly the queries in front not later than the limit are gone, for a shorter history at least
as many as for a longer one. -/
structure Config.HistoryKept (cfg : Config) (now : Int) (q q' : QueryStore) : Prop where
  live : q'.live = q.live.dropWhile (QueriesData.expired (cfg.historyLimit now))
  newer : ∀ x ∈ q'.live, (cfg.historyLimit now : ℚ) < x.timestamp
  queries : q'.queries+(q.live.takeWhile (QueriesData.expired (cfg.historyLimit now))).length =
    q.queries
  shorter : ∀ h, cfg.maxHistory ≤ h → (q.live.takeWhile (QueriesData.expired
    ({ cfg with maxHistory := h }.historyLimit now))).length ≤ q.queries-q'.queries

section

variable {s : Store}

theorem Store.collect_q (hv : s.q.Valid) (hf : s.Fits) (now : Int) (clock : ℚ) :
    (s.collect now clock).q = (s.lockShm.gcRemove (gcMintime s.config now false)).1.q.drop
      (s.lockShm.gcRemove (gcMintime s.config now false)).2 := by
  obtain ⟨hv₁,hroom⟩ := hv.ensureSize s.config.pagesizePos hf
  obtain ⟨hcol,_⟩ := gcRemove_collected (s := s.lockShm) hv₁ (gcMintime s.config now false)
  have hroom' : s.lockShm.q.offset+s.lockShm.q.queries+1 < s.lockShm.q.queriesMax := hroom
  rw [← hcol.offset,← hcol.queries,← hcol.queriesMax] at hroom'
  have hsame := ensureSize_eq_self hroom'
    (s.lockShm.gcRemove (gcMintime s.config now false)).1.config.pagesize
  exact congrArg (fun q => QueryStore.drop q _) hsame

theorem Store.live_collect (hv : s.q.Valid) (hf : s.Fits) (now : Int) (clock : ℚ) :
    (s.collect now clock).q.live =
      s.q.live.dropWhile (expired (gcMintime s.config now false)) := by
  obtain ⟨hv₁,_⟩ := hv.ensureSize s.config.pagesizePos hf
  have hlive : s.lockShm.q.live = s.q.live := live_ensureSize _
  obtain ⟨hcol,hn⟩ := gcRemove_collected (s := s.lockShm) hv₁ (gcMintime s.config now false)
  have hle := gcRemove_le (s := s.lockShm) hv₁ (gcMintime s.config now false)
  rw [s.collect_q hv hf,(hcol.valid.drop (by rw [hcol.queries]; exact hle)).2,hcol.live_drop,hn,
    hlive]
  generalize expired (gcMintime s.config now false) = old
  have hsplit : s.q.live = s.q.live.takeWhile old ++ s.q.live.dropWhile old :=
    List.takeWhile_append_dropWhile.symm
  nth_rewrite 2 [hsplit]
  exact List.drop_left

end

section

variable (cfg : Config) (now : Int)

theorem QueriesData.expired_mono {m m' : Int} (h : m ≤ m') (x : QueriesData) :
    x.expired m = true → x.expired m' = true := by
  intro hx
  have hx' : x.timestamp ≤ (m : ℚ) := by simpa [expired] using hx
  have hm : (m : ℚ) ≤ m' := by exact_mod_cast h
  simpa [expired] using hx'.trans hm

theorem length_takeWhile_mono {α : Type} {p p' : α → Bool} (h : ∀ x, p x = true → p' x = true)
    (l : List α) : (l.takeWhile p).length ≤ (l.takeWhile p').length := by
  induction l with
  | nil => simp
  | cons x l ih =>
    cases hp : p x with
    | false => simp [List.takeWhile_cons,hp]
    | true => simpa [List.takeWhile_cons,hp,h x hp] using ih

theorem not_expired_dropWhile {m : Int} {l : List QueriesData}
    (hl : l.Pairwise (fun x y => x.timestamp ≤ y.timestamp)) :
    ∀ x ∈ l.dropWhile (expired m), (m : ℚ) < x.timestamp := by
  induction l with
  | nil => simp
  | cons y l ih =>
    obtain ⟨hy,hl⟩ := List.pairwise_cons.mp hl
    cases hp : y.expired m with
    | true => simpa [List.dropWhile_cons,hp] using ih hl
    | false =>
      have hnew : (m : ℚ) < y.timestamp := by simpa [expired] using hp
      intro x hx
      rw [List.dropWhile_cons,hp] at hx
      rcases List.mem_cons.mp hx with rfl | hx
      · exact hnew
      · exact hnew.trans_le (hy x hx)

theorem Config.historyLimit_anti (h : UInt32) (hle : cfg.maxHistory ≤ h) :
    { cfg with maxHistory := h }.historyLimit now ≤ cfg.historyLimit now := by
  have hi := cfg.gcInterval_pos
  have hstart : { cfg with maxHistory := h }.historyStart now ≤ cfg.historyStart now := by
    rw [UInt32.le_iff_toNat_le] at hle
    unfold Config.historyStart
    simp only
    omega
  have hround : ∀ x : Int, x-x % cfg.gcInterval.toNat =
    cfg.gcInterval.toNat*(x/cfg.gcInterval.toNat) := by
    intro x
    have := Int.mul_ediv_add_emod x cfg.gcInterval.toNat
    omega
  unfold Config.historyLimit
  rw [hround,hround]
  exact Int.mul_le_mul_of_nonneg_left (Int.ediv_le_ediv hi hstart) (Int.le_of_lt hi)

theorem Config.LimitExact.historyKept (h : cfg.LimitExact now) {s : Store} (hcfg : s.config = cfg)
    (hv : s.q.Valid) (hf : s.Fits) (hsort : s.q.Sorted) (clock : ℚ) :
    cfg.HistoryKept now s.q (s.collect now clock).q := by
  have hlive := s.live_collect hv hf now clock
  rw [hcfg,(gcMintime_eq_historyLimit_iff cfg now).mpr h] at hlive
  have hsum : (s.collect now clock).q.queries+
      (s.q.live.takeWhile (expired (cfg.historyLimit now))).length = s.q.queries := by
    rw [← length_live,← length_live,hlive]
    have := congrArg List.length
      (List.takeWhile_append_dropWhile (p := expired (cfg.historyLimit now))
        (l := s.q.live))
    rw [List.length_append] at this
    omega
  refine ⟨hlive,?_,hsum,?_⟩
  · rw [hlive]
    exact not_expired_dropWhile hsort
  intro h' hle
  have hmono := length_takeWhile_mono
    (expired_mono (cfg.historyLimit_anti now h' hle)) s.q.live
  omega

def Store.single (cfg : Config) (x : QueriesData) : Store where
  q := { QueryStore.empty 3 with mem := update (fun _ => .wiped) 0 x, queries := 1 }
  t := .empty
  gravity := .load World.plain.engine .empty
  statics := .initial
  config := cfg

theorem Store.single_valid {x : QueriesData} (hx : x.magic = true) :
    (single cfg x).q.Valid ∧ (single cfg x).Fits ∧ (single cfg x).q.Sorted ∧
      (single cfg x).q.live = [x] := by
  have hlive : (single cfg x).q.live = [x] := rfl
  refine ⟨⟨?_,?_,?_,?_⟩,?_,?_,hlive⟩
  · show 0+1 < 3
    decide
  · show 3 < uintMod
    decide
  · intro i hi
    have hzero : i = 0 := Nat.lt_one_iff.mp hi
    subst hzero
    exact hx
  · intro p hp
    have hne : p ≠ 0 := by
      have : 0+1 ≤ p := hp
      omega
    simp [single,hne,wiped]
  · show 3 < uintMod
    decide
  · exact List.pairwise_singleton _ _

def QueriesData.ofTime (m : Int) : QueriesData :=
  { QueriesData.wiped with magic := true, timestamp := m }

theorem QueriesData.expired_ofTime (m limit : Int) :
    (ofTime m).expired limit = decide (m ≤ limit) := by
  have hcast : (m : ℚ) ≤ limit ↔ m ≤ limit := Rat.intCast_le_intCast
  simp only [ofTime,expired,hcast]

/-- A non-flushing `runGC` keeps exactly the configured history of every query array just when its
limit is exact. -/
theorem runGC_keeps_history_iff :
    (∀ (s : Store) (clock : ℚ), s.config = cfg → s.q.Valid → s.Fits → s.q.Sorted →
        cfg.HistoryKept now s.q (s.collect now clock).q) ↔ cfg.LimitExact now := by
  constructor
  · intro h
    rw [← gcMintime_eq_historyLimit_iff]
    -- a single query of the later of the two limits is old for one of them only
    have hone : ∀ m : Int, m ≤ gcMintime cfg now false ↔ m ≤ cfg.historyLimit now := by
      intro m
      obtain ⟨hv,hf,hsort,hlive⟩ := single_valid cfg (x := .ofTime m) rfl
      have hkept := (h _ 0 rfl hv hf hsort).live
      rw [live_collect hv hf,hlive] at hkept
      have hcfg : (single cfg (.ofTime m)).config = cfg := rfl
      rw [hcfg] at hkept
      by_cases h₁ : m ≤ gcMintime cfg now false <;> by_cases h₂ : m ≤ cfg.historyLimit now <;>
        simp [expired_ofTime,h₁,h₂] at hkept ⊢
    have h₁ := hone (cfg.historyLimit now)
    have h₂ := hone (gcMintime cfg now false)
    omega
  · intro h s clock hcfg hv hf hsort
    exact h.historyKept cfg now hcfg hv hf hsort clock

/-- With a history of zero seconds the difference is minus the delay and wraps around:
a query of the day before is kept. -/
theorem runGC_keeps_everything :
    let cfg := ({ Config.default with maxHistory := 0 } : Config).setGcInterval
    let s := Store.single cfg (.ofTime 1000000000)
    cfg.historyLimit 1000086400 = 1000086360 ∧ (s.collect 1000086400 1000086400).q.queries = 1 := by
  decide

end

end Lorentz
