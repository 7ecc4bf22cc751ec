import Lorentz.Snapshots

/-!
The engine and its in-memory database with a ledger of what the source does not record: which
query, counted from the first, a row was written for, and in which run.
-/

set_option autoImplicit false

namespace Lorentz

structure Write where
  idx : Int
  owner : Nat
  serial : Nat
  row : Row
  deriving DecidableEq, Repr

/-- The engine with what the source does not record: the number of removed queries, now and when
the current `queries_to_database` began, the number of that run, and all rows committed. -/
structure Ledger where
  archive : Archive
  gone : Nat
  goneBefore : Nat
  serial : Nat
  log : List Write

namespace Ledger

def q (l : Ledger) : QueryStore := l.archive.sys.store.q

def write (l : Ledger) (snap : QuerySnap) : Write :=
  ⟨snap.idx,l.goneBefore+snap.queryID,l.serial,snap.row⟩

def writes (l : Ledger) : DbEvent → List Write
  | .commit succeeded true =>
    match l.archive.run with
    | some ⟨_,snaps,.snapped⟩ => (snaps.take succeeded).map l.write
    | _ => []
  | _ => []

def removes (l : Ledger) : DbEvent → Nat
  | .base e => l.archive.sys.removes e
  | _ => 0

def starts (l : Ledger) : DbEvent → Bool
  | .start _ _ _ _ => l.archive.run.isNone
  | _ => false

def step (l : Ledger) (e : DbEvent) : Ledger where
  archive := l.archive.step e
  gone := l.gone+l.removes e
  goneBefore := if l.starts e then l.gone else l.goneBefore
  serial := if l.starts e then l.serial+1 else l.serial
  log := l.log ++ l.writes e

def run (l : Ledger) (events : List DbEvent) : Ledger := events.foldl step l

def initial (sys : System) (maxid : Int) : Ledger :=
  ⟨⟨sys,true,.empty,fun _ => (0,0),fun _ => none,maxid,none⟩,0,0,0,[]⟩

/-- No `runGC` overlaps another, and no `queries_to_database` lasts until the counter of removed
queries goes round. -/
def sane (l : Ledger) : DbEvent → Bool
  | .base e => e.exclusive l.archive.sys
  | .finish => l.gone-l.goneBefore < uintMod
  | _ => true

end Ledger

def archiveSample : Ledger :=
  .initial (.initial { Config.default with rateLimitCount := 0 } .plain .empty) (-1)

section

variable (l : Ledger)

structure Ledger.TransferSound (tr : Transfer) : Prop where
  before : tr.removedBefore % uintMod = l.goneBefore % uintMod
  le : l.goneBefore ≤ l.gone
  live : ∀ snap ∈ tr.snaps, l.goneBefore+snap.queryID < l.gone+l.q.queries
  queries : tr.snaps.Pairwise (fun a b => a.queryID < b.queryID)
  ids : tr.snaps.Pairwise (fun a b => a.idx ≠ b.idx)
  fresh : ∀ snap ∈ tr.snaps, snap.isNew = true → l.archive.maxid < snap.idx

/-- Live queries have different row ids, none above `memdb_queries_maxid`. -/
structure Ledger.Sound : Prop where
  laid : l.archive.sys.Laid
  removed : l.q.removed % uintMod = l.gone % uintMod
  low : ∀ (i : Nat) d, l.q.rowIDs[i]? = some (some d) → d ≤ l.archive.maxid
  inj : ∀ (i j : Nat) d, l.q.rowIDs[i]? = some (some d) → l.q.rowIDs[j]? = some (some d) → i = j
  run : ∀ tr, l.archive.run = some tr → l.TransferSound tr

/-- The snapshots phase 1 takes: of live queries in their order, with the ids the queries have or
new ones. -/
structure Ledger.Takes (snaps : List QuerySnap) : Prop where
  isOf : ∀ snap ∈ snaps, snap.queryID < l.q.queries ∧ (snap.isNew = false →
    l.q.rowIDs[snap.queryID]? = some (some snap.idx))
  fresh : ∀ snap ∈ snaps, snap.isNew = true → l.archive.maxid < snap.idx
  order : snaps.Pairwise (fun a b => a.queryID < b.queryID ∧
    (a.isNew = true → b.isNew = true → a.idx < b.idx))

/-- What phase 3 leaves of committed snapshots; the new ids are known when it found one of the
new queries. -/
structure Ledger.Finishes (snaps : List QuerySnap) (sys : System) (maxid : Int) : Prop where
  laid : sys.Laid
  wrote : WroteBack l.gone l.goneBefore snaps l.q sys.store.q
  le : l.archive.maxid ≤ maxid
  new : (∃ snap ∈ snaps, snap.isNew = true ∧ l.gone ≤ l.goneBefore+snap.queryID) →
    ∀ snap ∈ snaps, snap.isNew = true → snap.idx ≤ maxid

/-- What an event can do. The hypotheses of each case are what the event has checked or
computed. -/
inductive Ledger.Change : Ledger → Prop where
  | same : Ledger.Change l
  | moved (sys : System) (r : Nat) (hl : sys.Laid) (hm : l.q.Moved r sys.store.q) :
      Ledger.Change { l with archive := { l.archive with sys := sys }, gone := l.gone+r }
  -- a run that ends in phase 1
  | idle (sys : System) (addinfoIDs : AddinfoCache) (hr : l.archive.run = none) (hl : sys.Laid)
      (hm : l.q.Moved 0 sys.store.q) :
      Ledger.Change { l with
        archive := { l.archive with sys := sys, addinfoIDs := addinfoIDs }
        goneBefore := l.gone
        serial := l.serial+1 }
  | snapped (sys : System) (links : Links) (addinfoIDs : AddinfoCache) (tr : Transfer)
      (hr : l.archive.run = none) (hl : sys.Laid) (hm : l.q.Moved 0 sys.store.q)
      (hq : sys.store.q.queries = l.q.queries)
      (hbefore : tr.removedBefore % uintMod = l.gone % uintMod)
      (hst : tr.stage = .snapped ∨ tr.stage = .failed) (ht : l.Takes tr.snaps) :
      Ledger.Change { l with
        archive := { l.archive with
          sys := sys, links := links, addinfoIDs := addinfoIDs, run := some tr }
        goneBefore := l.gone
        serial := l.serial+1 }
  | committed (removedBefore succeeded : Nat) (snaps : List QuerySnap)
      (hr : l.archive.run = some ⟨removedBefore,snaps,.snapped⟩) :
      Ledger.Change { l with
        archive := { l.archive with
          rows := replaceRows (snaps.take succeeded) l.archive.rows
          run := some ⟨removedBefore,snaps,.committed succeeded⟩ }
        log := l.log ++ (snaps.take succeeded).map l.write }
  | failed (removedBefore : Nat) (snaps : List QuerySnap)
      (hr : l.archive.run = some ⟨removedBefore,snaps,.snapped⟩) :
      Ledger.Change { l with archive := { l.archive with
        run := some ⟨removedBefore,snaps,.failed⟩ } }
  | requeued (sys : System) (tr : Transfer) (hr : l.archive.run = some tr)
      (hst : tr.stage = .failed) (hl : sys.Laid) (hm : l.q.Moved 0 sys.store.q) :
      Ledger.Change { l with archive := { l.archive with sys := sys, run := none } }
  | finished (sys : System) (tr : Transfer) (succeeded : Nat) (maxid : Int)
      (hr : l.archive.run = some tr) (hst : tr.stage = .committed succeeded)
      (hfin : l.Finishes (tr.snaps.take succeeded) sys maxid) :
      Ledger.Change { l with archive := { l.archive with sys := sys, maxid := maxid, run := none } }
  | deleted (mintime : ℚ) :
      Ledger.Change { l with archive := { l.archive with
        rows := fun i => (l.archive.rows i).filter (fun r => ¬ r.timestamp ≤ mintime) } }

end

attribute [local simp] Ledger.removes Ledger.writes Ledger.starts Archive.step Ledger.step

section

variable {l : Ledger}

theorem Ledger.rowIDs_lock : l.archive.sys.store.lockShm.q.rowIDs = l.q.rowIDs :=
  congrArg (List.map QueriesData.db) (QueryStore.live_ensureSize _)

theorem Ledger.removed_lock : l.archive.sys.store.lockShm.q.removed = l.q.removed :=
  (l.q.ensureSize_counters _).2.1

theorem Ledger.Sound.flagged (h : l.Sound) (hf : l.archive.sys.store.Fits) (store : Store)
    (hfl : l.archive.sys.store.lockShm.q.Flagged store.q) :
    System.Laid ⟨store,l.archive.sys.gc⟩ ∧ l.q.Moved 0 store.q ∧
      store.q.queries = l.q.queries := by
  obtain ⟨_,_,hlen⟩ := h.laid.lock hf
  refine ⟨⟨hfl.valid,?_⟩,Store.moved_of_lock hfl.moved,hfl.queries.trans hlen⟩
  rw [hfl.queries,hlen]
  exact h.laid.le

theorem Ledger.Sound.since (h : l.Sound) {tr : Transfer} (ht : l.TransferSound tr)
    (hlt : l.gone-l.goneBefore < uintMod) :
    l.archive.sys.store.lockShm.q.Since l.gone l.goneBefore tr.removedBefore := by
  have hs : l.q.Since l.gone l.goneBefore tr.removedBefore := ⟨h.removed,ht.before,ht.le,hlt⟩
  exact hs.congr removed_lock

theorem Ledger.Sound.change_base (h : l.Sound) (hf : l.archive.sys.store.Fits) {e : Event}
    (hs : e.exclusive l.archive.sys = true) : l.Change (l.step (.base e)) := by
  have hstep : l.step (.base e) = { l with
      archive := { l.archive with sys := l.archive.sys.step e }
      gone := l.gone+l.archive.sys.removes e } := by
    simp
  rw [hstep]
  exact .moved _ _ (h.laid.step hf hs) (h.laid.moved hf e)

theorem QueryStore.scanWindow_le {q : QueryStore} {limit : ℚ} {n last : Nat}
    (h : q.scanWindow limit n = some last) : last ≤ n+1 := by
  induction n with
  | zero =>
    simp only [QueryStore.scanWindow,Option.some.injEq] at h
    omega
  | succ n ih =>
    unfold QueryStore.scanWindow at h
    split at h
    · cases h
    split at h
    · simp only [Option.some.injEq] at h
      omega
    · have := ih h
      omega

theorem Ledger.Sound.change_snapshot (h : l.Sound) (hf : l.archive.sys.store.Fits)
    (hr : l.archive.run = none) {last : Nat} (hlast : last ≤ l.q.queries) (linkError : Option Nat)
    (endOk : Bool) :
    l.Change { l with
      archive := l.archive.lock.snapshot last linkError endOk
      goneBefore := l.gone
      serial := l.serial+1 } := by
  obtain ⟨hv,_,hlen⟩ := h.laid.lock hf
  have hids := l.rowIDs_lock
  have hrem := l.removed_lock
  have hlen' : l.archive.sys.store.lockShm.q.queries = l.q.queries := hlen
  unfold Archive.snapshot Archive.lock
  simp only
  generalize hq : l.archive.sys.store.lockShm.q = q at hv hids hrem hlen'
  generalize hres : takeSnapshots (q.queries-last) last l.archive.maxid _ q = r
  have hs : Snapped (q.queries-last) last l.archive.maxid q r := by
    rw [← hres]
    exact takeSnapshots_snapped _ _ _ _ _ hv (by omega)
  cases endOk with
  | false =>
    have hmod : q.removed % uintMod = l.gone % uintMod := by
      rw [hrem]
      exact h.removed
    have hsince : q.Since l.gone l.gone q.removed := ⟨hmod,hmod,Nat.le_refl _,by simp [uintMod]⟩
    have hrq := requeueSnapshots_flagged r.snaps r.q hs.flagged.valid
      (hsince.congr hs.flagged.removed) (by
        intro snap hsnap
        rw [hs.flagged.queries]
        exact Nat.add_lt_add_left (hs.isOf snap hsnap).1.live _)
    obtain ⟨hlaid,hm,_⟩ := h.flagged hf { l.archive.sys.store.lockShm with
      q := requeueSnapshots q.removed r.snaps r.q, t := r.linking.t }
      (by rw [hq]; exact hs.flagged.trans hrq)
    exact .idle _ _ hr hlaid hm
  | true =>
    obtain ⟨hlaid,hm,hqueries⟩ := h.flagged hf { l.archive.sys.store.lockShm with
      q := r.q, t := r.linking.t } (by rw [hq]; exact hs.flagged)
    refine .snapped _ _ _ _ hr hlaid hm hqueries ?_ ?_ ⟨?_,hs.fresh,hs.order⟩
    · rw [hrem]
      exact h.removed
    · cases r.failed <;> simp
    intro snap hsnap
    obtain ⟨hof,_⟩ := hs.isOf snap hsnap
    refine ⟨hlen' ▸ hof.live,fun hold => ?_⟩
    rw [← hids]
    exact hof.rowID hold

theorem Ledger.Sound.change_start (h : l.Sound) (hf : l.archive.sys.store.Fits) (now : ℚ)
    (beginOk : Bool) (linkError : Option Nat) (endOk : Bool) :
    l.Change (l.step (.start now beginOk linkError endOk)) := by
  cases hr : l.archive.run with
  | some tr =>
    have hstep : l.step (.start now beginOk linkError endOk) = l := by
      simp [hr]
    rw [hstep]
    exact .same
  | none =>
    have hstep : l.step (.start now beginOk linkError endOk) = { l with
        archive := l.archive.start now beginOk linkError endOk
        goneBefore := l.gone
        serial := l.serial+1 } := by
      simp [hr]
    rw [hstep]
    unfold Archive.start
    split
    · exact .idle _ _ hr h.laid (QueryStore.Moved.refl h.laid.valid)
    rename_i hguard
    have hlen : l.archive.lock.sys.store.q.queries = l.q.queries := (h.laid.lock hf).2.2
    have hidle : l.Change { l with
        archive := l.archive.lock, goneBefore := l.gone, serial := l.serial+1 } := by
      obtain ⟨hlaid,hm,_⟩ := h.flagged hf _ (QueryStore.Flagged.refl (h.laid.lock hf).1)
      exact .idle _ _ hr hlaid hm
    simp only
    split
    · exact hidle
    rename_i hscan
    split
    · exact hidle
    · have hle := QueryStore.scanWindow_le hscan
      have hpos : l.q.queries ≠ 0 := fun hz => hguard (.inr (.inl hz))
      exact h.change_snapshot hf hr (by omega) linkError endOk

theorem Ledger.change_commit (l : Ledger) (succeeded : Nat) (ok : Bool) :
    l.Change (l.step (.commit succeeded ok)) := by
  have hsame : (∀ removedBefore snaps, l.archive.run ≠ some ⟨removedBefore,snaps,.snapped⟩) →
      l.step (.commit succeeded ok) = l := by
    intro hno
    cases hr : l.archive.run with
    | none =>
      cases ok <;> simp [hr]
    | some tr =>
      obtain ⟨removedBefore,snaps,stage⟩ := tr
      cases stage with
      | snapped => exact absurd hr (hno _ _)
      | committed n | failed => cases ok <;> simp [hr]
  by_cases hrun : ∃ removedBefore snaps, l.archive.run = some ⟨removedBefore,snaps,.snapped⟩
  · obtain ⟨removedBefore,snaps,hr⟩ := hrun
    cases ok with
    | true =>
      have hstep : l.step (.commit succeeded true) = { l with
          archive := { l.archive with
            rows := replaceRows (snaps.take succeeded) l.archive.rows
            run := some ⟨removedBefore,snaps,.committed succeeded⟩ }
          log := l.log ++ (snaps.take succeeded).map l.write } := by
        simp [hr]
      rw [hstep]
      exact .committed _ _ _ hr
    | false =>
      have hstep : l.step (.commit succeeded false) = { l with
          archive := { l.archive with run := some ⟨removedBefore,snaps,.failed⟩ } } := by
        simp [hr]
      rw [hstep]
      exact .failed _ _ hr
  · rw [hsame fun removedBefore snaps hr => hrun ⟨removedBefore,snaps,hr⟩]
    exact .same

theorem le_committedMaxid (snaps : List QuerySnap) (maxid : Int) :
    maxid ≤ committedMaxid snaps maxid ∧
      ∀ snap ∈ snaps, snap.isNew = true → snap.idx ≤ committedMaxid snaps maxid := by
  induction snaps generalizing maxid with
  | nil => exact ⟨Int.le_refl _,by simp⟩
  | cons snap snaps ih =>
    obtain ⟨h₁,h₂⟩ := ih (if snap.isNew && snap.idx > maxid then snap.idx else maxid)
    constructor
    · refine Int.le_trans ?_ h₁
      split
      · rename_i hcond
        simp only [Bool.and_eq_true,decide_eq_true_eq] at hcond
        omega
      · exact Int.le_refl _
    · intro s hs hnew
      rcases List.mem_cons.mp hs with rfl | hs
      · refine Int.le_trans ?_ h₁
        by_cases hgt : s.idx > maxid
        · simp [hnew,hgt]
        · omega
      · exact h₂ s hs hnew

theorem WroteBack.congr {gone goneBefore : Nat} {snaps : List QuerySnap} {q q' r : QueryStore}
    (h : WroteBack gone goneBefore snaps q r) (hq : q.queries = q'.queries)
    (hr : q.removed = q'.removed) (hids : q.rowIDs = q'.rowIDs) :
    WroteBack gone goneBefore snaps q' r :=
  ⟨h.valid,h.queries.trans hq,h.removed.trans hr,by rw [← hids,← hq]; exact h.ids⟩

theorem Ledger.Sound.finish_eq (h : l.Sound) (hf : l.archive.sys.store.Fits) {tr : Transfer}
    (hr : l.archive.run = some tr) {succeeded : Nat} (hst : tr.stage = .committed succeeded)
    (hlt : l.gone-l.goneBefore < uintMod) : ∃ sys maxid,
      l.archive.finish tr = { l.archive with sys := sys, maxid := maxid, run := none } ∧
      l.Finishes (tr.snaps.take succeeded) sys maxid := by
  have ht := h.run tr hr
  obtain ⟨hv,_,hlen⟩ := h.laid.lock hf
  have hsince := h.since ht hlt
  have hlive : ∀ snap ∈ tr.snaps,
      l.goneBefore+snap.queryID < l.gone+l.archive.sys.store.lockShm.q.queries := by
    intro snap hs
    rw [hlen]
    exact ht.live snap hs
  unfold Archive.finish Archive.lock Archive.withQueries
  simp only [hst]
  have hfl := requeueSnapshots_flagged (tr.snaps.drop succeeded) _ hv hsince
    fun snap hs => hlive snap (List.mem_of_mem_drop hs)
  generalize requeueSnapshots tr.removedBefore (tr.snaps.drop succeeded) _ = q at hfl
  obtain ⟨hwb,hadd⟩ := writeBack_wroteBack (tr.snaps.take succeeded) q hfl.valid
    (hsince.congr hfl.removed) (by
      intro snap hs
      rw [hfl.queries]
      exact hlive snap (List.mem_of_mem_take hs))
  generalize writeBack tr.removedBefore (tr.snaps.take succeeded) q = r at hwb hadd
  obtain ⟨hmax,hmaxNew⟩ := le_committedMaxid (tr.snaps.take succeeded) l.archive.maxid
  refine ⟨_,_,rfl,⟨hwb.valid,?_⟩,?_,?_,?_⟩
  · rw [hwb.queries,hfl.queries,hlen]
    exact h.laid.le
  · exact hwb.congr (hfl.queries.trans hlen) (hfl.removed.trans removed_lock)
      (hfl.rowIDs.trans rowIDs_lock)
  · split
    · exact hmax
    · exact Int.le_refl _
  · intro hex
    rw [if_pos (hadd.mpr hex)]
    exact hmaxNew

theorem Ledger.step_finish {tr : Transfer} (hr : l.archive.run = some tr)
    (hst : tr.stage ≠ .snapped) : l.step .finish = { l with archive := l.archive.finish tr } := by
  obtain ⟨removedBefore,snaps,stage⟩ := tr
  cases stage with
  | snapped => exact absurd rfl hst
  | committed _ | failed => simp [hr]

theorem Ledger.Sound.change_finish (h : l.Sound) (hf : l.archive.sys.store.Fits)
    (hlt : l.gone-l.goneBefore < uintMod) : l.Change (l.step .finish) := by
  cases hr : l.archive.run with
  | none =>
    have hstep : l.step .finish = l := by
      simp [hr]
    rw [hstep]
    exact .same
  | some tr =>
    cases hst : tr.stage with
    | snapped =>
      obtain ⟨removedBefore,snaps,stage⟩ := tr
      subst hst
      have hstep : l.step .finish = l := by
        simp [hr]
      rw [hstep]
      exact .same
    | failed =>
      rw [step_finish hr (by simp [hst])]
      have ht := h.run tr hr
      obtain ⟨hv,_,hlen⟩ := h.laid.lock hf
      have hfl := requeueSnapshots_flagged tr.snaps _ hv (h.since ht hlt) (by
        intro snap hs
        rw [hlen]
        exact ht.live snap hs)
      obtain ⟨hlaid,hm,_⟩ := h.flagged hf { l.archive.sys.store.lockShm with
        q := requeueSnapshots tr.removedBefore tr.snaps l.archive.sys.store.lockShm.q } hfl
      unfold Archive.finish
      simp only [hst]
      exact .requeued _ tr hr hst hlaid hm
    | committed succeeded =>
      obtain ⟨sys,maxid,heq,hfin⟩ := h.finish_eq hf hr hst hlt
      rw [step_finish hr (by simp [hst]),heq]
      exact .finished sys tr succeeded maxid hr hst hfin

theorem Ledger.change_deleteOld (l : Ledger) (mintime : ℚ) :
    l.Change (l.step (.deleteOld mintime)) := by
  have hstep : l.step (.deleteOld mintime) = { l with archive := { l.archive with
      rows := fun i => (l.archive.rows i).filter (fun r => ¬ r.timestamp ≤ mintime) } } := by
    simp
  rw [hstep]
  exact .deleted mintime

section

variable (h : l.Sound)
include h

theorem Ledger.Sound.change (hf : l.archive.sys.store.Fits) {e : DbEvent} (hs : l.sane e = true) :
    l.Change (l.step e) := by
  cases e with
  | base e => exact h.change_base hf hs
  | start now beginOk linkError endOk => exact h.change_start hf now beginOk linkError endOk
  | commit succeeded ok => exact l.change_commit succeeded ok
  | finish => exact h.change_finish hf (by simpa [Ledger.sane] using hs)
  | deleteOld mintime => exact l.change_deleteOld mintime

theorem Ledger.Sound.moved {sys : System} {r : Nat} (hl : sys.Laid) (hm : l.q.Moved r sys.store.q) :
    Ledger.Sound { l with archive := { l.archive with sys := sys }, gone := l.gone+r } := by
  refine ⟨hl,?_,?_,?_,?_⟩
  · show sys.store.q.removed % uintMod = (l.gone+r) % uintMod
    rw [hm.removed,Nat.add_mod,h.removed,← Nat.add_mod]
  · intro i d hid
    exact h.low _ d (hm.rowID hid)
  · intro i j d hi hj
    have := h.inj _ _ d (hm.rowID hi) (hm.rowID hj)
    omega
  intro tr hr
  obtain ⟨hb,hle,hlive,hq,hids,hfresh⟩ := h.run tr hr
  refine ⟨hb,Nat.le_trans hle (Nat.le_add_right _ _),?_,hq,hids,hfresh⟩
  intro snap hs
  have := hlive snap hs
  have := hm.queries
  show l.goneBefore+snap.queryID < l.gone+r+sys.store.q.queries
  omega

theorem Ledger.Sound.ids_ne {snaps : List QuerySnap} (ht : l.Takes snaps) :
    snaps.Pairwise (fun a b => a.idx ≠ b.idx) := by
  obtain ⟨hof,hfresh,horder⟩ := ht
  have hlow : ∀ snap ∈ snaps, snap.isNew = false → snap.idx ≤ l.archive.maxid :=
    fun snap hs hold => h.low _ _ ((hof snap hs).2 hold)
  refine horder.imp_of_mem ?_
  intro a b ha hb hab heq
  cases hna : a.isNew with
  | true =>
    have hfa := hfresh a ha hna
    cases hnb : b.isNew with
    | true =>
      have := hab.2 hna hnb
      omega
    | false =>
      have := hlow b hb hnb
      omega
  | false =>
    cases hnb : b.isNew with
    | true =>
      have h₁ := hfresh b hb hnb
      have h₂ := hlow a ha hna
      omega
    | false =>
      have := h.inj _ _ _ ((hof a ha).2 hna) (heq ▸ (hof b hb).2 hnb)
      omega

theorem Ledger.Sound.finished {sys : System} {tr : Transfer} {succeeded : Nat} {maxid : Int}
    (hr : l.archive.run = some tr) (hfin : l.Finishes (tr.snaps.take succeeded) sys maxid) :
    Ledger.Sound { l with
      archive := { l.archive with sys := sys, maxid := maxid, run := none } } := by
  obtain ⟨hl,hw,hmax,hnew⟩ := hfin
  have ht := h.run tr hr
  have hcases : ∀ (i : Nat) d, sys.store.q.rowIDs[i]? = some (some d) →
      (∃ snap ∈ tr.snaps.take succeeded, snap.isNew = true ∧
        l.goneBefore+snap.queryID = l.gone+i ∧ snap.idx = d) ∨
      l.q.rowIDs[i]? = some (some d) := by
    intro i d hid
    have hi : i < l.q.queries := by
      rw [← hw.queries,← QueryStore.length_rowIDs]
      exact (List.getElem?_eq_some_iff.mp hid).1
    obtain ⟨snap,hs,hn,ho,hval⟩ | ⟨_,hsame⟩ := hw.ids i hi
    · rw [hid] at hval
      exact .inl ⟨snap,hs,hn,ho,by simpa using hval.symm⟩
    · exact .inr (hsame ▸ hid)
  have hmem : ∀ snap ∈ tr.snaps.take succeeded, snap ∈ tr.snaps :=
    fun snap hs => List.mem_of_mem_take hs
  refine ⟨hl,?_,?_,?_,by simp⟩
  · show sys.store.q.removed % uintMod = _
    rw [hw.removed]
    exact h.removed
  · intro i d hid
    rcases hcases i d hid with ⟨snap,hs,hn,ho,rfl⟩ | hold
    · exact hnew ⟨snap,hs,hn,by omega⟩ snap hs hn
    · exact Int.le_trans (h.low i d hold) hmax
  intro i j d hi hj
  rcases hcases i d hi with ⟨a,ha,hna,hoa,hda⟩ | hia
  · rcases hcases j d hj with ⟨b,hb,hnb,hob,hdb⟩ | hjb
    · have hsymm : Std.Symm (fun a b : QuerySnap => a.idx ≠ b.idx) := ⟨fun _ _ hne => hne.symm⟩
      by_cases hab : a = b
      · subst hab
        omega
      · exact absurd (hda.trans hdb.symm)
          (ht.ids.forall (hmem a ha) (hmem b hb) hab)
    · have h₁ := ht.fresh a (hmem a ha) hna
      have h₂ := h.low j d hjb
      omega
  · rcases hcases j d hj with ⟨b,hb,hnb,hob,hdb⟩ | hjb
    · have h₁ := ht.fresh b (hmem b hb) hnb
      have h₂ := h.low i d hia
      omega
    · exact h.inj i j d hia hjb

theorem Ledger.Sound.of_change {l' : Ledger} (hc : l.Change l') : l'.Sound := by
  cases hc with
  | same => exact h
  | moved sys r hl hm => exact h.moved hl hm
  | idle sys addinfoIDs hr hl hm =>
    obtain ⟨hlaid,hrem,hlow,hinj,_⟩ := h.moved hl hm
    exact ⟨hlaid,hrem,hlow,hinj,by simp [hr]⟩
  | snapped sys links addinfoIDs tr hr hl hm hq hbefore hst ht =>
    obtain ⟨hlaid,hrem,hlow,hinj,_⟩ := h.moved hl hm
    refine ⟨hlaid,hrem,hlow,hinj,?_⟩
    intro tr' htr
    obtain rfl : tr = tr' := by simpa using htr
    refine ⟨hbefore,Nat.le_refl _,?_,ht.order.imp fun hab => hab.1,h.ids_ne ht,ht.fresh⟩
    intro snap hs
    show l.gone+snap.queryID < l.gone+sys.store.q.queries
    rw [hq]
    exact Nat.add_lt_add_left (ht.isOf snap hs).1 _
  | committed removedBefore _ snaps hr | failed removedBefore snaps hr =>
    refine ⟨h.laid,h.removed,h.low,h.inj,?_⟩
    intro tr htr
    obtain rfl : _ = tr := by simpa using htr
    obtain ⟨hb,hle,hlive,hq,hids,hfresh⟩ := h.run _ hr
    exact ⟨hb,hle,hlive,hq,hids,hfresh⟩
  | requeued sys tr hr hst hl hm =>
    obtain ⟨hlaid,hrem,hlow,hinj,_⟩ := h.moved hl hm
    exact ⟨hlaid,hrem,hlow,hinj,by simp⟩
  | finished sys tr succeeded maxid hr hst hfin => exact h.finished hr hfin
  | deleted mintime =>
    refine ⟨h.laid,h.removed,h.low,h.inj,?_⟩
    intro tr hr
    obtain ⟨hb,hle,hlive,hq,hids,hfresh⟩ := h.run tr hr
    exact ⟨hb,hle,hlive,hq,hids,hfresh⟩

end

theorem Ledger.Sound.init {store : Store} (maxid : Int)
    (hq : store.q = .empty store.config.pagesize) : (Ledger.initial ⟨store,none⟩ maxid).Sound := by
  have hids : (Ledger.initial ⟨store,none⟩ maxid).q.rowIDs = [] := by
    show store.q.rowIDs = []
    rw [hq]
    rfl
  refine ⟨System.Laid.init hq,?_,?_,?_,by simp [Ledger.initial]⟩
  · show store.q.removed % uintMod = 0 % uintMod
    rw [hq]
    rfl
  · intro i d hid
    rw [hids] at hid
    cases hid
  · intro i j d hid
    rw [hids] at hid
    cases hid

theorem Ledger.Sound.step (h : l.Sound) (hf : l.archive.sys.store.Fits) {e : DbEvent}
    (hs : l.sane e = true) : (l.step e).Sound :=
  h.of_change (h.change hf hs)

end

/-- The states reached from the empty store and in-memory database when every step meets `ok`. -/
inductive Ledger.Reachable (ok : Ledger → DbEvent → Bool) : Ledger → Prop where
  | init {store : Store} {maxid : Int} (hq : store.q = .empty store.config.pagesize) :
      Ledger.Reachable ok (.initial ⟨store,none⟩ maxid)
  | step {l : Ledger} {e : DbEvent} (h : Ledger.Reachable ok l) (hf : l.archive.sys.store.Fits)
      (hs : ok l e = true) : Ledger.Reachable ok (l.step e)

def Ledger.meets (ok : Ledger → DbEvent → Bool) (l : Ledger) : List DbEvent → Bool
  | [] => true
  | e :: events => decide l.archive.sys.store.Fits && ok l e && (l.step e).meets ok events

section

variable {ok : Ledger → DbEvent → Bool} {l : Ledger}

theorem Ledger.Reachable.run (h : Ledger.Reachable ok l) (events : List DbEvent)
    (hs : l.meets ok events = true) : Ledger.Reachable ok (l.run events) := by
  induction events generalizing l with
  | nil => exact h
  | cons e events ih =>
    simp only [Ledger.meets,Bool.and_eq_true,decide_eq_true_eq] at hs
    exact ih (h.step hs.1.1 hs.1.2) hs.2

theorem Ledger.meets_append (events more : List DbEvent) :
    l.meets ok (events ++ more) = (l.meets ok events && (l.run events).meets ok more) := by
  induction events generalizing l with
  | nil => rfl
  | cons e events ih =>
    simp only [List.cons_append,Ledger.meets,ih,Bool.and_assoc]
    rfl

theorem Ledger.Reachable.sound (h : Ledger.Reachable Ledger.sane l) : l.Sound := by
  induction h with
  | init hq => exact Ledger.Sound.init _ hq
  | step _ hf hs ih => exact ih.step hf hs

end

/-- A snapshot of a run in progress finds its query, the one with number `goneBefore + queryID`,
while fewer than 2^32 queries were removed since. -/
theorem snapshot_finds_query {l : Ledger} (h : Ledger.Reachable Ledger.sane l)
    (hf : l.archive.sys.store.Fits) {tr : Transfer} (hr : l.archive.run = some tr)
    (hlt : l.gone-l.goneBefore < uintMod) {snap : QuerySnap} (hs : snap ∈ tr.snaps) :
    let q := l.archive.sys.store.lockShm.q
    let number := l.goneBefore+snap.queryID
    (number < l.gone → q.getSnapshotQuery tr.removedBefore snap = none) ∧
      (l.gone ≤ number → number-l.gone < q.queries ∧
        q.getSnapshotQuery tr.removedBefore snap = some (number-l.gone+q.offset)) := by
  have hsound := h.sound
  have ht := hsound.run tr hr
  obtain ⟨hv,_,hlen⟩ := hsound.laid.lock hf
  have hlive : l.goneBefore+snap.queryID < l.gone+l.archive.sys.store.lockShm.q.queries := by
    rw [hlen]
    exact ht.live snap hs
  have hget := (hsound.since ht hlt).getSnapshotQuery hv hlive
  constructor
  · intro hgone
    rw [hget,if_pos hgone]
  · intro hkept
    rw [hget,if_neg (Nat.not_lt.mpr hkept)]
    exact ⟨by omega,rfl⟩

def oneSnapshot : Ledger :=
  archiveSample.run [.base (.newQuery .plain (.of "10.0.0.2" "example.com" 1 100)),
    .start 101 true none true]

theorem snapshot_finds_query_first :
    ∃ tr, oneSnapshot.archive.run = some tr ∧ ∃ snap ∈ tr.snaps,
      oneSnapshot.archive.sys.store.lockShm.q.getSnapshotQuery tr.removedBefore snap ≠ none := by
  have h₀ : Ledger.Reachable Ledger.sane archiveSample := .init rfl
  have h : Ledger.Reachable Ledger.sane oneSnapshot := h₀.run _ (by decide)
  have hany : oneSnapshot.archive.run.any (fun tr => tr.snaps ≠ []) = true := by decide
  obtain ⟨tr,hr,hany⟩ := (Option.any_eq_true ..).mp hany
  obtain ⟨snap,hs⟩ := List.exists_mem_of_ne_nil _ (of_decide_eq_true hany)
  have hfound := (snapshot_finds_query h (by decide) hr (by decide) hs).2 (Nat.zero_le _)
  exact ⟨tr,hr,snap,hs,by rw [hfound.2]; simp⟩

/-- A query of Lorentz itself, which no setting keeps out of the records. -/
def internalQuery : Packet := { Packet.of "" "example.com" 1 100 with addr := none }

theorem Store.registerQuery_internal {s : Store} (hv : s.lockShm.q.Valid) :
    ∃ x, x.timestamp = 100 ∧ (s.registerQuery .plain internalQuery).2.q =
      s.lockShm.q.append (s.lockShm.q.queries+s.lockShm.q.offset) x := by
  have hclient (cfg : Config) : internalQuery.client cfg = ("::".toList,true) := by
    simp [Packet.client,internalQuery,Packet.of]
  have hlimit (c : ClientsData) (n : Nat) : (c.limitRate n true).1 = false := by
    simp [ClientsData.limitRate]
  have htype : internalQuery.type = .a := by decide
  rw [registerQuery,if_neg (by simp [internalQuery,Packet.of])]
  simp only [hclient]
  rw [if_neg (by simp),registerLocked]
  simp only [hclient,hlimit,htype,ne_eq,not_true,decide_false,Bool.and_false,Bool.false_and,
    Bool.false_eq_true,if_false]
  generalize hs : (Store.mk s.lockShm.q _ _ _ _) = s'
  obtain ⟨x,-,-,-,-,-,ht,-,hq⟩ := Store.recordQuery_effect (s := s') (q := s.lockShm.q) .plain
    (by rw [← hs]) hv internalQuery _ true
  exact ⟨x,ht,hq⟩

section

variable {l : Ledger}

theorem Store.lockShm_queriesMax {s : Store} (h : s.q.queries+1 < s.q.queriesMax) :
    s.lockShm.q.queriesMax = s.q.queriesMax := by
  unfold lockShm QueryStore.ensureSize
  dsimp only [QueryStore.compact]
  split_ifs <;> first | rfl | (dsimp only at *; omega)

/-- The run of `oneSnapshot` is in progress, `n` queries were removed and there are `k`. -/
structure Ledger.Drained (n k : Nat) (l : Ledger) : Prop where
  reachable : Ledger.Reachable Ledger.sane l
  gc : l.archive.sys.gc = none
  run : l.archive.run = oneSnapshot.archive.run
  before : l.goneBefore = 0
  gone : l.gone = n
  max : l.q.queriesMax = 4096
  queries : l.q.queries = k
  old : ∀ x ∈ l.q.live, x.timestamp = 100

variable {n k : Nat}

theorem Ledger.Drained.locked (h : l.Drained n k) (hk : k ≤ 1) :
    l.archive.sys.store.lockShm.q.queriesMax = 4096 ∧ l.archive.sys.store.Fits := by
  have hq : l.archive.sys.store.q.queries = k := h.queries
  have hm : l.archive.sys.store.q.queriesMax = 4096 := h.max
  have hlock := Store.lockShm_queriesMax (s := l.archive.sys.store) (by omega)
  rw [hm] at hlock
  exact ⟨hlock,by rw [Store.Fits,hlock]; decide⟩

theorem Ledger.Drained.register (h : l.Drained n 0) :
    (l.step (.base (.registerQuery .plain internalQuery))).Drained n 1 := by
  obtain ⟨hmax,hf⟩ := h.locked (Nat.zero_le _)
  obtain ⟨hv,-,hlen⟩ := h.reachable.sound.laid.lock hf
  obtain ⟨x,hx,hq⟩ := Store.registerQuery_internal hv
  have hq' : (l.step (.base (.registerQuery .plain internalQuery))).q =
      l.archive.sys.store.lockShm.q.append _ x := hq
  have hnone : l.archive.sys.store.lockShm.q.queries = 0 := hlen.trans h.queries
  have hcount : (l.step (.base (.registerQuery .plain internalQuery))).q.queries = 1 := by
    rw [hq',QueryStore.append,hnone]
    rfl
  refine ⟨h.reachable.step hf (by simp [Ledger.sane,Event.exclusive,h.gc]),h.gc,h.run,h.before,
    h.gone,?_,hcount,?_⟩
  · rw [hq']
    exact hmax
  · intro y hy
    rw [QueryStore.live_append (q := l.archive.sys.store.lockShm.q) (x := x) (by rw [hcount,hnone])
      (by rw [hq']; rfl) (by rw [hq']; rfl)] at hy
    have hlive : l.archive.sys.store.lockShm.q.live = [] :=
      List.eq_nil_of_length_eq_zero (by rw [QueryStore.length_live,hnone])
    rw [hlive] at hy
    exact List.mem_singleton.1 hy ▸ hx

theorem Ledger.Drained.flush (h : l.Drained n 1) :
    (l.step (.base (.gcFlush 100 100))).Drained (n+1) 0 := by
  obtain ⟨hmax,hf⟩ := h.locked le_rfl
  obtain ⟨hv,-,hlen⟩ := h.reachable.sound.laid.lock hf
  obtain ⟨hcol,hn⟩ := Store.gcRemove_collected hv 100
  have hall : l.q.live.takeWhile (QueriesData.expired 100) = l.q.live := by
    refine List.takeWhile_eq_self_iff.2 fun x hx => ?_
    simp [QueriesData.expired,h.old x hx]
  have hone : (l.archive.sys.store.lockShm.gcRemove 100).2 = 1 := by
    have hlive : l.archive.sys.store.lockShm.q.live = l.q.live := QueryStore.live_ensureSize _
    rw [hn,hlive,hall,QueryStore.length_live,h.queries]
  have hq : (l.step (.base (.gcFlush 100 100))).q =
      (l.archive.sys.store.lockShm.gcRemove 100).1.q.drop 1 := by
    rw [← hone]
    rfl
  have hcount : (l.step (.base (.gcFlush 100 100))).q.queries = 0 := by
    have hbefore : (l.archive.sys.store.lockShm.gcRemove 100).1.q.queries = 1 :=
      hcol.queries.trans (hlen.trans h.queries)
    rw [hq]
    simp [QueryStore.drop,hbefore,uintMod]
  refine ⟨h.reachable.step hf (by simp [Ledger.sane,Event.exclusive,h.gc]),h.gc,h.run,h.before,
    ?_,?_,hcount,?_⟩
  · have hgone : (l.step (.base (.gcFlush 100 100))).gone =
        l.gone+(l.archive.sys.store.lockShm.gcRemove 100).2 := rfl
    rw [hgone,hone,h.gone]
  · rw [hq,QueryStore.drop,hcol.queriesMax,hmax,if_pos Nat.one_pos]
  · have hnil := QueryStore.length_live (l.step (.base (.gcFlush 100 100))).q
    rw [hcount] at hnil
    rw [List.eq_nil_of_length_eq_zero hnil]
    exact fun x hx => absurd hx List.not_mem_nil

theorem Ledger.exists_drained (n : Nat) : ∃ l : Ledger, l.Drained n 1 := by
  induction n with
  | zero =>
    have h₀ : Ledger.Reachable Ledger.sane archiveSample := .init rfl
    exact ⟨oneSnapshot,h₀.run _ (by decide),rfl,rfl,rfl,rfl,rfl,rfl,by decide⟩
  | succ n ih =>
    obtain ⟨l,h⟩ := ih
    exact ⟨_,h.flush.register⟩

end

/-- In a run in which 2^32 queries are removed the counter is where it was, and for a query that
is gone another one is found. -/
theorem snapshot_finds_other_query :
    ∃ (l : Ledger) (tr : Transfer), Ledger.Reachable Ledger.sane l ∧ l.archive.run = some tr ∧
      ∃ snap ∈ tr.snaps, l.goneBefore+snap.queryID < l.gone ∧
        (l.archive.sys.store.lockShm.q.getSnapshotQuery tr.removedBefore snap).isSome = true := by
  obtain ⟨l,h⟩ := Ledger.exists_drained uintMod
  obtain ⟨-,hf⟩ := h.locked le_rfl
  obtain ⟨hv,-,hlen⟩ := h.reachable.sound.laid.lock hf
  have hany : oneSnapshot.archive.run.any (fun tr => tr.removedBefore = 0 ∧
      ∃ snap ∈ tr.snaps, snap.queryID = 0) = true := by decide
  obtain ⟨tr,hr,hany⟩ := (Option.any_eq_true ..).mp hany
  obtain ⟨hbefore,snap,hs,hid⟩ := of_decide_eq_true hany
  refine ⟨l,tr,h.reachable,h.run.trans hr,snap,hs,?_,?_⟩
  · rw [h.before,h.gone,hid]
    decide
  have hremoved : l.archive.sys.store.lockShm.q.removed % uintMod = 0 := by
    have hsame := h.reachable.sound.removed
    rw [h.gone,Nat.mod_self] at hsame
    rwa [show l.archive.sys.store.lockShm.q.removed = l.q.removed from
      (l.q.ensureSize_counters _).2.1]
  have hshift : (l.archive.sys.store.lockShm.q.removed+(uintMod-0 % uintMod)) % uintMod = 0 := by
    simpa using hremoved
  have hlive : 0 < l.archive.sys.store.lockShm.q.queries := by
    rw [hlen]
    exact h.queries ▸ Nat.one_pos
  simp only [QueryStore.getSnapshotQuery,hbefore,hshift,hid]
  rw [if_neg (Nat.lt_irrefl 0),hv.getQuery_eq hlive]
  rfl

end Lorentz
