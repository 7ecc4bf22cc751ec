import Lorentz.Ledger
import Lorentz.Export

/-!
`flush_dnsmasq_log` between the phases of `queries_to_database` and exports. A query is known by
the number of queries before it, a row by the query it was written for.
-/

set_option autoImplicit false

namespace Lorentz
open Function Watermark

/-- A row of the long-term database. Those of earlier processes have no owner. -/
structure DiskRow where
  id : Int
  owner : Option Nat
  row : Row
  deriving DecidableEq, Repr

/-- The row is of a query that came when `b` queries had come before. -/
def DiskRow.isAfter (b : Nat) (x : DiskRow) : Bool := x.owner.any (fun o => b ≤ o)

def lastWrite (log : List Write) (i : Int) : Option Write := log.reverse.find? (fun w => w.idx = i)

def Ledger.table (l : Ledger) : List DiskRow :=
  (l.log.map Write.idx).dedup.filterMap (fun i =>
    match l.archive.rows i,lastWrite l.log i with
    | some row,some w => some ⟨i,some w.owner,row⟩
    | _,_ => none)

/-- Where a `flush_dnsmasq_log` is: `mintime` is when it started, `bound` the number of queries
that had arrived by then. -/
inductive FlushStage where
  | idle
  | started (mintime : ℚ) (bound : Nat)
  | purged (mintime : ℚ) (bound : Nat)
  deriving DecidableEq, Repr

/-- An export under way: the rows it has selected, the in-memory table when its transaction began,
and whether a flush has deleted from that table since. -/
structure PendingExport where
  rows : List DiskRow
  memory : Int → Option Row
  flushed : Bool

/-- `returned` are the bounds of the flushes that returned true. -/
structure Flusher where
  ledger : Ledger
  remote : Bool
  disk : List DiskRow
  exporting : Option PendingExport
  flush : Nat → FlushStage
  returned : List Nat

/-- Flushes are told apart by a number. Under the lock a flush truncates the log file, removes the
live queries and deletes in-memory rows, which may fail; then it deletes long-term rows. `okay` says
whether an export could store its rows, `ended` whether its transaction on the shared in-memory
connection could be ended and is not rolled back. -/
inductive FlushEvent where
  | db (e : DbEvent)
  | exportSelect (now : ℚ) (final : Bool)
  | exportEnd (okay ended : Bool)
  | start (t : Nat) (now : ℚ)
  | purge (t : Nat) (truncated : Bool) (now : Int) (clock : ℚ) (deleted : Bool)
  | delete (t : Nat) (okay : Bool)

namespace Flusher

variable (s : Flusher)

/-- The part with the lock held. `runGC` returns at once while the import is not done. -/
def purgeLedger (now : Int) (clock : ℚ) (deleted : Bool) : Ledger :=
  if s.ledger.archive.importDone then
    let l := s.ledger.step (.base (.gcFlush now clock))
    if deleted then l.step (.deleteOld now) else l
  else s.ledger.step (.base .ensureSize)

def diskLocked : Bool := !s.remote && s.exporting.isSome

/-- No transaction can be started within that of an export. -/
def admitted : DbEvent → DbEvent
  | .start now beginOk linkError endOk =>
    .start now (beginOk && s.exporting.isNone) linkError endOk
  | .commit succeeded ok => .commit succeeded (ok && s.exporting.isNone)
  | e => e

/-- A `ROLLBACK` on the in-memory connection. -/
def rolledBack (l : Ledger) (memory : Int → Option Row) : Ledger :=
  { l with archive := { l.archive with rows := memory } }

def step : FlushEvent → Flusher
  | .db e => { s with ledger := s.ledger.step (s.admitted e) }
  | .exportSelect now final =>
    match s.exporting with
    | some _ => s
    | none => { s with exporting := some ⟨fresh DiskRow.id
        (fun x => x.row.timestamp < exportTime now final) s.ledger.table s.disk,
        s.ledger.archive.rows,false⟩ }
  | .exportEnd okay ended =>
    match s.exporting with
    | none => s
    | some x => { s with
        -- the file is attached to the in-memory connection, a server has a transaction of its own
        disk := if okay && (s.remote || ended) then s.disk ++ x.rows else s.disk
        ledger := if ended then s.ledger else rolledBack s.ledger x.memory
        exporting := none }
  | .start t now =>
    match s.flush t with
    | .idle => { s with flush := update s.flush t (.started now (s.ledger.gone+s.ledger.q.queries)) }
    | _ => s
  | .purge t truncated now clock deleted =>
    match s.flush t with
    | .started mintime bound =>
      if truncated then { s with
        ledger := s.purgeLedger now clock deleted
        exporting := s.exporting.map (fun x => { x with flushed := true })
        flush := update s.flush t (.purged mintime bound) }
      else { s with flush := update s.flush t .idle }
    | _ => s
  | .delete t okay =>
    match s.flush t with
    | .purged mintime bound =>
      if okay = false then { s with flush := update s.flush t .idle }
      else if s.diskLocked then s
      else { s with
        disk := s.disk.filter (fun x => ¬ x.row.timestamp ≤ mintime)
        flush := update s.flush t .idle
        returned := bound :: s.returned }
    | _ => s

def run (es : List FlushEvent) : Flusher := es.foldl step s

def nothingSnapped : Bool := s.ledger.archive.run.all (fun tr => tr.stage ≠ .snapped)

/-- What arrived before the flush is not newer than the whole second `now`. -/
def noneNewer (bound : Nat) (now : Int) : Bool :=
  (s.ledger.q.live.take (bound-s.ledger.gone)).all (QueriesData.expired now) &&
    s.ledger.table.all (fun x => x.isAfter bound || x.row.timestamp ≤ now)

/-- When a flush removes queries and rows no snapshot waits to be written, on a server no export
has selected rows, and what came before is not newer than the limits. No export in which a flush
deleted rows is rolled back. -/
def safe : FlushEvent → Bool
  | .db e => s.ledger.sane e
  | .exportSelect _ _ | .start _ _ => true
  | .exportEnd _ ended => ended || s.exporting.all (fun x => !x.flushed)
  | .purge t truncated now _ deleted =>
    match s.flush t with
    | .started _ bound =>
      !truncated || (s.ledger.archive.sys.gc.isNone && s.ledger.archive.importDone && deleted &&
        s.nothingSnapped && (!s.remote || s.exporting.isNone) && s.noneNewer bound now)
    | _ => true
  | .delete t okay =>
    match s.flush t with
    | .purged mintime bound =>
      !okay || s.disk.all (fun x => x.isAfter bound || x.row.timestamp ≤ mintime)
    | _ => true

def meets : Flusher → List FlushEvent → Bool
  | _, [] => true
  | s, e :: es => decide s.ledger.archive.sys.store.Fits && s.safe e && meets (s.step e) es

end Flusher

/-- The states reached from the empty store, with any long-term rows of earlier processes, when
every step meets the condition. -/
inductive Flusher.Reachable : Flusher → Prop where
  | init {store : Store} {maxid : Int} (hq : store.q = .empty store.config.pagesize)
      (remote : Bool) (rows : List (Int × Row)) :
      Flusher.Reachable ⟨.initial ⟨store,none⟩ maxid,remote,rows.map (fun r => ⟨r.1,none,r.2⟩),none,
        fun _ => .idle,[]⟩
  | step {s : Flusher} {e : FlushEvent} (h : Flusher.Reachable s)
      (hf : s.ledger.archive.sys.store.Fits) (hs : s.safe e = true) : Flusher.Reachable (s.step e)

/-- Every row was written for a query that came when `b` queries had come before. -/
def WrittenAfter (b : Nat) (rows : Int → Option Row) (log : List Write) : Prop :=
  ∀ i r, rows i = some r → ∃ w, lastWrite log i = some w ∧ b ≤ w.owner

theorem lastWrite_append (log : List Write) (w : Write) (i : Int) :
    lastWrite (log ++ [w]) i = if w.idx = i then some w else lastWrite log i := by
  unfold lastWrite
  by_cases h : w.idx = i <;> simp [h]

theorem WrittenAfter.write {b : Nat} {rows : Int → Option Row} {log : List Write}
    (h : WrittenAfter b rows log) {w : Write} (hw : b ≤ w.owner) :
    WrittenAfter b (update rows w.idx (some w.row)) (log ++ [w]) := by
  intro i r hi
  rw [lastWrite_append]
  by_cases hidx : w.idx = i
  · exact ⟨w,if_pos hidx,hw⟩
  · rw [update_of_ne (Ne.symm hidx)] at hi
    rw [if_neg hidx]
    exact h i r hi

theorem WrittenAfter.replaceRows {b : Nat} (l : Ledger) (snaps : List QuerySnap)
    (hs : ∀ snap ∈ snaps, b ≤ l.goneBefore+snap.queryID) :
    ∀ (rows : Int → Option Row) (log : List Write), WrittenAfter b rows log →
      WrittenAfter b (replaceRows snaps rows) (log ++ snaps.map l.write) := by
  induction snaps with
  | nil =>
    intro rows log h
    simpa [Lorentz.replaceRows] using h
  | cons snap snaps ih =>
    intro rows log h
    have hone := ih (fun s hs' => hs s (List.mem_cons_of_mem _ hs')) _ _
      (h.write (w := l.write snap) (hs snap List.mem_cons_self))
    rwa [List.append_assoc] at hone

theorem Ledger.mem_table {l : Ledger} {x : DiskRow} :
    x ∈ l.table ↔ ∃ w, l.archive.rows x.id = some x.row ∧ lastWrite l.log x.id = some w ∧
      x.owner = some w.owner := by
  unfold Ledger.table
  rw [List.mem_filterMap]
  constructor
  · rintro ⟨i,-,hi⟩
    split at hi
    · rename_i w hrow hw
      cases hi
      exact ⟨w,hrow,hw,rfl⟩
    · cases hi
  rintro ⟨w,hrow,hw,ho⟩
  have hmem : w ∈ l.log := List.mem_reverse.1 (List.mem_of_find?_eq_some hw)
  have hidx : w.idx = x.id := by simpa using List.find?_some hw
  refine ⟨x.id,List.mem_dedup.2 (hidx ▸ List.mem_map_of_mem hmem),?_⟩
  rw [hrow,hw]
  cases x
  simp only [Option.some.injEq,DiskRow.mk.injEq,true_and,and_true]
  exact ho.symm

/-- The first `b` queries are neither live nor in the in-memory table, and no snapshot of
them waits to be written. -/
structure Ledger.Cleared (b : Nat) (l : Ledger) : Prop where
  gone : b ≤ l.gone
  rows : WrittenAfter b l.archive.rows l.log
  snaps : ∀ tr, l.archive.run = some tr → tr.stage = .snapped →
    ∀ snap ∈ tr.snaps, b ≤ l.goneBefore+snap.queryID

section

variable {l l' : Ledger} {b : Nat}

theorem Ledger.Cleared.of_change (h : l.Cleared b) (hc : l.Change l') : l'.Cleared b := by
  cases hc with
  | same => exact h
  | moved sys r hl hm => exact ⟨h.gone.trans (Nat.le_add_right _ _),h.rows,h.snaps⟩
  | idle sys addinfoIDs hr hl hm => exact ⟨h.gone,h.rows,by simp [hr]⟩
  | snapped sys links addinfoIDs tr hr hl hm hq hbefore hst ht =>
    exact ⟨h.gone,h.rows,fun _ _ _ snap _ => h.gone.trans (Nat.le_add_right _ _)⟩
  | committed removedBefore succeeded snaps hr =>
    refine ⟨h.gone,h.rows.replaceRows l _ (fun snap hs => ?_) _ _,?_⟩
    · exact h.snaps _ hr rfl snap (List.mem_of_mem_take hs)
    · rintro _ ⟨⟩ ⟨⟩
  | failed removedBefore snaps hr =>
    refine ⟨h.gone,h.rows,?_⟩
    rintro _ ⟨⟩ ⟨⟩
  | requeued sys tr hr hst hl hm => exact ⟨h.gone,h.rows,nofun⟩
  | finished sys tr succeeded maxid hr hst hfin => exact ⟨h.gone,h.rows,nofun⟩
  | deleted mintime =>
    exact ⟨h.gone,fun i r hi => h.rows i r (Option.filter_eq_some_iff.1 hi).1,h.snaps⟩

theorem Ledger.Change.arrived (hc : l.Change l') : l.gone+l.q.queries ≤ l'.gone+l'.q.queries := by
  cases hc with
  | same | committed | failed | deleted => exact Nat.le_refl _
  | moved sys r hl hm =>
    have := hm.queries
    change _ ≤ l.gone+r+sys.store.q.queries
    omega
  | idle _ _ _ _ hm | snapped _ _ _ _ _ _ hm | requeued _ _ _ _ _ hm =>
    exact Nat.add_le_add_left hm.queries _
  | finished sys tr succeeded maxid hr hst hfin =>
    exact Nat.add_le_add_left (le_of_eq hfin.wrote.queries.symm) _

theorem Ledger.Cleared.table (h : l.Cleared b) {x : DiskRow} (hx : x ∈ l.table) :
    x.isAfter b = true := by
  obtain ⟨w,hrow,hw,ho⟩ := Ledger.mem_table.1 hx
  obtain ⟨w',hw',hb⟩ := h.rows _ _ hrow
  rw [hw] at hw'
  cases hw'
  simpa [DiskRow.isAfter,ho] using hb

theorem le_length_takeWhile {α : Type} {p : α → Bool} {xs : List α} {k : Nat}
    (h : (xs.take k).all p = true) (hk : k ≤ xs.length) : k ≤ (xs.takeWhile p).length := by
  induction xs generalizing k with
  | nil => simpa using hk
  | cons x xs ih =>
    cases k with
    | zero => exact Nat.zero_le _
    | succ k =>
      simp only [List.take_succ_cons,List.all_cons,Bool.and_eq_true] at h
      rw [List.takeWhile_cons,if_pos h.1,List.length_cons]
      exact Nat.succ_le_succ (ih h.2 (by simpa using hk))

theorem Ledger.Sound.removes_gcFlush (h : l.Sound) (hf : l.archive.sys.store.Fits) (now : Int)
    (clock : ℚ) : l.removes (.base (.gcFlush now clock)) =
      (l.q.live.takeWhile (QueriesData.expired now)).length := by
  have hlive : l.archive.sys.store.lockShm.q.live = l.q.live := QueryStore.live_ensureSize _
  have hn := (Store.gcRemove_collected (h.laid.lock hf).1 now).2
  rw [hlive] at hn
  exact hn

theorem Ledger.Sound.purge (h : l.Sound) (hf : l.archive.sys.store.Fits)
    (hw : WrittenAfter 0 l.archive.rows l.log) {bound : Nat} (harr : bound ≤ l.gone+l.q.queries)
    (hsnap : ∀ tr, l.archive.run = some tr → tr.stage ≠ .snapped) {now : Int}
    (hlive : (l.q.live.take (bound-l.gone)).all (QueriesData.expired now) = true)
    (hrows : ∀ x ∈ l.table, x.isAfter bound = true ∨ x.row.timestamp ≤ now) (clock : ℚ) :
    ((l.step (.base (.gcFlush now clock))).step (.deleteOld now)).Cleared bound where
  gone := by
    have hlen : bound-l.gone ≤ l.q.live.length := by
      rw [QueryStore.length_live]
      omega
    have hle := le_length_takeWhile hlive hlen
    rw [← h.removes_gcFlush hf now clock] at hle
    change bound ≤ l.gone+l.removes (.base (.gcFlush now clock))+0
    omega
  rows i r hi := by
    obtain ⟨hrow,hnew⟩ := Option.filter_eq_some_iff.1 hi
    have hlog : ((l.step (.base (.gcFlush now clock))).step (.deleteOld now)).log = l.log := by
      simp [Ledger.step,Ledger.writes]
    rw [hlog]
    obtain ⟨w,hlast,-⟩ := hw i r hrow
    refine ⟨w,hlast,?_⟩
    have hx : (⟨i,some w.owner,r⟩ : DiskRow) ∈ l.table := Ledger.mem_table.2 ⟨w,hrow,hlast,rfl⟩
    rcases hrows _ hx with hafter | hold
    · simpa [DiskRow.isAfter] using hafter
    · exact absurd hold (by simpa using hnew)
  snaps tr htr hst := absurd hst (hsnap tr htr)

end

theorem Ledger.Sound.rolledBack {l : Ledger} (h : l.Sound) (memory : Int → Option Row) :
    (Flusher.rolledBack l memory).Sound where
  laid := h.laid
  removed := h.removed
  low := h.low
  inj := h.inj
  run tr htr := by
    obtain ⟨hbefore,hle,hlive,hqueries,hids,hfresh⟩ := h.run tr htr
    exact ⟨hbefore,hle,hlive,hqueries,hids,hfresh⟩

namespace Flusher

variable {s : Flusher}

/-- An export has selected no row of the first `b` queries. -/
def Exports (s : Flusher) (b : Nat) : Prop :=
  ∀ x, s.exporting = some x → ∀ r ∈ x.rows, r.isAfter b = true

/-- A rollback brings no row of the first `b` queries back. -/
def Restorable (s : Flusher) (b : Nat) : Prop :=
  ∀ x, s.exporting = some x → x.flushed = false → WrittenAfter b x.memory s.ledger.log

/-- What holds while a flush is under way and after it has returned true. -/
structure Inv (s : Flusher) : Prop where
  sound : s.ledger.Sound
  written : WrittenAfter 0 s.ledger.archive.rows s.ledger.log
  arrived : ∀ t m b, s.flush t = .started m b → b ≤ s.ledger.gone+s.ledger.q.queries
  memory : s.Restorable 0
  purged : ∀ t m b, s.flush t = .purged m b → s.ledger.Cleared b ∧ s.Restorable b ∧
    (s.remote = true → s.Exports b)
  returned : ∀ b ∈ s.returned, s.ledger.Cleared b ∧ s.Restorable b ∧ s.Exports b ∧
    ∀ x ∈ s.disk, x.isAfter b = true

theorem writtenAfter_of_change {l l' : Ledger} (hc : l.Change l')
    (h : WrittenAfter 0 l.archive.rows l.log) : WrittenAfter 0 l'.archive.rows l'.log := by
  have hcleared : l.Cleared 0 := ⟨Nat.zero_le _,h,fun _ _ _ _ _ => Nat.zero_le _⟩
  exact (hcleared.of_change hc).rows

/-- What an export selects now, and what its rollback would bring back. -/
theorem selected_after {b : Nat} (h : s.ledger.Cleared b) {x : PendingExport} {now : ℚ} {final : Bool}
    (hx : x = ⟨fresh DiskRow.id (fun x => x.row.timestamp < exportTime now final) s.ledger.table
      s.disk,s.ledger.archive.rows,false⟩) :
    ({ s with exporting := some x } : Flusher).Restorable b ∧
      ({ s with exporting := some x } : Flusher).Exports b := by
  subst hx
  refine ⟨?_,?_⟩
  · rintro _ ⟨⟩ -
    exact h.rows
  · rintro _ ⟨⟩ r hr
    exact h.table (mem_pending.1 (mem_fresh.1 hr).1).1

theorem sane_admitted {e : DbEvent} (h : s.ledger.sane e = true) :
    s.ledger.sane (s.admitted e) = true := by
  cases e <;> exact h

/-- Nothing is committed while an export is under way. -/
theorem log_admitted (e : DbEvent) (h : s.exporting.isSome) :
    (s.ledger.step (s.admitted e)).log = s.ledger.log := by
  have hnone : s.exporting.isNone = false := by simpa [Option.isSome_iff_ne_none] using h
  cases e <;> simp [Ledger.step,Ledger.writes,admitted,hnone]

section

variable {s' : Flusher} {b : Nat}
  (hs : s'.exporting = s.exporting.map (fun x => { x with flushed := true }))
include hs

theorem restorable_flushed : s'.Restorable b := by
  intro x hx hflushed
  obtain ⟨y,-,rfl⟩ := Option.map_eq_some_iff.1 (hs ▸ hx)
  cases hflushed

theorem exports_flushed (h : s.Exports b) : s'.Exports b := by
  intro x hx
  obtain ⟨y,hy,rfl⟩ := Option.map_eq_some_iff.1 (hs ▸ hx)
  exact h y hy

end

section

variable (h : s.Inv)
include h

theorem Inv.of_change {l : Ledger} (hc : s.ledger.Change l)
    (hlog : s.exporting.isSome → l.log = s.ledger.log) :
    ({ s with ledger := l } : Flusher).Inv := by
  have hmemory {b : Nat} (hb : s.Restorable b) : ({ s with ledger := l } : Flusher).Restorable b := by
    intro x hx hflushed
    have hx' : s.exporting = some x := hx
    change WrittenAfter b x.memory l.log
    rw [hlog (by simp [hx'])]
    exact hb x hx hflushed
  refine ⟨h.sound.of_change hc,writtenAfter_of_change hc h.written,
    fun t m b ht => (h.arrived t m b ht).trans hc.arrived,hmemory h.memory,fun t m b ht => ?_,
    fun b hb => ?_⟩
  · obtain ⟨hcleared,hrest,hremote⟩ := h.purged t m b ht
    exact ⟨hcleared.of_change hc,hmemory hrest,hremote⟩
  · obtain ⟨hcleared,hrest,hreturned⟩ := h.returned b hb
    exact ⟨hcleared.of_change hc,hmemory hrest,hreturned⟩

theorem Inv.idle (t : Nat) : ({ s with flush := update s.flush t .idle } : Flusher).Inv where
  sound := h.sound
  written := h.written
  arrived t' m b ht := by
    by_cases he : t' = t
    · simp [he] at ht
    · exact h.arrived t' m b (by simpa [he] using ht)
  purged t' m b ht := by
    by_cases he : t' = t
    · simp [he] at ht
    · exact h.purged t' m b (by simpa [he] using ht)
  memory := h.memory
  returned := h.returned

theorem Inv.exportSelect (now : ℚ) (final : Bool) : (s.step (.exportSelect now final)).Inv := by
  simp only [Flusher.step]
  split
  · exact h
  refine ⟨h.sound,h.written,h.arrived,?_,fun t m b ht => ?_,fun b hb => ?_⟩
  · rintro _ ⟨⟩ -
    exact h.written
  · have hcleared := (h.purged t m b ht).1
    obtain ⟨hrest,hexports⟩ := selected_after hcleared rfl
    exact ⟨hcleared,hrest,fun _ => hexports⟩
  · obtain ⟨hcleared,-,-,hdisk⟩ := h.returned b hb
    obtain ⟨hrest,hexports⟩ := selected_after hcleared rfl
    exact ⟨hcleared,hrest,hexports,hdisk⟩

theorem Inv.exportEnd {okay ended : Bool} (hs : s.safe (.exportEnd okay ended) = true) :
    (s.step (.exportEnd okay ended)).Inv := by
  simp only [Flusher.step]
  split
  · exact h
  rename_i x hx
  have hrest {b : Nat} (hb : s.Restorable b) (hended : ended = false) :
      WrittenAfter b x.memory s.ledger.log :=
    hb x hx (by simpa [safe,hx,hended] using hs)
  have hcleared {b : Nat} (hc : s.ledger.Cleared b) (hb : s.Restorable b) :
      (if ended then s.ledger else rolledBack s.ledger x.memory).Cleared b := by
    cases ended with
    | true => exact hc
    | false => exact ⟨hc.gone,hrest hb rfl,hc.snaps⟩
  have hsound : (if ended then s.ledger else rolledBack s.ledger x.memory).Sound := by
    cases ended with
    | true => exact h.sound
    | false => exact h.sound.rolledBack x.memory
  refine ⟨hsound,?_,fun t m b ht => ?_,nofun,fun t m b ht => ?_,fun b hb => ?_⟩
  · cases ended with
    | true => exact h.written
    | false => exact hrest h.memory rfl
  · cases ended <;> exact h.arrived t m b ht
  · obtain ⟨hc,hb,-⟩ := h.purged t m b ht
    exact ⟨hcleared hc hb,nofun,nofun⟩
  obtain ⟨hc,hb,hexport,hdisk⟩ := h.returned b hb
  refine ⟨hcleared hc hb,nofun,nofun,fun y hy => ?_⟩
  simp only at hy
  split at hy
  · rcases List.mem_append.1 hy with hold | hnew
    · exact hdisk y hold
    · exact hexport x hx y hnew
  · exact hdisk y hy

theorem Inv.start (t : Nat) (now : ℚ) : (s.step (.start t now)).Inv := by
  simp only [Flusher.step]
  split
  · refine ⟨h.sound,h.written,fun t' m b ht => ?_,h.memory,fun t' m b ht => ?_,h.returned⟩
    · by_cases he : t' = t
      · simp only [he,update_self,FlushStage.started.injEq] at ht
        exact le_of_eq ht.2.symm
      · exact h.arrived t' m b (by simpa [he] using ht)
    · by_cases he : t' = t
      · simp [he] at ht
      · exact h.purged t' m b (by simpa [he] using ht)
  · exact h

theorem Inv.purge (hf : s.ledger.archive.sys.store.Fits) {t : Nat} {truncated : Bool} {now : Int}
    {clock : ℚ} {deleted : Bool} (hs : s.safe (.purge t truncated now clock deleted) = true) :
    (s.step (.purge t truncated now clock deleted)).Inv := by
  simp only [Flusher.step]
  split
  swap
  · exact h
  rename_i m b hstage
  cases truncated with
  | false => exact h.idle t
  | true =>
    simp only [safe,hstage,Bool.not_true,Bool.false_or,Bool.and_eq_true] at hs
    obtain ⟨⟨⟨⟨⟨hgc,himport⟩,hdeleted⟩,hsnapped⟩,hexport⟩,hnewer⟩ := hs
    simp only [noneNewer,Bool.and_eq_true] at hnewer
    have hsnap : ∀ tr, s.ledger.archive.run = some tr → tr.stage ≠ .snapped := by
      intro tr htr
      simpa [nothingSnapped,htr] using hsnapped
    have hrows : ∀ x ∈ s.ledger.table, x.isAfter b = true ∨ x.row.timestamp ≤ now := by
      intro x hx
      simpa using List.all_eq_true.1 hnewer.2 x hx
    have hcleared := h.sound.purge hf h.written (h.arrived t m b hstage) hsnap hnewer.1 hrows clock
    have hledger : s.purgeLedger now clock deleted =
        (s.ledger.step (.base (.gcFlush now clock))).step (.deleteOld now) := by
      simp [purgeLedger,himport,hdeleted]
    have hex : s.ledger.sane (.base (.gcFlush now clock)) = true := by
      simp [Ledger.sane,Event.exclusive,hgc]
    have h₁ := h.of_change (h.sound.change hf hex) (by simp [Ledger.step,Ledger.writes])
    have h₂ := h₁.of_change (Ledger.change_deleteOld _ now) (by simp [Ledger.step,Ledger.writes])
    rw [if_pos rfl,hledger]
    refine ⟨h₂.sound,h₂.written,fun t' m' b' ht => ?_,restorable_flushed rfl,fun t' m' b' ht => ?_,
      fun b' hb' => ?_⟩
    · by_cases he : t' = t
      · simp [he] at ht
      · exact h₂.arrived t' m' b' (by simpa [he] using ht)
    · by_cases he : t' = t
      · simp only [he,update_self,FlushStage.purged.injEq] at ht
        refine ⟨ht.2 ▸ hcleared,restorable_flushed rfl,fun hremote x hx => ?_⟩
        have hremote' : s.remote = true := hremote
        obtain ⟨y,hy,-⟩ := Option.map_eq_some_iff.1 hx
        simp [hremote',hy] at hexport
      · obtain ⟨hc,-,hremote⟩ := h₂.purged t' m' b' (by simpa [he] using ht)
        exact ⟨hc,restorable_flushed rfl,fun hr => exports_flushed rfl (hremote hr)⟩
    · obtain ⟨hc,-,hexports,hdisk⟩ := h₂.returned b' hb'
      exact ⟨hc,restorable_flushed rfl,exports_flushed rfl hexports,hdisk⟩

theorem Inv.delete {t : Nat} {okay : Bool} (hs : s.safe (.delete t okay) = true) :
    (s.step (.delete t okay)).Inv := by
  simp only [Flusher.step]
  split
  swap
  · exact h
  rename_i m b hstage
  split
  · exact h.idle t
  rename_i hokay
  split
  · exact h
  rename_i hlocked
  obtain ⟨hcleared,hrest,hremote⟩ := h.purged t m b hstage
  have hi := h.idle t
  refine ⟨hi.sound,hi.written,hi.arrived,hi.memory,hi.purged,fun b' hb' => ?_⟩
  rcases List.mem_cons.1 hb' with rfl | hmem
  · refine ⟨hcleared,hrest,fun x hx => ?_,fun x hx => ?_⟩
    · -- a file is locked while an export is under way
      have hx' : s.exporting = some x := hx
      have hrem : s.remote = true := by
        simpa [diskLocked,hx'] using hlocked
      exact hremote hrem x hx
    obtain ⟨hx,hnew⟩ := List.mem_filter.1 hx
    have hokay' : okay = true := by simpa using hokay
    simp only [safe,hstage,hokay',Bool.not_true,Bool.false_or,List.all_eq_true,Bool.or_eq_true,
      decide_eq_true_eq] at hs
    rcases hs x hx with hafter | hold
    · exact hafter
    · exact absurd hold (by simpa using hnew)
  · obtain ⟨hc,hr,he,hd⟩ := h.returned b' hmem
    exact ⟨hc,hr,he,fun x hx => hd x (List.mem_filter.1 hx).1⟩

theorem Inv.step (hf : s.ledger.archive.sys.store.Fits) {e : FlushEvent} (hs : s.safe e = true) :
    (s.step e).Inv := by
  cases e with
  | db e => exact h.of_change (h.sound.change hf (sane_admitted hs)) (log_admitted e)
  | exportSelect now final => exact h.exportSelect now final
  | exportEnd okay ended => exact h.exportEnd hs
  | start t now => exact h.start t now
  | purge t truncated now clock deleted => exact h.purge hf hs
  | delete t okay => exact h.delete hs

end

theorem Reachable.inv (h : s.Reachable) : s.Inv := by
  induction h with
  | init hq remote rows =>
    refine ⟨Ledger.Sound.init _ hq,?_,?_,nofun,?_,?_⟩
    · intro i r hi
      cases hi
    · intro t m b ht
      cases ht
    · intro t m b ht
      cases ht
    · intro b hb
      cases hb
  | step _ hf hs ih => exact ih.step hf hs

theorem Reachable.run (h : s.Reachable) (es : List FlushEvent) (hs : s.meets es = true) :
    (s.run es).Reachable := by
  induction es generalizing s with
  | nil => exact h
  | cons e es ih =>
    simp only [meets,Bool.and_eq_true,decide_eq_true_eq] at hs
    exact ih (h.step hs.1.1 hs.1.2) hs.2

def sample : Flusher :=
  ⟨.initial archiveSample.archive.sys 0,true,
    [⟨0,none,⟨50,1,.forwarded,1,1,none,none,.unknown,none,.unknown,none,0⟩⟩],none,
    fun _ => .idle,[]⟩

def queryAt (id : Int) (timestamp : ℚ) : FlushEvent :=
  .db (.base (.newQuery .plain (.of "10.0.0.2" "example.com" id timestamp)))

def flushed : List FlushEvent :=
  [queryAt 1 100,.db (.start 101 true none true),.db (.commit 1 true),.db .finish,
    .start 0 102,.purge 0 true 102 102 true,.delete 0 true,queryAt 2 103]

def sameSecond : List FlushEvent :=
  [queryAt 1 ⟨501,5,by decide,by decide⟩,.start 0 ⟨201,2,by decide,by decide⟩,
    .purge 0 true 100 100 true,.delete 0 true]

def staleSnapshot : List FlushEvent :=
  [queryAt 1 100,.db (.start 101 true none true),.start 0 102,.purge 0 true 102 102 true,
    .delete 0 true,.db (.commit 1 true)]

def lateExport : List FlushEvent :=
  [queryAt 1 100,.db (.start 101 true none true),.db (.commit 1 true),.db .finish,
    .exportSelect 140 false,.start 0 140,.purge 0 true 140 140 true,.delete 0 true,
    .exportEnd true true]

/-- Here the export is one to the file. -/
def failedExport : List FlushEvent :=
  [queryAt 1 100,.db (.start 101 true none true),.db (.commit 1 true),.db .finish,
    .exportSelect 140 false,.start 0 140,.purge 0 true 140 140 true,.exportEnd true false,
    .delete 0 true]

end Flusher

end Lorentz
