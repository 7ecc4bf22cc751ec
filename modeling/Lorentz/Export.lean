import Lorentz.LinkingTables
import Lorentz.Library.Bits
import Lorentz.Library.Watermark

/-!
`export_queries_to_disk`, to an attached file or row by row to a server, what a failed export
leaves behind, and whether every query is counted once.
-/

set_option autoImplicit false

namespace Lorentz
open Watermark

inductive Subtable where
  | domainByID | clientByID | forwardByID | addinfoByID
  deriving DecidableEq, Repr

def Subtable.all : List Subtable := [.domainByID,.clientByID,.forwardByID,.addinfoByID]

inductive LinkRow where
  | text (s : List Char)
  | client (ip name : List Char)
  | addinfo (info : Addinfo)
  deriving DecidableEq, Repr

def Links.rowsOf (k : Links) : Subtable → List (Int × LinkRow)
  | .domainByID => k.domains.rows.map (fun r => (r.1,.text r.2))
  | .clientByID => k.clients.rows.map (fun r => (r.1,.client r.2.1 r.2.2))
  | .forwardByID => k.forwards.rows.map (fun r => (r.1,.text r.2))
  | .addinfoByID => k.addinfos.rows.map (fun r => (r.1,.addinfo r.2))

structure MemDb where
  queries : List (Int × Row)
  links : Links
  sequence : List (List Char × Int)

/-- The long-term database. `total` and `blocked` are in the table `counters`. -/
structure LongTerm where
  queries : List (Int × Row)
  links : Subtable → List (Int × LinkRow)
  sequence : List (List Char × Option Int)
  lastTimestamp : ℚ
  total : Int
  blocked : Int

/-- The variables `diskdb_queries_count`, `new_total`, `new_blocked` and
`new_last_timestamp`. -/
structure Pending where
  diskCount : UInt64
  newTotal : UInt32
  newBlocked : UInt32
  newLastTimestamp : ℚ
  deriving DecidableEq, Repr

structure Exporter where
  mem : MemDb
  disk : LongTerm
  pending : Pending

def attempt {δ : Type} (okay : Bool) (f : δ → δ) (d : δ) : δ := if okay then f d else d

def isBefore (time : ℚ) (r : Int × Row) : Bool := r.2.timestamp < time

def exportTime (now : ℚ) (final : Bool) : ℚ := now-if final then 0 else REPLY_TIMEOUT

/-- The answers to the three statements that keep the counters up to date. -/
structure CounterAnswers where
  timestamp : Bool
  total : Bool
  blocked : Bool

/-- What both variants do when rows have been inserted. `db_update_disk_counter` takes
an `int`. -/
def storeCounters (a : CounterAnswers) (insertions : UInt64) (p : Pending) (d : LongTerm) :
    Pending × LongTerm :=
  let d := attempt a.timestamp (fun d => { d with lastTimestamp := p.newLastTimestamp }) d
  let d := attempt a.total (fun d => { d with total := d.total+cInt p.newTotal }) d
  let d := attempt a.blocked (fun d => { d with blocked := d.blocked+cInt p.newBlocked }) d
  ({ p with
    diskCount := p.diskCount+insertions
    newTotal := if a.total then 0 else p.newTotal
    newBlocked := if a.blocked then 0 else p.newBlocked },d)

/-- How an export ends: before the transaction, rolled back, or committed with the return value.
-/
inductive ExportEnd where
  | notStarted
  | rolledBack
  | done (okay : Bool)
  deriving DecidableEq, Repr

/-- The answers of the file variant. `stale` is what `db_changes` says after a failed
`INSERT`. -/
structure FileAnswers where
  dbError : Bool
  begin : Bool
  bind : Bool
  step : Bool
  stale : Nat
  counters : CounterAnswers
  subtables : Subtable → Bool
  sequence : Bool
  endOk : Bool

def LongTerm.setLinks (d : LongTerm) (t : Subtable) (rows : List (Int × LinkRow)) : LongTerm :=
  { d with links := Function.update d.links t rows }

/-- `INSERT OR IGNORE INTO disk.t SELECT * FROM t WHERE id > …`. -/
def LongTerm.copyLinks (d : LongTerm) (k : Links) (t : Subtable) : LongTerm :=
  d.setLinks t (d.links t ++ fresh Prod.fst (fun _ => true) (k.rowsOf t) (d.links t))

def LongTerm.copySequence (d : LongTerm) (m : MemDb) : LongTerm :=
  { d with sequence := d.sequence.map (fun r => (r.1,m.sequence.lookup r.1)) }

namespace Exporter

variable (s : Exporter)

def newQueries (time : ℚ) : List (Int × Row) :=
  fresh Prod.fst (isBefore time) s.mem.queries s.disk.queries

/-- `unsigned int insertions = db_changes(memdb)`. -/
def fileInsertions (a : FileAnswers) (time : ℚ) : UInt32 :=
  UInt32.ofNat (if a.step then (s.newQueries time).length else a.stale)

/-- The part of `export_queries_to_disk` that stores the queries. -/
def storeToFile (a : FileAnswers) (time : ℚ) : Pending × LongTerm :=
  let d := attempt a.step (fun d => { d with queries := d.queries ++ s.newQueries time }) s.disk
  let insertions := s.fileInsertions a time
  if 0 < insertions then storeCounters a.counters insertions.toUInt64 s.pending d
  else (s.pending,d)

def linksToFile (a : FileAnswers) (d : LongTerm) : LongTerm :=
  let d := Subtable.all.foldl
    (fun d t => attempt (a.subtables t) (fun d => d.copyLinks s.mem.links t) d) d
  attempt a.sequence (fun d => d.copySequence s.mem) d

def exportToFile (a : FileAnswers) (storeQueries : Bool) (now : ℚ) (final : Bool) :
    ExportEnd × Exporter :=
  if a.dbError || !a.begin then (.notStarted,s)
  else if storeQueries && !a.bind then (.rolledBack,s)
  else
    let r := if storeQueries then s.storeToFile a (exportTime now final) else (s.pending,s.disk)
    if a.endOk then (.done (storeQueries && a.step),⟨s.mem,s.linksToFile a r.2,r.1⟩)
    else (.rolledBack,{ s with pending := r.1 })

end Exporter

/-- The answers of one `copy_new_rows`: the highest id, the statements, the row with a
number, and the end of the rows. -/
structure CopyAnswers where
  maxid : Bool
  prepare : Bool
  rows : Nat → Bool
  done : Bool

section

variable {α : Type}

/-- `db_copy_rows` with `ON CONFLICT (id) DO NOTHING`, from the row with number `n`. -/
def copyRows (a : CopyAnswers) : Nat → List (Int × α) → Nat → List (Int × α) →
    Option (Nat × List (Int × α))
  | _, [], changed, dst => if a.done then some (changed,dst) else none
  | n, r :: rows, changed, dst =>
    if a.rows n then
      if (dst.map Prod.fst).contains r.1 then copyRows a (n+1) rows changed dst
      else copyRows a (n+1) rows (changed+1) (dst ++ [r])
    else none

/-- The number of copied rows and the table, `none` for the return value -1. -/
def copyNewRows (a : CopyAnswers) (p : Int × α → Bool) (src dst : List (Int × α)) :
    Option (Nat × List (Int × α)) :=
  if a.maxid && a.prepare then
    copyRows a 0 ((fresh Prod.fst p src dst).insertionSort (fun r r' => r.1 ≤ r'.1)) 0 dst
  else none

end

structure ServerAnswers where
  dbError : Bool
  openDisk : Bool
  begin : Bool
  queries : CopyAnswers
  counters : CounterAnswers
  subtables : Subtable → CopyAnswers
  commit : Bool

def linksToServer (a : ServerAnswers) (k : Links) : List Subtable → LongTerm → Option LongTerm
  | [], d => some d
  | t :: ts, d =>
    match copyNewRows (a.subtables t) (fun _ => true) (k.rowsOf t) (d.links t) with
    | none => none
    | some (_,rows) => linksToServer a k ts (d.setLinks t rows)

namespace Exporter

variable (s : Exporter)

/-- The part of `export_queries_to_remote` that stores the queries, with the number of
insertions. -/
def storeToServer (a : ServerAnswers) (time : ℚ) : Option (Nat × Pending × LongTerm) :=
  match copyNewRows a.queries (isBefore time) s.mem.queries s.disk.queries with
  | none => none
  | some (insertions,rows) =>
    let d := { s.disk with queries := rows }
    if 0 < insertions then
      some (insertions,storeCounters a.counters (UInt64.ofNat insertions) s.pending d)
    else some (insertions,s.pending,d)

def undo (insertions : Nat) (p : Pending) : Exporter :=
  { s with pending := { p with
      diskCount := if 0 < insertions then p.diskCount-UInt64.ofNat insertions else p.diskCount } }

def exportToServer (a : ServerAnswers) (storeQueries : Bool) (now : ℚ) (final : Bool) :
    ExportEnd × Exporter :=
  if a.dbError || !a.openDisk || !a.begin then (.notStarted,s)
  else
    match if storeQueries then s.storeToServer a (exportTime now final)
      else some (0,s.pending,s.disk) with
    | none => (.rolledBack,s)
    | some (insertions,p,d) =>
      match linksToServer a s.mem.links Subtable.all d with
      | none => (.rolledBack,s.undo insertions p)
      | some d =>
        if a.commit then (.done true,⟨s.mem,d,p⟩) else (.rolledBack,s.undo insertions p)

end Exporter

theorem attempt_keeps {δ β : Type} (g : δ → β) (f : δ → δ) (hf : ∀ d, g (f d) = g d)
    (okay : Bool) (d : δ) : g (attempt okay f d) = g d := by
  cases okay with
  | false => rfl
  | true => exact hf d

section

variable {β : Type} (g : LongTerm → β) (hl : ∀ d t rows, g (d.setLinks t rows) = g d)

include hl

theorem Exporter.linksToFile_keeps (s : Exporter) (a : FileAnswers)
    (hs : ∀ d m, g (d.copySequence m) = g d) (d : LongTerm) : g (s.linksToFile a d) = g d := by
  have hloop : ∀ (ts : List Subtable) (d : LongTerm), g (ts.foldl (fun d t =>
      attempt (a.subtables t) (fun d => d.copyLinks s.mem.links t) d) d) = g d := by
    intro ts
    induction ts with
    | nil => exact fun d => rfl
    | cons t ts ih =>
      intro d
      rw [List.foldl_cons,ih]
      exact attempt_keeps g (fun d => d.copyLinks s.mem.links t) (fun d => hl d t _) _ d
  exact (attempt_keeps g (fun d => d.copySequence s.mem) (fun d => hs d s.mem) a.sequence _).trans
    (hloop Subtable.all d)

theorem linksToServer_keeps {a : ServerAnswers} {k : Links} {ts : List Subtable} {d d' : LongTerm}
    (h : linksToServer a k ts d = some d') : g d' = g d := by
  induction ts generalizing d with
  | nil =>
    cases h
    rfl
  | cons t ts ih =>
    simp only [linksToServer] at h
    split at h
    · cases h
    · exact (ih h).trans (hl d t _)

end

open List

def CopyAnswers.succeeds (a : CopyAnswers) (n : Nat) : Bool :=
  a.maxid && a.prepare && (List.range n).all a.rows && a.done

section

variable {α : Type} {a : CopyAnswers} {dst dst' rows : List (Int × α)} {changed changed' n : Nat}

theorem copyRows_isSome :
    (copyRows a n rows changed dst).isSome = ((range' n rows.length).all a.rows && a.done) := by
  induction rows generalizing n changed dst with
  | nil => cases h : a.done <;> simp [copyRows,h]
  | cons r rows ih =>
    cases h : a.rows n with
    | false => simp [copyRows,range'_succ,h]
    | true =>
      simp only [copyRows,h,if_true,length_cons,range'_succ,all_cons,Bool.true_and]
      split <;> exact ih

theorem copyRows_le (h : copyRows a n rows changed dst = some (changed',dst')) :
    changed ≤ changed' := by
  induction rows generalizing n changed dst with
  | nil =>
    simp only [copyRows] at h
    split at h <;> cases h
    exact Nat.le_refl _
  | cons r rows ih =>
    simp only [copyRows] at h
    split at h
    · split at h
      · exact ih h
      · exact (Nat.le_succ _).trans (ih h)
    · cases h

theorem copyNewRows_isSome (p : Int × α → Bool) (src : List (Int × α)) :
    (copyNewRows a p src dst).isSome = a.succeeds (fresh Prod.fst p src dst).length := by
  unfold copyNewRows CopyAnswers.succeeds
  split
  · rename_i h
    rw [copyRows_isSome,h,Bool.true_and,length_insertionSort,range_eq_range']
  · rename_i h
    simp [h]

theorem copyNewRows_pos_iff {p : Int × α → Bool} {src : List (Int × α)}
    (h : copyNewRows a p src dst = some (changed',dst')) :
    0 < changed' ↔ fresh Prod.fst p src dst ≠ [] := by
  unfold copyNewRows at h
  split at h
  swap
  · cases h
  cases hs : (fresh Prod.fst p src dst).insertionSort (fun r r' => r.1 ≤ r'.1) with
  | nil =>
    have hnil : fresh Prod.fst p src dst = [] := by
      have := length_insertionSort (fun r r' => r.1 ≤ r'.1) (fresh Prod.fst p src dst)
      rw [hs] at this
      exact length_eq_zero_iff.1 this.symm
    rw [hs] at h
    simp only [copyRows] at h
    split at h <;> cases h
    simp [hnil]
  | cons r rows =>
    have hr : r ∈ fresh Prod.fst p src dst :=
      (perm_insertionSort _ _).mem_iff.1 (hs ▸ mem_cons_self)
    have hnew : (dst.map Prod.fst).contains r.1 = false := by
      rw [contains_eq_mem,decide_eq_false_iff_not]
      intro hmem
      obtain ⟨r',hr',he⟩ := mem_map.1 hmem
      have h₁ := le_high Prod.fst hr'
      have h₂ := (mem_pending.1 (mem_fresh.1 hr).1).2
      omega
    rw [hs] at h
    simp only [copyRows,hnew,Bool.false_eq_true,if_false] at h
    split at h
    · have := copyRows_le h
      exact ⟨fun _ => ne_nil_of_mem hr,fun _ => by omega⟩
    · cases h

end

theorem LongTerm.links_setLinks_ne (d : LongTerm) {t t' : Subtable} (h : t' ≠ t)
    (rows : List (Int × LinkRow)) : (d.setLinks t rows).links t' = d.links t' :=
  Function.update_of_ne h _ _

theorem linksToServer_isSome (a : ServerAnswers) (k : Links) {ts : List Subtable} (h : ts.Nodup)
    (d : LongTerm) : (linksToServer a k ts d).isSome = ts.all (fun t =>
      (a.subtables t).succeeds (fresh Prod.fst (fun _ => true) (k.rowsOf t) (d.links t)).length) := by
  induction ts generalizing d with
  | nil => rfl
  | cons t ts ih =>
    rw [all_cons,← copyNewRows_isSome]
    unfold linksToServer
    cases hc : copyNewRows (a.subtables t) (fun _ => true) (k.rowsOf t) (d.links t) with
    | none => rfl
    | some r =>
      rw [nodup_cons] at h
      simp only [Option.isSome_some,Bool.true_and]
      rw [ih h.2]
      rw [Bool.eq_iff_iff,all_eq_true,all_eq_true]
      refine forall₂_congr fun t' ht' => ?_
      rw [d.links_setLinks_ne (ne_of_mem_of_not_mem ht' h.1)]

inductive ExportAnswers where
  | file (a : FileAnswers)
  | server (a : ServerAnswers)

namespace Exporter

variable (s : Exporter)

/-- `export_queries_to_disk`: where the database is decides which variant runs. -/
def exportQueriesToDisk (a : ExportAnswers) (storeQueries : Bool) (now : ℚ) (final : Bool) :
    ExportEnd × Exporter :=
  match a with
  | .file a => s.exportToFile a storeQueries now final
  | .server a => s.exportToServer a storeQueries now final

def fileKeeps (a : FileAnswers) (storeQueries : Bool) (time : ℚ) : Bool :=
  a.dbError || !a.begin || !storeQueries || !a.bind || a.endOk || s.fileInsertions a time = 0

def serverCommits (a : ServerAnswers) : Bool :=
  Subtable.all.all (fun t => (a.subtables t).succeeds
    (fresh Prod.fst (fun _ => true) (s.mem.links.rowsOf t) (s.disk.links t)).length) && a.commit

/-- There is nothing to insert, or what comes behind the queries does not fail, or no
pending counter has been stored. -/
def serverKeeps (a : ServerAnswers) (storeQueries : Bool) (time : ℚ) : Bool :=
  a.dbError || !a.openDisk || !a.begin || !storeQueries ||
    !a.queries.succeeds (s.newQueries time).length || (s.newQueries time).isEmpty ||
    s.serverCommits a ||
    ((!a.counters.total || s.pending.newTotal = 0) &&
      (!a.counters.blocked || s.pending.newBlocked = 0))

def exportKeeps (a : ExportAnswers) (storeQueries : Bool) (now : ℚ) (final : Bool) : Bool :=
  match a with
  | .file a => s.fileKeeps a storeQueries (exportTime now final)
  | .server a => s.serverKeeps a storeQueries (exportTime now final)

theorem undo_eq_iff {insertions : Nat} (a : CounterAnswers) (d : LongTerm) (h : 0 < insertions) :
    s.undo insertions (storeCounters a (UInt64.ofNat insertions) s.pending d).1 = s ↔
      ((!a.total || s.pending.newTotal = 0) && (!a.blocked || s.pending.newBlocked = 0)) = true := by
  obtain ⟨mem,disk,⟨diskCount,newTotal,newBlocked,newLast⟩⟩ := s
  have hcount : diskCount+UInt64.ofNat insertions-UInt64.ofNat insertions = diskCount :=
    UInt64.add_sub_cancel _ _
  simp only [undo,storeCounters,h,if_true,hcount,Exporter.mk.injEq,Pending.mk.injEq,true_and,and_true]
  have hzero : ∀ x : UInt32, 0 = x ↔ x = 0 := fun x => eq_comm
  cases a.total <;> cases a.blocked <;> simp [hzero]

theorem exportToFile_keeps_iff (a : FileAnswers) (storeQueries : Bool) (now : ℚ) (final : Bool) :
    ((s.exportToFile a storeQueries now final).1 = .rolledBack →
      (s.exportToFile a storeQueries now final).2 = s) ↔
      s.fileKeeps a storeQueries (exportTime now final) = true := by
  unfold exportToFile fileKeeps
  cases a.dbError with
  | true => simp
  | false =>
  cases a.begin with
  | false => simp
  | true =>
  cases storeQueries with
  | false => cases a.endOk <;> simp
  | true =>
  cases a.bind with
  | false => simp
  | true =>
  cases a.endOk with
  | true => simp
  | false =>
    simp only [Bool.or_self,Bool.not_true,Bool.and_false,Bool.false_eq_true,if_false,if_true,
      storeToFile,Bool.false_or,decide_eq_true_eq,forall_const]
    split
    · rename_i hpos
      have hne : s.fileInsertions a (exportTime now final) ≠ 0 := (UInt32.pos_iff_ne_zero).1 hpos
      refine iff_of_false (fun h => hne ?_) hne
      have hcount := congrArg (fun x => x.pending.diskCount) h
      simp only [storeCounters] at hcount
      have hzero : (s.fileInsertions a (exportTime now final)).toUInt64 = 0 := by
        simpa using hcount
      have := congrArg UInt64.toNat hzero
      exact UInt32.toNat_inj.1 this
    · rename_i hpos
      refine iff_of_true rfl ?_
      by_contra hne
      exact hpos ((UInt32.pos_iff_ne_zero).2 hne)

theorem linksToServer_isSome_all (a : ServerAnswers) {d : LongTerm} (h : d.links = s.disk.links) :
    ((linksToServer a s.mem.links Subtable.all d).isSome && a.commit) = s.serverCommits a := by
  rw [linksToServer_isSome a s.mem.links (by decide) d,h]
  rfl

theorem exportToServer_end (a : ServerAnswers) {insertions : Nat} {p : Pending} (d : LongTerm)
    (h : d.links = s.disk.links) :
    let r : ExportEnd × Exporter := match linksToServer a s.mem.links Subtable.all d with
      | none => (.rolledBack,s.undo insertions p)
      | some d => if a.commit then (.done true,⟨s.mem,d,p⟩) else (.rolledBack,s.undo insertions p)
    (r.1 = .rolledBack → r.2 = s) ↔ s.serverCommits a = true ∨ s.undo insertions p = s := by
  intro r
  have hcommits := s.linksToServer_isSome_all a h
  cases hl : linksToServer a s.mem.links Subtable.all d with
  | none =>
    simp [r,hl,← hcommits]
  | some d' =>
    cases hc : a.commit with
    | false | true => simp [r,hl,hc,← hcommits]

theorem links_storeCounters (a : CounterAnswers) (n : UInt64) (p : Pending) (d : LongTerm) :
    (storeCounters a n p d).2.links = d.links := by
  unfold storeCounters attempt
  cases a.timestamp <;> cases a.total <;> cases a.blocked <;> rfl

theorem undo_zero : s.undo 0 s.pending = s := rfl

theorem exportToServer_keeps_iff (a : ServerAnswers) (storeQueries : Bool) (now : ℚ) (final : Bool) :
    ((s.exportToServer a storeQueries now final).1 = .rolledBack →
      (s.exportToServer a storeQueries now final).2 = s) ↔
      s.serverKeeps a storeQueries (exportTime now final) = true := by
  unfold exportToServer serverKeeps
  cases a.dbError with
  | true => simp
  | false =>
  cases a.openDisk with
  | false => simp
  | true =>
  cases a.begin with
  | false => simp
  | true =>
  cases storeQueries with
  | false =>
    simp only [Bool.false_or,Bool.not_true,Bool.false_eq_true,if_false,Bool.not_false,Bool.true_or,
      Bool.or_true]
    exact iff_of_true ((s.exportToServer_end a s.disk rfl).2 (.inr s.undo_zero)) trivial
  | true =>
    simp only [Bool.false_or,Bool.not_true,Bool.false_eq_true,if_false,if_true,storeToServer]
    have hsome : (copyNewRows a.queries (isBefore (exportTime now final)) s.mem.queries
        s.disk.queries).isSome = _ := copyNewRows_isSome _ _
    cases hcopy : copyNewRows a.queries (isBefore (exportTime now final)) s.mem.queries
      s.disk.queries with
    | none =>
      rw [hcopy] at hsome
      simp [newQueries,← hsome]
    | some r =>
      obtain ⟨insertions,rows⟩ := r
      rw [hcopy] at hsome
      have hpos := copyNewRows_pos_iff hcopy
      have hsucceeds : a.queries.succeeds (s.newQueries (exportTime now final)).length = true :=
        hsome.symm
      rw [hsucceeds]
      by_cases hi : 0 < insertions
      · have hne : (s.newQueries (exportTime now final)).isEmpty = false := by
          simpa [newQueries] using hpos.1 hi
        simp only [hi,if_true,hne,Bool.not_true,Bool.false_or,Bool.or_eq_true (s.serverCommits a)]
        rw [← s.undo_eq_iff a.counters { s.disk with queries := rows } hi]
        exact s.exportToServer_end a _ (links_storeCounters _ _ _ _)
      have hnil : (s.newQueries (exportTime now final)).isEmpty = true := by
        rw [List.isEmpty_iff]
        by_contra hne
        exact hi (hpos.2 hne)
      have hzero : insertions = 0 := Nat.eq_zero_of_not_pos hi
      subst hzero
      simp only [Nat.lt_irrefl,if_false,hnil,Bool.true_or,Bool.or_true]
      exact iff_of_true ((s.exportToServer_end a { s.disk with queries := rows } rfl).2
        (.inr s.undo_zero)) trivial

end Exporter

def LongTerm.counters (d : LongTerm) : Int × Int := (d.total,d.blocked)

namespace Exporter

variable (s : Exporter)

def totals : Int × Int :=
  (s.disk.counters.1+s.pending.newTotal.toNat,s.disk.counters.2+s.pending.newBlocked.toNat)

def fewPending : Bool := s.pending.newTotal.toNat < 2^31 && s.pending.newBlocked.toNat < 2^31

end Exporter

/-- A snapshot of phase 2 that was committed and whose query still exists. -/
structure CommittedSnap where
  isNew : Bool
  blocked : Bool
  timestamp : ℚ
  deriving DecidableEq, Repr

/-- One round of phase 3 of `queries_to_database`, as far as the pending values go. -/
def Pending.addSnap (p : Pending) (snap : CommittedSnap) : Pending :=
  if snap.isNew then { p with
    newBlocked := if snap.blocked then p.newBlocked+1 else p.newBlocked
    newLastTimestamp := if p.newLastTimestamp < snap.timestamp then snap.timestamp
      else p.newLastTimestamp }
  else p

def countNew (snaps : List CommittedSnap) : Nat := snaps.countP CommittedSnap.isNew

def countNewBlocked (snaps : List CommittedSnap) : Nat :=
  snaps.countP (fun snap => snap.isNew && snap.blocked)

def Pending.addSnaps (p : Pending) (snaps : List CommittedSnap) : Pending :=
  let p := snaps.foldl addSnap p
  { p with newTotal := p.newTotal+UInt32.ofNat (countNew snaps) }

/-- A run of `queries_to_database` leaves `mem` in the in-memory database. -/
inductive ExportEvent where
  | transfer (mem : MemDb) (snaps : List CommittedSnap)
  | store (a : ExportAnswers) (storeQueries : Bool) (now : ℚ) (final : Bool)

namespace Exporter

def step (s : Exporter) : ExportEvent → Exporter
  | .transfer mem snaps => { s with mem := mem, pending := s.pending.addSnaps snaps }
  | .store a storeQueries now final => (s.exportQueriesToDisk a storeQueries now final).2

def run (s : Exporter) (es : List ExportEvent) : Exporter := es.foldl step s

/-- The pending counters do not overflow, and an export that is rolled back has not
touched them. -/
def safe (s : Exporter) : ExportEvent → Bool
  | .transfer _ snaps =>
    s.pending.newTotal.toNat+countNew snaps < 2^32 &&
      s.pending.newBlocked.toNat+countNewBlocked snaps < 2^32
  | .store a storeQueries now final => s.fewPending && s.exportKeeps a storeQueries now final

def allSafe : Exporter → List ExportEvent → Bool
  | _, [] => true
  | s, e :: es => s.safe e && allSafe (s.step e) es

end Exporter

def ExportEvent.added : ExportEvent → Int × Int
  | .transfer _ snaps => (countNew snaps,countNewBlocked snaps)
  | .store _ _ _ _ => 0

namespace Exporter

variable (s : Exporter)

theorem totals_storeCounters (a : CounterAnswers) (n : UInt64) (d : LongTerm) (mem : MemDb)
    (h : s.fewPending = true) :
    totals ⟨mem,(storeCounters a n s.pending d).2,(storeCounters a n s.pending d).1⟩ =
      totals ⟨mem,d,s.pending⟩ := by
  simp only [fewPending,Bool.and_eq_true,decide_eq_true_eq] at h
  unfold totals storeCounters attempt LongTerm.counters
  rw [cInt_of_lt h.1,cInt_of_lt h.2]
  cases a.timestamp <;> cases a.total <;> cases a.blocked <;> simp

theorem totals_storeToFile (a : FileAnswers) (time : ℚ) (hf : s.fewPending = true) :
    totals ⟨s.mem,(s.storeToFile a time).2,(s.storeToFile a time).1⟩ = s.totals := by
  unfold storeToFile
  dsimp only
  split
  · refine (s.totals_storeCounters _ _ _ s.mem hf).trans ?_
    cases a.step <;> rfl
  · cases a.step <;> rfl

theorem totals_exportToFile (a : FileAnswers) (storeQueries : Bool) (now : ℚ) (final : Bool)
    (hf : s.fewPending = true)
    (hr : (s.exportToFile a storeQueries now final).1 ≠ .rolledBack) :
    (s.exportToFile a storeQueries now final).2.totals = s.totals := by
  unfold exportToFile at hr ⊢
  split at hr
  · rename_i h
    rw [if_pos h]
  rename_i h
  rw [if_neg h]
  split at hr
  · exact absurd rfl hr
  rename_i h
  rw [if_neg h]
  dsimp only at hr ⊢
  split at hr
  swap
  · exact absurd rfl hr
  rename_i hend
  rw [if_pos hend]
  have hstore : ∀ r, (if storeQueries then s.storeToFile a (exportTime now final)
      else (s.pending,s.disk)) = r → totals ⟨s.mem,r.2,r.1⟩ = s.totals := by
    rintro r rfl
    cases storeQueries with
    | false => rfl
    | true => exact s.totals_storeToFile a (exportTime now final) hf
  rw [← hstore _ rfl]
  simp only [totals,linksToFile_keeps LongTerm.counters (fun _ _ _ => rfl) s a (fun _ _ => rfl)]

theorem totals_exportToServer (a : ServerAnswers) (storeQueries : Bool) (now : ℚ) (final : Bool)
    (hf : s.fewPending = true)
    (hr : (s.exportToServer a storeQueries now final).1 ≠ .rolledBack) :
    (s.exportToServer a storeQueries now final).2.totals = s.totals := by
  have hstore : ∀ n p d, (if storeQueries then s.storeToServer a (exportTime now final)
      else some (0,s.pending,s.disk)) = some (n,p,d) → totals ⟨s.mem,d,p⟩ = s.totals := by
    intro n p d h
    cases storeQueries with
    | false =>
      cases h
      rfl
    | true =>
      simp only [if_true,storeToServer] at h
      split at h
      · cases h
      · split at h <;> cases h
        · exact s.totals_storeCounters _ _ _ s.mem hf
        · rfl
  unfold exportToServer at hr ⊢
  split at hr
  · rename_i h
    rw [if_pos h]
  rename_i h
  rw [if_neg h]
  split at hr
  · exact absurd rfl hr
  rename_i n p d hs
  split at hr
  · exact absurd rfl hr
  rename_i hl
  split at hr
  · rename_i hcommit
    rw [if_pos hcommit,← hstore n p d hs]
    simp only [totals,linksToServer_keeps LongTerm.counters (fun _ _ _ => rfl) hl]
  · exact absurd rfl hr

theorem totals_export (a : ExportAnswers) (storeQueries : Bool) (now : ℚ) (final : Bool)
    (hf : s.fewPending = true) (hk : s.exportKeeps a storeQueries now final = true) :
    (s.exportQueriesToDisk a storeQueries now final).2.totals = s.totals := by
  cases a with
  | file a =>
    by_cases hr : (s.exportToFile a storeQueries now final).1 = .rolledBack
    · exact congrArg totals ((s.exportToFile_keeps_iff a storeQueries now final).2 hk hr)
    · exact s.totals_exportToFile a storeQueries now final hf hr
  | server a =>
    by_cases hr : (s.exportToServer a storeQueries now final).1 = .rolledBack
    · exact congrArg totals ((s.exportToServer_keeps_iff a storeQueries now final).2 hk hr)
    · exact s.totals_exportToServer a storeQueries now final hf hr

theorem foldl_addSnap (snaps : List CommittedSnap) (p : Pending)
    (h : p.newBlocked.toNat+countNewBlocked snaps < 2^32) :
    (snaps.foldl Pending.addSnap p).newBlocked.toNat = p.newBlocked.toNat+countNewBlocked snaps ∧
      (snaps.foldl Pending.addSnap p).newTotal = p.newTotal := by
  induction snaps generalizing p with
  | nil => exact ⟨rfl,rfl⟩
  | cons snap snaps ih =>
    have hcount : countNewBlocked (snap :: snaps) =
        countNewBlocked snaps+if (snap.isNew && snap.blocked) = true then 1 else 0 :=
      countP_cons
    rw [hcount] at h ⊢
    have hsnap : (p.addSnap snap).newBlocked.toNat =
        p.newBlocked.toNat+(if (snap.isNew && snap.blocked) = true then 1 else 0) ∧
        (p.addSnap snap).newTotal = p.newTotal := by
      unfold Pending.addSnap
      cases hn : snap.isNew with
      | false => exact ⟨rfl,rfl⟩
      | true =>
        cases hb : snap.blocked with
        | false => exact ⟨rfl,rfl⟩
        | true =>
          refine ⟨?_,rfl⟩
          simp only [hn,hb,Bool.and_self,if_true] at h ⊢
          exact Nat.mod_eq_of_lt (by simp; omega)
    rw [foldl_cons]
    obtain ⟨hblocked,htotal⟩ := ih (p.addSnap snap) (by rw [hsnap.1]; omega)
    exact ⟨by rw [hblocked,hsnap.1]; omega,htotal.trans hsnap.2⟩

theorem totals_transfer (mem : MemDb) (snaps : List CommittedSnap)
    (h : s.safe (.transfer mem snaps) = true) :
    (s.step (.transfer mem snaps)).totals =
      s.totals+(((countNew snaps : Nat) : Int),((countNewBlocked snaps : Nat) : Int)) := by
  simp only [safe,Bool.and_eq_true,decide_eq_true_eq] at h
  obtain ⟨hblocked,htotal⟩ := foldl_addSnap snaps s.pending h.2
  have hsum : (s.pending.newTotal+UInt32.ofNat (countNew snaps)).toNat =
      s.pending.newTotal.toNat+countNew snaps := by
    have hsmall : countNew snaps < 2^32 := by omega
    rw [UInt32.toNat_add,UInt32.toNat_ofNat',Nat.mod_eq_of_lt hsmall]
    exact Nat.mod_eq_of_lt h.1
  simp only [step,Pending.addSnaps,totals,htotal,hsum,hblocked,Prod.mk_add_mk,Prod.mk.injEq]
  constructor <;> push_cast <;> omega

theorem totals_run (es : List ExportEvent) (h : s.allSafe es = true) :
    (s.run es).totals = s.totals+(es.map ExportEvent.added).sum := by
  induction es generalizing s with
  | nil => simp [run]
  | cons e es ih =>
    rw [allSafe,Bool.and_eq_true] at h
    have hstep : (s.step e).totals = s.totals+e.added := by
      cases e with
      | transfer mem snaps => exact s.totals_transfer mem snaps h.1
      | store a storeQueries now final =>
        have hs := h.1
        rw [safe,Bool.and_eq_true] at hs
        rw [ExportEvent.added,add_zero]
        exact s.totals_export a storeQueries now final hs.1 hs.2
    rw [map_cons,sum_cons,← add_assoc,← hstep]
    exact ih (s.step e) h.2

/-- A rolled-back export leaves everything as it was if and only if it meets the condition, and
when all exports do, every query is counted once. -/
theorem failed_export_changes_nothing (s : Exporter) :
    (∀ a storeQueries now final,
      ((s.exportQueriesToDisk a storeQueries now final).1 = .rolledBack →
        (s.exportQueriesToDisk a storeQueries now final).2 = s) ↔
        s.exportKeeps a storeQueries now final = true) ∧
      ∀ es, s.allSafe es = true → (s.run es).totals = s.totals+(es.map ExportEvent.added).sum := by
  refine ⟨fun a storeQueries now final => ?_,s.totals_run⟩
  cases a with
  | file a => exact s.exportToFile_keeps_iff a storeQueries now final
  | server a => exact s.exportToServer_keeps_iff a storeQueries now final

/-! One query waits to be exported, and it has not been counted yet. -/

def sampleRow : Row :=
  ⟨100,1,.forwarded,1,1,none,none,.unknown,none,.unknown,none,0⟩

def sampleMem : MemDb := ⟨[(0,sampleRow)],.empty,[]⟩

def sample : Exporter := ⟨sampleMem,⟨[],fun _ => [],[],0,0,0⟩,⟨0,1,0,100⟩⟩

def fileSample (endOk : Bool) : ExportAnswers :=
  .file ⟨false,true,true,true,0,⟨true,true,true⟩,fun _ => true,true,endOk⟩

def serverSample (commit : Bool) : ExportAnswers :=
  let copy : CopyAnswers := ⟨true,true,fun _ => true,true⟩
  .server ⟨false,true,true,copy,⟨true,true,true⟩,fun _ => copy,commit⟩

theorem failed_export_changes_nothing_sample :
    (sample.run [.store (fileSample true) true 200 false,
      .transfer sampleMem [⟨true,true,150⟩]]).totals = sample.totals+(1,1) :=
  (failed_export_changes_nothing sample).2
    [.store (fileSample true) true 200 false,.transfer sampleMem [⟨true,true,150⟩]]
    (by decide +kernel)

/-- The last statement fails: the query is neither stored nor pending any more. -/
theorem rollback_loses_counts :
    (∀ a ∈ [fileSample false,serverSample false],
      let r := sample.exportQueriesToDisk a true 200 false
      r.1 = .rolledBack ∧ r.2.pending.newTotal = 0 ∧ r.2.totals = (0,0)) ∧
      (sample.exportQueriesToDisk (fileSample false) true 200 false).2.pending.diskCount = 1 ∧
      sample.totals = (1,0) := by
  decide +kernel

end Exporter

end Lorentz
