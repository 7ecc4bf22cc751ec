import Lorentz.Ledger

/-!
Row ids are not used twice, as long as phase 3 finds one of the new queries whose rows
phase 2 has committed.
-/

set_option autoImplicit false

namespace Lorentz
open Function

def Ledger.findsNew (l : Ledger) (tr : Transfer) : Bool :=
  match tr.stage with
  | .committed succeeded =>
    (tr.snaps.take succeeded).all (fun snap => !snap.isNew) ||
      (tr.snaps.take succeeded).any (fun snap => snap.isNew && l.gone ≤ l.goneBefore+snap.queryID)
  | _ => true

def Ledger.safe (l : Ledger) (e : DbEvent) : Bool :=
  l.sane e && match e with
    | .finish => l.archive.run.all l.findsNew
    | _ => true

def Write.Before (a b : Write) : Prop := a.idx = b.idx → a.owner = b.owner ∧ a.serial < b.serial

def Ledger.Owns (l : Ledger) (idx : Int) (owner : Nat) : Prop :=
  ∃ w ∈ l.log, w.idx = idx ∧ w.owner = owner

def Ledger.Below (l : Ledger) : Prop := ∀ w ∈ l.log, w.idx ≤ l.archive.maxid

def Ledger.StageInv (l : Ledger) (snaps : List QuerySnap) : Stage → Prop
  | .snapped => l.Below ∧ (∀ w ∈ l.log, w.serial < l.serial) ∧
      ∀ snap ∈ snaps, snap.isNew = false → l.Owns snap.idx (l.goneBefore+snap.queryID)
  | .committed succeeded =>
      (∀ w ∈ l.log, w.idx ≤ l.archive.maxid ∨
        ∃ snap ∈ snaps.take succeeded, snap.isNew = true ∧ snap.idx = w.idx) ∧
      ∀ snap ∈ snaps.take succeeded, l.Owns snap.idx (l.goneBefore+snap.queryID)
  | .failed => l.Below

def RowsOf (rows : Int → Option Row) (log : List Write) : Prop :=
  ∀ i r, rows i = some r → ∃ pre w post,
    log = pre ++ w :: post ∧ w.idx = i ∧ w.row = r ∧ ∀ v ∈ post, v.idx ≠ i

structure Ledger.Inv (l : Ledger) : Prop where
  sound : l.Sound
  ids : ∀ (i : Nat) d, l.q.rowIDs[i]? = some (some d) → l.Owns d (l.gone+i)
  order : l.log.Pairwise Write.Before
  serials : ∀ w ∈ l.log, w.serial ≤ l.serial
  rows : RowsOf l.archive.rows l.log
  idle : l.archive.run = none → l.Below
  run : ∀ tr, l.archive.run = some tr → l.StageInv tr.snaps tr.stage

section

variable {l : Ledger}

theorem Ledger.Inv.ids_moved (h : l.Inv) {q : QueryStore} {r : Nat} (hm : l.q.Moved r q) (i : Nat)
    (d : Int) (hid : q.rowIDs[i]? = some (some d)) : l.Owns d (l.gone+r+i) := by
  rw [Nat.add_assoc]
  exact h.ids _ d (hm.rowID hid)

theorem Ledger.Inv.owner_unique (h : l.Inv) {idx : Int} {o o' : Nat} (h₁ : l.Owns idx o)
    (h₂ : l.Owns idx o') : o = o' := by
  obtain ⟨w,hw,hi,ho⟩ := h₁
  obtain ⟨w',hw',hi',ho'⟩ := h₂
  by_cases heq : w = w'
  · rw [← ho,← ho',heq]
  have hsymm : Std.Symm (fun a b : Write => a.idx = b.idx → a.owner = b.owner) :=
    ⟨fun _ _ hab hidx => (hab hidx.symm).symm⟩
  have hp : l.log.Pairwise (fun a b => a.idx = b.idx → a.owner = b.owner) :=
    h.order.imp fun hab hidx => (hab hidx).1
  rw [← ho,← ho']
  exact hp.forall hw hw' heq (hi.trans hi'.symm)

theorem RowsOf.write {rows : Int → Option Row} {log : List Write} (h : RowsOf rows log) (w : Write) :
    RowsOf (update rows w.idx (some w.row)) (log ++ [w]) := by
  intro i r hi
  by_cases hw : i = w.idx
  · subst hw
    simp only [update_self,Option.some.injEq] at hi
    exact ⟨log,w,[],rfl,rfl,hi,by simp⟩
  rw [update_of_ne hw] at hi
  obtain ⟨pre,v,post,rfl,hv,hrow,hlast⟩ := h i r hi
  refine ⟨pre,v,post ++ [w],by simp,hv,hrow,?_⟩
  intro u hu
  rcases List.mem_append.mp hu with hu | hu
  · exact hlast u hu
  · rw [List.mem_singleton.mp hu]
    exact Ne.symm hw

theorem RowsOf.replaceRows (snaps : List QuerySnap) :
    ∀ (rows : Int → Option Row) (log : List Write), RowsOf rows log →
      RowsOf (replaceRows snaps rows) (log ++ snaps.map l.write) := by
  induction snaps with
  | nil =>
    intro rows log h
    simpa [Lorentz.replaceRows] using h
  | cons snap snaps ih =>
    intro rows log h
    have hone := ih _ _ (h.write (l.write snap))
    rwa [List.append_assoc] at hone

section

variable (h : l.Inv)
include h

theorem Ledger.Inv.before_write {removedBefore : Nat} {snaps : List QuerySnap}
    (hr : l.archive.run = some ⟨removedBefore,snaps,.snapped⟩) {w : Write} (hw : w ∈ l.log)
    {snap : QuerySnap} (hsnap : snap ∈ snaps) : w.Before (l.write snap) := by
  obtain ⟨hb,hserial,hold⟩ := h.run _ hr
  intro hidx
  refine ⟨?_,hserial w hw⟩
  cases hn : snap.isNew with
  | true =>
    have h₁ := (h.sound.run _ hr).fresh snap hsnap hn
    have h₂ := hb w hw
    have h₃ : w.idx = snap.idx := hidx
    omega
  | false => exact h.owner_unique ⟨w,hw,hidx,rfl⟩ (hold snap hsnap hn)

theorem Ledger.Inv.committed {removedBefore : Nat} {snaps : List QuerySnap}
    (hr : l.archive.run = some ⟨removedBefore,snaps,.snapped⟩) (succeeded : Nat) :
    Ledger.Inv { l with
      archive := { l.archive with
        rows := replaceRows (snaps.take succeeded) l.archive.rows
        run := some ⟨removedBefore,snaps,.committed succeeded⟩ }
      log := l.log ++ (snaps.take succeeded).map l.write } := by
  have hsound := h.sound.of_change (.committed removedBefore succeeded snaps hr)
  have hne := (h.sound.run _ hr).ids
  obtain ⟨hb,hserial,hold⟩ := h.run _ hr
  have htake : ∀ snap ∈ snaps.take succeeded, snap ∈ snaps := fun snap hs => List.mem_of_mem_take hs
  refine ⟨hsound,?_,?_,?_,h.rows.replaceRows _ _ _,by simp,?_⟩
  · intro i d hid
    obtain ⟨w,hw,hwo⟩ := h.ids i d hid
    exact ⟨w,List.mem_append_left _ hw,hwo⟩
  · refine List.pairwise_append.mpr ⟨h.order,?_,?_⟩
    · rw [List.pairwise_map]
      exact (hne.sublist (List.take_sublist _ _)).imp fun hab hidx => absurd hidx hab
    · intro w hw v hv
      obtain ⟨snap,hs,rfl⟩ := List.mem_map.mp hv
      exact h.before_write hr hw (htake snap hs)
  · intro w hw
    rcases List.mem_append.mp hw with hw | hw
    · exact h.serials w hw
    · obtain ⟨snap,_,rfl⟩ := List.mem_map.mp hw
      exact Nat.le_refl _
  intro tr htr
  obtain rfl : _ = tr := by simpa using htr
  constructor
  · intro w hw
    rcases List.mem_append.mp hw with hw | hw
    · exact .inl (hb w hw)
    obtain ⟨snap,hs,rfl⟩ := List.mem_map.mp hw
    cases hn : snap.isNew with
    | true => exact .inr ⟨snap,hs,hn,rfl⟩
    | false =>
      obtain ⟨w,hw,hi,_⟩ := hold snap (htake snap hs) hn
      left
      show snap.idx ≤ l.archive.maxid
      rw [← hi]
      exact hb w hw
  · intro snap hs
    exact ⟨l.write snap,List.mem_append_right _ (List.mem_map_of_mem hs),rfl,rfl⟩

theorem Ledger.Inv.finished {sys : System} {tr : Transfer} {succeeded : Nat} {maxid : Int}
    (hr : l.archive.run = some tr) (hst : tr.stage = .committed succeeded)
    (hfin : l.Finishes (tr.snaps.take succeeded) sys maxid) (hfinds : l.findsNew tr = true) :
    Ledger.Inv { l with archive := { l.archive with sys := sys, maxid := maxid, run := none } } := by
  have hstage := h.run tr hr
  rw [hst] at hstage
  obtain ⟨hbelow,howns⟩ := hstage
  have hw := hfin.wrote
  refine ⟨h.sound.finished hr hfin,?_,h.order,h.serials,h.rows,?_,by simp⟩
  · intro i d hid
    have hid' : sys.store.q.rowIDs[i]? = some (some d) := hid
    have hi : i < l.q.queries := by
      rw [← hw.queries,← QueryStore.length_rowIDs]
      exact (List.getElem?_eq_some_iff.mp hid').1
    obtain ⟨snap,hs,_,ho,hval⟩ | ⟨_,hsame⟩ := hw.ids i hi
    · rw [hval] at hid'
      have hd : snap.idx = d := by simpa using hid'
      rw [← hd,← ho]
      exact howns snap hs
    · rw [hsame] at hid'
      exact h.ids i d hid'
  · intro _ w hw'
    rcases hbelow w hw' with hlow | ⟨snap,hs,hn,hidx⟩
    · exact Int.le_trans hlow hfin.le
    rw [← hidx]
    refine hfin.new ?_ snap hs hn
    simp only [Ledger.findsNew,hst,Bool.or_eq_true,List.all_eq_true,List.any_eq_true,
      Bool.and_eq_true,decide_eq_true_eq,Bool.not_eq_true'] at hfinds
    rcases hfinds with hall | ⟨s,hs',hn',hge⟩
    · rw [hall snap hs] at hn
      cases hn
    · exact ⟨s,hs',hn',hge⟩

theorem Ledger.Inv.moved {sys : System} {r : Nat} (hl : sys.Laid) (hm : l.q.Moved r sys.store.q) :
    Ledger.Inv { l with archive := { l.archive with sys := sys }, gone := l.gone+r } := by
  refine ⟨h.sound.moved hl hm,h.ids_moved hm,h.order,h.serials,h.rows,h.idle,?_⟩
  intro tr hr
  have hstage := h.run tr hr
  cases hst : tr.stage <;> rw [hst] at hstage <;> exact hstage

theorem Ledger.Inv.of_change {l' : Ledger} (hc : l.Change l')
    (hfinds : ∀ tr, l.archive.run = some tr → l'.archive.run = none → l.findsNew tr = true) :
    l'.Inv := by
  have hsound := h.sound.of_change hc
  have hlater : ∀ w ∈ l.log, w.serial ≤ l.serial+1 :=
    fun w hw => Nat.le_succ_of_le (h.serials w hw)
  cases hc with
  | same => exact h
  | moved sys r hl hm => exact h.moved hl hm
  | idle sys addinfoIDs hr hl hm =>
    exact ⟨hsound,h.ids_moved hm,h.order,hlater,h.rows,h.idle,by simp [hr]⟩
  | snapped sys links addinfoIDs tr hr hl hm hq hbefore hst ht =>
    refine ⟨hsound,h.ids_moved hm,h.order,hlater,h.rows,by simp,?_⟩
    intro tr' htr
    obtain rfl : tr = tr' := by simpa using htr
    rcases hst with hst | hst <;> rw [hst]
    · refine ⟨h.idle hr,fun w hw => Nat.lt_succ_of_le (h.serials w hw),?_⟩
      intro snap hs hold
      exact h.ids _ _ ((ht.isOf snap hs).2 hold)
    · exact h.idle hr
  | committed removedBefore succeeded snaps hr => exact h.committed hr succeeded
  | failed removedBefore snaps hr =>
    refine ⟨hsound,h.ids,h.order,h.serials,h.rows,by simp,?_⟩
    intro tr htr
    obtain rfl : _ = tr := by simpa using htr
    exact (h.run _ hr).1
  | requeued sys tr hr hst hl hm =>
    refine ⟨hsound,h.ids_moved hm,h.order,h.serials,h.rows,?_,by simp⟩
    intro _
    have hstage := h.run tr hr
    rw [hst] at hstage
    exact hstage
  | finished sys tr succeeded maxid hr hst hfin => exact h.finished hr hst hfin (hfinds tr hr rfl)
  | deleted mintime =>
    refine ⟨hsound,h.ids,h.order,h.serials,?_,h.idle,?_⟩
    · intro i r hi
      exact h.rows i r (Option.filter_eq_some_iff.mp hi).1
    · intro tr hr
      have hstage := h.run tr hr
      cases hst : tr.stage <;> rw [hst] at hstage <;> exact hstage

theorem Ledger.Inv.step (hf : l.archive.sys.store.Fits) {e : DbEvent} (hs : l.safe e = true) :
    (l.step e).Inv := by
  unfold Ledger.safe at hs
  rw [Bool.and_eq_true] at hs
  refine h.of_change (h.sound.change hf hs.1) ?_
  intro tr hr hend
  cases e with
  | finish => simpa [hr] using hs.2
  | base e =>
    have hsame : (l.step (.base e)).archive.run = l.archive.run := rfl
    rw [hsame,hr] at hend
    cases hend
  | start now beginOk linkError endOk =>
    simp [Ledger.step,Archive.step,hr] at hend
  | commit succeeded ok =>
    obtain ⟨removedBefore,snaps,stage⟩ := tr
    cases stage <;> cases ok <;> simp [Ledger.step,Archive.step,hr] at hend
  | deleteOld mintime =>
    have hsame : (l.step (.deleteOld mintime)).archive.run = l.archive.run := rfl
    rw [hsame,hr] at hend
    cases hend

end

end

theorem Ledger.Reachable.inv {l : Ledger} (h : Ledger.Reachable Ledger.safe l) : l.Inv := by
  induction h with
  | @init store maxid hq =>
    have hsound := Ledger.Sound.init maxid hq
    refine ⟨hsound,?_,List.Pairwise.nil,by simp [Ledger.initial],?_,?_,by simp [Ledger.initial]⟩
    · intro i d hid
      have hid' : store.q.rowIDs[i]? = some (some d) := hid
      rw [hq] at hid'
      simp [QueryStore.rowIDs,QueryStore.live,QueryStore.empty] at hid'
    · intro i r hi
      cases hi
    · intro _ w hw
      cases hw
  | step _ hf hs ih => exact ih.step hf hs

/-- In every run of safe steps: a row is replaced only in a later run and for the query it was
written for, every row is the one last written under its id, and except between a commit and phase
3 of a run `memdb_queries_maxid` is not below the id of any row. -/
theorem row_ids_never_reused {l : Ledger} (h : Ledger.Reachable Ledger.safe l) :
    l.log.Pairwise (fun a b => a.idx = b.idx → a.owner = b.owner ∧ a.serial < b.serial) ∧
      RowsOf l.archive.rows l.log ∧
      ((∀ tr n, l.archive.run = some tr → tr.stage ≠ .committed n) →
        ∀ i r, l.archive.rows i = some r → i ≤ l.archive.maxid) := by
  have hinv := h.inv
  refine ⟨hinv.order,hinv.rows,?_⟩
  intro hpending i r hi
  obtain ⟨pre,w,post,hlog,hidx,_⟩ := hinv.rows i r hi
  have hw : w ∈ l.log := by
    rw [hlog]
    simp
  have hbelow : l.Below := by
    cases hr : l.archive.run with
    | none => exact hinv.idle hr
    | some tr =>
      have hstage := hinv.run tr hr
      cases hst : tr.stage with
      | snapped =>
        rw [hst] at hstage
        exact hstage.1
      | committed n => exact absurd hst (hpending tr n hr)
      | failed =>
        rw [hst] at hstage
        exact hstage
  rw [← hidx]
  exact hbelow w hw

def twoRuns : List DbEvent :=
  [.base (.newQuery .plain (.of "10.0.0.2" "example.com" 1 100)),.start 101 true none true,
    .commit 1 true,.finish,.base (.newQuery .plain (.of "10.0.0.2" "example.org" 2 102)),
    .start 103 true none true,.commit 1 true,.finish]

theorem row_ids_never_reused_sample :
    (archiveSample.run twoRuns).log.map (fun w => (w.idx,w.owner)) = [(0,0),(1,1)] ∧
      1 ≤ (archiveSample.run twoRuns).archive.maxid := by
  have h₀ : Ledger.Reachable Ledger.safe archiveSample := .init rfl
  have h := h₀.run twoRuns (by decide +kernel)
  have hnone : (archiveSample.run twoRuns).archive.run = none := by decide +kernel
  have hsome : ((archiveSample.run twoRuns).archive.rows 1).isSome = true := by decide +kernel
  obtain ⟨r,hr⟩ := Option.isSome_iff_exists.mp hsome
  refine ⟨by decide +kernel,(row_ids_never_reused h).2.2 ?_ 1 r hr⟩
  intro tr n htr
  rw [hnone] at htr
  cases htr

/-- The logs are flushed between phases 1 and 2: the row of the query that is gone is committed,
phase 3 finds no query and leaves `memdb_queries_maxid` alone, and the next query replaces the
row. -/
theorem row_id_reused_after_flush :
    let l := archiveSample.run
      [.base (.newQuery .plain (.of "10.0.0.2" "example.com" 1 100)),.start 101 true none true,
        .base (.gcFlush 102 102),.deleteOld 102,.commit 1 true,.finish,
        .base (.newQuery .plain (.of "10.0.0.2" "example.org" 2 103)),.start 104 true none true]
    (l.archive.rows 0).map Row.timestamp = some 100 ∧ l.archive.maxid = -1 ∧
      ((l.step (.commit 1 true)).archive.rows 0).map Row.timestamp = some 103 ∧
      (l.step (.commit 1 true)).log.map (fun w => (w.idx,w.owner)) = [(0,0),(0,1)] := by
  decide +kernel

end Lorentz
