import Lorentz.LinkingTables
import Lorentz.Layout

/-!
What the phases of `queries_to_database` do to the query array, and which queries the
snapshots are of.
-/

set_option autoImplicit false

namespace Lorentz
open Function QueryStore List

def QueriesData.withChanged (x : QueriesData) (changed : Bool) : QueriesData :=
  { x with flags := { x.flags with changed := changed } }

structure QueryStore.Flagged (q q' : QueryStore) : Prop where
  valid : q'.Valid
  queries : q'.queries = q.queries
  offset : q'.offset = q.offset
  queriesMax : q'.queriesMax = q.queriesMax
  removed : q'.removed = q.removed
  flags : ∀ p, ∃ b, q'.mem p = (q.mem p).withChanged b

namespace QueryStore

variable {q q' q'' : QueryStore}

theorem Flagged.refl (h : q.Valid) : q.Flagged q :=
  ⟨h,rfl,rfl,rfl,rfl,fun p => ⟨(q.mem p).flags.changed,rfl⟩⟩

theorem Flagged.trans (h : q.Flagged q') (k : q'.Flagged q'') : q.Flagged q'' := by
  refine ⟨k.valid,k.queries.trans h.queries,k.offset.trans h.offset,
    k.queriesMax.trans h.queriesMax,k.removed.trans h.removed,?_⟩
  intro p
  obtain ⟨b,hb⟩ := h.flags p
  obtain ⟨c,hc⟩ := k.flags p
  exact ⟨c,by rw [hc,hb]; rfl⟩

theorem Valid.flagged_setChanged (h : q.Valid) {i : Nat} (hi : i < q.queries)
    (b : Bool) : q.Flagged (q.setChanged (i+q.offset) b) := by
  have hx : ((q.mem (i+q.offset)).withChanged b).magic = (q.mem (i+q.offset)).magic := rfl
  refine ⟨h.of_update hi hx rfl rfl rfl rfl,rfl,rfl,rfl,rfl,?_⟩
  intro p
  by_cases hp : p = i+q.offset
  · subst hp
    exact ⟨b,update_self _ _ _⟩
  · exact ⟨(q.mem p).flags.changed,update_of_ne hp _ _⟩

theorem Flagged.rowIDs (h : q.Flagged q') : q'.rowIDs = q.rowIDs := by
  unfold QueryStore.rowIDs QueryStore.live
  rw [map_map,map_map,h.queries]
  refine map_congr_left fun j _ => ?_
  obtain ⟨b,hb⟩ := h.flags (j+q.offset)
  simp only [comp_apply,h.offset,hb]
  rfl

theorem Flagged.moved (h : q.Flagged q') : q.Moved 0 q' :=
  ⟨h.valid,by rw [h.removed]; rfl,Nat.zero_le _,0,by simp [h.rowIDs]⟩

end QueryStore

/-- The snapshot is of a live query of `q` that has changed. -/
structure QuerySnap.IsOf (q : QueryStore) (snap : QuerySnap) : Prop where
  live : snap.queryID < q.queries
  changed : (q.mem (snap.queryID+q.offset)).flags.changed = true
  isNew : snap.isNew = (q.mem (snap.queryID+q.offset)).db.isNone
  idx : snap.isNew = false → (q.mem (snap.queryID+q.offset)).db = some snap.idx

theorem QuerySnap.IsOf.rowID {q : QueryStore} {snap : QuerySnap} (h : snap.IsOf q)
    (hold : snap.isNew = false) : q.rowIDs[snap.queryID]? = some (some snap.idx) := by
  unfold rowIDs
  rw [getElem?_map,live_getElem? h.live,Option.map_some,h.idx hold]

theorem QuerySnap.IsOf.of_setChanged {q : QueryStore} {snap : QuerySnap} {i : Nat} {b : Bool}
    (h : snap.IsOf (q.setChanged (i+q.offset) b)) (hi : i < snap.queryID) : snap.IsOf q := by
  have hm : (q.setChanged (i+q.offset) b).mem (snap.queryID+q.offset) =
      q.mem (snap.queryID+q.offset) := update_of_ne (by omega) _ _
  obtain ⟨h₁,h₂,h₃,h₄⟩ := h
  have ho : (q.setChanged (i+q.offset) b).offset = q.offset := rfl
  rw [ho,hm] at h₂ h₃ h₄
  exact ⟨h₁,h₂,h₃,h₄⟩

/-- What the loop of phase 1 gives for the `n` queries from index `queryID` on. -/
structure Snapped (n queryID : Nat) (maxid : Int) (q : QueryStore) (r : PhaseOne) : Prop where
  flagged : q.Flagged r.q
  isOf : ∀ snap ∈ r.snaps, snap.IsOf q ∧ queryID ≤ snap.queryID
  fresh : ∀ snap ∈ r.snaps, snap.isNew = true → maxid < snap.idx
  order : r.snaps.Pairwise (fun a b => a.queryID < b.queryID ∧
    (a.isNew = true → b.isNew = true → a.idx < b.idx))
  complete : r.failed = false → ∀ i, queryID ≤ i → i < queryID+n →
    (q.mem (i+q.offset)).flags.changed = true → ∃ snap ∈ r.snaps, snap.queryID = i

theorem Snapped.skip {n queryID : Nat} {maxid : Int} {q : QueryStore} {r : PhaseOne}
    (h : Snapped n (queryID+1) maxid q r)
    (hun : (q.mem (queryID+q.offset)).flags.changed = false) :
    Snapped (n+1) queryID maxid q r := by
  refine ⟨h.flagged,?_,h.fresh,h.order,?_⟩
  · intro snap hs
    obtain ⟨hof,hle⟩ := h.isOf snap hs
    exact ⟨hof,by omega⟩
  intro herr i h₁ h₂ hc
  by_cases hi : i = queryID
  · subst hi
    rw [hun] at hc
    cases hc
  · exact h.complete herr i (by omega) (by omega) hc

theorem Snapped.take {n queryID : Nat} {maxid : Int} {q : QueryStore} {r : PhaseOne} {row : Row}
    (hv : q.Valid) (hlive : queryID < q.queries)
    (hch : (q.mem (queryID+q.offset)).flags.changed = true)
    (h : Snapped n (queryID+1)
      (if (q.mem (queryID+q.offset)).db.isNone then maxid+1 else maxid)
      (q.setChanged (queryID+q.offset) false) r) :
    Snapped (n+1) queryID maxid q { r with
      snaps := ⟨queryID,(q.mem (queryID+q.offset)).db.getD (maxid+1),
        (q.mem (queryID+q.offset)).db.isNone,row⟩ :: r.snaps } := by
  have hfresh : ∀ snap ∈ r.snaps, snap.isNew = true → maxid < snap.idx := by
    intro snap hs hnew
    have := h.fresh snap hs hnew
    split at this <;> omega
  refine ⟨(hv.flagged_setChanged hlive false).trans h.flagged,?_,?_,?_,?_⟩
  · intro snap hs
    rcases mem_cons.mp hs with rfl | hs
    · refine ⟨⟨hlive,hch,rfl,?_⟩,Nat.le_refl _⟩
      intro hold
      cases hdb : (q.mem (queryID+q.offset)).db with
      | none => simp [hdb] at hold
      | some d => simp
    · obtain ⟨hof,hle⟩ := h.isOf snap hs
      exact ⟨hof.of_setChanged (by omega),by omega⟩
  · intro snap hs hnew
    rcases mem_cons.mp hs with rfl | hs
    · cases hdb : (q.mem (queryID+q.offset)).db with
      | none => simp
      | some d => simp [hdb] at hnew
    · exact hfresh snap hs hnew
  · refine Pairwise.cons ?_ h.order
    intro snap hs
    refine ⟨(h.isOf snap hs).2,?_⟩
    intro hnew hnew'
    have hlt := h.fresh snap hs hnew'
    cases hdb : (q.mem (queryID+q.offset)).db with
    | none => simpa [hdb] using hlt
    | some d => simp [hdb] at hnew
  · intro herr i h₁ h₂ hc
    by_cases hi : i = queryID
    · exact ⟨_,mem_cons_self,hi.symm⟩
    have hm : (q.setChanged (queryID+q.offset) false).mem (i+q.offset) = q.mem (i+q.offset) :=
      update_of_ne (by omega) _ _
    obtain ⟨snap,hs,hq⟩ := h.complete herr i (by omega) (by omega) (by
      show ((q.setChanged (queryID+q.offset) false).mem (i+q.offset)).flags.changed = true
      rw [hm]
      exact hc)
    exact ⟨snap,mem_cons_of_mem _ hs,hq⟩

theorem takeSnapshots_snapped (n : Nat) :
    ∀ (queryID : Nat) (maxid : Int) (s : Linking) (q : QueryStore), q.Valid →
      queryID+n ≤ q.queries → Snapped n queryID maxid q (takeSnapshots n queryID maxid s q) := by
  induction n with
  | zero =>
    intro queryID maxid s q hv hn
    refine ⟨Flagged.refl hv,?_,?_,Pairwise.nil,?_⟩
    · simp [takeSnapshots]
    · simp [takeSnapshots]
    · intro _ i h₁ h₂
      omega
  | succ n ih =>
    intro queryID maxid s q hv hn
    have hlive : queryID < q.queries := by omega
    simp only [takeSnapshots,hv.getQuery_eq hlive]
    cases hch : (q.mem (queryID+q.offset)).flags.changed with
    | false =>
      exact (ih (queryID+1) maxid s q hv (by omega)).skip hch
    | true =>
      have hv' := (hv.flagged_setChanged hlive false).valid
      rcases s.linkQuery (q.mem (queryID+q.offset)) with ⟨s',_ | row⟩
      · exact ⟨Flagged.refl hv,by simp,by simp,Pairwise.nil,by simp⟩
      · exact Snapped.take hv hlive hch (ih (queryID+1) _ s' _ hv' (by
          show queryID+1+n ≤ q.queries
          omega))

section

variable {q : QueryStore} {gone goneBefore removedBefore : Nat}

/-- The array and a `queries_to_database` that began when `goneBefore` queries had been removed,
by a 32 bit counter. -/
structure QueryStore.Since (q : QueryStore) (gone goneBefore removedBefore : Nat) : Prop where
  removed : q.removed % uintMod = gone % uintMod
  before : removedBefore % uintMod = goneBefore % uintMod
  le : goneBefore ≤ gone
  lt : gone-goneBefore < uintMod

theorem QueryStore.Since.getSnapshotQuery (h : q.Since gone goneBefore removedBefore)
    (hv : q.Valid) {snap : QuerySnap} (hlive : goneBefore+snap.queryID < gone+q.queries) :
    q.getSnapshotQuery removedBefore snap =
      if goneBefore+snap.queryID < gone then none
      else some (goneBefore+snap.queryID-gone+q.offset) := by
  obtain ⟨hr,hb,hle,hlt⟩ := h
  have hshift : (q.removed+(uintMod-removedBefore % uintMod)) % uintMod = gone-goneBefore := by
    unfold uintMod at *
    omega
  unfold QueryStore.getSnapshotQuery
  by_cases hgone : goneBefore+snap.queryID < gone
  · rw [if_pos (by omega),if_pos hgone]
  · rw [if_neg (by omega),if_neg hgone,hv.getQuery_eq (by omega)]
    congr 1
    omega

theorem QueryStore.Since.congr {q' : QueryStore} (h : q.Since gone goneBefore removedBefore)
    (hr : q'.removed = q.removed) : q'.Since gone goneBefore removedBefore :=
  ⟨by rw [hr]; exact h.removed,h.before,h.le,h.lt⟩

theorem requeueSnapshots_flagged (snaps : List QuerySnap) :
    ∀ q : QueryStore, q.Valid → q.Since gone goneBefore removedBefore →
      (∀ snap ∈ snaps, goneBefore+snap.queryID < gone+q.queries) →
      q.Flagged (requeueSnapshots removedBefore snaps q) := by
  induction snaps with
  | nil =>
    intro q hv _ _
    exact Flagged.refl hv
  | cons snap snaps ih =>
    intro q hv hs hlive
    have hlive' := fun s hs => hlive s (mem_cons_of_mem _ hs)
    have hsnap := hlive snap mem_cons_self
    unfold requeueSnapshots
    rw [hs.getSnapshotQuery hv hsnap]
    by_cases hgone : goneBefore+snap.queryID < gone
    · simp only [hgone,if_true]
      exact ih q hv hs hlive'
    · simp only [hgone,if_false]
      have hf := hv.flagged_setChanged (i := goneBefore+snap.queryID-gone) (by omega) true
      exact hf.trans (ih _ hf.valid (hs.congr rfl) hlive')

/-- The array after the row ids of `snaps` went back: each new query that still exists has the id
of its snapshot, every other keeps its id. -/
structure WroteBack (gone goneBefore : Nat) (snaps : List QuerySnap) (q q' : QueryStore) : Prop where
  valid : q'.Valid
  queries : q'.queries = q.queries
  removed : q'.removed = q.removed
  ids : ∀ i < q.queries,
    (∃ snap ∈ snaps, snap.isNew = true ∧ goneBefore+snap.queryID = gone+i ∧
      q'.rowIDs[i]? = some (some snap.idx)) ∨
    ((∀ snap ∈ snaps, snap.isNew = true → goneBefore+snap.queryID ≠ gone+i) ∧
      q'.rowIDs[i]? = q.rowIDs[i]?)

theorem QueryStore.Valid.setRowID (hv : q.Valid) {i : Nat} (hi : i < q.queries) (d : Int) :
    ∃ q' : QueryStore, q' = q.setQuery (i+q.offset) { q.mem (i+q.offset) with db := some d } ∧
      q'.Valid ∧ q'.queries = q.queries ∧ q'.removed = q.removed ∧
      q'.rowIDs = q.rowIDs.set i (some d) := by
  have hx : ({ q.mem (i+q.offset) with db := some d } : QueriesData).magic =
      (q.mem (i+q.offset)).magic := rfl
  have hlive : (q.setQuery (i+q.offset) { q.mem (i+q.offset) with db := some d }).live =
      q.live.set i { q.mem (i+q.offset) with db := some d } := q.live_update rfl rfl rfl
  refine ⟨_,rfl,hv.of_update hi hx rfl rfl rfl rfl,rfl,rfl,?_⟩
  unfold rowIDs
  rw [hlive,map_set]

theorem QueryStore.Since.writeRowID (h : q.Since gone goneBefore removedBefore) (hv : q.Valid)
    {snap : QuerySnap} (hlive : goneBefore+snap.queryID < gone+q.queries) :
    ((snap.isNew = false ∨ goneBefore+snap.queryID < gone) ∧
        q.writeRowID removedBefore snap = none) ∨
      ∃ q' i, snap.isNew = true ∧ goneBefore+snap.queryID = gone+i ∧ i < q.queries ∧
        q.writeRowID removedBefore snap = some q' ∧ q'.Valid ∧ q'.queries = q.queries ∧
        q'.removed = q.removed ∧ q'.rowIDs = q.rowIDs.set i (some snap.idx) := by
  unfold QueryStore.writeRowID
  rw [h.getSnapshotQuery hv hlive]
  cases hnew : snap.isNew with
  | false => exact .inl ⟨.inl rfl,rfl⟩
  | true =>
    by_cases hgone : goneBefore+snap.queryID < gone
    · exact .inl ⟨.inr hgone,by simp [hgone]⟩
    right
    obtain ⟨q',hq,hrest⟩ := hv.setRowID (i := goneBefore+snap.queryID-gone) (by omega) snap.idx
    refine ⟨q',goneBefore+snap.queryID-gone,rfl,by omega,by omega,?_,hrest⟩
    simp [hgone,hq]

theorem writeBack_wroteBack (snaps : List QuerySnap) :
    ∀ q : QueryStore, q.Valid → q.Since gone goneBefore removedBefore →
      (∀ snap ∈ snaps, goneBefore+snap.queryID < gone+q.queries) →
      WroteBack gone goneBefore snaps q (writeBack removedBefore snaps q).1 ∧
        (0 < (writeBack removedBefore snaps q).2 ↔
          ∃ snap ∈ snaps, snap.isNew = true ∧ gone ≤ goneBefore+snap.queryID) := by
  induction snaps with
  | nil =>
    intro q hv _ _
    exact ⟨⟨hv,rfl,rfl,fun i _ => .inr ⟨by simp,rfl⟩⟩,by simp [writeBack]⟩
  | cons snap snaps ih =>
    intro q hv hs hlive
    have hlive' := fun s hs => hlive s (mem_cons_of_mem _ hs)
    unfold writeBack
    obtain ⟨hno,hw⟩ | ⟨q',k,hnew,hk,hkq,hw,hv',hq,hr,hids⟩ :=
      hs.writeRowID hv (hlive snap mem_cons_self)
    · rw [hw]
      obtain ⟨hwb,hadd⟩ := ih q hv hs hlive'
      refine ⟨⟨hwb.valid,hwb.queries,hwb.removed,?_⟩,?_⟩
      · intro i hi
        obtain ⟨s,hs,h⟩ | ⟨hnone,hsame⟩ := hwb.ids i hi
        · exact .inl ⟨s,mem_cons_of_mem _ hs,h⟩
        refine .inr ⟨?_,hsame⟩
        intro s hs hnew
        rcases mem_cons.mp hs with rfl | hs
        · rcases hno with hno | hno
          · rw [hnew] at hno
            cases hno
          · omega
        · exact hnone s hs hnew
      · rw [hadd]
        constructor
        · intro ⟨s,hs,h⟩
          exact ⟨s,mem_cons_of_mem _ hs,h⟩
        intro ⟨s,hs,hnew,hge⟩
        rcases mem_cons.mp hs with rfl | hs
        · rcases hno with hno | hno
          · rw [hnew] at hno
            cases hno
          · omega
        · exact ⟨s,hs,hnew,hge⟩
    rw [hw]
    obtain ⟨hwb,_⟩ := ih q' hv' (hs.congr hr) (by rw [hq]; exact hlive')
    refine ⟨⟨hwb.valid,hwb.queries.trans hq,hwb.removed.trans hr,?_⟩,?_⟩
    · intro i hi
      obtain ⟨s,hs,h⟩ | ⟨hnone,hsame⟩ := hwb.ids i (by rw [hq]; exact hi)
      · exact .inl ⟨s,mem_cons_of_mem _ hs,h⟩
      by_cases hki : k = i
      · subst hki
        refine .inl ⟨snap,mem_cons_self,hnew,hk,?_⟩
        rw [hsame,hids]
        simp [length_rowIDs,hi]
      refine .inr ⟨?_,by rw [hsame,hids,getElem?_set_ne hki]⟩
      intro s hs hnew'
      rcases mem_cons.mp hs with rfl | hs
      · omega
      · exact hnone s hs hnew'
    · constructor
      · intro _
        exact ⟨snap,mem_cons_self,hnew,by omega⟩
      · intro _
        exact Nat.succ_pos _

end

end Lorentz
