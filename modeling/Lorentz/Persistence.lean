import Lorentz.Ledger
import Lorentz.StoredRows

/-!
A `queries_to_database` whose statements all succeed stores every query that has changed and lies
behind the last one older than the time of a reply.
-/

set_option autoImplicit false

namespace Lorentz
open Function QueryStore Ledger

/-- The search of `queries_to_database` does not stop behind index `i`: no query from
there on is imported or older than `limit`. -/
def QueryStore.InWindow (q : QueryStore) (limit : ℚ) (i : Nat) : Prop :=
  ∀ x ∈ q.live.drop (max i 1), limit ≤ x.timestamp ∧ x.flags.imported = false

instance (q : QueryStore) (limit : ℚ) (i : Nat) : Decidable (q.InWindow limit i) :=
  inferInstanceAs (Decidable (∀ x ∈ q.live.drop (max i 1), _))

section

variable {q : QueryStore}

theorem QueryStore.InWindow.at {limit : ℚ} {i j : Nat} (h : q.InWindow limit i) (hi : i ≤ j)
    (hpos : 1 ≤ j) (hj : j < q.queries) :
    limit ≤ (q.mem (j+q.offset)).timestamp ∧ (q.mem (j+q.offset)).flags.imported = false := by
  refine h _ (List.mem_drop_iff_getElem.mpr ⟨j-max i 1,?_,?_⟩)
  · rw [length_live]
    omega
  · have hidx : max i 1+(j-max i 1) = j := by omega
    simp only [hidx]
    exact live_getElem _

theorem QueryStore.Valid.scanWindow (h : q.Valid) (limit : ℚ) (n : Nat) (hn : n < q.queries) :
    ∃ last, q.scanWindow limit n = some last ∧ ∀ i ≤ n,
      (∀ j, i ≤ j → 1 ≤ j → j ≤ n → limit ≤ (q.mem (j+q.offset)).timestamp ∧
        (q.mem (j+q.offset)).flags.imported = false) → last ≤ i := by
  induction n with
  | zero => exact ⟨0,rfl,fun i _ _ => Nat.zero_le i⟩
  | succ n ih =>
    simp only [QueryStore.scanWindow,h.getQuery_eq hn]
    split
    · rename_i hold
      refine ⟨n+2,rfl,?_⟩
      intro i hi hin
      obtain ⟨hts,himp⟩ := hin (n+1) hi (by omega) (Nat.le_refl _)
      rcases hold with hold | hold
      · exact absurd hts (not_le.mpr hold)
      · rw [himp] at hold
        cases hold
    · obtain ⟨last,hscan,hlast⟩ := ih (by omega)
      refine ⟨last,hscan,?_⟩
      intro i hi hin
      by_cases hin' : i ≤ n
      · exact hlast i hin' fun j h₁ h₂ h₃ => hin j h₁ h₂ (by omega)
      · have := scanWindow_le hscan
        omega

end

theorem takeSnapshots_shows {level : PrivacyLevel} {xs : List QueriesData} (n : Nat) :
    ∀ (queryID : Nat) (maxid : Int) (s : Linking) (q : QueryStore), q.Valid → queryID+n ≤ q.queries →
      s.Linked level xs → s.budget = none →
      (∀ i, queryID ≤ i → i < queryID+n → (q.mem (i+q.offset)).flags.changed = true →
        q.mem (i+q.offset) ∈ xs ∧ (q.mem (i+q.offset)).privacylevel = level) →
      (takeSnapshots n queryID maxid s q).failed = false ∧
        s.Step level xs (takeSnapshots n queryID maxid s q).linking ∧
        ∀ snap ∈ (takeSnapshots n queryID maxid s q).snaps,
          snap.row.Shows (takeSnapshots n queryID maxid s q).linking.links
            (s.t.viewOf (q.mem (snap.queryID+q.offset))) := by
  induction n with
  | zero =>
    intro queryID maxid s q _ _ hl hb _
    exact ⟨rfl,hl.step hb,by simp [takeSnapshots]⟩
  | succ n ih =>
    intro queryID maxid s q hv hn hl hb hxs
    have hlive : queryID < q.queries := by omega
    simp only [takeSnapshots,hv.getQuery_eq hlive]
    cases hch : (q.mem (queryID+q.offset)).flags.changed with
    | false =>
      exact ih (queryID+1) maxid s q hv (by omega) hl hb
        fun i h₁ h₂ => hxs i (by omega) (by omega)
    | true =>
      obtain ⟨hmem,hlevel⟩ := hxs queryID (Nat.le_refl _) (by omega) hch
      obtain ⟨s',row,hlink,hstep,hrow⟩ := s.linkQuery_step hl hb hmem hlevel
      simp only [hlink]
      have hother : ∀ i, queryID+1 ≤ i →
          (q.setChanged (queryID+q.offset) false).mem (i+q.offset) = q.mem (i+q.offset) :=
        fun i hi => update_of_ne (by omega) _ _
      have hv' := (hv.flagged_setChanged hlive false).valid
      have hsnapped := takeSnapshots_snapped n (queryID+1)
        (if (q.mem (queryID+q.offset)).db.isNone then maxid+1 else maxid) s' _ hv' (by
          show queryID+1+n ≤ q.queries
          omega)
      obtain ⟨hok,hsteps,hrows⟩ := ih (queryID+1)
        (if (q.mem (queryID+q.offset)).db.isNone then maxid+1 else maxid) s' _ hv' (by
          show queryID+1+n ≤ q.queries
          omega) hstep.linked hstep.budget (by
          intro i h₁ h₂ hc
          have ho : (q.setChanged (queryID+q.offset) false).offset = q.offset := rfl
          rw [ho,hother i h₁] at hc ⊢
          exact hxs i (by omega) (by omega) hc)
      refine ⟨hok,hstep.trans hsteps,?_⟩
      intro snap hs
      rcases List.mem_cons.mp hs with rfl | hs
      · exact hrow.extends hsteps.links
      have hshow := hrows snap hs
      have ho : (q.setChanged (queryID+q.offset) false).offset = q.offset := rfl
      rw [ho,hother _ (hsnapped.isOf snap hs).2,hstep.relinked.viewOf] at hshow
      exact hshow

/-- A `queries_to_database` can begin and link what has changed: queries are stored, were recorded
under the present privacy level, and what is remembered of the linking tables is right. -/
structure Ledger.Orderly (l : Ledger) : Prop where
  idle : l.archive.run = none
  level : l.archive.sys.store.config.privacylevel ≠ .maximum
  imported : l.archive.importDone = true
  recorded : ∀ x ∈ l.q.live, x.flags.changed = true →
    x.privacylevel = l.archive.sys.store.config.privacylevel
  linked : Linking.Linked l.archive.sys.store.config.privacylevel
    (l.q.live.filter (fun x => x.flags.changed))
    ⟨l.archive.sys.store.t,l.archive.links,l.archive.addinfoIDs,none⟩

section

variable {l : Ledger}

theorem Ledger.Sound.start_snapped (h : l.Sound) (hf : l.archive.sys.store.Fits) (ho : l.Orderly)
    {now : ℚ} {i : Nat} {x : QueriesData} (hx : l.q.live[i]? = some x)
    (hc : x.flags.changed = true) (hw : l.q.InWindow (now-REPLY_TIMEOUT) i) :
    ∃ tr snap, (l.step (.start now true none true)).archive.run = some tr ∧
      tr.stage = .snapped ∧ snap ∈ tr.snaps ∧ snap.queryID = i ∧
      snap.isNew = x.db.isNone ∧ (snap.isNew = false → x.db = some snap.idx) ∧
      snap.row.Shows (l.step (.start now true none true)).archive.links
        (l.archive.sys.store.t.viewOf x) := by
  obtain ⟨hv,_,hlen⟩ := h.laid.lock hf
  have hlive : l.archive.sys.store.lockShm.q.live = l.q.live := live_ensureSize _
  have hi : i < l.q.queries := by
    rw [← length_live]
    exact (List.getElem?_eq_some_iff.mp hx).1
  have hwin : l.archive.sys.store.lockShm.q.InWindow (now-REPLY_TIMEOUT) i := by
    unfold InWindow
    rw [hlive]
    exact hw
  have hlen' : l.archive.sys.store.lockShm.q.queries = l.q.queries := hlen
  have harch : (l.step (.start now true none true)).archive =
      l.archive.start now true none true := by
    simp [Ledger.step,Archive.step,ho.idle]
  rw [harch]
  unfold Archive.start Archive.lock
  have hguard : ¬ (l.archive.sys.store.config.privacylevel = .maximum ∨
      l.archive.sys.store.q.queries = 0 ∨ l.archive.importDone = false) := by
    rintro (hmax | hzero | himp)
    · exact ho.level hmax
    · exact absurd hzero (Nat.ne_of_gt (Nat.lt_of_le_of_lt (Nat.zero_le i) hi))
    · rw [ho.imported] at himp
      cases himp
  rw [if_neg hguard]
  dsimp only
  generalize hq : l.archive.sys.store.lockShm.q = q at hv hlive hwin hlen'
  have hmem : q.mem (i+q.offset) = x := by
    rw [← hlive,live_getElem? (by omega)] at hx
    exact Option.some.inj hx
  obtain ⟨last,hscan,hlast⟩ := hv.scanWindow (now-REPLY_TIMEOUT) (q.queries-1) (by omega)
  have hle : last ≤ i := hlast i (by omega) fun j h₁ h₂ h₃ => hwin.at h₁ h₂ (by omega)
  simp only [hscan]
  rw [if_neg (by simp; omega)]
  unfold Archive.snapshot
  dsimp only
  rw [hq]
  have hsnapped := takeSnapshots_snapped (q.queries-last) last l.archive.maxid
    ⟨l.archive.sys.store.lockShm.t,l.archive.links,l.archive.addinfoIDs,none⟩ q hv (by omega)
  obtain ⟨hok,_,hrows⟩ := takeSnapshots_shows (q.queries-last) last l.archive.maxid
    ⟨l.archive.sys.store.lockShm.t,l.archive.links,l.archive.addinfoIDs,none⟩ q hv (by omega)
    ho.linked rfl (by
      intro j _ hj hcj
      have hjl : q.mem (j+q.offset) ∈ l.q.live := by
        rw [← hlive]
        exact List.mem_of_getElem? (live_getElem? (by omega))
      exact ⟨List.mem_filter.mpr ⟨hjl,hcj⟩,ho.recorded _ hjl hcj⟩)
  obtain ⟨snap,hs,hid⟩ := hsnapped.complete hok i hle (by omega) (by rw [hmem]; exact hc)
  have hof := (hsnapped.isOf snap hs).1
  have hrow := hrows snap hs
  obtain ⟨_,_,hnew,hidx⟩ := hof
  rw [hid,hmem] at hnew hidx hrow
  refine ⟨_,snap,rfl,?_,hs,hid,hnew,hidx,hrow⟩
  simp only [hok,Bool.false_eq_true,if_false]

end

def DbEvent.isOther : DbEvent → Bool
  | .base _ | .deleteOld _ => true
  | _ => false

def DbEvent.spares (timestamp : ℚ) : DbEvent → Bool
  | .deleteOld mintime => mintime < timestamp
  | _ => true

/-- From `l` to `l'` a run of `queries_to_database` has been waiting. -/
structure Ledger.Carried (l l' : Ledger) : Prop where
  sound : l'.Sound
  run : l'.archive.run = l.archive.run
  links : l'.archive.links = l.archive.links
  goneBefore : l'.goneBefore = l.goneBefore
  live : l.gone+l.q.queries ≤ l'.gone+l'.q.queries
  le : l.gone ≤ l'.gone
  ids : ∀ o, l'.gone ≤ o → o < l.gone+l.q.queries →
    l'.q.rowIDs[o-l'.gone]? = l.q.rowIDs[o-l.gone]?

namespace Ledger

variable {l l' l'' : Ledger}

theorem Sound.carried (h : l.Sound) : l.Carried l :=
  ⟨h,rfl,rfl,rfl,Nat.le_refl _,Nat.le_refl _,fun _ _ _ => rfl⟩

theorem Carried.trans (h : l.Carried l') (k : l'.Carried l'') : l.Carried l'' := by
  refine ⟨k.sound,k.run.trans h.run,k.links.trans h.links,k.goneBefore.trans h.goneBefore,
    Nat.le_trans h.live k.live,Nat.le_trans h.le k.le,?_⟩
  intro o hge hlt
  have := h.live
  have := k.le
  rw [k.ids o hge (by omega),h.ids o (by omega) hlt]

theorem Sound.carried_moved (h : l.Sound) {sys : System} {r : Nat} (hl : sys.Laid)
    (hm : l.q.Moved r sys.store.q) :
    l.Carried { l with archive := { l.archive with sys := sys }, gone := l.gone+r } := by
  refine ⟨h.moved hl hm,rfl,rfl,rfl,?_,Nat.le_add_right _ _,?_⟩
  · have := hm.queries
    show l.gone+l.q.queries ≤ l.gone+r+sys.store.q.queries
    omega
  intro o hge hlt
  have hge' : l.gone+r ≤ o := hge
  have hids := hm.rowIDs_sub (i := o-l.gone) (by omega) (by omega)
  rw [← hids]
  show sys.store.q.rowIDs[o-(l.gone+r)]? = _
  congr 1
  omega

theorem Sound.carried_step (h : l.Sound) (hf : l.archive.sys.store.Fits) {e : DbEvent}
    (hs : l.sane e = true) (ho : e.isOther = true) : l.Carried (l.step e) := by
  cases e with
  | base e =>
    have hstep : l.step (.base e) = { l with
        archive := { l.archive with sys := l.archive.sys.step e }
        gone := l.gone+l.archive.sys.removes e } := by
      simp [Ledger.step,starts,writes,removes,Archive.step]
    rw [hstep]
    exact h.carried_moved (h.laid.step hf hs) (h.laid.moved hf e)
  | deleteOld mintime =>
    exact ⟨h.step hf hs,rfl,rfl,rfl,Nat.le_refl _,Nat.le_refl _,fun _ _ _ => rfl⟩
  | start now beginOk linkError endOk | commit succeeded ok | finish => cases ho

theorem Sound.carried_run (h : l.Sound) {events : List DbEvent}
    (hs : l.meets Ledger.sane events = true) (ho : ∀ e ∈ events, e.isOther = true) :
    l.Carried (l.run events) := by
  induction events generalizing l with
  | nil => exact h.carried
  | cons e events ih =>
    simp only [meets,Bool.and_eq_true,decide_eq_true_eq] at hs
    have hone := h.carried_step hs.1.1 hs.1.2 (ho e List.mem_cons_self)
    exact hone.trans (ih hone.sound hs.2 fun e' he => ho e' (List.mem_cons_of_mem _ he))

theorem row_run {events : List DbEvent} {idx : Int} {row : Row}
    (hrow : l.archive.rows idx = some row) (ho : ∀ e ∈ events, e.isOther = true)
    (hspare : ∀ e ∈ events, e.spares row.timestamp = true) :
    (l.run events).archive.rows idx = some row := by
  induction events generalizing l with
  | nil => exact hrow
  | cons e events ih =>
    refine ih (l := l.step e) ?_ (fun e' he => ho e' (List.mem_cons_of_mem _ he))
      fun e' he => hspare e' (List.mem_cons_of_mem _ he)
    have hoe := ho e List.mem_cons_self
    have hse := hspare e List.mem_cons_self
    cases e with
    | base e => exact hrow
    | deleteOld mintime =>
      have hlt : mintime < row.timestamp := by simpa [DbEvent.spares] using hse
      show (l.archive.rows idx).filter _ = _
      rw [hrow]
      simp [Option.filter,hlt]
    | start now beginOk linkError endOk | commit succeeded ok | finish => cases hoe

end Ledger

theorem replaceRows_of_not_mem (snaps : List QuerySnap) : ∀ (rows : Int → Option Row) (idx : Int),
    (∀ snap ∈ snaps, snap.idx ≠ idx) → replaceRows snaps rows idx = rows idx := by
  induction snaps with
  | nil =>
    intro rows idx _
    rfl
  | cons snap snaps ih =>
    intro rows idx hne
    show replaceRows snaps (update rows snap.idx (some snap.row)) idx = _
    rw [ih _ _ fun s hs => hne s (List.mem_cons_of_mem _ hs)]
    exact update_of_ne (Ne.symm (hne snap List.mem_cons_self)) _ _

theorem replaceRows_of_mem (snaps : List QuerySnap) : ∀ (rows : Int → Option Row) (snap : QuerySnap),
    snaps.Pairwise (fun a b => a.idx ≠ b.idx) → snap ∈ snaps →
      replaceRows snaps rows snap.idx = some snap.row := by
  induction snaps with
  | nil =>
    intro rows snap _ hs
    cases hs
  | cons s snaps ih =>
    intro rows snap hp hs
    obtain ⟨hne,hp⟩ := List.pairwise_cons.mp hp
    show replaceRows snaps (update rows s.idx (some s.row)) snap.idx = _
    rcases List.mem_cons.mp hs with rfl | hs
    · rw [replaceRows_of_not_mem _ _ _ fun s' hs' => (hne s' hs').symm]
      exact update_self _ _ _
    · exact ih _ _ hp hs

/-- The parts of a `queries_to_database` whose statements all succeed, with what happens between
them. -/
def successfulRun (now : ℚ) (before : List DbEvent) (succeeded : Nat) (after : List DbEvent) :
    List DbEvent :=
  .start now true none true :: (before ++ .commit succeeded true :: (after ++ [.finish]))

section

variable {l l' : Ledger}

theorem Ledger.Change.started (h : l.Change l') (hr : l.archive.run = none) {tr : Transfer}
    (htr : l'.archive.run = some tr) :
    l'.gone = l.gone ∧ l'.goneBefore = l.gone ∧ l.q.Moved 0 l'.q ∧ l'.q.queries = l.q.queries := by
  cases h with
  | snapped sys links addinfoIDs tr' _ _ hm hq => exact ⟨rfl,rfl,hm,hq⟩
  | same | moved | idle | deleted =>
    simp only [hr] at htr
    cases htr
  | committed _ _ _ hr' | failed _ _ hr' | requeued _ _ hr' | finished _ _ _ _ hr' =>
    rw [hr] at hr'
    cases hr'

theorem Ledger.Sound.committed (h : l.Sound) {tr : Transfer} (hr : l.archive.run = some tr)
    (hst : tr.stage = .snapped) {succeeded : Nat} (hall : tr.snaps.length ≤ succeeded)
    {snap : QuerySnap} (hs : snap ∈ tr.snaps) :
    l.step (.commit succeeded true) = { l with
      archive := { l.archive with
        rows := replaceRows tr.snaps l.archive.rows
        run := some ⟨tr.removedBefore,tr.snaps,.committed succeeded⟩ }
      log := l.log ++ tr.snaps.map l.write } ∧
    (l.step (.commit succeeded true)).archive.rows snap.idx = some snap.row := by
  obtain ⟨removedBefore,snaps,stage⟩ := tr
  subst hst
  have hids := (h.run _ hr).ids
  have hstep : l.step (.commit succeeded true) = { l with
      archive := { l.archive with
        rows := replaceRows snaps l.archive.rows
        run := some ⟨removedBefore,snaps,.committed succeeded⟩ }
      log := l.log ++ snaps.map l.write } := by
    simp [Ledger.step,starts,writes,removes,Archive.step,hr,
      List.take_of_length_le hall]
  refine ⟨hstep,?_⟩
  rw [hstep]
  exact replaceRows_of_mem snaps _ snap hids hs

theorem Ledger.Sound.finished_rowID (h : l.Sound) (hf : l.archive.sys.store.Fits) {tr : Transfer}
    (hr : l.archive.run = some tr) {succeeded : Nat} (hst : tr.stage = .committed succeeded)
    (hall : tr.snaps.length ≤ succeeded) (hlt : l.gone-l.goneBefore < uintMod) {snap : QuerySnap}
    (hs : snap ∈ tr.snaps) (hge : l.gone ≤ l.goneBefore+snap.queryID)
    (hold : snap.isNew = false →
      l.q.rowIDs[l.goneBefore+snap.queryID-l.gone]? = some (some snap.idx)) :
    (l.step .finish).q.rowIDs[l.goneBefore+snap.queryID-l.gone]? = some (some snap.idx) ∧
      (l.step .finish).gone = l.gone ∧ (l.step .finish).archive.rows = l.archive.rows ∧
      (l.step .finish).archive.links = l.archive.links := by
  have hstep := step_finish hr (by simp [hst])
  obtain ⟨sys,maxid,hfin,_,hw,_,_⟩ := h.finish_eq hf hr hst hlt
  rw [List.take_of_length_le hall] at hw
  rw [hstep,hfin]
  refine ⟨?_,rfl,rfl,rfl⟩
  show sys.store.q.rowIDs[_]? = _
  have ht := h.run tr hr
  have hlive := ht.live snap hs
  obtain ⟨snap',hs',_,ho,hval⟩ | ⟨hnone,hsame⟩ :=
    hw.ids (l.goneBefore+snap.queryID-l.gone) (by omega)
  · have hsymm : Std.Symm (fun a b : QuerySnap => a.queryID ≠ b.queryID) :=
      ⟨fun _ _ hne => hne.symm⟩
    have hne : tr.snaps.Pairwise (fun a b => a.queryID ≠ b.queryID) :=
      ht.queries.imp fun hab => Nat.ne_of_lt hab
    have heq : snap' = snap := by
      by_contra hdiff
      have := hne.forall hs' hs hdiff
      omega
    rw [hval,heq]
  · cases hnew : snap.isNew with
    | true => exact absurd (by omega) (hnone snap hs hnew)
    | false => rw [hsame,hold hnew]

end

def oneWaiting : Ledger :=
  archiveSample.run [.base (.newQuery .plain (.of "10.0.0.2" "example.com" 1 100))]

def runWithArrival : List DbEvent :=
  successfulRun 101 [.base (.newQuery .plain (.of "10.0.0.2" "example.org" 2 101))] 1 []

end Lorentz
