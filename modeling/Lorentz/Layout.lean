import Lorentz.System

/-!
How the loop of `runGC` and the other events move the live queries: some go at the front, at most
one comes at the end. A query is followed by the number removed before it.
-/

set_option autoImplicit false

namespace Lorentz
open Function Counting QueriesData

def QueryStore.gcOne (q : QueryStore) (p : Nat) : QueryStore :=
  (q.gcCounters p).changeStatus p .unknown

def QueryStore.gcLoop (mintime : Int) : Nat → Nat → Nat → QueryStore → QueryStore × Nat
  | 0, _, removed, q => (q,removed)
  | n+1, i, removed, q =>
    match q.getQuery i true with
    | none => q.gcLoop mintime n (i+1) removed
    | some p =>
      if (q.mem p).timestamp > mintime then (q,removed)
      else (q.gcOne p).gcLoop mintime n (i+1) (removed+1)

theorem Store.gcQuery_q (s : Store) (p : Nat) : (s.gcQuery p).q = s.q.gcOne p := by
  unfold Store.gcQuery
  rw [Store.querySetStatus_q]
  rfl

theorem Store.gcLoop_q (mintime : Int) (n i removed : Nat) (s : Store) :
    (s.gcLoop mintime n i removed).1.q = (s.q.gcLoop mintime n i removed).1 ∧
      (s.gcLoop mintime n i removed).2 = (s.q.gcLoop mintime n i removed).2 := by
  induction n generalizing i removed s with
  | zero => exact ⟨rfl,rfl⟩
  | succ n ih =>
    unfold Store.gcLoop QueryStore.gcLoop
    cases hg : s.q.getQuery i true with
    | none => exact ih (i+1) removed s
    | some p =>
      by_cases hnew : (s.q.mem p).timestamp > mintime
      · simp [hnew]
      · simp only [hnew,if_false]
        rw [← Store.gcQuery_q]
        exact ih (i+1) (removed+1) (s.gcQuery p)

/-- The queries between the indices `i` and `r` have been taken out of the counters. -/
structure QueryStore.Collected (i r : Nat) (q q' : QueryStore) : Prop where
  valid : q'.Valid
  queries : q'.queries = q.queries
  offset : q'.offset = q.offset
  queriesMax : q'.queriesMax = q.queriesMax
  removed : q'.removed = q.removed
  kept : ∀ p, (q.mem p).Kept (q'.mem p)
  others : ∀ p, (p < i+q.offset ∨ r+q.offset ≤ p) → q'.mem p = q.mem p
  counted : q.CountedFrom i → q'.CountedFrom r

theorem QueryStore.Collected.refl {q : QueryStore} {i : Nat} (h : q.Valid) : q.Collected i i q :=
  ⟨h,rfl,rfl,rfl,rfl,fun _ => QueriesData.Kept.refl _,fun _ _ => rfl,fun hc => hc⟩

theorem QueryStore.Collected.trans {q q' q'' : QueryStore} {i j k : Nat} (hij : i ≤ j) (hjk : j ≤ k)
    (h : Collected i j q q') (h' : Collected j k q' q'') :
    Collected i k q q'' where
  valid := h'.valid
  queries := h'.queries.trans h.queries
  offset := h'.offset.trans h.offset
  queriesMax := h'.queriesMax.trans h.queriesMax
  removed := h'.removed.trans h.removed
  kept p := (h.kept p).trans (h'.kept p)
  others p hp := by
    have ho := h.offset
    rw [h'.others p (by omega),h.others p (by omega)]
  counted hc := h'.counted (h.counted hc)

theorem QueryStore.Collected.live_drop {q q' : QueryStore} {i r : Nat}
    (h : Collected i r q q') : q'.live.drop r = q.live.drop r := by
  apply List.ext_getElem?
  intro j
  rw [List.getElem?_drop,List.getElem?_drop]
  by_cases hj : r+j < q.queries
  · rw [live_getElem? (h.queries ▸ hj),live_getElem? hj,h.offset,h.others _ (.inr (by omega))]
  · rw [List.getElem?_eq_none (by rw [length_live,h.queries]; omega),
      List.getElem?_eq_none (by rw [length_live]; omega)]

section

variable {q : QueryStore} {i : Nat}

theorem increment_decrement_decrement {α : Type} [DecidableEq α] (c : α → UInt32) (a b : α) :
    increment (decrement (decrement c a) b) a = decrement c b := by
  by_cases hab : a = b
  · subst hab
    rw [increment_decrement]
  funext x
  by_cases hx : x = a
  · subst hx
    rw [increment_self,decrement_of_ne _ hab,decrement_self,decrement_of_ne _ hab]
    exact UInt32.sub_add_cancel _ _
  rw [increment_of_ne _ hx]
  by_cases hb : x = b
  · subst hb
    rw [decrement_self,decrement_of_ne _ hx,decrement_self]
  · rw [decrement_of_ne _ hb,decrement_of_ne _ hx,decrement_of_ne _ hb]

theorem QueriesData.kept_uncount (x : QueriesData) : x.Kept x.uncount := by
  unfold uncount
  split
  · exact ⟨rfl,rfl,rfl,rfl,rfl,rfl,fun h => h⟩
  · exact QueriesData.Kept.refl x

theorem QueriesData.uncount_status (x : QueriesData) : x.uncount.status = x.status := by
  unfold uncount
  split <;> rfl

def QueriesData.collected (x : QueriesData) : QueriesData :=
  { x.uncount with status := .unknown }

theorem QueryStore.gcOne_eq (p : Nat) : q.gcOne p = { q with
    mem := update q.mem p (q.mem p).collected
    status := decrement q.status (q.mem p).status
    reply := decrement q.reply (q.mem p).reply
    querytype := decrement q.querytype (q.mem p).type } := by
  unfold gcOne gcCounters changeStatus
  simp only [update_self,uncount_status]
  split
  · rename_i hs
    have hc : (q.mem p).uncount = (q.mem p).collected := by
      unfold collected
      rw [← hs,← uncount_status]
    rw [hc,hs]
  · simp only [QueryStore.setStatus,update_self,update_idem,uncount_status]
    simp only [Bool.false_eq_true,if_false,increment_decrement_decrement]
    rfl

theorem QueryStore.live_gcOne :
    (q.gcOne (i+q.offset)).live = q.live.set i (q.mem (i+q.offset)).collected := by
  rw [gcOne_eq]
  exact q.live_update rfl rfl rfl

theorem QueryStore.live_drop_gcOne :
    (q.gcOne (i+q.offset)).live.drop (i+1) = q.live.drop (i+1) := by
  rw [live_gcOne,List.drop_set,if_pos (by omega)]

theorem QueryStore.live_drop (hi : i < q.queries) :
    q.live.drop i = q.mem (i+q.offset) :: q.live.drop (i+1) := by
  rw [List.drop_eq_getElem_cons (by simpa using hi),live_getElem]

theorem QueryStore.Valid.gcOne (h : q.Valid) (hi : i < q.queries) :
    q.Collected i (i+1) (q.gcOne (i+q.offset)) := by
  have hk : (q.mem (i+q.offset)).Kept (q.mem (i+q.offset)).collected := by
    obtain ⟨h₁,h₂,h₃,h₄,h₅,h₆,h₇⟩ := (q.mem (i+q.offset)).kept_uncount
    exact ⟨h₁,h₂,h₃,h₄,h₅,h₆,h₇⟩
  refine ⟨?_,?_,?_,?_,?_,?_,?_,?_⟩
  · rw [gcOne_eq]
    exact h.of_update hi hk.magic rfl rfl rfl rfl
  · rw [gcOne_eq]
  · rw [gcOne_eq]
  · rw [gcOne_eq]
  · rw [gcOne_eq]
  · intro p
    rw [gcOne_eq]
    by_cases hp : p = i+q.offset
    · subst hp
      simpa using hk
    · simpa [hp] using QueriesData.Kept.refl _
  · intro p hp
    rw [gcOne_eq]
    exact update_of_ne (by omega) _ _
  · intro hc
    rw [CountedFrom,live_drop hi] at hc
    rw [CountedFrom,live_drop_gcOne,gcOne_eq]
    exact ⟨hc.status.tail,hc.reply.tail,hc.type.tail⟩

def QueriesData.expired (mintime : Int) (x : QueriesData) : Bool := x.timestamp ≤ (mintime : ℚ)

theorem QueryStore.Valid.gcLoop (mintime : Int) (n : Nat) :
    ∀ (i : Nat) (q : QueryStore), q.Valid → i+n = q.queries →
      q.Collected i (q.gcLoop mintime n i i).2 (q.gcLoop mintime n i i).1 ∧
        (q.gcLoop mintime n i i).2 =
          i+((q.live.drop i).takeWhile (QueriesData.expired mintime)).length := by
  induction n with
  | zero =>
    intro i q h hn
    have hnil : q.live.drop i = [] := List.drop_eq_nil_of_le (by simp; omega)
    exact ⟨QueryStore.Collected.refl h,by simp [QueryStore.gcLoop,hnil]⟩
  | succ n ih =>
    intro i q h hn
    have hi : i < q.queries := by omega
    simp only [QueryStore.gcLoop,h.getQuery_eq hi,live_drop hi]
    by_cases hnew : (q.mem (i+q.offset)).timestamp > mintime
    · have hkeep : (q.mem (i+q.offset)).expired mintime = false := by
        simpa [QueriesData.expired] using hnew
      simp only [hnew,if_true,List.takeWhile_cons,hkeep]
      exact ⟨QueryStore.Collected.refl h,rfl⟩
    have hold : (q.mem (i+q.offset)).expired mintime = true := by
      simpa [QueriesData.expired] using hnew
    have hone := h.gcOne hi
    obtain ⟨hc,hr⟩ := ih (i+1) (q.gcOne (i+q.offset)) hone.valid (by rw [hone.queries]; omega)
    rw [live_drop_gcOne] at hr
    simp only [hnew,if_false,List.takeWhile_cons,hold,if_true,List.length_cons]
    exact ⟨hone.trans (by omega) (by omega) hc,by omega⟩

end

open Function QueryStore Store

theorem QueryStore.ensureSize_counters (q : QueryStore) (pagesize : Nat) :
    (q.ensureSize pagesize).queries = q.queries ∧ (q.ensureSize pagesize).removed = q.removed ∧
      (q.ensureSize pagesize).status = q.status ∧ (q.ensureSize pagesize).reply = q.reply ∧
      (q.ensureSize pagesize).querytype = q.querytype := by
  obtain ⟨_,hq⟩ | ⟨q₀,h₀,hq⟩ := q.ensureSize_cases pagesize
  · rw [hq]
    exact ⟨rfl,rfl,rfl,rfl,rfl⟩
  obtain ⟨rfl,_⟩ | rfl := h₀
  all_goals
    obtain ⟨_,hq⟩ | hq := hq
    all_goals
      rw [hq]
      exact ⟨rfl,rfl,rfl,rfl,rfl⟩

theorem Store.gcRemove_collected {s : Store} (hv : s.q.Valid) (mintime : Int) :
    s.q.Collected 0 (s.gcRemove mintime).2 (s.gcRemove mintime).1.q ∧
      (s.gcRemove mintime).2 = (s.q.live.takeWhile (QueriesData.expired mintime)).length := by
  obtain ⟨hq,hr⟩ := s.gcLoop_q mintime s.q.queries 0 0
  obtain ⟨hc,hn⟩ := hv.gcLoop mintime s.q.queries 0 s.q (by omega)
  unfold gcRemove
  rw [hq,hr]
  refine ⟨hc,?_⟩
  rw [hn,List.drop_zero]
  omega

theorem Store.gcRemove_le {s : Store} (hv : s.q.Valid) (mintime : Int) :
    (s.gcRemove mintime).2 ≤ s.q.queries := by
  rw [(gcRemove_collected hv mintime).2,← s.q.length_live]
  exact List.IsPrefix.length_le (List.takeWhile_prefix _)

/-- The number of queries that a `runGC` in progress has taken out of the counters. -/
def System.uncounted (s : System) : Nat := (s.gc.map GcRun.removed).getD 0

theorem System.uncounted_none {s : System} (h : s.gc = none) : s.uncounted = 0 := by
  simp [System.uncounted,h]

theorem System.uncounted_some {s : System} {g : GcRun} (h : s.gc = some g) :
    s.uncounted = g.removed := by
  simp [System.uncounted,h]

/-- The array is laid out well, and a `runGC` in progress has queries to remove. -/
structure System.Laid (s : System) : Prop where
  valid : s.store.q.Valid
  le : s.uncounted ≤ s.store.q.queries

/-- No other `runGC` runs while one has released the lock. -/
def Event.exclusive (s : System) (e : Event) : Bool := s.gc.isNone || !e.isFlush

def QueryStore.rowIDs (q : QueryStore) : List (Option Int) := q.live.map QueriesData.db

/-- `r` queries have gone at the front and new ones, without a row id, have come. -/
structure QueryStore.Moved (r : Nat) (q q' : QueryStore) : Prop where
  valid : q'.Valid
  removed : q'.removed % uintMod = (q.removed+r) % uintMod
  le : r ≤ q.queries
  ids : ∃ n, q'.rowIDs = q.rowIDs.drop r ++ List.replicate n none

section

variable {q q' : QueryStore}

theorem QueryStore.length_rowIDs (q : QueryStore) : q.rowIDs.length = q.queries := by
  simp [rowIDs]

theorem QueryStore.Moved.refl (h : q.Valid) : q.Moved 0 q :=
  ⟨h,rfl,Nat.zero_le _,0,by simp⟩

variable {r i : Nat}

theorem QueryStore.Moved.queries (h : Moved r q q') : q.queries ≤ q'.queries+r := by
  obtain ⟨n,hn⟩ := h.ids
  have hlen := congrArg List.length hn
  rw [List.length_append,List.length_drop,length_rowIDs,length_rowIDs] at hlen
  omega

theorem QueryStore.Moved.rowID {d : Int} (h : Moved r q q') (hid : q'.rowIDs[i]? = some (some d)) :
    q.rowIDs[r+i]? = some (some d) := by
  obtain ⟨n,hn⟩ := h.ids
  rw [hn] at hid
  by_cases hi : i < (q.rowIDs.drop r).length
  · rwa [List.getElem?_append_left hi,List.getElem?_drop] at hid
  · rw [List.getElem?_append_right (by omega),List.getElem?_replicate] at hid
    split at hid <;> simp at hid

theorem QueryStore.Moved.rowIDs_sub (h : Moved r q q') (hr : r ≤ i) (hi : i < q.queries) :
    q'.rowIDs[i-r]? = q.rowIDs[i]? := by
  obtain ⟨n,hn⟩ := h.ids
  have hlen : i-r < (q.rowIDs.drop r).length := by
    rw [List.length_drop,length_rowIDs]
    omega
  rw [hn,List.getElem?_append_left hlen,List.getElem?_drop]
  congr 1
  omega

theorem Store.moved_of_lock {s : Store} (h : s.lockShm.q.Moved r q') : s.q.Moved r q' := by
  obtain ⟨hq,hr,_⟩ := s.q.ensureSize_counters s.config.pagesize
  obtain ⟨hv,hrem,hle,n,hn⟩ := h
  refine ⟨hv,?_,?_,n,?_⟩
  · rw [hrem]
    exact congrArg (fun m => (m+r) % uintMod) hr
  · exact hle.trans (Nat.le_of_eq hq)
  have hlive : s.lockShm.q.live = s.q.live := live_ensureSize _
  rw [hn]
  unfold rowIDs
  rw [hlive]

theorem QueryStore.Valid.append_queries (h : q.Valid)
    (hroom : q.offset+q.queries+1 < q.queriesMax) {x : QueriesData} (hx : x.magic = true) :
    (q.append (q.queries+q.offset) x).queries = q.queries+1 := by
  rw [← length_live,(h.append hroom hx).2]
  simp

theorem QueryStore.Changed.rowIDs (h : QueryStore.Changed i q q') : q'.rowIDs = q.rowIDs := by
  obtain ⟨x,hx,hm⟩ := h.query
  unfold QueryStore.rowIDs QueryStore.live
  rw [List.map_map,List.map_map,h.queries]
  refine List.map_congr_left fun j _ => ?_
  simp only [comp_apply,h.offset,hm]
  by_cases hj : j+q.offset = i+q.offset
  · rw [hj,update_self,hx.db]
  · rw [update_of_ne hj]

theorem QueryStore.Changed.moved (h : Changed i q q') : q.Moved 0 q' :=
  ⟨h.valid,by rw [h.removed]; rfl,Nat.zero_le _,0,by simp [h.rowIDs]⟩

theorem QueryStore.Effect.moved {query : Option Nat} (h : q.Effect query q') (hv : q.Valid)
    (hroom : q.offset+q.queries+1 < q.queriesMax) : q.Moved 0 q' := by
  cases h with
  | same => exact Moved.refl hv
  | touched i hi hlive ht => exact (hv.changed hlive ht).moved
  | appended x hm hd _ ht =>
    obtain ⟨hv',hlive⟩ := hv.append hroom hm
    have hlen := hv.append_queries hroom hm
    have hch := hv'.changed (i := q.queries) (by omega) ht
    refine ⟨hch.valid,?_,Nat.zero_le _,1,?_⟩
    · rw [hch.removed]
      rfl
    rw [hch.rowIDs]
    unfold rowIDs
    rw [hlive]
    simp [hd]

theorem QueryStore.Collected.rowIDs (h : QueryStore.Collected i r q q') : q'.rowIDs = q.rowIDs := by
  unfold QueryStore.rowIDs QueryStore.live
  rw [List.map_map,List.map_map,h.queries]
  refine List.map_congr_left fun j _ => ?_
  simp only [comp_apply,h.offset]
  exact (h.kept _).db

theorem QueryStore.Valid.moved_drop (h : q.Valid) (hr : r ≤ q.queries) : q.Moved r (q.drop r) := by
  obtain ⟨hv,hlive⟩ := h.drop hr
  refine ⟨hv,?_,hr,0,?_⟩
  · unfold QueryStore.drop
    split
    · simp
    · have hzero : r = 0 := by omega
      rw [hzero]
      rfl
  · unfold rowIDs
    rw [hlive,List.map_drop]
    simp

end

def System.removes (s : System) : Event → Nat
  | .gcFinish _ => s.uncounted
  | .gcFlush now _ =>
    (s.store.lockShm.gcRemove (gcMintime s.store.lockShm.config now true)).2
  | _ => 0

section

variable {s : System}

theorem System.Laid.lock (h : s.Laid) (hf : s.store.Fits) :
    s.store.lockShm.q.Valid ∧
      s.store.lockShm.q.offset+s.store.lockShm.q.queries+1 < s.store.lockShm.q.queriesMax ∧
      s.store.lockShm.q.queries = s.store.q.queries := by
  obtain ⟨hv,hroom⟩ := h.valid.ensureSize s.store.config.pagesizePos hf
  exact ⟨hv,hroom,(s.store.q.ensureSize_counters _).1⟩

theorem System.Laid.init {store : Store} (hq : store.q = .empty store.config.pagesize) :
    System.Laid ⟨store,none⟩ := by
  refine ⟨?_,Nat.zero_le _⟩
  rw [hq]
  refine ⟨?_,store.config.pagesizeLt,?_,?_⟩
  · show 0+0 < store.config.pagesize
    have := store.config.pagesizePos
    omega
  · intro i hi
    exact absurd hi (Nat.not_lt_zero i)
  · intro p _
    rfl

theorem Store.runGC_moved {s : Store} (hv : s.q.Valid) (mintime : Int) (clock : ℚ) :
    s.q.Moved (s.gcRemove mintime).2
      ((s.gcRemove mintime).1.gcFinish (s.gcRemove mintime).2 mintime clock).q := by
  obtain ⟨hcol,_⟩ := gcRemove_collected hv mintime
  have hle := gcRemove_le hv mintime
  have hle' := hle
  rw [← hcol.queries] at hle'
  obtain ⟨hv',hrem,_,n,hn⟩ := hcol.valid.moved_drop hle'
  rw [hcol.rowIDs] at hn
  rw [hcol.removed] at hrem
  exact ⟨hv',hrem,hle,n,hn⟩

theorem System.Laid.handle_moved (h : s.Laid) (hf : s.store.Fits) {e : Event}
    (hgc : e.isFlush = false) : s.store.q.Moved 0 (s.store.handle e).q := by
  obtain ⟨hv,hroom,_⟩ := h.lock hf
  obtain hq | heff := s.store.handle_effect hv e hgc
  · rw [hq]
    exact Moved.refl h.valid
  · exact moved_of_lock (heff.moved hv hroom)

theorem System.Laid.moved (h : s.Laid) (hf : s.store.Fits) (e : Event) :
    s.store.q.Moved (s.removes e) (s.step e).store.q := by
  obtain ⟨hv,hroom,hlen⟩ := h.lock hf
  cases e with
  | gcStart now =>
    cases hg : s.gc with
    | some g =>
      simp only [System.step,hg]
      exact Moved.refl h.valid
    | none =>
      obtain ⟨hcol,_⟩ := gcRemove_collected hv (gcMintime s.store.lockShm.config now false)
      have hm : s.store.lockShm.q.Moved 0 _ :=
        ⟨hcol.valid,by rw [hcol.removed]; rfl,Nat.zero_le _,0,by rw [hcol.rowIDs]; simp⟩
      simp only [System.step,hg]
      exact moved_of_lock hm
  | gcFinish clock =>
    cases hg : s.gc with
    | none =>
      simp only [System.step,hg,System.removes,System.uncounted_none hg]
      exact Moved.refl h.valid
    | some g =>
      have hle := h.le
      rw [System.uncounted_some hg] at hle
      simp only [System.step,hg,System.removes,System.uncounted_some hg]
      exact moved_of_lock (hv.moved_drop (by rw [hlen]; exact hle))
  | gcFlush now clock => exact moved_of_lock (runGC_moved hv _ clock)
  | _ => exact h.handle_moved hf rfl

theorem System.Laid.step (h : s.Laid) (hf : s.store.Fits) {e : Event}
    (hs : e.exclusive s = true) : (s.step e).Laid := by
  have hm := h.moved hf e
  refine ⟨hm.valid,?_⟩
  have hq := hm.queries
  have hle := h.le
  cases e with
  | gcStart now =>
    cases hg : s.gc with
    | some g =>
      simp only [System.step,hg]
      exact hle
    | none =>
      obtain ⟨hv,_,_⟩ := h.lock hf
      simp only [System.step,hg]
      have hr := gcRemove_le hv (gcMintime s.store.lockShm.config now false)
      rw [← (gcRemove_collected hv _).1.queries] at hr
      exact hr
  | gcFinish clock =>
    cases hg : s.gc with
    | none =>
      simp only [System.step,hg]
      exact hle
    | some g =>
      simp only [System.step,hg]
      exact Nat.zero_le _
  | gcFlush now clock =>
    have hg : s.gc = none := by simpa [Event.exclusive,Event.isFlush] using hs
    have hz : (s.step (.gcFlush now clock)).uncounted = 0 := System.uncounted_none hg
    omega
  | _ => exact hle.trans hq

end

open Function

def QueryStore.initialised (q : QueryStore) : List QueriesData := q.live.filter QueriesData.magic

namespace QueryStore

variable {q q' : QueryStore}

theorem length_initialised_le (q : QueryStore) : q.initialised.length ≤ q.queries := by
  rw [← q.length_live]
  exact List.length_filter_le _ _

def others (q : QueryStore) (i : Nat) : List QueriesData :=
  (q.live.eraseIdx i).filter QueriesData.magic

theorem length_others_lt {i : Nat} (hi : i < q.queries) :
    (q.others i).length+1 ≤ q.queries := by
  have hle : (q.others i).length ≤ (q.live.eraseIdx i).length := List.length_filter_le _ _
  rw [List.length_eraseIdx_of_lt (by simpa using hi),q.length_live] at hle
  omega

theorem initialised_perm {i : Nat} (hi : i < q.queries)
    (hm : (q.mem (i+q.offset)).magic = true) :
    q.initialised.Perm (q.mem (i+q.offset) :: q.others i) := by
  have hlt : i < q.live.length := by simpa using hi
  have hp := (List.getElem_cons_eraseIdx_perm hlt).symm.filter QueriesData.magic
  rw [live_getElem,List.filter_cons_of_pos hm] at hp
  exact hp

theorem initialised_unwritten {i : Nat} (hi : i < q.queries)
    (hm : (q.mem (i+q.offset)).magic = false) : q.initialised.Perm (q.others i) := by
  have hlt : i < q.live.length := by simpa using hi
  have hp := (List.getElem_cons_eraseIdx_perm hlt).symm.filter QueriesData.magic
  rw [live_getElem,List.filter_cons_of_neg (by simp [hm])] at hp
  exact hp

theorem initialised_update {i : Nat} {x : QueriesData} (hi : i < q.queries)
    (hx : x.magic = true) (hq : q'.queries = q.queries) (ho : q'.offset = q.offset)
    (hm : q'.mem = update q.mem (i+q.offset) x) : q'.initialised.Perm (x :: q.others i) := by
  have hlt : i < q.live.length := by simpa using hi
  have hp := (List.set_perm_cons_eraseIdx hlt x).filter QueriesData.magic
  rw [List.filter_cons_of_pos hx] at hp
  unfold initialised
  rw [live_update hq ho hm]
  exact hp

theorem initialised_append {x : QueriesData} (hx : x.magic = true)
    (hq : q'.queries = q.queries+1) (ho : q'.offset = q.offset)
    (hm : q'.mem = update q.mem (q.queries+q.offset) x) :
    q'.initialised.Perm (x :: q.initialised) := by
  unfold initialised
  rw [live_append hq ho hm,List.filter_append,List.filter_cons_of_pos hx]
  exact List.perm_append_comm

end QueryStore

end Lorentz
