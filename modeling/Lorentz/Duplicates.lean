import Lorentz.Counters
import Lorentz.Library.Monitor

/-!
The reply to a query that several clients are waiting for: dnsmasq calls
`Lorentz_multiple_replies` for each of them and keeps the variable behind `firstID`.
-/

set_option autoImplicit false

namespace Lorentz
open Function

structure Delivery where
  sys : System
  firstID : Int

/-- One call for the client with this id, or what the garbage collector does before the next. -/
inductive Delivery.Event where
  | reply (id : Int)
  | collect (e : Lorentz.Event)

namespace Delivery

variable (d : Delivery)

def found (id : Int) : Option Nat := d.sys.store.lockShm.q.findQueryID id

def step : Event → Delivery
  | .reply id =>
    let r := d.sys.store.multipleReplies id d.firstID
    ⟨⟨r.1,d.sys.gc⟩,r.2⟩
  | .collect e => if e.collects then { d with sys := d.sys.step e } else d

/-- The indices of the queries for which the calls are made. -/
def duplicates : Delivery → List Event → List Nat
  | _, [] => []
  | d, .reply id :: es => (d.found id).toList ++ (d.step (.reply id)).duplicates es
  | d, .collect e :: es => (d.step (.collect e)).duplicates es

/-- The query of the call is known and not the first one, its id is not the index of the first
one, and nothing is collected in between. -/
def regular : Event → Bool
  | .reply id => decide d.sys.store.Fits && d.firstID ≠ id &&
      (d.found id).any (fun i : Nat => (i : Int) ≠ d.firstID)
  | .collect e => decide d.sys.store.Fits && e.exclusive d.sys && d.sys.removes e = 0 &&
      (d.sys.step e).uncounted = d.sys.uncounted

end Delivery

/-- What a duplicate is expected to be after the reply to `source`. -/
def QueriesData.answeredLike (x source : QueriesData) : QueriesData :=
  { x with
    reply := source.reply
    dnssec := source.dnssec
    cnameDomainID := source.cnameDomainID
    status := if source.status ≠ .forwarded then source.status else x.status
    flags := { x.flags with complete := true, changed := true } }

theorem QueriesData.answeredLike_idem (x source : QueriesData) :
    (x.answeredLike source).answeredLike source = x.answeredLike source := by
  unfold QueriesData.answeredLike
  split <;> rfl

attribute [local simp] QueryStore.setReply QueryStore.setQuery Store.modifyQuery Store.copyFields

theorem Store.copyReply_mem (s : Store) (src p : Nat) :
    (s.copyReply src p).q.mem = update s.q.mem p ((s.q.mem p).answeredLike (s.q.mem src)) := by
  unfold Store.copyReply QueriesData.answeredLike
  simp only [Store.markChanged,Store.modifyQuery,QueryStore.setQuery]
  split
  · simp only [Store.querySetStatus_q,QueryStore.changeStatus]
    split
    · rename_i hs
      simp at hs ⊢
      rw [← hs]
    · simp [QueryStore.setStatus]
  · simp

namespace Delivery

variable {d : Delivery} {first : Nat}

theorem found_of_regular {id : Int} (hr : d.regular (.reply id) = true) :
    d.sys.store.Fits ∧ d.firstID ≠ id ∧ ∃ i, d.found id = some i ∧ (i : Int) ≠ d.firstID := by
  simp only [Delivery.regular,Bool.and_eq_true,decide_eq_true_eq,Option.any_eq_true] at hr
  exact ⟨hr.1.1,hr.1.2,hr.2⟩

theorem lock_live (d : Delivery) :
    d.sys.store.lockShm.q.live = d.sys.store.q.live := QueryStore.live_ensureSize _

theorem step_first (hl : d.sys.Laid) (hid : d.firstID = -1) {id : Int}
    (hr : d.regular (.reply id) = true) : ∃ i, d.found id = some i ∧
      i < d.sys.store.q.queries ∧ (d.step (.reply id)).firstID = i ∧
      (d.step (.reply id)).sys.Laid ∧
      (d.step (.reply id)).sys.store.q.live = d.sys.store.q.live := by
  obtain ⟨hf,hne,i,hi,_⟩ := Delivery.found_of_regular hr
  obtain ⟨hv,_,hlen⟩ := hl.lock hf
  have hlt := hv.findQueryID_lt hi
  have hi' : d.sys.store.lockShm.q.findQueryID id = some i := hi
  have hstep : d.step (.reply id) = ⟨⟨d.sys.store.lockShm,d.sys.gc⟩,i⟩ := by
    rw [hid] at hne
    simp [Delivery.step,Store.multipleReplies,hid,hne,hi']
  rw [hstep]
  exact ⟨i,hi,hlen ▸ hlt,rfl,⟨hv,hl.le.trans (Nat.le_of_eq hlen.symm)⟩,d.lock_live⟩

theorem step_reply (hl : d.sys.Laid) (hid : d.firstID = first)
    (hlt : first < d.sys.store.q.queries) {id : Int} (hr : d.regular (.reply id) = true) :
    ∃ i x source, d.found id = some i ∧ i ≠ first ∧ d.sys.store.q.live[i]? = some x ∧
      d.sys.store.q.live[first]? = some source ∧ (d.step (.reply id)).firstID = first ∧
      (d.step (.reply id)).sys.Laid ∧ (d.step (.reply id)).sys.store.q.live =
        d.sys.store.q.live.set i (x.answeredLike source) := by
  obtain ⟨hf,hne,i,hi,hif⟩ := Delivery.found_of_regular hr
  obtain ⟨hv,_,hlen⟩ := hl.lock hf
  have hilt := hv.findQueryID_lt hi
  rw [← hlen] at hlt
  have hi' : d.sys.store.lockShm.q.findQueryID id = some i := hi
  generalize hs : d.sys.store.lockShm = s at *
  have hstep : d.step (.reply id) =
      ⟨⟨s.copyReply (first+s.q.offset) (i+s.q.offset),d.sys.gc⟩,first⟩ := by
    simp only [Delivery.step,Store.multipleReplies,hid,hs,hi',Int.toNat_natCast,
      hv.getQuery_eq hlt,hv.getQuery_eq hilt]
    rw [if_neg (by omega),if_neg (by omega)]
  have hch := hv.changed hilt (s.touches_copyReply (p := i+s.q.offset) (first+s.q.offset))
  have hlive : s.q.live = d.sys.store.q.live := hs ▸ d.lock_live
  rw [hstep,← hlive]
  refine ⟨i,_,_,hi,by omega,QueryStore.live_getElem? hilt,QueryStore.live_getElem? hlt,rfl,
    ⟨hch.valid,?_⟩,?_⟩
  · rw [hch.queries,hlen]
    exact hl.le
  · exact QueryStore.live_update hch.queries hch.offset (s.copyReply_mem _ _)

theorem step_collect (hl : d.sys.Laid) {e : Lorentz.Event}
    (hr : d.regular (.collect e) = true) : (d.step (.collect e)).firstID = d.firstID ∧
      (d.step (.collect e)).sys.Laid ∧
      (d.step (.collect e)).sys.store.q.live = d.sys.store.q.live := by
  simp only [Delivery.regular,Bool.and_eq_true,decide_eq_true_eq] at hr
  obtain ⟨⟨⟨hf,hex⟩,hrem⟩,hun⟩ := hr
  obtain ⟨hv,_,hlen⟩ := hl.lock hf
  have hlaid := hl.step hf hex
  by_cases hc : e.collects = true
  · simp only [Delivery.step,hc,if_true]
    refine ⟨trivial,hlaid,?_⟩
    rw [← d.lock_live]
    cases e with
    | gcStart now =>
      cases hg : d.sys.gc with
      | some g => simp only [System.step,hg,d.lock_live]
      | none =>
        simp only [System.step,hg,System.uncounted,Option.map_some,Option.getD_some,
          Option.map_none,Option.getD_none] at hun ⊢
        have hcol := (Store.gcRemove_collected hv (gcMintime d.sys.store.lockShm.config now false)).1
        rw [hun] at hcol
        simpa using hcol.live_drop
    | gcFinish clock =>
      cases hg : d.sys.gc with
      | none => simp only [System.step,hg,d.lock_live]
      | some g =>
        have hz : g.removed = 0 := by simpa [System.removes,System.uncounted,hg] using hrem
        simp only [System.step,hg,hz]
        exact (hv.drop (Nat.zero_le _)).2
    | gcFlush now clock =>
      have hcol := (Store.gcRemove_collected hv (gcMintime d.sys.store.lockShm.config now true)).1
      have hz : (d.sys.store.lockShm.gcRemove
        (gcMintime d.sys.store.lockShm.config now true)).2 = 0 := hrem
      rw [hz] at hcol
      have hdrop := (hcol.valid.drop (Nat.zero_le _)).2
      rw [hcol.live_drop] at hdrop
      simp only [System.step,Store.handle,Store.runGC,Store.gcFinish,hz]
      exact hdrop
    | _ => simp [Event.collects] at hc
  · simp only [Delivery.step,if_neg hc]
    exact ⟨trivial,hl,trivial⟩

theorem run_live {source : QueriesData} (es : List Delivery.Event) (hl : d.sys.Laid)
    (hid : d.firstID = first) (hs : d.sys.store.q.live[first]? = some source)
    (hm : Machine.Meets Delivery.step Delivery.regular d es = true) (j : Nat) :
    (Machine.run Delivery.step d es).sys.store.q.live[j]? = d.sys.store.q.live[j]?.map
      (fun x => if j ∈ d.duplicates es then x.answeredLike source else x) := by
  induction es generalizing d with
  | nil => simp [Delivery.duplicates]
  | cons e es ih =>
    rw [Machine.meets_cons] at hm
    rw [Machine.run_cons]
    have hlt : first < d.sys.store.q.queries := by
      rw [← QueryStore.length_live]
      exact (List.getElem?_eq_some_iff.mp hs).1
    cases e with
    | collect e =>
      obtain ⟨hfirst,hl',hlive⟩ := Delivery.step_collect hl hm.1
      rw [ih hl' (hfirst.trans hid) (by rw [hlive,hs]) hm.2,hlive]
      rfl
    | reply id =>
      obtain ⟨i,x,source',hi,hne,hx,hs',hfirst,hl',hlive⟩ := Delivery.step_reply hl hid hlt hm.1
      obtain rfl : source = source' := Option.some.inj (hs.symm.trans hs')
      have hs'' : (d.step (.reply id)).sys.store.q.live[first]? = some source := by
        rw [hlive,List.getElem?_set_ne hne,hs]
      rw [ih hl' hfirst hs'' hm.2,hlive]
      simp only [Delivery.duplicates,hi,Option.toList_some,List.singleton_append,List.mem_cons]
      by_cases hj : j = i
      · subst hj
        rw [List.getElem?_set_self (List.getElem?_eq_some_iff.mp hx).1,hx]
        simp only [Option.map_some,true_or,if_true,QueriesData.answeredLike_idem,ite_self]
      · rw [List.getElem?_set_ne (Ne.symm hj)]
        simp [hj]

end Delivery

/-- In every delivery in which each call finds its query, no id is the index of the first query
and nothing is collected after the first call, the duplicates get what the first query has and no
other query changes. -/
theorem duplicates_get_the_answer {s : System} (h : s.Reachable) (id : Int)
    (es : List Delivery.Event)
    (hm : Machine.Meets Delivery.step Delivery.regular ⟨s,-1⟩ (.reply id :: es) = true) :
    ∃ first source, s.store.lockShm.q.findQueryID id = some first ∧
      s.store.q.live[first]? = some source ∧
      ∀ j, (Machine.run Delivery.step ⟨s,-1⟩ (.reply id :: es)).sys.store.q.live[j]? =
        s.store.q.live[j]?.map (fun x =>
          if j ∈ (Delivery.step ⟨s,-1⟩ (.reply id)).duplicates es then x.answeredLike source
          else x) := by
  rw [Machine.meets_cons] at hm
  obtain ⟨first,hfound,hlt,hid,hl,hlive⟩ := Delivery.step_first h.counted.laid rfl hm.1
  have hs := QueryStore.live_getElem? hlt
  refine ⟨first,_,hfound,hs,fun j => ?_⟩
  rw [Machine.run_cons,Delivery.run_live es hl hid (by rw [hlive]; exact hs) hm.2 j,hlive]

/-- Three clients ask for the same name, the second one from this machine, and there is a reply. -/
def duplicatesSample (ignoreLocalhost : Bool) : System :=
  (System.initial { Config.default with ignoreLocalhost := ignoreLocalhost, rateLimitCount := 0 }
    .plain .empty).run [.newQuery .plain (.of "10.0.0.2" "example.com" 1 100),
      .newQuery .plain (.of "127.0.0.1" "example.com" 2 100),
      .newQuery .plain (.of "10.0.0.3" "example.com" 3 100),
      .querySetReply 1 ⟨false,false,true,false,false,false,false,false,false,false,false⟩
        .unknown none 101]

theorem duplicates_get_the_answer_sample :
    ((Machine.run Delivery.step ⟨duplicatesSample false,-1⟩
      [.reply 1,.reply 2,.collect (.gcStart 200),.reply 3]).sys.store.q.live[2]?).map
        QueriesData.reply = some .ip := by
  have h₀ : (System.initial { Config.default with rateLimitCount := 0 } .plain .empty).Reachable :=
    .init rfl
  have h : (duplicatesSample false).Reachable := h₀.run _ (by decide)
  obtain ⟨first,source,hf,hs,hall⟩ := duplicates_get_the_answer h 1
    [.reply 2,.collect (.gcStart 200),.reply 3] (by decide)
  obtain rfl : first = 0 := Option.some.inj (hf.symm.trans (by decide))
  have hip : source.reply = .ip := Option.some.inj
    ((congrArg (Option.map QueriesData.reply) hs).symm.trans (by decide))
  obtain ⟨x,hx⟩ := Option.isSome_iff_exists.mp
    (show ((duplicatesSample false).store.q.live[2]?).isSome = true by decide)
  rw [hall 2,hx]
  simp only [Option.map_some]
  exact congrArg some hip

/-- The query from this machine is ignored: the second call finds nothing, and the third client's
query never gets the reply. -/
theorem duplicate_behind_ignored_query :
    let live := (Machine.run Delivery.step ⟨duplicatesSample true,-1⟩
      [.reply 1,.reply 2,.reply 3]).sys.store.q.live
    live.map QueriesData.id = [1,3] ∧ live.map QueriesData.reply = [.ip,.unknown] := by
  decide

end Lorentz
