import Lorentz.Hooks

/-!
What each operation does to the query array. Hooks only ever touch the query they
have found; the lists, the cache and the other tables do not matter here.
-/

set_option autoImplicit false

namespace Lorentz
open Function Counting QueryStore

def QueryStore.live (q : QueryStore) : List QueriesData :=
  (List.range q.queries).map (fun i => q.mem (i+q.offset))

/-- The layout of the query array between two critical sections. -/
structure QueryStore.Valid (q : QueryStore) : Prop where
  room : q.offset+q.queries < q.queriesMax
  range : q.queriesMax < uintMod
  used : ∀ i < q.queries, (q.mem (i+q.offset)).magic = true
  unused : ∀ p, q.offset+q.queries ≤ p → (q.mem p).magic = false

/-- What no hook changes in a query: a hook may mark it for the database, never unmark
it. -/
structure QueriesData.Kept (x y : QueriesData) : Prop where
  magic : y.magic = x.magic
  timestamp : y.timestamp = x.timestamp
  type : y.type = x.type
  db : y.db = x.db
  imported : y.flags.imported = x.flags.imported
  privacylevel : y.privacylevel = x.privacylevel
  changed : x.flags.changed = true → y.flags.changed = true

theorem QueriesData.Kept.refl (x : QueriesData) : x.Kept x :=
  ⟨rfl,rfl,rfl,rfl,rfl,rfl,fun h => h⟩

theorem QueriesData.Kept.trans {x y z : QueriesData} (h : x.Kept y) (k : y.Kept z) : x.Kept z :=
  ⟨k.magic.trans h.magic,k.timestamp.trans h.timestamp,k.type.trans h.type,k.db.trans h.db,
    k.imported.trans h.imported,k.privacylevel.trans h.privacylevel,
    fun hx => k.changed (h.changed hx)⟩

def QueryStore.changeStatus (q : QueryStore) (p : Nat) (newStatus : QueryStatus) : QueryStore :=
  if (q.mem p).status = newStatus then q else q.setStatus p newStatus false

inductive QueryStore.Touch (p : Nat) : QueryStore → QueryStore → Prop where
  | status (q : QueryStore) (newStatus : QueryStatus) : Touch p q (q.changeStatus p newStatus)
  | reply (q : QueryStore) (r : ReplyType) : Touch p q (q.setReply p r)
  | other (q : QueryStore) (x : QueriesData) (hk : (q.mem p).Kept x)
      (hs : x.status = (q.mem p).status) (hr : x.reply = (q.mem p).reply) :
      Touch p q (q.setQuery p x)

abbrev QueryStore.Touches (p : Nat) : QueryStore → QueryStore → Prop :=
  Relation.ReflTransGen (QueryStore.Touch p)

namespace Store

variable (w : World) (s : Store) (p : Nat)

variable (domainstr : List Char) (clientID domainID cacheID : Nat) (newStatus : QueryStatus)
  (st : QueryStatus)

theorem querySetStatus_q :
    (s.querySetStatus p newStatus false).q = s.q.changeStatus p newStatus := by
  unfold querySetStatus changeStatus
  by_cases h : (s.q.mem p).status = newStatus <;> simp [h]

theorem touches_querySetStatus :
    Touches p s.q (s.querySetStatus p newStatus false).q := by
  rw [querySetStatus_q]
  exact .single (.status s.q newStatus)

theorem touches_modifyQuery (f : QueriesData → QueriesData)
    (hk : (s.q.mem p).Kept (f (s.q.mem p))) (hs : (f (s.q.mem p)).status = (s.q.mem p).status)
    (hr : (f (s.q.mem p)).reply = (s.q.mem p).reply) :
    Touches p s.q (s.modifyQuery p f).q :=
  .single (.other s.q _ hk hs hr)

theorem touches_markChanged : Touches p s.q (s.markChanged p).q :=
  s.touches_modifyQuery p _ ⟨rfl,rfl,rfl,rfl,rfl,rfl,fun _ => rfl⟩ rfl rfl

theorem touches_handBackUpstream : Touches p s.q (s.handBackUpstream p).q :=
  .single (.other s.q _ ⟨rfl,rfl,rfl,rfl,rfl,rfl,fun h => h⟩ rfl rfl)

theorem touches_countBlocked (domainID clientID : Option Nat) :
    Touches p s.q (s.countBlocked p domainID clientID).q :=
  .single (.other s.q _ ⟨rfl,rfl,rfl,rfl,rfl,rfl,fun h => h⟩ rfl rfl)

theorem touches_queryBlocked (domainID clientID : Option Nat) (newStatus : QueryStatus) :
    Touches p s.q (s.queryBlocked p domainID clientID newStatus).q := by
  unfold queryBlocked
  simp only
  split
  · exact .refl
  refine .trans ?_ (touches_markChanged _ p)
  refine .trans ?_ (touches_querySetStatus _ p newStatus)
  refine .trans (b := (if (s.q.mem p).status = .forwarded ∧
    (s.q.mem p).flags.upstreamCounted = true then s.handBackUpstream p else s).q) ?_ ?_
  · split
    · exact s.touches_handBackUpstream p
    · exact .refl
  generalize (if (s.q.mem p).status = .forwarded ∧
    (s.q.mem p).flags.upstreamCounted = true then s.handBackUpstream p else s) = s'
  split
  · exact s'.touches_countBlocked p domainID clientID
  · exact .refl

theorem touches_queryBlocked_of {q : QueryStore} (h : s.q = q)
    (domainID clientID : Option Nat) (newStatus : QueryStatus) :
    Touches p q (s.queryBlocked p domainID clientID newStatus).q :=
  h ▸ s.touches_queryBlocked p domainID clientID newStatus

theorem touches_noteCnameDomain (cname : Option Nat) :
    Touches p s.q (s.noteCnameDomain p cname).q :=
  .single (.other s.q _ ⟨rfl,rfl,rfl,rfl,rfl,rfl,fun h => h⟩ rfl rfl)

theorem touches_storeCheck (clientID cacheID : Nat) (c : CheckState) :
    Touches p s.q (s.storeCheck p clientID cacheID c).q :=
  .single (.other s.q _ ⟨rfl,rfl,rfl,rfl,rfl,rfl,fun h => h⟩ rfl rfl)

theorem touches_checkRules :
    Touches p s.q (s.checkRules w domainstr p clientID domainID cacheID).2.q := by
  unfold checkRules
  simp only
  split
  · exact .trans (s.touches_storeCheck p clientID cacheID _) (touches_queryBlocked _ p _ _ _)
  · exact s.touches_storeCheck p clientID cacheID _

theorem touches_replayList (reason : String) (regex cname : Bool) :
    Touches p s.q (s.replayList p clientID domainID cacheID st reason regex cname).q := by
  unfold replayList
  simp only
  generalize hs : (if regex = true then (s.forceReply reason _).forceTarget _
    else s.forceReply reason _) = s'
  have hq : s'.q = s.q := by
    rw [← hs]
    split <;> rfl
  rw [← hq]
  split
  · exact .trans (s'.touches_queryBlocked p _ _ _) (touches_noteCnameDomain _ p _)
  · exact s'.touches_queryBlocked p _ _ _

theorem touches_answer :
    Touches p s.q (s.answer w domainstr p clientID domainID cacheID st).2.q := by
  unfold answer
  simp only
  split
  · split
    · exact .refl
    · exact s.touches_checkRules w p _ _ _ _
  · split
    · exact .refl
    · exact s.touches_replayList p _ _ _ _ _ _ _
  · refine touches_queryBlocked_of _ p ?_ _ _ _
    rfl
  · refine touches_queryBlocked_of _ p ?_ _ _ _
    rfl
  · split
    · exact s.touches_modifyQuery p _ ⟨rfl,rfl,rfl,rfl,rfl,rfl,fun h => h⟩ rfl rfl
    · exact .refl

theorem touches_checkBlocking (clientID domainID cacheID : Option Nat) :
    Touches p s.q (s.checkBlocking w domainstr p clientID domainID cacheID).2.q := by
  unfold checkBlocking
  split
  · exact .refl
  split
  · exact (s.lookUpEntry p _ _ _).2.touches_answer w p _ _ _ _ _
  · exact .refl

theorem touches_querySetReply (flags : ReplyFlags) (reply : ReplyType)
    (rcode : Option Nat) (now : ℚ) :
    Touches p s.q (s.querySetReply p flags reply rcode now).q := by
  refine .trans (.single (.reply s.q _)) (touches_modifyQuery { s with q := _ } p _ ?_ ?_ ?_)
  all_goals
    unfold QueriesData.setResponseTime
    split
  all_goals first | exact QueriesData.Kept.refl _ | exact ⟨rfl,rfl,rfl,rfl,rfl,rfl,fun h => h⟩ | rfl

theorem touches_copyReply (src : Nat) :
    Touches p s.q (s.copyReply src p).q := by
  refine .trans ?_ (touches_markChanged _ p)
  have hcopy : Touches p s.q
      (({ s with q := s.q.setReply p (s.q.mem src).reply } : Store).copyFields (s.q.mem src) p).q :=
    .trans (.single (.reply s.q _)) (touches_modifyQuery { s with q := _, t := _ } p _
      ⟨rfl,rfl,rfl,rfl,rfl,rfl,fun h => h⟩ rfl rfl)
  split
  · exact .trans hcopy (touches_querySetStatus _ p _)
  · exact hcopy

theorem touches_moveUpstream (upstreamID : Nat) (now : ℚ) :
    Touches p s.q (s.moveUpstream p upstreamID now).q :=
  .single (.other s.q _ ⟨rfl,rfl,rfl,rfl,rfl,rfl,fun h => h⟩ rfl rfl)

theorem touches_forward (now : ℚ) :
    Touches p s.q (s.modifyQuery p (fun x => x.forward now)).q := by
  refine s.touches_modifyQuery p _ ?_ ?_ ?_
  all_goals
    unfold QueriesData.forward
    split
    · split <;> first | rfl | exact ⟨rfl,rfl,rfl,rfl,rfl,rfl,fun h => h⟩
    · first | rfl | exact ⟨rfl,rfl,rfl,rfl,rfl,rfl,fun h => h⟩

theorem touches_forwardQuery (ip : List Char) (port : Nat) (now : ℚ) :
    Touches p s.q (s.forwardQuery ip port now p).q := by
  unfold forwardQuery
  split
  · exact .refl
  refine .trans ?_ (touches_markChanged _ p)
  refine .trans ?_ (touches_querySetStatus _ p .forwarded)
  refine .trans ?_ (touches_forward _ p now)
  exact touches_moveUpstream { s with t := (s.t.findUpstreamID ip port).2 } p _ now

theorem touches_blockChain (k child : Nat) (now : ℚ) :
    Touches p s.q (s.blockChain p k child now).q := by
  refine .trans ?_ (touches_markChanged _ p)
  refine .trans ?_ (touches_querySetStatus _ p _)
  refine .trans ?_ (touches_noteCnameDomain _ p (some child))
  exact touches_querySetReply { s with t := _ } p _ _ _ now

theorem touches_inspectCname (dst : List Char) (now : ℚ) :
    Touches p s.q (s.inspectCname w dst now p).2.q := by
  unfold inspectCname
  simp only
  generalize hs : ({ s with t := _ } : Store) = s'
  have hq : s'.q = s.q := by rw [← hs]
  rw [← hq]
  split
  · have hcheck := s'.touches_checkBlocking w p
    split
    · split
      · exact hcheck _ _ _ _
      · exact .trans (hcheck _ _ _ _) (touches_blockChain _ p _ _ now)
    · exact .trans (hcheck _ _ _ _) (touches_markChanged _ p)
  · exact .refl

theorem touches_decideQuery (pk : Packet) (clientID domainID : Nat) :
    Touches p s.q (s.decideQuery w pk (some p) clientID domainID).2.q := by
  unfold decideQuery
  simp only
  split
  · exact .trans (s.touches_checkBlocking w p _ _ _ _) (touches_markChanged _ p)
  · exact s.touches_markChanged p

end Store

namespace QueryStore

variable {q : QueryStore}

@[simp] theorem length_live (q : QueryStore) : q.live.length = q.queries := by
  simp [live]

theorem live_getElem? {i : Nat} (h : i < q.queries) :
    q.live[i]? = some (q.mem (i+q.offset)) := by
  simp [live,h]

theorem live_getElem {i : Nat} (h : i < q.live.length) :
    q.live[i] = q.mem (i+q.offset) := by
  simp [live]

theorem Valid.getQuery_eq (h : q.Valid) {i : Nat} (hi : i < q.queries)
    (checkMagic : Bool) : q.getQuery i checkMagic = some (i+q.offset) := by
  have hroom := h.room
  have hrange := h.range
  have hmod : (i+q.offset) % uintMod = i+q.offset := Nat.mod_eq_of_lt (by omega)
  have hle : ¬ i+q.offset > q.queriesMax := by omega
  simp [getQuery,hmod,hle,h.used i hi]

theorem Valid.getQuery_next (h : q.Valid) :
    q.getQuery q.queries false = some (q.queries+q.offset) := by
  have hroom := h.room
  have hrange := h.range
  have hmod : (q.queries+q.offset) % uintMod = q.queries+q.offset := Nat.mod_eq_of_lt (by omega)
  have hle : ¬ q.queries+q.offset > q.queriesMax := by omega
  simp [getQuery,hmod,hle]

theorem Valid.getQuery_magic (h : q.Valid) {i p : Nat}
    (hp : q.getQuery i true = some p) (hi : i ≤ q.queries) : i < q.queries := by
  by_contra hlt
  have hroom := h.room
  have hrange := h.range
  have hmod : (i+q.offset) % uintMod = i+q.offset := Nat.mod_eq_of_lt (by omega)
  have hun : (q.mem (i+q.offset)).magic = false := h.unused _ (by omega)
  simp [getQuery,hmod,hun] at hp

theorem scanID_some {id : Int} {start n i : Nat}
    (h : q.scanID id start n = some i) :
    i < start+n ∧ ∃ p, q.getQuery i true = some p := by
  induction n with
  | zero => simp [scanID] at h
  | succ n ih =>
    cases hg : q.getQuery (start+n) true with
    | none =>
      simp only [scanID,hg] at h
      have := ih h
      exact ⟨by omega,this.2⟩
    | some p =>
      simp only [scanID,hg] at h
      by_cases hid : (q.mem p).id = id
      · simp only [hid,if_true,Option.some.injEq] at h
        subst h
        exact ⟨by omega,p,hg⟩
      · simp only [hid,if_false] at h
        have := ih h
        exact ⟨by omega,this.2⟩

theorem Valid.findQueryID_lt (h : q.Valid) {id : Int} {i : Nat}
    (hf : q.findQueryID id = some i) : i < q.queries := by
  unfold findQueryID at hf
  simp only at hf
  split at hf
  · rename_i hhit
    simp only [Bool.and_eq_true,decide_eq_true_eq] at hhit
    simp only [Option.some.injEq] at hf
    omega
  · obtain ⟨hi,p,hp⟩ := scanID_some hf
    exact h.getQuery_magic hp (by omega)

end QueryStore

section

variable {q q' : QueryStore}

theorem QueryStore.live_update {i : Nat} {x : QueriesData} (hq : q'.queries = q.queries)
    (ho : q'.offset = q.offset) (hm : q'.mem = update q.mem (i+q.offset) x) :
    q'.live = q.live.set i x := by
  apply List.ext_getElem?
  intro j
  rw [List.getElem?_set]
  by_cases hj : j < q.queries
  · rw [live_getElem? (hq ▸ hj),hm,ho,live_getElem? hj,length_live]
    by_cases hij : i = j
    · subst hij
      simp [hj]
    · have hne : j+q.offset ≠ i+q.offset := by omega
      simp [hij,update_of_ne hne]
  · have h₁ : q'.live[j]? = none := List.getElem?_eq_none (by rw [length_live]; omega)
    have h₂ : q.live[j]? = none := List.getElem?_eq_none (by rw [length_live]; omega)
    rw [h₁,h₂,length_live]
    by_cases hij : i = j
    · simp [hij,hj]
    · simp [hij]

theorem QueryStore.Valid.of_update (h : q.Valid) {i : Nat} (hi : i < q.queries) {x : QueriesData}
    (hx : x.magic = (q.mem (i+q.offset)).magic) (hq : q'.queries = q.queries)
    (ho : q'.offset = q.offset) (hmax : q'.queriesMax = q.queriesMax)
    (hm : q'.mem = update q.mem (i+q.offset) x) : q'.Valid where
  room := by rw [ho,hq,hmax]; exact h.room
  range := by rw [hmax]; exact h.range
  used := by
    intro j hj
    rw [hm,ho]
    by_cases hij : j = i
    · subst hij
      rw [update_self,hx]
      exact h.used j hi
    · rw [update_of_ne (by omega)]
      exact h.used j (hq ▸ hj)
  unused := by
    intro p hp
    rw [ho,hq] at hp
    rw [hm,update_of_ne (by omega)]
    exact h.unused p hp

end

namespace QueryStore

variable {q q' : QueryStore}

theorem live_compact : q.compact.live = q.live := by
  refine List.map_congr_left fun i hi => ?_
  have hi' : i < q.queries := List.mem_range.mp hi
  simp [compact,hi']

theorem Valid.compact (h : q.Valid) : q.compact.Valid := by
  have hroom := h.room
  refine ⟨?_,h.range,?_,?_⟩
  · show 0+q.queries < q.queriesMax
    omega
  · intro i hi
    have hi' : i < q.queries := hi
    simpa [QueryStore.compact,hi'] using h.used i hi'
  intro p hp
  have hp' : ¬ p < q.queries := by
    have : 0+q.queries ≤ p := hp
    omega
  by_cases hdead : p < q.queries+q.offset
  · simp [QueryStore.compact,hp',hdead,QueriesData.wiped]
  · simpa [QueryStore.compact,hp',hdead] using h.unused p (by omega)

theorem ensureSize_cases (q : QueryStore) (pagesize : Nat) :
    (q.queries+q.offset < q.queriesMax-1 ∧ q.ensureSize pagesize = q) ∨
      ∃ q₀, (q₀ = q ∧ q.offset = 0 ∨ q₀ = q.compact) ∧
        (q₀.queries < q₀.queriesMax-1 ∧ q.ensureSize pagesize = q₀ ∨
          q.ensureSize pagesize = { q₀ with queriesMax := q₀.queriesMax+pagesize }) := by
  unfold ensureSize
  by_cases hfull : q.queries+q.offset ≥ q.queriesMax-1
  · right
    by_cases ho : q.offset > 0
    · refine ⟨q.compact,.inr rfl,?_⟩
      by_cases hg : q.queries ≥ q.queriesMax-1
      · right
        simp [hfull,ho,hg,compact]
      · left
        refine ⟨by show q.queries < q.queriesMax-1; omega,?_⟩
        simp [hfull,ho,hg,compact]
    · refine ⟨q,.inl ⟨rfl,by omega⟩,?_⟩
      by_cases hg : q.queries ≥ q.queriesMax-1
      · right
        simp [hfull,ho,hg]
      · left
        refine ⟨by omega,?_⟩
        simp [hfull,ho,hg]
  · left
    exact ⟨by omega,by simp [hfull]⟩

theorem ensureSize_eq_self (h : q.offset+q.queries+1 < q.queriesMax) (pagesize : Nat) :
    q.ensureSize pagesize = q := by
  unfold ensureSize
  rw [if_neg (by omega)]

theorem live_ensureSize (pagesize : Nat) :
    (q.ensureSize pagesize).live = q.live := by
  obtain ⟨_,hq⟩ | ⟨q₀,h₀,hq⟩ := q.ensureSize_cases pagesize
  · rw [hq]
  have hlive : q₀.live = q.live := by
    obtain ⟨h₀,_⟩ | h₀ := h₀
    · rw [h₀]
    · rw [h₀,live_compact]
  obtain ⟨_,hq⟩ | hq := hq
  · rw [hq,hlive]
  · rw [hq,← hlive]
    rfl

theorem Valid.ensureSize (h : q.Valid) {pagesize : Nat} (hp : 0 < pagesize)
    (hmem : (q.ensureSize pagesize).queriesMax < uintMod) :
    (q.ensureSize pagesize).Valid ∧
      (q.ensureSize pagesize).offset+(q.ensureSize pagesize).queries+1 <
        (q.ensureSize pagesize).queriesMax := by
  obtain ⟨hroom,hq⟩ | ⟨q₀,h₀,hq⟩ := q.ensureSize_cases pagesize
  · rw [hq]
    exact ⟨h,by omega⟩
  have h₁ : q₀.Valid ∧ q₀.offset = 0 := by
    obtain ⟨h₀,ho⟩ | h₀ := h₀
    · rw [h₀]
      exact ⟨h,ho⟩
    · rw [h₀]
      exact ⟨h.compact,rfl⟩
  obtain ⟨hv,ho⟩ := h₁
  have hroom := hv.room
  obtain ⟨hg,hq⟩ | hq := hq
  · rw [hq]
    exact ⟨hv,by omega⟩
  rw [hq] at hmem ⊢
  refine ⟨⟨?_,hmem,hv.used,hv.unused⟩,?_⟩
  · show q₀.offset+q₀.queries < q₀.queriesMax+pagesize
    omega
  · show q₀.offset+q₀.queries+1 < q₀.queriesMax+pagesize
    omega

theorem live_append {x : QueriesData} (hq : q'.queries = q.queries+1)
    (ho : q'.offset = q.offset) (hm : q'.mem = update q.mem (q.queries+q.offset) x) :
    q'.live = q.live ++ [x] := by
  unfold QueryStore.live
  rw [hq,ho,hm,List.range_succ,List.map_append]
  congr 1
  · refine List.map_congr_left fun i hi => ?_
    have := List.mem_range.mp hi
    exact update_of_ne (by omega) _ _
  · simp

theorem Valid.append (h : q.Valid) (hroom : q.offset+q.queries+1 < q.queriesMax)
    {x : QueriesData} (hx : x.magic = true) :
    (q.append (q.queries+q.offset) x).Valid ∧
      (q.append (q.queries+q.offset) x).live = q.live ++ [x] := by
  have hrange := h.range
  have hmod : (q.queries+1) % uintMod = q.queries+1 := Nat.mod_eq_of_lt (by omega)
  constructor
  · refine ⟨?_,hrange,?_,?_⟩
    · show q.offset+(q.queries+1) % uintMod < q.queriesMax
      omega
    · intro i hi
      have hi' : i < q.queries+1 := by simpa [QueryStore.append,hmod] using hi
      show (update q.mem (q.queries+q.offset) x (i+q.offset)).magic = true
      by_cases hlast : i = q.queries
      · subst hlast
        rw [update_self,hx]
      · rw [update_of_ne (by omega)]
        exact h.used i (by omega)
    · intro p hp
      have hp' : q.offset+(q.queries+1) ≤ p := by
        simpa [QueryStore.append,QueryStore.insertID,hmod] using hp
      show (update q.mem (q.queries+q.offset) x p).magic = false
      rw [update_of_ne (by omega)]
      exact h.unused p (by omega)
  · exact live_append hmod rfl rfl

attribute [local simp] QueryStore.drop

theorem Valid.drop_sizes (h : q.Valid) {removed : Nat} (hr : removed ≤ q.queries) :
    (q.drop removed).offset = q.offset+removed ∧
      (q.drop removed).queries = q.queries-removed := by
  have hroom := h.room
  have hrange := h.range
  by_cases hz : removed > 0
  · have hsplit : q.queries+uintMod-removed = (q.queries-removed)+uintMod := by omega
    simp only [QueryStore.drop,hz,if_true,hsplit,Nat.add_mod_right]
    exact ⟨Nat.mod_eq_of_lt (by omega),Nat.mod_eq_of_lt (by omega)⟩
  · obtain rfl : removed = 0 := by omega
    simp

@[simp] theorem drop_mem (removed : Nat) : (q.drop removed).mem = q.mem := by
  unfold QueryStore.drop
  split <;> rfl

@[simp] theorem drop_queriesMax (removed : Nat) :
    (q.drop removed).queriesMax = q.queriesMax := by
  unfold QueryStore.drop
  split <;> rfl

theorem Valid.drop (h : q.Valid) {removed : Nat} (hr : removed ≤ q.queries) :
    (q.drop removed).Valid ∧ (q.drop removed).live = q.live.drop removed := by
  have hroom := h.room
  obtain ⟨ho,hq⟩ := h.drop_sizes hr
  constructor
  · refine ⟨?_,?_,?_,?_⟩
    · rw [ho,hq,drop_queriesMax]
      omega
    · rw [drop_queriesMax]
      exact h.range
    · intro i hi
      rw [drop_mem,ho,show i+(q.offset+removed) = i+removed+q.offset by omega]
      exact h.used (i+removed) (by omega)
    · intro p hp
      rw [drop_mem]
      exact h.unused p (by omega)
  · apply List.ext_getElem?
    intro j
    rw [List.getElem?_drop]
    by_cases hj : j < q.queries-removed
    · rw [live_getElem? (by omega),live_getElem? (by omega),drop_mem,ho,
        show j+(q.offset+removed) = removed+j+q.offset by omega]
    · rw [List.getElem?_eq_none (by simp only [length_live]; omega),
        List.getElem?_eq_none (by simp; omega)]

end QueryStore

/-- The counters by status, reply and type count these queries. -/
structure QueryStore.Tallied (q : QueryStore) (l : List QueriesData) : Prop where
  status : Counts QueriesData.status q.status l
  reply : Counts QueriesData.reply q.reply l
  type : Counts QueriesData.type q.querytype l

/-- The three counter arrays count the live queries from index `r` on. -/
abbrev QueryStore.CountedFrom (q : QueryStore) (r : Nat) : Prop := q.Tallied (q.live.drop r)

/-- What hooks do to the query in slot `p`, seen from the rest of the array. -/
structure QueryStore.Reworks (p : Nat) (q q' : QueryStore) : Prop where
  queries : q'.queries = q.queries
  offset : q'.offset = q.offset
  queriesMax : q'.queriesMax = q.queriesMax
  query : ∃ x, (q.mem p).Kept x ∧ q'.mem = update q.mem p x
  tallied : ∀ l : List QueriesData, l.length+1 < 4294967296 →
    q.Tallied (q.mem p :: l) → q'.Tallied (q'.mem p :: l)

/-- `q'` differs from `q` in the live query `i`, and in the counters as they have to
follow. -/
structure QueryStore.Changed (i : Nat) (q q' : QueryStore) : Prop where
  valid : q'.Valid
  queries : q'.queries = q.queries
  offset : q'.offset = q.offset
  queriesMax : q'.queriesMax = q.queriesMax
  removed : q'.removed = q.removed
  query : ∃ x, (q.mem (i+q.offset)).Kept x ∧ q'.mem = update q.mem (i+q.offset) x
  counted : ∀ r ≤ i, q.CountedFrom r → q'.CountedFrom r

section

variable {q q' : QueryStore} {l l' : List QueriesData} {x : QueriesData}

theorem QueryStore.Tallied.perm (h : q.Tallied l) (hp : l.Perm l') : q.Tallied l' :=
  ⟨h.status.perm hp,h.reply.perm hp,h.type.perm hp⟩

theorem QueryStore.Tallied.cons (h : q.Tallied l) (hlen : l.length+1 < 4294967296)
    (hs : q'.status = increment q.status x.status) (hr : q'.reply = increment q.reply x.reply)
    (ht : q'.querytype = increment q.querytype x.type) : q'.Tallied (x :: l) := by
  refine ⟨?_,?_,?_⟩
  · rw [hs]
    exact h.status.cons hlen
  · rw [hr]
    exact h.reply.cons hlen
  · rw [ht]
    exact h.type.cons hlen

theorem counts_cons_same {α : Type} [DecidableEq α] {key : QueriesData → α} {c : α → UInt32}
    {y : QueriesData} (h : Counts key c (x :: l)) (hk : key y = key x) : Counts key c (y :: l) :=
  h.congr (by simp [hk])

theorem counts_cons_replace {α : Type} [DecidableEq α] {key : QueriesData → α} {c : α → UInt32}
    {y : QueriesData} {a : α} (h : Counts key c (x :: l)) (hlen : l.length+1 < 4294967296)
    (hy : key y = a) : Counts key (increment (decrement c (key x)) a) (y :: l) := by
  rw [← hy]
  exact h.tail.cons hlen

theorem QueryStore.Reworks.refl (p : Nat) (q : QueryStore) : q.Reworks p q :=
  ⟨rfl,rfl,rfl,⟨_,QueriesData.Kept.refl _,by simp⟩,fun _ _ h => h⟩

theorem QueryStore.Reworks.trans {p : Nat} {q'' : QueryStore} (h : Reworks p q q')
    (k : Reworks p q' q'') : Reworks p q q'' := by
  obtain ⟨x,hx,hm⟩ := h.query
  obtain ⟨y,hy,hm'⟩ := k.query
  refine ⟨k.queries.trans h.queries,k.offset.trans h.offset,k.queriesMax.trans h.queriesMax,
    ⟨y,?_,?_⟩,fun l hl ht => k.tallied l hl (h.tallied l hl ht)⟩
  · rw [hm,update_self] at hy
    exact hx.trans hy
  · rw [hm',hm,update_idem]

theorem QueryStore.Touch.reworks {p : Nat} (h : Touch p q q') :
    Reworks p q q' := by
  cases h with
  | status newStatus =>
    unfold changeStatus
    split
    · exact .refl p q
    refine ⟨rfl,rfl,rfl,⟨{ q.mem p with status := newStatus },
      ⟨rfl,rfl,rfl,rfl,rfl,rfl,fun h => h⟩,rfl⟩,fun m hm ht => ?_⟩
    simp only [QueryStore.setStatus,update_self]
    exact ⟨counts_cons_replace ht.status hm rfl,counts_cons_same ht.reply rfl,
      counts_cons_same ht.type rfl⟩
  | reply r =>
    refine ⟨rfl,rfl,rfl,⟨{ q.mem p with reply := r },
      ⟨rfl,rfl,rfl,rfl,rfl,rfl,fun h => h⟩,rfl⟩,fun m hm ht => ?_⟩
    simp only [setReply,update_self]
    exact ⟨counts_cons_same ht.status rfl,counts_cons_replace ht.reply hm rfl,
      counts_cons_same ht.type rfl⟩
  | other x hk hs hr =>
    refine ⟨rfl,rfl,rfl,⟨x,hk,rfl⟩,fun m hm ht => ?_⟩
    simp only [setQuery,update_self]
    exact ⟨counts_cons_same ht.status hs,counts_cons_same ht.reply hr,
      counts_cons_same ht.type hk.type⟩

theorem QueryStore.Touches.reworks {p : Nat} (h : Touches p q q') :
    Reworks p q q' := by
  induction h with
  | refl => exact .refl p q
  | tail _ hstep ih => exact ih.trans hstep.reworks

theorem QueryStore.Touches.removed_eq {p : Nat} (h : Touches p q q') :
    q'.removed = q.removed := by
  induction h with
  | refl => rfl
  | tail _ hstep ih =>
    rw [← ih]
    cases hstep with
    | status newStatus =>
      unfold changeStatus
      split <;> rfl
    | reply r | other x hk hs hr => rfl

/-- The query comes to the front, is reworked there and goes back. -/
theorem QueryStore.Reworks.front {i r : Nat} (h : Reworks (i+q.offset) q q')
    (hi : i < q.queries) (hr : r ≤ i) : ∃ rest, (q.live.drop r).Perm (q.mem (i+q.offset) :: rest) ∧
      (q'.live.drop r).Perm (q'.mem (i+q.offset) :: rest) := by
  obtain ⟨x,_,hm⟩ := h.query
  have hlt : i-r < (q.live.drop r).length := by
    rw [List.length_drop,length_live]
    omega
  have hget : (q.live.drop r)[i-r] = q.mem (i+q.offset) := by
    rw [List.getElem_drop,live_getElem]
    congr 1
    omega
  refine ⟨(q.live.drop r).eraseIdx (i-r),?_,?_⟩
  · rw [← hget]
    exact (List.getElem_cons_eraseIdx_perm hlt).symm
  · rw [live_update h.queries h.offset hm,List.drop_set,if_neg (by omega),hm,update_self]
    exact List.set_perm_cons_eraseIdx hlt x

theorem QueryStore.Valid.changed (h : q.Valid) {i : Nat} (hi : i < q.queries)
    (ht : Touches (i+q.offset) q q') : q.Changed i q' := by
  have hroom := h.room
  have hrange : q.queriesMax < 4294967296 := h.range
  have hw := Touches.reworks ht
  obtain ⟨x,hx,hm⟩ := hw.query
  refine ⟨h.of_update hi hx.magic hw.queries hw.offset hw.queriesMax hm,hw.queries,hw.offset,
    hw.queriesMax,ht.removed_eq,⟨x,hx,hm⟩,fun r hr hc => ?_⟩
  obtain ⟨rest,hold,hnew⟩ := hw.front hi hr
  have hlen : rest.length+1 ≤ q.queries := by
    rw [← List.length_cons (a := q.mem (i+q.offset)),← hold.length_eq,List.length_drop,
      length_live]
    omega
  have hall := hw.tallied rest (by omega) (hc.perm hold)
  exact hall.perm hnew.symm

end

end Lorentz
