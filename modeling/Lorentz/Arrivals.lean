import Lorentz.ReferenceCounts

/-!
What the arrival of a query does to the reference counts: its client, its domain and its
cache record count it, and the check of the lists changes no count.
-/

set_option autoImplicit false

namespace Lorentz
open Function References QueriesData

/-- What a check leaves alone in the client and the cache record. -/
structure CheckState.Keeps (c c' : CheckState) : Prop where
  tie : c'.client.tie = c.client.tie
  count : c'.client.count = c.client.count
  refcount : c'.cache.refcount = c.cache.refcount
  remembered : isCname c.cache.blockingStatus = false → isCname c'.cache.blockingStatus = false

section

variable {w : World} {g : Gravity} {c c' c'' : CheckState}

theorem CheckState.Keeps.refl (c : CheckState) : c.Keeps c := ⟨rfl,rfl,rfl,fun h => h⟩

theorem CheckState.Keeps.trans (h : c.Keeps c') (k : c'.Keeps c'') : c.Keeps c'' :=
  ⟨k.tie.trans h.tie,k.count.trans h.count,k.refcount.trans h.refcount,
    fun hc => k.remembered (h.remembered hc)⟩

theorem prepare_keeps (c : CheckState) : c.Keeps (gravityDBPrepareClientStatements w g c).2 := by
  obtain ⟨htie,hcount⟩ := getClientGroupids_account w g.db c.client
  unfold gravityDBPrepareClientStatements
  split
  · exact .refl c
  split
  · exact .refl c
  · split
    · exact ⟨rfl,rfl,rfl,fun h => h⟩
    · exact ⟨htie,hcount,rfl,fun h => h⟩

theorem inExactList_keeps (present : Bool) (view : List ViewRow) (domain : List Char)
    (c : CheckState) : c.Keeps (inExactList w g present view domain c).2 := by
  unfold inExactList
  split
  · exact .refl c
  split
  · exact .refl c
  have hp : c.Keeps (gravityDBPrepareClientStatements w g c).2 := prepare_keeps c
  simp only
  split
  · exact hp
  · split
    · exact hp
    · exact hp.trans ⟨rfl,rfl,rfl,fun h => h⟩

theorem inGravity_keeps (antigravity : Bool) (domain : List Char) (listID : Int)
    (c : CheckState) : c.Keeps (inGravity w g antigravity domain listID c).2.2 := by
  unfold inGravity
  split
  · exact .refl c
  split
  · exact .refl c
  have hp : c.Keeps (gravityDBPrepareClientStatements w g c).2 := prepare_keeps c
  simp only
  split
  · exact hp
  split
  · exact hp
  · split
    · exact hp.trans ⟨rfl,rfl,rfl,fun h => h⟩
    · split <;> exact hp.trans ⟨rfl,rfl,rfl,fun h => h⟩

theorem inRegex_keeps (type : RegexType) (domain : List Char) (c : CheckState) :
    c.Keeps (inRegex w g type domain c).2 := by
  unfold inRegex
  split
  · exact ⟨rfl,rfl,rfl,fun h => h⟩
  · exact .refl c

variable (cfg : Config) (domain : List Char) (v : Verdict)

theorem busyVerdict_keeps (c : CheckState) : c.Keeps (busyVerdict cfg v c).2 ∧
      (isCname v.status = false → isCname (busyVerdict cfg v c).1.status = false) := by
  unfold busyVerdict
  cases cfg.replyWhenBusy with
  | allow => exact ⟨⟨rfl,rfl,rfl,fun h => h⟩,fun h => h⟩
  | _ => exact ⟨⟨rfl,rfl,rfl,fun h => h⟩,fun _ => rfl⟩

theorem checkRegex_keeps (c : CheckState) : c.Keeps (checkRegex w g domain v c).2 ∧
      (isCname v.status = false → isCname (checkRegex w g domain v c).1.status = false) := by
  have hr : c.Keeps (inRegex w g .deny domain c).2 := inRegex_keeps .deny domain c
  unfold checkRegex
  simp only
  split
  · exact ⟨hr.trans ⟨rfl,rfl,rfl,fun h => h⟩,fun _ => rfl⟩
  · exact ⟨hr,fun h => h⟩

theorem checkDomainBlocked_keeps (c : CheckState) :
    c.Keeps (checkDomainBlocked w g cfg domain v c).2 ∧
      (isCname v.status = false →
        isCname (checkDomainBlocked w g cfg domain v c).1.status = false) := by
  unfold checkDomainBlocked
  split
  · exact ⟨.refl c,fun h => h⟩
  have hdeny : c.Keeps (inDenylist w g domain c).2 := inExactList_keeps _ _ domain c
  simp only
  generalize inDenylist w g domain c = deny at *
  split
  · exact ⟨hdeny.trans ⟨rfl,rfl,rfl,fun h => h⟩,fun _ => rfl⟩
  have hanti : c.Keeps (inGravity w g true domain (-1) deny.2).2.2 :=
    hdeny.trans (inGravity_keeps true domain (-1) deny.2)
  generalize inGravity w g true domain (-1) deny.2 = anti at *
  split
  · exact ⟨hanti.trans ⟨rfl,rfl,rfl,fun h => h⟩,fun h => h⟩
  have hgrav : c.Keeps (inGravity w g false domain anti.2.1 anti.2.2).2.2 :=
    hanti.trans (inGravity_keeps false domain anti.2.1 anti.2.2)
  generalize inGravity w g false domain anti.2.1 anti.2.2 = grav at *
  split
  · exact ⟨hgrav.trans ⟨rfl,rfl,rfl,fun h => h⟩,fun _ => rfl⟩
  split
  · obtain ⟨hb,hs⟩ := busyVerdict_keeps cfg v grav.2.2
    exact ⟨hgrav.trans hb,hs⟩
  · obtain ⟨hb,hs⟩ := checkRegex_keeps (w := w) (g := g) domain v grav.2.2
    exact ⟨hgrav.trans hb,hs⟩

theorem checkEsni_keeps (r : Verdict × CheckState) : r.2.Keeps (checkEsni w g cfg domain r).2 ∧
      (isCname r.1.status = false → isCname (checkEsni w g cfg domain r).1.status = false) := by
  unfold checkEsni
  split
  · exact ⟨.refl _,fun h => h⟩
  rename_i d _
  obtain ⟨hk,hs⟩ := checkDomainBlocked_keeps (w := w) (g := g) cfg d r.1 r.2
  simp only
  generalize checkDomainBlocked w g cfg d r.1 r.2 = b at *
  split
  · refine ⟨hk.trans ⟨rfl,rfl,?_,?_⟩,hs⟩
    · split <;> rfl
    · intro hc
      split <;> exact hc
  · exact ⟨hk.trans ⟨rfl,rfl,rfl,fun h => h⟩,hs⟩

theorem checkLists_keeps (type : QueryType) (domain : List Char) (c : CheckState) :
    c.Keeps (checkLists w g cfg type domain c).2 ∧
      isCname (checkLists w g cfg type domain c).1.status = false := by
  unfold checkLists
  extract_lets allow a c₁ r b c₂ d e
  have h₁ : c.Keeps c₁ :=
    (inExactList_keeps (w := w) (g := g) _ _ domain c).trans ⟨rfl,rfl,rfl,fun h => h⟩
  have h₂ : c.Keeps c₂ := by
    unfold c₂
    split
    · exact h₁
    · exact h₁.trans ((inRegex_keeps .allow domain c₁).trans ⟨rfl,rfl,rfl,fun h => h⟩)
  split
  · exact ⟨h₂.trans ⟨rfl,rfl,rfl,fun _ => rfl⟩,rfl⟩
  obtain ⟨hk,hs⟩ := checkDomainBlocked_keeps (w := w) (g := g) cfg domain ⟨false,.unknown,true⟩ c₂
  obtain ⟨hk',hs'⟩ := checkEsni_keeps (w := w) (g := g) cfg domain
    (checkDomainBlocked w g cfg domain ⟨false,.unknown,true⟩ c₂)
  have hkeep : c.Keeps e.2 := h₂.trans (hk.trans hk')
  have hstatus : isCname e.1.status = false := hs' (hs rfl)
  split
  · exact ⟨hkeep.trans ⟨rfl,rfl,rfl,fun h => h⟩,hstatus⟩
  · exact ⟨hkeep,hstatus⟩

end

/-- The tables count what the query in slot `p` refers to. -/
structure Store.Ready (s : Store) (p : Nat) : Prop where
  sound : s.t.Sound
  has : ∀ r, (s.q.mem p).refers r = true → s.t.has r = true

/-- An operation on the query in slot `p` moves the counts as its references change, and never
makes a new one. -/
structure Store.Works (p : Nat) (s s' : Store) : Prop where
  tables : s.t.Step s'.t (fun r =>
    credit QueriesData.refers (s'.q.mem p) r-credit QueriesData.refers (s.q.mem p) r)
  refers : ∀ r, (s'.q.mem p).refers r = true → (s.q.mem p).refers r = true
  config : s'.config = s.config

section

variable {s s' s'' : Store} {p : Nat}

theorem Store.Works.ready (h : Works p s s') (hs : s.Ready p) : s'.Ready p :=
  ⟨h.tables.sound,fun r hr => h.tables.has r (hs.has r (h.refers r hr))⟩

theorem Store.Works.trans (h : Works p s s') (k : Works p s' s'') :
    Works p s s'' := by
  refine ⟨(h.tables.trans k.tables).congr fun r _ => ?_,fun r hr => h.refers r (k.refers r hr),
    k.config.trans h.config⟩
  simp only [Pi.add_apply]
  omega

theorem Store.Works.quiet (ht : s.t.Step s'.t 0)
    (hr : (s'.q.mem p).refers = (s.q.mem p).refers) (hc : s'.config = s.config) :
    Works p s s' := by
  refine ⟨ht.congr fun r _ => ?_,fun r h => by rw [← hr,h],hc⟩
  simp [credit,hr]

attribute [local simp] Store.modifyQuery

theorem Store.Ready.modifyQuery (h : s.Ready p) {f : QueriesData → QueriesData}
    (hf : (f (s.q.mem p)).refers = (s.q.mem p).refers) : Store.Works p s (s.modifyQuery p f) := by
  refine .quiet h.sound.step_refl ?_ rfl
  simpa [QueryStore.setQuery] using hf

theorem QueriesData.refers_congr {x y : QueriesData} (hc : y.clientID = x.clientID)
    (hd : y.domainID = x.domainID) (hu : y.upstreamID = x.upstreamID)
    (hf : y.flags.upstreamCounted = x.flags.upstreamCounted) (hk : y.cacheID = x.cacheID)
    (hn : y.cnameDomainID = x.cnameDomainID) : y.refers = x.refers := by
  funext r
  cases r <;> simp [refers,hc,hd,hu,hf,hk,hn]

theorem Store.Ready.markChanged (h : s.Ready p) : Works p s (s.markChanged p) :=
  h.modifyQuery (refers_congr rfl rfl rfl rfl rfl rfl)

variable {t : Tables} {st : QueryStatus}

theorem Tables.Sound.modifyCache (h : t.Sound) {k : Nat} {f : DNSCacheData → DNSCacheData}
    (hr : ∀ d, (f d).refcount = d.refcount)
    (hb : ∀ d, isCname d.blockingStatus = false → isCname (f d).blockingStatus = false) :
    t.Step (t.modifyCache k f) 0 := by
  unfold Tables.modifyCache Tables.getDNSCache
  by_cases hm : (t.cache k).magic = true
  · simp only [hm,if_true]
    exact h.setCache_same (hb _ (h.remembered k)) (hr _)
  · simp only [hm]
    exact h.step_refl

theorem Tables.Sound.memoriseStatus (h : t.Sound) (cfg : Config) (x : QueriesData)
    (hst : isCname st = false) : t.Step (t.memoriseStatus cfg x st) 0 := by
  have hwrite : ∀ u : Tables, t.Step u 0 → ∀ k,
      t.Step (u.modifyCache k (fun d => d.memorise cfg x.timestamp st)) 0 := by
    intro u hu k
    refine hu.then (hu.sound.modifyCache (fun d => ?_) fun d hd => ?_)
    · unfold DNSCacheData.memorise
      split <;> rfl
    unfold DNSCacheData.memorise
    split
    · exact hd
    · exact hst
  unfold Tables.memoriseStatus
  split
  · cases hk : x.cacheID with
    | some k => exact hwrite t h.step_refl k
    | none =>
      obtain ⟨k,hfst,hstep,_⟩ := h.findCacheID x.domainID x.clientID x.type
      simp only [hfst]
      exact hwrite _ hstep k
  · exact h.step_refl

theorem Store.Ready.querySetStatus (h : s.Ready p) (hst : isCname st = false) :
    Store.Works p s (s.querySetStatus p st false) := by
  unfold Store.querySetStatus
  by_cases hsame : (s.q.mem p).status = st
  · simp only [hsame,true_and,if_true]
    exact .quiet h.sound.step_refl rfl rfl
  simp only [hsame,false_and,if_false,Bool.false_eq_true]
  have hm := h.sound.memoriseStatus s.config (s.q.mem p) hst
  have ho := hm.then (hm.sound.modifySlot
    ((s.t.memoriseStatus s.config (s.q.mem p) st).getOverTimeID (timeT (s.q.mem p).timestamp))
    (fun o => o.addStatus (s.q.mem p).status (-1)))
  refine .quiet ?_ ?_ rfl
  · dsimp only
    exact ho.then (ho.sound.modifySlot _ _)
  · simp only [QueryStore.setStatus,update_self]
    exact QueriesData.refers_congr rfl rfl rfl rfl rfl rfl

theorem Store.Ready.countBlocked (h : s.Ready p) (domainID clientID : Option Nat) :
    Store.Works p s (s.countBlocked p domainID clientID) := by
  unfold Store.countBlocked
  extract_lets t t'
  have hd : s.t.Step t 0 := by
    cases domainID with
    | none => exact h.sound.step_refl
    | some d => exact h.sound.setDomain_same rfl rfl
  have hc : s.t.Step t' 0 := by
    cases clientID with
    | none => exact hd
    | some c => exact hd.then (hd.sound.changeClientcount_zero c 1 none 0)
  refine .quiet hc ?_ rfl
  simp only [Store.modifyQuery,QueryStore.setQuery,update_self]
  exact QueriesData.refers_congr rfl rfl rfl rfl rfl rfl

attribute [local simp] Store.handBackUpstream

section

variable (h : s.Ready p)
include h

theorem Store.Ready.handBackUpstream (hc : (s.q.mem p).flags.upstreamCounted = true) :
    Store.Works p s (s.handBackUpstream p) := by
  have hmem : ((s.handBackUpstream p).q.mem p) = { s.q.mem p with
      flags := { (s.q.mem p).flags with upstreamCounted := false } } := by
    simp [QueryStore.setQuery]
  have hrefers : ∀ r, ((s.handBackUpstream p).q.mem p).refers r = true →
      (s.q.mem p).refers r = true := by
    intro r hr
    rw [hmem] at hr
    cases r <;> simp [QueriesData.refers] at hr ⊢ <;> exact hr
  refine ⟨?_,hrefers,rfl⟩
  rw [hmem]
  cases hu : (s.q.mem p).upstreamID with
  | none =>
    have ht : (s.handBackUpstream p).t = s.t := by
      simp [hu]
    rw [ht]
    refine h.sound.step_refl.congr fun r _ => ?_
    cases r <;> simp [credit,QueriesData.refers,hu]
  | some u =>
    have hlt := h.has (.upstream u) (by simp [QueriesData.refers,hc,hu])
    simp only [Tables.has,decide_eq_true_eq] at hlt
    have hm := h.sound.upstreams u hlt
    have ht : (s.handBackUpstream p).t =
        s.t.setUpstream u { s.t.upstreams u with count := (s.t.upstreams u).count-1 } := by
      simp [hu,Tables.modifyUpstream,Tables.getUpstream,hm]
    rw [ht]
    refine (h.sound.setUpstream (u := { s.t.upstreams u with
      count := (s.t.upstreams u).count-1 }) hm hlt).congr fun r _ => ?_
    cases r with
    | upstream j =>
      by_cases hj : j = u
      · simp [credit,QueriesData.refers,hu,hc,hj]
      · simp [credit,QueriesData.refers,hu,hc,hj,Ne.symm hj]
    | _ => simp [credit,QueriesData.refers]

theorem Store.Ready.queryBlocked (domainID clientID : Option Nat) (hst : isCname st = false) :
    Store.Works p s (s.queryBlocked p domainID clientID st) := by
  unfold Store.queryBlocked
  extract_lets query handBack a b
  split
  · exact .quiet h.sound.step_refl rfl rfl
  have ha : Store.Works p s a := by
    unfold a
    split
    · rename_i hb
      exact h.handBackUpstream hb.2
    · exact .quiet h.sound.step_refl rfl rfl
  have hb : Store.Works p s b := by
    unfold b
    split
    · exact ha.trans ((ha.ready h).countBlocked domainID clientID)
    · exact ha
  have hset := hb.trans ((hb.ready h).querySetStatus hst)
  exact hset.trans (hset.ready h).markChanged

theorem Store.Ready.storeCheck {clientID cacheID : Nat} {c : CheckState}
    (hk : (s.loadCheck p clientID cacheID).Keeps c) :
    Store.Works p s (s.storeCheck p clientID cacheID c) := by
  have hclient := h.sound.setClient_same (i := clientID) hk.tie hk.count
  have hcache := hclient.then (hclient.sound.setCache_same (k := cacheID)
    (hk.remembered (h.sound.remembered cacheID)) hk.refcount)
  refine .quiet ?_ ?_ rfl
  · exact hcache.then (hcache.sound.setRow (update s.t.regexRow clientID c.row))
  · simp only [Store.storeCheck,QueryStore.setQuery,update_self]
    exact QueriesData.refers_congr rfl rfl rfl rfl rfl rfl

theorem Store.Ready.checkRules (w : World) (domainstr : List Char) (clientID domainID cacheID : Nat) :
    Store.Works p s (s.checkRules w domainstr p clientID domainID cacheID).2 := by
  unfold Store.checkRules
  extract_lets r a
  obtain ⟨hk,hst⟩ := checkLists_keeps (w := w) (g := s.gravity) s.config (s.q.mem p).type domainstr
    (s.loadCheck p clientID cacheID)
  have ha : Store.Works p s a := h.storeCheck hk
  split
  · exact ha.trans ((ha.ready h).queryBlocked _ _ hst)
  · exact ha

theorem Store.Ready.forceReply (reason : String) (reply : ReplyType) :
    Works p s (s.forceReply reason reply) :=
  .quiet h.sound.step_refl rfl rfl

theorem Store.Ready.replayList (clientID domainID cacheID : Nat) (hst : isCname st = false)
    (reason : String) (regex : Bool) :
    Store.Works p s (s.replayList p clientID domainID cacheID st reason regex false) := by
  unfold Store.replayList
  extract_lets d a b c
  have ha : Store.Works p s a := h.forceReply reason d.forceReply
  have hb : Store.Works p s b := by
    unfold b
    split
    · exact ha.trans (.quiet ha.tables.sound.step_refl rfl rfl)
    · exact ha
  exact hb.trans ((hb.ready h).queryBlocked _ _ hst)

end

theorem remembered_cname {reason : String} {regex cname : Bool} (hst : isCname st = false)
    (h : remembered st = .list reason regex cname) : cname = false := by
  cases st <;> simp_all [remembered,isCname]

theorem Store.Ready.answer (h : s.Ready p) (w : World) (domainstr : List Char)
    (clientID domainID cacheID : Nat) (hst : isCname st = false) :
    Store.Works p s (s.answer w domainstr p clientID domainID cacheID st).2 := by
  have hrefl : Store.Works p s s := .quiet h.sound.step_refl rfl rfl
  unfold Store.answer
  extract_lets allowed d
  split
  · split
    · exact hrefl
    · exact h.checkRules w domainstr clientID domainID cacheID
  · rename_i reason regex cname hrem
    split
    · exact hrefl
    · rw [remembered_cname hst hrem]
      exact h.replayList clientID domainID cacheID hst reason regex
  · have hf := h.forceReply "special domain" d.forceReply
    exact hf.trans ((hf.ready h).queryBlocked _ _ rfl)
  · rename_i reason _ _
    have hf := h.forceReply reason d.forceReply
    exact hf.trans ((hf.ready h).queryBlocked _ _ hst)
  · split
    · refine h.modifyQuery (f := fun x => { x with flags := { x.flags with allowed := true } }) ?_
      exact QueriesData.refers_congr rfl rfl rfl rfl rfl rfl
    · exact hrefl

theorem DNSCacheData.expire_refcount (d : DNSCacheData) (cfg : Config) (timestamp : ℚ) :
    (d.expire cfg timestamp).refcount = d.refcount ∧
      (isCname d.blockingStatus = false →
        isCname (d.expire cfg timestamp).blockingStatus = false) := by
  unfold DNSCacheData.expire
  split
  · exact ⟨rfl,fun _ => rfl⟩
  · exact ⟨rfl,fun h => h⟩

theorem Store.Ready.lookUpEntry (h : s.Ready p) (clientID domainID cacheID : Nat) :
    Store.Works p s (s.lookUpEntry p clientID domainID cacheID).2 ∧
      isCname (s.lookUpEntry p clientID domainID cacheID).1 = false := by
  obtain ⟨hr,hb⟩ := (s.t.cache cacheID).expire_refcount s.config (s.q.mem p).timestamp
  have hb := hb (h.sound.remembered cacheID)
  refine ⟨.quiet (h.sound.setCache_same hb hr) rfl rfl,?_⟩
  unfold Store.lookUpEntry
  extract_lets query entry applies st
  unfold st
  split
  · exact hb
  · rfl

theorem Store.Ready.checkBlocking (h : s.Ready p) (w : World) (domainstr : List Char)
    (clientID domainID cacheID : Option Nat) :
    Store.Works p s (s.checkBlocking w domainstr p clientID domainID cacheID).2 := by
  unfold Store.checkBlocking
  split
  · exact .quiet h.sound.step_refl rfl rfl
  split
  · rename_i c d k
    obtain ⟨hl,hst⟩ := h.lookUpEntry c d k
    exact hl.trans ((hl.ready h).answer w domainstr c d k hst)
  · exact .quiet h.sound.step_refl rfl rfl

theorem Store.Ready.decideQuery (h : s.Ready p) (w : World) (pk : Packet)
    (clientID domainID : Nat) :
    Store.Works p s (s.decideQuery w pk (some p) clientID domainID).2 := by
  unfold Store.decideQuery
  simp only
  split
  · have hc := h.checkBlocking w pk.domainString
      (if (s.t.clients clientID).magic then some clientID else none)
      (if (s.t.domains domainID).magic then some domainID else none)
      (((s.q.mem p).cacheID).filter (fun k => (s.t.cache k).magic))
    exact hc.trans (hc.ready h).markChanged
  · exact h.markChanged

end

section

variable {s : Store}

/-- The first section of `_Lorentz_new_query` under the lock: the query is not recorded and not
counted, or the tables count exactly what its record refers to. -/
inductive Store.Registers (s : Store) : Registered × Store → Prop where
  | finished {b : Bool} {s' : Store} (hq : s'.q = s.q) (ht : s.t.Step s'.t 0)
      (hc : s'.config = s.config) : Store.Registers s (.finished b,s')
  | query {c d : Nat} {x : QueriesData} {s' : Store} (hm : x.magic = true)
      (hq : s'.q = s.q.append (s.q.queries+s.q.offset) x)
      (ht : s.t.Step s'.t (credit QueriesData.refers x))
      (hhas : ∀ r, x.refers r = true → s'.t.has r = true) (hc : s'.config = s.config) :
      Store.Registers s (.query c d (s.q.queries+s.q.offset),s')

theorem Store.noteIdentity_quiet (h : s.t.Sound) (w : World) (pk : Packet) (clientID : Nat)
    (internal : Bool) : s.t.Step (s.noteIdentity w pk clientID internal).t 0 ∧
      (s.noteIdentity w pk clientID internal).config = s.config := by
  unfold noteIdentity
  extract_lets a
  have ha : s.t.Step a.t 0 ∧ a.config = s.config := by
    unfold a noteInterface
    split
    · exact ⟨h.step_refl,rfl⟩
    extract_lets client c
    split
    · exact ⟨h.step_refl,rfl⟩
    split
    · exact ⟨h.setClient_same rfl rfl,rfl⟩
    split
    · exact ⟨h.step_refl,rfl⟩
    have hk := prepare_keeps (w := w) (g := s.gravity)
      (c := ⟨{ client with iface := pk.iface, flags := { client.flags with
        foundGroup := false } },s.t.regexRow clientID,.wiped,false,s.statics,0⟩)
    have hset := h.setClient_same (i := clientID) (c := c.client) hk.tie hk.count
    exact ⟨hset.then (hset.sound.setRow (update s.t.regexRow clientID c.row)),rfl⟩
  split
  · exact ⟨ha.1.then (ha.1.sound.setClient_same rfl rfl),ha.2⟩
  · exact ha

variable {t : Tables} (pk : Packet) (cfg : Config) (clientID domainID k : Nat) (w : World)

theorem Tables.Sound.countCache (h : t.Sound) {k : Nat} (hk : k < t.dnsCacheSize)
    (hm : (t.cache k).magic = true) {f : DNSCacheData → DNSCacheData}
    (hr : ∀ d, (f d).refcount = d.refcount+1) (hb : ∀ d, (f d).blockingStatus = d.blockingStatus) :
    t.Step (t.modifyCache k f) (Ref.one (.cache k)) := by
  simp only [Tables.modifyCache,Tables.getDNSCache,hm,if_true]
  refine (h.setCache ?_ (.inl hk)).congr fun r _ => ?_
  · rw [hb]
    exact h.remembered k
  · simp [Ref.one,hr]

theorem Tables.Sound.countCname (h : t.Sound) {i : Nat} (hi : i < t.numDomains)
    (hm : (t.domains i).magic = true) {f : DomainsData → DomainsData}
    (hc : ∀ d, (f d).count = d.count) (hn : ∀ d, (f d).cnameRefcount = d.cnameRefcount+1) :
    t.Step (t.modifyDomain i f) (Ref.one (.cname i)) := by
  simp only [modifyDomain,getDomain,hm,if_true]
  refine (h.setDomain (.inl hi)).congr fun r _ => ?_
  cases r <;> simp [Ref.one,hc,hn]

theorem Tables.Sound.countQuery (h : t.Sound) (pk : Packet) (clientID : Nat) :
    ∃ k, (t.countQuery pk clientID).1.2 = some k ∧
      t.Step (t.countQuery pk clientID).2
        (Ref.one (.domain (t.countQuery pk clientID).1.1)+Ref.one (.cache k)) ∧
      (t.countQuery pk clientID).2.has (.domain (t.countQuery pk clientID).1.1) = true ∧
      (t.countQuery pk clientID).2.has (.cache k) = true := by
  unfold Tables.countQuery
  extract_lets timeidx d k a b c₀ c d₀
  obtain ⟨hd,hdlt,_⟩ := h.findDomainID pk.domainString true
  obtain ⟨i,hk,hfind,hklt,hkm⟩ := hd.sound.findCacheID d.1 clientID pk.type
  have ha : k.2.Step a (Ref.one (.cache i)) := by
    unfold a
    rw [show k.1 = some i from hk]
    exact hfind.sound.countCache hklt hkm (fun _ => rfl) fun _ => rfl
  have hb : k.2.Step b (Ref.one (.cache i)) :=
    ha.before (ha.sound.changeClientcount_zero clientID 0 (some timeidx) 1)
  have hc : k.2.Step c (Ref.one (.cache i)) := hb.before (hb.sound.setClient_same rfl rfl)
  have hlast := hc.before (hc.sound.setDomain_same (i := d.1)
    (d := { d₀ with lastQuery := pk.timestamp }) rfl rfl)
  refine ⟨i,hk,hd.trans (hfind.then hlast),?_,?_⟩
  · exact hlast.has _ (hfind.has _ (by simpa [Tables.has] using hdlt))
  · exact hlast.has _ (by simpa [Tables.has] using hklt)

theorem newQueriesData_refers (r : Ref) :
    (newQueriesData pk cfg clientID domainID (some k)).refers r = true ↔
      r = .client clientID ∨ r = .domain domainID ∨ r = .cache k := by
  cases r <;> simp [newQueriesData] <;> exact eq_comm

theorem credit_newQueriesData :
    credit refers (newQueriesData pk cfg clientID domainID (some k)) =
      Ref.one (.client clientID)+(Ref.one (.domain domainID)+Ref.one (.cache k)) := by
  funext r
  simp only [credit,newQueriesData_refers,Pi.add_apply,Ref.one]
  cases r <;> simp

theorem Store.registers_recordQuery (pk : Packet) {clientID : Nat} (internal : Bool)
    (hnext : s.q.getQuery s.q.queries false = some (s.q.queries+s.q.offset))
    (h : s.t.Step t (Ref.one (.client clientID))) (hlt : clientID < t.numClients) :
    s.Registers (({ s with t := t } : Store).recordQuery w pk clientID internal) := by
  obtain ⟨k,hk,hstep,hdom,hcache⟩ := h.sound.countQuery pk clientID
  have hcredit := credit_newQueriesData pk s.config clientID (t.countQuery pk clientID).1.1 k
  have hrefers := newQueriesData_refers pk s.config clientID (t.countQuery pk clientID).1.1 k
  unfold recordQuery
  simp only [hnext,hk]
  have hmagic : (newQueriesData pk s.config clientID (t.countQuery pk clientID).1.1
    (some k)).magic = true := rfl
  generalize newQueriesData pk s.config clientID (t.countQuery pk clientID).1.1 (some k) = x at *
  obtain ⟨hid,hcfg⟩ := noteIdentity_quiet (s := { s with
    q := s.q.append (s.q.queries+s.q.offset) x
    t := (t.countQuery pk clientID).2 }) hstep.sound w pk clientID internal
  refine .query hmagic (noteIdentity_q w pk clientID internal) ?_ (fun r hr => ?_) hcfg
  · rw [hcredit]
    exact (h.trans hstep).before hid
  refine hid.has r ?_
  obtain rfl | rfl | rfl := (hrefers r).mp hr
  · exact hstep.has _ (by simpa [Tables.has] using hlt)
  · exact hdom
  · exact hcache

theorem ClientsData.limitRate_account (c : ClientsData) (limit : Nat) (internal : Bool) :
    (c.limitRate limit internal).2.tie = c.tie ∧ (c.limitRate limit internal).2.count = c.count := by
  unfold ClientsData.limitRate
  extract_lets counted rate
  split <;> exact ⟨rfl,rfl⟩

theorem Store.registers_registerLocked (pk : Packet) (h : s.t.Sound)
    (hnext : s.q.getQuery s.q.queries false = some (s.q.queries+s.q.offset))
    (hm : ∀ a, pk.managedBy = some a → a < s.t.numClients ∧
      (s.t.clients a).flags.aliasclient = true) :
    s.Registers (s.registerLocked w pk) := by
  unfold registerLocked
  extract_lets internal c limited t
  obtain ⟨hc,hlt⟩ := h.findClientID w s.gravity hm (pk.client s.config).1 pk.timestamp
  obtain ⟨htie,hcount⟩ := (c.2.clients c.1).limitRate_account s.config.rateLimitCount internal
  have ht : s.t.Step t (Ref.one (.client c.1)) := hc.before (hc.sound.setClient_same htie hcount)
  have hlt' : c.1 < t.numClients := hlt
  have hback : s.t.Step (t.changeClientcount c.1 (-1) 0 none 0) 0 := by
    refine (ht.trans (ht.sound.changeClientcount (.inl hlt') 0 none 0)).congr fun r _ => ?_
    by_cases hr : r = .client c.1 <;> simp [Ref.one,hr]
  split
  · exact .finished rfl hback rfl
  · split
    · exact .finished rfl hback rfl
    · exact registers_recordQuery w pk internal hnext ht hlt'

end

end Lorentz
