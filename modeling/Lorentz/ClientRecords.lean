import Lorentz.Hooks
import Lorentz.Library.Directory

/-!
The table of the clients: what changes a record's client, its name or its state in the rate
limiter, told apart from what only counts.
-/

set_option autoImplicit false

namespace Lorentz
open Function

def ClientsData.label (c : ClientsData) : Bool × List Char × List Char × Nat × Bool :=
  (c.magic,c.ip,c.name,c.rateLimit,c.flags.rateLimited)

structure Tables.SameClients (t t' : Tables) : Prop where
  label : ∀ i, (t'.clients i).label = (t.clients i).label
  lookup : t'.clientsLookup = t.clientsLookup
  recycle : t'.clientsRecycle = t.clientsRecycle
  num : t'.numClients = t.numClients

section

variable {t t' t'' : Tables}

namespace Tables.SameClients

theorem refl (t : Tables) : t.SameClients t := ⟨fun _ => rfl,rfl,rfl,rfl⟩

section

variable (h : t.SameClients t')
include h

theorem trans (k : t'.SameClients t'') : t.SameClients t'' :=
  ⟨fun i => (k.label i).trans (h.label i),k.lookup.trans h.lookup,k.recycle.trans h.recycle,
    k.num.trans h.num⟩

theorem beside (hc : t''.clients = t'.clients) (hl : t''.clientsLookup = t'.clientsLookup)
    (hr : t''.clientsRecycle = t'.clientsRecycle) (hn : t''.numClients = t'.numClients) :
    t.SameClients t'' :=
  h.trans ⟨fun i => by rw [hc],hl,hr,hn⟩

theorem magic (i : Nat) : (t'.clients i).magic = (t.clients i).magic :=
  congrArg Prod.fst (h.label i)

theorem ip (i : Nat) : (t'.clients i).ip = (t.clients i).ip :=
  congrArg (fun l => l.2.1) (h.label i)

theorem name (i : Nat) : (t'.clients i).name = (t.clients i).name :=
  congrArg (fun l => l.2.2.1) (h.label i)

theorem rateLimit (i : Nat) : (t'.clients i).rateLimit = (t.clients i).rateLimit :=
  congrArg (fun l => l.2.2.2.1) (h.label i)

theorem rateLimited (i : Nat) :
    (t'.clients i).flags.rateLimited = (t.clients i).flags.rateLimited :=
  congrArg (fun l => l.2.2.2.2) (h.label i)

theorem setClient {i : Nat} {c : ClientsData} (hc : c.label = (t'.clients i).label) :
    t.SameClients (t'.setClient i c) := by
  refine h.trans ⟨fun j => ?_,rfl,rfl,rfl⟩
  by_cases hj : j = i
  · simp [Tables.setClient,hj,hc]
  · simp [Tables.setClient,hj]

theorem modifyClient (i : Nat) {f : ClientsData → ClientsData} (hf : ∀ c, (f c).label = c.label) :
    t.SameClients (t'.modifyClient i f) := by
  unfold Tables.modifyClient Tables.getClient
  by_cases hm : (t'.clients i).magic = true
  · simp only [hm,if_true]
    exact h.setClient (hf _)
  · simp only [hm]
    exact h

theorem modifyDomain (i : Nat) (f : DomainsData → DomainsData) :
    t.SameClients (t'.modifyDomain i f) := by
  unfold Tables.modifyDomain
  split
  · exact h.beside rfl rfl rfl rfl
  · exact h

theorem modifyUpstream (i : Nat) (f : UpstreamsData → UpstreamsData) :
    t.SameClients (t'.modifyUpstream i f) := by
  unfold Tables.modifyUpstream
  split
  · exact h.beside rfl rfl rfl rfl
  · exact h

theorem modifyCache (i : Nat) (f : DNSCacheData → DNSCacheData) :
    t.SameClients (t'.modifyCache i f) := by
  unfold Tables.modifyCache
  split
  · exact h.beside rfl rfl rfl rfl
  · exact h

theorem changeClientcount (i : Nat) (total blocked : Int) (overTimeIdx : Option Nat)
    (overTimeMod : Int) :
    t.SameClients (t'.changeClientcount i total blocked overTimeIdx overTimeMod) := by
  unfold Tables.changeClientcount
  extract_lets c a b
  have ha : t.SameClients a := h.setClient rfl
  have hb : t.SameClients b := by
    cases overTimeIdx with
    | none => exact ha
    | some k => exact ha.beside rfl rfl rfl rfl
  split
  · exact hb
  · split
    · exact hb
    · exact hb.modifyClient _ fun _ => rfl

theorem findDomainID (domain : List Char) (count : Bool) :
    t.SameClients (t'.findDomainID domain count).2 := by
  unfold Tables.findDomainID
  split
  · split
    · exact h.modifyDomain _ _
    · exact h
  · exact h.beside rfl rfl rfl rfl

theorem findCacheID (domainID clientID : Nat) (type : QueryType) (createNew : Bool) :
    t.SameClients (t'.findCacheID domainID clientID type createNew).2 := by
  unfold Tables.findCacheID
  dsimp only
  split
  · exact h
  · split
    · exact h
    · exact h.beside rfl rfl rfl rfl

theorem recomputeAliasclient (a : Nat) : t.SameClients (t'.recomputeAliasclient a) := by
  refine h.modifyClient a fun head => ?_
  generalize List.range t'.numClients = l
  generalize hx : ({ head with count := 0, blockedcount := 0, overTime := fun _ => 0 } :
    ClientsData) = x
  have hlabel : x.label = head.label := by rw [← hx]; rfl
  clear hx
  induction l generalizing x with
  | nil => exact hlabel
  | cons i l ih =>
    refine ih _ ?_
    dsimp only
    split <;> exact hlabel

theorem memoriseStatus (cfg : Config) (query : QueriesData) (newStatus : QueryStatus) :
    t.SameClients (t'.memoriseStatus cfg query newStatus) := by
  unfold Tables.memoriseStatus
  split
  · cases query.cacheID with
    | some i => exact h.modifyCache i _
    | none =>
      have hk := h.findCacheID query.domainID query.clientID query.type true
      generalize t'.findCacheID query.domainID query.clientID query.type true = k at hk ⊢
      obtain ⟨cacheID,u⟩ := k
      cases cacheID with
      | none => exact hk
      | some i => exact hk.modifyCache i _
  · exact h

theorem countQuery (pk : Packet) (clientID : Nat) :
    t.SameClients (t'.countQuery pk clientID).2 := by
  unfold Tables.countQuery
  extract_lets timeidx d k a b c₀ c d₀
  have hk : t.SameClients k.2 := (h.findDomainID pk.domainString true).findCacheID _ _ _ _
  have ha : t.SameClients a := by
    unfold a
    cases k.1 with
    | none => exact hk
    | some i => exact hk.modifyCache i _
  have hc : t.SameClients c := (ha.changeClientcount clientID 0 0 (some timeidx) 1).setClient rfl
  exact hc.beside rfl rfl rfl rfl

theorem gcTables (query : QueriesData) : t.SameClients (t'.gcTables query) := by
  unfold Tables.gcTables
  extract_lets blocked timeidx a b c d
  have ha : t.SameClients a := by
    unfold a
    split
    · exact h.changeClientcount _ _ _ _ _
    · exact h
  have hb : t.SameClients b := ha.modifyDomain _ _
  have hc : t.SameClients c := by
    unfold c
    split
    · exact hb.modifyUpstream _ _
    · exact hb
  have hd : t.SameClients d := by
    unfold d
    split
    · exact hc.modifyCache _ _
    · exact hc
  split
  · exact hd.modifyDomain _ _
  · exact hd

theorem moveOverTimeMemory (mintime : Int) : t.SameClients (t'.moveOverTimeMemory mintime) := by
  have hslots : ∀ (n timeidx : Nat) (u : Tables), t.SameClients u →
      t.SameClients (u.initSlots timeidx n) := by
    intro n
    induction n with
    | zero => exact fun _ _ hu => hu
    | succ n ih =>
      intro timeidx u hu
      refine ih _ _ (hu.trans ⟨fun i => ?_,rfl,rfl,rfl⟩)
      simp only [Tables.initSlot]
      split <;> rfl
  unfold Tables.moveOverTimeMemory
  extract_lets should moveOverTime remainingSlots moved
  split
  · exact h
  · refine hslots _ _ _ (h.trans ⟨fun i => ?_,rfl,rfl,rfl⟩)
    dsimp only [moved]
    split <;> rfl

theorem recycleLoop {inUse : Tables → Nat → Option Bool} {wipe : Tables → Nat → Tables}
    (hw : ∀ u id, t.SameClients u → t.SameClients (wipe u id)) (lookup : List Nat) :
    t.SameClients (lookup.foldl (recycleRound inUse wipe) (t',[],0)).1 := by
  refine List.foldlRecOn lookup _
    (motive := fun acc : Tables × List Nat × Nat => t.SameClients acc.1) h ?_
  intro acc hacc id _
  unfold recycleRound
  split
  · exact hacc
  · exact hacc
  · exact hw _ _ hacc

theorem recycleDomains (now : ℚ) : t.SameClients (t'.recycleDomains now) := by
  unfold Tables.recycleDomains
  extract_lets inUse wipe r
  have hr : t.SameClients r.1 := by
    refine h.recycleLoop (fun u id hu => ?_) _
    exact hu.beside rfl rfl rfl rfl
  exact hr.beside rfl rfl rfl rfl

theorem recycleCache : t.SameClients t'.recycleCache := by
  unfold Tables.recycleCache
  extract_lets inUse wipe r
  have hr : t.SameClients r.1 := by
    refine h.recycleLoop (fun u id hu => ?_) _
    unfold wipe
    cases (u.cache id).cnameDomainID with
    | none => exact hu.beside rfl rfl rfl rfl
    | some c => exact (hu.modifyDomain c _).beside rfl rfl rfl rfl
  exact hr.beside rfl rfl rfl rfl

end

end Tables.SameClients

end

theorem CheckState.Moves.label {w : World} {g : Gravity} {c c' : CheckState}
    (h : CheckState.Moves w g c c') : c'.client.label = c.client.label := by
  induction h with
  | refl => rfl
  | @tail b d _ hmove ih =>
    rw [← ih]
    cases hmove with
    | resolve =>
      obtain ⟨hwaddr,hwlen,groups,heq⟩ := getClientGroupids_eq w g.db b.client
      unfold gravityDBPrepareClientStatements
      split
      · rfl
      split
      · rfl
      split
      · rfl
      · rw [heq]
        rfl
    | note hclient _ _ => rw [hclient]

theorem reloadPerClientRegex_label (w : World) (g : Gravity) (c : ClientsData) :
    (reloadPerClientRegex w g c).1.label = c.label := by
  obtain ⟨hwaddr,hwlen,groups,heq⟩ := getClientGroupids_eq w g.db c
  unfold reloadPerClientRegex
  split
  · rfl
  split
  · rfl
  split
  · rfl
  · rw [heq]
    rfl

/-- A store with the clients of `t` and the configuration `cfg`. -/
structure Store.Holds (s : Store) (t : Tables) (cfg : Config) : Prop where
  clients : t.SameClients s.t
  config : s.config = cfg

section

variable {t : Tables} {cfg : Config} {s s' : Store}

namespace Store.Holds

variable (h : s.Holds t cfg)
include h

theorem next (hc : t.SameClients s'.t) (hcfg : s'.config = s.config) : s'.Holds t cfg :=
  ⟨hc,hcfg.trans h.config⟩

theorem noteInterface (w : World) (clientID : Nat) (iface : List Char) :
    (s.noteInterface w clientID iface).Holds t cfg := by
  unfold Store.noteInterface
  extract_lets client c
  split
  · exact h
  split
  · exact h.next (h.clients.setClient rfl) rfl
  split
  · exact h
  · have hlabel : c.client.label = client.label := (CheckState.Moves.resolved _).label.trans rfl
    exact h.next ((h.clients.setClient (i := clientID) hlabel).beside rfl rfl rfl rfl) rfl

theorem noteIdentity (w : World) (pk : Packet) (clientID : Nat) (internal : Bool) :
    (s.noteIdentity w pk clientID internal).Holds t cfg := by
  unfold Store.noteIdentity
  extract_lets a
  have ha : a.Holds t cfg := by
    unfold a
    split
    · exact h
    · exact h.noteInterface w clientID pk.iface
  split
  · exact ha.next (ha.clients.setClient rfl) rfl
  · exact ha

theorem recordQuery (w : World) (pk : Packet) (clientID : Nat) (internal : Bool) :
    (s.recordQuery w pk clientID internal).2.Holds t cfg := by
  unfold Store.recordQuery
  split
  · exact h.next (h.clients.findDomainID _ _) rfl
  · extract_lets r a
    have ha : a.Holds t cfg := h.next (h.clients.countQuery pk clientID) rfl
    exact ha.noteIdentity w pk clientID internal

theorem querySetStatus (p : Nat) (st : QueryStatus) (init : Bool) :
    (s.querySetStatus p st init).Holds t cfg := by
  unfold Store.querySetStatus
  extract_lets query a timeidx b c
  split
  · exact h
  have ha : t.SameClients a := by
    unfold a
    split
    · exact h.clients
    · exact h.clients.memoriseStatus _ _ _
  have hb : t.SameClients b := by
    unfold b
    split
    · exact ha
    · exact ha.beside rfl rfl rfl rfl
  exact h.next (hb.beside rfl rfl rfl rfl) rfl

theorem handBackUpstream (p : Nat) : (s.handBackUpstream p).Holds t cfg := by
  refine h.next ?_ rfl
  dsimp only [Store.handBackUpstream,Store.modifyQuery]
  split
  · exact h.clients.modifyUpstream _ _
  · exact h.clients

theorem countBlocked (p : Nat) (domainID clientID : Option Nat) :
    (s.countBlocked p domainID clientID).Holds t cfg := by
  refine h.next ?_ rfl
  unfold Store.countBlocked
  extract_lets u v
  have hu : t.SameClients u := by
    unfold u
    split
    · exact h.clients.beside rfl rfl rfl rfl
    · exact h.clients
  have hv : t.SameClients v := by
    unfold v
    split
    · exact hu.changeClientcount _ _ _ _ _
    · exact hu
  exact hv

theorem queryBlocked (p : Nat) (domainID clientID : Option Nat) (st : QueryStatus) :
    (s.queryBlocked p domainID clientID st).Holds t cfg := by
  unfold Store.queryBlocked
  extract_lets query handBack a b
  split
  · exact h
  have ha : a.Holds t cfg := by
    unfold a
    split
    · exact h.handBackUpstream p
    · exact h
  have hb : b.Holds t cfg := by
    unfold b
    split
    · exact ha.countBlocked p domainID clientID
    · exact ha
  have hset := hb.querySetStatus p st false
  exact hset.next hset.clients rfl

theorem replayList (p clientID domainID cacheID : Nat) (st : QueryStatus) (reason : String)
    (regex cname : Bool) :
    (s.replayList p clientID domainID cacheID st reason regex cname).Holds t cfg := by
  unfold Store.replayList
  extract_lets d a b c
  have hb : b.Holds t cfg := by
    unfold b
    split <;> exact h.next h.clients rfl
  have hc : c.Holds t cfg := hb.queryBlocked p (some domainID) (some clientID) st
  split
  · refine hc.next ?_ rfl
    dsimp only [Store.noteCnameDomain,Store.modifyQuery]
    split
    · exact hc.clients.modifyDomain _ _
    · exact hc.clients
  · exact hc

section

variable (w : World)
include w

theorem checkRules (domainstr : List Char) (p clientID domainID cacheID : Nat) :
    (s.checkRules w domainstr p clientID domainID cacheID).2.Holds t cfg := by
  unfold Store.checkRules
  extract_lets r a
  have hlabel : r.2.client.label = (s.t.clients clientID).label :=
    (checkLists_moves s.config (s.q.mem p).type domainstr (s.loadCheck p clientID cacheID)).label
  have ha : a.Holds t cfg :=
    h.next ((h.clients.setClient (i := clientID) hlabel).beside rfl rfl rfl rfl) rfl
  split
  · exact ha.queryBlocked p (some domainID) (some clientID) r.1.status
  · exact ha

theorem answer (domainstr : List Char) (p clientID domainID cacheID : Nat) (st : QueryStatus) :
    (s.answer w domainstr p clientID domainID cacheID st).2.Holds t cfg := by
  have hforce : ∀ reason reply, (s.forceReply reason reply).Holds t cfg :=
    fun _ _ => h.next h.clients rfl
  unfold Store.answer
  extract_lets allowed d
  split
  · split
    · exact h
    · exact h.checkRules w domainstr p clientID domainID cacheID
  · rename_i reason regex cname _
    split
    · exact h
    · exact h.replayList p clientID domainID cacheID st reason regex cname
  · exact (hforce "special domain" d.forceReply).queryBlocked p (some domainID) (some clientID)
      .specialDomain
  · rename_i reason _ _
    exact (hforce reason d.forceReply).queryBlocked p (some domainID) (some clientID) st
  · split
    · exact h.next h.clients rfl
    · exact h

theorem checkBlocking (domainstr : List Char) (p : Nat) (clientID domainID cacheID : Option Nat) :
    (s.checkBlocking w domainstr p clientID domainID cacheID).2.Holds t cfg := by
  unfold Store.checkBlocking
  split
  · exact h
  split
  · rename_i c d k
    have hl : (s.lookUpEntry p c d k).2.Holds t cfg :=
      h.next (h.clients.beside rfl rfl rfl rfl) rfl
    exact hl.answer w domainstr p c d k _
  · exact h

theorem decideQuery (pk : Packet) (slot : Option Nat) (clientID domainID : Nat) :
    (s.decideQuery w pk slot clientID domainID).2.Holds t cfg := by
  cases slot with
  | none => exact h
  | some p =>
    have hr : ∀ r : Bool × Store, r.2.Holds t cfg → (r.2.markChanged p).Holds t cfg :=
      fun r hr => hr.next hr.clients rfl
    unfold Store.decideQuery
    refine hr _ ?_
    split
    · exact h.checkBlocking w _ _ _ _ _
    · exact h

theorem resumeQuery (pk : Packet) (clientID domainID : Nat) (hwaddr : Option (List Nat)) :
    (s.resumeQuery w pk clientID domainID hwaddr).2.Holds t cfg := by
  unfold Store.resumeQuery
  extract_lets a client client' b id
  have ha : a.Holds t cfg := h.next h.clients rfl
  have hclient : client'.label = client.label := by
    unfold client'
    split <;> rfl
  have hb : b.Holds t cfg := by
    unfold b
    split
    · exact ha.next (ha.clients.setClient hclient) rfl
    · exact ha
  exact hb.decideQuery w pk _ clientID domainID

end

theorem gcLoop (mintime : Int) (n i removed : Nat) :
    (s.gcLoop mintime n i removed).1.Holds t cfg := by
  induction n generalizing s i removed with
  | zero => exact h
  | succ n ih =>
    unfold gcLoop
    split
    · exact ih h (i+1) removed
    rename_i p _
    split
    · exact h
    have hq : (s.gcQuery p).Holds t cfg := by
      unfold gcQuery
      extract_lets query a
      have ha : a.Holds t cfg := h.next (h.clients.gcTables query) rfl
      exact ha.querySetStatus p .unknown false
    exact ih hq (i+1) (removed+1)

theorem gcRemove (mintime : Int) : (s.gcRemove mintime).1.Holds t cfg :=
  h.gcLoop mintime s.q.queries 0 0

end Store.Holds

end

section

variable {t t' : Tables}

def Tables.clientKey (t : Tables) (i : Nat) : Option (List Char) :=
  if (t.clients i).magic then some (t.clients i).ip else none

def Tables.Listed (t : Tables) : Prop :=
  Directory t.clientKey t.clientsLookup t.clientsRecycle t.numClients

theorem Tables.listed_empty : Tables.empty.Listed :=
  Directory.empty

theorem Tables.clientKey_eq_some {i : Nat} {ip : List Char} :
    t.clientKey i = some ip ↔ (t.clients i).magic = true ∧ (t.clients i).ip = ip := by
  unfold clientKey
  split <;> simp_all

theorem Tables.getClient_any_ip (t : Tables) (ip : List Char) (i : Nat) :
    (t.getClient i).any (fun c => decide (c.ip = ip)) = true ↔ t.clientKey i = some ip := by
  rw [clientKey_eq_some]
  unfold getClient
  split <;> simp_all

theorem Tables.SameClients.clientKey (h : t.SameClients t') (i : Nat) :
    t'.clientKey i = t.clientKey i := by
  unfold Tables.clientKey
  rw [h.magic,h.ip]

theorem Tables.SameClients.listed (h : t.SameClients t') (hl : t.Listed) : t'.Listed := by
  unfold Tables.Listed
  rw [h.lookup,h.recycle,h.num]
  exact hl.congr h.clientKey

theorem Tables.clientKey_setClient {i : Nat} {c : ClientsData}
    (hm : c.magic = (t.clients i).magic) (hip : c.ip = (t.clients i).ip) (j : Nat) :
    (t.setClient i c).clientKey j = t.clientKey j := by
  by_cases hj : j = i
  · simp [clientKey,setClient,hj,hm,hip]
  · simp [clientKey,setClient,hj]

theorem Tables.Listed.setClient (h : t.Listed) {i : Nat} {c : ClientsData}
    (hm : c.magic = (t.clients i).magic) (hip : c.ip = (t.clients i).ip) :
    (t.setClient i c).Listed :=
  h.congr (clientKey_setClient hm hip)

/-- What `recycle` drops: a client without a query that is no alias-client. -/
def ClientsData.idle (c : ClientsData) : Bool := !(c.count > 0 || c.flags.aliasclient)

/-- Between two rounds of the loop of `recycle` over the clients. -/
structure Tables.Recycles (t : Tables) (rest : List Nat) (acc : Tables × List Nat × Nat) : Prop where
  listed : Directory acc.1.clientKey (acc.2.1 ++ rest) acc.1.clientsRecycle acc.1.numClients
  whole : acc.2.2 = 0 → acc.2.1 ++ rest = t.clientsLookup
  client : ∀ i, acc.1.clients i = t.clients i ∨
    (t.clients i).idle = true ∧ acc.1.clients i = .wiped

theorem Tables.clientKey_wiped (t : Tables) (i : Nat) (u : Tables)
    (hu : u.clients = update t.clients i .wiped) : u.clientKey = update t.clientKey i none := by
  funext j
  unfold clientKey
  rw [hu]
  by_cases hj : j = i
  · simp [hj,ClientsData.wiped]
  · simp [hj]

theorem setNextRecycledID_cases (table : List Nat) (id : Nat) :
    setNextRecycledID table id = table ∨ setNextRecycledID table id = id :: table := by
  unfold setNextRecycledID
  split
  · exact .inl rfl
  · exact .inr rfl

theorem Tables.Recycles.round {id : Nat} {rest : List Nat} {acc : Tables × List Nat × Nat}
    (h : t.Recycles (id :: rest) acc) :
    t.Recycles rest (recycleRound clientInUse wipeClient acc id) := by
  have hkey := (h.listed.listed id).mp (by simp)
  have hm : (acc.1.clients id).magic = true := by
    by_contra hm
    exact hkey (by simp [clientKey,hm])
  simp only [recycleRound,clientInUse,getClient,hm,if_true,Option.map_some]
  have happ : acc.2.1 ++ [id] ++ rest = acc.2.1 ++ id :: rest := by simp
  cases huse : decide ((acc.1.clients id).count > 0) || (acc.1.clients id).flags.aliasclient with
  | true =>
    refine ⟨?_,fun h0 => ?_,h.client⟩
    · rw [happ]
      exact h.listed
    · rw [happ]
      exact h.whole h0
  | false =>
    refine ⟨?_,fun h0 => absurd h0 (Nat.succ_ne_zero _),fun i => ?_⟩
    · rw [clientKey_wiped acc.1 id _ rfl]
      exact h.listed.release (setNextRecycledID_cases _ _)
    dsimp only [wipeClient]
    by_cases hi : i = id
    · refine .inr ⟨?_,by simp [hi]⟩
      obtain hc | ⟨_,hc⟩ := h.client id
      · rw [hi,← hc,ClientsData.idle,huse]
        rfl
      · rw [hc] at hm
        simp [ClientsData.wiped] at hm
    · rw [update_of_ne hi]
      exact h.client i

theorem Tables.Listed.recycleClients (h : t.Listed) : t.recycleClients.Listed ∧
    ∀ i, t.recycleClients.clients i = t.clients i ∨
      (t.clients i).idle = true ∧ t.recycleClients.clients i = .wiped := by
  have hloop : ∀ (l : List Nat) (acc : Tables × List Nat × Nat), t.Recycles l acc →
      t.Recycles [] (l.foldl (recycleRound clientInUse wipeClient) acc) := by
    intro l
    induction l with
    | nil => exact fun _ h => h
    | cons id l ih => exact fun acc h => ih _ h.round
  have hend := hloop t.clientsLookup (t,[],0) ⟨h,fun _ => rfl,fun _ => .inl rfl⟩
  refine ⟨?_,hend.client⟩
  unfold Tables.recycleClients
  extract_lets r
  have hr : t.Recycles [] r := hend
  have hlisted := hr.listed
  rw [List.append_nil] at hlisted
  unfold Tables.Listed compactLookup
  split
  · exact hlisted
  have hwhole := hr.whole (by omega)
  rw [List.append_nil] at hwhole
  rw [hwhole,List.drop_length,List.append_nil,← hwhole]
  exact hlisted

/-- What `findClientID` does for an address: it counts on the client, or it makes one. -/
inductive Tables.Finds (t : Tables) (ip : List Char) : Nat × Tables → Prop where
  | known {i : Nat} (hkey : t.clientKey i = some ip) :
      Tables.Finds t ip (i,t.changeClientcount i 1 0 none 0)
  | made {i : Nat} {t' : Tables} (hno : ∀ j, t.clientKey j ≠ some ip) (hl : t'.Listed)
      (hunused : t.clientKey i = none) (hi : (t'.clients i).label = (true,ip,[],0,false))
      (hother : ∀ j, j ≠ i → (t'.clients j).label = (t.clients j).label) :
      Tables.Finds t ip (i,t')

theorem getNextFreeID_next (table : List Nat) (fresh : Nat) :
    Directory.Next table fresh (getNextFreeID table fresh).1 (getNextFreeID table fresh).2 := by
  cases table with
  | nil => exact .fresh rfl
  | cons i rest => exact .again rfl

theorem Tables.Listed.findClientID (h : t.Listed) (w : World) (g : Gravity)
    (managedBy : Option Nat) (ip : List Char) (now : ℚ) :
    t.Finds ip (t.findClientID w g managedBy ip now) := by
  have hp := t.getClient_any_ip ip
  unfold Tables.findClientID
  split
  · rename_i hf
    exact .known (Directory.key_of_find? hp hf)
  rename_i hf
  have hno := h.no_key_of_find? hp hf
  have hnext := getNextFreeID_next t.clientsRecycle t.numClients
  have hunused := h.unused hnext
  have htake := h.take hnext hno
  generalize getNextFreeID t.clientsRecycle t.numClients = n at *
  obtain ⟨i,rest⟩ := n
  dsimp -zeta only at *
  extract_lets r client u
  have hlabel : (u.clients i).label = (true,ip,[],0,false) := by
    have hr := reloadPerClientRegex_label w g (newClient i ip now)
    simp only [u,update_self]
    exact hr
  have hother : ∀ j, j ≠ i → (u.clients j).label = (t.clients j).label := by
    intro j hj
    simp [u,hj]
  have hkey : u.clientKey = update t.clientKey i (some ip) := by
    funext j
    by_cases hj : j = i
    · rw [hj,update_self,Tables.clientKey_eq_some]
      exact ⟨congrArg Prod.fst hlabel,congrArg (fun l => l.2.1) hlabel⟩
    · simp [Tables.clientKey,u,hj]
  have hu : u.Listed := by
    unfold Tables.Listed
    rw [hkey]
    exact htake
  cases managedBy with
  | none => exact .made hno hu hunused hlabel hother
  | some a =>
    have hsame := (Tables.SameClients.refl u).recomputeAliasclient a
    refine .made hno (hsame.listed hu) hunused ((hsame.label i).trans hlabel) fun j hj => ?_
    exact (hsame.label j).trans (hother j hj)

end

end Lorentz
