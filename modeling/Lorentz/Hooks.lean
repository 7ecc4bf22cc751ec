import Lorentz.Store

/-!
The decision whether a query is blocked, on a `CheckState` loaded from the shared memory and
stored back; `_Lorentz_new_query` in its two sections, the other hooks that dnsmasq calls, and the
reload of the lists.
-/

set_option autoImplicit false

namespace Lorentz
open Function

def inZone (zone domain : List Char) : Bool :=
  domain = zone || ('.' :: zone).isSuffixOf domain

def specialDomain (cfg : Config) (type : QueryType) (domain : List Char) (st : Statics) :
    Option Statics :=
  if cfg.mozillaCanary && domain = "use-application-dns.net".toList &&
      (type = .a || type = .aaaa) then
    some { st with blockingreason := "Mozilla canary domain", forceNextDNSReply := .nxdomain }
  else if cfg.iCloudPrivateRelay &&
      (domain = "mask.icloud.com".toList || domain = "mask-h2.icloud.com".toList) then
    some { st with
      blockingreason := "Apple iCloud Private Relay domain", forceNextDNSReply := .nxdomain }
  else if cfg.designatedResolver && inZone "resolver.arpa".toList domain then
    some { st with blockingreason := "Designated Resolver domain", forceNextDNSReply := .nodata }
  else none

/-- What `check_domain_blocked` returns: whether to block, and what it writes through pointers. -/
structure Verdict where
  blocked : Bool
  status : QueryStatus
  dbOkay : Bool
  deriving DecidableEq, Repr

def busyVerdict (cfg : Config) (v : Verdict) (c : CheckState) : Verdict × CheckState :=
  match cfg.replyWhenBusy with
  | .allow => ({ v with blocked := false, dbOkay := false },c)
  | .refuse => (⟨true,.dbbusy,false⟩,{ c with statics := { c.statics with
      blockingreason := "to be refused (gravity database is not available)"
      forceNextDNSReply := .refused } })
  | .drop => (⟨true,.dbbusy,false⟩,{ c with statics := { c.statics with
      blockingreason := "to be dropped (gravity database is not available)"
      forceNextDNSReply := .none } })
  | .block => (⟨true,.dbbusy,false⟩,{ c with statics := { c.statics with
      blockingreason := "to be blocked (gravity database is not available)" } })

def checkRegex (w : World) (g : Gravity) (domain : List Char) (v : Verdict) (c : CheckState) :
    Verdict × CheckState :=
  let r := inRegex w g .deny domain c
  if r.1 then
    let c := r.2
    ({ v with blocked := true, status := .regex },{ c with statics := { c.statics with
      blockingreason := "regex denied"
      forceNextDNSReply := if c.cache.forceReply ≠ .unknown then c.cache.forceReply
        else c.statics.forceNextDNSReply
      cnameTarget := c.cache.cnameTarget
      lastRegexIdx := c.cache.listID } })
  else ({ v with blocked := false },r.2)

/-- `check_domain_blocked`. `v` holds the values of `*new_status` and `*db_okay`. -/
def checkDomainBlocked (w : World) (g : Gravity) (cfg : Config) (domain : List Char)
    (v : Verdict) (c : CheckState) : Verdict × CheckState :=
  if c.allowed then ({ v with blocked := false },c)
  else
    let deny := inDenylist w g domain c
    if deny.1 = .found then
      ({ v with blocked := true, status := .denylist },{ deny.2 with statics :=
        { deny.2.statics with blockingreason := "exactly denied" } })
    else
      let anti := inGravity w g true domain (-1) deny.2
      if anti.1 = .found then
        ({ v with blocked := false },{ anti.2.2 with
          cache := { anti.2.2.cache with listID := -(anti.2.1+2) }
          allowed := true })
      else
        let grav := inGravity w g false domain anti.2.1 anti.2.2
        if grav.1 = .found then
          ({ v with blocked := true, status := .gravity },{ grav.2.2 with
            cache := { grav.2.2.cache with listID := -(grav.2.1+2) }
            statics := { grav.2.2.statics with blockingreason := "gravity blocked" } })
        else if deny.1 = .listNotAvailable ∨ anti.1 = .listNotAvailable ∨
            grav.1 = .listNotAvailable then
          busyVerdict cfg v grav.2.2
        else checkRegex w g domain v grav.2.2

def esniName (domain : List Char) : Option (List Char) :=
  if "_esni.".toList.isPrefixOf domain && domain.drop 6 ≠ [] then some (domain.drop 6) else none

def checkEsni (w : World) (g : Gravity) (cfg : Config) (domain : List Char)
    (r : Verdict × CheckState) : Verdict × CheckState :=
  match if cfg.blockESNI && !r.2.allowed && !r.1.blocked then esniName domain else none with
  | none => r
  | some d =>
    let r := checkDomainBlocked w g cfg d r.1 r.2
    let c := { r.2 with statics := { r.2.statics with cacheStatus := r.2.cache.blockingStatus } }
    if r.1.blocked then
      (r.1,{ c with
        statics := { c.statics with forceNextDNSReply := .nxdomain }
        cache := if r.1.dbOkay then { c.cache with forceReply := .nxdomain } else c.cache })
    else (r.1,c)

/-- `Lorentz_check_blocking` behind the cached answers: what the lists say about a query not yet
allowed. -/
def checkLists (w : World) (g : Gravity) (cfg : Config) (type : QueryType)
    (domain : List Char) (c : CheckState) : Verdict × CheckState :=
  let allow := inAllowlist w g domain c
  let c := { allow.2 with allowed := allow.1 = .found }
  let c := if c.allowed then c
    else
      let r := inRegex w g .allow domain c
      { r.2 with allowed := r.1 }
  match if c.allowed then none else specialDomain cfg type domain c.statics with
  | some st =>
    (⟨true,.specialDomain,true⟩,{ c with
      statics := { st with cacheStatus := .specialDomain }
      cache := { c.cache with
        blockingStatus := .specialDomain
        forceReply := st.forceNextDNSReply } })
  | none =>
    let r := checkEsni w g cfg domain (checkDomainBlocked w g cfg domain ⟨false,.unknown,true⟩ c)
    if !r.1.blocked && r.1.dbOkay then
      (r.1,{ r.2 with cache := { r.2.cache with allowed := r.2.allowed } })
    else r

def Store.loadCheck (s : Store) (p clientID cacheID : Nat) : CheckState :=
  { client := s.t.clients clientID
    row := s.t.regexRow clientID
    cache := s.t.cache cacheID
    allowed := (s.q.mem p).flags.allowed
    statics := s.statics
    tick := 0 }

def Store.storeCheck (s : Store) (p clientID cacheID : Nat) (c : CheckState) : Store :=
  { s with
    t := { s.t with
      clients := update s.t.clients clientID c.client
      regexRow := update s.t.regexRow clientID c.row
      cache := update s.t.cache cacheID c.cache }
    q := s.q.setQuery p { s.q.mem p with flags := { (s.q.mem p).flags with allowed := c.allowed } }
    statics := c.statics }

def Store.checkRules (w : World) (s : Store) (domainstr : List Char)
    (p clientID domainID cacheID : Nat) : Bool × Store :=
  let r := checkLists w s.gravity s.config (s.q.mem p).type domainstr
    (s.loadCheck p clientID cacheID)
  let s := s.storeCheck p clientID cacheID r.2
  if r.1.blocked then (true,s.queryBlocked p (some domainID) (some clientID) r.1.status)
  else (false,s)

def DNSCacheData.expire (d : DNSCacheData) (cfg : Config) (timestamp : ℚ) : DNSCacheData :=
  if (d.expires > 0 ∧ absToShmTime (timeT timestamp) > d.expires) ∨ cfg.upstreamBlockedTTL = 0 then
    { d with blockingStatus := .unknown, allowed := false, expires := 0, listID := -1 }
  else d

/-- The kinds of answers a cache record can hold, with the reason logged for them. -/
inductive Remembered where
  | nothing
  | list (reason : String) (regex cname : Bool)
  | special
  | upstream (reason : String) (shortcircuit : Bool)
  | notBlocked
  deriving DecidableEq, Repr

def remembered : QueryStatus → Remembered
  | .unknown => .nothing
  | .denylist => .list "exactly denied" false false
  | .denylistCNAME => .list "exactly denied (CNAME)" false true
  | .gravity => .list "gravity blocked" false false
  | .gravityCNAME => .list "gravity blocked (CNAME)" false true
  | .regex => .list "regex denied" true false
  | .regexCNAME => .list "regex denied (CNAME)" true true
  | .specialDomain => .special
  | .externalBlockedIP => .upstream "blocked upstream with known address" false
  | .externalBlockedNULL => .upstream "blocked upstream with NULL address" true
  | .externalBlockedEDE15 => .upstream "blocked upstream with EDE15" true
  | .externalBlockedNXRA => .upstream "blocked upstream with NXRA address" true
  | .cache | .forwarded | .retried | .retriedDNSSEC | .inProgress | .dbbusy | .cacheStale =>
    .notBlocked

def Store.noteCnameDomain (s : Store) (p : Nat) (cname : Option Nat) : Store :=
  let t := match cname with
    | some d => s.t.modifyDomain d (fun x => { x with cnameRefcount := x.cnameRefcount+1 })
    | none => s.t
  ({ s with t := t } : Store).modifyQuery p (fun x => { x with cnameDomainID := cname })

def Store.forceReply (s : Store) (reason : String) (reply : ReplyType) : Store :=
  { s with statics := { s.statics with blockingreason := reason, forceNextDNSReply := reply } }

def Store.forceTarget (s : Store) (d : DNSCacheData) : Store :=
  { s with statics := { s.statics with cnameTarget := d.cnameTarget, lastRegexIdx := d.listID } }

def Store.replayList (s : Store) (p clientID domainID cacheID : Nat) (st : QueryStatus)
    (reason : String) (regex cname : Bool) : Store :=
  let d := s.t.cache cacheID
  let s := s.forceReply reason d.forceReply
  let s := if regex then s.forceTarget d else s
  let s := s.queryBlocked p (some domainID) (some clientID) st
  if cname then s.noteCnameDomain p d.cnameDomainID else s

def Store.answer (w : World) (s : Store) (domainstr : List Char)
    (p clientID domainID cacheID : Nat) (st : QueryStatus) : Bool × Store :=
  let allowed := (s.q.mem p).flags.allowed
  let d := s.t.cache cacheID
  match remembered st with
  | .nothing =>
    if allowed then (false,s) else s.checkRules w domainstr p clientID domainID cacheID
  | .list reason regex cname =>
    if allowed then (false,s)
    else (true,s.replayList p clientID domainID cacheID st reason regex cname)
  | .special =>
    (true,(s.forceReply "special domain" d.forceReply).queryBlocked p
      (some domainID) (some clientID) .specialDomain)
  | .upstream reason shortcircuit =>
    (shortcircuit,(s.forceReply reason d.forceReply).queryBlocked p
      (some domainID) (some clientID) st)
  | .notBlocked =>
    (false,if d.allowed then
        s.modifyQuery p (fun x => { x with flags := { x.flags with allowed := true } })
      else s)

def Store.lookUpEntry (s : Store) (p clientID domainID cacheID : Nat) : QueryStatus × Store :=
  let query := s.q.mem p
  let entry := (s.t.cache cacheID).expire s.config query.timestamp
  let applies := query.clientID = (s.t.clients clientID).id ∧
    query.domainID = (s.t.domains domainID).id
  let st := if applies then entry.blockingStatus else .unknown
  (st,{ s with
    t := s.t.setCache cacheID entry
    statics := { s.statics with cacheStatus := st } })

/-- `Lorentz_check_blocking`. A pointer that may be NULL is an optional index. -/
def Store.checkBlocking (w : World) (s : Store) (domainstr : List Char) (p : Nat)
    (clientID domainID cacheID : Option Nat) : Bool × Store :=
  if s.config.blocking = .disabled then (false,s)
  else match clientID,domainID,cacheID with
    | some c,some d,some k =>
      let r := s.lookUpEntry p c d k
      r.2.answer w domainstr p c d k r.1
    | _,_,_ => (false,s)

open Relation CheckState

structure DNSCacheData.Noted (d d' : DNSCacheData) : Prop where
  magic : d'.magic = d.magic
  domainID : d'.domainID = d.domainID
  clientID : d'.clientID = d.clientID
  cnameDomainID : d'.cnameDomainID = d.cnameDomainID
  refcount : d'.refcount = d.refcount
  expires : d'.expires = d.expires
  queryType : d'.queryType = d.queryType
  status : d'.blockingStatus = d.blockingStatus ∨ d'.blockingStatus = .specialDomain

theorem DNSCacheData.Noted.refl (d : DNSCacheData) : d.Noted d :=
  ⟨rfl,rfl,rfl,rfl,rfl,rfl,rfl,.inl rfl⟩

inductive CheckState.Move (w : World) (g : Gravity) (c : CheckState) : CheckState → Prop where
  | resolve : Move w g c (gravityDBPrepareClientStatements w g c).2
  | note {c' : CheckState} (hclient : c'.client = c.client) (hrow : c'.row = c.row)
      (hcache : c.cache.Noted c'.cache) : Move w g c c'

abbrev CheckState.Moves (w : World) (g : Gravity) : CheckState → CheckState → Prop :=
  ReflTransGen (CheckState.Move w g)

section

variable {w : World} {g : Gravity}

variable (cfg : Config) (domain : List Char) (v : Verdict) (c : CheckState)

theorem CheckState.Moves.resolved :
    Moves w g c (gravityDBPrepareClientStatements w g c).2 :=
  .single .resolve

theorem CheckState.Moves.beside {c c' c'' : CheckState} (h : Moves w g c c')
    (hclient : c''.client = c'.client) (hrow : c''.row = c'.row) (hcache : c''.cache = c'.cache) :
    Moves w g c c'' :=
  h.tail (.note hclient hrow (by rw [hcache]; exact .refl _))

theorem CheckState.Moves.noted {c c' c'' : CheckState} (h : Moves w g c c')
    (hclient : c''.client = c'.client) (hrow : c''.row = c'.row)
    (hcache : c'.cache.Noted c''.cache) : Moves w g c c'' :=
  h.tail (.note hclient hrow hcache)

theorem inExactList_moves (present : Bool) (view : List ViewRow) (domain : List Char)
    (c : CheckState) : Moves w g c (inExactList w g present view domain c).2 := by
  have hp : Moves w g c (gravityDBPrepareClientStatements w g c).2 := .resolved c
  unfold inExactList
  split
  · exact .refl
  split
  · exact .refl
  simp only
  split
  · exact hp
  · split
    · exact hp
    · exact hp.noted rfl rfl ⟨rfl,rfl,rfl,rfl,rfl,rfl,rfl,.inl rfl⟩

theorem inGravity_moves (antigravity : Bool) (domain : List Char) (listID : Int)
    (c : CheckState) : Moves w g c (inGravity w g antigravity domain listID c).2.2 := by
  have hp : Moves w g c (gravityDBPrepareClientStatements w g c).2 := .resolved c
  unfold inGravity
  split
  · exact .refl
  split
  · exact .refl
  simp only
  split
  · exact hp
  split
  · exact hp
  · split
    · exact hp.beside rfl rfl rfl
    · split <;> exact hp.beside rfl rfl rfl

theorem DNSCacheData.noted_noteRegex (d : DNSCacheData) (r : RegexData) : d.Noted (d.noteRegex r) :=
  ⟨rfl,rfl,rfl,rfl,rfl,rfl,rfl,.inl rfl⟩

theorem inRegex_moves (type : RegexType) (domain : List Char) (c : CheckState) :
    Moves w g c (inRegex w g type domain c).2 := by
  unfold inRegex
  split
  · rename_i r _
    exact ReflTransGen.refl.tail (.note rfl rfl (c.cache.noted_noteRegex r))
  · exact .refl

theorem busyVerdict_moves : Moves w g c (busyVerdict cfg v c).2 := by
  unfold busyVerdict
  cases cfg.replyWhenBusy with
  | allow => exact .refl
  | _ => exact ReflTransGen.refl.tail (.note rfl rfl (.refl _))

theorem checkRegex_moves : Moves w g c (checkRegex w g domain v c).2 := by
  have hr : Moves w g c (inRegex w g .deny domain c).2 := inRegex_moves .deny domain c
  unfold checkRegex
  simp only
  split
  · exact hr.beside rfl rfl rfl
  · exact hr

theorem checkDomainBlocked_moves :
    Moves w g c (checkDomainBlocked w g cfg domain v c).2 := by
  unfold checkDomainBlocked
  split
  · exact .refl
  have hdeny : Moves w g c (inDenylist w g domain c).2 := inExactList_moves _ _ domain c
  simp only
  generalize inDenylist w g domain c = deny at *
  split
  · exact hdeny.beside rfl rfl rfl
  have hanti : Moves w g c (inGravity w g true domain (-1) deny.2).2.2 :=
    hdeny.trans (inGravity_moves true domain (-1) deny.2)
  generalize inGravity w g true domain (-1) deny.2 = anti at *
  split
  · exact hanti.noted rfl rfl ⟨rfl,rfl,rfl,rfl,rfl,rfl,rfl,.inl rfl⟩
  have hgrav : Moves w g c (inGravity w g false domain anti.2.1 anti.2.2).2.2 :=
    hanti.trans (inGravity_moves false domain anti.2.1 anti.2.2)
  generalize inGravity w g false domain anti.2.1 anti.2.2 = grav at *
  split
  · exact hgrav.noted rfl rfl ⟨rfl,rfl,rfl,rfl,rfl,rfl,rfl,.inl rfl⟩
  · split
    · exact hgrav.trans (busyVerdict_moves cfg v grav.2.2)
    · exact hgrav.trans (checkRegex_moves domain v grav.2.2)

theorem checkEsni_moves (r : Verdict × CheckState) :
    Moves w g r.2 (checkEsni w g cfg domain r).2 := by
  unfold checkEsni
  split
  · exact .refl
  rename_i d _
  have hb := checkDomainBlocked_moves (w := w) (g := g) cfg d r.1 r.2
  simp only
  generalize checkDomainBlocked w g cfg d r.1 r.2 = b at *
  split
  · refine hb.noted rfl rfl ?_
    split
    · exact ⟨rfl,rfl,rfl,rfl,rfl,rfl,rfl,.inl rfl⟩
    · exact .refl _
  · exact hb.beside rfl rfl rfl

theorem checkLists_moves (type : QueryType) (domain : List Char) (c : CheckState) :
    Moves w g c (checkLists w g cfg type domain c).2 := by
  unfold checkLists
  extract_lets allow a c₁ r b c₂ d e
  have h₁ : Moves w g c c₁ :=
    (inExactList_moves (w := w) (g := g) _ _ domain c).beside rfl rfl rfl
  have h₂ : Moves w g c c₂ := by
    unfold c₂
    split
    · exact h₁
    · have hr : Moves w g c (inRegex w g .allow domain c₁).2 :=
        h₁.trans (inRegex_moves .allow domain c₁)
      exact hr.beside rfl rfl rfl
  split
  · exact h₂.noted rfl rfl ⟨rfl,rfl,rfl,rfl,rfl,rfl,rfl,.inr rfl⟩
  have he : Moves w g c e.2 :=
    (h₂.trans (checkDomainBlocked_moves cfg domain ⟨false,.unknown,true⟩ c₂)).trans
      (checkEsni_moves cfg domain _)
  split
  · exact he.noted rfl rfl ⟨rfl,rfl,rfl,rfl,rfl,rfl,rfl,.inl rfl⟩
  · exact he

theorem getClientGroupids_eq (w : World) (db : GravityDb) (c : ClientsData) :
    ∃ hwaddr hwlen groups, getClientGroupids w db c = { c with
      hwaddr := hwaddr, hwlen := hwlen, groups := groups
      flags := { c.flags with foundGroup := true } } := by
  have hhw : ∃ hwaddr hwlen, (clientHwaddr w c).2 = { c with hwaddr := hwaddr, hwlen := hwlen } := by
    unfold clientHwaddr
    repeat' split
    all_goals exact ⟨_,_,rfl⟩
  have hm : ∃ hwaddr hwlen, (chosenMatch w db c).2 = { c with hwaddr := hwaddr, hwlen := hwlen } := by
    unfold chosenMatch
    split
    · exact ⟨_,_,rfl⟩
    · cases w.macNames with
      | true => exact hhw
      | false => exact ⟨_,_,rfl⟩
  obtain ⟨hwaddr,hwlen,hm⟩ := hm
  unfold getClientGroupids
  dsimp only
  rw [hm]
  exact ⟨_,_,_,rfl⟩

end

open Function Counting

structure Packet where
  name : List Char
  localName : Bool
  qtype : Nat
  id : Int
  addr : Option (List Char)
  ecsClient : Option (List Char)
  ednsMac : Option (List Nat)
  iface : List Char
  replyWithIP : Bool
  managedBy : Option Nat
  timestamp : ℚ

/-- A query of the client with address `ip` for an IPv4 address. -/
def Packet.of (ip name : String) (id : Int) (timestamp : ℚ) : Packet :=
  ⟨name.toList,false,1,id,some ip.toList,none,none,"eth0".toList,false,none,timestamp⟩

def Packet.type (pk : Packet) : QueryType := queryTypeOfWire pk.qtype

def Packet.domainString (pk : Packet) : List Char := (lower pk.name).take (MAXDOMAINLEN-1)

def Packet.client (pk : Packet) (cfg : Config) : List Char × Bool :=
  match if cfg.edns0ECS then pk.ecsClient else none with
  | some ip => (ip,false)
  | none => match pk.addr with
    | some ip => (ip,false)
    | none => ("::".toList,true)

def Statics.localReply (st : Statics) (pk : Packet) : Bool × Statics :=
  if pk.type = .a ∨ pk.type = .aaaa ∨ pk.type = .any then
    (true,{ st with
      forceNextDNSReply := if pk.replyWithIP then .ip else .nodata
      blockingreason := "Lorentz hostname"
      cacheStatus := .cache })
  else (false,st)

def newQueriesData (pk : Packet) (cfg : Config) (clientID domainID : Nat) (cacheID : Option Nat) :
    QueriesData where
  magic := true
  timestamp := pk.timestamp
  response := pk.timestamp
  db := none
  domainID := domainID
  clientID := clientID
  upstreamID := none
  cacheID := cacheID
  id := if pk.id < 0 then -pk.id else pk.id
  cnameDomainID := none
  ede := -1
  qtype := pk.qtype
  status := .unknown
  type := pk.type
  privacylevel := cfg.privacylevel
  reply := .unknown
  dnssec := .unknown
  flags := ⟨false,false,false,false,false,true,false⟩

def QueryStore.append (q : QueryStore) (p : Nat) (x : QueriesData) : QueryStore :=
  { q.insertID x.id q.queries with
    mem := update q.mem p x
    querytype := increment q.querytype x.type
    status := increment q.status x.status
    reply := increment q.reply x.reply
    queries := (q.queries+1) % uintMod }

def gravityDBReloadGroups (w : World) (g : Gravity) (c : CheckState) : CheckState :=
  (gravityDBPrepareClientStatements w g { c with
    client := { c.client with flags := { c.client.flags with foundGroup := false } } }).2

def Store.noteInterface (w : World) (s : Store) (clientID : Nat) (iface : List Char) : Store :=
  let client := s.t.clients clientID
  if iface.length < 2 then s
  else if client.iface = [] then
    { s with t := s.t.setClient clientID { client with iface := iface } }
  else if lower client.iface = lower iface then s
  else
    let c := gravityDBReloadGroups w s.gravity
      ⟨{ client with iface := iface },s.t.regexRow clientID,.wiped,false,s.statics,0⟩
    { s with t := { s.t.setClient clientID c.client with
        regexRow := update s.t.regexRow clientID c.row } }

/-- A hardware address that became known or changed clears `found_group`. -/
def ClientsData.noteHwaddr (c : ClientsData) (hwaddr : List Nat) : ClientsData :=
  { c with
    flags := { c.flags with
      foundGroup := if c.hwlen ≠ 6 ∨ c.hwaddr ≠ hwaddr then false else c.flags.foundGroup }
    hwaddr := hwaddr
    hwlen := 6 }

def Store.noteIdentity (w : World) (s : Store) (pk : Packet) (clientID : Nat) (internal : Bool) :
    Store :=
  let s := if internal then s else s.noteInterface w clientID pk.iface
  match if s.config.edns0ECS then pk.ednsMac else none with
  | some hw => { s with t := s.t.setClient clientID ((s.t.clients clientID).noteHwaddr hw) }
  | none => s

inductive Registered where
  | finished (answered : Bool)
  | query (clientID domainID slot : Nat)
  deriving DecidableEq, Repr

/-- The rate limit: whether the client is over it, and the client with the query
counted. -/
def ClientsData.limitRate (c : ClientsData) (limit : Nat) (internal : Bool) :
    Bool × ClientsData :=
  let counted := !internal && limit > 0
  let rate := if counted then (c.rateLimit+1) % uintMod else c.rateLimit
  if counted && (rate > limit || c.flags.rateLimited) then
    (true,{ c with
      rateLimit := if c.flags.rateLimited then rate else 0
      flags := { c.flags with rateLimited := true } })
  else (false,{ c with rateLimit := rate })

/-- The tables after counting a query of the client, with the IDs of its domain and cache record.
-/
def Tables.countQuery (t : Tables) (pk : Packet) (clientID : Nat) :
    (Nat × Option Nat) × Tables :=
  let timeidx := t.getOverTimeID (timeT pk.timestamp)
  let d := t.findDomainID pk.domainString true
  let k := d.2.findCacheID d.1 clientID pk.type true
  let t := match k.1 with
    | some k' => k.2.modifyCache k' (fun x => { x with refcount := x.refcount+1 })
    | none => k.2
  let t := t.changeClientcount clientID 0 0 (some timeidx) 1
  let t := t.setClient clientID { t.clients clientID with
    lastQuery := pk.timestamp, numQueriesARP := (t.clients clientID).numQueriesARP+1 }
  ((d.1,k.1),t.setDomain d.1 { t.domains d.1 with lastQuery := pk.timestamp })

def Store.recordQuery (w : World) (s : Store) (pk : Packet) (clientID : Nat) (internal : Bool) :
    Registered × Store :=
  match s.q.getQuery s.q.queries false with
  | none => (.finished false,{ s with t := (s.t.findDomainID pk.domainString true).2 })
  | some p =>
    let r := s.t.countQuery pk clientID
    let s : Store := { s with
      q := s.q.append p (newQueriesData pk s.config clientID r.1.1 r.1.2)
      t := r.2 }
    (.query clientID r.1.1 p,s.noteIdentity w pk clientID internal)

def Store.registerLocked (w : World) (s : Store) (pk : Packet) : Registered × Store :=
  let internal := (pk.client s.config).2
  let c := s.t.findClientID w s.gravity pk.managedBy (pk.client s.config).1 pk.timestamp
  let limited := (c.2.clients c.1).limitRate s.config.rateLimitCount internal
  let t := c.2.setClient c.1 limited.2
  if limited.1 then
    (.finished true,{ s with
      t := t.changeClientcount c.1 (-1) 0 none 0
      statics := { s.statics with
        forceNextDNSReply := .refused, blockingreason := "Rate-limiting" } })
  else if s.config.analyzeOnlyAandAAAA && pk.type ≠ .a && pk.type ≠ .aaaa then
    (.finished false,{ s with t := t.changeClientcount c.1 (-1) 0 none 0 })
  else ({ s with t := t } : Store).recordQuery w pk c.1 internal

def Store.registerQuery (w : World) (s : Store) (pk : Packet) : Registered × Store :=
  if pk.type ≠ .none ∧ pk.localName = true then
    let r := s.statics.localReply pk
    (.finished r.1,{ s with statics := r.2 })
  else
    let ip := (pk.client s.config).1
    if s.config.ignoreLocalhost = true ∧ (ip = "127.0.0.1".toList ∨ ip = "::1".toList) then
      (.finished false,s)
    else s.lockShm.registerLocked w pk

def Store.decideQuery (w : World) (s : Store) (pk : Packet) (slot : Option Nat)
    (clientID domainID : Nat) : Bool × Store :=
  match slot with
  | none => (false,s)
  | some p =>
    let r :=
      if (pk.client s.config).2 = false ∧ pk.type ≠ .none then
        s.checkBlocking w pk.domainString p
          (if (s.t.clients clientID).magic then some clientID else none)
          (if (s.t.domains domainID).magic then some domainID else none)
          (((s.q.mem p).cacheID).filter (fun k => (s.t.cache k).magic))
      else (false,s)
    (r.1,r.2.markChanged p)

/-- The second section for a client whose hardware address was asked for, which looks the query up
by its id. -/
def Store.resumeQuery (w : World) (s : Store) (pk : Packet) (clientID domainID : Nat)
    (hwaddr : Option (List Nat)) : Bool × Store :=
  let s := s.lockShm
  let client := s.t.clients clientID
  let client := match hwaddr with
    | some hw => client.noteHwaddr hw
    | none => { client with hwaddr := [], hwlen := 0 }
  let s : Store := if (s.t.clients clientID).magic then
      { s with t := s.t.setClient clientID client } else s
  let id := if pk.id < 0 then -pk.id else pk.id
  s.decideQuery w pk ((s.q.findQueryID id).bind (fun i => s.q.getQuery i true)) clientID domainID

/-- `_Lorentz_new_query` without releasing the lock in between. -/
def Store.newQuery (w : World) (s : Store) (pk : Packet) : Bool × Store :=
  match s.registerQuery w pk with
  | (.finished answered,s) => (answered,s)
  | (.query clientID domainID slot,s) => s.decideQuery w pk (some slot) clientID domainID

def Store.moveUpstream (s : Store) (p upstreamID : Nat) (now : ℚ) : Store :=
  let query := s.q.mem p
  let t := match query.flags.upstreamCounted,query.upstreamID with
    | true,some u => s.t.modifyUpstream u (fun x => { x with count := x.count-1 })
    | _,_ => s.t
  let counted := (t.getUpstream upstreamID).isSome
  let t := t.modifyUpstream upstreamID (fun x => { x with count := x.count+1, lastQuery := now })
  ({ s with t := t } : Store).modifyQuery p (fun x => { x with
    upstreamID := some upstreamID
    flags := { x.flags with upstreamCounted := counted } })

/-- A cached answer that has to be forwarded after all gets its timer back; any other query is
complete. -/
def QueriesData.forward (x : QueriesData) (now : ℚ) : QueriesData :=
  if x.status = .cache then
    if x.flags.responseCalculated then
      { x with response := now-x.response, flags := { x.flags with responseCalculated := false } }
    else x
  else { x with flags := { x.flags with complete := true } }

def Store.forwardQuery (ip : List Char) (port : Nat) (now : ℚ) (s : Store) (p : Nat) : Store :=
  if (s.q.mem p).flags.complete then s
  else
    let (upstreamID,t) := s.t.findUpstreamID ip port
    let s := ({ s with t := t } : Store).moveUpstream p upstreamID now
    let s := s.modifyQuery p (fun x => x.forward now)
    (s.querySetStatus p .forwarded false).markChanged p

def Store.forwarded (s : Store) (ip : List Char) (port : Nat) (id : Int) (now : ℚ) : Store :=
  s.atQuery id (Store.forwardQuery ip port now)

/-- The cache record `k` takes over the reference to the blocked domain of the chain. -/
def Tables.moveCnameReference (t : Tables) (k child : Nat) : Tables :=
  let d := t.cache k
  if d.cnameDomainID = some child then t
  else
    let t := match d.cnameDomainID with
      | some old => t.modifyDomain old (fun x => { x with cnameRefcount := x.cnameRefcount-1 })
      | none => t
    let t := t.setCache k { t.cache k with cnameDomainID := some child }
    t.modifyDomain child (fun x => { x with cnameRefcount := x.cnameRefcount+1 })

def cnameStatus : QueryStatus → QueryStatus
  | .gravity => .gravityCNAME
  | .regex => .regexCNAME
  | .denylist => .denylistCNAME
  | st => st

/-- The list id of the filter goes from the record of the child to that of the
parent. -/
def Tables.propagateListID (t : Tables) (query : QueriesData) (k child : Nat) : Tables :=
  if query.status ≠ .regex then t
  else match (t.findCacheID child query.clientID query.type false).1 with
    | some c =>
      if (t.cache c).listID ≠ -1 then
        t.setCache k { t.cache k with listID := (t.cache c).listID }
      else t
    | none => t

def Store.blockChain (s : Store) (p k child : Nat) (now : ℚ) : Store :=
  let parent := (s.q.mem p).domainID
  let t := s.t.setDomain parent { s.t.domains parent with
    blockedcount := (s.t.domains parent).blockedcount+1 }
  let s : Store := { s with t := t }
  let s := s.querySetReply p ⟨false,false,false,false,false,true,false,false,false,false,false⟩
    .unknown none now
  let s := s.noteCnameDomain p (some child)
  let s : Store := { s with
    t := (s.t.moveCnameReference k child).propagateListID (s.q.mem p) k child }
  (s.querySetStatus p (cnameStatus (s.q.mem p).status) false).markChanged p

def Store.inspectCname (w : World) (dst : List Char) (now : ℚ) (s : Store) (p : Nat) :
    Bool × Store :=
  let query := s.q.mem p
  let childDomain := (lower dst).take (MAXDOMAINLEN-1)
  let (child,t) := s.t.findDomainID childDomain false
  let s : Store := { s with t := t.modifyDomain child (fun d => { d with lastQuery := now }) }
  match s.t.getClient query.clientID,query.cacheID.filter (fun k => (s.t.cache k).magic) with
  | some _,some k =>
    let r := s.checkBlocking w childDomain p (some query.clientID) (some child) (some k)
    if r.1 then
      if (r.2.t.getDomain query.domainID).isNone then (false,r.2)
      else (true,r.2.blockChain p k child now)
    else (false,r.2.markChanged p)
  | _,_ => (false,s)

/-- `LORENTZ_CNAME`. The record of `lorentz.lan` in the cache of dnsmasq is not
modelled. -/
def Store.cname (w : World) (s : Store) (dst : List Char) (id : Int) (now : ℚ) : Store :=
  if !s.config.cnameDeepInspect then s
  else s.atQuery id (fun s p => (s.inspectCname w dst now p).2)

/-- `gravityDB_close` clears `found_group` of every client. -/
def Tables.finalizeClients (t : Tables) : Tables :=
  { t with clients := fun i =>
      let c := t.clients i
      if i < t.numClients ∧ c.magic = true then
        { c with flags := { c.flags with foundGroup := false } }
      else c }

/-- The loop of `read_regex_from_database` over the clients. -/
def Tables.reloadClients (w : World) (g : Gravity) (t : Tables) : Tables :=
  let applies (i : Nat) : Bool :=
    i < t.numClients && (t.clients i).magic && !(t.clients i).flags.aliasclient
  { t with
    clients := fun i =>
      if applies i then (reloadPerClientRegex w g (t.clients i)).1 else t.clients i
    regexRow := fun i =>
      if applies i then (reloadPerClientRegex w g (t.clients i)).2 else t.regexRow i }

def DNSCacheData.reset (d : DNSCacheData) : DNSCacheData :=
  { d with blockingStatus := .unknown, expires := 0, listID := -1 }

def Tables.resetPerClientDomainData (t : Tables) : Tables :=
  { t with cache := fun i =>
      if i < t.dnsCacheSize ∧ (t.cache i).magic = true then (t.cache i).reset else t.cache i }

/-- `Lorentz_reload_all_domainlists` for the lists in `db`. -/
def Store.reloadAllDomainlists (w : World) (s : Store) (db : GravityDb) : Store :=
  let s := s.lockShm
  let g := Gravity.load w.engine db
  { s with
    gravity := g
    t := (s.t.finalizeClients.reloadClients w g).resetPerClientDomainData }

/-- `_Lorentz_make_answer` on the variables of the resolver thread: without a readable `question`
there is no reply, and a dropped query leaves before the filter is asked for a redirection. -/
def Statics.makeAnswer (st : Statics) (question : Bool) : Statics :=
  let forced := st.forceNextDNSReply
  if question = false then st.unsetBlockingMetadata
  else if forced = .none then
    ({ st with forceNextDNSReply := .unknown } : Statics).unsetBlockingMetadata
  else
    let reset := forced = .nxdomain ∨ forced = .nodata ∨ forced = .refused ∨ forced = .ip ∨
      forced = .cname ∧ st.cnameTarget.isSome = true
    ({ st with
      forceNextDNSReply := if reset then .unknown else forced
      lastRegexIdx := if st.lastRegexIdx > -1 then -1 else st.lastRegexIdx } :
        Statics).unsetBlockingMetadata

/-- `set_blockingstatus` without the reload that it asks for. -/
def Config.setBlockingstatus (cfg : Config) (enabled : Bool) : Config :=
  if cfg.blocking = .dnsFailed then cfg
  else { cfg with blocking := if enabled then .enabled else .disabled }

def ClientsData.noteName (c : ClientsData) (name : List Char) : ClientsData :=
  if c.name = name then c
  else { c with
    name := name
    inDatabase := false
    dbID := 0
    flags := { c.flags with foundGroup := false } }

def Store.resolveClient (s : Store) (clientID : Nat) (name : List Char) : Store :=
  let s := s.lockShm
  { s with t := s.t.modifyClient clientID (fun c => c.noteName name) }

def Store.parseNeighbor (s : Store) (clientID : Nat) (hwaddr : List Nat) : Store :=
  let s := s.lockShm
  { s with t := s.t.modifyClient clientID (fun c => c.noteHwaddr hwaddr) }

end Lorentz
