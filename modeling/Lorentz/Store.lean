import Lorentz.Lookup
import Lorentz.Library.Counting

/-!
The shared memory, its accessors and the tables beside the query array, whose slots are physical
while hooks and loops use logical indices; the status of a query, and `runGC` in two sections,
between which the lock is released unless it flushes.
-/

set_option autoImplicit false

namespace Lorentz
open Function

structure Config where
  ignoreLocalhost : Bool
  analyzeOnlyAandAAAA : Bool
  edns0ECS : Bool
  rateLimitCount : Nat
  blocking : BlockingStatus
  blockESNI : Bool
  cnameDeepInspect : Bool
  replyWhenBusy : BusyReply
  mozillaCanary : Bool
  iCloudPrivateRelay : Bool
  designatedResolver : Bool
  upstreamBlockedTTL : Nat
  maxHistory : UInt32
  privacylevel : PrivacyLevel
  gcInterval : UInt32
  gcIntervalPos : 0 < gcInterval
  gcDelay : UInt32
  pagesize : Nat
  pagesizePos : 0 < pagesize
  pagesizeLt : pagesize < 4294967296
  deriving DecidableEq, Repr

def Config.default : Config where
  ignoreLocalhost := false
  analyzeOnlyAandAAAA := false
  edns0ECS := true
  rateLimitCount := 1000
  blocking := .enabled
  blockESNI := true
  cnameDeepInspect := true
  replyWhenBusy := .allow
  mozillaCanary := true
  iCloudPrivateRelay := true
  designatedResolver := true
  upstreamBlockedTTL := 86400
  maxHistory := 86400
  privacylevel := .showAll
  gcInterval := 600
  gcIntervalPos := by decide
  gcDelay := 60
  pagesize := 4096
  pagesizePos := by decide
  pagesizeLt := by decide

structure QueryStore where
  mem : Nat → QueriesData
  queries : Nat
  offset : Nat
  queriesMax : Nat
  removed : Nat
  status : QueryStatus → Counter
  reply : ReplyType → Counter
  querytype : QueryType → Counter
  idMap : Nat → Int × Nat

/-- The other tables of the shared memory. A lookup table is the list of its ids, a
recycle table a stack. -/
structure Tables where
  clients : Nat → ClientsData
  numClients : Nat
  clientsLookup : List Nat
  clientsRecycle : List Nat
  domains : Nat → DomainsData
  numDomains : Nat
  domainsLookup : List Nat
  domainsRecycle : List Nat
  cache : Nat → DNSCacheData
  dnsCacheSize : Nat
  cacheLookup : List Nat
  cacheRecycle : List Nat
  upstreams : Nat → UpstreamsData
  numUpstreams : Nat
  overTime : Nat → OverTimeData
  regexRow : Nat → Nat → Bool

def Tables.empty : Tables where
  clients := fun _ => .wiped
  numClients := 0
  clientsLookup := []
  clientsRecycle := []
  domains := fun _ => .wiped
  numDomains := 0
  domainsLookup := []
  domainsRecycle := []
  cache := fun _ => .wiped
  dnsCacheSize := 0
  cacheLookup := []
  cacheRecycle := []
  upstreams := fun _ => .wiped
  numUpstreams := 0
  overTime := fun _ => ⟨0,0,0,0,0⟩
  regexRow := fun _ _ => false

structure Store where
  q : QueryStore
  t : Tables
  gravity : Gravity
  statics : Statics
  config : Config

def uintMod : Nat := 4294967296

section

variable (q : QueryStore) (t : Tables)

/-- The slot behind a pointer that `_getQuery` returns. -/
def QueryStore.getQuery (queryID : Nat) (checkMagic : Bool) : Option Nat :=
  let physID := (queryID+q.offset) % uintMod
  if physID > q.queriesMax then none
  else if checkMagic && !(q.mem physID).magic then none
  else some physID

def Tables.getClient (clientID : Nat) : Option ClientsData :=
  if (t.clients clientID).magic then some (t.clients clientID) else none

def Tables.getDomain (domainID : Nat) : Option DomainsData :=
  if (t.domains domainID).magic then some (t.domains domainID) else none

def Tables.getUpstream (upstreamID : Nat) : Option UpstreamsData :=
  if (t.upstreams upstreamID).magic then some (t.upstreams upstreamID) else none

def Tables.getDNSCache (cacheID : Nat) : Option DNSCacheData :=
  if (t.cache cacheID).magic then some (t.cache cacheID) else none

end

section

variable (q : QueryStore) (t : Tables)

def QueryStore.setQuery (p : Nat) (x : QueriesData) : QueryStore :=
  { q with mem := update q.mem p x }

def Tables.setClient (i : Nat) (x : ClientsData) : Tables :=
  { t with clients := update t.clients i x }

def Tables.setDomain (i : Nat) (x : DomainsData) : Tables :=
  { t with domains := update t.domains i x }

def Tables.setUpstream (i : Nat) (x : UpstreamsData) : Tables :=
  { t with upstreams := update t.upstreams i x }

def Tables.setCache (i : Nat) (x : DNSCacheData) : Tables :=
  { t with cache := update t.cache i x }

def Tables.modifyClient (i : Nat) (f : ClientsData → ClientsData) : Tables :=
  match t.getClient i with
  | some c => t.setClient i (f c)
  | none => t

def Tables.modifyDomain (i : Nat) (f : DomainsData → DomainsData) : Tables :=
  match t.getDomain i with
  | some d => t.setDomain i (f d)
  | none => t

def Tables.modifyUpstream (i : Nat) (f : UpstreamsData → UpstreamsData) : Tables :=
  match t.getUpstream i with
  | some u => t.setUpstream i (f u)
  | none => t

def Tables.modifyCache (i : Nat) (f : DNSCacheData → DNSCacheData) : Tables :=
  match t.getDNSCache i with
  | some d => t.setCache i (f d)
  | none => t

end

def QueryStore.insertID (q : QueryStore) (id : Int) (queryIndex : Nat) : QueryStore :=
  { q with idMap := update q.idMap ((id % 4096).toNat) (id,queryIndex) }

/-- The reverse scan of `findQueryID` over the indices `until ≤ i < until + n`. -/
def QueryStore.scanID (q : QueryStore) (id : Int) (start : Nat) : Nat → Option Nat
  | 0 => none
  | n+1 =>
    match q.getQuery (start+n) true with
    | some p => if (q.mem p).id = id then some (start+n) else q.scanID id start n
    | none => q.scanID id start n

def QueryStore.findQueryID (q : QueryStore) (id : Int) : Option Nat :=
  let slot := q.idMap ((id % 4096).toNat)
  let hit := slot.1 = id && slot.2 < q.queries &&
    (q.getQuery slot.2 true).any (fun p => (q.mem p).id = id)
  if hit then some slot.2
  else
    let start := q.queries-MAXITER
    q.scanID id start (max (q.queries-start) 1)

/-- The compaction of `shm_ensure_size`: live queries move to the front, the slots they leave are
wiped and the id lookup is cleared. -/
def QueryStore.compact (q : QueryStore) : QueryStore :=
  { q with
    mem := fun i =>
      if i < q.queries then q.mem (i+q.offset)
      else if i < q.queries+q.offset then .wiped
      else q.mem i
    offset := 0
    idMap := fun _ => (0,0) }

/-- `shm_ensure_size` for the query array, run by every `lock_shm`: dead space in front is
reclaimed before the array grows. -/
def QueryStore.ensureSize (q : QueryStore) (pagesize : Nat) : QueryStore :=
  if q.queries+q.offset ≥ q.queriesMax-1 then
    let q := if q.offset > 0 then q.compact else q
    if q.queries ≥ q.queriesMax-1 then { q with queriesMax := q.queriesMax+pagesize } else q
  else q

def Store.lockShm (s : Store) : Store :=
  { s with q := s.q.ensureSize s.config.pagesize }

def timeT (x : ℚ) : Int := x.num.tdiv x.den

def Tables.getOverTimeID (t : Tables) (timestamp : Int) : Nat :=
  let centered := timestamp-timestamp.tmod OVERTIME_INTERVAL+OVERTIME_INTERVAL/2
  let id := (centered-(t.overTime 0).timestamp).tdiv OVERTIME_INTERVAL
  if id < 0 then 0
  else if id ≥ OVERTIME_SLOTS then OVERTIME_SLOTS-1
  else id.toNat

def Tables.modifySlot (t : Tables) (i : Nat) (f : OverTimeData → OverTimeData) : Tables :=
  { t with overTime := update t.overTime i (f (t.overTime i)) }

def Tables.initSlot (t : Tables) (index : Nat) (timestamp : Int) : Tables :=
  { t with
    overTime := update t.overTime index ⟨timestamp,0,0,0,0⟩
    clients := fun i =>
      let c := t.clients i
      if i < t.numClients && c.magic then { c with overTime := update c.overTime index 0 } else c }

def Tables.initSlots (t : Tables) (timeidx : Nat) : Nat → Tables
  | 0 => t
  | n+1 =>
    let timestamp := (t.overTime (timeidx-1)).timestamp+OVERTIME_INTERVAL
    (t.initSlot timeidx timestamp).initSlots (timeidx+1) n

def Tables.moveOverTimeMemory (t : Tables) (mintime : Int) : Tables :=
  let should := mintime-mintime.tmod OVERTIME_INTERVAL+OVERTIME_INTERVAL/2
  let moveOverTime := ((should-(t.overTime 0).timestamp).tdiv OVERTIME_INTERVAL % uintMod).toNat
  if moveOverTime = 0 ∨ moveOverTime ≥ OVERTIME_SLOTS then t
  else
    let remainingSlots := OVERTIME_SLOTS-moveOverTime
    let moved : Tables :=
      { t with
        overTime := fun i => if i < remainingSlots then t.overTime (i+moveOverTime) else t.overTime i
        clients := fun i =>
          let c := t.clients i
          if i < t.numClients && c.magic then
            { c with overTime := fun j =>
                if j < remainingSlots then c.overTime (j+moveOverTime) else c.overTime j }
          else c }
    moved.initSlots remainingSlots moveOverTime

/-- The counters of one client after `change_clientcount`. -/
def ClientsData.addCount (c : ClientsData) (total blocked : Int) (overTimeIdx : Option Nat)
    (overTimeMod : Int) : ClientsData :=
  { c with
    count := c.count+total
    blockedcount := c.blockedcount+blocked
    overTime := match overTimeIdx with
      | some i => update c.overTime i (c.overTime i+overTimeMod)
      | none => c.overTime }

/-- `change_clientcount`, which also counts for the alias-client of a client. -/
def Tables.changeClientcount (t : Tables) (clientID : Nat) (total blocked : Int)
    (overTimeIdx : Option Nat) (overTimeMod : Int) : Tables :=
  let c := t.clients clientID
  let t := t.setClient clientID (c.addCount total blocked overTimeIdx overTimeMod)
  let t := match overTimeIdx with
    | some i => t.modifySlot i (fun o => { o with total := o.total+overTimeMod })
    | none => t
  if c.flags.aliasclient then t
  else match c.aliasclientID with
    | none => t
    | some a => t.modifyClient a (fun x => x.addCount total blocked overTimeIdx overTimeMod)

def setNextRecycledID (table : List Nat) (id : Nat) : List Nat :=
  if table.length ≥ RECYCLE_ARRAY_LEN then table else id :: table

def getNextFreeID (table : List Nat) (fresh : Nat) : Nat × List Nat :=
  match table with
  | [] => (fresh,[])
  | id :: rest => (id,rest)

def newDomain (domainID : Nat) (domain : List Char) (count : Bool) (old : DomainsData) :
    DomainsData :=
  { old with
    magic := true
    id := domainID
    count := if count then 1 else 0
    blockedcount := 0
    domain := domain
    lastQuery := 0 }

def Tables.findDomainID (t : Tables) (domain : List Char) (count : Bool) : Nat × Tables :=
  match t.domainsLookup.find? (fun i => (t.getDomain i).any (fun d => d.domain = domain)) with
  | some id =>
    (id,if count then t.modifyDomain id (fun d => { d with count := d.count+1 }) else t)
  | none =>
    let (id,recycle) := getNextFreeID t.domainsRecycle t.numDomains
    (id,{ t with
      domains := update t.domains id (newDomain id domain count (t.domains id))
      domainsLookup := id :: t.domainsLookup
      domainsRecycle := recycle
      numDomains := t.numDomains+1 })

def newCache (domainID clientID : Nat) (type : QueryType) (old : DNSCacheData) : DNSCacheData :=
  { old with
    magic := true
    blockingStatus := .unknown
    expires := 0
    domainID := domainID
    clientID := clientID
    queryType := type
    forceReply := .unknown
    cnameDomainID := none
    listID := -1 }

def Tables.findCacheID (t : Tables) (domainID clientID : Nat) (type : QueryType)
    (createNew : Bool) : Option Nat × Tables :=
  let same (d : DNSCacheData) : Bool :=
    d.domainID = domainID && d.clientID = clientID && d.queryType = type
  match t.cacheLookup.find? (fun i => (t.getDNSCache i).any same) with
  | some id => (some id,t)
  | none =>
    if !createNew then (none,t)
    else
      let (id,recycle) := getNextFreeID t.cacheRecycle t.dnsCacheSize
      (some id,{ t with
        cache := update t.cache id (newCache domainID clientID type (t.cache id))
        cacheLookup := id :: t.cacheLookup
        cacheRecycle := recycle
        dnsCacheSize := t.dnsCacheSize+1 })

def Tables.scanUpstream (t : Tables) (ip : List Char) (port : Nat) : Option Nat :=
  (List.range t.numUpstreams).find?
    (fun i => (t.getUpstream i).any (fun u => u.ip = ip && u.port = port))

def Tables.findUpstreamID (t : Tables) (ip : List Char) (port : Nat) : Nat × Tables :=
  match t.scanUpstream ip port with
  | some id => (id,t)
  | none =>
    let id := t.numUpstreams
    let old := t.upstreams id
    (id,{ t with
      upstreams := update t.upstreams id
        { old with magic := true, ip := ip, port := port, failed := 0, lastQuery := 0 }
      numUpstreams := id+1 })

/-- `reload_per_client_regex`: the client, its groups resolved if there are filters to load, and
its new row. -/
def reloadPerClientRegex (w : World) (g : Gravity) (client : ClientsData) :
    ClientsData × (Nat → Bool) :=
  if g.denyRegex = [] ∧ g.allowRegex = [] then (client,fun _ => false)
  else if client.flags.foundGroup then
    (client,if w.busy 0 then fun _ => false else g.regexRow client.groups)
  else if !g.opened || w.busy 0 then
    ({ client with groups := [], flags := { client.flags with foundGroup := false } },
      fun _ => false)
  else
    let client := getClientGroupids w g.db client
    (client,if w.busy 1 then fun _ => false else g.regexRow client.groups)

def newClient (clientID : Nat) (ip : List Char) (now : ℚ) : ClientsData :=
  { ClientsData.wiped with
    magic := true
    hwlen := -1
    count := 1
    aliasclientID := none
    id := clientID
    numQueriesARP := 1
    ip := ip
    firstSeen := now }

/-- `recompute_aliasclient`: the sum over the clients an alias-client manages. -/
def Tables.recomputeAliasclient (t : Tables) (a : Nat) : Tables :=
  t.modifyClient a (fun head =>
    (List.range t.numClients).foldl (fun acc i =>
      let c := t.clients i
      if c.magic && !c.flags.aliasclient && c.aliasclientID = some a then
        { acc with
          count := acc.count+c.count
          blockedcount := acc.blockedcount+c.blockedcount
          overTime := fun j => acc.overTime j+c.overTime j }
      else acc) { head with count := 0, blockedcount := 0, overTime := fun _ => 0 })

/-- `findClientID(clientIP, true, false, now)`; `managedBy` is what `reset_aliasclient` reads for
a new client. -/
def Tables.findClientID (w : World) (g : Gravity) (managedBy : Option Nat) (ip : List Char)
    (now : ℚ) (t : Tables) : Nat × Tables :=
  match t.clientsLookup.find? (fun i => (t.getClient i).any (fun c => c.ip = ip)) with
  | some id => (id,t.changeClientcount id 1 0 none 0)
  | none =>
    let (id,recycle) := getNextFreeID t.clientsRecycle t.numClients
    let r := reloadPerClientRegex w g (newClient id ip now)
    let t : Tables := { t with
      clients := update t.clients id { r.1 with aliasclientID := managedBy }
      clientsLookup := id :: t.clientsLookup
      clientsRecycle := recycle
      numClients := t.numClients+1
      regexRow := update t.regexRow id r.2 }
    (id,match managedBy with
      | some a => t.recomputeAliasclient a
      | none => t)

open Counting

def absToShmTime (x : Int) : Nat := ((x-SHM_TIME_EPOCH) % uintMod).toNat

/-- What `_query_set_status` writes to the cache record of a query. -/
def DNSCacheData.memorise (d : DNSCacheData) (cfg : Config) (timestamp : ℚ)
    (newStatus : QueryStatus) : DNSCacheData :=
  if d.blockingStatus = newStatus then d
  else
    { d with
      blockingStatus := newStatus
      expires :=
        if cfg.upstreamBlockedTTL > 0 ∧ d.expires = 0 ∧ isExternal newStatus = true
        then absToShmTime (timeT timestamp+cfg.upstreamBlockedTTL)
        else d.expires }

def Tables.memoriseStatus (t : Tables) (cfg : Config) (query : QueriesData)
    (newStatus : QueryStatus) : Tables :=
  if isMemorised newStatus then
    let (cacheID,t) := match query.cacheID with
      | some i => (some i,t)
      | none => t.findCacheID query.domainID query.clientID query.type true
    match cacheID with
    | some i => t.modifyCache i (fun d => d.memorise cfg query.timestamp newStatus)
    | none => t
  else t

/-- The over-time counters of one status, added with sign `d`. -/
def OverTimeData.addStatus (o : OverTimeData) (st : QueryStatus) (d : Int) : OverTimeData :=
  { o with
    blocked := if isBlocked st then o.blocked+d else o.blocked
    cached := if isCached st then o.cached+d else o.cached
    forwarded := if st = .forwarded then o.forwarded+d else o.forwarded }

def QueryStore.setStatus (q : QueryStore) (p : Nat) (newStatus : QueryStatus) (init : Bool) :
    QueryStore :=
  let removed := if init then q.status else decrement q.status (q.mem p).status
  { q with
    status := increment removed newStatus
    mem := update q.mem p { q.mem p with status := newStatus } }

def Store.querySetStatus (s : Store) (p : Nat) (newStatus : QueryStatus) (init : Bool) : Store :=
  let query := s.q.mem p
  if query.status = newStatus ∧ init = false then s
  else
    let t := if init then s.t else s.t.memoriseStatus s.config query newStatus
    let timeidx := t.getOverTimeID (timeT query.timestamp)
    let t := if init then t else t.modifySlot timeidx (fun o => o.addStatus query.status (-1))
    let t := t.modifySlot timeidx (fun o => o.addStatus newStatus 1)
    { s with q := s.q.setStatus p newStatus init, t := t }

def Store.modifyQuery (s : Store) (p : Nat) (f : QueriesData → QueriesData) : Store :=
  { s with q := s.q.setQuery p (f (s.q.mem p)) }

def Store.markChanged (s : Store) (p : Nat) : Store :=
  s.modifyQuery p (fun x => { x with flags := { x.flags with changed := true } })

def Store.handBackUpstream (s : Store) (p : Nat) : Store :=
  let t := match (s.q.mem p).upstreamID with
    | some u => s.t.modifyUpstream u (fun x => { x with count := x.count-1 })
    | none => s.t
  ({ s with t := t } : Store).modifyQuery p
    (fun x => { x with flags := { x.flags with upstreamCounted := false } })

def Store.countBlocked (s : Store) (p : Nat) (domainID clientID : Option Nat) : Store :=
  let t := match domainID with
    | some d => s.t.setDomain d { s.t.domains d with
        blockedcount := (s.t.domains d).blockedcount+1 }
    | none => s.t
  let t := match clientID with
    | some c => t.changeClientcount c 0 1 none 0
    | none => t
  ({ s with t := t } : Store).modifyQuery p
    (fun x => { x with flags := { x.flags with blocked := true } })

/-- `query_blocked`; the domain and the client are those of the caller's pointers. -/
def Store.queryBlocked (s : Store) (p : Nat) (domainID clientID : Option Nat)
    (newStatus : QueryStatus) : Store :=
  let query := s.q.mem p
  let handBack := query.status = .forwarded ∧ query.flags.upstreamCounted = true
  if ¬ handBack ∧ isBlocked query.status = true then s
  else
    let s := if handBack then s.handBackUpstream p else s
    let s := if isBlocked newStatus then s.countBlocked p domainID clientID else s
    (s.querySetStatus p newStatus false).markChanged p

/-- The flags dnsmasq passes with a reply, as far as `_query_set_reply` reads them. -/
structure ReplyFlags where
  neg : Bool
  noerr : Bool
  ipv4 : Bool
  ipv6 : Bool
  nxdomain : Bool
  cname : Bool
  reverse : Bool
  rrname : Bool
  rcode : Bool
  keytag : Bool
  noextra : Bool
  deriving DecidableEq, Repr

/-- The reply type of `_query_set_reply`; `rcode` is the code behind the address pointer, if any.
-/
def newReply (flags : ReplyFlags) (reply : ReplyType) (rcode : Option Nat) (force : ReplyType) :
    ReplyType :=
  if reply ≠ .unknown then reply
  else if flags.neg || (flags.noerr && !(flags.ipv4 || flags.ipv6)) ||
      force = .nxdomain || force = .nodata then
    if flags.nxdomain || force = .nxdomain then .nxdomain else .nodata
  else if flags.cname then .cname
  else if flags.reverse then .domain
  else if flags.rrname then .rrname
  else if (flags.rcode && rcode.isSome) || force = .refused then
    if rcode = some 5 || force = .refused then .refused
    else if rcode = some 2 then .servfail
    else if rcode = some 4 then .notimp
    else .other
  else if flags.keytag && flags.noextra then .dnssec
  else if force = .none then .none
  else if flags.ipv4 || flags.ipv6 then .ip
  else .blob

def QueryStore.setReply (q : QueryStore) (p : Nat) (r : ReplyType) : QueryStore :=
  { q with
    reply := increment (decrement q.reply (q.mem p).reply) r
    mem := update q.mem p { q.mem p with reply := r } }

def QueriesData.setResponseTime (x : QueriesData) (now : ℚ) : QueriesData :=
  if x.flags.responseCalculated then x
  else { x with response := now-x.response, flags := { x.flags with responseCalculated := true } }

def Store.querySetReply (s : Store) (p : Nat) (flags : ReplyFlags) (reply : ReplyType)
    (rcode : Option Nat) (now : ℚ) : Store :=
  let r := newReply flags reply rcode s.statics.forceNextDNSReply
  ({ s with q := s.q.setReply p r } : Store).modifyQuery p (fun x => x.setResponseTime now)

def Store.atQuery (s : Store) (id : Int) (body : Store → Nat → Store) : Store :=
  let s := s.lockShm
  match (s.q.findQueryID id).bind (fun i => s.q.getQuery i true) with
  | none => s
  | some p => body s p

def Store.queryInProgress (s : Store) (id : Int) : Store :=
  s.atQuery id (fun s p => (s.querySetStatus p .inProgress false).markChanged p)

/-- What `Lorentz_multiple_replies` copies beside the reply and the status. -/
def Store.copyFields (s : Store) (source : QueriesData) (p : Nat) : Store :=
  let t := match source.cnameDomainID with
    | some d => s.t.modifyDomain d (fun x => { x with cnameRefcount := x.cnameRefcount+1 })
    | none => s.t
  ({ s with t := t } : Store).modifyQuery p (fun x => { x with
    dnssec := source.dnssec
    cnameDomainID := source.cnameDomainID
    flags := { x.flags with complete := true } })

def Store.copyReply (s : Store) (src p : Nat) : Store :=
  let source := s.q.mem src
  let s := ({ s with q := s.q.setReply p source.reply } : Store).copyFields source p
  let s := if source.status ≠ .forwarded then s.querySetStatus p source.status false else s
  s.markChanged p

/-- `Lorentz_multiple_replies`; the variable behind `firstID`, an index from an earlier call, is
returned too. -/
def Store.multipleReplies (s : Store) (id firstID : Int) : Store × Int :=
  if firstID = id ∨ firstID = -2 then (s,firstID)
  else
    let s := s.lockShm
    match s.q.findQueryID id with
    | none => (s,-2)
    | some queryID =>
      if firstID = -1 then (s,queryID)
      else
        match s.q.getQuery firstID.toNat true,s.q.getQuery queryID true with
        | some src,some p => (s.copyReply src p,firstID)
        | _,_ => (s,firstID)

/-- The difference to the current time is an `unsigned int`, the rest is `time_t`. -/
def gcMintime (cfg : Config) (now : Int) (flush : Bool) : Int :=
  if flush then now
  else
    let mintime := now-(-cfg.gcDelay+cfg.maxHistory).toNat
    mintime-mintime.tmod cfg.gcInterval.toNat

def Config.setGcInterval (cfg : Config) : Config :=
  if cfg.maxHistory = 0 then { cfg with gcInterval := 60, gcIntervalPos := by decide, gcDelay := 10 }
  else cfg

def Tables.gcTables (t : Tables) (query : QueriesData) : Tables :=
  let blocked := isBlocked query.status
  let timeidx := t.getOverTimeID (timeT query.timestamp)
  let t := if (t.getClient query.clientID).isSome then
      t.changeClientcount query.clientID (-1) (if blocked then -1 else 0) (some timeidx) (-1)
    else t
  let t := t.modifyDomain query.domainID (fun d => { d with
    count := d.count-1
    blockedcount := if blocked then d.blockedcount-1 else d.blockedcount })
  let t := match query.flags.upstreamCounted,query.upstreamID with
    | true,some u => t.modifyUpstream u (fun x => { x with count := x.count-1 })
    | _,_ => t
  let t := match query.cacheID with
    | some i => t.modifyCache i (fun d => { d with refcount := d.refcount-1 })
    | none => t
  match query.cnameDomainID with
  | some d => t.modifyDomain d (fun x => { x with cnameRefcount := x.cnameRefcount-1 })
  | none => t

def QueriesData.uncount (x : QueriesData) : QueriesData :=
  if x.flags.upstreamCounted && x.upstreamID.isSome
  then { x with flags := { x.flags with upstreamCounted := false } } else x

/-- The flag of the query and its counters by reply, type and status; that of UNKNOWN goes down
here and up again in `query_set_status`. -/
def QueryStore.gcCounters (q : QueryStore) (p : Nat) : QueryStore :=
  let query := q.mem p
  { q with
    mem := update q.mem p query.uncount
    reply := decrement q.reply query.reply
    querytype := decrement q.querytype query.type
    status := decrement q.status .unknown }

def Store.gcQuery (s : Store) (p : Nat) : Store :=
  let query := s.q.mem p
  let s : Store := { s with q := s.q.gcCounters p, t := s.t.gcTables query }
  s.querySetStatus p .unknown false

/-- The loop of `runGC` over the indices `i ≤ j < i + n`. -/
def Store.gcLoop (mintime : Int) : Nat → Nat → Nat → Store → Store × Nat
  | 0, _, removed, s => (s,removed)
  | n+1, i, removed, s =>
    match s.q.getQuery i true with
    | none => s.gcLoop mintime n (i+1) removed
    | some p =>
      if (s.q.mem p).timestamp > mintime then (s,removed)
      else (s.gcQuery p).gcLoop mintime n (i+1) (removed+1)

/-- The first section of `runGC`, with the number of queries it removed. -/
def Store.gcRemove (s : Store) (mintime : Int) : Store × Nat :=
  s.gcLoop mintime s.q.queries 0 0

def QueryStore.drop (q : QueryStore) (removed : Nat) : QueryStore :=
  if removed > 0 then
    { q with
      offset := (q.offset+removed) % uintMod
      queries := (q.queries+uintMod-removed) % uintMod
      removed := (q.removed+removed) % uintMod
      idMap := fun _ => (0,0) }
  else q

/-- The table a recycle loop leaves: it is cut to the kept entries only when an entry
was recycled. -/
def compactLookup (old kept : List Nat) (recycled : Nat) : List Nat :=
  if recycled > 0 then kept else kept ++ old.drop kept.length

/-- One round of a loop of `recycle`: `inUse` is `none` for a record that cannot be accessed. -/
def recycleRound (inUse : Tables → Nat → Option Bool) (wipe : Tables → Nat → Tables)
    (acc : Tables × List Nat × Nat) (id : Nat) : Tables × List Nat × Nat :=
  match inUse acc.1 id with
  | none => acc
  | some true => (acc.1,acc.2.1 ++ [id],acc.2.2)
  | some false => (wipe acc.1 id,acc.2.1,acc.2.2+1)

def Tables.clientInUse (t : Tables) (id : Nat) : Option Bool :=
  (t.getClient id).map (fun c => c.count > 0 || c.flags.aliasclient)

def Tables.wipeClient (t : Tables) (id : Nat) : Tables :=
  { t with
    clientsRecycle := setNextRecycledID t.clientsRecycle id
    clients := update t.clients id .wiped }

def Tables.recycleClients (t : Tables) : Tables :=
  let r := t.clientsLookup.foldl (recycleRound clientInUse wipeClient) (t,[],0)
  { r.1 with clientsLookup := compactLookup t.clientsLookup r.2.1 r.2.2 }

def Tables.recycleDomains (t : Tables) (now : ℚ) : Tables :=
  let inUse (t : Tables) (id : Nat) : Option Bool := (t.getDomain id).map
    (fun d => d.count > 0 || d.cnameRefcount > 0 || d.lastQuery > now-24*3600)
  let wipe (t : Tables) (id : Nat) : Tables :=
    { t with
      domainsRecycle := setNextRecycledID t.domainsRecycle id
      domains := update t.domains id .wiped }
  let r := t.domainsLookup.foldl (recycleRound inUse wipe) (t,[],0)
  { r.1 with domainsLookup := compactLookup t.domainsLookup r.2.1 r.2.2 }

def Tables.recycleCache (t : Tables) : Tables :=
  let inUse (t : Tables) (id : Nat) : Option Bool :=
    (t.getDNSCache id).map (fun d => d.refcount > 0)
  let wipe (t : Tables) (id : Nat) : Tables :=
    let t := match (t.cache id).cnameDomainID with
      | some c => t.modifyDomain c (fun x => { x with cnameRefcount := x.cnameRefcount-1 })
      | none => t
    { t with
      cacheRecycle := setNextRecycledID t.cacheRecycle id
      cache := update t.cache id .wiped }
  let r := t.cacheLookup.foldl (recycleRound inUse wipe) (t,[],0)
  { r.1 with cacheLookup := compactLookup t.cacheLookup r.2.1 r.2.2 }

def Store.gcFinish (s : Store) (removed : Nat) (mintime : Int) (clock : ℚ) : Store :=
  { s with
    q := s.q.drop removed
    t := (((s.t.recycleClients).recycleDomains clock).recycleCache).moveOverTimeMemory mintime }

/-- `runGC` without interruption: with the lock held by the caller when it flushes. -/
def Store.runGC (s : Store) (now : Int) (flush : Bool) (clock : ℚ) : Store :=
  let mintime := gcMintime s.config now flush
  let r := s.gcRemove mintime
  r.1.gcFinish r.2 mintime clock

end Lorentz
