import Mathlib

/-!
The enumerations shared by all parts of the engine, without their `*_MAX` members, and the
records of the shared memory. An ID of `-1` is `none`, a position in the string pool is the
string, and `magic` is whether a byte is `MAGICBYTE`.
-/

set_option autoImplicit false

namespace Lorentz

inductive QueryStatus where
  | unknown | gravity | forwarded | cache | regex | denylist
  | externalBlockedIP | externalBlockedNULL | externalBlockedNXRA
  | gravityCNAME | regexCNAME | denylistCNAME
  | retried | retriedDNSSEC | inProgress | dbbusy | specialDomain
  | cacheStale | externalBlockedEDE15
  deriving DecidableEq, Repr

inductive ReplyType where
  | unknown | nodata | nxdomain | cname | ip | domain | rrname
  | servfail | refused | notimp | other | dnssec | none | blob
  deriving DecidableEq, Repr

inductive QueryType where
  | none | a | aaaa | any | srv | soa | ptr | txt | naptr | mx
  | ds | rrsig | dnskey | ns | other | svcb | https
  deriving DecidableEq, Repr

inductive DnssecStatus where
  | unknown | secure | insecure | bogus | abandoned | truncated
  deriving DecidableEq, Repr

inductive PrivacyLevel where
  | showAll | hideDomains | hideDomainsClients | maximum
  deriving DecidableEq, Repr

inductive BlockingStatus where
  | disabled | enabled | dnsFailed
  deriving DecidableEq, Repr

/-- What `dns.replyWhenBusy` asks for while the lists cannot be read. -/
inductive BusyReply where
  | block | allow | refuse | drop
  deriving DecidableEq, Repr

inductive RegexType where
  | deny | allow
  deriving DecidableEq, Repr

inductive DbResult where
  | notFound | found | listNotAvailable
  deriving DecidableEq, Repr

def QueryStatus.all : List QueryStatus :=
  [.unknown,.gravity,.forwarded,.cache,.regex,.denylist,
   .externalBlockedIP,.externalBlockedNULL,.externalBlockedNXRA,
   .gravityCNAME,.regexCNAME,.denylistCNAME,
   .retried,.retriedDNSSEC,.inProgress,.dbbusy,.specialDomain,
   .cacheStale,.externalBlockedEDE15]

def ReplyType.all : List ReplyType :=
  [.unknown,.nodata,.nxdomain,.cname,.ip,.domain,.rrname,
   .servfail,.refused,.notimp,.other,.dnssec,.none,.blob]

def QueryType.all : List QueryType :=
  [.none,.a,.aaaa,.any,.srv,.soa,.ptr,.txt,.naptr,.mx,
   .ds,.rrsig,.dnskey,.ns,.other,.svcb,.https]

theorem QueryStatus.mem_all (s : QueryStatus) : s ∈ QueryStatus.all := by
  cases s <;> decide

theorem ReplyType.mem_all (r : ReplyType) : r ∈ ReplyType.all := by
  cases r <;> decide

theorem QueryType.mem_all (t : QueryType) : t ∈ QueryType.all := by
  cases t <;> decide

theorem QueryStatus.nodup_all : QueryStatus.all.Nodup := by decide

theorem ReplyType.nodup_all : ReplyType.all.Nodup := by decide

theorem QueryType.nodup_all : QueryType.all.Nodup := by decide

def isBlocked : QueryStatus → Bool
  | .gravity | .regex | .denylist
  | .externalBlockedIP | .externalBlockedNULL | .externalBlockedNXRA
  | .externalBlockedEDE15
  | .gravityCNAME | .regexCNAME | .denylistCNAME
  | .dbbusy | .specialDomain => true
  | .unknown | .forwarded | .cache | .retried | .retriedDNSSEC
  | .inProgress | .cacheStale => false

def isCached : QueryStatus → Bool
  | .cache | .cacheStale => true
  | _ => false

/-- The statuses `_query_set_status` writes through to the DNS cache; the others are intermittent.
-/
def isMemorised : QueryStatus → Bool
  | .unknown | .dbbusy | .inProgress | .retried | .retriedDNSSEC => false
  | _ => true

def isExternal : QueryStatus → Bool
  | .externalBlockedNXRA | .externalBlockedNULL
  | .externalBlockedIP | .externalBlockedEDE15 => true
  | _ => false

/-- The position in `enum query_type`, the bit index of the query type filter of a regex. -/
def QueryType.index : QueryType → Nat
  | .none => 0 | .a => 1 | .aaaa => 2 | .any => 3 | .srv => 4 | .soa => 5
  | .ptr => 6 | .txt => 7 | .naptr => 8 | .mx => 9 | .ds => 10
  | .rrsig => 11 | .dnskey => 12 | .ns => 13 | .other => 14
  | .svcb => 15 | .https => 16

/-- Query type of a wire type: `qtype_map` of `_Lorentz_new_query`. -/
def queryTypeOfWire (qtype : Nat) : QueryType :=
  match qtype with
  | 0 => .none
  | 1 => .a
  | 2 => .ns
  | 6 => .soa
  | 12 => .ptr
  | 15 => .mx
  | 16 => .txt
  | 28 => .aaaa
  | 33 => .srv
  | 35 => .naptr
  | 43 => .ds
  | 46 => .rrsig
  | 48 => .dnskey
  | 64 => .svcb
  | 65 => .https
  | 255 => .any
  | _ => .other

/-- One 32 bit counter of `countersStruct`, which wraps. -/
abbrev Counter := UInt32

def MAXITER : Nat := 1000
def REPLY_TIMEOUT : Nat := 30
def OVERTIME_INTERVAL : Int := 600
def OVERTIME_SLOTS : Nat := 145
def RECYCLE_ARRAY_LEN : Nat := 65535
def SHM_TIME_EPOCH : Int := 1767225600
def MAXDOMAINLEN : Nat := 256

structure QueryFlags where
  allowed : Bool
  complete : Bool
  blocked : Bool
  responseCalculated : Bool
  upstreamCounted : Bool
  changed : Bool
  imported : Bool
  deriving DecidableEq, Repr

structure QueriesData where
  magic : Bool
  timestamp : ℚ
  response : ℚ
  db : Option Int
  domainID : Nat
  clientID : Nat
  upstreamID : Option Nat
  cacheID : Option Nat
  id : Int
  cnameDomainID : Option Nat
  ede : Int
  qtype : Nat
  status : QueryStatus
  type : QueryType
  privacylevel : PrivacyLevel
  reply : ReplyType
  dnssec : DnssecStatus
  flags : QueryFlags
  deriving DecidableEq

structure UpstreamsData where
  magic : Bool
  ip : List Char
  port : Nat
  count : Int
  failed : Int
  lastQuery : ℚ
  inDatabase : Bool
  dbID : Nat
  deriving DecidableEq

structure ClientFlags where
  foundGroup : Bool
  aliasclient : Bool
  rateLimited : Bool
  deriving DecidableEq, Repr

structure ClientsData where
  magic : Bool
  hwlen : Int
  hwaddr : List Nat
  flags : ClientFlags
  count : Int
  blockedcount : Int
  aliasclientID : Option Nat
  id : Nat
  rateLimit : Nat
  numQueriesARP : Nat
  groups : List Int
  ip : List Char
  name : List Char
  iface : List Char
  firstSeen : ℚ
  lastQuery : ℚ
  overTime : Nat → Int
  inDatabase : Bool
  dbID : Nat

structure DomainsData where
  magic : Bool
  count : Int
  blockedcount : Int
  cnameRefcount : Int
  id : Nat
  domain : List Char
  lastQuery : ℚ
  inDatabase : Bool
  dbID : Nat
  deriving DecidableEq

structure DNSCacheData where
  magic : Bool
  domainID : Nat
  clientID : Nat
  cnameDomainID : Option Nat
  listID : Int
  refcount : Int
  expires : Nat
  cnameTarget : Option (List Char)
  allowed : Bool
  blockingStatus : QueryStatus
  forceReply : ReplyType
  queryType : QueryType
  deriving DecidableEq, Repr

structure OverTimeData where
  timestamp : Int
  total : Int
  blocked : Int
  cached : Int
  forwarded : Int
  deriving DecidableEq, Repr

def QueriesData.wiped : QueriesData where
  magic := false
  timestamp := 0
  response := 0
  db := some 0
  domainID := 0
  clientID := 0
  upstreamID := some 0
  cacheID := some 0
  id := 0
  cnameDomainID := some 0
  ede := 0
  qtype := 0
  status := .unknown
  type := .none
  privacylevel := .showAll
  reply := .unknown
  dnssec := .unknown
  flags := ⟨false,false,false,false,false,false,false⟩

def UpstreamsData.wiped : UpstreamsData where
  magic := false
  ip := []
  port := 0
  count := 0
  failed := 0
  lastQuery := 0
  inDatabase := false
  dbID := 0

def ClientsData.wiped : ClientsData where
  magic := false
  hwlen := 0
  hwaddr := []
  flags := ⟨false,false,false⟩
  count := 0
  blockedcount := 0
  aliasclientID := some 0
  id := 0
  rateLimit := 0
  numQueriesARP := 0
  groups := []
  ip := []
  name := []
  iface := []
  firstSeen := 0
  lastQuery := 0
  overTime := fun _ => 0
  inDatabase := false
  dbID := 0

def DomainsData.wiped : DomainsData where
  magic := false
  count := 0
  blockedcount := 0
  cnameRefcount := 0
  id := 0
  domain := []
  lastQuery := 0
  inDatabase := false
  dbID := 0

def DNSCacheData.wiped : DNSCacheData where
  magic := false
  domainID := 0
  clientID := 0
  cnameDomainID := some 0
  listID := 0
  refcount := 0
  expires := 0
  cnameTarget := none
  allowed := false
  blockingStatus := .unknown
  forceReply := .unknown
  queryType := .none

/-- `db_column_int`: what an integer of the database is as an `int`. -/
def columnInt (n : Int) : Int := Int.bmod n (2^32)

end Lorentz
