import Lorentz.SharedMemory
import Lorentz.Library.Intern

/-!
The linking tables, whose row ids stand in the stored queries, `queries_to_database` in its
three phases, and the import of the history at the start, row by row while new queries arrive.
-/

set_option autoImplicit false

namespace Lorentz
open Function

def HIDDEN_DOMAIN : List Char := "hidden".toList
def HIDDEN_CLIENT : List Char := "0.0.0.0".toList

def PrivacyLevel.hidesDomains : PrivacyLevel → Bool
  | .showAll => false
  | _ => true

def PrivacyLevel.hidesClients : PrivacyLevel → Bool
  | .showAll | .hideDomains => false
  | _ => true

def Tables.domainText (t : Tables) (level : PrivacyLevel) (domainID : Nat) : List Char :=
  if level.hidesDomains then HIDDEN_DOMAIN
  else match t.getDomain domainID with
    | some d => d.domain
    | none => []

def Tables.getDomainString (t : Tables) (x : QueriesData) : List Char :=
  t.domainText x.privacylevel x.domainID

def Tables.cnameText (t : Tables) (level : PrivacyLevel) : Option Nat → List Char
  | some c => t.domainText level c
  | none => []

def Tables.getCNAMEDomainString (t : Tables) (x : QueriesData) : List Char :=
  t.cnameText x.privacylevel x.cnameDomainID

/-- The address and host name of a client as a query of this privacy level shows them. -/
def Tables.clientText (t : Tables) (level : PrivacyLevel) (clientID : Nat) :
    List Char × List Char :=
  if level.hidesClients then (HIDDEN_CLIENT,HIDDEN_CLIENT)
  else match t.getClient clientID with
    | some c => (c.ip,c.name)
    | none => ([],[])

def Tables.getClientStrings (t : Tables) (x : QueriesData) : List Char × List Char :=
  t.clientText x.privacylevel x.clientID

def UpstreamsData.text (u : UpstreamsData) : Option (List Char) :=
  let text := u.ip ++ '#' :: (Nat.repr u.port).toList
  if text.length < 64 then some text else none

inductive Addinfo where
  | cnameDomain (domain : List Char)
  | listID (id : Int)
  deriving DecidableEq, Repr

inductive AddinfoType where
  | cnameDomain | listID
  deriving DecidableEq, Repr

def AddinfoType.value : AddinfoType → Int
  | .cnameDomain => 1
  | .listID => 2

def ADDINFO_CACHE_SLOTS : Nat := 1024
def KNUTH_PHI32 : Int := 2654435761

def addinfoPack (type : AddinfoType) (key : Int) : Int := key*4+type.value

/-- The slots of `addinfo_id_cache`: packed key and row id, which is zero in an empty slot. -/
abbrev AddinfoCache := Nat → Int × Nat

namespace AddinfoCache

variable (c : AddinfoCache)

def slot (packed : Int) : Nat := (packed*KNUTH_PHI32 % ADDINFO_CACHE_SLOTS).toNat

def lookupFrom (packed : Int) : Nat → Nat → Nat
  | 0, _ => 0
  | n+1, i =>
    if (c i).2 = 0 then 0
    else if (c i).1 = packed then (c i).2
    else lookupFrom packed n ((i+1) % ADDINFO_CACHE_SLOTS)

def lookupAddinfoID (type : AddinfoType) (key : Int) : Nat :=
  lookupFrom c (addinfoPack type key) 8 (slot (addinfoPack type key))

def storeFrom (packed : Int) (dbID : Nat) : Nat → Nat → AddinfoCache
  | 0, _ => c
  | n+1, i =>
    if (c i).2 = 0 ∨ (c i).1 = packed then update c i (packed,dbID)
    else storeFrom packed dbID n ((i+1) % ADDINFO_CACHE_SLOTS)

def storeAddinfoID (type : AddinfoType) (key : Int) (dbID : Nat) : AddinfoCache :=
  storeFrom c (addinfoPack type key) dbID 8 (slot (addinfoPack type key))

end AddinfoCache

structure Links where
  domains : Intern (List Char)
  clients : Intern (List Char × List Char)
  forwards : Intern (List Char)
  addinfos : Intern Addinfo

def Links.empty : Links := ⟨.empty,.empty,.empty,.empty⟩

/-- What phase 1 works on when it links a query. After `budget` statements the next one
fails. -/
structure Linking where
  t : Tables
  links : Links
  addinfoIDs : AddinfoCache
  budget : Option Nat

structure Row where
  timestamp : ℚ
  type : Nat
  status : QueryStatus
  domain : Nat
  client : Nat
  forward : Option Nat
  additionalInfo : Option Nat
  reply : ReplyType
  response : Option ℚ
  dnssec : DnssecStatus
  listID : Option Int
  ede : Int
  deriving DecidableEq, Repr

def isCname (st : QueryStatus) : Bool :=
  st = .gravityCNAME || st = .regexCNAME || st = .denylistCNAME

def Tables.listID (t : Tables) (x : QueriesData) : Option Int :=
  let cacheID := match x.cacheID with
    | some k => some k
    | none => (t.findCacheID x.domainID x.clientID x.type false).1
  match cacheID.bind t.getDNSCache with
  | some d => if d.listID = -1 then none else some d.listID
  | none => none

namespace Linking

variable (s : Linking)

def exec : Option Linking :=
  match s.budget with
  | none => some s
  | some 0 => none
  | some (n+1) => some { s with budget := some n }

/-- `INSERT OR IGNORE` of a content and the id of its row. Of a row that was there before the
`SELECT` gets the id, and where that fails `old` stays. -/
def insertOrIgnore {α : Type} [DecidableEq α] (table : Intern α) (a : α) (old : Nat) :
    Option (Linking × Nat × Intern α) :=
  match s.exec with
  | none => none
  | some s =>
    if table.rows.any (fun r => r.2 = a) then
      match s.exec with
      | none => some (s,old,table)
      | some s => some (s,table.link a)
    else some (s,table.link a)

def linkDomain (x : QueriesData) : Linking × Option Nat :=
  match s.t.getDomain x.domainID with
  | none => (s,some 0)
  | some d =>
    if d.inDatabase then (s,some d.dbID)
    else match s.insertOrIgnore s.links.domains (s.t.getDomainString x) d.dbID with
      | none => (s,none)
      | some (s,r) =>
        ({ s with
          links := { s.links with domains := r.2 }
          t := s.t.setDomain x.domainID { d with inDatabase := true, dbID := r.1 } },some r.1)

def linkClient (x : QueriesData) : Linking × Option Nat :=
  match s.t.getClient x.clientID with
  | none => (s,some 0)
  | some c =>
    if c.inDatabase then (s,some c.dbID)
    else match s.insertOrIgnore s.links.clients (s.t.getClientStrings x) c.dbID with
      | none => (s,none)
      | some (s,r) =>
        ({ s with
          links := { s.links with clients := r.2 }
          t := s.t.setClient x.clientID { c with inDatabase := true, dbID := r.1 } },some r.1)

/-- The outer option is the success of the statement, the inner one whether there is an upstream
server. -/
def linkForward (x : QueriesData) : Linking × Option (Option Nat) :=
  match x.upstreamID with
  | none => (s,some none)
  | some id =>
    match s.t.getUpstream id with
    | none => (s,some none)
    | some u =>
      if u.inDatabase then (s,some (some u.dbID))
      else match u.text with
        | none =>
          ({ s with t := s.t.setUpstream id { u with inDatabase := true } },some (some u.dbID))
        | some text =>
          match s.insertOrIgnore s.links.forwards text u.dbID with
          | none => (s,none)
          | some (s,r) =>
            ({ s with
              links := { s.links with forwards := r.2 }
              t := s.t.setUpstream id { u with inDatabase := true, dbID := r.1 } },
              some (some r.1))

/-- The row of `addinfo_by_id` for a key, from the cache if it is there. -/
def linkAddinfo (type : AddinfoType) (key : Int) (info : Addinfo) : Linking × Option Nat :=
  let aid := s.addinfoIDs.lookupAddinfoID type key
  if aid ≠ 0 then (s,some aid)
  else match s.insertOrIgnore s.links.addinfos info 0 with
    | none => (s,none)
    | some (s,r) =>
      ({ s with
        links := { s.links with addinfos := r.2 }
        addinfoIDs := s.addinfoIDs.storeAddinfoID type key r.1 },some r.1)

def keyOf : Option Nat → Int
  | some i => i
  | none => -1

def linkInfo (x : QueriesData) : Linking × Option (Option Nat) :=
  if isCname x.status then
    let r := s.linkAddinfo .cnameDomain (keyOf x.cnameDomainID)
      (.cnameDomain (s.t.getCNAMEDomainString x))
    (r.1,r.2.map some)
  else match s.t.listID x with
    | none => (s,some none)
    | some id =>
      let r := s.linkAddinfo .listID id (.listID id)
      (r.1,r.2.map some)

/-- The loop of phase 1 for a changed query: the row phase 2 will write, if no statement fails. -/
def linkQuery (x : QueriesData) : Linking × Option Row :=
  match s.linkDomain x with
  | (s,none) => (s,none)
  | (s,some domain) =>
    match s.linkClient x with
    | (s,none) => (s,none)
    | (s,some client) =>
      match s.linkForward x with
      | (s,none) => (s,none)
      | (s,some forward) =>
        match s.linkInfo x with
        | (s,none) => (s,none)
        | (s,some info) => (s,some {
            timestamp := x.timestamp
            type := if x.type ≠ .other then x.type.index else x.qtype+100
            status := x.status
            domain := domain
            client := client
            forward := forward
            additionalInfo := info.filter (0 < ·)
            reply := x.reply
            response := if x.flags.responseCalculated then some x.response else none
            dnssec := x.dnssec
            -- without a row for the CNAME the field stays as it was allocated
            listID := if isCname x.status && info = some 0 then some 0 else s.t.listID x
            ede := x.ede })

end Linking

structure QuerySnap where
  queryID : Nat
  idx : Int
  isNew : Bool
  row : Row
  deriving DecidableEq, Repr

/-- The search for the first query to store, from index `n` backwards; one that cannot be accessed
ends the run. -/
def QueryStore.scanWindow (q : QueryStore) (limit : ℚ) : Nat → Option Nat
  | 0 => some 0
  | n+1 =>
    match q.getQuery (n+1) true with
    | none => none
    | some p =>
      if (q.mem p).timestamp < limit ∨ (q.mem p).flags.imported = true then some (n+2)
      else q.scanWindow limit n

def QueryStore.setChanged (q : QueryStore) (p : Nat) (changed : Bool) : QueryStore :=
  q.setQuery p { q.mem p with flags := { (q.mem p).flags with changed := changed } }

structure PhaseOne where
  linking : Linking
  q : QueryStore
  snaps : List QuerySnap
  failed : Bool

/-- The loop of phase 1 over the indices `queryID ≤ i < queryID + n`, with the highest row id
given out. -/
def takeSnapshots : Nat → Nat → Int → Linking → QueryStore → PhaseOne
  | 0, _, _, s, q => ⟨s,q,[],false⟩
  | n+1, queryID, maxid, s, q =>
    match q.getQuery queryID true with
    | none => ⟨s,q,[],true⟩
    | some p =>
      let x := q.mem p
      if x.flags.changed = false then takeSnapshots n (queryID+1) maxid s q
      else match s.linkQuery x with
        | (s,none) => ⟨s,q,[],true⟩
        | (s,some row) =>
          let r := takeSnapshots n (queryID+1) (if x.db.isNone then maxid+1 else maxid) s
            (q.setChanged p false)
          { r with snaps := ⟨queryID,x.db.getD (maxid+1),x.db.isNone,row⟩ :: r.snaps }

def QueryStore.getSnapshotQuery (q : QueryStore) (removedBefore : Nat) (snap : QuerySnap) :
    Option Nat :=
  let shift := (q.removed+(uintMod-removedBefore % uintMod)) % uintMod
  if snap.queryID < shift then none else q.getQuery (snap.queryID-shift) true

def requeueSnapshots (removedBefore : Nat) : List QuerySnap → QueryStore → QueryStore
  | [], q => q
  | snap :: snaps, q =>
    match q.getSnapshotQuery removedBefore snap with
    | none => requeueSnapshots removedBefore snaps q
    | some p => requeueSnapshots removedBefore snaps (q.setChanged p true)

/-- One round of the loop of phase 3: the query it wrote the row id of a new query to. -/
def QueryStore.writeRowID (q : QueryStore) (removedBefore : Nat) (snap : QuerySnap) :
    Option QueryStore :=
  if snap.isNew then (q.getSnapshotQuery removedBefore snap).map
    (fun p => q.setQuery p { q.mem p with db := some snap.idx })
  else none

def writeBack (removedBefore : Nat) : List QuerySnap → QueryStore → QueryStore × Nat
  | [], q => (q,0)
  | snap :: snaps, q =>
    match q.writeRowID removedBefore snap with
    | none => writeBack removedBefore snaps q
    | some q =>
      let r := writeBack removedBefore snaps q
      (r.1,r.2+1)

/-- `memdb_queries_maxid` after the snapshots in `snaps` were committed. -/
def committedMaxid (snaps : List QuerySnap) (maxid : Int) : Int :=
  snaps.foldl (fun m snap => if snap.isNew && snap.idx > m then snap.idx else m) maxid

/-- `REPLACE INTO query_storage` for one snapshot after the other. -/
def replaceRows (snaps : List QuerySnap) (rows : Int → Option Row) : Int → Option Row :=
  snaps.foldl (fun rows snap => update rows snap.idx (some snap.row)) rows

/-- How far a run of `queries_to_database` has come when it does not hold the lock. -/
inductive Stage where
  | snapped
  | committed (succeeded : Nat)
  | failed
  deriving DecidableEq, Repr

structure Transfer where
  removedBefore : Nat
  snaps : List QuerySnap
  stage : Stage
  deriving DecidableEq, Repr

structure Archive where
  sys : System
  importDone : Bool
  links : Links
  addinfoIDs : AddinfoCache
  rows : Int → Option Row
  maxid : Int
  run : Option Transfer

/-- `start`, `commit` and `finish` are the parts of a `queries_to_database`. Their arguments say
what succeeds: begin and end of the transaction of phase 1, the statements on the linking tables
before one fails, the rows written in phase 2 and the transaction around them. -/
inductive DbEvent where
  | base (e : Event)
  | start (now : ℚ) (beginOk : Bool) (linkError : Option Nat) (endOk : Bool)
  | commit (succeeded : Nat) (ok : Bool)
  | finish
  | deleteOld (mintime : ℚ)

namespace Archive

variable (a : Archive)

def withQueries (q : QueryStore) : Archive :=
  { a with sys := { a.sys with store := { a.sys.store with q := q } } }

def lock : Archive := { a with sys := { a.sys with store := a.sys.store.lockShm } }

/-- Phase 1 behind the lock, from index `last` on. If the transaction cannot be ended the linking
tables are rolled back, but not what the shared memory and the cache of `addinfo_by_id` remember.
-/
def snapshot (last : Nat) (linkError : Option Nat) (endOk : Bool) : Archive :=
  let store := a.sys.store
  let q := store.q
  let r := takeSnapshots (q.queries-last) last a.maxid ⟨store.t,a.links,a.addinfoIDs,linkError⟩ q
  if endOk = false then
    { a with
      sys := { a.sys with store := { store with
        q := requeueSnapshots q.removed r.snaps r.q, t := r.linking.t } }
      addinfoIDs := r.linking.addinfoIDs }
  else
    { a with
      sys := { a.sys with store := { store with q := r.q, t := r.linking.t } }
      links := r.linking.links
      addinfoIDs := r.linking.addinfoIDs
      run := some ⟨q.removed,r.snaps,if r.failed then .failed else .snapped⟩ }

def start (now : ℚ) (beginOk : Bool) (linkError : Option Nat) (endOk : Bool) : Archive :=
  if a.sys.store.config.privacylevel = .maximum ∨ a.sys.store.q.queries = 0 ∨
      a.importDone = false then a
  else
    let a := a.lock
    let q := a.sys.store.q
    match q.scanWindow (now-REPLY_TIMEOUT) (q.queries-1) with
    | none => a
    | some last => if last = q.queries ∨ beginOk = false then a else a.snapshot last linkError endOk

def finish (tr : Transfer) : Archive :=
  let a := { a.lock with run := none }
  match tr.stage with
  | .snapped => a
  | .failed => a.withQueries (requeueSnapshots tr.removedBefore tr.snaps a.sys.store.q)
  | .committed succeeded =>
    let q := requeueSnapshots tr.removedBefore (tr.snaps.drop succeeded) a.sys.store.q
    let r := writeBack tr.removedBefore (tr.snaps.take succeeded) q
    { a.withQueries r.1 with
      maxid := if r.2 > 0 then committedMaxid (tr.snaps.take succeeded) a.maxid else a.maxid }

def step : DbEvent → Archive
  | .base e => { a with sys := a.sys.step e }
  | .start now beginOk linkError endOk =>
    match a.run with
    | some _ => a
    | none => a.start now beginOk linkError endOk
  | .commit succeeded ok =>
    match a.run with
    | some ⟨removedBefore,snaps,.snapped⟩ =>
      if ok then { a with
        rows := replaceRows (snaps.take succeeded) a.rows
        run := some ⟨removedBefore,snaps,.committed succeeded⟩ }
      else { a with run := some ⟨removedBefore,snaps,.failed⟩ }
    | _ => a
  | .finish =>
    match a.run with
    | some ⟨_,_,.snapped⟩ | none => a
    | some tr => a.finish tr
  | .deleteOld mintime =>
    { a with rows := fun i => (a.rows i).filter (fun r => ¬ r.timestamp ≤ mintime) }

end Archive

open Counting

def INET6_ADDRSTRLEN : Nat := 46

/-- A column as text, and the number that the driver reads from it. -/
structure InfoColumn where
  text : List Char
  int : Int
  deriving DecidableEq, Repr

/-- A row of the view `queries`. A reply time that is no floating point number is `none`. -/
structure HistoryRow where
  timestamp : ℚ
  type : Int
  status : Int
  domain : Option (List Char)
  client : Option (List Char)
  forward : Option (List Char)
  additionalInfo : Option InfoColumn
  replyType : Int
  replyTime : Option ℚ
  dnssec : Int
  deriving DecidableEq

/-- The fields of a row that can be imported. `qtype` is only known for types behind the
offset. -/
structure HistoryQuery where
  type : QueryType
  qtype : Option Nat
  status : QueryStatus
  domain : List Char
  client : List Char
  reply : ReplyType
  dnssec : DnssecStatus
  deriving DecidableEq, Repr

def DnssecStatus.all : List DnssecStatus :=
  [.unknown,.secure,.insecure,.bogus,.abandoned,.truncated]

def memberOf {α : Type} (all : List α) (n : Int) : Option α :=
  if n < 0 then none else all[n.toNat]?

def historyType (type : Int) : Option (QueryType × Option Nat) :=
  match memberOf QueryType.all type with
  | some t => some (t,none)
  | none => if 100 < type ∧ type < 100+65535 then some (.other,some (type-100).toNat) else none

def isLocalhost (ip : List Char) : Bool :=
  ip = "127.0.0.1".toList || ip = "::1".toList

def HistoryRow.check (ignoreLocalhost : Bool) (r : HistoryRow) : Option HistoryQuery :=
  if r.timestamp < 1483228800 then none
  else do
    let type ← historyType r.type
    let status ← memberOf QueryStatus.all r.status
    let domain ← r.domain
    let client ← r.client
    if ignoreLocalhost && isLocalhost client then none
    else
      let reply ← memberOf ReplyType.all r.replyType
      let dnssec ← memberOf DnssecStatus.all r.dnssec
      some ⟨type.1,type.2,status,domain,client,reply,dnssec⟩

def HistoryRow.negativeReplyTime (r : HistoryRow) : Bool := r.replyTime.any (fun t => t < 0)

def HistoryRow.importable (ignoreLocalhost : Bool) (r : HistoryRow) : Bool :=
  (r.check ignoreLocalhost).isSome && !r.negativeReplyTime

def whiteSpace : List Char := [' ','\t','\n','\x0b','\x0c','\r']

def scanUnsigned (s : List Char) : Option Nat :=
  let s := s.dropWhile (fun c => whiteSpace.contains c)
  let negative := s.head? = some '-'
  let s := if s.head? = some '-' ∨ s.head? = some '+' then s.tail else s
  let digits := s.takeWhile Char.isDigit
  let value := digits.foldl (fun n c => n*10+(c.toNat-48)) 0
  if digits = [] then none
  else if value ≥ 18446744073709551616 then some 4294967295
  else some ((if negative then 18446744073709551616-value else value) % 4294967296)

def scanUpstreamText (buffer : List Char) : List Char × Nat :=
  let addr := (buffer.takeWhile (fun c => c ≠ '#')).take INET6_ADDRSTRLEN
  if addr = [] then ([],53)
  else match buffer.drop addr.length with
    | '#' :: rest => (addr,(scanUnsigned rest).getD 53 % 65536)
    | _ => (addr,53)

def Tables.importUpstream (t : Tables) (forward : Option (List Char)) : Option Nat × Tables :=
  match forward with
  | none | some [] => (none,t)
  | some buffer =>
    let a := scanUpstreamText buffer
    let u := t.findUpstreamID a.1 a.2
    (some u.1,u.2)

def Tables.aliasclientOf (t : Tables) (managedBy : Option Nat) : Option Nat :=
  managedBy.filter (fun a => a < t.numClients && (t.getClient a).any (fun c => c.flags.aliasclient))

def importedQuery (old : QueriesData) (r : HistoryRow) (h : HistoryQuery) (id domainID clientID : Nat)
    (upstreamID : Option Nat) : QueriesData :=
  { old with
    magic := true
    timestamp := r.timestamp
    type := h.type
    qtype := h.qtype.getD old.qtype
    domainID := domainID
    clientID := clientID
    upstreamID := upstreamID
    cacheID := none
    id := id
    dnssec := h.dnssec
    reply := h.reply
    response := r.replyTime.getD 0
    cnameDomainID := none
    ede := -1
    flags := { old.flags with
      responseCalculated := r.replyTime.isSome
      complete := true
      blocked := false
      allowed := false
      imported := true
      changed := false } }

def QueryStore.importQuery (q : QueryStore) (p : Nat) (x : QueriesData) : QueryStore :=
  { q with
    mem := update q.mem p x
    querytype := increment q.querytype x.type
    reply := increment q.reply x.reply }

/-- The tables with the query counted for its client and its domain, whose IDs are
returned. -/
def Tables.importQuery (w : World) (g : Gravity) (managedBy : Option Nat) (r : HistoryRow)
    (h : HistoryQuery) (t : Tables) : (Nat × Nat) × Tables :=
  let timeidx := t.getOverTimeID (timeT r.timestamp)
  let d := t.findDomainID h.domain true
  let c := d.2.findClientID w g (d.2.aliasclientOf managedBy) h.client r.timestamp
  let t := c.2.setClient c.1 { c.2.clients c.1 with lastQuery := r.timestamp }
  let t := t.changeClientcount c.1 0 0 (some timeidx) 1
  ((d.1,c.1),t.setDomain d.1 { t.domains d.1 with lastQuery := r.timestamp })

def Store.importCname (s : Store) (p : Nat) (timestamp : ℚ) (text : List Char) : Store :=
  let d := s.t.findDomainID text false
  ({ s with t := d.2.modifyDomain d.1 (fun x => { x with
      lastQuery := timestamp, cnameRefcount := x.cnameRefcount+1 }) } : Store).modifyQuery p
    (fun x => { x with cnameDomainID := some d.1 })

def Store.importListID (s : Store) (p : Nat) (listID : Int) : Store :=
  let query := s.q.mem p
  let k := s.t.findCacheID query.domainID query.clientID query.type true
  let t := match k.1 with
    | some k' => k.2.modifyCache k' (fun x => { x with refcount := x.refcount+1, listID := listID })
    | none => k.2
  ({ s with t := t } : Store).modifyQuery p (fun x => { x with cacheID := k.1 })

def Store.importInfo (s : Store) (p : Nat) (r : HistoryRow) (status : QueryStatus) : Store :=
  match r.additionalInfo with
  | none => s
  | some info =>
    if info.text = [] then s
    else if isCname status then s.importCname p r.timestamp info.text
    else s.importListID p info.int

def Store.countUpstream (s : Store) (p : Nat) (timestamp : ℚ) : Store :=
  match (s.q.mem p).upstreamID with
  | none => s
  | some u =>
    match s.t.getUpstream u with
    | none => s
    | some x =>
      ({ s with t := s.t.setUpstream u { x with lastQuery := timestamp, count := x.count+1 } } :
        Store).modifyQuery p (fun x => { x with flags := { x.flags with upstreamCounted := true } })

def Store.importStatus (s : Store) (p : Nat) (r : HistoryRow) (status : QueryStatus) : Store :=
  let s := s.querySetStatus p status true
  if isBlocked status then s.countBlocked p (some (s.q.mem p).domainID) (some (s.q.mem p).clientID)
  else if status = .forwarded ∨ status = .retried ∨ status = .retriedDNSSEC then
    s.countUpstream p r.timestamp
  else s

def Store.importRow (w : World) (managedBy : Option Nat) (s : Store) (r : HistoryRow)
    (h : HistoryQuery) (upstreamID : Option Nat) (queryIndex : Nat) : Store :=
  let i := s.t.importQuery w s.gravity managedBy r h
  match s.q.getQuery queryIndex false with
  | none => { s with t := i.2 }
  | some p =>
    let x := importedQuery (s.q.mem p) r h s.q.queries i.1.1 i.1.2 upstreamID
    let s : Store := { s with q := s.q.importQuery p x, t := i.2 }
    (s.importInfo p r h.status).importStatus p r h.status

/-- `init_queries_shm_sz` with `counters->queries` set to the number of stored queries. -/
def QueryStore.reserve (q : QueryStore) (pagesize objsize counted : Nat) : QueryStore :=
  { q with
    queries := counted
    queriesMax := q.queriesMax+
      if counted = 1 then pagesize
      else SharedMemory.getOptimalObjectSize pagesize objsize counted }

/-- `count_queries_on_disk`, with the number of queries expected; a negative answer is an error.
-/
def Store.countQueriesOnDisk (s : Store) (objsize : Nat) (answer : Int) : Nat × Store :=
  if answer < 0 then (0,s)
  else
    let s := s.lockShm
    (answer.toNat,{ s with q := s.q.reserve s.config.pagesize objsize answer.toNat })

def Tables.importAliasclient (t : Tables) (now : ℚ) (row : Nat × List Char) : Tables :=
  let ip := "aliasclient-".toList ++ (Nat.repr row.1).toList
  let head (c : ClientsData) : ClientsData := { c with
    count := 0
    name := row.2
    flags := { c.flags with aliasclient := true }
    aliasclientID := some row.1 }
  match t.clientsLookup.find? (fun i => (t.getClient i).any (fun c => c.ip = ip)) with
  | some id => t.setClient id (head (t.clients id))
  | none =>
    let n := getNextFreeID t.clientsRecycle t.numClients
    { t with
      clients := update t.clients n.1 (head { newClient n.1 ip now with numQueriesARP := 0 })
      clientsLookup := n.1 :: t.clientsLookup
      clientsRecycle := n.2
      numClients := t.numClients+1 }

def Tables.importAliasclients (now : ℚ) (rows : List (Nat × List Char)) : Tables :=
  rows.foldl (fun t row => t.importAliasclient now row) .empty

inductive ImportPhase where
  | reading | finished | stopped
  deriving DecidableEq, Repr

/-- The store and the loop of `DB_read_queries` with the rows it has not read yet. -/
structure HistoryImport where
  store : Store
  counted : Nat
  imported : Nat
  rows : List HistoryRow
  phase : ImportPhase

/-- The next row is read, a query arrives (in two sections if its hardware address is asked for),
or the loop is left early for an error or the end of the process. -/
inductive ImportEvent where
  | next (w : World) (managedBy : Option Nat)
  | newQuery (w : World) (pk : Packet)
  | registerQuery (w : World) (pk : Packet)
  | resumeQuery (w : World) (pk : Packet) (clientID domainID : Nat) (hwaddr : Option (List Nat))
  | stop

namespace HistoryImport

variable (s : HistoryImport)

def storeRow (w : World) (managedBy : Option Nat) (r : HistoryRow) (h : HistoryQuery)
    (rest : List HistoryRow) : HistoryImport :=
  let store := s.store.lockShm
  let u := store.t.importUpstream r.forward
  let store : Store := { store with t := u.2 }
  if r.negativeReplyTime then { s with store := store, rows := rest }
  else if s.imported ≥ s.counted then
    { s with store := store, rows := rest, imported := s.imported+1, phase := .finished }
  else
    { s with
      store := store.importRow w managedBy r h u.1 s.imported
      rows := rest
      imported := s.imported+1 }

def next (w : World) (managedBy : Option Nat) : HistoryImport :=
  match s.rows with
  | [] => { s with phase := .finished }
  | r :: rest =>
    match r.check s.store.config.ignoreLocalhost with
    | none => { s with rows := rest }
    | some h => s.storeRow w managedBy r h rest

def packet (pk : Packet) : Packet :=
  { pk with managedBy := s.store.t.aliasclientOf pk.managedBy }

def step : ImportEvent → HistoryImport
  | .next w managedBy => if s.phase = .reading then s.next w managedBy else s
  | .newQuery w pk => { s with store := (s.store.newQuery w (s.packet pk)).2 }
  | .registerQuery w pk => { s with store := (s.store.registerQuery w (s.packet pk)).2 }
  | .resumeQuery w pk clientID domainID hwaddr =>
    { s with store := (s.store.resumeQuery w pk clientID domainID hwaddr).2 }
  | .stop => if s.phase = .reading then { s with phase := .stopped } else s

def run (events : List ImportEvent) : HistoryImport := events.foldl HistoryImport.step s

end HistoryImport

/-- Fixed before the import: the settings, the lists, the alias-clients, the answer to the count
and the rows to be read. -/
structure ImportSetup where
  config : Config
  gravity : Gravity
  statics : Statics
  aliasclients : List (Nat × List Char)
  now : ℚ
  objsize : Nat
  answer : Int
  answerLt : answer < 2^31
  rows : List HistoryRow

def ImportSetup.start (u : ImportSetup) : HistoryImport :=
  let store : Store := ⟨.empty u.config.pagesize,.importAliasclients u.now u.aliasclients,u.gravity,
    u.statics,u.config⟩
  let c := store.countQueriesOnDisk u.objsize u.answer
  ⟨c.2,c.1,0,u.rows,.reading⟩

end Lorentz
