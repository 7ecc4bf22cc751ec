import Lorentz.ParseList
import Lorentz.Records
import Lorentz.Library.Split

/-!
The gravity database as the engine reads it, and the list lookups of one check: on the client,
its row of the regex table, one cache record and the variables of the thread.
-/

set_option autoImplicit false

namespace Lorentz

structure Adlist where
  id : Int
  enabled : Bool
  type : Nat
  deriving DecidableEq, Repr

structure DomainlistRow where
  id : Int
  type : Nat
  domain : List Char
  enabled : Bool
  deriving DecidableEq, Repr

structure GravityDb where
  gravity : List (List Char × Int)
  antigravity : List (List Char × Int)
  adlist : List Adlist
  adlistByGroup : List (Int × Int)
  group : List (Int × Bool)
  domainlist : List DomainlistRow
  domainlistByGroup : List (Int × Int)
  client : List (Int × List Char)
  clientByGroup : List (Int × Int)
  abpDomains : Bool
  deriving DecidableEq, Repr

structure ViewRow where
  domain : List Char
  id : Int
  groupID : Option Int
  deriving DecidableEq, Repr

/-- The `group_id` column of a view: one row with no group for an item without groups, else one
for each enabled group of it. -/
def GravityDb.groupColumn (db : GravityDb) (byGroup : List (Int × Int)) (item : Int) :
    List (Option Int) :=
  let groups := (byGroup.filter (fun r => r.1 = item)).map Prod.snd
  if groups = [] then [none]
  else (groups.filter (fun g => db.group.contains (g,true))).map some

def GravityDb.adlistView (db : GravityDb) (use : Adlist → Bool)
    (table : List (List Char × Int)) : List ViewRow :=
  table.flatMap (fun r =>
    if db.adlist.any (fun a => a.id = r.2 && a.enabled && use a)
    then (db.groupColumn db.adlistByGroup r.2).map (fun g => ⟨r.1,r.2,g⟩)
    else [])

def GravityDb.vwGravity (db : GravityDb) : List ViewRow :=
  db.adlistView (fun _ => true) db.gravity

def GravityDb.vwAntigravity (db : GravityDb) : List ViewRow :=
  db.adlistView (fun a => a.type = 1) db.antigravity

/-- `GRAVITY_LIST_VIEW(name, type)`. -/
def GravityDb.domainlistView (db : GravityDb) (type : Nat) : List ViewRow :=
  db.domainlist.flatMap (fun r =>
    if r.enabled && r.type = type
    then (db.groupColumn db.domainlistByGroup r.id).map (fun g => ⟨r.domain,r.id,g⟩)
    else [])

def GravityDb.vwAllowlist (db : GravityDb) : List ViewRow := db.domainlistView 0
def GravityDb.vwDenylist (db : GravityDb) : List ViewRow := db.domainlistView 1
def GravityDb.vwRegexAllowlist (db : GravityDb) : List ViewRow := db.domainlistView 2
def GravityDb.vwRegexDenylist (db : GravityDb) : List ViewRow := db.domainlistView 3

/-- The condition `group_id IN` the groups bound to the statement. -/
def ViewRow.inGroups (r : ViewRow) (groups : List Int) : Bool :=
  match r.groupID with
  | none => false
  | some g => groups.contains g

/-- `SELECT id FROM view WHERE domain = ? AND group_id IN groups`, first row. -/
def selectRow (view : List ViewRow) (domain : List Char) (groups : List Int) : Option Int :=
  (view.find? (fun r => r.domain = domain && r.inGroups groups)).map ViewRow.id

def onList (view : List ViewRow) (domain : List Char) (groups : List Int) : Bool :=
  view.any (fun r => r.domain = domain && r.inGroups groups)

theorem selectRow_isSome (view : List ViewRow) (domain : List Char) (groups : List Int) :
    (selectRow view domain groups).isSome = onList view domain groups := by
  rw [Bool.eq_iff_iff]
  simp [selectRow,onList]

theorem onList_nil_groups (view : List ViewRow) (domain : List Char) :
    onList view domain [] = false := by
  have h : ∀ r : ViewRow, r.inGroups [] = false := by
    intro r
    unfold ViewRow.inGroups
    cases r.groupID <;> simp
  simp [onList,h]

/-- A compiled regex filter; `queryType` is the bit mask of its type filter. -/
structure RegexData where
  databaseID : Int
  available : Bool
  string : List Char
  inverted : Bool
  queryType : Nat
  reply : ReplyType
  cnameTarget : Option (List Char)
  deriving DecidableEq, Repr

/-- What this development does not open: the regex compiler and matcher, and the bits by which a
client entry matches an address. -/
structure Engine where
  compileRegex : List Char → RegexData
  regexec : List Char → List Char → Bool
  subnetMatch : List Char → List Char → Nat

/-- What the network table of the long-term database answers for an address. -/
structure NetworkTable where
  getMACfromIP : List Char → Option (List Char)
  getNameFromIP : List Char → Option (List Char)
  getIfaceFromIP : List Char → Option (List Char)

/-- The gravity side: the database, whether it is open, the list presence flags of
`gravityDB_open` and the compiled filters. -/
structure Gravity where
  db : GravityDb
  opened : Bool
  abpFormat : Bool
  hasAntigravity : Bool
  hasExactAllowlist : Bool
  hasExactDenylist : Bool
  denyRegex : List RegexData
  allowRegex : List RegexData
  deriving DecidableEq, Repr

def Gravity.gravityView (g : Gravity) (antigravity : Bool) : List ViewRow :=
  if antigravity then g.db.vwAntigravity else g.db.vwGravity

/-- The filters `read_regex_table` compiles, one for each non-empty entry of the view. Tables are
ordered by id, so the `GROUP BY` only drops repeated rows. -/
def readRegexTable (e : Engine) (view : List ViewRow) : List RegexData :=
  (((view.map (fun r => (r.id,r.domain))).dedup).filter (fun r => !r.2.isEmpty)).map
    (fun r => { e.compileRegex r.2 with databaseID := r.1 })

/-- The state after a successful `gravityDB_reopen` and `read_regex_from_database`. -/
def Gravity.load (e : Engine) (db : GravityDb) : Gravity :=
  { db := db
    opened := true
    abpFormat := db.abpDomains
    hasAntigravity := !db.antigravity.isEmpty
    hasExactAllowlist := !db.vwAllowlist.isEmpty
    hasExactDenylist := !db.vwDenylist.isEmpty
    denyRegex := readRegexTable e db.vwRegexDenylist
    allowRegex := readRegexTable e db.vwRegexAllowlist }

def GravityDb.empty : GravityDb := ⟨[],[],[],[],[(0,true)],[],[],[],[],false⟩

/-- The row `reload_per_client_regex` writes for these groups, deny filters first. -/
def Gravity.regexRow (g : Gravity) (groups : List Int) (regexID : Nat) : Bool :=
  let enabled (view : List ViewRow) (r : RegexData) : Bool :=
    view.any (fun v => v.id = r.databaseID && v.inGroups groups)
  if regexID < g.denyRegex.length then
    (g.denyRegex[regexID]?).any (enabled g.db.vwRegexDenylist)
  else
    (g.allowRegex[regexID - g.denyRegex.length]?).any (enabled g.db.vwRegexAllowlist)

def Gravity.filters (g : Gravity) : RegexType → List RegexData
  | .deny => g.denyRegex
  | .allow => g.allowRegex

def Gravity.regexID (g : Gravity) (t : RegexType) (index : Nat) : Nat :=
  match t with
  | .deny => index
  | .allow => index + g.denyRegex.length

/-- The file-scope variables of the resolver thread that a check sets. -/
structure Statics where
  forceNextDNSReply : ReplyType
  blockingreason : String
  cacheStatus : QueryStatus
  cnameTarget : Option (List Char)
  lastRegexIdx : Int
  deriving DecidableEq, Repr

def Statics.initial : Statics := ⟨.unknown,"<not set>",.unknown,none,-1⟩

def Statics.unsetBlockingMetadata (st : Statics) : Statics :=
  { st with blockingreason := "<not set>", cnameTarget := none }

/-- What a check runs against; `busy n` if its `n`-th access to the gravity database finds it
unavailable. -/
structure World where
  engine : Engine
  network : NetworkTable
  sscanfMAC : List Char → Option (List Nat)
  printMAC : List Nat → List Char
  macNames : Bool
  busy : Nat → Bool

/-- An empty network table, a database that is never busy, and filters that match the text they
are written as. -/
def World.plain : World where
  engine :=
    { compileRegex := fun s => ⟨0,true,s,false,0,.unknown,none⟩
      regexec := fun r s => decide (r = s)
      subnetMatch := fun entry ip => if entry = ip then 128 else 0 }
  network := ⟨fun _ => none,fun _ => none,fun _ => none⟩
  sscanfMAC := fun _ => none
  printMAC := fun _ => []
  macNames := false
  busy := fun _ => false

structure CheckState where
  client : ClientsData
  row : Nat → Bool
  cache : DNSCacheData
  allowed : Bool
  statics : Statics
  tick : Nat

def lower (s : List Char) : List Char := s.map Char.toLower

/-- The client entry with the most matching bits, the largest id among equals. -/
def chosenByAddress (w : World) (db : GravityDb) (ip : List Char) : Option Int :=
  let bits (r : Int × List Char) : Nat := w.engine.subnetMatch r.2 ip
  let most := (db.client.map bits).foldl max 0
  if most = 0 then none
  else ((db.client.filter (fun r => bits r = most)).map Prod.fst).max?

/-- `SELECT id FROM client WHERE lower(ip) = lower(?)`. -/
def chosenByText (db : GravityDb) (text : List Char) : Option Int :=
  (db.client.find? (fun r => lower r.2 = lower text)).map Prod.fst

/-- The hardware address `get_client_groupids` goes on with, and the client with the one the
network table knew if it had none. -/
def clientHwaddr (w : World) (client : ClientsData) : Option (List Char) × ClientsData :=
  let synthesized (c : ClientsData) : Option (List Char) :=
    if c.hwlen = 6 then some (w.printMAC c.hwaddr) else none
  match w.network.getMACfromIP client.ip with
  | none => (synthesized client,client)
  | some hw =>
    if hw.length > 3 && lower (hw.take 3) = "ip-".toList then (synthesized client,client)
    else if client.hwlen ≠ 6 then
      match w.sscanfMAC hw with
      | some data => (some hw,{ client with hwaddr := data, hwlen := 6 })
      | none => (some hw,client)
    else (some hw,client)

def clientHostname (w : World) (client : ClientsData) : Option (List Char) :=
  if client.name ≠ [] then some (client.name.take (MAXDOMAINLEN-1))
  else match w.network.getNameFromIP client.ip with
    | some name => if name = [] then none else some name
    | none => none

def clientInterface (w : World) (client : ClientsData) : Option (List Char) :=
  if client.iface ≠ [] then some client.iface else w.network.getIfaceFromIP client.ip

/-- The client entry chosen, and the client as it is then; tried are address, hardware address,
host name, interface. -/
def chosenMatch (w : World) (db : GravityDb) (client : ClientsData) :
    Option Int × ClientsData :=
  match chosenByAddress w db client.ip with
  | some id => (some id,client)
  | none =>
    let (hw,client) := if w.macNames then clientHwaddr w client else (none,client)
    let byHwaddr := hw.bind (chosenByText db)
    let byName := byHwaddr.orElse (fun _ => (clientHostname w client).bind (chosenByText db))
    let byIface := byName.orElse (fun _ =>
      (clientInterface w client).bind (fun i => chosenByText db (':' :: i)))
    (byIface,client)

def groupsOf (db : GravityDb) (chosen : Option Int) : List Int :=
  match chosen with
  | none => [0]
  | some id => (db.clientByGroup.filter (fun r => r.1 = id)).map Prod.snd

def getClientGroupids (w : World) (db : GravityDb) (client : ClientsData) : ClientsData :=
  let m := chosenMatch w db client
  { m.2 with groups := groupsOf db m.1, flags := { m.2.flags with foundGroup := true } }

/-- `gravityDB_prepare_client_statements`: resolve the groups of a client without any, and rebuild
its row of the regex table. -/
def gravityDBPrepareClientStatements (w : World) (g : Gravity) (c : CheckState) :
    Bool × CheckState :=
  if !g.opened then (false,c)
  else if c.client.flags.foundGroup then (true,c)
  else if w.busy c.tick then
    (false,{ c with
      client := { c.client with groups := [], flags := { c.client.flags with foundGroup := false } }
      tick := c.tick+1 })
  else
    let client := getClientGroupids w g.db c.client
    let row := if w.busy (c.tick+1) then fun _ => false else g.regexRow client.groups
    (true,{ c with client := client, row := row, tick := c.tick+2 })

/-- One step of a prepared lookup; the id of the row goes to `listID`, left alone when the list is
not available. -/
def domainInList (w : World) (tick : Nat) (view : List ViewRow) (domain : List Char)
    (groups : List Int) (listID : Int) : DbResult × Int :=
  if w.busy tick then (.listNotAvailable,listID)
  else match selectRow view domain groups with
    | some id => (.found,id)
    | none => (.notFound,-1)

/-- The common part of `in_allowlist` and `in_denylist`. -/
def inExactList (w : World) (g : Gravity) (present : Bool) (view : List ViewRow)
    (domain : List Char) (c : CheckState) : DbResult × CheckState :=
  if !present then (.notFound,c)
  else if !g.opened then (.listNotAvailable,c)
  else
    let p := gravityDBPrepareClientStatements w g c
    if !p.1 then (.listNotAvailable,p.2)
    else
      let c := p.2
      if c.client.groups = [] then (.notFound,c)
      else
        let r := domainInList w c.tick view domain c.client.groups c.cache.listID
        (r.1,{ c with cache := { c.cache with listID := r.2 }, tick := c.tick+1 })

def inAllowlist (w : World) (g : Gravity) : List Char → CheckState → DbResult × CheckState :=
  inExactList w g g.hasExactAllowlist g.db.vwAllowlist

def inDenylist (w : World) (g : Gravity) : List Char → CheckState → DbResult × CheckState :=
  inExactList w g g.hasExactDenylist g.db.vwDenylist

def ABP_MAX_SUFFIXES : Nat := 128

/-- The first pass of `gen_abp_offsets` from `pos` on: the start of every suffix while the array
has room. -/
def genAbpFwd : List Char → Nat → List Nat → List Nat
  | [], _, fwd => fwd
  | c :: r, pos, fwd =>
    if fwd.length < ABP_MAX_SUFFIXES then
      if c = '.' then genAbpFwd r (pos+1) (fwd ++ [pos+1]) else genAbpFwd r (pos+1) fwd
    else fwd

/-- The offsets and lengths of `struct abp_patterns`, from the last label on. -/
def genAbpOffsets (g : Gravity) (domain : List Char) : List (Nat × Nat) :=
  if !g.abpFormat then []
  else (genAbpFwd domain 0 [0]).reverse.map (fun off => (off,domain.length-off))

def abpPattern (antigravity : Bool) (suffix : List Char) : List Char :=
  abpIntro antigravity ++ suffix ++ ['^']

/-- The loop of `in_gravity` over the patterns: the first answer but `NOT_FOUND`, and the number
of lookups. -/
def inGravityAbp (w : World) (view : List ViewRow) (groups : List Int) :
    List (List Char) → Nat → Int → DbResult × Int × Nat
  | [], tick, listID => (.notFound,listID,tick)
  | p :: ps, tick, listID =>
    let r := domainInList w tick view p groups listID
    if r.1 = .notFound then inGravityAbp w view groups ps (tick+1) r.2
    else (r.1,r.2,tick+1)

/-- `in_gravity`, with the list id it stores for its caller. -/
def inGravity (w : World) (g : Gravity) (antigravity : Bool) (domain : List Char)
    (listID : Int) (c : CheckState) : DbResult × Int × CheckState :=
  if antigravity && !g.hasAntigravity then (.notFound,listID,c)
  else if !g.opened then (.listNotAvailable,listID,c)
  else
    let p := gravityDBPrepareClientStatements w g c
    if !p.1 then (.listNotAvailable,listID,p.2)
    else
      let c := p.2
      let view := g.gravityView antigravity
      if c.client.groups = [] then (.notFound,listID,c)
      else
        let exact := domainInList w c.tick view domain c.client.groups listID
        let c := { c with tick := c.tick+1 }
        if exact.1 ≠ .notFound then (exact.1,exact.2,c)
        else if !g.abpFormat then (.notFound,exact.2,c)
        else
          let patterns := (genAbpOffsets g domain).map
            (fun s => abpPattern antigravity ((domain.drop s.1).take s.2))
          let r := inGravityAbp w view c.client.groups patterns c.tick exact.2
          (r.1,r.2.1,{ c with tick := r.2.2 })

def RegexData.typeMatches (r : RegexData) (t : QueryType) : Bool :=
  r.queryType = 0 || r.queryType.testBit t.index

def RegexData.hits (e : Engine) (r : RegexData) (enabled : Bool) (t : QueryType)
    (input : List Char) : Bool :=
  r.available && enabled && r.typeMatches t && (e.regexec r.string input != r.inverted)

/-- `match_regex`: the first filter of the client that matches. -/
def matchRegex (e : Engine) (g : Gravity) (type : RegexType) (row : Nat → Bool)
    (t : QueryType) (input : List Char) : Option RegexData :=
  ((g.filters type).zipIdx.find?
    (fun r => r.1.hits e (row (g.regexID type r.2)) t input)).map Prod.fst

def DNSCacheData.noteRegex (d : DNSCacheData) (r : RegexData) : DNSCacheData :=
  { d with
    forceReply := if r.reply = .unknown then d.forceReply else r.reply
    cnameTarget := if r.cnameTarget = none then d.cnameTarget else r.cnameTarget
    listID := r.databaseID }

def inRegex (w : World) (g : Gravity) (type : RegexType) (domain : List Char)
    (c : CheckState) : Bool × CheckState :=
  match matchRegex w.engine g type c.row c.cache.queryType domain with
  | some r => (true,{ c with cache := c.cache.noteRegex r })
  | none => (false,c)

theorem ite_found_eq (p : Prop) [Decidable p] :
    (if p then DbResult.found else .notFound) = .found ↔ p := by
  by_cases h : p <;> simp [h]

/-- The database is open and no access of the check finds it unavailable. -/
structure Available (w : World) (g : Gravity) : Prop where
  opened : g.opened = true
  idle : ∀ n, w.busy n = false

theorem World.plain_available (db : GravityDb) :
    Available World.plain (Gravity.load World.plain.engine db) :=
  ⟨rfl,fun _ => rfl⟩

/-- A client with its groups and its row of the regex table, resolved now if they
were not before. -/
def CheckState.resolve (w : World) (g : Gravity) (c : CheckState) : CheckState :=
  if c.client.flags.foundGroup then c
  else
    let client := getClientGroupids w g.db c.client
    { c with client := client, row := g.regexRow client.groups, tick := c.tick+2 }

section

variable {w : World} {g : Gravity}

variable (h : Available w g)
include h

theorem prepare_of_available (c : CheckState) :
    gravityDBPrepareClientStatements w g c = (true,c.resolve w g) := by
  cases hf : c.client.flags.foundGroup <;>
    simp [gravityDBPrepareClientStatements,CheckState.resolve,h.opened,h.idle,hf]

theorem domainInList_of_available (tick : Nat) (view : List ViewRow) (domain : List Char)
    (groups : List Int) (listID : Int) : (domainInList w tick view domain groups listID).1 =
      if onList view domain groups then .found else .notFound := by
  rw [← selectRow_isSome]
  cases hs : selectRow view domain groups <;> simp [domainInList,h.idle,hs]

theorem inExactList_of_available (present : Bool) (view : List ViewRow)
    (hp : present = false → view = []) (domain : List Char) (c : CheckState) :
    (inExactList w g present view domain c).1 =
      if onList view domain (c.resolve w g).client.groups then .found else .notFound := by
  cases hpr : present with
  | false => simp [inExactList,hp hpr,onList]
  | true =>
    simp only [inExactList,h.opened,prepare_of_available h,Bool.not_true]
    by_cases hg : (c.resolve w g).client.groups = []
    · simp [hg,onList_nil_groups]
    · simp [hg,domainInList_of_available h]

theorem inGravityAbp_of_available (view : List ViewRow) (groups : List Int) (ps : List (List Char))
    (tick : Nat) (listID : Int) : (inGravityAbp w view groups ps tick listID).1 =
      if ps.any (fun p => onList view p groups) then .found else .notFound := by
  induction ps generalizing tick listID with
  | nil => rfl
  | cons p ps ih =>
    have hd := domainInList_of_available h tick view p groups listID
    by_cases hp : onList view p groups = true
    · simp [inGravityAbp,hd,hp]
    · simp [inGravityAbp,hd,hp,ih]

end

end Lorentz
