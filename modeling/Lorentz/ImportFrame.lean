import Lorentz.Library.Cascade
import Lorentz.Remigration

/-!
The gravity tables that an archive of an older version replaces, and what an import leaves:
references between the tables, what is installed when it fails, and the parts not selected.
-/

set_option autoImplicit false

namespace Lorentz

inductive SqlVal where
  | null
  | int (n : Int)
  | real (d : Rat)
  | text (s : List Char)
  deriving DecidableEq

inductive Col where
  | id | address | enabled | dateAdded | dateModified | comment | dateUpdated | number
  | invalidDomains | status | abpEntries | type | domain | ip | name | description | groupId
  | adlistId | domainlistId | clientId
  deriving DecidableEq

def Col.text : Col → String
  | id => "id"
  | address => "address"
  | enabled => "enabled"
  | dateAdded => "date_added"
  | dateModified => "date_modified"
  | comment => "comment"
  | dateUpdated => "date_updated"
  | number => "number"
  | invalidDomains => "invalid_domains"
  | status => "status"
  | abpEntries => "abp_entries"
  | type => "type"
  | domain => "domain"
  | ip => "ip"
  | name => "name"
  | description => "description"
  | groupId => "group_id"
  | adlistId => "adlist_id"
  | domainlistId => "domainlist_id"
  | clientId => "client_id"

def Col.key (c : Col) : List Char := c.text.toList

structure TableRow where
  id : Int
  cells : List (Col × SqlVal)
  deriving DecidableEq

def TableRow.cell (r : TableRow) (c : Col) : SqlVal := (r.cells.lookup c).getD .null

/-- A column besides the id: texts or numbers, and its default (`none` is the present time). -/
structure Column where
  col : Col
  isText : Bool
  notNull : Bool
  dflt : Option SqlVal

def Column.text (c : Col) (notNull : Bool) : Column := ⟨c,true,notNull,some .null⟩

def Column.number (c : Col) (dflt : Int) : Column := ⟨c,false,true,some (.int dflt)⟩

def Column.date (c : Col) : Column := ⟨c,false,true,none⟩

structure Schema where
  columns : List Column
  unique : List Col

def Schema.group : Schema where
  columns := [.number .enabled 1,.text .name true,.date .dateAdded,.date .dateModified,
    .text .description false]
  unique := [.name]

/-- Two rows that a primary key or a unique constraint does not let stand together. -/
def Schema.clash (s : Schema) (r row : TableRow) : Bool :=
  r.id = row.id || s.unique.all (fun c => r.cell c = row.cell c)

inductive Grouped where
  | adlist
  | domainlist
  | client
  deriving DecidableEq

def Grouped.schema : Grouped → Schema
  | adlist =>
    ⟨[.text .address true,.number .enabled 1,.date .dateAdded,.date .dateModified,
      .text .comment false,⟨.dateUpdated,false,false,some .null⟩,.number .number 0,
      .number .invalidDomains 0,.number .status 0,.number .abpEntries 0,.number .type 0],
      [.address,.type]⟩
  | domainlist =>
    ⟨[.number .type 0,.text .domain true,.number .enabled 1,.date .dateAdded,.date .dateModified,
      .text .comment false],[.domain,.type]⟩
  | client =>
    ⟨[.text .ip true,.date .dateAdded,.date .dateModified,.text .comment false],[.ip]⟩

def Grouped.ownerId : Grouped → Col
  | adlist => .adlistId
  | domainlist => .domainlistId
  | client => .clientId

/-- What the database decides: a text in a column of numbers, the id of a row without one, the
time, and whether a file can be opened. -/
structure Sqlite where
  numeric : List Char → SqlVal
  newId : List TableRow → Int
  now : Int
  opens : String → Bool

abbrev RowChange := Cascade.Change SqlVal

namespace Sqlite

variable (Q : Sqlite)

def store (isText : Bool) : SqlVal → SqlVal
  | .int n => if isText then .text (toString n).toList else .int n
  | .text s => if isText then .text s else Q.numeric s
  | v => v

def cellOf (values : List (Col × SqlVal)) (c : Column) : Col × SqlVal :=
  (c.col,match values.lookup c.col with
    | some v => Q.store c.isText v
    | none => c.dflt.getD (.int Q.now))

def rowId (rows : List TableRow) (v : SqlVal) : Option Int :=
  match Q.store false v with
  | .null => some (Q.newId rows)
  | .int n => some n
  | _ => none

def refused (s : Schema) (rows : List TableRow) (row : TableRow) : Bool :=
  s.columns.any (fun c => c.notNull && row.cell c.col = .null) ||
    rows.any (fun r => s.clash r row)

/-- `INSERT OR IGNORE`: the rows after it and what the triggers see; `none` is an error. -/
def insertRow (s : Schema) (rows : List TableRow) (values : List (Col × SqlVal)) :
    Option (List TableRow × List RowChange) :=
  (Q.rowId rows ((values.lookup .id).getD .null)).map (fun id =>
    let row : TableRow := ⟨id,s.columns.map (Q.cellOf values)⟩
    if refused s rows row then (rows,[]) else (rows ++ [row],[.inserted (.int id)]))

def insertRows (s : Schema) :
    List TableRow → List (List (Col × SqlVal)) → Option (List TableRow × List RowChange)
  | rows, [] => some (rows,[])
  | rows, values :: rest =>
    (Q.insertRow s rows values).bind (fun r =>
      (insertRows s r.1 rest).map (fun r' => (r'.1,r.2 ++ r'.2)))

/-- The rows of a type, or all of them, are deleted before the new ones are inserted. -/
def replaceRows (s : Schema) (listtype : Option Int) (rows : List TableRow)
    (values : List (List (Col × SqlVal))) : Option (List TableRow × List RowChange) :=
  let gone (r : TableRow) : Bool := listtype.all (fun k => r.cell .type = .int k)
  (Q.insertRows s (rows.filter (fun r => !gone r)) values).map (fun r =>
    (r.1,(rows.filter gone).map (fun r => .deleted (.int r.id)) ++ r.2))

/-- The group `tr_group_zero` puts back when a group is deleted. -/
def groupZero : List (Col × SqlVal) :=
  [(.id,.int 0),(.enabled,.int 1),(.name,.text "Default".toList)]

def replaceGroups (rows : List TableRow) (values : List (List (Col × SqlVal))) :
    Option (List TableRow) :=
  (Q.insertRows .group [] ((if rows = [] then [] else [groupZero]) ++ values)).map Prod.fst

def linkRows (o : Grouped) (values : List (List (Col × SqlVal))) : Finset (SqlVal × SqlVal) :=
  (values.filterMap (fun row =>
    let owner := Q.store false ((row.lookup o.ownerId).getD .null)
    let group := Q.store false ((row.lookup .groupId).getD .null)
    if owner = .null ∨ group = .null then none else some (owner,group))).toFinset

end Sqlite

inductive LegacyTable where
  | group
  | entries (o : Grouped)
  | links (o : Grouped)
  deriving DecidableEq

def LegacyTable.name : LegacyTable → String
  | group => "group"
  | entries .adlist => "adlist"
  | entries .domainlist => "domainlist"
  | entries .client => "client"
  | links .adlist => "adlist_by_group"
  | links .domainlist => "domainlist_by_group"
  | links .client => "client_by_group"

/-- `struct teleporter_files`; a list type that is negative is `none`. -/
structure TableFile where
  filename : String
  table : LegacyTable
  listtype : Option Int
  columns : List Col

def TableFile.domains (filename : String) (listtype : Int) : TableFile :=
  ⟨filename,.entries .domainlist,some listtype,
    [.id,.domain,.enabled,.dateAdded,.dateModified,.comment,.type]⟩

def teleporterV5Files : List TableFile :=
  [⟨"adlist.json",.entries .adlist,none,
      [.id,.address,.enabled,.dateAdded,.dateModified,.comment,.dateUpdated,.number,
        .invalidDomains,.status]⟩,
    ⟨"adlist_by_group.json",.links .adlist,none,[.groupId,.adlistId]⟩,
    .domains "blacklist.exact.json" 1,.domains "blacklist.regex.json" 3,
    ⟨"client.json",.entries .client,none,[.id,.ip,.dateAdded,.dateModified,.comment]⟩,
    ⟨"client_by_group.json",.links .client,none,[.groupId,.clientId]⟩,
    ⟨"domainlist_by_group.json",.links .domainlist,none,[.groupId,.domainlistId]⟩,
    ⟨"group.json",.group,none,[.id,.enabled,.name,.dateAdded,.dateModified,.description]⟩,
    .domains "whitelist.exact.json" 0,.domains "whitelist.regex.json" 2]

def bindValue : Json → Option SqlVal
  | .str s => some (.text s)
  | .num d => some (.int (valueint d))
  | .null => some .null
  | _ => none

namespace TableFile

variable (f : TableFile)

/-- An object needs a member for each column. The type is added behind what the archive says about
it, and the first member counts. -/
def rowOf : Json → Option (List (Col × SqlVal))
  | .obj members =>
    let members :=
      if f.table = .entries .domainlist then
        members ++ [(Col.type.key,.num (f.listtype.getD (-1)))]
      else members
    f.columns.mapM (fun c =>
      (members.find? (fun m => m.1 = c.key)).bind (fun m => (bindValue m.2).map (fun v => (c,v))))
  | _ => none

def rowsOf : Json → Option (List (List (Col × SqlVal)))
  | .arr l => l.mapM f.rowOf
  | _ => none

end TableFile

/-- `links` are the tables that tell the groups of the rows, with the owner first. -/
structure GravityTables where
  group : List TableRow
  entries : Grouped → List TableRow
  links : Grouped → Finset (SqlVal × SqlVal)

namespace GravityTables

variable (Q : Sqlite) (g : GravityTables)

def replaceTable (f : TableFile) (values : List (List (Col × SqlVal))) : GravityTables :=
  match f.table with
  | .group => (Q.replaceGroups g.group values).elim g (fun rows => { g with group := rows })
  | .entries o =>
    (Q.replaceRows o.schema f.listtype (g.entries o) values).elim g (fun r =>
      { g with
        entries := Function.update g.entries o r.1
        links := Function.update g.links o (Cascade.fireAll (.int 0) (g.links o) r.2) })
  | .links o => { g with links := Function.update g.links o (Q.linkRows o values) }

def importJsonTable (f : TableFile) (json : Json) : GravityTables :=
  if Q.opens f.filename then (f.rowsOf json).elim g (g.replaceTable Q f) else g

def selected (selection : Option Json) (t : LegacyTable) : Bool :=
  selection.all (fun s =>
    match s with
    | .obj l => (l.find? (fun m => m.1 = "gravity".toList)).any (fun m => m.2.keyTrue t.name)
    | _ => false)

variable (selection : Option Json) (files : String → Option Json)

def importFile (f : TableFile) : GravityTables :=
  if selected selection f.table then (files f.filename).elim g (g.importJsonTable Q f) else g

def importTables : GravityTables :=
  teleporterV5Files.foldl (fun g f => g.importFile Q selection files f) g

def brought (f : TableFile) : Option (List (List (Col × SqlVal))) :=
  if selected selection f.table && Q.opens f.filename then (files f.filename).bind f.rowsOf
  else none

def effect (o : Grouped) (f : TableFile) (rows : List TableRow) :
    List TableRow × List RowChange :=
  if f.table = .entries o then
    ((brought Q selection files f).bind (Q.replaceRows o.schema f.listtype rows)).getD (rows,[])
  else (rows,[])

def changes (o : Grouped) : List TableFile → List TableRow → List RowChange
  | [], _ => []
  | f :: fs, rows =>
    (effect Q selection files o f rows).2 ++ changes o fs (effect Q selection files o f rows).1

variable {Q g selection files}

theorem importFile_eq (f : TableFile) :
    g.importFile Q selection files f =
      (brought Q selection files f).elim g (g.replaceTable Q f) := by
  unfold importFile brought importJsonTable
  cases selected selection f.table with
  | false => rfl
  | true =>
    cases Q.opens f.filename with
    | false | true => cases files f.filename <;> rfl

theorem brought_of_not {f : TableFile} (hs : selected selection f.table = false) :
    brought Q selection files f = none := by
  simp [brought,hs]

theorem importFile_group (hs : selected selection .group = false) (f : TableFile) :
    (g.importFile Q selection files f).group = g.group := by
  rw [importFile_eq]
  cases hb : brought Q selection files f with
  | none => rfl
  | some values =>
    simp only [Option.elim_some,replaceTable]
    split
    · rename_i ht
      rw [brought_of_not (by rw [ht,hs])] at hb
      cases hb
    · rename_i o ht
      cases Q.replaceRows o.schema f.listtype (g.entries o) values <;> rfl
    · rfl

theorem importFile_grouped (o : Grouped) (f : TableFile) :
    (g.importFile Q selection files f).entries o =
        (effect Q selection files o f (g.entries o)).1 ∧
      (selected selection (.links o) = false → (g.importFile Q selection files f).links o =
        Cascade.fireAll (.int 0) (g.links o) (effect Q selection files o f (g.entries o)).2) := by
  rw [importFile_eq,effect]
  cases hb : brought Q selection files f with
  | none => simp
  | some values =>
    simp only [Option.elim_some,replaceTable,Option.bind_some]
    split
    · rename_i ht
      cases Q.replaceGroups g.group values <;> simp [ht]
    · rename_i o' ht
      by_cases ho : o' = o
      · subst ho
        cases Q.replaceRows o'.schema f.listtype (g.entries o') values <;> simp [ht]
      · cases Q.replaceRows o'.schema f.listtype (g.entries o') values <;> simp [ht,ho,Ne.symm ho]
    · rename_i o' ht
      refine ⟨by simp [ht],fun hs => ?_⟩
      have ho : o ≠ o' := by
        rintro rfl
        rw [brought_of_not (by rw [ht,hs])] at hb
        cases hb
      simp [ht,ho]

theorem importTables_group (hs : selected selection .group = false) :
    (g.importTables Q selection files).group = g.group := by
  unfold importTables
  induction teleporterV5Files generalizing g with
  | nil => rfl
  | cons f fs ih =>
    rw [List.foldl_cons,ih,importFile_group hs]

theorem importTables_entries {o : Grouped} (hs : selected selection (.entries o) = false) :
    (g.importTables Q selection files).entries o = g.entries o := by
  unfold importTables
  induction teleporterV5Files generalizing g with
  | nil => rfl
  | cons f fs ih =>
    rw [List.foldl_cons,ih,(importFile_grouped o f).1,effect]
    split
    · rename_i ht
      simp [brought_of_not (show selected selection f.table = false by rw [ht,hs])]
    · rfl

theorem importTables_links {o : Grouped} (hs : selected selection (.links o) = false) :
    (g.importTables Q selection files).links o =
      Cascade.fireAll (.int 0) (g.links o)
        (changes Q selection files o teleporterV5Files (g.entries o)) := by
  unfold importTables
  induction teleporterV5Files generalizing g with
  | nil => rfl
  | cons f fs ih =>
    rw [List.foldl_cons,ih,(importFile_grouped o f).2 hs,(importFile_grouped o f).1,changes,
      Cascade.fireAll_append]

end GravityTables

/-- `INSERT OR REPLACE`: rows that clash with the new one make way. -/
def putRow (s : Schema) (rows : List TableRow) (row : TableRow) : List TableRow :=
  rows.filter (fun r => !s.clash r row) ++ [row]

def gravityTables : List LegacyTable :=
  [.group,.entries .adlist,.links .adlist,.entries .domainlist,.links .domainlist,
    .entries .client,.links .client]

namespace GravityTables

variable (selection : Option Json) (archive g : GravityTables) (o : Grouped)

/-- The tables of `import_tables`: here the name `gravity` may be in any case. -/
def listed (t : LegacyTable) : Bool :=
  selection.all (fun s => (s.getObjectItem "gravity".toList).any (fun m => m.keyTrue t.name))

/-- `tr_group_zero` puts the default group back as soon as a group is deleted. -/
def putGroups : List TableRow :=
  archive.group.foldl (putRow .group)
    (if g.group = [] then [] else [⟨0,[(.enabled,.int 1),(.name,.text "Default".toList)]⟩])

def putEntries : List TableRow := (archive.entries o).foldl (putRow o.schema) []

/-- What the triggers make of the assignments when all entries are replaced. -/
def firedLinks : Finset (SqlVal × SqlVal) :=
  Cascade.fireAll (.int 0) (g.links o) ((g.entries o).map (fun r => .deleted (.int r.id)) ++
    (archive.entries o).map (fun r => .inserted (.int r.id)))

/-- `DELETE` and `INSERT` of `test_and_import_database` for a table. -/
def importTable (t : LegacyTable) : GravityTables where
  group := if t = .group then putGroups archive g else g.group
  entries o := if t = .entries o then putEntries archive o else g.entries o
  links o :=
    if t = .links o then archive.links o
    else if t = .entries o then firedLinks archive g o
    else g.links o

def importSelected (t : LegacyTable) : GravityTables :=
  if listed selection t then importTable archive g t else g

def importDatabase : GravityTables := gravityTables.foldl (importSelected selection archive) g

def Holds (rows : List TableRow) (id : SqlVal) : Prop := ∃ r ∈ rows, id = .int r.id

instance (rows : List TableRow) (id : SqlVal) : Decidable (Holds rows id) :=
  inferInstanceAs (Decidable (∃ r ∈ rows, _))

/-- Every row that assigns a group refers to an existing owner and an existing group. -/
def Intact : Prop := ∀ o, ∀ l ∈ g.links o, Holds (g.entries o) l.1 ∧ Holds g.group l.2

/-- The constraints of the schema, and the group that its trigger keeps. -/
structure Valid : Prop where
  groups : g.group.Pairwise (fun r row => Schema.group.clash r row = false)
  entries : ∀ o, (g.entries o).Pairwise (fun r row => o.schema.clash r row = false)
  zero : Holds g.group (.int 0)
  intact : g.Intact

/-- The tables that stay fit to the ones that are replaced. -/
def Fitting : Prop :=
  ∀ o,
    (listed selection (.links o) = true → ∀ l ∈ archive.links o,
      (listed selection (.entries o) = false → Holds (g.entries o) l.1) ∧
        (listed selection .group = false → Holds g.group l.2)) ∧
    (listed selection (.links o) = false → listed selection (.entries o) = true →
      listed selection .group = false → archive.entries o ≠ [] → Holds g.group (.int 0)) ∧
    (listed selection (.links o) = false → listed selection (.entries o) = false →
      listed selection .group = true → ∀ l ∈ g.links o, Holds archive.group l.2)

variable {selection archive g o}

theorem mem_foldl_putRow {s : Schema} {rows start : List TableRow} {r : TableRow}
    (h : rows.Pairwise (fun r row => s.clash r row = false)) :
    r ∈ rows.foldl (putRow s) start ↔
      r ∈ rows ∨ r ∈ start ∧ ∀ row ∈ rows, s.clash r row = false := by
  induction rows generalizing start with
  | nil => simp
  | cons row rows ih =>
    obtain ⟨hrow,hrows⟩ := List.pairwise_cons.mp h
    rw [List.foldl_cons,ih hrows]
    simp only [putRow,List.mem_append,List.mem_filter,List.mem_cons,List.not_mem_nil,or_false,
      Bool.not_eq_true',forall_eq_or_imp]
    constructor
    · rintro (hr | ⟨⟨hr,hc⟩ | rfl,hall⟩)
      · exact .inl (.inr hr)
      · exact .inr ⟨hr,hc,hall⟩
      · exact .inl (.inl rfl)
    · rintro ((rfl | hr) | ⟨hr,hc,hall⟩)
      · exact .inr ⟨.inr rfl,hrow⟩
      · exact .inl hr
      · exact .inr ⟨.inl ⟨hr,hc⟩,hall⟩

theorem holds_foldl_putRow {s : Schema} {rows start : List TableRow} {k : SqlVal}
    (h : rows.Pairwise (fun r row => s.clash r row = false))
    (hstart : ∀ r ∈ start, Holds rows (.int r.id)) :
    Holds (rows.foldl (putRow s) start) k ↔ Holds rows k := by
  simp only [Holds,mem_foldl_putRow h]
  constructor
  · rintro ⟨r,hr | ⟨hr,-⟩,rfl⟩
    · exact ⟨r,hr,rfl⟩
    · exact hstart r hr
  · rintro ⟨r,hr,rfl⟩
    exact ⟨r,.inl hr,rfl⟩

theorem Valid.putGroups (h : archive.Valid) {k : SqlVal} :
    Holds (putGroups archive g) k ↔ Holds archive.group k := by
  refine holds_foldl_putRow h.groups fun r hr => ?_
  split at hr
  · cases hr
  · rw [List.mem_singleton.mp hr]
    exact h.zero

theorem Valid.putEntries (h : archive.Valid) {k : SqlVal} :
    Holds (putEntries archive o) k ↔ Holds (archive.entries o) k :=
  holds_foldl_putRow (h.entries o) (fun _ hr => absurd hr List.not_mem_nil)

theorem last_replaced {old new : List TableRow} {k : SqlVal} :
    Cascade.last (old.map (fun r => .deleted (.int r.id)) ++
      new.map (fun r => .inserted (.int r.id))) k = some (.inserted k) ↔ Holds new k := by
  induction new using List.reverseRecOn with
  | nil =>
    rw [List.map_nil,List.append_nil]
    constructor
    · intro h
      obtain ⟨r,-,he⟩ := List.mem_map.mp (List.mem_reverse.mp (List.mem_of_find?_eq_some h))
      cases he
    · rintro ⟨r,hr,-⟩
      cases hr
  | append_singleton new r ih =>
    rw [List.map_append,← List.append_assoc,List.map_singleton,Cascade.last_concat]
    by_cases hk : .int r.id = k
    · simp [hk,Holds]
    · simp [hk,Ne.symm hk,ih,Holds]

theorem mem_firedLinks (hg : g.Intact) {l : SqlVal × SqlVal} :
    l ∈ firedLinks archive g o ↔ Holds (archive.entries o) l.1 ∧ l.2 = .int 0 := by
  rw [firedLinks,Cascade.mem_fireAll,last_replaced]
  refine ⟨fun h => h.resolve_left ?_,.inr⟩
  rintro ⟨hdel,hl⟩
  obtain ⟨r,hr,hk⟩ := (hg o _ hl).1
  exact hdel (List.mem_append_left _ (List.mem_map.mpr ⟨r,hr,congrArg _ hk.symm⟩))

theorem importSelected_group (t : LegacyTable) :
    (importSelected selection archive g t).group =
      if listed selection t ∧ t = .group then putGroups archive g else g.group := by
  unfold importSelected
  split <;> simp_all [importTable]

theorem importSelected_entries (t : LegacyTable) :
    (importSelected selection archive g t).entries o =
      if listed selection t ∧ t = .entries o then putEntries archive o else g.entries o := by
  unfold importSelected
  split <;> simp_all [importTable]

theorem importSelected_links (t : LegacyTable) :
    (importSelected selection archive g t).links o =
      if listed selection t ∧ t = .links o then archive.links o
      else if listed selection t ∧ t = .entries o then firedLinks archive g o
      else g.links o := by
  unfold importSelected
  split <;> simp_all [importTable]

theorem importDatabase_group : (importDatabase selection archive g).group =
    if listed selection .group then putGroups archive g else g.group := by
  simp [importDatabase,gravityTables,importSelected_group]

theorem importDatabase_entries : (importDatabase selection archive g).entries o =
    if listed selection (.entries o) then putEntries archive o else g.entries o := by
  cases o <;> simp [importDatabase,gravityTables,importSelected_entries]

theorem importDatabase_links : (importDatabase selection archive g).links o =
    if listed selection (.links o) then archive.links o
    else if listed selection (.entries o) then firedLinks archive g o
    else g.links o := by
  cases o <;>
    simp [importDatabase,gravityTables,importSelected_links,importSelected_entries,firedLinks]

/-- The assignments refer to existing rows after an import exactly if the tables that are not
selected fit to the ones that are. -/
theorem import_keeps_references_iff (ha : archive.Valid) (hg : g.Intact) :
    (importDatabase selection archive g).Intact ↔ Fitting selection archive g := by
  refine forall_congr' fun o => ?_
  have hnew : ∀ l ∈ archive.links o, Holds (archive.entries o) l.1 ∧ Holds archive.group l.2 :=
    ha.intact o
  have hold : ∀ l ∈ g.links o, Holds (g.entries o) l.1 ∧ Holds g.group l.2 := hg o
  rw [importDatabase_group,importDatabase_entries,importDatabase_links]
  cases listed selection (.links o) with
  | true =>
    -- the assignments are the archive's, in which they refer to its own entries and groups
    cases listed selection (.entries o) <;> cases listed selection .group <;>
      simp only [if_true,if_false,ha.putGroups,ha.putEntries,Bool.false_eq_true,reduceCtorEq,
        false_implies,true_implies,and_true,true_and]
    · exact ⟨fun h l hl => (h l hl).1,fun h l hl => ⟨h l hl,(hnew l hl).2⟩⟩
    · exact ⟨fun h l hl => (h l hl).2,fun h l hl => ⟨(hnew l hl).1,h l hl⟩⟩
    · exact ⟨fun _ _ _ => trivial,fun _ => hnew⟩
  | false =>
    cases listed selection (.entries o) with
    | true =>
      -- the triggers assign group 0 to each entry of the archive
      cases listed selection .group <;>
        simp only [if_true,if_false,ha.putGroups,ha.putEntries,Bool.false_eq_true,reduceCtorEq,
          false_implies,true_implies,and_true,true_and,mem_firedLinks hg]
      · constructor
        · intro h hne
          obtain ⟨r,hr⟩ := List.exists_mem_of_ne_nil _ hne
          exact (h (.int r.id,.int 0) ⟨⟨r,hr,rfl⟩,rfl⟩).2
        · rintro h ⟨k,z⟩ ⟨hk,rfl⟩
          obtain ⟨r,hr,-⟩ := id hk
          exact ⟨hk,h (List.ne_nil_of_mem hr)⟩
      · refine iff_of_true ?_ trivial
        rintro ⟨k,z⟩ ⟨hk,rfl⟩
        exact ⟨hk,ha.zero⟩
    | false =>
      cases listed selection .group <;>
        simp only [if_true,if_false,ha.putGroups,Bool.false_eq_true,reduceCtorEq,
          false_implies,true_implies,and_true,true_and]
      · exact iff_of_true hold trivial
      · exact ⟨fun h l hl => (h l hl).2,fun h l hl => ⟨(hold l hl).1,h l hl⟩⟩

def assigned : GravityTables where
  group := [⟨0,[(.name,.text "Default".toList)]⟩,⟨5,[(.name,.text "kids".toList)]⟩]
  entries o := if o = .domainlist then [⟨1,[(.domain,.text "a.de".toList)]⟩] else []
  links o := if o = .domainlist then {(.int 1,.int 5)} else ∅

theorem assigned_valid : assigned.Valid where
  groups := by decide
  entries o := by cases o <;> decide
  zero := ⟨_,.head _,rfl⟩
  intact o l hl := by cases o <;> simp_all [assigned,Holds]

/-- The domains and their groups are imported, and the group is there. -/
theorem import_keeps_references_iff_domains :
    (importDatabase (some (.obj [("Gravity".toList,.obj [("domainlist".toList,.bool true),
      ("domainlist_by_group".toList,.bool true)])])) assigned assigned).Intact := by
  refine (import_keeps_references_iff assigned_valid assigned_valid.intact).2 fun o => ?_
  cases o <;> decide

/-- Only the groups are selected, and the archive does not have group 5. -/
theorem group_import_leaves_assignment :
    let archive : GravityTables := { assigned with
      group := [⟨0,[(.name,.text "Default".toList)]⟩]
      links := fun _ => ∅ }
    archive.Valid ∧ assigned.Intact ∧ ¬ (importDatabase
      (some (.obj [("gravity".toList,.obj [("group".toList,.bool true)])])) archive
        assigned).Intact := by
  refine ⟨⟨by decide,fun o => by cases o <;> decide,⟨_,.head _,rfl⟩,?_⟩,assigned_valid.intact,?_⟩
  · intro o l hl
    cases hl
  · intro h
    obtain ⟨r,hr,he⟩ := (h .domainlist (.int 1,.int 5) (by decide)).2
    revert r
    decide

end GravityTables

structure Installation where
  host : Host
  gravity : GravityTables

/-- A file of the archive with what comes of it: an error while the leases are written and what is
left of them, or an error before the tables are committed and one when the database is detached.
All others are skipped, the database also if it is for one on a server. -/
inductive ZipFile where
  | lorentzToml (doc : Except String Toml)
  | dhcpLeases (data : List Char) (failed : Option (String × Option (List Char)))
  | gravityDb (error : Option String) (archive : GravityTables) (detach : Option String)
  | other

def Json.isObject : Json → Bool
  | .obj _ => true
  | _ => false

/-- `gravity.db` is looked at if nothing is selected or `gravity` is an object. -/
def takesDatabase (selection : Option Json) : Bool :=
  selection.all (fun s => (s.getObjectItem "gravity".toList).any Json.isObject)

namespace Installation

variable (S : Site) (selection : Option Json) (header : List Char) (s : Installation)

def importFile : ZipFile → Installation × Option String
  | .lorentzToml doc =>
    match s.host.importMember S selection header (.lorentzToml doc) with
    | .ok h => ({ s with host := h },none)
    | .error e => (s,some e)
  | .dhcpLeases data failed =>
    if selects selection "dhcp_leases" && validDhcpLeases data then
      match failed with
      | none => ({ s with host := { s.host with leases := some data } },none)
      | some (e,left) => ({ s with host := { s.host with leases := left } },some e)
    else (s,none)
  | .gravityDb error archive detach =>
    if takesDatabase selection then
      match error with
      | none => ({ s with gravity := .importDatabase selection archive s.gravity },detach)
      | some e => (s,some e)
    else (s,none)
  | .other => (s,none)

def importFiles : List ZipFile → Installation → Installation × Option String
  | [], s => (s,none)
  | f :: files, s =>
    match s.importFile S selection header f with
    | (s,some e) => (s,some e)
    | (s,none) => importFiles files s

/-- `read_teleporter_zip`; an archive that cannot be opened is `none`. -/
def readTeleporterZip : Option (List ZipFile) → Installation × Option String
  | none => (s,some "Failed to parse received ZIP archive")
  | some files => importFiles S selection header files s

/-- There is nothing to install in the file. -/
def Idle : ZipFile → Prop
  | .lorentzToml _ => selects selection "config" = false
  | .dhcpLeases data failed =>
    selects selection "dhcp_leases" = true → validDhcpLeases data = true →
      failed = none ∧ s.host.leases = some data
  | .gravityDb error _ detach =>
    takesDatabase selection = true →
      error = none ∧ detach = none ∧ ∀ t, GravityTables.listed selection t = false
  | .other => True

/-- The file is refused before any of it is installed. -/
def Refused : ZipFile → Prop
  | .lorentzToml doc =>
    selects selection "config" = true ∧ ∀ d, doc = .ok d →
      let new := S.platform.readDocument (some s.host.config) ⟨d,[],fun _ => none,true,false⟩
        s.host.config
      (S.platform.validateConfig new).isSome = true ∨ (S.platform.dnsmasqTest new).isSome = true
  | .dhcpLeases data failed =>
    selects selection "dhcp_leases" = true ∧ validDhcpLeases data = true ∧
      ∃ e, failed = some (e,s.host.leases)
  | .gravityDb error _ detach =>
    takesDatabase selection = true ∧ (error = none → detach.isSome = true ∧
      ∀ t, GravityTables.listed selection t = false)
  | .other => False

variable {S selection header s}

theorem importDatabase_none {g archive : GravityTables}
    (h : ∀ t, GravityTables.listed selection t = false) :
    GravityTables.importDatabase selection archive g = g := by
  simp [GravityTables.importDatabase,gravityTables,GravityTables.importSelected,h]

theorem Idle.importFile {f : ZipFile} (h : s.Idle selection f) :
    s.importFile S selection header f = (s,none) := by
  cases f with
  | lorentzToml doc => simp [Installation.importFile,Host.importMember,show selects _ _ = _ from h]
  | dhcpLeases data failed =>
    simp only [Installation.importFile]
    split
    · rename_i hc
      obtain ⟨hs,hv⟩ := Bool.and_eq_true_iff.mp hc
      obtain ⟨rfl,hl⟩ := h hs hv
      simp [← hl]
    · rfl
  | gravityDb error archive detach =>
    simp only [Installation.importFile]
    split
    · rename_i hs
      obtain ⟨rfl,rfl,hn⟩ := h hs
      simp [importDatabase_none hn]
    · rfl
  | other => rfl

theorem Refused.importFile {f : ZipFile} (h : s.Refused S selection f) (header : List Char) :
    ∃ e, s.importFile S selection header f = (s,some e) := by
  cases f with
  | lorentzToml doc =>
    obtain ⟨hs,hd⟩ := h
    cases doc with
    | error e =>
      exact ⟨e,by simp [Installation.importFile,Host.importMember,hs,Host.importLorentzToml]⟩
    | ok d =>
      simp only [Installation.importFile,Host.importMember,hs,if_true,Host.importLorentzToml]
      split_ifs with hv ht
      · exact ⟨_,rfl⟩
      · exact ⟨_,rfl⟩
      · exact absurd (hd d rfl) (by simp [hv,ht])
  | dhcpLeases data failed =>
    obtain ⟨hs,hv,e,rfl⟩ := h
    exact ⟨e,by simp [Installation.importFile,hs,hv]⟩
  | gravityDb error archive detach =>
    obtain ⟨hs,hcommitted⟩ := h
    cases error with
    | some e => exact ⟨e,by simp [Installation.importFile,hs]⟩
    | none =>
      obtain ⟨hdetach,hn⟩ := hcommitted rfl
      obtain ⟨e,rfl⟩ := Option.isSome_iff_exists.mp hdetach
      exact ⟨e,by simp [Installation.importFile,hs,importDatabase_none hn]⟩
  | other => cases h

theorem importFiles_idle {before files : List ZipFile} (h : ∀ f ∈ before, s.Idle selection f) :
    importFiles S selection header (before ++ files) s =
      importFiles S selection header files s := by
  induction before with
  | nil => rfl
  | cons f before ih =>
    rw [List.cons_append,importFiles,(h f (by simp)).importFile]
    exact ih (fun f hf => h f (by simp [hf]))

def plainInstallation : Installation := ⟨.fresh .initial,.assigned⟩

/-- A `gravity.db` that is none. -/
def damaged : ZipFile :=
  .gravityDb (some "File etc/lorentz/gravity.db in ZIP archive is empty") .assigned none

end Installation

/-- An upload: the files of the archive, and those that are tables by their names. -/
structure LegacyUpload where
  selection : Option Json
  archive : TarArchive
  tables : String → Option Json

/-- `process_received_tar_gz`. -/
def Installation.importLegacy (S : Site) (Q : Sqlite) (s : Installation) (u : LegacyUpload)
    (header : List Char) : Installation where
  host := s.host.processReceivedTarGz S u.selection u.archive header
  gravity := s.gravity.importTables Q u.selection u.tables

inductive Part where
  | config
  | leases
  | table (t : LegacyTable)

namespace Part

def off (selection : Option Json) : Part → Bool
  | config => !selects selection "config"
  | leases => !selects selection "dhcp_leases"
  | table t => !GravityTables.selected selection t

def Same (s s' : Installation) : Part → Prop
  | config => s.host.SameConfig s'.host
  | leases => s'.host.leases = s.host.leases
  | table .group => s'.gravity.group = s.gravity.group
  | table (.entries o) => s'.gravity.entries o = s.gravity.entries o
  | table (.links o) => s'.gravity.links o = s.gravity.links o

/-- A migration finds nothing to change, and the triggers of the rows that are imported
change no groups. -/
def Kept (S : Site) (Q : Sqlite) (s : Installation) (u : LegacyUpload) : Part → Prop
  | config => s.host.Steady S
  | table (.links o) =>
    Cascade.Quiet (.int 0) (s.gravity.links o)
      (GravityTables.changes Q u.selection u.tables o teleporterV5Files (s.gravity.entries o))
  | _ => True

end Part

theorem Host.processReceivedTarGz_leases (S : Site) (h : Host) {selection : Option Json}
    (hoff : selects selection "dhcp_leases" = false) (a : TarArchive) (header : List Char) :
    (h.processReceivedTarGz S selection a header).leases = h.leases := by
  change extract (selects selection "dhcp_leases") _ _ = _
  simp [extract,hoff]

namespace Installation

/-- A part not selected is the same after an import if and only if it is kept. -/
theorem unselected_part_same (S : Site) (Q : Sqlite) (s : Installation) (u : LegacyUpload)
    (header : List Char) (p : Part) (hoff : p.off u.selection = true) :
    p.Same s (s.importLegacy S Q u header) ↔ p.Kept S Q s u := by
  cases p with
  | config => exact Host.sameConfig_iff u.archive header (by simpa [Part.off] using hoff)
  | leases =>
    refine iff_of_true ?_ trivial
    exact s.host.processReceivedTarGz_leases S (by simpa [Part.off] using hoff) u.archive header
  | table t =>
    cases t with
    | group =>
      refine iff_of_true ?_ trivial
      exact GravityTables.importTables_group (by simpa [Part.off] using hoff)
    | entries o =>
      refine iff_of_true ?_ trivial
      exact GravityTables.importTables_entries (by simpa [Part.off] using hoff)
    | links o =>
      have hl : (s.gravity.importTables Q u.selection u.tables).links o = _ :=
        GravityTables.importTables_links (by simpa [Part.off] using hoff)
      simp only [Part.Same,importLegacy,hl]
      exact Cascade.fireAll_eq_iff _

def plainSqlite : Sqlite := ⟨SqlVal.text,fun rows => rows.length+1,0,fun _ => true⟩

def oneList (h : Host) (links : Finset (SqlVal × SqlVal)) : Installation where
  host := h
  gravity :=
    { group := []
      entries := fun o => if o = .adlist then [⟨1,[]⟩] else []
      links := fun o => if o = .adlist then links else ∅ }

def noLists : LegacyUpload where
  selection := some (.obj [("gravity".toList,.obj [("adlist".toList,.bool true)])])
  archive := ⟨none,none,none,none,none,none⟩
  tables name := if name = "adlist.json" then some (.arr []) else none

def storedHost : Host :=
  { Host.fresh .initial with toml := some ⟨[],Configuration.initial.lines⟩ }

theorem storedHost_steady : storedHost.Steady (.plain []) where
  lorentzConf := rfl
  setupVars := rfl
  customList := rfl
  agrees :=
    { keys := by
        have hkeys : setupVarsKeys.all (fun k => k.sets.all (fun i =>
            Platform.plain.settled i ((k.read .plain (readSetupVarsconf storedHost.webPorts)
              storedHost.config).value i) = storedHost.config.value i)) = true := by
          decide +kernel
        simp only [List.all_eq_true,decide_eq_true_eq] at hkeys
        exact hkeys
      staticLeases := by
        intro text ht
        cases ht
      cnames := by
        intro text ht
        cases ht
      valid := fun i => .inr rfl }
  paths := fun o err _ => rfl
  stored := by decide

/-- The configuration is the same while the lists are imported, and so are the groups of
lists that are in none. -/
theorem unselected_part_sample :
    Part.config.Same (oneList storedHost ∅)
        ((oneList storedHost ∅).importLegacy (.plain []) plainSqlite noLists []) ∧
      (Part.table (.links .adlist)).Same (oneList storedHost ∅)
        ((oneList storedHost ∅).importLegacy (.plain []) plainSqlite noLists []) :=
  ⟨(unselected_part_same _ _ _ noLists [] .config (by decide)).2 storedHost_steady,
    (unselected_part_same _ _ _ noLists [] (.table (.links .adlist)) (by decide)).2
      (by unfold Part.Kept; decide)⟩

def leaseFile : List Char := "dhcp-host=00:11:22:33:44:55,10.0.0.2".toList

def leaseHost : Host := { storedHost with staticLeases := some leaseFile }

theorem leaseHost_imported :
    (leaseHost.processReceivedTarGz (.plain []) noLists.selection noLists.archive
      []).config.strings .dhcpHosts = ["00:11:22:33:44:55,10.0.0.2".toList] := by
  have hoff : selects noLists.selection "config" = false := by decide
  have hs : (Platform.plain.settled .dhcpHosts
      (.strings (dnsmasqValues leaseFile "dhcp-host".toList))).toStrings =
        ["00:11:22:33:44:55,10.0.0.2".toList] := by
    decide +kernel
  rw [Configuration.strings,Host.remade_of_written _ _ (by decide),
    Host.remade_plain _ hoff rfl rfl rfl (by decide) (by decide),Host.leftover_dhcpHosts _ _ rfl]
  exact hs

/-- The static lease is back after an import of lists only, and the groups of the lists are
gone. -/
theorem unselected_parts_changed :
    let s := oneList leaseHost {(.int 1,.int 0),(.int 1,.int 5)}
    let s' := s.importLegacy (.plain []) plainSqlite noLists []
    Part.config.off noLists.selection = true ∧ s.host.config.strings .dhcpHosts = [] ∧
      s'.host.config.strings .dhcpHosts = ["00:11:22:33:44:55,10.0.0.2".toList] ∧
        (Part.table (.links .adlist)).off noLists.selection = true ∧
          s.gravity.links .adlist ≠ ∅ ∧ s'.gravity.links .adlist = ∅ := by
  refine ⟨by decide +kernel,rfl,?_,by decide +kernel,by decide +kernel,by decide +kernel⟩
  exact leaseHost_imported

end Installation

end Lorentz
