import Lorentz.ConfigValues
import Lorentz.Records
import Lorentz.Library.Transaction

/-!
The groups of clients, domains and lists: the pool of integer arrays in the shared memory, and
`edit_groups`, whose statements are made outside of a transaction.
-/

set_option autoImplicit false

namespace Lorentz

/-- The walk over the words, `skip` of them still belonging to a record, ends with a record. -/
def endsWhole : List Int → Nat → Bool
  | [], skip => skip = 0
  | _ :: words, skip+1 => endsWhole words skip
  | n :: words, 0 => endsWhole words n.toNat

/-- `words` are those from position one to `next_intarray_pos`, `size` is in bytes. -/
structure IntArrays where
  words : List Int
  size : Nat
  whole : endsWhole words 0 = true
  fits : (1+words.length)*4 ≤ size

/-- The search for an identical array, with the position of the next word. -/
def scanArrays (ids : List Int) : List Int → Nat → Nat → Option Nat
  | [], _, _ => none
  | _ :: words, skip+1, pos => scanArrays ids words skip (pos+1)
  | n :: words, 0, pos =>
    if n = ids.length ∧ words.take ids.length = ids then some pos
    else scanArrays ids words n.toNat (pos+1)

section

variable {ids words : List Int} {skip : Nat}

theorem le_length_of_endsWhole (h : endsWhole words skip = true) : skip ≤ words.length := by
  induction words generalizing skip with
  | nil => simpa [endsWhole] using h
  | cons n words ih =>
    cases skip with
    | zero => exact Nat.zero_le _
    | succ skip => exact Nat.succ_le_succ (ih h)

theorem endsWhole_append (h : endsWhole words skip = true) (more : List Int) :
    endsWhole (words ++ more) skip = endsWhole more 0 := by
  induction words generalizing skip with
  | nil =>
    have hs : skip = 0 := by simpa [endsWhole] using h
    rw [hs,List.nil_append]
  | cons n words ih =>
    cases skip with
    | zero | succ skip => exact ih h

theorem endsWhole_length (l : List Int) : endsWhole l l.length = true := by
  induction l with
  | nil => rfl
  | cons n l ih => exact ih

theorem scanArrays_append (h : endsWhole words skip = true) (ids more : List Int) (pos : Nat) :
    scanArrays ids (words ++ more) skip pos =
      (scanArrays ids words skip pos).or (scanArrays ids more 0 (pos+words.length)) := by
  induction words generalizing skip pos with
  | nil =>
    have hs : skip = 0 := by simpa [endsWhole] using h
    simp [scanArrays,hs]
  | cons n words ih =>
    have hpos : pos+(n :: words).length = pos+1+words.length := by simp; omega
    rw [hpos]
    cases skip with
    | succ skip => exact ih h (pos+1)
    | zero =>
      have hle : n.toNat ≤ words.length := le_length_of_endsWhole h
      have hcond : (n = ids.length ∧ (words ++ more).take ids.length = ids) ↔
          n = ids.length ∧ words.take ids.length = ids := by
        refine and_congr_right fun hn => ?_
        rw [List.take_append_of_le_length (by omega)]
      simp only [List.cons_append,scanArrays,hcond]
      split
      · rfl
      · exact ih h (pos+1)

theorem scanArrays_found {pos p : Nat} (h : scanArrays ids words skip pos = some p) :
    ∃ k rest, p = pos+k ∧ words.drop k = (ids.length : Int) :: (ids ++ rest) := by
  induction words generalizing skip pos with
  | nil => simp [scanArrays] at h
  | cons n words ih =>
    have hrest : ∀ skip, scanArrays ids words skip (pos+1) = some p →
        ∃ k rest, p = pos+k ∧ (n :: words).drop k = (ids.length : Int) :: (ids ++ rest) := by
      intro skip hs
      obtain ⟨k,rest,hp,hd⟩ := ih hs
      exact ⟨k+1,rest,by omega,hd⟩
    cases skip with
    | succ skip => exact hrest skip h
    | zero =>
      simp only [scanArrays] at h
      split at h
      · rename_i hc
        have hsplit := List.take_append_drop ids.length words
        rw [hc.2] at hsplit
        exact ⟨0,words.drop ids.length,by simpa using h.symm,by rw [hsplit,← hc.1]; rfl⟩
      · exact hrest _ h

end

inductive PoolEvent where
  | add (ids : List Int)
  | grow (bytes : Nat)

namespace IntArrays

variable (s : IntArrays)

theorem endsWhole_add (ids : List Int) :
    endsWhole (s.words ++ (ids.length : Int) :: ids) 0 = true := by
  rw [endsWhole_append s.whole]
  exact endsWhole_length ids

theorem fits_add {s : IntArrays} {ids : List Int}
    (h : ¬ (1+ids.length)*4 > s.size-(1+s.words.length)*4) :
    (1+(s.words ++ (ids.length : Int) :: ids).length)*4 ≤ s.size := by
  simp only [List.length_append,List.length_cons]
  omega

/-- `addintarray`; there is no position when the pool has no room. -/
def addintarray (ids : List Int) : IntArrays × Option Nat :=
  if ids = [] then (s,some 0)
  else match scanArrays ids s.words 0 1 with
    | some pos => (s,some pos)
    | none =>
      if h : (1+ids.length)*4 > s.size-(1+s.words.length)*4 then (s,none)
      else
        ({ s with
          words := s.words ++ (ids.length : Int) :: ids
          whole := s.endsWhole_add ids
          fits := fits_add h },some (1+s.words.length))

def getintarray (pos : Nat) : List Int :=
  if pos = 0 then [] else
    match s.words.drop (pos-1) with
    | [] => []
    | n :: rest => rest.take n.toNat

def step : PoolEvent → IntArrays
  | .add ids => (s.addintarray ids).1
  | .grow bytes => { s with size := s.size+bytes, fits := Nat.le_add_right_of_le s.fits }

def run (events : List PoolEvent) : IntArrays := events.foldl step s

/-- The first record with these values stands at `p`; position zero is the empty array. -/
def Keeps (ids : List Int) (p : Nat) : Prop :=
  if ids = [] then p = 0 else scanArrays ids s.words 0 1 = some p

section

variable {s} {ids : List Int} {p : Nat}

theorem addintarray_cases (s : IntArrays) (ids : List Int) :
    s.addintarray ids = (s,none) ∨ ∃ p s', s.addintarray ids = (s',some p) ∧ s'.Keeps ids p ∧
      ∃ more, s'.words = s.words ++ more := by
  unfold addintarray
  split
  · rename_i he
    exact .inr ⟨0,s,rfl,by simp [Keeps,he],[],by simp⟩
  rename_i hne
  cases hs : scanArrays ids s.words 0 1 with
  | some pos => exact .inr ⟨pos,s,rfl,by simp [Keeps,hne,hs],[],by simp⟩
  | none =>
    simp only
    split
    · exact .inl rfl
    · refine .inr ⟨_,_,rfl,?_,_,rfl⟩
      rw [Keeps,if_neg hne,scanArrays_append s.whole,hs]
      simp [scanArrays]

theorem Keeps.extend {s' : IntArrays} (h : s.Keeps ids p)
    (he : ∃ more, s'.words = s.words ++ more) : s'.Keeps ids p := by
  obtain ⟨more,hw⟩ := he
  unfold Keeps at h ⊢
  split
  · rwa [if_pos ‹_›] at h
  · rw [if_neg ‹_›] at h
    rw [hw,scanArrays_append s.whole,h]
    rfl

theorem Keeps.step (h : s.Keeps ids p) (e : PoolEvent) : (s.step e).Keeps ids p := by
  cases e with
  | grow bytes => exact h
  | add ids' =>
    rcases s.addintarray_cases ids' with he | ⟨_,s',he,_,hm⟩
    · simpa only [IntArrays.step,he] using h
    · simpa only [IntArrays.step,he] using h.extend hm

theorem Keeps.run (h : s.Keeps ids p) (events : List PoolEvent) : (s.run events).Keeps ids p := by
  induction events generalizing s with
  | nil => exact h
  | cons e events ih => exact ih (h.step e)

theorem Keeps.getintarray (h : s.Keeps ids p) : s.getintarray p = ids := by
  unfold Keeps at h
  split at h
  · simp [h,IntArrays.getintarray,‹ids = []›]
  · obtain ⟨k,rest,hp,hd⟩ := scanArrays_found h
    have hk : p-1 = k := by omega
    simp [IntArrays.getintarray,hk,hd,show p ≠ 0 by omega]

theorem Keeps.unique {p' : Nat} (h : s.Keeps ids p) (h' : s.Keeps ids p') : p = p' := by
  unfold Keeps at h h'
  split at h
  · rw [if_pos ‹_›] at h'
    rw [h,h']
  · rw [if_neg ‹_›,h] at h'
    exact Option.some.inj h'

end

end IntArrays

/-- What a call stores is there at every later time, a later call gives the same position exactly
for the same array, and a failed call changes nothing; so two clients whose groups were found
share a position exactly if they are in the same groups. -/
theorem group_sets_faithful (s : IntArrays) (ids ids' : List Int) (events : List PoolEvent) :
    let t := (s.addintarray ids).1.run events
    (∀ p, (s.addintarray ids).2 = some p → t.getintarray p = ids ∧
      ∀ p', (t.addintarray ids').2 = some p' → (p = p' ↔ ids = ids')) ∧
    ((s.addintarray ids).2 = none → (s.addintarray ids).1 = s) := by
  rcases s.addintarray_cases ids with he | ⟨p,s',he,hp,_⟩
  · simp [he]
  simp only [he]
  refine ⟨?_,by simp⟩
  rintro _ ⟨⟩
  have hrun := hp.run events
  refine ⟨hrun.getintarray,fun p' hp' => ?_⟩
  rcases (s'.run events).addintarray_cases ids' with he' | ⟨q,t',he',hq,hm⟩
  · rw [he'] at hp'
    cases hp'
  rw [he'] at hp'
  cases hp'
  have hlater := hrun.extend hm
  constructor
  · rintro rfl
    rw [← hlater.getintarray,hq.getintarray]
  · rintro rfl
    exact hlater.unique hq

def noArrays : IntArrays := ⟨[],8192,rfl,by decide⟩

theorem group_sets_faithful_sample :
    (noArrays.addintarray [0,4]).2 = some 1 ∧
      ((noArrays.addintarray [0,4]).1.run [.add [4],.grow 8192]).getintarray 1 = [0,4] :=
  ⟨by decide,((group_sets_faithful noArrays [0,4] [] [.add [4],.grow 8192]).1 1 (by decide)).1⟩

open List
open Transaction (succeed succeed_add attempt_of_succeed attempt_of_not_succeed)

inductive GravityListType where
  | domainlistAllowExact | domainlistAllowRegex | domainlistAllowAll | domainlistDenyExact
  | domainlistDenyRegex | domainlistDenyAll | domainlistAllExact | domainlistAllRegex
  | domainlistAllAll | groups | adlists | clients | gravity | antigravity | adlistsBlock
  | adlistsAllow
  deriving DecidableEq

inductive ItemTable where
  | client
  | adlist
  | domainlist
  deriving DecidableEq

def GravityListType.table : GravityListType → Option ItemTable
  | .groups => none
  | .clients => some .client
  | .adlists => some .adlist
  | .adlistsBlock => some .adlist
  | .adlistsAllow => some .adlist
  | _ => some .domainlist

def GravityListType.byType : GravityListType → Bool
  | .groups => false
  | .clients => false
  | .adlists => false
  | _ => true

structure ItemRow where
  id : Int
  item : List Char
  type : Int
  isInt : columnInt id = id
  deriving DecidableEq

/-- The tables of items, the ids of the groups, and the `_by_group` tables with an item and
a group in each row. -/
structure GroupTables where
  items : ItemTable → List ItemRow
  groups : List Int
  byGroup : ItemTable → List (Int × Int)

structure ListRow where
  item : List Char
  typeInt : Int
  deriving DecidableEq

namespace GroupTables

variable (d : GroupTables)

def itemId (listtype : GravityListType) (row : ListRow) : Option Int :=
  match listtype.table with
  | none => none
  | some table =>
    ((d.items table).find? (fun r =>
      r.item = row.item ∧ (listtype.byType = true → r.type = row.typeInt))).map
        (fun r => columnInt r.id)

def setByGroup (table : ItemTable) (rows : List (Int × Int)) : GroupTables :=
  { d with byGroup := fun t => if t = table then rows else d.byGroup t }

def deleteGroups (table : ItemTable) (id : Int) : GroupTables :=
  d.setByGroup table ((d.byGroup table).filter (fun r => r.1 ≠ id))

def insertGroup (table : ItemTable) (id gid : Int) : Option GroupTables :=
  if (id,gid) ∈ d.byGroup table ∨ gid ∉ d.groups then none
  else some (d.setByGroup table (d.byGroup table ++ [(id,gid)]))

def groupsOf (listtype : GravityListType) (row : ListRow) : List Int :=
  match listtype.table,d.itemId listtype row with
  | some table,some id => ((d.byGroup table).filter (fun r => r.1 = id)).map Prod.snd
  | _,_ => []

end GroupTables

def numbers (groups : List Json) : List Rat :=
  groups.filterMap (fun | .num x => some x | _ => none)

abbrev GroupConn := Transaction.Conn GroupTables

def insertGroups (table : ItemTable) (id : Int) : List Int → GroupConn → Bool × GroupConn
  | [], c => (true,c)
  | gid :: gids, c =>
    c.attempt 1 (fun c =>
      match c.change (fun d => d.insertGroup table id gid) with
      | (true,c) => insertGroups table id gids c
      | (false,c) => (false,c)) false

def selectSteps (listtype : GravityListType) : Nat := if listtype.byType then 4 else 3

def getItem (listtype : GravityListType) (row : ListRow) (c : GroupConn) :
    Option Int × GroupConn :=
  c.attempt (selectSteps listtype) (fun c => (c.current.itemId listtype row,c)) none

def deleteAll (table : ItemTable) (id : Int) (c : GroupConn) : Bool × GroupConn :=
  c.attempt 2 (fun c => c.exec (fun d => d.deleteGroups table id)) false

def insertAll (table : ItemTable) (id : Int) (gids : List Int) (c : GroupConn) :
    Bool × GroupConn :=
  c.attempt 2 (insertGroups table id gids) false

def editGroups (listtype : GravityListType) (groups : List Json) (row : ListRow)
    (c : GroupConn) : Bool × GroupConn :=
  match listtype.table with
  | none => (false,c)
  | some table =>
    match getItem listtype row c with
    | (none,c) => (false,c)
    | (some id,c) =>
      match deleteAll table id c with
      | (false,c) => (false,c)
      | (true,c) => insertAll table id ((numbers groups).map valueint) c

def gravityEditGroups (listtype : GravityListType) (groups : List Json) (row : ListRow)
    (c : GroupConn) : Bool × GroupConn :=
  c.attempt 1 (editGroups listtype groups row) false

/-- Success and exactly the groups that were given, or an error and the groups from before. -/
def AllOrNothing (listtype : GravityListType) (groups : List Json) (row : ListRow)
    (before after : GroupTables) (ok : Bool) : Prop :=
  (ok = true ∧ ∀ x : Rat, x ∈ numbers groups ↔ ∃ g ∈ after.groupsOf listtype row, (g : Rat) = x) ∨
    (ok = false ∧ ∀ g, g ∈ after.groupsOf listtype row ↔ g ∈ before.groupsOf listtype row)

def inserted (known : List Int) (answers : Nat → Bool) : Nat → List Int → List Int → Nat
  | _, _, [] => 0
  | asked, done, gid :: gids =>
    if answers asked && answers (asked+1) && gid ∉ done && gid ∈ known then
      inserted known answers (asked+2) (gid :: done) gids+1
    else 0

/-- The steps up to the one that deletes the groups; the first one opens the database. -/
def deleteSteps (listtype : GravityListType) : Nat := selectSteps listtype+4

/-- The old groups are not deleted, or no step fails behind that, or what was inserted by then is
what the item was in. -/
def Undisturbed (listtype : GravityListType) (groups : List Json) (row : ListRow)
    (d : GroupTables) (answers : Nat → Bool) : Prop :=
  let gids := (numbers groups).map valueint
  let n := deleteSteps listtype
  let stored := if succeed answers n 2 then inserted d.groups answers (n+2) [] gids else 0
  d.itemId listtype row = none ∨ succeed answers 0 n = false ∨
    if succeed answers n 2 = true ∧ stored = gids.length then
      ∀ x ∈ numbers groups, (valueint x : Rat) = x
    else ∀ g, g ∈ gids.take stored ↔ g ∈ d.groupsOf listtype row

section

variable {listtype : GravityListType} {row : ListRow} {table : ItemTable} {id : Int}
  {d : GroupTables} {answers : Nat → Bool} {asked : Nat} {groups : List Json}

def connAt (d : GroupTables) (answers : Nat → Bool) (asked : Nat) : GroupConn :=
  ⟨d,none,answers,asked⟩

theorem change_connAt (f : GroupTables → Option GroupTables) :
    (connAt d answers asked).change f =
      match answers asked,f d with
      | true,some d' => (true,connAt d' answers (asked+1))
      | _,_ => (false,connAt d answers (asked+1)) := by
  cases ha : answers asked <;> cases hf : f d <;>
    simp [Transaction.Conn.change,Transaction.Conn.current,Transaction.Conn.exec,connAt,ha,hf]

theorem exec_connAt (f : GroupTables → GroupTables) :
    (connAt d answers asked).exec f =
      if answers asked then (true,connAt (f d) answers (asked+1))
      else (false,connAt d answers (asked+1)) := by
  cases ha : answers asked <;> simp [Transaction.Conn.exec,connAt,ha]

theorem attempt_connAt {α : Type} (d : GroupTables) (answers : Nat → Bool) (asked n : Nat)
    (k : GroupConn → α × GroupConn) (failed : α) :
    succeed answers asked n = true ∧
        (connAt d answers asked).attempt n k failed = k (connAt d answers (asked+n)) ∨
      succeed answers asked n = false ∧
        ∃ m, (connAt d answers asked).attempt n k failed = (failed,connAt d answers m) := by
  cases h : succeed answers asked n with
  | true => exact .inl ⟨rfl,attempt_of_succeed (c := connAt d answers asked) k failed h⟩
  | false =>
    obtain ⟨m,hm⟩ := attempt_of_not_succeed (c := connAt d answers asked) k failed h
    exact .inr ⟨rfl,asked+m,hm⟩

theorem deleteAll_connAt (table : ItemTable) (id : Int) (d : GroupTables) (answers : Nat → Bool)
    (asked : Nat) :
    succeed answers asked 3 = true ∧ deleteAll table id (connAt d answers asked) =
        (true,connAt (d.deleteGroups table id) answers (asked+3)) ∨
      succeed answers asked 3 = false ∧
        ∃ m, deleteAll table id (connAt d answers asked) = (false,connAt d answers m) := by
  unfold deleteAll
  obtain ⟨h,heq⟩ | ⟨h,m,heq⟩ := attempt_connAt d answers asked 2
    (fun c => c.exec (fun d => d.deleteGroups table id)) false
  · rw [heq,exec_connAt,show (3 : Nat) = 2+1 from rfl,succeed_add,h]
    cases ha : answers (asked+2) with
    | true => exact .inl ⟨by simp [succeed,ha],rfl⟩
    | false => exact .inr ⟨by simp [succeed,ha],_,rfl⟩
  · rw [heq,show (3 : Nat) = 2+1 from rfl,succeed_add,h]
    exact .inr ⟨rfl,m,rfl⟩

theorem gravityEditGroups_connAt (groups : List Json) (row : ListRow) (d : GroupTables)
    (answers : Nat → Bool) (ht : listtype.table = some table) :
    (∃ id, d.itemId listtype row = some id ∧ succeed answers 0 (deleteSteps listtype) = true ∧
      gravityEditGroups listtype groups row (connAt d answers 0) =
        insertAll table id ((numbers groups).map valueint)
          (connAt (d.deleteGroups table id) answers (deleteSteps listtype))) ∨
      (d.itemId listtype row = none ∨ succeed answers 0 (deleteSteps listtype) = false) ∧
        ∃ m, gravityEditGroups listtype groups row (connAt d answers 0) =
          (false,connAt d answers m) := by
  have hsteps : deleteSteps listtype = 1+(selectSteps listtype+3) := by
    unfold deleteSteps
    omega
  have hsplit : succeed answers 0 (deleteSteps listtype) = (succeed answers 0 1 &&
      (succeed answers 1 (selectSteps listtype) && succeed answers (1+selectSteps listtype) 3)) := by
    rw [hsteps,succeed_add,succeed_add]
  unfold gravityEditGroups
  obtain ⟨h1,heq⟩ | ⟨h1,heq⟩ := attempt_connAt d answers 0 1
    (editGroups listtype groups row) false
  case inr => exact .inr ⟨.inr (by rw [hsplit,h1]; rfl),heq⟩
  rw [heq]
  simp only [editGroups,ht,getItem]
  obtain ⟨h2,heq⟩ | ⟨h2,m,heq⟩ := attempt_connAt d answers (0+1)
    (selectSteps listtype) (fun c => (c.current.itemId listtype row,c)) none
  case inr =>
    rw [heq]
    exact .inr ⟨.inr (by rw [hsplit,show (1 : Nat) = 0+1 from rfl,h2]; simp),m,rfl⟩
  rw [heq]
  have hcur : (connAt d answers (0+1+selectSteps listtype)).current = d := rfl
  rw [hcur]
  cases hid : d.itemId listtype row with
  | none => exact .inr ⟨.inl rfl,_,rfl⟩
  | some id =>
    dsimp only
    obtain ⟨h3,heq⟩ | ⟨h3,m,heq⟩ := deleteAll_connAt table id d answers
      (0+1+selectSteps listtype)
    · rw [heq]
      have hasked : 0+1+selectSteps listtype+3 = deleteSteps listtype := by omega
      refine .inl ⟨id,rfl,?_,by rw [hasked]⟩
      rw [hsplit,h1,h2,h3]
      rfl
    · rw [heq]
      exact .inr ⟨.inr (by rw [hsplit,h3]; simp),m,rfl⟩

theorem setByGroup_self (d : GroupTables) (table : ItemTable) :
    d.setByGroup table (d.byGroup table) = d := by
  have : (fun t => if t = table then d.byGroup table else d.byGroup t) = d.byGroup := by
    funext t
    split
    · rename_i ht
      rw [ht]
    · rfl
  rw [GroupTables.setByGroup,this]

theorem setByGroup_setByGroup (d : GroupTables) (table : ItemTable) (rows rows' : List (Int × Int)) :
    (d.setByGroup table rows).setByGroup table rows' = d.setByGroup table rows' := by
  simp only [GroupTables.setByGroup]
  congr 1
  funext t
  split <;> rfl

@[simp] theorem byGroup_setByGroup (d : GroupTables) (table : ItemTable) (rows : List (Int × Int)) :
    (d.setByGroup table rows).byGroup table = rows := if_pos rfl

theorem insertGroups_cons (table : ItemTable) (id : Int) (d : GroupTables)
    (answers : Nat → Bool) (asked : Nat) (gid : Int) (gids : List Int) :
    if answers asked ∧ answers (asked+1) ∧ (id,gid) ∉ d.byGroup table ∧ gid ∈ d.groups then
      insertGroups table id (gid :: gids) (connAt d answers asked) = insertGroups table id gids
        (connAt (d.setByGroup table (d.byGroup table ++ [(id,gid)])) answers (asked+2))
    else ∃ m, insertGroups table id (gid :: gids) (connAt d answers asked) =
      (false,connAt d answers m) := by
  rw [insertGroups]
  obtain ⟨h,heq⟩ | ⟨h,m,heq⟩ := attempt_connAt d answers asked 1 (fun c =>
      match c.change (fun d => d.insertGroup table id gid) with
      | (true,c) => insertGroups table id gids c
      | (false,c) => (false,c)) false
  · have h0 : answers asked = true := by simpa [succeed] using h
    rw [heq,change_connAt]
    by_cases hrow : (id,gid) ∈ d.byGroup table ∨ gid ∉ d.groups
    · have hins : d.insertGroup table id gid = none := if_pos hrow
      rw [if_neg (fun h => by tauto),hins]
      cases answers (asked+1) <;> exact ⟨_,rfl⟩
    have hins : d.insertGroup table id gid =
        some (d.setByGroup table (d.byGroup table ++ [(id,gid)])) := if_neg hrow
    simp only [not_or,not_not] at hrow
    rw [hins]
    cases h1 : answers (asked+1) with
    | true => rw [if_pos ⟨h0,rfl,hrow⟩]
    | false =>
      rw [if_neg (by simp)]
      exact ⟨_,rfl⟩
  · have h0 : answers asked = false := by simpa [succeed] using h
    rw [if_neg (by simp [h0]),heq]
    exact ⟨m,rfl⟩

theorem insertGroups_connAt (answers : Nat → Bool) (asked : Nat) (done gids : List Int)
    (hdone : ∀ g, (id,g) ∈ d.byGroup table ↔ g ∈ done) :
    (insertGroups table id gids (connAt d answers asked)).1 =
        decide (inserted d.groups answers asked done gids = gids.length) ∧
      (insertGroups table id gids (connAt d answers asked)).2.committed =
        d.setByGroup table (d.byGroup table ++
          (gids.take (inserted d.groups answers asked done gids)).map (fun g => (id,g))) := by
  induction gids generalizing d asked done with
  | nil =>
    simp only [insertGroups,inserted,take_nil,map_nil,append_nil,setByGroup_self]
    exact ⟨rfl,rfl⟩
  | cons gid gids ih =>
    have hround := insertGroups_cons table id d answers asked gid gids
    unfold inserted
    by_cases hgood : answers asked ∧ answers (asked+1) ∧ (id,gid) ∉ d.byGroup table ∧ gid ∈ d.groups
    · rw [if_pos hgood] at hround
      have hd : gid ∉ done := fun h => hgood.2.2.1 ((hdone gid).mpr h)
      rw [hround,if_pos (by simp [hgood,hd])]
      have hdone' : ∀ g, (id,g) ∈ (d.setByGroup table (d.byGroup table ++ [(id,gid)])).byGroup
          table ↔ g ∈ gid :: done := by
        intro g
        rw [byGroup_setByGroup,mem_append,hdone]
        simp [or_comm]
      obtain ⟨hok,hrows⟩ := ih (asked+2) (gid :: done) hdone'
      refine ⟨hok.trans ?_,hrows.trans ?_⟩
      · simp only [length_cons,Nat.add_right_cancel_iff]
        rfl
      · rw [setByGroup_setByGroup,byGroup_setByGroup,take_succ_cons,map_cons,
          append_assoc]
        rfl
    · rw [if_neg hgood] at hround
      obtain ⟨m,hm⟩ := hround
      have hbad : ¬ (answers asked && answers (asked+1) && decide (gid ∉ done) &&
          decide (gid ∈ d.groups)) = true := by
        simpa [hdone,and_assoc] using hgood
      rw [hm,if_neg hbad]
      simp only [take_zero,map_nil,append_nil,setByGroup_self,length_cons]
      exact ⟨by simp,rfl⟩

section

variable (ht : listtype.table = some table)
include ht

theorem groupsOf_eq (hid : d.itemId listtype row = some id) (rows : List (Int × Int)) :
    (d.setByGroup table rows).groupsOf listtype row =
      (rows.filter (fun r => r.1 = id)).map Prod.snd := by
  have hid' : (d.setByGroup table rows).itemId listtype row = some id := hid
  rw [GroupTables.groupsOf,ht,hid']
  simp

theorem groupsOf_inserted (hid : d.itemId listtype row = some id) (l : List Int) :
    ((d.deleteGroups table id).setByGroup table ((d.deleteGroups table id).byGroup table ++
      l.map (fun g => (id,g)))).groupsOf listtype row = l := by
  have hold : ((d.byGroup table).filter (fun r => r.1 ≠ id)).filter (fun r => r.1 = id) = [] := by
    simp
  have hnew : (l.map (fun g => (id,g))).filter (fun r => r.1 = id) = l.map (fun g => (id,g)) := by
    simp [filter_map,Function.comp_def]
  rw [GroupTables.deleteGroups,setByGroup_setByGroup,groupsOf_eq ht hid,byGroup_setByGroup,
    filter_append,hold,hnew,nil_append,map_map]
  simp [Function.comp_def]

theorem insertAll_connAt (hid : d.itemId listtype row = some id) (answers : Nat → Bool) (n : Nat)
    (gids : List Int) :
    let r := insertAll table id gids (connAt (d.deleteGroups table id) answers n)
    let stored := if succeed answers n 2 then inserted d.groups answers (n+2) [] gids else 0
    (r.1 = true ↔ succeed answers n 2 = true ∧ stored = gids.length) ∧
      r.2.committed.groupsOf listtype row = gids.take stored := by
  intro r stored
  have hdone : ∀ g, (id,g) ∈ (d.deleteGroups table id).byGroup table ↔ g ∈ ([] : List Int) := by
    intro g
    simp [GroupTables.deleteGroups]
  obtain ⟨h2,heq⟩ | ⟨h2,m,heq⟩ := attempt_connAt (d.deleteGroups table id) answers n 2
    (insertGroups table id gids) false
  · have hstored : stored = inserted d.groups answers (n+2) [] gids := if_pos h2
    obtain ⟨hok,hrows⟩ := insertGroups_connAt answers (n+2) [] gids hdone
    have hr : r = insertGroups table id gids (connAt (d.deleteGroups table id) answers (n+2)) := heq
    rw [hr,hok,hrows,groupsOf_inserted ht hid,hstored,h2]
    exact ⟨by simp [GroupTables.deleteGroups,GroupTables.setByGroup],rfl⟩
  have hstored : stored = 0 := by simp [stored,h2]
  have hr : r = (false,connAt (d.deleteGroups table id) answers m) := heq
  have hnone := groupsOf_inserted ht hid []
  rw [map_nil,append_nil,setByGroup_self] at hnone
  rw [hr,hstored]
  exact ⟨by simp [h2],hnone⟩

end

end

theorem valueint_intCast {n : Int} (h : INT_MIN ≤ n ∧ n ≤ INT_MAX) : valueint (n : Rat) = n := by
  have : towardsZero (n : Rat) = n := by simp [towardsZero]
  rw [valueint,this]
  omega

theorem valueint_bounds (x : Rat) : INT_MIN ≤ valueint x ∧ valueint x ≤ INT_MAX := by
  unfold valueint INT_MIN INT_MAX
  omega

theorem given_iff (xs : List Rat) :
    (∀ x : Rat, x ∈ xs ↔ ∃ g ∈ xs.map valueint, (g : Rat) = x) ↔
      ∀ x ∈ xs, (valueint x : Rat) = x := by
  constructor
  · intro h x hx
    obtain ⟨g,hg,rfl⟩ := (h x).mp hx
    obtain ⟨y,-,rfl⟩ := mem_map.mp hg
    rw [valueint_intCast (valueint_bounds y)]
  intro h x
  constructor
  · exact fun hx => ⟨valueint x,mem_map_of_mem hx,h x hx⟩
  · rintro ⟨g,hg,rfl⟩
    obtain ⟨y,hy,rfl⟩ := mem_map.mp hg
    rwa [h y hy]

def oneDomain : GroupTables where
  items := fun t => if t = .domainlist then [⟨1,['a'],1,rfl⟩] else []
  groups := [0,5]
  byGroup := fun t => if t = .domainlist then [(1,0)] else []

end Lorentz
