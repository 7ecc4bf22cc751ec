import Lorentz.Lookup
import Lorentz.Library.Bits
import Lorentz.Library.Transaction

/-!
`store_list` and `update_list`: the rows of a list are replaced in one transaction, in batches,
of which every statement may fail. The replacement is atomic, and complete if the list has no rows
in the table of the other type.
-/

set_option autoImplicit false

namespace Lorentz
open Feed Transaction

def BATCH_ROWS : Nat := 500
def STATUS_UPDATED : Int := 1
def STATUS_UNAVAILABLE : Int := 3
def STATUS_UNAVAILABLE_CACHED : Int := 4

/-- What the table `adlist` says about the contents of a list. -/
structure ListNumbers where
  number : Int
  invalidDomains : Int
  abpEntries : Int
  status : Int
  dateUpdated : Int
  deriving DecidableEq, Repr

structure ListsDb where
  db : GravityDb
  numbers : Int → ListNumbers
  gravityCount : Int
  antigravityCount : Int
  updated : Int

namespace ListsDb

variable (d : ListsDb)

/-- The table a list is stored in: `allow ? "antigravity" : "gravity"`. -/
def rows (allow : Bool) : List (List Char × Int) :=
  if allow then d.db.antigravity else d.db.gravity

def setRows (allow : Bool) (rows : List (List Char × Int)) : ListsDb :=
  if allow then { d with db := { d.db with antigravity := rows } }
  else { d with db := { d.db with gravity := rows } }

def clearList (allow : Bool) (id : Int) : ListsDb :=
  d.setRows allow ((d.rows allow).filter (fun r => r.2 ≠ id))

def insertRows (allow : Bool) (id : Int) (domains : List (List Char)) : ListsDb :=
  d.setRows allow (d.rows allow ++ domains.map (fun x => (x,id)))

def setNumbers (id : Int) (n : ListNumbers → ListNumbers) : ListsDb :=
  { d with numbers := Function.update d.numbers id (n (d.numbers id)) }

def domainsOf (allow : Bool) (id : Int) : List (List Char) :=
  ((d.rows allow).filter (fun r => r.2 = id)).map Prod.fst

end ListsDb

def insertHead (allow : Bool) : List Char :=
  "INSERT INTO ".toList ++ (if allow then "antigravity".toList else "gravity".toList) ++
    " (domain, adlist_id) VALUES ".toList

/-- The loop of `prepare_insert`: how many of `n` further rows get into a statement of `len`
characters and `rows` rows. -/
def appendRows (size : Nat) : Nat → Nat → Nat → Nat
  | 0, _, rows => rows
  | n+1, len, rows =>
    if len < size-8 then appendRows size n (len+if rows = 0 then 5 else 6) (rows+1) else rows

/-- The number of rows of the statement that `prepare_insert` prepares. -/
def prepareInsert (allow : Bool) (rows : Nat) : Nat :=
  appendRows (64+BATCH_ROWS*8) rows (insertHead allow).length 0

/-- `struct batch`; `full` says that the statement for `BATCH_ROWS` rows is prepared. -/
structure Batch where
  conn : Conn ListsDb
  domains : List (List Char)
  full : Bool

section

variable (allow : Bool) (id : Int)

def batchFlush (b : Batch) : Bool × Batch :=
  if b.domains = [] then (true,b)
  else
    let isFull := b.domains.length == BATCH_ROWS
    match if isFull && b.full then (true,b.conn) else b.conn.ask with
    | (false,c) => (false,{ b with conn := c })
    | (true,c) =>
      let rows := prepareInsert allow (if isFull then BATCH_ROWS else b.domains.length)
      match c.exec (fun d => d.insertRows allow id (b.domains.take rows)) with
      | (ok,c) => (ok,⟨c,[],b.full || isFull⟩)

def addDomain (domain : List Char) (b : Batch) : Bool × Batch :=
  match b.conn.ask with
  | (false,c) => (false,{ b with conn := c })
  | (true,c) =>
    let b := { b with conn := c, domains := b.domains ++ [domain] }
    if b.domains.length < BATCH_ROWS then (true,b) else batchFlush allow id b

end

structure ListEnv where
  inetPton4 : List Char → Bool
  inetPton6 : List Char → Bool
  sampleFits : Nat → Bool

def ListEnv.parser (env : ListEnv) (allow : Bool) : ListParser :=
  ⟨allow,false,env.inetPton4,env.inetPton6,env.sampleFits⟩

def ParseStats.numbers (st : ParseStats) (now : Int) : ListNumbers where
  number := cInt (st.exact+st.abp)
  invalidDomains := cInt st.invalid
  abpEntries := cInt st.abp
  status := STATUS_UPDATED
  dateUpdated := now

def storeList (env : ListEnv) (allow : Bool) (id : Int) (stream : List Char) (now : Int)
    (c : Conn ListsDb) : Bool × ParseStats × Conn ListsDb :=
  match c.start with
  | (false,c) => (false,.zero,c)
  | (true,c) =>
    match c.exec (fun d => d.clearList allow id) with
    | (false,c) => (false,.zero,c.rollback)
    | (true,c) =>
      match (env.parser allow).gravityParseStream Batch (addDomain allow id) stream
          (.zero,⟨c,[],false⟩) with
      | (false,st,b) => (false,st,b.conn.rollback)
      | (true,st,b) =>
        match batchFlush allow id b with
        | (false,b) => (false,st,b.conn.rollback)
        | (true,b) =>
          -- an answer without a single domain is not a list
          if st.exact+st.abp = 0 then (false,st,b.conn.rollback)
          else
            match b.conn.exec (fun d => d.setNumbers id (fun _ => st.numbers now)) with
            | (false,c) => (false,st,c.rollback)
            | (true,c) =>
              match c.commit with
              | (false,c) => (false,st,c.rollback)
              | (true,c) => (true,st,c)

/-- `set_status` after a failed update, which looks whether the list still has rows. -/
def setStatus (allow : Bool) (id : Int) (c : Conn ListsDb) : Conn ListsDb :=
  match c.ask with
  | (read,c) =>
    let cached := read && !(c.current.domainsOf allow id).isEmpty
    (c.exec (fun d => d.setNumbers id (fun n =>
      { n with status := if cached then STATUS_UNAVAILABLE_CACHED else STATUS_UNAVAILABLE }))).2

inductive Download where
  | noTempFile
  | failed
  | done (stream : List Char)

def updateList (env : ListEnv) (allow : Bool) (id : Int) (download : Download) (now : Int)
    (c : Conn ListsDb) : Bool × ParseStats × Conn ListsDb :=
  match download with
  | .noTempFile => (false,.zero,c)
  | .failed => (false,.zero,setStatus allow id c)
  | .done stream =>
    match storeList env allow id stream now c with
    | (true,st,c) => (true,st,c)
    | (false,st,c) => (false,st,setStatus allow id c)

open ListsDb

namespace ListsDb

variable (d : ListsDb) (allow : Bool) (id : Int)

variable (r : List (List Char × Int)) {other : Bool}

@[simp]
theorem rows_setRows : (d.setRows allow r).rows allow = r := by
  cases allow <;> rfl

theorem rows_setRows_other (h : other ≠ allow) (r : List (List Char × Int)) :
    (d.setRows allow r).rows other = d.rows other := by
  cases allow <;> cases other <;> first | rfl | exact absurd rfl h

@[simp]
theorem setRows_setRows (r r' : List (List Char × Int)) :
    (d.setRows allow r).setRows allow r' = d.setRows allow r' := by
  cases allow <;> rfl

@[simp]
theorem setRows_rows : d.setRows allow (d.rows allow) = d := by
  cases allow <;> rfl

@[simp]
theorem numbers_setRows : (d.setRows allow r).numbers = d.numbers := by
  cases allow <;> rfl

@[simp]
theorem adlist_setRows : (d.setRows allow r).db.adlist = d.db.adlist := by
  cases allow <;> rfl

@[simp]
theorem abpDomains_setRows : (d.setRows allow r).db.abpDomains = d.db.abpDomains := by
  cases allow <;> rfl

theorem insertRows_nil : d.insertRows allow id [] = d := by
  simp [insertRows]

theorem insertRows_insertRows (xs ys : List (List Char)) :
    (d.insertRows allow id xs).insertRows allow id ys = d.insertRows allow id (xs ++ ys) := by
  simp [insertRows]

theorem domainsOf_replaced (xs : List (List Char)) :
    ((d.clearList allow id).insertRows allow id xs).domainsOf allow id = xs := by
  have hold : ((d.rows allow).filter (fun r => r.2 ≠ id)).filter (fun r => r.2 = id) = [] := by
    simp
  have hnew : (xs.map (fun x => (x,id))).filter (fun r => r.2 = id) = xs.map (fun x => (x,id)) := by
    simp
  simp only [domainsOf,insertRows,clearList,rows_setRows,setRows_setRows,List.filter_append,hold,
    hnew,List.nil_append,List.map_map]
  exact List.map_id xs

theorem domainsOf_other {id' : Int} (h : other ≠ allow ∨ id' ≠ id) (xs : List (List Char)) :
    ((d.clearList allow id).insertRows allow id xs).domainsOf other id' =
      d.domainsOf other id' := by
  by_cases ho : other = allow
  · subst ho
    have hid : id' ≠ id := h.resolve_left (by simp)
    have hold : ((d.rows other).filter (fun r => r.2 ≠ id)).filter (fun r => r.2 = id') =
        (d.rows other).filter (fun r => r.2 = id') := by
      rw [List.filter_filter]
      refine List.filter_congr fun r _ => ?_
      by_cases hr : r.2 = id'
      · simp [hr,hid]
      · simp [hr]
    have hnew : (xs.map (fun x => (x,id))).filter (fun r => r.2 = id') = [] := by
      simp [hid.symm]
    simp only [domainsOf,insertRows,clearList,rows_setRows,setRows_setRows,List.filter_append,hold,
      hnew,List.append_nil]
  · simp only [domainsOf,insertRows,clearList,setRows_setRows,rows_setRows_other d allow ho]

end ListsDb

theorem appendRows_eq {size : Nat} (n len rows : Nat) (h : len+6*n ≤ size-8) :
    appendRows size n len rows = rows+n := by
  induction n generalizing len rows with
  | zero => rfl
  | succ n ih =>
    rw [appendRows,if_pos (by omega),ih]
    · omega
    · split <;> omega

theorem prepareInsert_eq (allow : Bool) {rows : Nat} (h : rows ≤ BATCH_ROWS) :
    prepareInsert allow rows = rows := by
  have hhead : (insertHead allow).length ≤ 51 := by cases allow <;> decide
  unfold BATCH_ROWS at h
  rw [prepareInsert,appendRows_eq]
  · omega
  · simp only [BATCH_ROWS]
    omega

section

variable {allow : Bool} {id : Int} {d₀ d : ListsDb} {b b' : Batch} {xs : List (List Char)}

/-- In the transaction on `d` the domains `xs` were taken: the first are inserted, the last are in
the batch. -/
structure Batch.Takes (allow : Bool) (id : Int) (d₀ d : ListsDb) (xs : List (List Char))
    (b : Batch) : Prop where
  committed : b.conn.committed = d₀
  stored : ∃ ys, b.conn.work = some (d.insertRows allow id ys) ∧ ys ++ b.domains = xs
  room : b.domains.length ≤ BATCH_ROWS

theorem batchFlush_true (h : b.Takes allow id d₀ d xs) (hf : batchFlush allow id b = (true,b')) :
    b'.conn.committed = d₀ ∧ b'.conn.work = some (d.insertRows allow id xs) ∧ b'.domains = [] := by
  obtain ⟨hc,⟨ys,hw,hxs⟩,hroom⟩ := h
  unfold batchFlush at hf
  split at hf
  · rename_i hnil
    cases hf
    rw [hnil,List.append_nil] at hxs
    exact ⟨hc,hxs ▸ hw,hnil⟩
  dsimp only at hf
  split at hf
  · cases hf
  rename_i c hprep
  have hsame : c.work = b.conn.work ∧ c.committed = b.conn.committed := by
    split at hprep
    · cases hprep
      exact ⟨rfl,rfl⟩
    · exact ask_keeps hprep
  have hrows : prepareInsert allow (if (b.domains.length == BATCH_ROWS) = true then BATCH_ROWS
      else b.domains.length) = b.domains.length := by
    split
    · rename_i hfull
      rw [prepareInsert_eq allow (le_refl _)]
      exact (eq_of_beq hfull).symm
    · exact prepareInsert_eq allow hroom
  rw [hrows,List.take_length] at hf
  cases he : c.exec (fun d => d.insertRows allow id b.domains) with
  | mk ok c₁ =>
  rw [he] at hf
  cases hf
  obtain ⟨hw₁,hc₁⟩ := exec_true (hsame.1.trans hw) he
  refine ⟨hc₁.trans (hsame.2.trans hc),?_,rfl⟩
  rw [hw₁,insertRows_insertRows,hxs]

theorem addDomain_true {x : List Char} (h : b.Takes allow id d₀ d xs)
    (hroom : b.domains.length < BATCH_ROWS) (ha : addDomain allow id x b = (true,b')) :
    b'.Takes allow id d₀ d (xs ++ [x]) ∧ b'.domains.length < BATCH_ROWS := by
  obtain ⟨hc,⟨ys,hw,hxs⟩,-⟩ := h
  unfold addDomain at ha
  split at ha
  · cases ha
  rename_i c hask
  obtain ⟨hw',hc'⟩ := ask_keeps hask
  have htake : Batch.Takes allow id d₀ d (xs ++ [x])
      { b with conn := c, domains := b.domains ++ [x] } := by
    refine ⟨hc'.trans hc,⟨ys,hw'.trans hw,?_⟩,?_⟩
    · rw [← hxs,List.append_assoc]
    · rw [List.length_append]
      exact hroom
  dsimp only at ha
  split at ha
  · rename_i hlt
    cases ha
    exact ⟨htake,hlt⟩
  obtain ⟨hc₁,hw₁,hnil⟩ := batchFlush_true htake ha
  refine ⟨⟨hc₁,⟨xs ++ [x],hw₁,?_⟩,?_⟩,?_⟩
  · rw [hnil,List.append_nil]
  · rw [hnil]
    exact Nat.zero_le _
  · rw [hnil]
    decide

theorem feed_addDomain {ds : List (List Char)} (h : b.Takes allow id d₀ d xs)
    (hroom : b.domains.length < BATCH_ROWS) (hf : feed (addDomain allow id) ds b = (true,b')) :
    b'.Takes allow id d₀ d (xs ++ ds) := by
  induction ds generalizing b xs with
  | nil =>
    cases hf
    simpa using h
  | cons x ds ih =>
    simp only [feed] at hf
    split at hf
    · rename_i hx
      obtain ⟨h₁,hroom₁⟩ := addDomain_true h hroom hx
      have := ih h₁ hroom₁ hf
      rwa [List.append_assoc] at this
    · cases hf

def Batch.Open (d₀ : ListsDb) (b : Batch) : Prop :=
  b.conn.work.isSome = true ∧ b.conn.committed = d₀

theorem batchFlush_open (h : b.Open d₀) : (batchFlush allow id b).2.Open d₀ := by
  unfold batchFlush
  split
  · exact h
  dsimp only
  have hprep : ∀ ok c, (if (b.domains.length == BATCH_ROWS) && b.full then (true,b.conn)
      else b.conn.ask) = (ok,c) → c.work.isSome = true ∧ c.committed = d₀ := by
    intro ok c hp
    split at hp
    · cases hp
      exact h
    · obtain ⟨hw,hc⟩ := ask_keeps hp
      exact ⟨hw ▸ h.1,hc.trans h.2⟩
  split
  · rename_i hp
    exact hprep _ _ hp
  rename_i c hp
  obtain ⟨hw,hc⟩ := hprep _ _ hp
  cases he : c.exec (fun d => d.insertRows allow id (b.domains.take (prepareInsert allow
    (if (b.domains.length == BATCH_ROWS) = true then BATCH_ROWS else b.domains.length)))) with
  | mk ok c₁ =>
  obtain ⟨hw₁,hc₁⟩ := exec_open hw he
  exact ⟨hw₁,hc₁.trans hc⟩

theorem addDomain_open (x : List Char) (b : Batch) (h : b.Open d₀) :
    (addDomain allow id x b).2.Open d₀ := by
  unfold addDomain
  cases ha : b.conn.ask with
  | mk ok c =>
  obtain ⟨hw,hc⟩ := ask_keeps ha
  have hopen : c.work.isSome = true ∧ c.committed = d₀ := ⟨hw ▸ h.1,hc.trans h.2⟩
  cases ok with
  | false => exact hopen
  | true =>
    dsimp only
    split
    · exact hopen
    · exact batchFlush_open hopen

end

section

variable {env : ListEnv} {allow : Bool} {id : Int} {stream : List Char} {now : Int}
  {c c' : Conn ListsDb} {st : ParseStats}

theorem storeList_true (h : storeList env allow id stream now c = (true,st,c')) :
    c'.work = none ∧ ∃ xs, (env.parser allow).handedOver stream = (true,st,xs) ∧
      c'.committed = ((c.committed.clearList allow id).insertRows allow id xs).setNumbers id
        (fun _ => st.numbers now) := by
  unfold storeList at h
  split at h
  · cases h
  rename_i hstart
  obtain ⟨hw₁,hc₁⟩ := start_true hstart
  split at h
  · cases h
  rename_i c₂ hclear
  obtain ⟨hw₂,hc₂⟩ := exec_true hw₁ hclear
  split at h
  · cases h
  rename_i hparse
  obtain ⟨hend,hst,hfeed⟩ := (env.parser allow).gravityParseStream_feeds hparse
  have htake : Batch.Takes allow id c.committed (c.committed.clearList allow id) []
      ⟨c₂,[],false⟩ :=
    ⟨hc₂.trans hc₁,⟨[],by rw [insertRows_nil]; exact hw₂,rfl⟩,by simp⟩
  have htake₃ := feed_addDomain htake (by simp [BATCH_ROWS]) hfeed
  split at h
  · cases h
  rename_i hflush
  obtain ⟨hc₄,hw₄,-⟩ := batchFlush_true htake₃ hflush
  split at h
  · cases h
  split at h
  · cases h
  rename_i hnumbers
  obtain ⟨hw₅,-⟩ := exec_true hw₄ hnumbers
  split at h
  · cases h
  rename_i hcommit
  cases h
  obtain ⟨hw₆,hc₆⟩ := commit_true hw₅ hcommit
  exact ⟨hw₆,_,Prod.ext hend (Prod.ext hst rfl),hc₆⟩

theorem storeList_false (hc : c.work = none)
    (h : storeList env allow id stream now c = (false,st,c')) :
    c'.work = none ∧ c'.committed = c.committed := by
  unfold storeList at h
  split at h
  · rename_i hstart
    cases h
    obtain ⟨hw₁,hc₁⟩ := start_false hstart
    exact ⟨hw₁.trans hc,hc₁⟩
  rename_i c₁ hstart
  obtain ⟨hw₁,hc₁⟩ := start_true hstart
  have hopen₁ : c₁.work.isSome = true := by rw [hw₁]; rfl
  split at h
  · rename_i hclear
    cases h
    exact ⟨rfl,(exec_open hopen₁ hclear).2.trans hc₁⟩
  rename_i c₂ hclear
  obtain ⟨hopen₂,hc₂⟩ := exec_open hopen₁ hclear
  have hparsed := (env.parser allow).gravityParseStream_keeps Batch (addDomain allow id)
    (Batch.Open c.committed) addDomain_open stream .zero ⟨c₂,[],false⟩ ⟨hopen₂,hc₂.trans hc₁⟩
  split at h
  · rename_i hparse
    rw [hparse] at hparsed
    cases h
    exact ⟨rfl,hparsed.2⟩
  rename_i b₃ hparse
  rw [hparse] at hparsed
  have hflushed : (batchFlush allow id b₃).2.Open c.committed := batchFlush_open hparsed
  split at h
  · rename_i hflush
    rw [hflush] at hflushed
    cases h
    exact ⟨rfl,hflushed.2⟩
  rename_i hflush
  rw [hflush] at hflushed
  split at h
  · cases h
    exact ⟨rfl,hflushed.2⟩
  split at h
  · rename_i hnumbers
    cases h
    exact ⟨rfl,(exec_open hflushed.1 hnumbers).2.trans hflushed.2⟩
  rename_i hnumbers
  obtain ⟨-,hc₅⟩ := exec_open hflushed.1 hnumbers
  split at h
  · rename_i hcommit
    cases h
    exact ⟨rfl,(commit_false hcommit).2.trans (hc₅.trans hflushed.2)⟩
  · cases h

/-- Whatever statement fails, the list is replaced in the table of its type or not at all, and no
other list is touched. Both tables together have what was handed over if and only if the other one
had no rows of the list. -/
theorem storeList_replaces_or_keeps (env : ListEnv) (allow : Bool) (id : Int)
    (stream : List Char) (now : Int) (c : Conn ListsDb) (hc : c.work = none) :
    let r := storeList env allow id stream now c
    let parsed := (env.parser allow).handedOver stream
    let before := c.committed
    let after := r.2.2.committed
    r.2.2.work = none ∧
      (r.1 = true → after.domainsOf allow id = parsed.2.2 ∧
        (after.domainsOf (!allow) id = [] ↔ before.domainsOf (!allow) id = []) ∧
        after.numbers id = parsed.2.1.numbers now) ∧
      (r.1 = false → after = before) ∧
      ∀ id', id' ≠ id → (∀ table, after.domainsOf table id' = before.domainsOf table id') ∧
        after.numbers id' = before.numbers id' := by
  dsimp only
  obtain ⟨ok,st,c',h⟩ : ∃ ok st c', storeList env allow id stream now c = (ok,st,c') :=
    ⟨_,_,_,rfl⟩
  rw [h]
  cases ok with
  | false =>
    obtain ⟨hw,hsame⟩ := storeList_false hc h
    rw [hsame]
    exact ⟨hw,nofun,fun _ => rfl,fun _ _ => ⟨fun _ => rfl,rfl⟩⟩
  | true =>
    obtain ⟨hw,xs,hparsed,hnew⟩ := storeList_true h
    rw [hnew,hparsed]
    refine ⟨hw,fun _ => ⟨?_,?_,?_⟩,nofun,fun id' hne => ⟨fun table => ?_,?_⟩⟩
    · exact c.committed.domainsOf_replaced allow id _
    · exact Eq.congr_left (c.committed.domainsOf_other allow id (.inl (Bool.not_ne_self allow)) xs)
    · simp [setNumbers]
    · exact c.committed.domainsOf_other allow id (.inr hne) _
    · simp [setNumbers,insertRows,clearList,hne]

theorem storeList_replaces_or_keeps_sample :
    let c : Conn ListsDb := ⟨⟨⟨[("old.de".toList,1),("b.de".toList,2)],[],
      [⟨1,true,0⟩,⟨2,true,0⟩],[],[],[],[],[],[],false⟩,fun _ => ⟨1,0,0,1,5⟩,2,0,5⟩,none,
      fun _ => true,0⟩
    let r := storeList ⟨fun _ => false,fun _ => false,fun _ => true⟩ false 1
      "a.de\n||c.de^\n".toList 9 c
    r.1 = true ∧ r.2.2.committed.domainsOf false 1 = ["a.de".toList,"||c.de^".toList] ∧
      r.2.2.committed.domainsOf false 2 = c.committed.domainsOf false 2 := by
  intro c r
  have hr : r.1 = true := by decide
  obtain ⟨-,-,-,hother⟩ := storeList_replaces_or_keeps
    ⟨fun _ => false,fun _ => false,fun _ => true⟩ false 1 "a.de\n||c.de^\n".toList 9 c rfl
  refine ⟨hr,?_,(hother 2 (by decide)).1 false⟩
  decide

/-- A list that was one of allowed domains keeps them in `antigravity`. -/
theorem storeList_other_table :
    let c : Conn ListsDb := ⟨⟨⟨[],[("old.de".toList,1)],[⟨1,true,0⟩],[],[],[],[],[],[],false⟩,
      fun _ => ⟨1,0,0,1,5⟩,2,0,5⟩,none,fun _ => true,0⟩
    let r := storeList ⟨fun _ => false,fun _ => false,fun _ => true⟩ false 1 "a.de\n".toList 9 c
    r.1 = true ∧ r.2.2.committed.domainsOf false 1 = ["a.de".toList] ∧
      r.2.2.committed.domainsOf true 1 = ["old.de".toList] := by
  decide

end

theorem updateList_false {env : ListEnv} {allow : Bool} {id : Int} {download : Download}
    {now : Int} {c c' : Conn ListsDb} {st : ParseStats} (hc : c.work = none)
    (h : updateList env allow id download now c = (false,st,c')) :
    c'.work = none ∧ ∃ status, c'.committed = c.committed.setNumbers id
      (fun n => { n with status := status }) := by
  have hkeep : c.committed.setNumbers id
      (fun n => { n with status := (c.committed.numbers id).status }) = c.committed := by
    simp [setNumbers]
  have hstatus : ∀ c₁ : Conn ListsDb, c₁.work = none → c₁.committed = c.committed →
      (setStatus allow id c₁).work = none ∧ ∃ status, (setStatus allow id c₁).committed =
        c.committed.setNumbers id (fun n => { n with status := status }) := by
    intro c₁ hw hsame
    simp only [setStatus,Conn.ask,Conn.exec,hw]
    split
    · exact ⟨rfl,_,by rw [hsame]⟩
    · exact ⟨rfl,_,hsame.trans hkeep.symm⟩
  cases download with
  | noTempFile =>
    cases h
    exact ⟨hc,_,hkeep.symm⟩
  | failed =>
    cases h
    exact hstatus c hc rfl
  | done stream =>
    simp only [updateList] at h
    split at h
    · cases h
    rename_i c₁ hstore
    cases h
    obtain ⟨hw,hsame⟩ := storeList_false hc hstore
    exact hstatus c₁ hw hsame

end Lorentz
