import Lorentz.Library.Monitor

/-!
The accounts of the API: the table `users`, the cache of the enabled ones, and the requests on
them. Each statement is one step and may fail.
-/

set_option autoImplicit false

namespace Lorentz

inductive UserRole where
  | admin
  | viewer
  deriving DecidableEq, Repr

def USERNAME_MAX : Nat := 64
def USER_COMMENT_MAX : Nat := 256
def USER_PASSWORD_MIN : Nat := 8
def USER_PASSWORD_MAX : Nat := 256

structure UserRow where
  id : Int
  username : List Char
  pwhash : List Char
  role : List Char
  enabled : Int
  comment : Option (List Char)
  createdAt : Int
  updatedAt : Int
  lastLogin : Option Int
  deriving DecidableEq, Repr

structure User where
  id : Int
  username : List Char
  role : UserRole
  enabled : Bool
  comment : List Char
  createdAt : Int
  updatedAt : Int
  lastLogin : Int
  deriving DecidableEq, Repr

inductive UserResult where
  | ok | notFound | exists | invalidName | invalidPassword | invalidComment | lastAdmin | error
  deriving DecidableEq, Repr

/-- `struct user_changes`: a field is `none` unless its `has_` flag is set. -/
structure UserChanges where
  username : Option (List Char)
  password : Option (List Char)
  role : Option UserRole
  enabled : Option Bool
  comment : Option (Option (List Char))
  deriving DecidableEq, Repr

def userRoleStr (role : UserRole) : List Char :=
  if role = .viewer then "viewer".toList else "admin".toList

def userRoleParse (str : List Char) : Option UserRole :=
  if str = "admin".toList then some .admin
  else if str = "viewer".toList then some .viewer
  else none

theorem userRoleParse_userRoleStr (role : UserRole) :
    userRoleParse (userRoleStr role) = some role := by
  cases role <;> decide

def usernameChar (c : Char) : Bool :=
  c.isAlphanum || c = '.' || c = '_' || c = '-' || c = '@'

def userNormalizeUsername (input : List Char) : Option (List Char) :=
  if input.length < 1 ∨ input.length > USERNAME_MAX then none
  else if input.all usernameChar then some (input.map Char.toLower)
  else none

def validPassword (password : List Char) : Bool :=
  USER_PASSWORD_MIN ≤ password.length && password.length ≤ USER_PASSWORD_MAX

def validComment (comment : Option (List Char)) : Bool :=
  comment.all (fun c => c.length ≤ USER_COMMENT_MAX)

/-- `read_user`: an unknown role gets the least. -/
def readUser (r : UserRow) : User where
  id := r.id
  username := r.username.take USERNAME_MAX
  role := (userRoleParse r.role).getD .viewer
  enabled := r.enabled ≠ 0
  comment := (r.comment.getD []).take USER_COMMENT_MAX
  createdAt := r.createdAt
  updatedAt := r.updatedAt
  lastLogin := r.lastLogin.getD 0

/-- The primary key and the names are unique, and `sequence` is the last key given out. -/
structure UserTable where
  rows : List UserRow
  sequence : Int
  ids : (rows.map (·.id)).Nodup
  names : (rows.map (·.username)).Nodup
  given : ∀ r ∈ rows, r.id ≤ sequence

/-- An admin account that is enabled, in the words of `count_enabled_admins`. -/
def UserRow.enabledAdmin (r : UserRow) : Bool := r.role = "admin".toList && r.enabled = 1

/-- Found once for all tables of names, so that their tests read alike. -/
instance lawfulBEqText : LawfulBEq (List Char) := inferInstance

namespace UserTable

def empty : UserTable := ⟨[],0,by simp,by simp,by simp⟩

variable (t : UserTable)

def byName (name : List Char) : Option UserRow := t.rows.find? (fun r => r.username = name)

def enabledAdmins (except : Int) : List UserRow :=
  t.rows.filter (fun r => r.enabledAdmin && r.id ≠ except)

def hasAdmin : Bool := t.rows.any UserRow.enabledAdmin

/-- `INSERT INTO users`, or `none` if the name is taken. -/
def insert (username pwhash role : List Char) (enabled : Int) (comment : Option (List Char))
    (now : Int) : Option UserTable :=
  if h : username ∈ t.rows.map (·.username) then none
  else some
    { rows := t.rows ++ [⟨t.sequence+1,username,pwhash,role,enabled,comment,now,now,none⟩]
      sequence := t.sequence+1
      ids := by
        have hnew : t.sequence+1 ∉ t.rows.map (·.id) := by
          simp only [List.mem_map,not_exists,not_and]
          intro r hr he
          have := t.given r hr
          omega
        simpa using List.Nodup.append t.ids (List.nodup_singleton _) (by simpa using hnew)
      names := by
        simpa using List.Nodup.append t.names (List.nodup_singleton _) (by simpa using h)
      given := by
        intro r hr
        rcases List.mem_append.1 hr with hr | hr
        · have := t.given r hr
          omega
        · simp [List.mem_singleton.1 hr] }

/-- The row with this key after `UPDATE users SET … WHERE id = ?`. -/
def change (id : Int) (f : UserRow → UserRow) : List UserRow :=
  t.rows.map (fun r => if r.id = id then { f r with id := r.id } else r)

theorem change_ids (id : Int) (f : UserRow → UserRow) :
    (t.change id f).map (·.id) = t.rows.map (·.id) := by
  simp only [change,List.map_map]
  refine List.map_congr_left fun r _ => ?_
  simp only [Function.comp_apply]
  split <;> rfl

/-- `UPDATE users SET … WHERE id = ?`, or `none` if the name is taken. -/
def update (id : Int) (f : UserRow → UserRow) : Option UserTable :=
  if h : ((t.change id f).map (·.username)).Nodup then some
    { rows := t.change id f
      sequence := t.sequence
      ids := by rw [change_ids]; exact t.ids
      names := h
      given := by
        intro r hr
        have hid : r.id ∈ (t.change id f).map (·.id) := List.mem_map_of_mem hr
        rw [change_ids,List.mem_map] at hid
        obtain ⟨r',hr',he⟩ := hid
        exact he ▸ t.given r' hr' }
  else none

/-- `DELETE FROM users WHERE id = ?`. -/
def delete (id : Int) : UserTable where
  rows := t.rows.filter (fun r => r.id ≠ id)
  sequence := t.sequence
  ids := t.ids.sublist (List.filter_sublist.map _)
  names := t.names.sublist (List.filter_sublist.map _)
  given := fun r hr => t.given r (List.mem_filter.1 hr).1

variable {t} {t' : UserTable} {id : Int}

theorem insert_rows {username pwhash role : List Char} {enabled now : Int}
    {comment : Option (List Char)}
    (h : t.insert username pwhash role enabled comment now = some t') :
    t'.rows = t.rows ++ [⟨t.sequence+1,username,pwhash,role,enabled,comment,now,now,none⟩] := by
  unfold insert at h
  split at h <;> cases h
  rfl

variable {f : UserRow → UserRow} {r : UserRow}

theorem update_rows (h : t.update id f = some t') : t'.rows = t.change id f := by
  unfold update at h
  split at h <;> cases h
  rfl

theorem mem_of_byName {name : List Char} {r : UserRow} (h : t.byName name = some r) :
    r ∈ t.rows :=
  List.mem_of_find?_eq_some h

theorem eq_of_id {r r' : UserRow} (h : r ∈ t.rows) (h' : r' ∈ t.rows) (he : r.id = r'.id) :
    r = r' :=
  List.inj_on_of_nodup_map t.ids h h' he

theorem mem_change_of_ne (h : r ∈ t.rows) (hne : r.id ≠ id) : r ∈ t.change id f :=
  List.mem_map.2 ⟨r,h,if_neg hne⟩

theorem mem_change (h : r ∈ t.rows) (he : r.id = id) : { f r with id := r.id } ∈ t.change id f :=
  List.mem_map.2 ⟨r,h,if_pos he⟩

end UserTable

structure CachedUser where
  id : Int
  role : UserRole
  username : List Char
  deriving DecidableEq, Repr

/-- The table and the cache of it. `enabled_count` is the length of the cache. -/
structure Users where
  table : UserTable
  cache : List CachedUser

/-- Whether a statement works, and the time it is made at. -/
structure Answer where
  ok : Bool
  now : Int
  deriving DecidableEq, Repr

def UserTable.enabledAccounts (t : UserTable) : List CachedUser :=
  (t.rows.filter (fun r => r.enabled = 1)).map
    (fun r => ⟨r.id,(userRoleParse r.role).getD .viewer,r.username.take USERNAME_MAX⟩)

def userCacheLookup (u : Users) (id : Int) : Option CachedUser :=
  u.cache.find? (fun c => c.id = id)

def usersEnabledCount (u : Users) : Nat := u.cache.length

abbrev UserRoutine := Routine Users Answer

def readByName (name : List Char) : UserRoutine (Except UserResult UserRow) :=
  .step fun a u =>
    (if a.ok then
      match u.table.byName name with
      | some r => .ok r
      | none => .error .notFound
    else .error .error,u)

def countEnabledAdmins (except : Int) : UserRoutine Nat :=
  .step fun a u => (if a.ok then (u.table.enabledAdmins except).length else 0,u)

def reloadCache : UserRoutine Bool :=
  .step fun a u => if a.ok then (true,{ u with cache := u.table.enabledAccounts }) else (false,u)

def changeTable (f : Int → UserTable → Option UserTable) : UserRoutine UserResult :=
  .step fun a u =>
    if a.ok then
      match f a.now u.table with
      | some t => (.ok,{ u with table := t })
      | none => (.exists,u)
    else (.error,u)

/-- After a change the new row is read if asked for, and the cache is reloaded in any case. -/
def afterChange (name : List Char) (out : Bool) : UserRoutine UserResult := do
  let seen ← if out then readByName name else pure (.error .error)
  let _ ← reloadCache
  match out, seen with
  | true, .error _ => pure .error
  | _, _ => pure .ok

def createLocked (name pwhash : List Char) (role : UserRole) (comment : Option (List Char))
    (enabled out : Bool) : UserRoutine UserResult := do
  match ← readByName name with
  | .ok _ => pure .exists
  | .error .notFound =>
    match ← changeTable (fun now t =>
        t.insert name pwhash (userRoleStr role) (if enabled then 1 else 0) comment now) with
    | .ok => afterChange name out
    | r => pure r
  | .error _ => pure .error

def UserChanges.apply (c : UserChanges) (newname : Option (List Char)) (u : User) : User :=
  { u with
    username := newname.getD u.username
    role := c.role.getD u.role
    enabled := c.enabled.getD u.enabled
    comment := (c.comment.map (·.getD [])).getD u.comment }

def User.write (u : User) (pwhash : List Char) (now : Int) (r : UserRow) : UserRow :=
  { r with
    username := u.username
    pwhash := pwhash
    role := userRoleStr u.role
    enabled := if u.enabled then 1 else 0
    comment := if u.comment = [] then none else some u.comment
    updatedAt := now }

def dropsAdmin (before user : User) : Bool :=
  before.role = .admin && before.enabled && (user.role ≠ .admin || !user.enabled)

/-- The check for the last admin, made if the change takes the rights of an enabled one. -/
def leavesNoAdmin (drops : Bool) (id : Int) : UserRoutine Bool :=
  if drops then do
    let n ← countEnabledAdmins id
    pure (n == 0)
  else pure false

def updateRow (row : UserRow) (user : User) (newhash : Option (List Char)) (out : Bool) :
    UserRoutine UserResult := do
  if ← leavesNoAdmin (dropsAdmin (readUser row) user) row.id then pure .lastAdmin
  else
    match ← changeTable (fun now t =>
        t.update user.id (user.write (newhash.getD row.pwhash) now)) with
    | .ok => afterChange user.username out
    | r => pure r

/-- `user_update` under the lock; a taken name is refused before the constraint of the table
would. -/
def updateLocked (name : List Char) (changes : UserChanges)
    (newname newhash : Option (List Char)) (out : Bool) : UserRoutine UserResult := do
  match ← readByName name with
  | .error e => pure e
  | .ok row =>
    let user := changes.apply newname (readUser row)
    if newname.isSome && (readUser row).username ≠ user.username then
      match ← readByName user.username with
      | .ok _ => pure .exists
      | .error _ => updateRow row user newhash out
    else updateRow row user newhash out

def deleteLocked (name : List Char) : UserRoutine UserResult := do
  match ← readByName name with
  | .error e => pure e
  | .ok row =>
    let user := readUser row
    if ← leavesNoAdmin (user.role = .admin && user.enabled) user.id then pure .lastAdmin
    else
      match ← changeTable (fun _ t => some (t.delete user.id)) with
      | .ok => do
        let _ ← reloadCache
        pure .ok
      | r => pure r

/-- A `user_create`, `user_update` or `user_delete`, with what `create_password` gives and whether
the database can be opened. -/
inductive UserRequest where
  | create (username password : List Char) (role : UserRole) (comment : Option (List Char))
      (enabled out : Bool) (pwhash : Option (List Char)) (opened : Bool)
  | update (username : List Char) (changes : UserChanges) (out : Bool)
      (newhash : Option (List Char)) (opened : Bool)
  | delete (username : List Char) (opened : Bool)
  deriving DecidableEq, Repr

def userCreate (username password : List Char) (role : UserRole) (comment : Option (List Char))
    (enabled out : Bool) (pwhash : Option (List Char)) (opened : Bool) :
    Except UserResult (UserRoutine UserResult) :=
  match userNormalizeUsername username with
  | none => .error .invalidName
  | some name =>
    if validPassword password = false then .error .invalidPassword
    else if validComment comment = false then .error .invalidComment
    else match pwhash, opened with
      | some pwhash, true => .ok (createLocked name pwhash role comment enabled out)
      | _, _ => .error .error

def userUpdate (username : List Char) (changes : UserChanges) (out : Bool)
    (newhash : Option (List Char)) (opened : Bool) :
    Except UserResult (UserRoutine UserResult) :=
  match userNormalizeUsername username with
  | none => .error .notFound
  | some name =>
    let newname := changes.username.bind userNormalizeUsername
    if changes.username.isSome && newname.isNone then .error .invalidName
    else if changes.password.any (fun p => validPassword p = false) then .error .invalidPassword
    else if changes.comment.any (fun c => validComment c = false) then .error .invalidComment
    else if changes.password.isSome && newhash.isNone then .error .error
    else if opened = false then .error .error
    else .ok (updateLocked name changes newname
      (if changes.password.isSome then newhash else none) out)

def userDelete (username : List Char) (opened : Bool) :
    Except UserResult (UserRoutine UserResult) :=
  match userNormalizeUsername username with
  | none => .error .notFound
  | some name => if opened = false then .error .error else .ok (deleteLocked name)

def UserRequest.body : UserRequest → Except UserResult (UserRoutine UserResult)
  | .create username password role comment enabled out pwhash opened =>
    userCreate username password role comment enabled out pwhash opened
  | .update username changes out newhash opened => userUpdate username changes out newhash opened
  | .delete username opened => userDelete username opened

open UserRequest Routine

/-- The change to the table that a request asks for, with what was checked before it. -/
inductive UserRequest.Changes : UserRequest → UserTable → UserTable → Prop
  | create {username password : List Char} {role : UserRole} {comment : Option (List Char)}
      {enabled out : Bool} {pwhash : Option (List Char)} {opened : Bool} {name hash : List Char}
      {now : Int} {t t' : UserTable} (hname : userNormalizeUsername username = some name)
      (hinsert : t.insert name hash (userRoleStr role) (if enabled then 1 else 0) comment now =
        some t') :
      Changes (.create username password role comment enabled out pwhash opened) t t'
  | update {username : List Char} {changes : UserChanges} {out : Bool}
      {newhash : Option (List Char)} {opened : Bool} {name hash : List Char}
      {newname : Option (List Char)} {row : UserRow} {now : Int} {t t' : UserTable}
      (hname : userNormalizeUsername username = some name) (hrow : t.byName name = some row)
      (hlast : dropsAdmin (readUser row) (changes.apply newname (readUser row)) = true →
        t.enabledAdmins row.id ≠ [])
      (hupdate : t.update row.id ((changes.apply newname (readUser row)).write hash now) =
        some t') :
      Changes (.update username changes out newhash opened) t t'
  | delete {username : List Char} {opened : Bool} {name : List Char} {row : UserRow}
      {t : UserTable} (hname : userNormalizeUsername username = some name)
      (hrow : t.byName name = some row)
      (hlast : (decide ((readUser row).role = .admin) && (readUser row).enabled) = true →
        t.enabledAdmins row.id ≠ []) :
      Changes (.delete username opened) t (t.delete row.id)

inductive UserRequest.Steps (k : UserRequest) (u : Users) : Users → Prop
  | stay : Steps k u u
  | reload : Steps k u { u with cache := u.table.enabledAccounts }
  | change {t : UserTable} (h : k.Changes u.table t) : Steps k u { u with table := t }

/-- A request returns an error and has done nothing, or has made its change and may have reloaded
the cache. -/
inductive UserRequest.Does (k : UserRequest) (u : Users) : UserResult → Users → Prop
  | refused {r : UserResult} (h : r ≠ .ok) : Does k u r u
  | stale {r : UserResult} {t : UserTable} (h : k.Changes u.table t) :
      Does k u r { u with table := t }
  | changed {r : UserResult} {t : UserTable} (h : k.Changes u.table t) :
      Does k u r ⟨t,t.enabledAccounts⟩

section

variable {u : Users} {G : Users → Users → Prop} {name : List Char}

theorem readByName_ensures {Q : Except UserResult UserRow → Users → Prop} (hG : G u u)
    (hok : ∀ r, u.table.byName name = some r → Q (.ok r) u)
    (herr : ∀ e, e ≠ .ok → Q (.error e) u) : (readByName name).Ensures G Q u := by
  intro a
  refine ⟨hG,?_⟩
  cases ha : a.ok with
  | false => simpa [ha] using herr .error (by simp)
  | true =>
    cases hn : u.table.byName name with
    | none => simpa [ha,hn] using herr .notFound (by simp)
    | some r => simpa [ha,hn] using hok r hn

theorem countEnabledAdmins_ensures {Q : Nat → Users → Prop} {except : Int} (hG : G u u)
    (h : ∀ n, (n ≠ 0 → u.table.enabledAdmins except ≠ []) → Q n u) :
    (countEnabledAdmins except).Ensures G Q u := by
  intro a
  refine ⟨hG,h _ ?_⟩
  intro hn he
  cases ha : a.ok <;> simp [ha,he] at hn

theorem leavesNoAdmin_ensures {Q : Bool → Users → Prop} {drops : Bool} {id : Int} (hG : G u u)
    (hlast : Q true u) (hfree : (drops = true → u.table.enabledAdmins id ≠ []) → Q false u) :
    (leavesNoAdmin drops id).Ensures G Q u := by
  cases drops with
  | false => exact hfree (by simp)
  | true =>
    simp only [leavesNoAdmin,if_true,ensures_bind]
    refine countEnabledAdmins_ensures hG fun n hn => ?_
    cases n with
    | zero => exact hlast
    | succ n => exact hfree fun _ => hn (by simp)

variable {Q : UserResult → Users → Prop} {k : UserRequest} {f : Int → UserTable → Option UserTable}
  {out : Bool}

theorem changeTable_ensures (hG : G u u) (hsame : ∀ r, r ≠ .ok → Q r u)
    (hnew : ∀ now t, f now u.table = some t → G u { u with table := t } ∧
      Q .ok { u with table := t }) :
    (changeTable f).Ensures G Q u := by
  intro a
  cases ha : a.ok with
  | false => simpa [ha] using ⟨hG,hsame .error (by simp)⟩
  | true =>
    cases hf : f a.now u.table with
    | none => simpa [ha,hf] using ⟨hG,hsame .exists (by simp)⟩
    | some t => simpa [ha,hf] using hnew a.now t hf

theorem reloadCache_ensures {Q : Bool → Users → Prop} (hG : G u u)
    (hG' : G u { u with cache := u.table.enabledAccounts }) (hstale : Q false u)
    (hnew : Q true { u with cache := u.table.enabledAccounts }) : reloadCache.Ensures G Q u := by
  intro a
  cases ha : a.ok with
  | false => simpa [ha] using ⟨hG,hstale⟩
  | true => simpa [ha] using ⟨hG',hnew⟩

theorem afterChange_ensures (hG : G u u) (hG' : G u { u with cache := u.table.enabledAccounts })
    (hstale : ∀ r, Q r u) (hnew : ∀ r, Q r { u with cache := u.table.enabledAccounts }) :
    (afterChange name out).Ensures G Q u := by
  have hend : ∀ r, (reloadCache >>= fun _ => (pure r : UserRoutine UserResult)).Ensures G Q u := by
    intro r
    rw [ensures_bind]
    exact reloadCache_ensures hG hG' (hstale r) (hnew r)
  cases out with
  | false => exact hend .ok
  | true =>
    simp only [afterChange,if_true]
    rw [ensures_bind]
    exact readByName_ensures hG (fun r _ => hend .ok) (fun e _ => hend .error)

theorem changeTable_done {rest : UserResult → UserRoutine UserResult}
    (hf : ∀ now t, f now u.table = some t → k.Changes u.table t)
    (hsame : ∀ r, r ≠ .ok → (rest r).Ensures k.Steps (k.Does u) u)
    (hok : ∀ t, k.Changes u.table t → (rest .ok).Ensures k.Steps (k.Does u) { u with table := t }) :
    (changeTable f >>= rest).Ensures k.Steps (k.Does u) u := by
  refine changeTable_ensures .stay hsame fun now t ht => ?_
  exact ⟨.change (hf now t ht),hok t (hf now t ht)⟩

theorem afterChange_done {t : UserTable} (h : k.Changes u.table t) :
    (afterChange name out).Ensures k.Steps (k.Does u) { u with table := t } :=
  afterChange_ensures .stay .reload (fun _ => .stale h) (fun _ => .changed h)

end

variable {u : Users} {username : List Char} {changes : UserChanges} {out : Bool}
  {newhash : Option (List Char)} {opened : Bool} {name : List Char}
  {newname hash : Option (List Char)}

theorem createLocked_does {username password : List Char} {role : UserRole}
    {comment : Option (List Char)} {enabled out : Bool} {pwhash : Option (List Char)}
    {opened : Bool} {name hash : List Char} (hname : userNormalizeUsername username = some name) :
    (createLocked name hash role comment enabled out).Ensures
      (create username password role comment enabled out pwhash opened).Steps
      ((create username password role comment enabled out pwhash opened).Does u) u := by
  simp only [createLocked,ensures_bind]
  refine readByName_ensures .stay (fun _ _ => .refused (by simp)) (fun e _ => ?_)
  split
  case h_1 h => cases h
  case h_3 => exact .refused (by simp)
  case h_2 =>
    refine changeTable_done (fun now t ht => .create hname ht) (fun r hr => ?_)
      fun t ht => afterChange_done ht
    split
    · exact absurd rfl hr
    · exact .refused hr

theorem updateRow_does {row : UserRow} (hname : userNormalizeUsername username = some name)
    (hrow : u.table.byName name = some row) :
    (updateRow row (changes.apply newname (readUser row)) hash out).Ensures
      (update username changes out newhash opened).Steps
      ((update username changes out newhash opened).Does u) u := by
  simp only [updateRow,ensures_bind]
  refine leavesNoAdmin_ensures .stay (.refused (by simp)) (fun hlast => ?_)
  refine changeTable_done (fun now t ht => .update hname hrow hlast ht) (fun r hr => ?_)
    fun t ht => afterChange_done ht
  split
  · exact absurd rfl hr
  · exact .refused hr

section

variable (hname : userNormalizeUsername username = some name)
include hname

theorem updateLocked_does : (updateLocked name changes newname hash out).Ensures
      (update username changes out newhash opened).Steps
      ((update username changes out newhash opened).Does u) u := by
  simp only [updateLocked,ensures_bind]
  refine readByName_ensures .stay (fun row hrow => ?_) (fun e he => .refused he)
  dsimp only
  split
  · rw [ensures_bind]
    exact readByName_ensures .stay (fun _ _ => .refused (by simp))
      (fun _ _ => updateRow_does hname hrow)
  · exact updateRow_does hname hrow

theorem deleteLocked_does : (deleteLocked name).Ensures (delete username opened).Steps
      ((delete username opened).Does u) u := by
  simp only [deleteLocked,ensures_bind]
  refine readByName_ensures .stay (fun row hrow => ?_) (fun e he => .refused he)
  rw [ensures_bind]
  refine leavesNoAdmin_ensures .stay (.refused (by simp)) (fun hlast => ?_)
  refine changeTable_done ?_ (fun r hr => ?_) fun t ht => ?_
  · rintro now t ⟨⟩
    exact .delete hname hrow hlast
  · split
    · exact absurd rfl hr
    · exact .refused hr
  · rw [ensures_bind]
    exact reloadCache_ensures .stay .reload (.stale ht) (.changed ht)

end

theorem userCreate_cases (username password : List Char) (role : UserRole)
    (comment : Option (List Char)) (enabled out : Bool) (pwhash : Option (List Char))
    (opened : Bool) :
    (∃ r, r ≠ .ok ∧ userCreate username password role comment enabled out pwhash opened =
      .error r) ∨
    ∃ name hash, userNormalizeUsername username = some name ∧
      userCreate username password role comment enabled out pwhash opened =
        .ok (createLocked name hash role comment enabled out) := by
  unfold userCreate
  cases hn : userNormalizeUsername username with
  | none => exact .inl ⟨.invalidName,by simp,rfl⟩
  | some name =>
    dsimp only
    split
    · exact .inl ⟨.invalidPassword,by simp,rfl⟩
    split
    · exact .inl ⟨.invalidComment,by simp,rfl⟩
    split
    · exact .inr ⟨name,_,rfl,rfl⟩
    · exact .inl ⟨.error,by simp,rfl⟩

variable (username : List Char)

theorem userUpdate_cases (changes : UserChanges) (out : Bool) (newhash : Option (List Char))
    (opened : Bool) : (∃ r, r ≠ .ok ∧ userUpdate username changes out newhash opened = .error r) ∨
    ∃ name newname hash, userNormalizeUsername username = some name ∧
      userUpdate username changes out newhash opened =
        .ok (updateLocked name changes newname hash out) := by
  unfold userUpdate
  cases hn : userNormalizeUsername username with
  | none => exact .inl ⟨.notFound,by simp,rfl⟩
  | some name =>
    dsimp only
    split
    · exact .inl ⟨.invalidName,by simp,rfl⟩
    split
    · exact .inl ⟨.invalidPassword,by simp,rfl⟩
    split
    · exact .inl ⟨.invalidComment,by simp,rfl⟩
    split
    · exact .inl ⟨.error,by simp,rfl⟩
    split
    · exact .inl ⟨.error,by simp,rfl⟩
    · exact .inr ⟨name,_,_,rfl,rfl⟩

theorem userDelete_cases (opened : Bool) : (∃ r, r ≠ .ok ∧ userDelete username opened = .error r) ∨
    ∃ name, userNormalizeUsername username = some name ∧
      userDelete username opened = .ok (deleteLocked name) := by
  unfold userDelete
  cases hn : userNormalizeUsername username with
  | none => exact .inl ⟨.notFound,by simp,rfl⟩
  | some name =>
    dsimp only
    split
    · exact .inl ⟨.error,by simp,rfl⟩
    · exact .inr ⟨name,rfl,rfl⟩

theorem userRequests_promise :
    Monitor.Promises Steps UserRequest.Does UserRequest.body := by
  intro k u
  cases k with
  | create username password role comment enabled out pwhash opened =>
    rcases userCreate_cases username password role comment enabled out pwhash opened with
      ⟨r,hr,hb⟩ | ⟨name,hash,hn,hb⟩ <;> rw [UserRequest.body,hb]
    · exact .refused hr
    · exact createLocked_does hn
  | update username changes out newhash opened =>
    rcases userUpdate_cases username changes out newhash opened with
      ⟨r,hr,hb⟩ | ⟨name,newname,hash,hn,hb⟩ <;> rw [UserRequest.body,hb]
    · exact .refused hr
    · exact updateLocked_does hn
  | delete username opened =>
    rcases userDelete_cases username opened with ⟨r,hr,hb⟩ | ⟨name,hn,hb⟩ <;>
      rw [UserRequest.body,hb]
    · exact .refused hr
    · exact deleteLocked_does hn

def Users.serve (u : Users) (k : UserRequest) (answers : Nat → Answer) : UserResult × Users :=
  match k.body with
  | .error r => (r,u)
  | .ok p => p.run answers u

theorem Users.serve_does (u : Users) (k : UserRequest) (answers : Nat → Answer) :
    k.Does u (u.serve k answers).1 (u.serve k answers).2 := by
  have h := userRequests_promise k u
  unfold Users.serve
  cases hb : k.body with
  | error r => rw [hb] at h; exact h
  | ok p => rw [hb] at h; exact h.run answers

end Lorentz
