import Lorentz.Accounts
import Lorentz.Passwords

/-!
Who may do what over the API: sessions, `check_client_auth`, roles and the account endpoints; and
when whole requests leave a credential with the rights of an admin.
-/

set_option autoImplicit false

namespace Lorentz

inductive HttpMethod where
  | get
  | post
  | put
  | patch
  | delete
  deriving DecidableEq, Repr

def SESSION_NO_ACCOUNT : Int := 0

/-- What `struct session` holds that a request is checked against. -/
structure Session where
  used : Bool
  sid : List Char
  csrf : List Char
  validUntil : Int
  accountId : Int
  deriving DecidableEq, Repr

def Session.zero : Session := ⟨false,[],[],0,0⟩

/-- `authLock` says that a request holds `auth_lock` between two of its steps. -/
structure Server where
  pwhash : List Char
  timeout : Int
  users : Users
  sessions : List Session
  authLock : Bool

/-- `struct lorentz_conn`: the slot of the session and the copy of it. -/
structure Conn where
  userId : Option Nat
  session : Session
  deriving DecidableEq, Repr

def Conn.none : Conn := ⟨Option.none,.zero⟩

abbrev ServerRoutine := Routine Server Int

namespace Server

variable (s : Server)

def deleteSession (userId : Nat) : Server :=
  { s with sessions := s.sessions.set userId .zero }

def deleteUserSessions (accountId : Int) (exceptSlot : Option Nat) : Server :=
  { s with
    sessions := s.sessions.mapIdx (fun i x =>
      if some i ≠ exceptSlot ∧ x.used = true ∧ x.accountId = accountId then .zero else x) }

def deleteAllSessions : Server := { s with sessions := s.sessions.map (fun _ => .zero) }

def login (now : Int) (sid csrf : List Char) (accountId : Int) : Server :=
  match s.sessions.findIdx? (fun x => !x.used || x.validUntil < now) with
  | none => s
  | some i => { s with sessions := s.sessions.set i ⟨true,sid,csrf,now+s.timeout,accountId⟩ }

end Server

/-- The endpoint a request was routed to, and its credentials; `csrf` is the token of the header,
needed if the session ID came in a cookie. -/
structure ApiRequest where
  uri : List Char
  requireAuth : Bool
  method : HttpMethod
  item : List Char
  sid : Option (List Char)
  cookie : Bool
  csrf : Option (List Char)
  changes : UserChanges
  deriving DecidableEq, Repr

inductive Auth where
  | emptypass
  | unauthorized
  | session (c : Conn)
  deriving DecidableEq, Repr

def authDisabled : ServerRoutine Bool := do
  let pwhash ← .step fun _ s => (s.pwhash,s)
  if pwhash = [] then .step fun _ s => (usersEnabledCount s.users == 0,s)
  else pure false

def ApiRequest.needCsrf (q : ApiRequest) : Bool := q.cookie

/-- The slot of the session with this ID, unless it has expired or its CSRF token is another. -/
def ApiRequest.findSession (q : ApiRequest) (sid : List Char) (now : Int)
    (sessions : List Session) : Option (Nat × Session) :=
  match sessions.findIdx? (fun x => x.used && x.sid = sid) with
  | none => none
  | some i =>
    let x := sessions.getD i .zero
    if x.validUntil < now then none
    else if q.needCsrf && q.csrf ≠ some x.csrf then none
    else some (i,x)

/-- Take `auth_lock` and look up the session; the lock is kept if there is one. -/
def lookupSession (q : ApiRequest) (sid : List Char) :
    ServerRoutine (Option (Nat × Session × Int)) :=
  .step fun now s =>
    match q.findSession sid now s.sessions with
    | none => (none,s)
    | some (i,x) => (some (i,x,now),{ s with authLock := true })

/-- Look up the account of the session, extend it and release `auth_lock`. -/
def lookupAccount (i : Nat) (x : Session) (now : Int) : ServerRoutine Auth :=
  .step fun _ s =>
    if x.accountId ≠ SESSION_NO_ACCOUNT ∧ userCacheLookup s.users x.accountId = none then
      (.unauthorized,{ s with authLock := false })
    else
      let x := { x with validUntil := now+s.timeout }
      (.session ⟨some i,x⟩,{ s with sessions := s.sessions.set i x, authLock := false })

def checkClientAuth (q : ApiRequest) : ServerRoutine Auth := do
  if ← authDisabled then pure .emptypass
  else
    match q.sid with
    | none => pure .unauthorized
    | some sid =>
      if sid = [] then pure .unauthorized
      else if q.needCsrf && q.csrf.isNone then pure .unauthorized
      else
        match ← lookupSession q sid with
        | none => pure .unauthorized
        | some (i,x,now) => lookupAccount i x now

/-- Who is asking; `none` for the configured password, an open API, or an account that is not in
the cache. -/
def currentAccount (c : Conn) : ServerRoutine (Option CachedUser) :=
  if c.userId.isNone ∨ c.session.accountId = SESSION_NO_ACCOUNT then pure none
  else .step fun _ s => (userCacheLookup s.users c.session.accountId,s)

def isAdmin (c : Conn) : ServerRoutine Bool := do
  match ← currentAccount c with
  | none => pure true
  | some me => pure (me.role = .admin)

def adminOnly : List (List Char) :=
  ["/api/config".toList,"/api/teleporter".toList,"/api/logs".toList,"/api/auth/sessions".toList,
    "/api/auth/app".toList,"/api/auth/totp".toList,"/api/action".toList,"/api/dhcp".toList]

/-- What `api_role_allows` grants to somebody who is not an admin. -/
def viewerAllows (endpoint : List Char) (method : HttpMethod) : Bool :=
  if endpoint = "/api/users".toList then method = .get || method = .put
  else if method ≠ .get then false
  else !adminOnly.any (fun p => p.isPrefixOf endpoint)

def apiRoleAllows (c : Conn) (endpoint : List Char) (method : HttpMethod) :
    ServerRoutine Bool := do
  if ← isAdmin c then pure true else pure (viewerAllows endpoint method)

/-- What a handler goes on to do once its own checks have let it. -/
inductive Action where
  | endpoint (uri : List Char) (method : HttpMethod)
  | listUsers
  | createUser
  | getUser (self : Bool)
  | updateUser (self admin : Bool) (me : Option CachedUser)
  | deleteUser
  deriving DecidableEq, Repr

inductive Outcome where
  | unauthorized
  | forbidden
  | conflict
  | notFound
  | runs (c : Conn) (a : Action)
  deriving DecidableEq, Repr

def strcasecmp (a b : List Char) : Bool := a.map Char.toLower = b.map Char.toLower

def UserChanges.givesRights (c : UserChanges) : Bool :=
  c.role.isSome || c.enabled.isSome || c.username.isSome

/-- `if(!is_admin(api)) return send_forbidden(api)`. -/
def adminsOnly (c : Conn) (a : Action) : ServerRoutine Outcome := do
  if ← isAdmin c then pure (.runs c a) else pure .forbidden

def getUser (c : Conn) (item : List Char) : ServerRoutine Outcome := do
  let me ← currentAccount c
  if me.any (fun me => strcasecmp me.username item) then pure (.runs c (.getUser true))
  else adminsOnly c (.getUser false)

def updateUser (c : Conn) (item : List Char) (changes : UserChanges) :
    ServerRoutine Outcome := do
  let me ← currentAccount c
  let admin := me.all (fun me => me.role = .admin)
  let self := me.any (fun me => strcasecmp me.username item)
  if !self && !admin then pure .forbidden
  else if !admin && changes.givesRights then pure .forbidden
  else if self && (changes.enabled = some false ||
      (changes.role.any (· ≠ .admin) && me.any (fun me => me.role = .admin))) then pure .conflict
  else pure (.runs c (.updateUser self admin me))

def deleteUser (c : Conn) (item : List Char) : ServerRoutine Outcome := do
  if ← isAdmin c then
    let me ← currentAccount c
    if me.any (fun me => strcasecmp me.username item) then pure .conflict
    else pure (.runs c .deleteUser)
  else pure .forbidden

def apiUsers (c : Conn) (q : ApiRequest) : ServerRoutine Outcome :=
  if q.item = [] then
    match q.method with
    | .get => adminsOnly c .listUsers
    | .post => adminsOnly c .createUser
    | _ => pure .notFound
  else
    match q.method with
    | .get => getUser c q.item
    | .put => updateUser c q.item q.changes
    | .delete => deleteUser c q.item
    | _ => pure .notFound

def apiFunc (c : Conn) (q : ApiRequest) : ServerRoutine Outcome :=
  if q.uri = "/api/users".toList then apiUsers c q else pure (.runs c (.endpoint q.uri q.method))

/-- `api_handler` for the row of the table that fits the request. -/
def apiHandler (q : ApiRequest) : ServerRoutine Outcome := do
  if q.requireAuth = false then apiFunc .none q
  else
    match ← checkClientAuth q with
    | .unauthorized => pure .unauthorized
    | .emptypass =>
      if ← apiRoleAllows .none q.uri q.method then apiFunc .none q else pure .forbidden
    | .session c =>
      if ← apiRoleAllows c q.uri q.method then apiFunc c q else pure .forbidden

def Action.reserved : Action → Bool
  | .endpoint uri method => !viewerAllows uri method
  | .getUser self => !self
  | .updateUser self admin _ => !self || admin
  | .listUsers | .createUser | .deleteUser => true

def Outcome.reserved : Outcome → Bool
  | .runs _ a => a.reserved
  | _ => false

/-- What other requests do to the accounts, the sessions and the password. -/
inductive ServerStep where
  | account (k : UserRequest) (answers : Nat → Answer)
  | deleteSession (userId : Nat)
  | deleteUserSessions (accountId : Int) (exceptSlot : Option Nat)
  | deleteAllSessions
  | login (now : Int) (sid csrf : List Char) (accountId : Int)
  | setPwhash (pwhash : List Char)

def Server.whenUnlocked (s : Server) (f : Server → Server) : Server :=
  if s.authLock then s else f s

def ServerStep.apply : ServerStep → Server → Server
  | .account k answers, s => { s with users := (s.users.serve k answers).2 }
  | .deleteSession userId, s => s.whenUnlocked (·.deleteSession userId)
  | .deleteUserSessions accountId exceptSlot, s =>
    s.whenUnlocked (·.deleteUserSessions accountId exceptSlot)
  | .deleteAllSessions, s => s.whenUnlocked (·.deleteAllSessions)
  | .login now sid csrf accountId, s => s.whenUnlocked (·.login now sid csrf accountId)
  | .setPwhash pwhash, s => { s with pwhash := pwhash }

/-- What `create_password` and, for a hash and a password that are not empty, `verify_password`
answer during a change of the configuration. -/
structure Passwords where
  createPassword : List Char → List Char
  verifyPassword : List Char → List Char → Bool

def Hashing.passwords {σ η : Type} [DecidableEq η] (H : Hashing σ η) (salt : Option σ) :
    Passwords :=
  ⟨H.createPassword salt,fun password pwhash => H.verifies pwhash password⟩

def PASSWORD_VALUE : List Char := List.replicate 8 '*'

/-- What a request on the accounts meets: the hash of its password, the database, and whether its
current password is right. -/
structure UserEnv where
  pwhash : Option (List Char)
  opened : Bool
  answers : Nat → Answer
  passwordCorrect : Bool

def ApiRequest.routed (q : ApiRequest) (uri : List Char) (method : HttpMethod) : ApiRequest :=
  { q with uri := uri, requireAuth := true, method := method }

namespace Server

variable (s : Server)

def createUser (changes : UserChanges) (env : UserEnv) : Server :=
  match changes.username, changes.password with
  | some username, some password =>
    -- while the API is open, the first account has to be an enabled admin
    if s.pwhash = [] ∧ usersEnabledCount s.users = 0 ∧
        (changes.role ≠ some .admin ∨ changes.enabled = some false) then s
    else { s with users := (s.users.serve (.create username password (changes.role.getD .viewer)
      changes.comment.join (changes.enabled.getD true) true env.pwhash env.opened) env.answers).2 }
  | _, _ => s

/-- `update_user` behind its checks of the payload. A disabled account is out, and a new password
leaves only the session that asked. -/
def updateUser (c : Conn) (item : List Char) (changes : UserChanges) (self : Bool)
    (env : UserEnv) : Server :=
  if self && changes.password.isSome && !env.passwordCorrect then s
  else
    match s.users.serve (.update item changes true env.pwhash env.opened) env.answers with
    | (.ok,u) =>
      let name := (changes.username.getD item).map Char.toLower
      match u.table.byName name with
      | some r =>
        if (readUser r).enabled = false then { s with users := u }.deleteUserSessions r.id none
        else if changes.password.isSome then
          { s with users := u }.deleteUserSessions r.id (if self then c.userId else none)
        else { s with users := u }
      | none => { s with users := u }
    | (_,u) => { s with users := u }

def deleteUser (item : List Char) (env : UserEnv) : Server :=
  match s.users.serve (.delete item env.opened) env.answers with
  | (.ok,u) =>
    match (userNormalizeUsername item).bind s.users.table.byName with
    | some r => { s with users := u }.deleteUserSessions r.id none
    | none => { s with users := u }
  | (_,u) => { s with users := u }

def usersRequest (q : ApiRequest) (clock : Nat → Int) (env : UserEnv) : Server :=
  match (apiHandler (q.routed "/api/users".toList q.method)).run clock s with
  | (.runs _ .createUser,s) => s.createUser q.changes env
  | (.runs c (.updateUser self _ _),s) => s.updateUser c q.item q.changes self env
  | (.runs _ .deleteUser,s) => s.deleteUser q.item env
  | (_,s) => s

end Server

/-- How a change of the configuration ends: another item may be refused before the password is read
or behind it. -/
inductive PatchEnd where
  | accepted
  | refusedBefore
  | refusedBehind
  deriving DecidableEq, Repr

/-- What a change of the configuration says about the password, and the salt of a new hash unless
there is no randomness. -/
structure ConfigPatch (σ : Type) where
  pwhash : Option (List Char)
  password : Option (List Char)
  salt : Option σ
  result : PatchEnd
  deriving DecidableEq, Repr

/-- `set_and_check_password`: the hash to set, the old one for the old password, `none` if the new
hash does not verify. An empty hash, which `create_password` gives without randomness, passes. -/
def Passwords.setAndCheckPassword (P : Passwords) (live candidate password : List Char) :
    Option (List Char) :=
  if (password = [] ∧ live = []) ∨ (live ≠ [] ∧ password ≠ [] ∧ P.verifyPassword password live) then
    some candidate
  else if password = [] then some []
  else if P.createPassword password = [] ∨ P.verifyPassword password (P.createPassword password) then
    some (P.createPassword password)
  else none

section

variable {σ η : Type} [DecidableEq η] (H : Hashing σ η) (s : Server)

namespace ConfigPatch

variable (patch : ConfigPatch σ) (live : List Char)

/-- The password of the change, unless it is the placeholder. -/
def submitted : Option (List Char) := patch.password.filter (fun p => p ≠ PASSWORD_VALUE)

/-- The hash of the candidate: `pwhash` comes before the pseudo item `password`, which may set it
again. -/
def candidate : Option (List Char) :=
  match patch.submitted with
  | none => some (patch.pwhash.getD live)
  | some p => (H.passwords patch.salt).setAndCheckPassword live (patch.pwhash.getD live) p

/-- The running hash behind `set_and_check_password`: `verify_password` upgrades a legacy one that
fits. -/
def upgraded : List Char :=
  match patch.submitted with
  | none => live
  | some p =>
    if live ≠ [] ∧ p ≠ [] ∧ legacyHash live ∧ H.verifies live p then H.createPassword patch.salt p
    else live

def invalidatesSessions : Bool := patch.pwhash.any (· ≠ live) || patch.submitted.isSome

end ConfigPatch

def Server.configPatch (patch : ConfigPatch σ) : Server :=
  if patch.result = .refusedBefore then s
  else
    match patch.candidate H s.pwhash with
    | none => s
    | some h =>
      if patch.result = .refusedBehind then { s with pwhash := patch.upgraded H s.pwhash }
      else if patch.invalidatesSessions s.pwhash then { s with pwhash := h }.deleteAllSessions
      else { s with pwhash := h }

def Server.configRequest (q : ApiRequest) (clock : Nat → Int) (patch : ConfigPatch σ) : Server :=
  match (apiHandler (q.routed "/api/config".toList .patch)).run clock s with
  | (.runs _ (.endpoint _ _),s) => s.configPatch H patch
  | (_,s) => s

inductive ApiOp (σ : Type) where
  | users (q : ApiRequest) (clock : Nat → Int) (env : UserEnv)
  | config (q : ApiRequest) (clock : Nat → Int) (patch : ConfigPatch σ)

def ApiOp.perform : ApiOp σ → Server
  | .users q clock env => s.usersRequest q clock env
  | .config q clock patch => s.configRequest H q clock patch

def Server.performAll (ops : List (ApiOp σ)) : Server := ops.foldl (ApiOp.perform H) s

end

def UserTable.anyEnabled (t : UserTable) : Bool := t.rows.any (fun r => r.enabled ≠ 0)

def Server.requiresLogin (s : Server) : Prop :=
  s.pwhash ≠ [] ∨ usersEnabledCount s.users ≠ 0 ∨ s.users.table.anyEnabled = true

def Server.adminCredential (s : Server) : Prop :=
  s.pwhash ≠ [] ∨ s.users.table.hasAdmin = true

instance (s : Server) : Decidable s.requiresLogin :=
  inferInstanceAs (Decidable (_ ∨ _ ∨ _))

instance (s : Server) : Decidable s.adminCredential :=
  inferInstanceAs (Decidable (_ ∨ _))

def Users.nobody (u : Users) : Bool := !u.table.anyEnabled && u.cache.isEmpty

/-- Not locked out, in a form the requests keep: a credential, or no enabled account. -/
def Server.Accessible (s : Server) : Prop := s.adminCredential ∨ s.users.nobody = true

theorem Server.Accessible.credential {s : Server} (h : s.Accessible)
    (hl : s.requiresLogin) : s.adminCredential := by
  rcases h with h | h
  · exact h
  simp only [Users.nobody,Bool.and_eq_true,Bool.not_eq_true',List.isEmpty_iff] at h
  rcases hl with hl | hl | hl
  · exact .inl hl
  · exact absurd (by rw [usersEnabledCount,h.2]; rfl) hl
  · rw [h.1] at hl
    cases hl

section

variable {σ η : Type} [DecidableEq η] (H : Hashing σ η)

/-- A change that is accepted empties neither hash nor password, and one that makes a new hash (of
a new password; if it is refused, of the old one for a legacy hash) finds randomness. -/
def ConfigPatch.keepsPassword (patch : ConfigPatch σ) (live : List Char) : Bool :=
  match patch.result with
  | .accepted => patch.pwhash ≠ some [] && patch.password ≠ some [] &&
      (patch.salt.isSome || patch.submitted.all (H.verifies live))
  | .refusedBehind =>
    patch.salt.isSome || !legacyHash live || !patch.submitted.any (H.verifies live)
  | .refusedBefore => true

/-- While no credential has the rights of an admin no account is enabled without them, and the
password goes only when an admin or nobody is enabled. -/
def ApiOp.careful (s : Server) : ApiOp σ → Bool
  | .users q _ _ =>
    s.pwhash ≠ [] || s.users.table.hasAdmin || q.changes.enabled ≠ some true ||
      ((userNormalizeUsername q.item).bind s.users.table.byName).all
        (fun r => q.changes.role.getD (readUser r).role = .admin)
  | .config _ _ patch => patch.keepsPassword H s.pwhash || s.users.table.hasAdmin || s.users.nobody

def ApiOp.allCareful : Server → List (ApiOp σ) → Bool
  | _, [] => true
  | s, op :: ops => op.careful H s && allCareful (op.perform H s) ops

end

section

variable {k : UserRequest} {t t' : UserTable} {u u' : Users}

theorem UserTable.anyEnabled_iff : t.anyEnabled = false ↔ ∀ r ∈ t.rows, r.enabled = 0 := by
  simp [anyEnabled]

theorem UserTable.enabledAccounts_nil (h : t.anyEnabled = false) : t.enabledAccounts = [] := by
  rw [anyEnabled_iff] at h
  simp only [enabledAccounts,List.map_eq_nil_iff,List.filter_eq_nil_iff,decide_eq_true_eq]
  intro r hr
  rw [h r hr]
  decide

theorem Users.nobody_iff : u.nobody = true ↔ u.table.anyEnabled = false ∧ u.cache = [] := by
  simp [Users.nobody]

def UserRequest.enablesAdmins (t : UserTable) : UserRequest → Prop
  | .create _ _ role _ enabled _ _ _ => role = .admin ∧ enabled = true
  | .update username changes _ _ _ => changes.enabled = some true →
    ∀ r, (userNormalizeUsername username).bind t.byName = some r →
      changes.role.getD (readUser r).role = .admin
  | .delete .. => True

theorem UserRequest.Changes.admin_or_nobody (h : k.Changes t t') (hk : k.enablesAdmins t)
    (hn : t.anyEnabled = false) : t'.hasAdmin = true ∨ t'.anyEnabled = false := by
  have hrows := UserTable.anyEnabled_iff.1 hn
  cases h with
  | create hname hinsert =>
    obtain ⟨rfl,rfl⟩ := hk
    left
    rw [UserTable.hasAdmin_iff,UserTable.insert_rows hinsert]
    exact ⟨_,List.mem_append_right _ (List.mem_singleton_self _),by
      simp [UserRow.enabledAdmin,userRoleStr]⟩
  | @update username changes _ _ _ name hash newname row now _ _ hname hrow hlast hupdate =>
    have hmem := UserTable.mem_of_byName hrow
    by_cases hen : changes.enabled = some true
    · left
      rw [UserTable.hasAdmin_iff,UserTable.update_rows hupdate]
      refine ⟨_,UserTable.mem_change hmem rfl,User.write_enabledAdmin ?_ ?_⟩
      · exact hk hen row (by rw [hname,Option.bind_some,hrow])
      · simp [UserChanges.apply,hen]
    right
    rw [UserTable.anyEnabled_iff,UserTable.update_rows hupdate]
    intro r hr
    obtain ⟨r',hr',rfl⟩ := List.mem_map.1 hr
    split
    case isFalse => exact hrows r' hr'
    case isTrue =>
      have hoff : (changes.apply newname (readUser row)).enabled = false := by
        have hread : (readUser row).enabled = false := by simp [readUser,hrows row hmem]
        cases hc : changes.enabled with
        | none => simp [UserChanges.apply,hc,hread]
        | some b => cases b <;> simp_all [UserChanges.apply]
      simp [User.write,hoff]
  | delete hname hrow hlast =>
    right
    rw [UserTable.anyEnabled_iff]
    exact fun r hr => hrows r (List.mem_filter.1 hr).1

def Users.Governed (u : Users) : Prop := u.table.hasAdmin = true ∨ u.nobody = true

theorem UserRequest.Does.governed {r : UserResult} (h : k.Does u r u') (hu : u.Governed)
    (hk : u.table.hasAdmin = true ∨ k.enablesAdmins u.table) : u'.Governed := by
  have hchange : ∀ t c, k.Changes u.table t → (t.anyEnabled = false → u.cache = [] → c = []) →
      Users.Governed ⟨t,c⟩ := by
    intro t c ht hc
    rcases hu with ha | hn
    · exact .inl (ht.hasAdmin ha)
    obtain ⟨hn,hcache⟩ := Users.nobody_iff.1 hn
    rcases hk with ha | hk
    · exact .inl (ht.hasAdmin ha)
    · rcases ht.admin_or_nobody hk hn with ha | ht
      · exact .inl ha
      · exact .inr (Users.nobody_iff.2 ⟨ht,hc ht hcache⟩)
  cases h with
  | refused _ => exact hu
  | stale ht => exact hchange _ _ ht fun _ => id
  | changed ht => exact hchange _ _ ht fun h _ => UserTable.enabledAccounts_nil h

end

section

def OnlySessions {ρ : Type} (p : ServerRoutine ρ) : Prop :=
  ∀ u h, p.Under (fun s => s.users = u ∧ s.pwhash = h) (fun _ => True)

variable (c : Conn) (q : ApiRequest) {ρ : Type}

theorem OnlySessions.pure (r : ρ) : OnlySessions (pure r) := fun _ _ => trivial

theorem OnlySessions.bind {α ρ : Type} {p : ServerRoutine α} {f : α → ServerRoutine ρ}
    (hp : OnlySessions p) (hf : ∀ a, OnlySessions (f a)) : OnlySessions (p >>= f) := by
  intro u h
  rw [Routine.under_bind]
  exact (hp u h).mono fun a _ => hf a u h

theorem OnlySessions.step {α : Type} {f : Int → Server → α × Server}
    (hf : ∀ now s, (f now s).2.users = s.users ∧ (f now s).2.pwhash = s.pwhash) :
    OnlySessions (.step f) := by
  intro u h now s hs
  exact ⟨⟨(hf now s).1.trans hs.1,(hf now s).2.trans hs.2⟩,trivial⟩

theorem OnlySessions.ite {c : Prop} [Decidable c] {p p' : ServerRoutine ρ} (hp : OnlySessions p)
    (hp' : OnlySessions p') : OnlySessions (if c then p else p') := by
  split
  · exact hp
  · exact hp'

theorem checkClientAuth_onlySessions : OnlySessions (checkClientAuth q) := by
  refine .bind (.bind (.step fun _ _ => ⟨rfl,rfl⟩) fun h => ?_) fun b => ?_
  · exact .ite (.step fun _ _ => ⟨rfl,rfl⟩) (.pure _)
  refine .ite (.pure _) ?_
  split
  · exact .pure _
  refine .ite (.pure _) (.ite (.pure _) (.bind (.step fun now s => ?_) fun x => ?_))
  · split <;> exact ⟨rfl,rfl⟩
  split
  · exact .pure _
  · refine .step fun now s => ?_
    split <;> exact ⟨rfl,rfl⟩

theorem currentAccount_onlySessions : OnlySessions (currentAccount c) :=
  .ite (.pure _) (.step fun _ _ => ⟨rfl,rfl⟩)

theorem isAdmin_onlySessions : OnlySessions (isAdmin c) := by
  refine .bind (currentAccount_onlySessions c) fun me => ?_
  cases me <;> exact .pure _

theorem adminsOnly_onlySessions (a : Action) : OnlySessions (adminsOnly c a) :=
  .bind (isAdmin_onlySessions c) fun _ => .ite (.pure _) (.pure _)

theorem apiUsers_onlySessions : OnlySessions (apiUsers c q) := by
  refine .ite ?_ ?_
  · cases q.method <;> first | exact .pure _ | exact adminsOnly_onlySessions c _
  cases q.method with
  | get =>
    exact .bind (currentAccount_onlySessions c) fun _ =>
      .ite (.pure _) (adminsOnly_onlySessions c _)
  | put =>
    exact .bind (currentAccount_onlySessions c) fun _ =>
      .ite (.pure _) (.ite (.pure _) (.ite (.pure _) (.pure _)))
  | delete =>
    refine .bind (isAdmin_onlySessions c) fun _ => .ite ?_ (.pure _)
    exact .bind (currentAccount_onlySessions c) fun _ => .ite (.pure _) (.pure _)
  | post | patch => exact .pure _

theorem apiHandler_onlySessions : OnlySessions (apiHandler q) := by
  have hfunc : ∀ c, OnlySessions (apiFunc c q) := fun c =>
    .ite (apiUsers_onlySessions c q) (.pure _)
  have hrole : ∀ c, OnlySessions (apiRoleAllows c q.uri q.method) := fun c =>
    .bind (isAdmin_onlySessions c) fun _ => .ite (.pure _) (.pure _)
  refine .ite (hfunc _) (.bind (checkClientAuth_onlySessions q) fun a => ?_)
  cases a with
  | unauthorized => exact .pure _
  | emptypass | session c => exact .bind (hrole _) fun _ => .ite (hfunc _) (.pure _)

theorem apiHandler_run_keeps {q : ApiRequest} {clock : Nat → Int} {s s' : Server} {o : Outcome}
    (h : (apiHandler q).run clock s = (o,s')) : s'.users = s.users ∧ s'.pwhash = s.pwhash := by
  have hk := ((apiHandler_onlySessions q s.users s.pwhash).run ⟨rfl,rfl⟩ clock).2
  rw [h] at hk
  exact hk

end

section

variable {s s' : Server}

theorem Server.Accessible.of_eq (h : s.Accessible) (hu : s'.users = s.users)
    (hp : s'.pwhash = s.pwhash) : s'.Accessible := by
  unfold Accessible adminCredential at *
  rw [hu,hp]
  exact h

theorem Server.Accessible.serve (h : s.Accessible) {k : UserRequest} {answers : Nat → Answer}
    (hk : s.adminCredential ∨ k.enablesAdmins s.users.table)
    (hu : s'.users = (s.users.serve k answers).2) (hp : s'.pwhash = s.pwhash) :
    s'.Accessible := by
  by_cases hh : s.pwhash = []
  · have hg : s.users.Governed := by
      rcases h with (h | h) | h
      · exact absurd hh h
      · exact .inl h
      · exact .inr h
    have hk' : s.users.table.hasAdmin = true ∨ k.enablesAdmins s.users.table := by
      rcases hk with (hk | hk) | hk
      · exact absurd hh hk
      · exact .inl hk
      · exact .inr hk
    have hdone := (s.users.serve_does k answers).governed hg hk'
    rw [← hu] at hdone
    rcases hdone with ha | hn
    · exact .inl (.inr ha)
    · exact .inr hn
  · exact .inl (.inl (hp ▸ hh))

theorem Server.createUser_accessible (h : s.Accessible) (changes : UserChanges) (env : UserEnv) :
    (s.createUser changes env).Accessible := by
  unfold Server.createUser
  split
  case h_2 => exact h
  split
  · exact h
  rename_i _ _ hfirst
  refine h.serve ?_ rfl rfl
  rcases h with h | h
  · exact .inl h
  obtain ⟨-,hc⟩ := Users.nobody_iff.1 h
  by_cases hh : s.pwhash = []
  · -- nobody is enabled and the API is open, so the first account is checked
    right
    simp only [hh,usersEnabledCount,hc,List.length_nil,true_and,not_or,not_not] at hfirst
    refine ⟨by simp [hfirst.1],?_⟩
    cases he : changes.enabled with
    | none => rfl
    | some b => cases b <;> simp_all
  · exact .inl (.inl hh)

theorem Server.updateUser_users (c : Conn) (item : List Char) (changes : UserChanges)
    (self : Bool) (env : UserEnv) :
    (s.updateUser c item changes self env).pwhash = s.pwhash ∧
      ((s.updateUser c item changes self env).users = s.users ∨
        (s.updateUser c item changes self env).users =
          (s.users.serve (.update item changes true env.pwhash env.opened) env.answers).2) := by
  unfold Server.updateUser
  split
  · exact ⟨rfl,.inl rfl⟩
  split
  · rename_i hu
    rw [hu]
    dsimp only
    split
    · split
      · exact ⟨rfl,.inr rfl⟩
      split <;> exact ⟨rfl,.inr rfl⟩
    · exact ⟨rfl,.inr rfl⟩
  · rename_i hu
    rw [hu]
    exact ⟨rfl,.inr rfl⟩

theorem Server.deleteUser_users (item : List Char) (env : UserEnv) :
    (s.deleteUser item env).pwhash = s.pwhash ∧
      (s.deleteUser item env).users =
        (s.users.serve (.delete item env.opened) env.answers).2 := by
  unfold Server.deleteUser
  split
  · rename_i hu
    rw [hu]
    split <;> exact ⟨rfl,rfl⟩
  · rename_i hu
    rw [hu]
    exact ⟨rfl,rfl⟩

variable {σ η : Type} [DecidableEq η] {H : Hashing σ η}

theorem ApiOp.careful_update {q : ApiRequest} {clock : Nat → Int} {env : UserEnv}
    (hc : (ApiOp.users q clock env).careful H s = true) :
    s.adminCredential ∨ (UserRequest.update q.item q.changes true env.pwhash
      env.opened).enablesAdmins s.users.table := by
  simp only [careful,Bool.or_eq_true,decide_eq_true_eq] at hc
  rcases hc with ((hc | hc) | hc) | hc
  · exact .inl (.inl hc)
  · exact .inl (.inr hc)
  · exact .inr fun he => absurd he hc
  · refine .inr fun _ r hr => ?_
    rw [hr] at hc
    simpa using hc

theorem Server.usersRequest_accessible (h : s.Accessible) (q : ApiRequest) (clock : Nat → Int)
    (env : UserEnv) (hc : (ApiOp.users q clock env).careful H s = true) :
    (s.usersRequest q clock env).Accessible := by
  unfold Server.usersRequest
  cases hrun : (apiHandler (q.routed "/api/users".toList q.method)).run clock s with
  | mk o s₁ =>
  obtain ⟨hu,hp⟩ := apiHandler_run_keeps hrun
  have h₁ : s₁.Accessible := h.of_eq hu hp
  have hc₁ : (ApiOp.users q clock env).careful H s₁ = true := by
    simp only [ApiOp.careful,hu,hp] at hc ⊢
    exact hc
  cases o with
  | runs c a =>
    cases a with
    | createUser => exact Server.createUser_accessible h₁ _ _
    | updateUser self admin me =>
      obtain ⟨hp',hu' | hu'⟩ := s₁.updateUser_users c q.item q.changes self env
      · exact h₁.of_eq hu' hp'
      · exact h₁.serve (ApiOp.careful_update hc₁) hu' hp'
    | deleteUser =>
      obtain ⟨hp',hu'⟩ := s₁.deleteUser_users q.item env
      refine h₁.serve ?_ hu' hp'
      exact .inr trivial
    | endpoint | listUsers | getUser => exact h₁
  | unauthorized | forbidden | conflict | notFound => exact h₁

section

variable {patch : ConfigPatch σ} {live h : List Char} (hk : patch.keepsPassword H live = true)
  (hl : live ≠ [])
include hk hl

theorem ConfigPatch.candidate_ne (hr : patch.result = .accepted)
    (hc : patch.candidate H live = some h) : h ≠ [] := by
  simp only [keepsPassword,hr,Bool.and_eq_true,Bool.or_eq_true,decide_eq_true_eq] at hk
  obtain ⟨⟨hhash,hempty⟩,hsalt⟩ := hk
  have hgetD : patch.pwhash.getD live ≠ [] := by
    cases hp : patch.pwhash with
    | none => exact hl
    | some x => exact fun hx => hhash (by simpa [hp] using hx)
  unfold candidate at hc
  split at hc
  · exact Option.some.inj hc ▸ hgetD
  rename_i p hp
  have hpne : p ≠ [] := by
    rintro rfl
    exact hempty (Option.filter_eq_some_iff.1 hp).1
  unfold Passwords.setAndCheckPassword at hc
  split at hc
  · exact Option.some.inj hc ▸ hgetD
  rename_i hnew
  have hsome : patch.salt.isSome = true := by
    refine hsalt.resolve_right fun hv => hnew (.inr ⟨hl,hpne,?_⟩)
    simpa [hp,Hashing.passwords] using hv
  split at hc
  · exact Option.some.inj hc ▸ H.createPassword_ne hsome p
  · cases hc

theorem ConfigPatch.upgraded_ne (hr : patch.result = .refusedBehind) :
    patch.upgraded H live ≠ [] := by
  unfold upgraded
  split
  · exact hl
  rename_i p hp
  split
  case isFalse => exact hl
  case isTrue hup =>
    refine H.createPassword_ne ?_ p
    simpa [keepsPassword,hr,hp,hup.2.2.1,hup.2.2.2] using hk

end

theorem Server.configPatch_accessible (h : s.Accessible) {q : ApiRequest} {clock : Nat → Int}
    {patch : ConfigPatch σ} (hc : (ApiOp.config q clock patch).careful H s = true) :
    (s.configPatch H patch).Accessible := by
  -- every branch ends with the old accounts
  have hnew : ∀ s' : Server, s'.users = s.users →
      (patch.keepsPassword H s.pwhash = true → s.pwhash ≠ [] → s'.pwhash ≠ []) →
      s'.Accessible := by
    intro s' hu hp
    unfold Accessible adminCredential
    rw [hu]
    by_cases hgov : s.users.table.hasAdmin = true ∨ s.users.nobody = true
    · rcases hgov with ha | hn
      · exact .inl (.inr ha)
      · exact .inr hn
    simp only [ApiOp.careful,Bool.or_eq_true] at hc
    rcases hc with (hc | hc) | hc
    · have hlive : s.pwhash ≠ [] := by
        rcases h with (h | h) | h
        · exact h
        · exact absurd (.inl h) hgov
        · exact absurd (.inr h) hgov
      exact .inl (.inl (hp hc hlive))
    · exact absurd (.inl hc) hgov
    · exact absurd (.inr hc) hgov
  unfold Server.configPatch
  split
  · exact h
  rename_i hbefore
  split
  · exact h
  rename_i hash hcand
  split
  · rename_i hbehind
    exact hnew _ rfl fun hk hl => ConfigPatch.upgraded_ne hk hl hbehind
  rename_i hbehind
  have hres : patch.result = .accepted := by
    cases hr : patch.result with
    | accepted => rfl
    | refusedBefore => exact absurd hr hbefore
    | refusedBehind => exact absurd hr hbehind
  split <;> exact hnew _ rfl fun hk hl => ConfigPatch.candidate_ne hk hl hres hcand

theorem ApiOp.perform_accessible (h : s.Accessible) (op : ApiOp σ) (hc : op.careful H s = true) :
    (op.perform H s).Accessible := by
  cases op with
  | users q clock env => exact Server.usersRequest_accessible h q clock env hc
  | config q clock patch =>
    change (s.configRequest H q clock patch).Accessible
    unfold Server.configRequest
    cases hrun : (apiHandler (q.routed "/api/config".toList .patch)).run clock s with
    | mk o s₁ =>
    obtain ⟨hu,hp⟩ := apiHandler_run_keeps hrun
    have h₁ : s₁.Accessible := h.of_eq hu hp
    have hc₁ : (ApiOp.config q clock patch).careful H s₁ = true := by
      simp only [ApiOp.careful,hu,hp] at hc ⊢
      exact hc
    split
    · rename_i heq
      obtain ⟨-,rfl⟩ := Prod.mk.inj heq
      exact Server.configPatch_accessible h₁ hc₁
    · rename_i heq
      obtain ⟨-,rfl⟩ := Prod.mk.inj heq
      exact h₁

theorem Server.performAll_accessible (h : s.Accessible) (ops : List (ApiOp σ))
    (hc : ApiOp.allCareful H s ops = true) : (s.performAll H ops).Accessible := by
  induction ops generalizing s with
  | nil => exact h
  | cons op ops ih =>
    simp only [ApiOp.allCareful,Bool.and_eq_true] at hc
    exact ih (ApiOp.perform_accessible h op hc.1) hc.2

end

def Server.fresh (pwhash : List Char) (timeout : Int) (sessions : List Session) : Server :=
  ⟨pwhash,timeout,Users.empty,sessions,false⟩

/-- Careful requests lock nobody out: whenever the API asks for a login, some credential has the
rights of an admin. -/
theorem Server.nobody_locked_out {σ η : Type} [DecidableEq η] (H : Hashing σ η)
    (pwhash : List Char) (timeout : Int) (sessions : List Session) (ops : List (ApiOp σ))
    (hc : ApiOp.allCareful H (Server.fresh pwhash timeout sessions) ops = true)
    (hl : ((Server.fresh pwhash timeout sessions).performAll H ops).requiresLogin) :
    ((Server.fresh pwhash timeout sessions).performAll H ops).adminCredential := by
  have hfresh : (Server.fresh pwhash timeout sessions).Accessible := .inr rfl
  exact (Server.performAll_accessible hfresh ops hc).credential hl

/-! A server with a password; somebody who logged in with it creates an account and then
changes the password. -/

def Server.withPassword : Server :=
  Server.fresh (sampleHashing.createPassword (some ()) "old".toList) 1800
    [⟨true,['s'],[],100,SESSION_NO_ACCOUNT⟩]

def ApiRequest.bySession (method : HttpMethod) (changes : UserChanges) : ApiRequest :=
  ⟨[],true,method,[],some ['s'],false,none,changes⟩

def ApiOp.create (role : UserRole) : ApiOp Unit :=
  .users (.bySession .post ⟨some ['u'],some (List.replicate 8 'p'),some role,none,none⟩)
    (fun _ => 0) ⟨some ['x'],true,fun _ => ⟨true,0⟩,false⟩

def ApiOp.setPassword (password : String) (salt : Option Unit) : ApiOp Unit :=
  .config (.bySession .patch ⟨none,none,none,none,none⟩) (fun _ => 0)
    ⟨none,some password.toList,salt,.accepted⟩

theorem Server.nobody_locked_out_admin :
    (Server.withPassword.performAll sampleHashing [.create .admin,.setPassword "" none]).pwhash = [] ∧
      (Server.withPassword.performAll sampleHashing
        [.create .admin,.setPassword "" none]).adminCredential :=
  ⟨by decide,Server.nobody_locked_out sampleHashing _ _ _ [.create .admin,.setPassword "" none]
    (by decide) (by decide)⟩

/-- With a viewer only, emptying the password locks everybody out, and so does a new one while
there is no randomness. -/
theorem Server.viewer_locks_out :
    let run op := Server.withPassword.performAll sampleHashing [.create .viewer,op]
    ((run (.setPassword "" none)).requiresLogin ∧ ¬(run (.setPassword "" none)).adminCredential) ∧
      (run (.setPassword "new" none)).requiresLogin ∧
        ¬(run (.setPassword "new" none)).adminCredential := by
  decide

end Lorentz
