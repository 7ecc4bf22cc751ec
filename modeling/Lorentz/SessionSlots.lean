import Lorentz.Access

/-!
Requests that share the session slots. A request to `/api/auth` keeps the number of its slot after
`auth_lock` is released, and answers or logs out with what the slot holds by then.
-/

set_option autoImplicit false

namespace Lorentz

def Session.tokens (x : Session) : List (List Char) := [x.sid,x.csrf]

/-- How the password of a login was found, with the account for a right one. -/
inductive LoginResult where
  | correct (accountId : Int)
  | incorrect
  | error
  deriving DecidableEq, Repr

inductive AuthPhase where
  | arrived
  | login
  | claim (accountId : Int)
  | cookie
  | object
  | logout
  | done
  deriving DecidableEq, Repr

def AuthPhase.early : AuthPhase → Bool
  | .login => true
  | .claim _ => true
  | _ => false

/-- A request, where it is and its response so far. The last three fields are kept for the proofs:
the sessions that authenticated the request, that it created, and that its logout ended. -/
structure AuthCall where
  request : ApiRequest
  password : Option (List Char)
  phase : AuthPhase
  userId : Option Nat
  cookie : Option (List Char)
  object : List (List Char)
  authenticatedBy : Option Session
  created : Option Session
  ended : Option Session
  deriving DecidableEq, Repr

namespace AuthCall

def arrive (q : ApiRequest) (password : Option (List Char)) : AuthCall :=
  ⟨q,password,.arrived,none,none,[],none,none,none⟩

variable (c : AuthCall)

def isAuth : Bool := c.request.uri = "/api/auth".toList

def credentials : ApiRequest := if c.isAuth then { c.request with cookie := false } else c.request

/-- `send_api_auth_status` up to its first use of the slot. -/
def status : AuthCall :=
  match c.userId, c.request.method with
  | some _, .get => { c with phase := .cookie }
  | some _, .post => { c with phase := .cookie }
  | some _, .delete => { c with phase := .logout, cookie := none }
  | _, _ => { c with phase := .done, cookie := none }

/-- The rest of `api_auth` after `check_client_auth`, up to the login. -/
def dispatch (authorized emptyPassword : Bool) : AuthCall :=
  if !c.isAuth then { c with phase := .done }
  else if authorized && c.password.all (· = []) then c.status
  else if c.request.method = .delete then c.status
  else if c.password.isNone && !emptyPassword then c.status
  else { c with phase := .login }

def authenticated (emptyPassword : Bool) : Auth → AuthCall
  | .emptypass => c.dispatch true emptyPassword
  | .unauthorized => c.dispatch false emptyPassword
  | .session conn =>
    { c with
      userId := conn.userId
      cookie := some conn.session.sid
      authenticatedBy := some conn.session }.dispatch true emptyPassword

def verified : LoginResult → AuthCall
  | .correct accountId => { c with phase := .claim accountId }
  | .incorrect => c.status
  | .error => { c with phase := .done }

def keeps (slot : Nat) : Bool := c.phase ≠ .done && c.userId = some slot

def sent : List (List Char) := c.cookie.toList ++ c.object

/-- The response has no token of a session foreign to the request, and a logout ended the session
it was made with. -/
def Unconfused : Prop :=
  (∀ token ∈ c.sent, token = [] ∨
    ∃ x ∈ c.authenticatedBy.toList ++ c.created.toList, token ∈ x.tokens) ∧
  ∀ x ∈ c.ended, ∃ y ∈ c.authenticatedBy, x.tokens = y.tokens

instance : Decidable c.Unconfused := inferInstanceAs (Decidable (_ ∧ _))

end AuthCall

def Server.freeSlot (s : Server) (now : Int) : Option Nat :=
  s.sessions.findIdx? (fun x => !x.used || x.validUntil < now)

/-- `check_client_auth`, which holds `auth_lock` from the lookup on. -/
def Server.authenticate (s : Server) (q : ApiRequest) (now : Int) (disabled : Bool) :
    Auth × Server :=
  if disabled then (.emptypass,s)
  else
    match q.sid with
    | none => (.unauthorized,s)
    | some sid =>
      if sid = [] then (.unauthorized,s)
      else
        match q.findSession sid now s.sessions with
        | none => (.unauthorized,s)
        | some (i,x) => (lookupAccount i x now).run (fun _ => now) s

/-- A step of a request. `disabled` and `emptyPassword` are what its two looks for a password
find, `tokens` what the random number generator gives. -/
inductive CallStep where
  | authenticate (now : Int) (disabled emptyPassword : Bool)
  | verified (result : LoginResult)
  | claim (now : Int) (tokens : Option (List Char × List Char))
  | setCookie
  | sessionObject
  | logout
  deriving DecidableEq, Repr

namespace AuthCall

variable (c : AuthCall) (s : Server)

/-- The part of `api_auth` that looks for a slot with `auth_lock` held. -/
def claimSlot (now : Int) (accountId : Int) (tokens : Option (List Char × List Char)) :
    AuthCall × Server :=
  match s.freeSlot now, tokens with
  | none, _ => (c.status,s)
  | some i, none => ({ c with phase := .done },s.deleteSession i)
  | some i, some (sid,csrf) =>
    let x : Session := ⟨true,sid,csrf,now+s.timeout,accountId⟩
    ({ c with userId := some i, created := some x }.status,s.login now sid csrf accountId)

/-- The cookie that `send_api_auth_status` sets from the slot. -/
def setCookie (x : Session) : AuthCall := { c with phase := .object, cookie := some x.sid }

/-- The tokens that `get_session_object` takes from the slot. -/
def sessionObject (x : Session) : AuthCall :=
  { c with phase := .done, object := if x.used then x.tokens else [] }

def logout (x : Session) : AuthCall :=
  { c with phase := .done, ended := if x.used then some x else none }

def step (k : CallStep) : AuthCall × Server :=
  match k, c.phase, c.userId with
  | .authenticate now disabled emptyPassword, .arrived, _ =>
    let r := s.authenticate c.credentials now disabled
    (c.authenticated emptyPassword r.1,r.2)
  | .verified result, .login, _ => (c.verified result,s)
  | .claim now tokens, .claim accountId, _ => c.claimSlot s now accountId tokens
  | .setCookie, .cookie, some i => (c.setCookie (s.sessions.getD i .zero),s)
  | .sessionObject, .object, some i => (c.sessionObject (s.sessions.getD i .zero),s)
  | .logout, .logout, some i => (c.logout (s.sessions.getD i .zero),s.deleteSession i)
  | _, _, _ => (c,s)

end AuthCall

structure Slots where
  server : Server
  calls : List AuthCall

inductive SlotEvent where
  | arrive (q : ApiRequest) (password : Option (List Char))
  | call (i : Nat) (k : CallStep)
  | other (k : ServerStep)

namespace Slots

def start (server : Server) : Slots := ⟨server,[]⟩

variable (s : Slots)

def step : SlotEvent → Slots
  | .arrive q password => { s with calls := s.calls ++ [.arrive q password] }
  | .call i k =>
    match s.calls[i]? with
    | none => s
    | some c => ⟨(c.step s.server k).2,s.calls.set i (c.step s.server k).1⟩
  | .other k => { s with server := k.apply s.server }

/-- The condition on a step: a login gets no slot that another request has the number of. -/
def seated : SlotEvent → Bool
  | .call i (.claim now _) =>
    (s.server.freeSlot now).all (fun j => (s.calls.eraseIdx i).all (fun c => !c.keeps j))
  | .other (.login now _ _ _) =>
    (s.server.freeSlot now).all (fun j => s.calls.all (fun c => !c.keeps j))
  | _ => true

end Slots

theorem getElem?_set_cases {α : Type} {t : List α} {i j : Nat} {a x : α}
    (h : (t.set i a)[j]? = some x) : (i = j ∧ x = a) ∨ (i ≠ j ∧ t[j]? = some x) := by
  rw [List.getElem?_set] at h
  split at h
  · split at h <;> cases h
    exact .inl ⟨‹_›,rfl⟩
  · exact .inr ⟨‹_›,h⟩

def Session.Vacant (x : Session) : Prop := x.used = false ∧ x.sid = []

def Quiet (t t' : List Session) : Prop :=
  ∀ (i : Nat) (x' : Session), t'[i]? = some x' →
    x'.Vacant ∨ ∃ x, t[i]? = some x ∧ x'.used = x.used ∧ x'.tokens = x.tokens ∧
      x'.accountId = x.accountId

namespace Quiet

variable {t : List Session}

theorem refl : Quiet t t := fun _ x hx => .inr ⟨x,hx,rfl,rfl,rfl⟩

theorem set_zero (i : Nat) : Quiet t (t.set i .zero) := by
  intro j x hx
  rcases getElem?_set_cases hx with ⟨-,rfl⟩ | ⟨-,hx⟩
  · exact .inl ⟨rfl,rfl⟩
  · exact .inr ⟨x,hx,rfl,rfl,rfl⟩

theorem set_extended {i : Nat} {x : Session} (hx : t[i]? = some x) (validUntil : Int) :
    Quiet t (t.set i { x with validUntil := validUntil }) := by
  intro j z hz
  rcases getElem?_set_cases hz with ⟨rfl,rfl⟩ | ⟨-,hz⟩
  · exact .inr ⟨x,hx,rfl,rfl,rfl⟩
  · exact .inr ⟨z,hz,rfl,rfl,rfl⟩

theorem mapIdx {f : Nat → Session → Session} (hf : ∀ i x, f i x = .zero ∨ f i x = x) :
    Quiet t (t.mapIdx f) := by
  intro i x' hx'
  rw [List.getElem?_mapIdx,Option.map_eq_some_iff] at hx'
  obtain ⟨x,hx,rfl⟩ := hx'
  rcases hf i x with h | h <;> rw [h]
  · exact .inl ⟨rfl,rfl⟩
  · exact .inr ⟨x,hx,rfl,rfl,rfl⟩

theorem map_zero : Quiet t (t.map fun _ => .zero) := by
  intro i x' hx'
  rw [List.getElem?_map,Option.map_eq_some_iff] at hx'
  obtain ⟨x,-,rfl⟩ := hx'
  exact .inl ⟨rfl,rfl⟩

end Quiet

theorem ApiRequest.findSession_get {q : ApiRequest} {sid : List Char} {now : Int}
    {t : List Session} {i : Nat} {x : Session} (h : q.findSession sid now t = some (i,x)) :
    t[i]? = some x ∧ x.used = true := by
  unfold ApiRequest.findSession at h
  cases hi : t.findIdx? (fun x => x.used && x.sid = sid) with
  | none => simp [hi] at h
  | some j =>
    simp only [hi] at h
    split at h
    · cases h
    split at h
    · cases h
    obtain ⟨rfl,rfl⟩ := h
    obtain ⟨hlt,hp,-⟩ := List.findIdx?_eq_some_iff_getElem.1 hi
    simp only [Bool.and_eq_true] at hp
    simp [List.getD,hlt,hp.1]

theorem Server.authenticate_spec (s : Server) (q : ApiRequest) (now : Int) (disabled : Bool) :
    Quiet s.sessions (s.authenticate q now disabled).2.sessions ∧
    ∀ conn, (s.authenticate q now disabled).1 = .session conn → ∃ i x, conn.userId = some i ∧
      s.sessions[i]? = some x ∧ x.used = true ∧ conn.session.accountId = x.accountId ∧
      (s.authenticate q now disabled).2.sessions[i]? = some conn.session := by
  unfold Server.authenticate
  split
  · exact ⟨.refl,nofun⟩
  split
  · exact ⟨.refl,nofun⟩
  split
  · exact ⟨.refl,nofun⟩
  split
  · exact ⟨.refl,nofun⟩
  rename_i i x hf
  obtain ⟨hx,hu⟩ := ApiRequest.findSession_get hf
  simp only [lookupAccount,Routine.step,Routine.run]
  split
  · exact ⟨.refl,nofun⟩
  · refine ⟨.set_extended hx _,?_⟩
    rintro conn ⟨⟩
    exact ⟨i,x,rfl,hx,hu,rfl,List.getElem?_set_self (List.getElem?_eq_some_iff.1 hx).1⟩

theorem Server.login_sessions {s : Server} {now : Int} {i : Nat} (h : s.freeSlot now = some i)
    (sid csrf : List Char) (accountId : Int) :
    (s.login now sid csrf accountId).sessions =
      s.sessions.set i ⟨true,sid,csrf,now+s.timeout,accountId⟩ := by
  rw [freeSlot] at h
  simp only [Server.login,h]

theorem Server.login_none {s : Server} {now : Int} (h : s.freeSlot now = none)
    (sid csrf : List Char) (accountId : Int) : s.login now sid csrf accountId = s := by
  rw [freeSlot] at h
  simp only [Server.login,h]

attribute [local simp] AuthPhase.early

namespace AuthCall

variable {c : AuthCall} {t t' : List Session} {s : Server}

def mine (c : AuthCall) : Option Session := c.created.or c.authenticatedBy

def Finds (c : AuthCall) (x : Session) : Prop :=
  x.Vacant ∨ ∃ y, c.mine = some y ∧ x.tokens = y.tokens

def Keeps (c : AuthCall) (t : List Session) : Prop :=
  ∀ (i : Nat) (x : Session), c.userId = some i → t[i]? = some x → c.Finds x

structure Holds (c : AuthCall) (t : List Session) : Prop where
  unconfused : c.Unconfused
  slot : c.phase ≠ .done → c.Keeps t
  arrived : c.phase = .arrived → c = arrive c.request c.password
  early : c.phase.early = true → c.created = none ∧ c.request.method ≠ .delete
  delete : c.request.method = .delete → c.created = none
  logout : c.phase = .logout → c.request.method = .delete

theorem Keeps.quiet (h : c.Keeps t) (hq : Quiet t t') : c.Keeps t' := by
  intro i x' hi hx'
  rcases hq i x' hx' with hv | ⟨x,hx,hu,ht,-⟩
  · exact .inl hv
  rcases h i x hi hx with ⟨hused,hsid⟩ | ⟨y,hy,hxy⟩
  · have hsid' : x'.sid = x.sid := by simpa [Session.tokens] using congrArg List.head? ht
    exact .inl ⟨hu.trans hused,hsid'.trans hsid⟩
  · exact .inr ⟨y,hy,ht.trans hxy⟩

variable {i : Nat} {x : Session}

theorem Keeps.set_ne (h : c.Keeps t) (hi : c.userId ≠ some i) (x : Session) :
    c.Keeps (t.set i x) := by
  intro j y hj hy
  rcases getElem?_set_cases hy with ⟨rfl,-⟩ | ⟨-,hy⟩
  · exact absurd hj hi
  · exact h j y hj hy

theorem Keeps.of_get (hi : c.userId = some i) (hx : t[i]? = some x) (hm : c.mine = some x) :
    c.Keeps t := by
  intro j y hj hy
  obtain rfl : i = j := by simpa using hi.symm.trans hj
  obtain rfl : x = y := by simpa using hx.symm.trans hy
  exact .inr ⟨x,hm,rfl⟩

theorem Keeps.getD (h : c.Keeps t) (hi : c.userId = some i) : c.Finds (t.getD i .zero) := by
  cases hx : t[i]? with
  | none => simp [List.getD,hx,Finds,Session.Vacant,Session.zero]
  | some x =>
    simp only [List.getD,hx,Option.getD_some]
    exact h i x hi hx

theorem Holds.table (h : c.Holds t) (ht : c.phase ≠ .done → c.Keeps t → c.Keeps t') :
    c.Holds t' :=
  ⟨h.unconfused,fun hp => ht hp (h.slot hp),h.arrived,h.early,h.delete,h.logout⟩

theorem done_holds (hp : c.phase = .done) (hu : c.Unconfused)
    (hd : c.request.method = .delete → c.created = none) : c.Holds t := by
  refine ⟨hu,?_,?_,?_,hd,?_⟩ <;> simp [hp]

theorem mem_of_mine (h : c.mine = some x) : x ∈ c.authenticatedBy.toList ++ c.created.toList := by
  rcases Option.or_eq_some_iff.1 h with h | ⟨-,h⟩ <;> simp [h]

theorem arrive_holds (q : ApiRequest) (password : Option (List Char)) :
    (arrive q password).Holds t := by
  constructor <;> simp [arrive,Unconfused,sent,Keeps]

theorem status_holds (hu : c.Unconfused) (hk : c.Keeps t)
    (hd : c.request.method = .delete → c.created = none) : c.status.Holds t := by
  have hnone : ∀ phase, { c with phase := phase, cookie := none }.Unconfused := by
    intro phase
    exact ⟨fun token h => hu.1 token (by simp_all [sent]),hu.2⟩
  unfold status
  split
  · exact ⟨hu,fun _ => hk,by simp,by simp,hd,by simp⟩
  · exact ⟨hu,fun _ => hk,by simp,by simp,hd,by simp⟩
  · exact ⟨hnone _,fun _ => hk,by simp,by simp,hd,fun _ => ‹_›⟩
  · exact done_holds rfl (hnone _) hd

theorem dispatch_holds (hu : c.Unconfused) (hk : c.Keeps t) (hc : c.created = none)
    (authorized emptyPassword : Bool) : (c.dispatch authorized emptyPassword).Holds t := by
  have hs := status_holds hu hk fun _ => hc
  unfold dispatch
  split
  · exact done_holds rfl hu fun _ => hc
  split
  · exact hs
  split
  · exact hs
  split
  · exact hs
  · exact ⟨hu,fun _ => hk,by simp,fun _ => ⟨hc,‹_›⟩,fun _ => hc,by simp⟩

theorem authenticated_holds (q : ApiRequest) (password : Option (List Char)) (empty : Bool)
    {a : Auth} (ha : ∀ conn, a = .session conn →
      ∃ i, conn.userId = some i ∧ t[i]? = some conn.session) :
    ((arrive q password).authenticated empty a).Holds t := by
  have h : (arrive q password).Holds t := arrive_holds q password
  have hk := h.slot (by simp [arrive])
  cases a with
  | emptypass | unauthorized => exact dispatch_holds h.unconfused hk rfl _ _
  | session conn =>
    obtain ⟨i,hi,hx⟩ := ha conn rfl
    refine dispatch_holds ?_ (.of_get hi hx rfl) rfl _ _
    simp [Unconfused,sent,arrive,Session.tokens]

theorem claimSlot_holds (hu : c.Unconfused) (hk : c.Keeps s.sessions) (hc : c.created = none)
    (hm : c.request.method ≠ .delete) (now accountId : Int)
    (tokens : Option (List Char × List Char)) :
    (c.claimSlot s now accountId tokens).1.Holds (c.claimSlot s now accountId tokens).2.sessions := by
  unfold claimSlot
  split
  · exact status_holds hu hk fun _ => hc
  · exact done_holds rfl hu fun _ => hc
  rename_i i sid csrf hi
  have hlt : i < s.sessions.length := (List.findIdx?_eq_some_iff_getElem.1 hi).1
  refine status_holds ?_ (.of_get rfl ?_ rfl) fun h => absurd h hm
  · refine ⟨fun token ht => ?_,hu.2⟩
    rcases hu.1 token ht with h | ⟨x,hx,htx⟩
    · exact .inl h
    · exact .inr ⟨x,by simp_all,htx⟩
  · rw [Server.login_sessions hi]
    exact List.getElem?_set_self hlt

theorem setCookie_holds (h : c.Holds t) (hk : c.Keeps t) (hx : c.Finds x) :
    (c.setCookie x).Holds t := by
  refine ⟨⟨?_,h.unconfused.2⟩,fun _ => hk,nofun,nofun,h.delete,nofun⟩
  simp only [sent,setCookie,Option.toList_some,List.singleton_append,List.forall_mem_cons]
  refine ⟨?_,fun token ht => h.unconfused.1 token (List.mem_append_right _ ht)⟩
  rcases hx with hv | ⟨y,hy,hxy⟩
  · exact .inl hv.2
  · exact .inr ⟨y,mem_of_mine hy,hxy ▸ List.mem_cons_self⟩

theorem Finds.of_used (h : c.Finds x) (hu : x.used = true) :
    ∃ y, c.mine = some y ∧ x.tokens = y.tokens := by
  rcases h with hv | h
  · rw [hv.1] at hu
    cases hu
  · exact h

theorem sessionObject_holds (h : c.Holds t) (hx : c.Finds x) : (c.sessionObject x).Holds t := by
  refine done_holds rfl ⟨fun token ht => ?_,h.unconfused.2⟩ h.delete
  rcases List.mem_append.1 ht with ht | ht
  · exact h.unconfused.1 token (List.mem_append_left _ ht)
  simp only [sessionObject] at ht
  split at ht
  · obtain ⟨y,hy,hxy⟩ := hx.of_used ‹_›
    exact .inr ⟨y,mem_of_mine hy,hxy ▸ ht⟩
  · cases ht

theorem logout_holds (h : c.Holds t) (hp : c.phase = .logout) (hx : c.Finds x) :
    (c.logout x).Holds t' := by
  refine done_holds rfl ⟨h.unconfused.1,fun z hz => ?_⟩ h.delete
  simp only [logout] at hz
  split at hz
  · cases hz
    obtain ⟨y,hy,hxy⟩ := hx.of_used ‹_›
    rw [mine,h.delete (h.logout hp),Option.none_or] at hy
    exact ⟨y,hy,hxy⟩
  · cases hz

theorem step_holds (h : c.Holds s.sessions) (k : CallStep) :
    (c.step s k).1.Holds (c.step s k).2.sessions := by
  unfold step
  split
  · rename_i now disabled empty hp
    rw [h.arrived hp]
    refine authenticated_holds _ _ _ fun conn ha => ?_
    obtain ⟨i,-,hi,-,-,-,hx⟩ := (Server.authenticate_spec s _ now disabled).2 conn ha
    exact ⟨i,hi,hx⟩
  · rename_i result hp
    have hk := h.slot (by simp [hp])
    obtain ⟨hc,hm⟩ := h.early (by simp [hp])
    cases result with
    | correct accountId =>
      exact ⟨h.unconfused,fun _ => hk,nofun,fun _ => ⟨hc,hm⟩,fun _ => hc,nofun⟩
    | incorrect => exact status_holds h.unconfused hk fun _ => hc
    | error => exact done_holds rfl h.unconfused fun _ => hc
  · rename_i now tokens accountId hp
    obtain ⟨hc,hm⟩ := h.early (by simp [hp])
    exact claimSlot_holds h.unconfused (h.slot (by simp [hp])) hc hm now accountId tokens
  · rename_i hp hi
    have hk := h.slot (by simp [hp])
    exact setCookie_holds h hk (hk.getD hi)
  · rename_i hp hi
    exact sessionObject_holds h ((h.slot (by simp [hp])).getD hi)
  · rename_i hp hi
    exact logout_holds h hp ((h.slot (by simp [hp])).getD hi)
  · exact h

theorem step_table (c : AuthCall) (s : Server) (k : CallStep) :
    Quiet s.sessions (c.step s k).2.sessions ∨
    ∃ now tokens i x, k = .claim now tokens ∧ s.freeSlot now = some i ∧
      (c.step s k).2.sessions = s.sessions.set i x := by
  unfold step
  split
  · exact .inl (Server.authenticate_spec s _ _ _).1
  · exact .inl .refl
  · rename_i now tokens accountId hp
    unfold claimSlot
    split
    · exact .inl .refl
    · exact .inl (.set_zero _)
    · rename_i i sid csrf hi
      exact .inr ⟨now,_,i,_,rfl,hi,Server.login_sessions hi sid csrf accountId⟩
  · exact .inl .refl
  · exact .inl .refl
  · exact .inl (.set_zero _)
  · exact .inl .refl

end AuthCall

theorem ServerStep.apply_table (k : ServerStep) (s : Server) :
    Quiet s.sessions (k.apply s).sessions ∨
    ∃ now sid csrf accountId i, k = .login now sid csrf accountId ∧ s.freeSlot now = some i ∧
      (k.apply s).sessions = s.sessions.set i ⟨true,sid,csrf,now+s.timeout,accountId⟩ := by
  have hlock : ∀ f : Server → Server, Quiet s.sessions (f s).sessions →
      Quiet s.sessions (s.whenUnlocked f).sessions := by
    intro f hf
    unfold Server.whenUnlocked
    split
    · exact .refl
    · exact hf
  cases k with
  | account k answers | setPwhash pwhash => exact .inl .refl
  | deleteSession userId => exact .inl (hlock _ (.set_zero userId))
  | deleteUserSessions accountId exceptSlot =>
    refine .inl (hlock _ (.mapIdx fun i x => ?_))
    split
    · exact .inl rfl
    · exact .inr rfl
  | deleteAllSessions => exact .inl (hlock _ .map_zero)
  | login now sid csrf accountId =>
    simp only [ServerStep.apply,Server.whenUnlocked]
    split
    · exact .inl .refl
    cases hi : s.freeSlot now with
    | none =>
      rw [Server.login_none hi]
      exact .inl .refl
    | some i =>
      exact .inr ⟨now,sid,csrf,accountId,i,rfl,hi,Server.login_sessions hi sid csrf accountId⟩

namespace Slots

variable {s : Slots}

def Inv (s : Slots) : Prop := ∀ c ∈ s.calls, c.Holds s.server.sessions

theorem Inv.step (h : s.Inv) (e : SlotEvent) (hs : s.seated e = true) : (s.step e).Inv := by
  cases e with
  | arrive q password =>
    intro c hc
    rcases List.mem_append.1 hc with hc | hc
    · exact h c hc
    · rw [List.mem_singleton.1 hc]
      exact AuthCall.arrive_holds q password
  | call i k =>
    simp only [Slots.step]
    split
    · exact h
    rename_i c hi
    intro c' hc'
    obtain ⟨j,hj⟩ := List.getElem?_of_mem hc'
    rcases getElem?_set_cases hj with ⟨-,rfl⟩ | ⟨hij,hjc⟩
    · exact AuthCall.step_holds (h c (List.mem_of_getElem? hi)) k
    refine (h c' (List.mem_of_getElem? hjc)).table fun hp hk => ?_
    rcases c.step_table s.server k with hq | ⟨now,tokens,n,x,rfl,hn,hset⟩
    · exact hk.quiet hq
    simp only [seated,hn,Option.all_some,List.all_eq_true] at hs
    have hne := hs c' (List.mem_eraseIdx_iff_getElem?.2 ⟨j,Ne.symm hij,hjc⟩)
    rw [hset]
    exact hk.set_ne (by simpa [AuthCall.keeps,hp] using hne) x
  | other k =>
    intro c hc
    refine (h c hc).table fun hp hk => ?_
    rcases k.apply_table s.server with hq | ⟨now,sid,csrf,accountId,n,rfl,hn,hset⟩
    · exact hk.quiet hq
    · simp only [seated,hn,Option.all_some,List.all_eq_true] at hs
      simp only [Slots.step,hset]
      exact hk.set_ne (by simpa [AuthCall.keeps,hp] using hs c hc) _

/-- No request is confused in a run in which no login gets a slot that another request has the
number of. -/
theorem sessions_never_confused (server : Server) (es : List SlotEvent)
    (hs : Machine.Meets Slots.step seated (start server) es = true) :
    ∀ c ∈ (Machine.run Slots.step (start server) es).calls, c.Unconfused := by
  have hinv : (Machine.run Slots.step (start server) es).Inv :=
    Machine.Meets.keeps (fun s e he h => h.step e he) (by simp [Inv,start]) hs
  exact fun c hc => (hinv c hc).unconfused

def oneSlot : Slots :=
  .start ⟨['h'],1800,.empty,[⟨true,['a'],['b'],100,0⟩],false⟩

def authRequest (method : HttpMethod) (sid : Option (List Char)) : ApiRequest :=
  ⟨"/api/auth".toList,false,method,[],sid,false,none,⟨none,none,none,none,none⟩⟩

theorem sessions_never_confused_sample :
    let es : List SlotEvent :=
      [.arrive (authRequest .get (some ['a'])) none,.call 0 (.authenticate 1 false false),
        .call 0 .setCookie,.call 0 .sessionObject,
        .arrive (authRequest .delete (some ['a'])) none,.call 1 (.authenticate 2 false false),
        .call 1 .logout,
        .arrive (authRequest .post none) (some ['p']),.call 2 (.authenticate 3 false false),
        .call 2 (.verified (.correct 0)),.call 2 (.claim 3 (some (['x'],['y']))),
        .call 2 .setCookie,.call 2 .sessionObject]
    (Machine.run Slots.step oneSlot es).calls.map AuthCall.sent =
        [[['a'],['a'],['b']],[],[['x'],['x'],['y']]] ∧
      ∀ c ∈ (Machine.run Slots.step oneSlot es).calls, c.Unconfused :=
  ⟨by decide,sessions_never_confused _ _ (by decide)⟩

/-- The same with two requests authenticated before the session was ended: one is answered with
the tokens of the new session, the other ends it. -/
theorem sessions_confused :
    let es : List SlotEvent :=
      [.arrive (authRequest .get (some ['a'])) none,.call 0 (.authenticate 1 false false),
        .arrive (authRequest .delete (some ['a'])) none,.call 1 (.authenticate 1 false false),
        .arrive (authRequest .delete (some ['a'])) none,.call 2 (.authenticate 2 false false),
        .call 2 .logout,
        .arrive (authRequest .post none) (some ['p']),.call 3 (.authenticate 3 false false),
        .call 3 (.verified (.correct 0)),.call 3 (.claim 3 (some (['x'],['y']))),
        .call 0 .setCookie,.call 0 .sessionObject,.call 1 .logout]
    let calls := (Machine.run Slots.step oneSlot es).calls
    calls.map AuthCall.sent = [[['x'],['x'],['y']],[],[],[]] ∧
      calls.map (fun c => c.ended.map (·.sid)) = [none,some ['x'],some ['a'],none] ∧
      ¬ ∀ c ∈ calls, c.Unconfused := by
  decide

end Slots

end Lorentz
