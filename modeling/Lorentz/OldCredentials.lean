import Lorentz.SessionSlots

/-!
Logins in three steps while accounts change in two. The steps are numbered by a clock, so that
it can be said which account a session was opened for.
-/

set_option autoImplicit false

namespace Lorentz

inductive LoginPhase where
  | hashing
  | claiming
  | finished
  deriving DecidableEq, Repr

/-- A login to an account that was read from the table at some time. -/
structure AccountLogin where
  accountId : Int
  readAt : Nat
  phase : LoginPhase
  deriving DecidableEq, Repr

/-- A request that has changed the password of an account or left it disabled, and has yet to end
its sessions; `self` is the slot spared and the session that asked. -/
structure AccountChange where
  accountId : Int
  changedAt : Nat
  self : Option (Nat × List Char)
  finished : Bool
  deriving DecidableEq, Repr

/-- The clock counts the steps. `opened` is when the account in a slot was read, or its session
last changed its own password; `changed` when an account was last changed by a request that is
through. -/
structure Credentialed where
  server : Server
  logins : List AccountLogin
  changes : List AccountChange
  clock : Nat
  opened : Nat → Nat
  changed : Int → Nat

inductive CredentialEvent where
  | logIn (username : List Char) (ok : Bool)
  | verified (login : Nat) (fits : Bool)
  | claim (login : Nat) (now : Int) (tokens : Option (List Char × List Char))
  | update (self : Option (Nat × List Char)) (username : List Char) (changes : UserChanges)
      (newhash : Option (List Char)) (ok : Bool) (answers : Nat → Answer)
  | endSessions (change : Nat)
  | check (q : ApiRequest) (now : Int) (disabled : Bool)
  | other (k : ServerStep)

def ServerStep.apart : ServerStep → Bool
  | .account (.update ..) _ => false
  | .login _ _ _ accountId => accountId = SESSION_NO_ACCOUNT
  | _ => true

namespace Credentialed

def start (server : Server) : Credentialed := ⟨server,[],[],0,fun _ => 0,fun _ => 0⟩

variable (s : Credentialed)

def row (username : List Char) : Option UserRow :=
  (userNormalizeUsername username).bind s.server.users.table.byName

def logIn (username : List Char) (ok : Bool) : Credentialed :=
  match ok, s.row username with
  | true, some r =>
    if (readUser r).enabled then { s with logins := s.logins ++ [⟨r.id,s.clock,.hashing⟩] } else s
  | _, _ => s

def verified (i : Nat) (fits : Bool) : Credentialed :=
  match s.logins[i]? with
  | some ⟨accountId,readAt,.hashing⟩ =>
    let phase := if fits then .claiming else .finished
    { s with logins := s.logins.set i ⟨accountId,readAt,phase⟩ }
  | _ => s

def claim (i : Nat) (now : Int) (tokens : Option (List Char × List Char)) : Credentialed :=
  match s.logins[i]? with
  | some ⟨accountId,readAt,.claiming⟩ =>
    let s' := { s with logins := s.logins.set i ⟨accountId,readAt,.finished⟩ }
    match s.server.freeSlot now, tokens with
    | none, _ => s'
    | some slot, none => { s' with server := s.server.deleteSession slot }
    | some slot, some (sid,csrf) =>
      { s' with
        server := s.server.login now sid csrf accountId
        opened := Function.update s.opened slot readAt }
  | _ => s

/-- The result of `user_update` and the accounts after it. -/
def userUpdate (username : List Char) (changes : UserChanges) (newhash : Option (List Char))
    (ok : Bool) (answers : Nat → Answer) : UserResult × Users :=
  s.server.users.serve (.update username changes true newhash ok) answers

def finish (accountId : Int) (changedAt : Nat) : Int → Nat :=
  Function.update s.changed accountId (max (s.changed accountId) changedAt)

/-- `update_user` up to the end of the sessions, which an account changed by a request that ends
in an error keeps. -/
def update (self : Option (Nat × List Char)) (username : List Char) (changes : UserChanges)
    (newhash : Option (List Char)) (ok : Bool) (answers : Nat → Answer) : Credentialed :=
  let u := s.userUpdate username changes newhash ok answers
  let s' := { s with server := { s.server with users := u.2 } }
  match s.row username, (s.row username).bind (fun r => u.2.table.rows.find? (·.id = r.id)) with
  | some r, some r' =>
    let enabled := (readUser r').enabled
    if enabled && changes.password.isNone then s'
    else if u.1 = .ok then
      { s' with changes := s.changes ++ [⟨r.id,s.clock,if enabled then self else none,false⟩] }
    else if u.2.table.rows = s.server.users.table.rows then s'
    else { s' with changed := s.finish r.id s.clock }
  | _, _ => s'

def spare (c : AccountChange) (slot : Nat) : Nat :=
  if c.self.any (fun self =>
      self.1 = slot && (s.server.sessions.getD slot .zero).sid = self.2) then
    max (s.opened slot) c.changedAt
  else s.opened slot

def endSessions (i : Nat) : Credentialed :=
  match s.changes[i]? with
  | none => s
  | some c =>
    if c.finished then s
    else
      { s with
        server := s.server.deleteUserSessions c.accountId (c.self.map (·.1))
        changes := s.changes.set i { c with finished := true }
        opened := s.spare c
        changed := s.finish c.accountId c.changedAt }

def tick : Credentialed := { s with clock := s.clock+1 }

def step : CredentialEvent → Credentialed
  | .logIn username ok => s.tick.logIn username ok
  | .verified i fits => s.tick.verified i fits
  | .claim i now tokens => s.tick.claim i now tokens
  | .update self username changes newhash ok answers =>
    s.tick.update self username changes newhash ok answers
  | .endSessions i => s.tick.endSessions i
  | .check q now disabled =>
    { s.tick with server := (s.server.authenticate q now disabled).2 }
  | .other k => if k.apart then { s.tick with server := k.apply s.server } else s

/-- Whoever is let in had their account read after its last change, or made that. -/
def Current : Prop :=
  ∀ (q : ApiRequest) (now : Int) (disabled : Bool) (conn : Conn) (slot : Nat),
    (s.server.authenticate q now disabled).1 = .session conn → conn.userId = some slot →
    conn.session.accountId ≠ SESSION_NO_ACCOUNT →
    s.changed conn.session.accountId ≤ s.opened slot

/-- The slot that a change spares has no other session of the account than the one that
asked. -/
def sparesAsker (c : AccountChange) : Bool :=
  c.self.all fun self =>
    let x := s.server.sessions.getD self.1 .zero
    x.sid = self.2 || !x.used || x.accountId ≠ c.accountId

/-- No statement of an update fails once the table has changed, and when the sessions of an account
are ended no login that read it before the change is under way. -/
def orderly : CredentialEvent → Bool
  | .update _ username changes newhash ok answers =>
    s.server.users.undisturbed (.update username changes true newhash ok,answers)
  | .endSessions i => s.changes[i]?.all fun c =>
    s.logins.all (fun l =>
      l.phase = .finished || l.accountId ≠ c.accountId || c.changedAt ≤ l.readAt) &&
    s.sparesAsker c
  | _ => true

end Credentialed

structure CredentialInv (sessions : List Session) (logins : List AccountLogin)
    (changes : List AccountChange) (clock : Nat) (opened : Nat → Nat) (changed : Int → Nat) :
    Prop where
  sessions : ∀ (i : Nat) (x : Session), sessions[i]? = some x → x.used = true →
    x.accountId ≠ SESSION_NO_ACCOUNT → changed x.accountId ≤ opened i
  logins : ∀ l ∈ logins, l.phase ≠ .finished → changed l.accountId ≤ l.readAt
  changes : ∀ c ∈ changes, c.changedAt ≤ clock
  clock : ∀ a, changed a ≤ clock

namespace CredentialInv

variable {sessions sessions' : List Session} {logins : List AccountLogin}
  {changes : List AccountChange} {clock : Nat} {opened : Nat → Nat} {changed : Int → Nat}

variable (h : CredentialInv sessions logins changes clock opened changed)
include h

theorem tick : CredentialInv sessions logins changes (clock+1) opened changed :=
  ⟨h.sessions,h.logins,fun c hc => Nat.le_succ_of_le (h.changes c hc),
    fun a => Nat.le_succ_of_le (h.clock a)⟩

theorem quiet (hq : Quiet sessions sessions') :
    CredentialInv sessions' logins changes clock opened changed := by
  refine ⟨fun i x' hx' hu ha => ?_,h.logins,h.changes,h.clock⟩
  rcases hq i x' hx' with hv | ⟨x,hx,hused,-,hid⟩
  · rw [hv.1] at hu
    cases hu
  · rw [hid] at ha ⊢
    exact h.sessions i x hx (hused ▸ hu) ha

theorem set_none {x : Session} (hx : x.accountId = SESSION_NO_ACCOUNT) (i : Nat) :
    CredentialInv (sessions.set i x) logins changes clock opened changed := by
  refine ⟨fun j y hy hu ha => ?_,h.logins,h.changes,h.clock⟩
  rcases getElem?_set_cases hy with ⟨-,rfl⟩ | ⟨-,hy⟩
  · exact absurd hx ha
  · exact h.sessions j y hy hu ha

theorem logIn (id : Int) :
    CredentialInv sessions (logins ++ [⟨id,clock,.hashing⟩]) changes clock opened changed := by
  refine ⟨h.sessions,fun l hl hp => ?_,h.changes,h.clock⟩
  rcases List.mem_append.1 hl with hl | hl
  · exact h.logins l hl hp
  · rw [List.mem_singleton.1 hl]
    exact h.clock id

theorem set_phase {i : Nat} {l : AccountLogin} (hl : logins[i]? = some l) (hp : l.phase ≠ .finished)
    (phase : LoginPhase) :
    CredentialInv sessions (logins.set i { l with phase := phase }) changes clock opened
      changed := by
  refine ⟨h.sessions,fun l' hl' _ => ?_,h.changes,h.clock⟩
  rcases List.mem_or_eq_of_mem_set hl' with hl' | rfl
  · exact h.logins l' hl' ‹_›
  · exact h.logins l (List.mem_of_getElem? hl) hp

theorem claim {l : AccountLogin} (hl : l ∈ logins) (hp : l.phase ≠ .finished) {x : Session}
    (hx : x.accountId = l.accountId) (slot : Nat) :
    CredentialInv (sessions.set slot x) logins changes clock
      (Function.update opened slot l.readAt) changed := by
  refine ⟨fun j y hy hu ha => ?_,h.logins,h.changes,h.clock⟩
  rcases getElem?_set_cases hy with ⟨rfl,rfl⟩ | ⟨hij,hy⟩
  · rw [Function.update_self,hx]
    exact h.logins l hl hp
  · rw [Function.update_of_ne (Ne.symm hij)]
    exact h.sessions j y hy hu ha

theorem change {c : AccountChange} (hc : c.changedAt = clock) :
    CredentialInv sessions logins (changes ++ [c]) clock opened changed := by
  refine ⟨h.sessions,h.logins,fun c' hc' => ?_,h.clock⟩
  rcases List.mem_append.1 hc' with hc' | hc'
  · exact h.changes c' hc'
  · rw [List.mem_singleton.1 hc']
    exact Nat.le_of_eq hc

theorem set_finished {i : Nat} {c : AccountChange} (hc : changes[i]? = some c) :
    CredentialInv sessions logins (changes.set i { c with finished := true }) clock opened
      changed := by
  refine ⟨h.sessions,h.logins,fun c' hc' => ?_,h.clock⟩
  rcases List.mem_or_eq_of_mem_set hc' with hc' | rfl
  · exact h.changes c' hc'
  · exact h.changes c (List.mem_of_getElem? hc)

theorem finish {id : Int} {t : Nat} (ht : t ≤ clock)
    (hs : ∀ (i : Nat) (x : Session), sessions[i]? = some x → x.used = true → x.accountId = id →
      t ≤ opened i)
    (hl : ∀ l ∈ logins, l.phase ≠ .finished → l.accountId = id → t ≤ l.readAt) :
    CredentialInv sessions logins changes clock opened
      (Function.update changed id (max (changed id) t)) := by
  have hmax : ∀ (a : Int) (n : Nat), changed a ≤ n → (a = id → t ≤ n) →
      Function.update changed id (max (changed id) t) a ≤ n := by
    intro a n hn hid
    by_cases ha : a = id
    · subst ha
      rw [Function.update_self]
      exact Nat.max_le.2 ⟨hn,hid rfl⟩
    · rwa [Function.update_of_ne ha]
  exact ⟨fun i x hx hu ha => hmax _ _ (h.sessions i x hx hu ha) (hs i x hx hu),
    fun l hm hp => hmax _ _ (h.logins l hm hp) (hl l hm hp),h.changes,
    fun a => hmax _ _ (h.clock a) fun _ => ht⟩

theorem later {opened' : Nat → Nat} (ho : ∀ i, opened i ≤ opened' i) :
    CredentialInv sessions logins changes clock opened' changed :=
  ⟨fun i x hx hu ha => Nat.le_trans (h.sessions i x hx hu ha) (ho i),h.logins,h.changes,h.clock⟩

end CredentialInv

namespace Credentialed

variable {s : Credentialed}

def Inv (s : Credentialed) : Prop :=
  CredentialInv s.server.sessions s.logins s.changes s.clock s.opened s.changed

theorem Inv.logIn (h : s.Inv) (username : List Char) (ok : Bool) : (s.logIn username ok).Inv := by
  unfold Credentialed.logIn
  split
  · split
    · exact CredentialInv.logIn h _
    · exact h
  · exact h

theorem Inv.verified (h : s.Inv) (i : Nat) (fits : Bool) : (s.verified i fits).Inv := by
  unfold Credentialed.verified
  split
  · rename_i hl
    exact CredentialInv.set_phase h hl (by simp) _
  · exact h

theorem Inv.claim (h : s.Inv) (i : Nat) (now : Int) (tokens : Option (List Char × List Char)) :
    (s.claim i now tokens).Inv := by
  unfold Credentialed.claim
  split
  · rename_i accountId readAt hl
    have hset : CredentialInv s.server.sessions _ _ _ _ _ :=
      CredentialInv.set_phase h hl (by simp) .finished
    split
    · exact hset
    · exact hset.quiet (.set_zero _)
    rename_i slot sid csrf hslot
    have hclaim := CredentialInv.claim h (List.mem_of_getElem? hl) (by simp)
      (x := ⟨true,sid,csrf,now+s.server.timeout,accountId⟩) rfl slot
    simp only [Inv,Server.login_sessions hslot]
    exact hclaim.set_phase hl (by simp) .finished
  · exact h

theorem Inv.update (h : s.Inv) (self : Option (Nat × List Char)) (username : List Char)
    (changes : UserChanges) (newhash : Option (List Char)) (ok : Bool) (answers : Nat → Answer)
    (ho : s.orderly (.update self username changes newhash ok answers) = true) :
    (s.update self username changes newhash ok answers).Inv := by
  have htold : (s.userUpdate username changes newhash ok answers).1 ≠ .ok →
      (s.userUpdate username changes newhash ok answers).2.table.rows = s.server.users.table.rows :=
    (Users.told_serve ho).2
  simp only [Credentialed.update]
  split
  · split
    · exact h
    split
    · exact CredentialInv.change h rfl
    · rename_i hok
      rw [if_pos (htold hok)]
      exact h
  · exact h

theorem le_spare (c : AccountChange) (slot : Nat) : s.opened slot ≤ s.spare c slot := by
  unfold spare
  split
  · exact Nat.le_max_left _ _
  · exact Nat.le_refl _

theorem le_spare_of_used {c : AccountChange} {slot : Nat} {x : Session}
    (hself : s.sparesAsker c = true)
    (hx : (s.server.deleteUserSessions c.accountId (c.self.map (·.1))).sessions[slot]? = some x)
    (hu : x.used = true) (hid : x.accountId = c.accountId) : c.changedAt ≤ s.spare c slot := by
  simp only [Server.deleteUserSessions,List.getElem?_mapIdx,Option.map_eq_some_iff] at hx
  obtain ⟨y,hy,hyx⟩ := hx
  split at hyx
  · rw [← hyx] at hu
    cases hu
  rename_i hspared
  subst y
  have hslot : c.self.map (·.1) = some slot := by
    by_contra hne
    exact hspared ⟨Ne.symm hne,hu,hid⟩
  obtain ⟨self,hs,rfl⟩ := Option.map_eq_some_iff.1 hslot
  have hsid : x.sid = self.2 := by
    simpa [sparesAsker,hs,List.getD,hy,hu,hid] using hself
  have hspare : s.spare c self.1 = max (s.opened self.1) c.changedAt := by
    simp [spare,hs,List.getD,hy,hsid]
  rw [hspare]
  exact Nat.le_max_right _ _

theorem Inv.endSessions (h : s.Inv) (i : Nat) (ho : s.orderly (.endSessions i) = true) :
    (s.endSessions i).Inv := by
  unfold Credentialed.endSessions
  split
  · exact h
  rename_i c hc
  split
  · exact h
  simp only [orderly,hc,Option.all_some,Bool.and_eq_true,List.all_eq_true] at ho
  obtain ⟨hlogins,hself⟩ := ho
  have hquiet : Quiet s.server.sessions
      (s.server.deleteUserSessions c.accountId (c.self.map (·.1))).sessions := by
    refine .mapIdx fun j x => ?_
    split
    · exact .inl rfl
    · exact .inr rfl
  have hinv := ((CredentialInv.set_finished h hc).quiet hquiet).later fun j => le_spare c j
  refine hinv.finish (h.changes c (List.mem_of_getElem? hc)) ?_ ?_
  · intro j x hx hu hid
    exact le_spare_of_used hself hx hu hid
  · intro l hl hp hid
    simpa [hp,hid] using hlogins l hl

theorem Inv.step (h : s.Inv) (e : CredentialEvent) (ho : s.orderly e = true) :
    (s.step e).Inv := by
  have ht : s.tick.Inv := CredentialInv.tick h
  cases e with
  | logIn username ok => exact ht.logIn username ok
  | verified i fits => exact ht.verified i fits
  | claim i now tokens => exact ht.claim i now tokens
  | update self username changes newhash ok answers =>
    exact ht.update self username changes newhash ok answers ho
  | endSessions i => exact ht.endSessions i ho
  | check q now disabled =>
    exact CredentialInv.quiet ht (Server.authenticate_spec s.server q now disabled).1
  | other k =>
    simp only [Credentialed.step]
    split
    · rename_i hk
      rcases k.apply_table s.server with hq | ⟨now,sid,csrf,accountId,i,rfl,-,hset⟩
      · exact CredentialInv.quiet ht hq
      · simp only [Inv,hset]
        exact CredentialInv.set_none ht (by simpa [ServerStep.apart] using hk) i
    · exact h

theorem Inv.current (h : s.Inv) : s.Current := by
  intro q now disabled conn slot ha hslot hid
  obtain ⟨i,x,hi,hx,hu,hacc,-⟩ := (Server.authenticate_spec s.server q now disabled).2 conn ha
  obtain rfl : slot = i := by simpa using hslot.symm.trans hi
  rw [hacc] at hid ⊢
  exact h.sessions slot x hx hu hid

/-- In an orderly run nobody is let in with an account as it was before a change. -/
theorem old_credentials_not_accepted (server : Server) (es : List CredentialEvent)
    (ho : Machine.Meets Credentialed.step orderly (start server) es = true) :
    (Machine.run Credentialed.step (start server) es).Current := by
  have hinv : (Machine.run Credentialed.step (start server) es).Inv :=
    Machine.Meets.keeps (fun s e he h => h.step e he) (by constructor <;> simp [start]) ho
  exact hinv.current

def sample : Credentialed :=
  .start
    { pwhash := []
      timeout := 1800
      users :=
        { table :=
            { rows := [⟨1,['a'],['h'],"admin".toList,1,none,0,0,none⟩,
                ⟨2,['v'],['h'],"viewer".toList,1,none,0,0,none⟩]
              sequence := 2
              ids := by simp
              names := by simp
              given := by simp }
          cache := [⟨1,.admin,['a']⟩,⟨2,.viewer,['v']⟩] }
      sessions := [.zero,.zero]
      authLock := false }

def request (sid : List Char) : ApiRequest :=
  ⟨"/api/stats".toList,true,.get,[],some sid,false,none,⟨none,none,none,none,none⟩⟩

def newPassword (self : Option (Nat × List Char)) : CredentialEvent :=
  .update self ['v'] ⟨none,some "password".toList,none,none,none⟩ (some ['n']) true fun _ => ⟨true,0⟩

def setEnabled (enabled : Bool) : CredentialEvent :=
  .update none ['v'] ⟨none,none,none,some enabled,none⟩ none true fun _ => ⟨true,0⟩

theorem old_credentials_not_accepted_sample :
    let es : List CredentialEvent :=
      [.logIn ['v'] true,.verified 0 true,.claim 0 7 (some (['s'],['c'])),
        .logIn ['v'] true,.verified 1 true,.claim 1 7 (some (['t'],['d'])),
        newPassword (some (1,['t'])),.endSessions 0,.check (request ['t']) 8 false]
    let s := Machine.run Credentialed.step sample es
    s.server.sessions.map (·.sid) = [[],['t']] ∧ s.changed 2 = 7 ∧ s.Current :=
  ⟨by decide,by decide,old_credentials_not_accepted _ _ (by decide)⟩

/-- A login that has read the account gets its slot after the sessions were ended: it is accepted
with the old password and outlives that the account is disabled. -/
theorem old_credentials_accepted :
    ¬ (Machine.run Credentialed.step sample
      [.logIn ['v'] true,newPassword none,.endSessions 0,.verified 0 true,
        .claim 0 7 (some (['s'],['c']))]).Current ∧
    ¬ (Machine.run Credentialed.step sample
      [.logIn ['v'] true,setEnabled false,.endSessions 0,.verified 0 true,
        .claim 0 7 (some (['s'],['c'])),setEnabled true]).Current := by
  constructor
  · intro h
    exact absurd (h (request ['s']) 7 false ⟨some 0,⟨true,['s'],['c'],1807,2⟩⟩ 0 (by decide) rfl
      (by decide)) (by decide)
  · intro h
    exact absurd (h (request ['s']) 7 false ⟨some 0,⟨true,['s'],['c'],1807,2⟩⟩ 0 (by decide) rfl
      (by decide)) (by decide)

end Credentialed

end Lorentz
