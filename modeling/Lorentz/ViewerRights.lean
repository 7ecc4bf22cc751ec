import Lorentz.Access

/-!
A viewer among other requests: no handler reserved for admins runs for it as long as its account
stays what it is.
-/

set_option autoImplicit false

namespace Lorentz
open Routine Server UserTable

def UserRow.enabledViewer (r : UserRow) : Prop :=
  r.enabled = 1 ∧ (userRoleParse r.role).getD .viewer = .viewer

def UserTable.Viewer (t : UserTable) (id : Int) : Prop :=
  ∃ r ∈ t.rows, r.id = id ∧ r.enabledViewer

/-- The account is an enabled viewer, and the cache says so. -/
structure Users.Viewer (u : Users) (id : Int) : Prop where
  table : u.table.Viewer id
  cached : ∃ c, userCacheLookup u id = some c ∧ c.role = .viewer

/-- The request leaves the account in place and without rights: it is about another one, or
changes something else of it. -/
def UserRequest.spares (t : UserTable) (id : Int) : UserRequest → Bool
  | .create .. => true
  | .update username changes _ _ _ =>
    ((userNormalizeUsername username).bind t.byName).all (fun r =>
      r.id ≠ id || (changes.role ≠ some .admin && changes.enabled ≠ some false))
  | .delete username _ =>
    ((userNormalizeUsername username).bind t.byName).all (fun r => r.id ≠ id)

section

variable {k : UserRequest} {t t' : UserTable} {u u' : Users} {id : Int}

theorem UserTable.Viewer.insert {username pwhash role : List Char} {enabled now : Int}
    {comment : Option (List Char)} (h : t.Viewer id)
    (hi : t.insert username pwhash role enabled comment now = some t') : t'.Viewer id := by
  obtain ⟨r,hr,hv⟩ := h
  exact ⟨r,by rw [insert_rows hi]; exact List.mem_append_left _ hr,hv⟩

theorem UserTable.Viewer.update {f : UserRow → UserRow} {id' : Int} (h : t.Viewer id)
    (hu : t.update id' f = some t')
    (hf : ∀ r ∈ t.rows, r.id = id → r.id = id' → r.enabledViewer → (f r).enabledViewer) :
    t'.Viewer id := by
  obtain ⟨r,hr,hid,hv⟩ := h
  rw [Viewer,update_rows hu]
  by_cases hid' : r.id = id'
  · exact ⟨_,mem_change hr hid',hid,hf r hr hid hid' hv⟩
  · exact ⟨r,mem_change_of_ne hr hid',hid,hv⟩

theorem UserTable.Viewer.delete {id' : Int} (h : t.Viewer id) (hne : id' ≠ id) :
    (t.delete id').Viewer id := by
  obtain ⟨r,hr,hid,hv⟩ := h
  exact ⟨r,List.mem_filter.2 ⟨hr,by simpa [hid] using hne.symm⟩,hid,hv⟩

theorem readUser_enabledViewer {r : UserRow} (h : r.enabledViewer) :
    (readUser r).role = .viewer ∧ (readUser r).enabled = true :=
  ⟨h.2,by simp [readUser,h.1]⟩

theorem User.write_enabledViewer {x : User} {pwhash : List Char} {now : Int} {r : UserRow}
    (hr : x.role = .viewer) (he : x.enabled = true) : (x.write pwhash now r).enabledViewer := by
  refine ⟨by simp only [User.write,he,if_true],?_⟩
  simp only [User.write,userRoleParse_userRoleStr,hr,Option.getD_some]

theorem UserRequest.Changes.viewer (h : k.Changes t t') (hs : k.spares t id = true)
    (hv : t.Viewer id) : t'.Viewer id := by
  cases h with
  | create _ hinsert => exact hv.insert hinsert
  | @update username changes _ _ _ name hash newname row now _ _ hname hrow hlast hupdate =>
    refine hv.update hupdate fun r hr hid hid' hrv => ?_
    obtain rfl := eq_of_id hr (mem_of_byName hrow) hid'
    obtain ⟨hrole,hen⟩ := readUser_enabledViewer hrv
    simp only [spares,hname,hrow,Option.bind_some,Option.all_some,hid,ne_eq,not_true_eq_false,
      decide_false,Bool.false_or,Bool.and_eq_true,decide_eq_true_eq] at hs
    refine User.write_enabledViewer ?_ ?_
    · cases hc : changes.role with
      | none => simp [UserChanges.apply,hc,hrole]
      | some role => cases role <;> simp_all [UserChanges.apply]
    · cases hc : changes.enabled with
      | none => simp [UserChanges.apply,hc,hen]
      | some enabled => cases enabled <;> simp_all [UserChanges.apply]
  | delete hname hrow hlast =>
    simp only [spares,hname,hrow,Option.bind_some,Option.all_some,decide_eq_true_eq] at hs
    exact hv.delete hs

theorem UserTable.Viewer.cached (h : t.Viewer id) :
    ∃ c, t.enabledAccounts.find? (fun c => c.id = id) = some c ∧ c.role = .viewer := by
  obtain ⟨r,hr,hid,hen,hrole⟩ := h
  have hmem : (⟨r.id,.viewer,r.username.take USERNAME_MAX⟩ : CachedUser) ∈ t.enabledAccounts :=
    List.mem_map.2 ⟨r,List.mem_filter.2 ⟨hr,by simpa using hen⟩,by rw [hrole]⟩
  cases hf : t.enabledAccounts.find? (fun c => c.id = id) with
  | none => simpa [hid] using List.find?_eq_none.1 hf _ hmem
  | some c =>
    have hc := List.mem_of_find?_eq_some hf
    have hcid : c.id = id := by simpa using List.find?_some hf
    simp only [enabledAccounts,List.mem_map,List.mem_filter] at hc
    obtain ⟨r',⟨hr',-⟩,rfl⟩ := hc
    obtain rfl := eq_of_id hr hr' (hid.trans hcid.symm)
    exact ⟨_,rfl,hrole⟩

theorem UserRequest.Does.viewer {r : UserResult} (h : k.Does u r u')
    (hs : k.spares u.table id = true) (hv : u.Viewer id) : u'.Viewer id := by
  cases h with
  | refused _ => exact hv
  | stale hc => exact ⟨hc.viewer hs hv.table,hv.cached⟩
  | changed hc => exact ⟨hc.viewer hs hv.table,(hc.viewer hs hv.table).cached⟩

end

def SessionsOf (sid : List Char) (id : Int) (sessions : List Session) : Prop :=
  ∀ x ∈ sessions, x.used = true → x.sid = sid → x.accountId = id

namespace SessionsOf

variable {sid : List Char} {id : Int} {sessions : List Session}

variable (h : SessionsOf sid id sessions)
include h

theorem set {x : Session} (i : Nat) (hx : x.used = true → x.sid = sid → x.accountId = id) :
    SessionsOf sid id (sessions.set i x) := by
  intro y hy
  rcases List.mem_or_eq_of_mem_set hy with hy | rfl
  · exact h y hy
  · exact hx

theorem map {f : Nat → Session → Session} (hf : ∀ i x, f i x = x ∨ f i x = .zero) :
    SessionsOf sid id (sessions.mapIdx f) := by
  intro y hy
  obtain ⟨i,hi,rfl⟩ := List.mem_mapIdx.1 hy
  rcases hf i sessions[i] with he | he <;> rw [he]
  · exact h _ (List.getElem_mem hi)
  · simp [Session.zero]

theorem findSession {q : ApiRequest} {now : Int} {i : Nat} {x : Session}
    (hf : q.findSession sid now sessions = some (i,x)) : x.accountId = id := by
  unfold ApiRequest.findSession at hf
  split at hf
  · cases hf
  rename_i hj
  obtain ⟨hlt,hp,-⟩ := List.findIdx?_eq_some_iff_getElem.1 hj
  dsimp only at hf
  split at hf
  · cases hf
  split at hf
  · cases hf
  cases hf
  simp only [Bool.and_eq_true,decide_eq_true_eq] at hp
  have hget : sessions.getD i .zero = sessions[i] := by simp [hlt]
  rw [hget]
  exact h _ (List.getElem_mem hlt) hp.1 hp.2

end SessionsOf

/-- The account is a viewer, and the sessions with this ID are its. -/
structure Server.ViewerAt (sid : List Char) (id : Int) (s : Server) : Prop where
  account : s.users.Viewer id
  sessions : SessionsOf sid id s.sessions

def ServerStep.spares (sid : List Char) (id : Int) : ServerStep → Server → Bool
  | .account k _, s => k.spares s.users.table id
  | .login _ sid' _ id', _ => sid' ≠ sid || id' = id
  | _, _ => true

section

variable {sid : List Char} {id : Int}

theorem ServerStep.spares_apply (k : ServerStep) (s : Server) (hk : k.spares sid id s = true)
    (h : s.ViewerAt sid id) : (k.apply s).ViewerAt sid id := by
  have hlock : ∀ f : Server → Server, (∀ s, (f s).users = s.users) →
      (∀ s : Server, SessionsOf sid id s.sessions → SessionsOf sid id (f s).sessions) →
      (s.whenUnlocked f).ViewerAt sid id := by
    intro f hu hs
    unfold Server.whenUnlocked
    split
    · exact h
    · exact ⟨by rw [hu]; exact h.account,hs s h.sessions⟩
  cases k with
  | account k answers => exact ⟨(s.users.serve_does k answers).viewer hk h.account,h.sessions⟩
  | deleteSession i =>
    refine hlock (·.deleteSession i) (fun _ => rfl) fun s hs => hs.set i ?_
    simp [Session.zero]
  | deleteUserSessions id' slot =>
    refine hlock (·.deleteUserSessions id' slot) (fun _ => rfl) fun s hs => hs.map fun i x => ?_
    split
    · exact .inr rfl
    · exact .inl rfl
  | deleteAllSessions =>
    refine hlock (·.deleteAllSessions) (fun _ => rfl) fun s hs y hy => ?_
    obtain ⟨x,-,rfl⟩ := List.mem_map.1 hy
    simp [Session.zero]
  | login now sid' csrf id' =>
    refine hlock (·.login now sid' csrf id') (fun s => ?_) fun s hs => ?_
    · unfold Server.login; split <;> rfl
    unfold Server.login
    split
    · exact hs
    · refine hs.set _ fun _ he => ?_
      dsimp only at he
      simpa [ServerStep.spares,he] using hk
  | setPwhash pwhash => exact ⟨h.account,h.sessions⟩

theorem authDisabled_under : authDisabled.Under (ViewerAt sid id) (· = false) := by
  simp only [authDisabled,under_bind,under_step]
  refine fun _ s hs => ⟨hs,?_⟩
  split
  · refine fun _ s hs => ⟨hs,?_⟩
    obtain ⟨c,hc,-⟩ := hs.account.cached
    have hne : s.users.cache ≠ [] := List.ne_nil_of_mem (List.mem_of_find?_eq_some hc)
    change (usersEnabledCount s.users == 0) = false
    simpa [usersEnabledCount] using hne
  · rfl

def Conn.Of (c : Conn) (id : Int) : Prop := c.userId.isSome ∧ c.session.accountId = id

theorem checkClientAuth_under {q : ApiRequest} (hq : q.sid = some sid) :
    (checkClientAuth q).Under (ViewerAt sid id)
      (fun a => a = .unauthorized ∨ ∃ c : Conn, a = .session c ∧ c.Of id) := by
  simp only [checkClientAuth,under_bind]
  refine authDisabled_under.mono fun b hb => ?_
  subst hb
  rw [if_neg (by simp),hq]
  dsimp only
  split
  · exact .inl rfl
  split
  · exact .inl rfl
  intro now s hs
  cases hf : q.findSession sid now s.sessions with
  | none => exact ⟨by simpa [hf] using hs,by simpa [hf] using .inl rfl⟩
  | some p =>
    obtain ⟨i,x⟩ := p
    have hx := hs.sessions.findSession hf
    simp only [hf]
    refine ⟨⟨hs.account,hs.sessions⟩,fun _ s hs => ?_⟩
    dsimp only
    split
    · exact ⟨⟨hs.account,hs.sessions⟩,.inl rfl⟩
    · exact ⟨⟨hs.account,hs.sessions.set i fun _ _ => hx⟩,.inr ⟨_,rfl,rfl,hx⟩⟩

theorem currentAccount_under {c : Conn} (hid : id ≠ SESSION_NO_ACCOUNT) (hc : c.Of id) :
    (currentAccount c).Under (ViewerAt sid id)
      (fun me => ∃ x : CachedUser, me = some x ∧ x.role = .viewer) := by
  have hnone : ¬(c.userId.isNone ∨ c.session.accountId = SESSION_NO_ACCOUNT) := by
    rintro (h | h)
    · have := hc.1
      simp_all
    · exact hid (hc.2 ▸ h)
  rw [currentAccount,if_neg hnone,under_step,hc.2]
  exact fun _ s hs => ⟨hs,hs.account.cached⟩

theorem isAdmin_under {c : Conn} (hid : id ≠ SESSION_NO_ACCOUNT) (hc : c.Of id) :
    (isAdmin c).Under (ViewerAt sid id) (· = false) := by
  rw [isAdmin,under_bind]
  refine (currentAccount_under hid hc).mono ?_
  rintro _ ⟨x,rfl,hx⟩
  simp [hx]

theorem adminsOnly_under {c : Conn} (hid : id ≠ SESSION_NO_ACCOUNT) (hc : c.Of id) (a : Action) :
    (adminsOnly c a).Under (ViewerAt sid id) (·.reserved = false) := by
  rw [adminsOnly,under_bind]
  refine (isAdmin_under hid hc).mono ?_
  rintro _ rfl
  rfl

theorem apiUsers_under {c : Conn} (hid : id ≠ SESSION_NO_ACCOUNT) (hc : c.Of id)
    (q : ApiRequest) :
    (apiUsers c q).Under (ViewerAt sid id) (·.reserved = false) := by
  unfold apiUsers
  split
  · split
    · exact adminsOnly_under hid hc _
    · exact adminsOnly_under hid hc _
    · rfl
  split
  · rw [getUser,under_bind]
    refine (currentAccount_under hid hc).mono fun me _ => ?_
    split
    · rfl
    · exact adminsOnly_under hid hc _
  · rw [updateUser,under_bind]
    refine (currentAccount_under hid hc).mono ?_
    rintro _ ⟨x,rfl,hx⟩
    simp only [Option.all_some,Option.any_some,hx]
    split
    · rfl
    split
    · rfl
    split
    · rfl
    · simp_all [Outcome.reserved,Action.reserved]
  · rw [deleteUser,under_bind]
    refine (isAdmin_under hid hc).mono ?_
    rintro _ rfl
    rfl
  · rfl

theorem apiHandler_under {q : ApiRequest} (hauth : q.requireAuth = true) (hq : q.sid = some sid)
    (hid : id ≠ SESSION_NO_ACCOUNT) :
    (apiHandler q).Under (ViewerAt sid id) (·.reserved = false) := by
  simp only [apiHandler,hauth,Bool.true_eq_false,if_false,under_bind]
  refine (checkClientAuth_under hq).mono ?_
  rintro _ (rfl | ⟨c,rfl,hc⟩)
  · rfl
  rw [under_bind,apiRoleAllows,under_bind]
  refine (isAdmin_under hid hc).mono ?_
  rintro _ rfl
  simp only [Bool.false_eq_true,if_false,under_pure]
  split
  case isFalse => rfl
  case isTrue hallow =>
    unfold apiFunc
    split
    · exact apiUsers_under hid hc q
    · simp [Outcome.reserved,Action.reserved,hallow]

/-- However a request of a viewer's session interleaves with others that leave the account in
place and give it no rights, it ends in no handler reserved for admins. -/
theorem viewer_never_acts_as_admin (q : ApiRequest) (s : Server)
    (turns : List (Routine.Turn Int ServerStep))
    (hauth : q.requireAuth = true) (hq : q.sid = some sid) (hid : id ≠ SESSION_NO_ACCOUNT)
    (hs : s.ViewerAt sid id)
    (hm : Routine.Meets ServerStep.apply (ServerStep.spares sid id) (apiHandler q,s) turns = true)
    (o : Outcome) (ho : (Routine.among ServerStep.apply (apiHandler q,s) turns).1 = .ret o) :
    o.reserved = false := by
  have h := (apiHandler_under hauth hq hid).among ServerStep.spares_apply hs hm
  rw [ho] at h
  exact h.1

end

/-! A server with an admin and a viewer; the viewer asks for the configuration. -/

def Server.sample : Server where
  pwhash := []
  timeout := 1800
  users :=
    { table :=
        { rows := [⟨1,['a'],[],"admin".toList,1,none,0,0,none⟩,
            ⟨2,['v'],[],"viewer".toList,1,none,0,0,none⟩]
          sequence := 2
          ids := by simp
          names := by simp
          given := by simp }
      cache := [⟨1,.admin,['a']⟩,⟨2,.viewer,['v']⟩] }
  sessions := [⟨true,['s'],['c'],100,2⟩]
  authLock := false

def ApiRequest.sample : ApiRequest where
  uri := "/api/config".toList
  requireAuth := true
  method := .patch
  item := []
  sid := some ['s']
  cookie := false
  csrf := none
  changes := ⟨none,none,none,none,none⟩

theorem Server.sample_viewerAt : sample.ViewerAt ['s'] 2 where
  account :=
    { table := ⟨⟨2,['v'],[],"viewer".toList,1,none,0,0,none⟩,by simp [sample],rfl,rfl,by decide⟩
      cached := ⟨⟨2,.viewer,['v']⟩,by decide,rfl⟩ }
  sessions := by simp [SessionsOf,sample]

def interruptedBy (k : UserRequest) : List (Routine.Turn Int ServerStep) :=
  [.mine 0,.mine 0,.mine 0,.mine 0,.other (.account k fun _ => ⟨true,0⟩),.mine 0]

theorem viewer_never_acts_as_admin_sample :
    (Routine.among ServerStep.apply (apiHandler .sample,Server.sample)
      (interruptedBy (.delete ['x'] true))).1 = .ret .forbidden ∧
      Outcome.forbidden.reserved = false :=
  ⟨rfl,viewer_never_acts_as_admin .sample sample (interruptedBy (.delete ['x'] true)) rfl rfl
    (by decide) sample_viewerAt (by decide) .forbidden rfl⟩

/-- The account is deleted between the two lookups: the second misses it, and the viewer counts as
an admin. -/
theorem deleted_viewer_acts_as_admin :
    Server.sample.ViewerAt ['s'] 2 ∧ ∃ o,
      (Routine.among ServerStep.apply (apiHandler .sample,Server.sample)
        (interruptedBy (.delete ['v'] true))).1 = .ret o ∧ o.reserved = true :=
  ⟨sample_viewerAt,_,rfl,by decide⟩

end Lorentz
