import Lorentz.Users

/-!
Two results on the requests on accounts: the last enabled admin stays, and what a request
reports when statements fail.
-/

set_option autoImplicit false

namespace Lorentz
open UserTable

namespace UserTable

variable {t t' : UserTable} {id : Int}

theorem hasAdmin_iff : t.hasAdmin = true ↔ ∃ r ∈ t.rows, r.enabledAdmin = true := by
  simp [hasAdmin]

theorem exists_other (h : t.enabledAdmins id ≠ []) :
    ∃ r ∈ t.rows, r.enabledAdmin = true ∧ r.id ≠ id := by
  obtain ⟨r,hr⟩ := List.exists_mem_of_ne_nil _ h
  simp only [enabledAdmins,List.mem_filter,Bool.and_eq_true,decide_eq_true_eq] at hr
  exact ⟨r,hr.1,hr.2⟩

theorem hasAdmin_insert {username pwhash role : List Char} {enabled now : Int}
    {comment : Option (List Char)} (hi : t.insert username pwhash role enabled comment now = some t')
    (h : t.hasAdmin = true) : t'.hasAdmin = true := by
  obtain ⟨r,hr,ha⟩ := hasAdmin_iff.1 h
  rw [hasAdmin_iff,insert_rows hi]
  exact ⟨r,List.mem_append_left _ hr,ha⟩

theorem hasAdmin_update {f : UserRow → UserRow} (hu : t.update id f = some t')
    (hf : t.enabledAdmins id ≠ [] ∨
      ∀ r ∈ t.rows, r.id = id → r.enabledAdmin = true → (f r).enabledAdmin = true)
    (h : t.hasAdmin = true) : t'.hasAdmin = true := by
  rw [hasAdmin_iff,update_rows hu]
  rcases hf with hf | hf
  · obtain ⟨r,hr,ha,hid⟩ := exists_other hf
    exact ⟨r,mem_change_of_ne hr hid,ha⟩
  obtain ⟨r,hr,ha⟩ := hasAdmin_iff.1 h
  by_cases hid : r.id = id
  · exact ⟨_,mem_change hr hid,hf r hr hid ha⟩
  · exact ⟨r,mem_change_of_ne hr hid,ha⟩

theorem hasAdmin_delete
    (hd : t.enabledAdmins id ≠ [] ∨ ∀ r ∈ t.rows, r.id = id → r.enabledAdmin = false)
    (h : t.hasAdmin = true) : (t.delete id).hasAdmin = true := by
  obtain ⟨r,hr,ha,hid⟩ : ∃ r ∈ t.rows, r.enabledAdmin = true ∧ r.id ≠ id := by
    rcases hd with hd | hd
    · exact exists_other hd
    · obtain ⟨r,hr,ha⟩ := hasAdmin_iff.1 h
      exact ⟨r,hr,ha,fun hid => by simp [hd r hr hid] at ha⟩
  exact hasAdmin_iff.2 ⟨r,List.mem_filter.2 ⟨hr,by simpa using hid⟩,ha⟩

end UserTable

theorem readUser_enabledAdmin {r : UserRow} (h : r.enabledAdmin = true) :
    (readUser r).role = .admin ∧ (readUser r).enabled = true := by
  simp only [UserRow.enabledAdmin,Bool.and_eq_true,decide_eq_true_eq] at h
  obtain ⟨hrole,hen⟩ := h
  have hparse : userRoleParse r.role = some .admin := hrole ▸ userRoleParse_userRoleStr .admin
  exact ⟨by rw [readUser,hparse]; rfl,by simp [readUser,hen]⟩

theorem User.write_enabledAdmin {u : User} {pwhash : List Char} {now : Int} {r : UserRow}
    (hr : u.role = .admin) (he : u.enabled = true) :
    (u.write pwhash now r).enabledAdmin = true := by
  simp [User.write,UserRow.enabledAdmin,hr,he,userRoleStr]

/-- The change would take the rights of the account `name`, and no other is an enabled
admin. -/
def UserTable.lastAdminIs (t : UserTable) (name : List Char) : Bool :=
  (t.byName name).any (fun r => r.enabledAdmin && t.enabledAdmins r.id = [])

theorem UserTable.lastAdminIs_iff {t : UserTable} {name : List Char} {r : UserRow}
    (h : t.byName name = some r) :
    t.lastAdminIs name = true ↔ r.enabledAdmin = true ∧ t.enabledAdmins r.id = [] := by
  simp [lastAdminIs,h]

def UserChanges.takesRights (c : UserChanges) : Bool :=
  c.role = some .viewer || c.enabled = some false

def UserRequest.removesLastAdmin (t : UserTable) : UserRequest → Bool
  | .create .. => false
  | .update username changes _ _ _ =>
    changes.takesRights && (userNormalizeUsername username).any t.lastAdminIs
  | .delete username _ => (userNormalizeUsername username).any t.lastAdminIs

section

variable {k : UserRequest} {t t' : UserTable}

theorem UserRequest.Changes.hasAdmin (h : k.Changes t t') (ha : t.hasAdmin = true) :
    t'.hasAdmin = true := by
  cases h with
  | create _ hinsert => exact hasAdmin_insert hinsert ha
  | @update username changes _ _ _ name hash newname row now _ _ hname hrow hlast hupdate =>
    refine hasAdmin_update hupdate ?_ ha
    by_cases hd : dropsAdmin (readUser row) (changes.apply newname (readUser row)) = true
    · exact .inl (hlast hd)
    refine .inr fun r hr he hra => ?_
    obtain rfl := eq_of_id hr (mem_of_byName hrow) he
    obtain ⟨hrole,hen⟩ := readUser_enabledAdmin hra
    simp only [dropsAdmin,hrole,hen,decide_true,Bool.true_and,Bool.or_eq_true,decide_eq_true_eq,
      Bool.not_eq_true',not_or,not_not,Bool.not_eq_false] at hd
    exact User.write_enabledAdmin hd.1 hd.2
  | delete hname hrow hlast =>
    refine hasAdmin_delete ?_ ha
    rename_i row
    cases hra : row.enabledAdmin with
    | true =>
      obtain ⟨hrole,hen⟩ := readUser_enabledAdmin hra
      exact .inl (hlast (by simp [hrole,hen]))
    | false =>
      refine .inr fun r hr he => ?_
      rw [eq_of_id hr (mem_of_byName hrow) he,hra]

theorem UserRequest.Changes.not_removesLastAdmin (h : k.Changes t t') :
    k.removesLastAdmin t = false := by
  cases h with
  | create => rfl
  | @update username changes _ _ _ name hash newname row now _ _ hname hrow hlast hupdate =>
    simp only [removesLastAdmin,hname,Option.any_some,Bool.and_eq_false_imp]
    intro hc
    rw [Bool.eq_false_iff,Ne,lastAdminIs_iff hrow]
    rintro ⟨ha,hnone⟩
    obtain ⟨hrole,hen⟩ := readUser_enabledAdmin ha
    refine hlast ?_ hnone
    simp only [UserChanges.takesRights,Bool.or_eq_true,decide_eq_true_eq] at hc
    rcases hc with hc | hc <;> simp [dropsAdmin,UserChanges.apply,hrole,hen,hc]
  | delete hname hrow hlast =>
    simp only [removesLastAdmin,hname,Option.any_some]
    rw [Bool.eq_false_iff,Ne,lastAdminIs_iff hrow]
    rintro ⟨ha,hnone⟩
    obtain ⟨hrole,hen⟩ := readUser_enabledAdmin ha
    exact hlast (by simp [hrole,hen]) hnone

end

theorem UserRequest.Steps.hasAdmin {k : UserRequest} {u u' : Users} (h : k.Steps u u')
    (ha : u.table.hasAdmin = true) : u'.table.hasAdmin = true := by
  cases h with
  | stay | reload => exact ha
  | change h => exact h.hasAdmin ha

theorem UserRequest.Does.refuses {k : UserRequest} {u u' : Users} {r : UserResult}
    (h : k.Does u r u') (hl : k.removesLastAdmin u.table = true) : r ≠ .ok ∧ u' = u := by
  cases h with
  | refused hr => exact ⟨hr,rfl⟩
  | stale hc | changed hc => simp [hc.not_removesLastAdmin] at hl

abbrev UserEvent := Monitor.Event Nat UserRequest Answer

abbrev UserMonitor := Monitor.State Nat UserRequest Users Answer UserResult

def UserMonitor.run (m : UserMonitor) (es : List UserEvent) : UserMonitor :=
  Monitor.run UserRequest.body m es

/-- Once there is an enabled admin there always is one, and a request that would remove the last
one is refused and changes neither table nor cache. -/
theorem UserMonitor.last_admin_stays (u : Users) (es es' : List UserEvent)
    (h : (UserMonitor.run (Monitor.idle u) es).shared.table.hasAdmin = true) :
    (UserMonitor.run (UserMonitor.run (Monitor.idle u) es) es').shared.table.hasAdmin = true ∧
      ∀ c ∈ (UserMonitor.run (UserMonitor.run (Monitor.idle u) es) es').returned,
        c.request.removesLastAdmin c.entered.table = true →
          c.result ≠ .ok ∧ c.left = c.entered := by
  have hk := (Monitor.keeps_idle u).run userRequests_promise es
  refine ⟨hk.run_stable userRequests_promise (fun _ _ _ hs => hs.hasAdmin) h es',?_⟩
  intro c hc
  exact ((hk.run userRequests_promise es').returned c hc).refuses

def Users.empty : Users := ⟨.empty,[]⟩

def UserEvent.alone (thread : Nat) (k : UserRequest) : List UserEvent :=
  [.enter thread k,.advance thread ⟨true,0⟩,.advance thread ⟨true,0⟩,.advance thread ⟨true,0⟩,
    .leave thread]

def UserRequest.createRoot : UserRequest :=
  .create ['r'] (List.replicate 8 'p') .admin none true false (some ['h']) true

/-- The first admin is created, and another thread tries to delete it. -/
theorem UserMonitor.last_admin_stays_root :
    (UserMonitor.run (UserMonitor.run (Monitor.idle Users.empty)
      (UserEvent.alone 0 .createRoot)) (UserEvent.alone 1 (.delete ['r'] true))).returned.map
        (fun c => (c.request.removesLastAdmin c.entered.table,c.result)) =
        [(true,.lastAdmin),(false,.ok)] ∧
      (UserMonitor.run (UserMonitor.run (Monitor.idle Users.empty)
        (UserEvent.alone 0 .createRoot))
          (UserEvent.alone 1 (.delete ['r'] true))).shared.table.hasAdmin = true :=
  ⟨by decide,
    (UserMonitor.last_admin_stays Users.empty (UserEvent.alone 0 .createRoot)
      (UserEvent.alone 1 (.delete ['r'] true)) (by decide)).1⟩

open Routine Ensures

namespace Users

def Exact (u : Users) : Prop := u.cache = u.table.enabledAccounts

/-- The report of a request that found `u` and left `v`: the cache is that of the table, and an
error leaves the table alone. -/
def Reported (u : Users) (r : UserResult) (v : Users) : Prop :=
  v.Exact ∧ (r ≠ .ok → v.table.rows = u.table.rows)

/-- `Reported` of a request that may have found a cache that is not that of the table. -/
def Told (u : Users) (r : UserResult) (v : Users) : Prop :=
  (u.Exact → v.Exact) ∧ (r ≠ .ok → v.table.rows = u.table.rows)

/-- A statement works, or the table is still the one the request found. -/
def works (u : Users) (a : Answer) (v : Users) : Bool := a.ok || v.table.rows = u.table.rows

theorem Exact.of_rows {u : Users} (h : u.Exact) {t : UserTable} (ht : t.rows = u.table.rows) :
    Users.Exact { u with table := t } := by
  unfold Exact enabledAccounts at *
  rw [ht]
  exact h

theorem told_refused (u : Users) (r : UserResult) : u.Told r u := ⟨id,fun _ => rfl⟩

end Users

theorem UserTable.byName_of_mem {t : UserTable} {r : UserRow} (h : r ∈ t.rows) :
    ∃ r', t.byName r.username = some r' :=
  Option.isSome_iff_exists.mp (List.find?_isSome.mpr ⟨r,h,by simp⟩)

section

variable {u : Users} {name : List Char} {out : Bool} {t : UserTable}

theorem reload_reports {r : UserResult} (hr : r ≠ .ok → t.rows = u.table.rows) :
    (reloadCache >>= fun _ => (pure r : UserRoutine UserResult)).Given u.works u.Told
      { u with table := t } := by
  intro a ha
  cases hok : a.ok with
  | true =>
    simp only [hok,if_true]
    exact ⟨fun _ => rfl,hr⟩
  | false =>
    simp only [hok,Bool.false_eq_true,if_false]
    exact ⟨fun h => h.of_rows (by simpa [Users.works,hok] using ha),hr⟩

theorem afterChange_reports (hrow : ∃ r, t.byName name = some r) :
    (afterChange name out).Given u.works u.Told { u with table := t } := by
  obtain ⟨row,hrow⟩ := hrow
  cases out with
  | false => exact reload_reports (by simp)
  | true =>
    intro a ha
    cases hok : a.ok with
    | true =>
      simp only [hok,hrow,if_true]
      exact reload_reports (by simp)
    | false =>
      simp only [hok,Bool.false_eq_true,if_false]
      exact reload_reports fun _ => by simpa [Users.works,hok] using ha

theorem change_reports {f : Int → UserTable → Option UserTable}
    {rest : UserResult → UserRoutine UserResult} (hrest : ∀ r, r ≠ .ok → rest r = pure r)
    (hok : ∀ now t, f now u.table = some t →
      (rest .ok).Given u.works u.Told { u with table := t }) :
    (changeTable f >>= rest).Given u.works u.Told u := by
  refine given_bind (changeTable_ensures trivial (fun r hr => ?_)
    fun now t ht => ⟨trivial,hok now t ht⟩)
  rw [hrest r hr]
  exact u.told_refused r

theorem createLocked_reports (hash : List Char) (role : UserRole) (comment : Option (List Char))
    (enabled : Bool) :
    (createLocked name hash role comment enabled out).Given u.works u.Told u := by
  refine given_bind (readByName_ensures trivial (fun _ _ => u.told_refused _) fun e _ => ?_)
  split
  case h_1 he => cases he
  case h_3 => exact u.told_refused _
  case h_2 =>
    refine change_reports (fun r hr => by split <;> simp_all) fun now t ht => ?_
    have hmem := (insert_rows ht).symm ▸ List.mem_append_right _ (List.mem_singleton_self _)
    exact afterChange_reports (byName_of_mem hmem)

theorem updateRow_reports {row : UserRow} (hrow : row ∈ u.table.rows) {user : User}
    (hid : user.id = row.id) (newhash : Option (List Char)) :
    (updateRow row user newhash out).Given u.works u.Told u := by
  refine given_bind (leavesNoAdmin_ensures trivial (u.told_refused _) fun _ => ?_)
  refine change_reports (fun r hr => by split <;> simp_all) fun now t ht => ?_
  have hmem := (update_rows ht).symm ▸ mem_change hrow hid.symm
  exact afterChange_reports (byName_of_mem hmem)

theorem updateLocked_reports (changes : UserChanges) (newname newhash : Option (List Char)) :
    (updateLocked name changes newname newhash out).Given u.works u.Told u := by
  refine given_bind (readByName_ensures trivial (fun row hrow => ?_) fun e _ => u.told_refused e)
  have hrest : (updateRow row (changes.apply newname (readUser row)) newhash out).Given u.works
      u.Told u := updateRow_reports (mem_of_byName hrow) rfl newhash
  dsimp only
  split
  · exact given_bind (readByName_ensures trivial (fun _ _ => u.told_refused _) fun _ _ => hrest)
  · exact hrest

theorem deleteLocked_reports : (deleteLocked name).Given u.works u.Told u := by
  refine given_bind (readByName_ensures trivial (fun row _ => ?_) fun e _ => u.told_refused e)
  refine given_bind (leavesNoAdmin_ensures trivial (u.told_refused _) fun _ => ?_)
  exact change_reports (fun r hr => by split <;> simp_all)
    fun now t _ => reload_reports (by simp)

end

abbrev AccountCall := UserRequest × (Nat → Answer)

def Users.handle (u : Users) (e : AccountCall) : Users := (u.serve e.1 e.2).2

/-- No statement of the request fails once the table has changed. -/
def Users.undisturbed (u : Users) (e : AccountCall) : Bool :=
  match e.1.body with
  | .error _ => true
  | .ok p => p.answered u.works e.2 u

theorem Users.told_serve {u : Users} {e : AccountCall} (he : u.undisturbed e = true) :
    u.Told (u.serve e.1 e.2).1 (u.serve e.1 e.2).2 := by
  obtain ⟨k,answers⟩ := e
  have hgo {p : UserRoutine UserResult} (hb : k.body = .ok p) (hp : p.Given u.works u.Told u) :
      u.Told (u.serve k answers).1 (u.serve k answers).2 := by
    unfold Users.serve
    unfold undisturbed at he
    rw [hb] at he ⊢
    exact hp.run he
  have hno {r : UserResult} (hb : k.body = .error r) :
      u.Told (u.serve k answers).1 (u.serve k answers).2 := by
    unfold Users.serve
    rw [hb]
    exact u.told_refused r
  cases k with
  | create username password role comment enabled out pwhash opened =>
    rcases userCreate_cases username password role comment enabled out pwhash opened with
      ⟨r,-,hb⟩ | ⟨name,hash,-,hb⟩
    · exact hno hb
    · exact hgo hb (createLocked_reports hash role comment enabled)
  | update username changes out newhash opened =>
    rcases userUpdate_cases username changes out newhash opened with
      ⟨r,-,hb⟩ | ⟨name,newname,hash,-,hb⟩
    · exact hno hb
    · exact hgo hb (updateLocked_reports changes newname hash)
  | delete username opened =>
    rcases userDelete_cases username opened with ⟨r,-,hb⟩ | ⟨name,-,hb⟩
    · exact hno hb
    · exact hgo hb (deleteLocked_reports)

theorem Users.Exact.serve {u : Users} (h : u.Exact) {e : AccountCall} (he : u.undisturbed e = true) :
    u.Reported (u.serve e.1 e.2).1 (u.serve e.1 e.2).2 :=
  ⟨(told_serve he).1 h,(told_serve he).2⟩

/-- In a run of requests, from a cache that is that of the table, of which no statement fails
once its request has changed the table. -/
theorem accounts_report {u : Users} (hu : u.Exact) {calls : List AccountCall}
    (hm : Machine.Meets Users.handle Users.undisturbed u calls = true) {e : AccountCall}
    (he : (Machine.run Users.handle u calls).undisturbed e = true) :
    let v := Machine.run Users.handle u calls
    v.Exact ∧ v.Reported (v.serve e.1 e.2).1 (v.serve e.1 e.2).2 := by
  have hv := Machine.Meets.keeps (I := Users.Exact) (fun v e he hv => (hv.serve he).1) hu hm
  exact ⟨hv,hv.serve he⟩

def failingAt (n : Nat) : Nat → Answer := fun i => ⟨i ≠ n,0⟩

theorem accounts_report_two :
    let v := Machine.run Users.handle Users.empty [(.createRoot,failingAt 3)]
    v.table.rows.length = 1 ∧ (v.serve .createRoot (failingAt 0)).1 = .error ∧
      v.Reported (v.serve .createRoot (failingAt 0)).1 (v.serve .createRoot (failingAt 0)).2 :=
  ⟨by decide,by decide,(@accounts_report Users.empty rfl [(.createRoot,failingAt 3)] (by decide)
    (.createRoot,failingAt 0) (by decide)).2⟩

/-- A request that fails to reload the cache succeeds; one that fails to read its row back is an
error but has made the account. -/
theorem account_reports_wrong :
    let k (out : Bool) : UserRequest :=
      .create ['r'] (List.replicate 8 'p') .admin none true out (some ['h']) true
    let r := Users.empty.serve (k false) (failingAt 2)
    let r' := Users.empty.serve (k true) (failingAt 2)
    r.1 = .ok ∧ r.2.cache = [] ∧ r.2.table.enabledAccounts.length = 1 ∧
      r'.1 = .error ∧ r'.2.table.rows.length = 1 := by
  decide

end Lorentz
