import Lorentz.ConfigValues

/-!
`PATCH` of items, `PUT` and `DELETE` of an array's entry. Each edits a copy; what it reads of
the running configuration meanwhile is a second argument.
-/

set_option autoImplicit false

namespace Lorentz
open Lorentz.Configuration

structure ApiError where
  code : Nat
  key : String
  message : String
  hint : Option (List Char)

def badRequest (message : String) (hint : List Char) : ApiError :=
  ⟨400,"bad_request",message,some hint⟩

def MAX_CONFIG_PATH_DEPTH : Nat := 6

/-- `gen_config_path`, with the number of parts that are left. -/
def genConfigPath (delim : Char) : Nat → List Char → List (List Char)
  | 0, _ => []
  | _+1, [] => []
  | n+1, c :: s =>
    (c :: s).takeWhile (fun c => c ≠ delim) ::
      genConfigPath delim n (((c :: s).dropWhile (fun c => c ≠ delim)).drop 1)

/-- What a request brings: the body of a `PATCH`, or where it stops to be JSON, and what stands
behind `/api/config/` for the others. -/
inductive ConfigRequest where
  | patch (payload : Except (Option (List Char)) Json)
  | put (item : List Char)
  | delete (item : List Char)

/-- The candidate, and what is noted for later while it is made. -/
structure Edited where
  conf : Configuration
  changed : Bool
  dnsmasqChanged : Bool
  rewriteHosts : Bool
  privacyLevelDecreased : Bool
  invalidateSessions : Bool

def Edited.unchanged (copy : Configuration) : Edited := ⟨copy,false,false,false,false,false⟩

def MAX_CONFIG_VALUE_LEN : Nat := 1024

/-- `check_paths_equal` from the component with index `n` on. -/
def checkPathsEqual (maxLevel : Nat) : Nat → List (List Char) → List (List Char) → Bool
  | n, [], [] => 0 < n
  | n, p :: paths1, q :: paths2 =>
    maxLevel < n || (p = q && checkPathsEqual maxLevel (n+1) paths1 paths2)
  | n, _, _ => maxLevel < n

def afterSlashes : Nat → List Char → Option (List Char)
  | 0, s => some s
  | n+1, s =>
    match s.dropWhile (fun c => c ≠ '/') with
    | [] => none
    | _ :: r => afterSlashes n r

/-- The value asked for if the path leads to this item. A final slash belongs to the value only
for the lines of dnsmasq. -/
def requestedValue (item : List Char) (i : Item) : Option (List Char) :=
  let path := genConfigPath '/' MAX_CONFIG_PATH_DEPTH item
  let level := i.path.length
  if i.type = .jsonStringArray ∧ checkPathsEqual (level-1) 0 i.path path ∧ level+1 ≤ path.length then
    match afterSlashes level item with
    | none => none
    | some value =>
      let value := if value.getLast? = some '/' ∧ i ≠ .miscDnsmasqLines then value.dropLast else value
      if value = [] then none else some value
  else none

def requestedEntry (item : List Char) : Option (Item × List Char) :=
  Item.all.findSome? (fun i => (requestedValue item i).map (fun value => (i,value)))

def notFound : ApiError := ⟨404,"","",none⟩

/-- What the candidate is noted to have changed once an entry of `i` is changed. -/
def envVarError (i : Item) : ApiError :=
  badRequest "Config items set via environment variables cannot be changed via the API" i.key

def apiReadOnlyError (i : Item) : ApiError :=
  badRequest "This config option can only be set in lorentz.toml, through an environment variable or using lorentz --config, not via the API" i.key

def Edited.array (copy : Configuration) (i : Item) (l : List (List Char)) : Edited :=
  ⟨copy.set i (.strings l),true,i.has .restartLorentz,i = .dnsHosts,false,false⟩

namespace Platform

variable (P : Platform)

def patchItem (live : Configuration) (conf : Json) (s : Edited) (i : Item) :
    Except ApiError Edited :=
  match conf.getPath i.path with
  | none => .ok s
  | some elem =>
    if i.has .apiCliReadOnly ∧ elem.isTrue then
      .error (badRequest "This config option can only be set in lorentz.toml, not via the API" i.key)
    else if i.has .writeOnly ∧ elem.isText PASSWORD_VALUE then .ok s
    else
      match P.getJSONvalue live i elem s.conf with
      | .error response =>
        .error (badRequest "Config item is invalid" (i.key ++ ": ".toList ++ response))
      | .ok new =>
        -- a client may send the whole configuration back: only a change is refused
        if i.has .apiReadOnly ∧ i.type.same (new.value i) (live.value i) = false then
          .error (apiReadOnlyError i)
        else if new.envVar i ∧ i.type.same (new.value i) (live.value i) = false then
          .error (envVarError i)
        else if (i.type ≠ .password ∧ i.type.same (new.value i) (live.value i)) ∨
            (i.type = .password ∧ elem.isText PASSWORD_VALUE) then .ok { s with conf := new }
        else
          match P.check i (new.value i) with
          | some err => .error ⟨400,"bad_request","Config item validation failed",some err⟩
          | none =>
            .ok ⟨new,true,s.dnsmasqChanged || i.has .restartLorentz,s.rewriteHosts || i = .dnsHosts,
              s.privacyLevelDecreased ||
                (i = .miscPrivacylevel && (new.num i < live.num i)),
              s.invalidateSessions || i.has .invalidateSessions⟩

def patchItems (live : Configuration) (conf : Json) : List Item → Edited → Except ApiError Edited
  | [], s => .ok s
  | i :: is, s =>
    match P.patchItem live conf s i with
    | .error e => .error e
    | .ok s => patchItems live conf is s

def testCandidate (s : Edited) : Except ApiError Edited :=
  match validateConfigPaths s.conf with
  | some (_,err) => .error (badRequest "Invalid configuration" err)
  | none =>
    if s.dnsmasqChanged then
      match P.dnsmasqTest s.conf with
      | some err => .error (badRequest "Invalid configuration" err)
      | none => .ok s
    else .ok s

def patchEdit (live copy : Configuration) (conf : Json) : Except ApiError Edited :=
  match P.patchItems live conf Item.all (.unchanged copy) with
  | .error e => .error e
  | .ok s => if s.changed then P.testCandidate s else .ok s

def putEntry (copy : Configuration) (i : Item) (value : List Char) : Except ApiError Edited :=
  if value ∈ copy.strings i then
    .error (badRequest "Item already present" "Uniqueness of items is enforced".toList)
  else
    match P.check i (.strings (copy.strings i ++ [value])) with
    | some err => .error (badRequest "Invalid value" err)
    | none => .ok (Edited.array copy i (copy.strings i ++ [value]))

def deleteEntry (copy : Configuration) (i : Item) (value : List Char) : Except ApiError Edited :=
  if value ∈ copy.strings i then .ok (Edited.array copy i ((copy.strings i).erase value))
  else .error notFound

/-- `api_config_put_delete` from the copy on; `edit` is what the method does. -/
def putDeleteEdit (edit : Configuration → Item → List Char → Except ApiError Edited)
    (copy : Configuration) (item : List Char) : Except ApiError Edited :=
  match requestedEntry item with
  | none => .error notFound
  | some (i,value) =>
    if MAX_CONFIG_VALUE_LEN ≤ value.length then .error ⟨400,"bad_request","Item too long",none⟩
    else if copy.envVar i then
      .error (envVarError i)
    else if i.has .apiReadOnly then
      .error (apiReadOnlyError i)
    else
      match edit copy i value with
      | .error e => .error e
      | .ok s => P.testCandidate s

end Platform

def readOnlyError : ApiError :=
  ⟨403,"forbidden","The config is currently in read-only mode",none⟩

def putHint (item : ConfigRequest) : List Char :=
  match item with
  | .put _ =>
    "Use, e.g., PUT /api/config/dns/upstreams/127.0.0.1 to add \"127.0.0.1\" to config.dns.upstreams".toList
  | _ =>
    "Use, e.g., DELETE /api/config/dns/upstreams/127.0.0.1 to remove \"127.0.0.1\" from config.dns.upstreams".toList

def ConfigRequest.body : ConfigRequest → Option Json
  | .patch (.ok payload) =>
    match payload.getObjectItem "config".toList with
    | some (.obj l) => some (.obj l)
    | _ => none
  | _ => none

def ConfigRequest.precheck (r : ConfigRequest) (live : Configuration) : Option ApiError :=
  match r with
  | .patch (.error none) => some ⟨400,"bad_request","No request body data",none⟩
  | .patch (.error (some hint)) =>
    some (badRequest "Invalid request body data (no valid JSON), error at hint" hint)
  | .patch (.ok _) =>
    if r.body.isNone then some ⟨400,"body_error","No \"config\" object in body data",none⟩
    else if live.bool .miscReadOnly then some readOnlyError
    else none
  | .put item | .delete item =>
    if item = [] then some notFound
    else if live.bool .miscReadOnly then some readOnlyError
    else if (genConfigPath '/' MAX_CONFIG_PATH_DEPTH item).length < 2 then
      some (badRequest "Invalid path depth" (putHint r))
    else none

def Platform.edit (P : Platform) (r : ConfigRequest) (live copy : Configuration) :
    Except ApiError Edited :=
  match r with
  | .patch _ => P.patchEdit live copy (r.body.getD .null)
  | .put item => P.putDeleteEdit P.putEntry copy item
  | .delete item => P.putDeleteEdit Platform.deleteEntry copy item

def Json.names (conf : Json) (i : Item) : Bool := (conf.getPath i.path).isSome

def ConfigRequest.touches (r : ConfigRequest) (j : Item) : Bool :=
  match r with
  | .patch _ => Item.all.any (fun i => (r.body.getD .null).names i && i.sets j)
  | .put item | .delete item => (requestedEntry item).any (fun e => e.1 = j)

/-- `debug.all` is worked out from the items a request is about. -/
def ConfigRequest.alters (r : ConfigRequest) (i : Item) : Bool :=
  r.touches i || (i = .debugAll && Item.all.any (fun j => j.isDebug && r.touches j))

section

variable {P : Platform} {live copy : Configuration} {conf : Json} {s s' : Edited}

variable {i : Item} {edit : Configuration → Item → List Char → Except ApiError Edited} {elem : Json}
  {is : List Item} {new new' : Configuration} {value : List Char} {r : ConfigRequest}
  {item : List Char} {j : Item}

theorem Platform.getJSONvalue_keeps (h : P.getJSONvalue live i elem new = .ok new') :
    new.Keeps (fun j => i.sets j = false) new' := by
  unfold getJSONvalue at h
  split at h
  · cases h
  rename_i v hv
  split at h
  · rename_i ht
    split at h
    · cases h
      exact .refl _ _
    split at h
    · rename_i hp
      cases h
      simp only [setAndCheckPassword,Option.map_eq_some_iff] at hp
      obtain ⟨hash,-,rfl⟩ := hp
      exact .set new _ (by simp [Item.sets,ht])
    · cases h
  · rename_i ht
    cases h
    refine (Keeps.set new v (by simp [Item.sets,ht])).trans (.setAllDebug _ _ ?_)
    intro j hj
    simp [Item.sets,ht] at hj
    exact hj.2
  · cases h
    refine .set new v ?_
    unfold Item.sets
    split <;> simp_all

def Configuration.guarded (c : Configuration) (j : Item) : Bool := j.has .apiReadOnly || c.envVar j

/-- What becomes of one item of a request: it is skipped, has its value already, or is changed. -/
inductive Platform.Patches (P : Platform) (live : Configuration) (conf : Json) (i : Item)
    (s : Edited) : Edited → Prop where
  | skipped (h : ∀ elem, conf.getPath i.path = some elem → i.has .writeOnly = true) :
      Platform.Patches P live conf i s s
  | kept {elem : Json} {new : Configuration} (he : conf.getPath i.path = some elem)
      (hv : P.getJSONvalue live i elem s.conf = .ok new)
      (hs : i.type ≠ .password ∧ i.type.same (new.value i) (live.value i) = true ∨
        i.type = .password ∧ elem.isText PASSWORD_VALUE = true) :
      Platform.Patches P live conf i s { s with conf := new }
  | changed {elem : Json} {s' : Edited} (he : conf.getPath i.path = some elem)
      (hv : P.getJSONvalue live i elem s.conf = .ok s'.conf)
      (hg : s'.conf.guarded i = true → i.type.same (s'.conf.value i) (live.value i) = true)
      (hc : s'.changed = true)
      (hi : s'.invalidateSessions = (s.invalidateSessions || i.has .invalidateSessions)) :
      Platform.Patches P live conf i s s'

theorem Platform.patchItem_patches (h : P.patchItem live conf s i = .ok s') :
    P.Patches live conf i s s' := by
  unfold patchItem at h
  split at h
  · rename_i hnone
    cases h
    exact .skipped (by simp [hnone])
  rename_i he
  split_ifs at h with _ hw
  · cases h
    exact .skipped (fun _ _ => hw.1)
  split at h
  · cases h
  rename_i hv
  split_ifs at h with hr hn hs
  · cases h
    exact .kept he hv hs
  split at h
  · cases h
  cases h
  refine .changed he hv (fun hg => ?_) rfl rfl
  by_contra hne
  rw [Bool.not_eq_true] at hne
  rcases Bool.or_eq_true_iff.mp hg with hg | hg
  · exact hr ⟨hg,hne⟩
  · exact hn ⟨hg,hne⟩

theorem Platform.patchItem_keeps (h : P.patchItem live conf s i = .ok s') :
    s.conf.Keeps (fun j => conf.names i = true → i.sets j = false) s'.conf := by
  cases patchItem_patches h with
  | skipped _ => exact .refl _ _
  | kept he hv _ => exact (getJSONvalue_keeps hv).mono (fun j hj => hj (by simp [Json.names,he]))
  | changed he hv _ _ _ =>
    exact (getJSONvalue_keeps hv).mono (fun j hj => hj (by simp [Json.names,he]))

theorem Platform.patchItems_keeps (h : P.patchItems live conf is s = .ok s') :
    s.conf.Keeps (fun j => ∀ i ∈ is, conf.names i = true → i.sets j = false) s'.conf := by
  induction is generalizing s with
  | nil =>
    cases h
    exact .refl _ _
  | cons i is ih =>
    unfold patchItems at h
    split at h
    · cases h
    rename_i hs
    refine ((patchItem_keeps hs).mono ?_).trans ((ih h).mono ?_)
    · exact fun j hj => hj i (by simp)
    · exact fun j hj k hk => hj k (by simp [hk])

theorem Platform.testCandidate_ok (h : P.testCandidate s = .ok s') : s' = s := by
  unfold testCandidate at h
  split at h
  · cases h
  split at h
  · split at h
    · cases h
    · cases h
      rfl
  · cases h
    rfl

theorem Platform.edit_patchItems {payload : Except (Option (List Char)) Json}
    (h : P.edit (.patch payload) live copy = .ok s) :
    P.patchItems live ((ConfigRequest.patch payload).body.getD .null) Item.all (.unchanged copy) =
      .ok s := by
  simp only [edit,patchEdit] at h
  split at h
  · cases h
  split at h
  · rwa [testCandidate_ok h]
  · cases h
    assumption

theorem Platform.putDeleteEdit_keeps
    (hedit : ∀ i value s, edit copy i value = .ok s → ∃ l, s = Edited.array copy i l)
    (h : P.putDeleteEdit edit copy item = .ok s) :
    copy.Keeps (fun j => (requestedEntry item).any (fun e => e.1 = j) = false) s.conf := by
  unfold putDeleteEdit at h
  split at h
  · cases h
  rename_i i value he
  split_ifs at h
  split at h
  · cases h
  rename_i s₁ hs
  obtain ⟨l,rfl⟩ := hedit i value s₁ hs
  rw [testCandidate_ok h]
  exact .set copy _ (by simp [he])

theorem Platform.putEntry_ok (h : P.putEntry copy i value = .ok s) :
    ∃ l, s = Edited.array copy i l := by
  unfold putEntry at h
  split at h
  · cases h
  split at h
  · cases h
  · cases h
    exact ⟨_,rfl⟩

theorem Platform.deleteEntry_ok (h : deleteEntry copy i value = .ok s) :
    ∃ l, s = Edited.array copy i l := by
  unfold deleteEntry at h
  split at h
  · cases h
    exact ⟨_,rfl⟩
  · cases h

theorem Platform.edit_keeps (h : P.edit r live copy = .ok s) :
    copy.Keeps (fun j => r.touches j = false) s.conf := by
  cases r with
  | patch payload =>
    refine (patchItems_keeps (edit_patchItems h)).mono ?_
    intro j hj i hi hn
    simp only [ConfigRequest.touches,List.any_eq_false] at hj
    simpa [hn] using hj i hi
  | put item => exact putDeleteEdit_keeps (fun _ _ _ => putEntry_ok) h
  | delete item => exact putDeleteEdit_keeps (fun _ _ _ => deleteEntry_ok) h

def Json.aliases (conf : Json) (j : Item) : Bool :=
  Item.all.any (fun i => i ≠ j && conf.names i && i.sets j)

theorem ConfType.eq_of_same {t : ConfType} (ht : t ≠ .password) {v v' : ConfVal}
    (h : t.same v v' = true) : v = v' := by
  unfold same at h
  split at h
  · exact absurd rfl ht
  · simpa using h

theorem Platform.patchItem_guarded {i j : Item} (hj : s.conf.guarded j = true)
    (ht : j.type ≠ .password) (ha : conf.aliases j = false) (hv : s.conf.value j = live.value j)
    (h : P.patchItem live conf s i = .ok s') : s'.conf.value j = live.value j := by
  by_cases hij : i = j
  · subst hij
    cases patchItem_patches h with
    | skipped _ => exact hv
    | kept _ _ hs => exact ConfType.eq_of_same ht (by simpa [ht] using hs)
    | changed _ hn hg _ _ =>
      refine ConfType.eq_of_same ht (hg ?_)
      rw [guarded,(getJSONvalue_keeps hn).envVar]
      exact hj
  · rw [(patchItem_keeps h).value j ?_,hv]
    intro hn
    simp only [Json.aliases,List.any_eq_false] at ha
    simpa [hij,hn] using ha i (Item.mem_all i)

theorem Platform.patchItems_guarded (hj : s.conf.guarded j = true) (ht : j.type ≠ .password)
    (ha : conf.aliases j = false) (hv : s.conf.value j = live.value j)
    (h : P.patchItems live conf is s = .ok s') : s'.conf.value j = live.value j := by
  induction is generalizing s with
  | nil =>
    cases h
    exact hv
  | cons i is ih =>
    unfold patchItems at h
    split at h
    · cases h
    rename_i hs
    refine ih ?_ (patchItem_guarded hj ht ha hv hs) h
    rw [guarded,(patchItem_keeps hs).envVar]
    exact hj

theorem Platform.putDeleteEdit_guarded
    (hedit : ∀ i value s, edit copy i value = .ok s → ∃ l, s = Edited.array copy i l)
    (hj : copy.guarded j = true) (h : P.putDeleteEdit edit copy item = .ok s) :
    s.conf.value j = copy.value j := by
  refine (putDeleteEdit_keeps hedit h).value j ?_
  unfold putDeleteEdit at h
  split at h
  · cases h
  rename_i i value he
  split_ifs at h with h1 h2 h3
  have hne : i ≠ j := by
    rintro rfl
    simp [guarded,h2,h3] at hj
  simp [he,hne]

def ConfigRequest.aliases (r : ConfigRequest) (j : Item) : Bool := (r.body.getD .null).aliases j

theorem Platform.edit_guarded (hj : live.guarded j = true) (ht : j.type ≠ .password)
    (ha : r.aliases j = false) (h : P.edit r live live = .ok s) :
    s.conf.value j = live.value j := by
  cases r with
  | patch payload =>
    exact patchItems_guarded (s := .unchanged live) hj ht ha rfl (edit_patchItems h)
  | put item => exact putDeleteEdit_guarded (fun _ _ _ => putEntry_ok) hj h
  | delete item => exact putDeleteEdit_guarded (fun _ _ _ => deleteEntry_ok) hj h

def Item.plain (i : Item) : Bool :=
  i.type ≠ .password && i.type ≠ .allDebugBool && !i.isDebug && i ≠ .webserverApiPwhash &&
    !i.has .writeOnly

theorem Item.sets_plain {i j : Item} (hi : i.plain = true) (hj : j.sets i = true) : j = i := by
  simp [Item.plain] at hi
  unfold Item.sets at hj
  split at hj <;> simp_all

theorem Platform.getJSONvalue_plain (hi : i.plain = true)
    (h : P.getJSONvalue live i elem new = .ok new') :
    P.jsonValue i.type elem = .ok (new'.value i) := by
  simp [Item.plain] at hi
  unfold getJSONvalue at h
  split at h
  · cases h
  rename_i hv
  split at h
  · simp_all
  · simp_all
  · cases h
    rw [hv,set_value_self]

/-- The candidate has the value of an item that was asked for; unless a change is noted it is that
of the running configuration. -/
def Edited.Gives (P : Platform) (live : Configuration) (i : Item) (elem : Json) (s : Edited) : Prop :=
  P.jsonValue i.type elem = .ok (s.conf.value i) ∧
    (s.changed = false → s.conf.value i = live.value i)

theorem Platform.patchItem_gives (hi : i.plain = true) (he : conf.getPath i.path = some elem)
    (h : P.patchItem live conf s i = .ok s') : s'.Gives P live i elem := by
  have hw : i.type ≠ .password ∧ i.has .writeOnly = false := by
    simp [Item.plain] at hi
    simp [hi]
  cases patchItem_patches h with
  | skipped hskip => simp [hw] at hskip; exact absurd he (hskip elem)
  | kept he' hv hs =>
    obtain rfl := Option.some.inj (he.symm.trans he')
    exact ⟨getJSONvalue_plain hi hv,fun _ => ConfType.eq_of_same hw.1 (by simpa [hw] using hs)⟩
  | changed he' hv _ hc _ =>
    obtain rfl := Option.some.inj (he.symm.trans he')
    exact ⟨getJSONvalue_plain hi hv,by simp [hc]⟩

theorem Platform.patchItem_changed (h : P.patchItem live conf s i = .ok s') (hs : s.changed = true) :
    s'.changed = true := by
  cases patchItem_patches h with
  | skipped _ | kept _ _ _ => exact hs
  | changed _ _ _ hc _ => exact hc

theorem Platform.patchItems_gives (hi : i.plain = true) (he : conf.getPath i.path = some elem)
    (h : P.patchItems live conf is s = .ok s') (hs : i ∈ is ∨ s.Gives P live i elem) :
    s'.Gives P live i elem := by
  induction is generalizing s with
  | nil =>
    cases h
    simpa using hs
  | cons j is ih =>
    unfold patchItems at h
    split at h
    · cases h
    rename_i s₁ hs₁
    refine ih h ?_
    by_cases hj : j = i
    · subst hj
      exact .inr (patchItem_gives hi he hs₁)
    have hk : s₁.conf.value i = s.conf.value i := by
      refine (patchItem_keeps hs₁).value i (fun _ => ?_)
      rw [← Bool.not_eq_true]
      exact fun hset => hj (Item.sets_plain hi hset)
    rcases hs with hs | hs
    · exact .inl (by simpa [Ne.symm hj] using hs)
    refine .inr ⟨by rw [hk]; exact hs.1,fun hc => ?_⟩
    rw [hk]
    refine hs.2 ?_
    rw [← Bool.not_eq_true] at hc ⊢
    exact fun hc' => hc (patchItem_changed hs₁ hc')

theorem Platform.edit_patch {payload : Except (Option (List Char)) Json} {i : Item} {elem : Json}
    (hi : i.plain = true)
    (he : ((ConfigRequest.patch payload).body.getD .null).getPath i.path = some elem)
    (h : P.edit (.patch payload) live copy = .ok s) : s.Gives P live i elem :=
  patchItems_gives hi he (edit_patchItems h) (.inl (Item.mem_all i))

end

end Lorentz
