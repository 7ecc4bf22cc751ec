import Lorentz.Teleporter

/-!
Items forced by the environment: a valid variable gives its item a value at start-up, and which
steps of a run keep it.
-/

set_option autoImplicit false

namespace Lorentz
open Lorentz.Configuration Platform

def Passwords.accepts (W : Passwords) (password pwhash : List Char) : Bool :=
  (password = [] && pwhash = []) ||
    (pwhash ≠ [] && password ≠ [] && W.verifyPassword password pwhash)

namespace Site

variable (S : Site)

/-- The value that a valid variable gives its item; the password is a case of its own. -/
def forcedValue (i : Item) : Option ConfVal :=
  if i.type = .password then none
  else ((S.env i).bind (S.platform.envValue i.type)).filter (fun v => (S.platform.check i v).isNone)

def forcedPassword : Option (List Char) :=
  (S.env .webserverApiPassword).filter (fun s =>
    S.platform.passwords.accepts s (if s = [] then [] else S.platform.passwords.createPassword s))

structure Obeys (c : Configuration) : Prop where
  value : ∀ i v, S.forcedValue i = some v → c.value i = v
  password : ∀ s, S.forcedPassword = some s →
    S.platform.passwords.accepts s (c.text .webserverApiPwhash) = true

variable {S} {i : Item} {v : ConfVal}

theorem forcedValue_eq (h : S.forcedValue i = some v) :
    i.type ≠ .password ∧ (∃ s, S.env i = some s ∧ S.platform.envValue i.type s = some v) ∧
      S.platform.check i v = none := by
  unfold forcedValue at h
  split at h
  · cases h
  · rename_i ht
    simp only [Option.filter_eq_some_iff,Option.bind_eq_some_iff,Option.isNone_iff_eq_none] at h
    exact ⟨ht,h.1,h.2⟩

theorem forcedValue_debugAll (h : S.forcedValue .debugAll = some v) : ∃ b, v = .bool b := by
  obtain ⟨-,⟨s,-,hv⟩,-⟩ := forcedValue_eq h
  change envBool s = some v at hv
  unfold envBool at hv
  split_ifs at hv <;> cases hv <;> exact ⟨_,rfl⟩

variable (S)

/-- What a file makes of a forced item: out of an archive it has to be the forced value, with the
environment it is; `debug.all` gives a forced debug item no other value and is not changed by the
others; no older form replaces it; and not both password and hash are set. -/
def itemKeeps (live : Option Configuration) (src : TomlSource) (c : Configuration) (i : Item)
    (v : ConfVal) : Bool :=
  let P := S.platform
  if i = .debugAll then
    P.allDebug src = some v.toBool ||
      (P.allDebug src = none &&
        Item.all.all (fun j => !j.isDebug || P.reading live src c j = c.value j))
  else
    (!src.teleporter || P.reading live src c i = v) &&
      (!i.isDebug ||
        match P.allDebug src with
        | none => true
        | some true => v = .bool true
        | some false =>
          v = .bool false || Item.all.any (fun j => j.isDebug && !(P.reading live src c j).toBool)) &&
      (i ≠ .dnsRevServers || (Platform.oldRevServer src.doc).isNone) &&
      (i ≠ .dnsDomainName || (Platform.oldDomain src.doc).isNone) &&
      (i ≠ .webserverApiPwhash || src.teleporter || (src.env .webserverApiPassword).isNone)

/-- What a file makes of the forced items; the hash in a file read again still belongs to the
forced password. -/
def readKeeps (live : Option Configuration) (src : TomlSource) (c : Configuration) : Bool :=
  Item.all.all (fun i => (S.forcedValue i).all (S.itemKeeps live src c i)) &&
    S.forcedPassword.all (fun s => (live.isNone && !src.teleporter) ||
      S.platform.passwords.accepts s (S.platform.reading live src c .webserverApiPwhash).toText)

variable {S} {live : Option Configuration} {src : TomlSource} {c : Configuration}

theorem readEnvValue_forced {s : List Char} {live : Configuration} (hd : i ≠ .debugAll)
    (ht : i.type ≠ .password) (hv : S.platform.envValue i.type s = some v)
    (hc : S.platform.check i v = none) :
    S.platform.readEnvValue live i s c = some (c.set i v) := by
  have ha : i.type ≠ .allDebugBool := fun h => hd (Item.eq_debugAll h)
  unfold readEnvValue
  rw [hv]
  simp [hc]

theorem reading_forced (ht : src.teleporter = false) (he : src.env = S.env)
    (h : S.forcedValue i = some v) (hd : i ≠ .debugAll) :
    S.platform.reading live src c i = v := by
  obtain ⟨hp,⟨s,hs,hv⟩,hc⟩ := forcedValue_eq h
  simp [reading,readItem,ht,he,hs,readEnvValue_forced hd hp hv hc,
    flagEnv]

theorem allDebug_forced (ht : src.teleporter = false) (he : src.env = S.env)
    (h : S.forcedValue .debugAll = some v) : S.platform.allDebug src = some v.toBool := by
  obtain ⟨-,⟨s,hs,hv⟩,-⟩ := forcedValue_eq h
  change envBool s = some v at hv
  simp [allDebug,ht,he,hs,hv]

def Reads (S : Site) (src : TomlSource) : Prop := src.teleporter = true ∨ src.env = S.env

theorem reading_keeps (hr : S.Reads src) (h : S.forcedValue i = some v) (hd : i ≠ .debugAll)
    (hk : S.itemKeeps live src c i v = true) : S.platform.reading live src c i = v := by
  simp only [itemKeeps,hd,if_false,Bool.and_eq_true] at hk
  rcases hr with ht | he
  · simpa [ht] using hk.1.1.1.1
  · cases ht : src.teleporter with
    | false => exact reading_forced ht he h hd
    | true => simpa [ht] using hk.1.1.1.1

theorem readItems_debug_forced (hr : S.Reads src) (hi : i.isDebug = true)
    (h : S.forcedValue i = some v) (hk : S.itemKeeps live src c i v = true) :
    (S.platform.readItems live src c).value i = v := by
  have hd : i ≠ .debugAll := by
    rintro rfl
    revert hi
    decide
  obtain ⟨front,hf,hv⟩ := S.platform.readItems_debug live src c
  have hi' : front.value i = v := by rw [hf i hi,reading_keeps hr h hd hk]
  simp only [itemKeeps,hd,if_false,hi,Bool.and_eq_true] at hk
  have hdebug := hk.1.1.1.2
  rw [hv i hi]
  cases ha : S.platform.allDebug src with
  | none => exact hi'
  | some b =>
    rw [ha] at hdebug
    cases b with
    | true =>
      simp at hdebug
      rw [Option.elim_some,front.setAllDebug_true_value hi,hdebug]
    | false =>
      rw [Option.elim_some,front.setAllDebug_false_value hi,hi']
      split
      · rename_i hall
        simp at hdebug
        rcases hdebug with hdebug | ⟨j,hj,hn⟩
        · exact hdebug.symm
        · simp only [allDebugSet,List.all_eq_true] at hall
          have := hall j (Item.mem_all j)
          simp [hj,Configuration.bool,hf j hj,hn] at this
      · rfl

theorem readItems_allDebugSet {b : Bool}
    (hc : S.platform.allDebug src = none → c.Synced ∧ c.value .debugAll = .bool b)
    (hk : S.itemKeeps live src c .debugAll (.bool b) = true) :
    (S.platform.readItems live src c).allDebugSet = b := by
  obtain ⟨front,hf,hv⟩ := S.platform.readItems_debug live src c
  rw [allDebugSet_congr hv]
  simp only [itemKeeps,if_true,Bool.or_eq_true,Bool.and_eq_true,decide_eq_true_eq] at hk
  rcases hk with ha | ⟨ha,hall⟩
  · rw [ha]
    cases b with
    | true =>
      simp only [Option.elim_some,allDebugSet,List.all_eq_true]
      intro j _
      cases hj : j.isDebug with
      | false => rfl
      | true => simp [Configuration.bool,ConfVal.toBool,front.setAllDebug_true_value hj]
    | false => exact front.allDebugSet_setAllDebug_false
  rw [ha,Option.elim_none]
  obtain ⟨hs,ho⟩ := hc ha
  have hc : front.allDebugSet = c.allDebugSet := by
    apply allDebugSet_congr
    intro j hj
    rw [hf j hj]
    simp only [List.all_eq_true] at hall
    simpa [hj] using hall j (Item.mem_all j)
  rw [Synced,ho] at hs
  rw [hc]
  exact (ConfVal.bool.inj hs).symm

theorem hashed_accepts {s : List Char} {c' : Configuration}
    (hr : src.teleporter = true ∨ src.env = S.env) (h : S.forcedPassword = some s)
    (hk : live = none ∧ src.teleporter = false ∨
      S.platform.passwords.accepts s (c'.text .webserverApiPwhash) = true) :
    S.platform.passwords.accepts s (S.platform.hashed live src c').toText = true := by
  simp only [forcedPassword,Option.filter_eq_some_iff] at h
  obtain ⟨hs,hcreate⟩ := h
  cases ht : src.teleporter with
  | true =>
    simpa [hashed,ht,Configuration.text] using hk
  | false =>
    simp only [ht,Bool.false_eq_true,false_or] at hr
    simp only [hashed,ht,hr,hs,Bool.false_eq_true,if_false,setAndCheckPassword,
      Passwords.setAndCheckPassword]
    split_ifs with h1 h2 h3
    · -- the running hash belongs to the password, and the one that was read stays
      simp only [Option.map_some,Option.getD_some,set_value_self,ConfVal.toText]
      rcases hk with ⟨rfl,-⟩ | hk
      · simpa [Passwords.accepts,and_assoc] using h1
      · exact hk
    · simp [h2,Passwords.accepts,ConfVal.toText]
    · simpa [h2,ConfVal.toText] using hcreate
    · simp only [h2,if_false,Passwords.accepts] at hcreate
      simp_all

theorem readItems_sole_or (hr : S.Reads src) (h : S.forcedValue i = some v) (hd : i ≠ .debugAll)
    (hk : S.itemKeeps live src c i v = true) : (S.platform.readItems live src c).value i = v := by
  by_cases hi : i.isDebug = true
  · exact readItems_debug_forced hr hi h hk
  by_cases hw : i = .webserverApiPwhash
  · obtain ⟨c',hc,hv⟩ := S.platform.readItems_pwhash live src c
    have hread := reading_keeps hr h hd hk
    subst hw
    simp only [itemKeeps,hd,if_false,Bool.and_eq_true] at hk
    have hboth : src.teleporter = true ∨ src.env .webserverApiPassword = none := by
      simpa using hk.2
    rw [hv,← hread,← hc]
    unfold hashed
    rcases hboth with ht | he
    · simp [ht]
    · simp [he]
  · have hs : i.sole = true := by
      have ha : i.type ≠ .allDebugBool := fun ht => hd (Item.eq_debugAll ht)
      simp [Item.sole,(forcedValue_eq h).1,ha,hi,hw]
    rw [readItems_sole hs,reading_keeps hr h hd hk]

theorem readDocument_obeys (hr : S.Reads src) (hk : S.readKeeps live src c = true)
    (hc : ∀ v, S.forcedValue .debugAll = some v → S.platform.allDebug src = none →
      c.Synced ∧ c.value .debugAll = v) :
    S.Obeys (S.platform.readDocument live src c) := by
  simp only [readKeeps,Bool.and_eq_true,List.all_eq_true] at hk
  obtain ⟨hitems,hpassword⟩ := hk
  have hkeep : ∀ i v, S.forcedValue i = some v → S.itemKeeps live src c i v = true := by
    intro i v h
    simpa [h] using hitems i (Item.mem_all i)
  have hmigrate : ∀ j : Item, j ≠ .dnsRevServers → j ≠ .dnsDomainName →
      (migrateConfig src.doc (S.platform.readItems live src c)).value j =
        (S.platform.readItems live src c).value j :=
    fun j hj hj' => (migrateConfig_keeps _ _).value j ⟨.inl hj,.inl hj'⟩
  refine ⟨fun i v h => ?_,fun s h => ?_⟩
  · have hi := hkeep i v h
    rw [readDocument_eq]
    by_cases hd : i = .debugAll
    · subst hd
      obtain ⟨b,rfl⟩ := forcedValue_debugAll h
      have hdebug : ∀ j : Item, j.isDebug = true →
          (migrateConfig src.doc (S.platform.readItems live src c)).value j =
            (S.platform.readItems live src c).value j := by
        intro j hj
        refine hmigrate j ?_ ?_ <;> rintro rfl <;> revert hj <;> decide
      rw [setDebugFlags,set_value_self,
        allDebugSet_congr hdebug,readItems_allDebugSet (hc _ h) hi]
    · rw [setDebugFlags_value_of_ne _ hd,
        (migrateConfig_keeps _ _).value i ?_,readItems_sole_or hr h hd hi]
      simp only [itemKeeps,hd,if_false,Bool.and_eq_true] at hi
      exact ⟨by simpa using hi.1.1.2,by simpa using hi.1.2⟩
  · obtain ⟨c',hv,hp⟩ := S.platform.readItems_pwhash live src c
    rw [Configuration.text,readDocument_eq,
      setDebugFlags_value_of_ne _ (by decide),hmigrate _ (by decide) (by decide),hp]
    refine hashed_accepts hr h ?_
    rw [Configuration.text,hv]
    simpa [h,and_comm] using hpassword

/-- The forced items have their values and their flags, and `debug.all` is worked out. -/
structure Keeping (S : Site) (c : Configuration) : Prop where
  obeys : S.Obeys c
  flagged : ∀ i v, S.forcedValue i = some v → c.envVar i = true
  synced : c.Synced

variable {c' : Configuration}

theorem Obeys.of_values (h : S.Obeys c)
    (hv : ∀ i v, S.forcedValue i = some v → c'.value i = c.value i)
    (hp : ∀ s, S.forcedPassword = some s →
      c'.value .webserverApiPwhash = c.value .webserverApiPwhash) : S.Obeys c' where
  value i v hi := (hv i v hi).trans (h.value i v hi)
  password s hs := by
    rw [Configuration.text,hp s hs]
    exact h.password s hs

def tidy (S : Site) : Bool :=
  (S.forcedValue .dnsHosts).all (fun v => .strings (v.toStrings.map sanitizeEntry) = v)

theorem Keeping.sanitize (h : S.Keeping c) (ht : S.tidy = true) :
    S.Keeping c.sanitizeDnsHosts where
  obeys := by
    refine h.obeys.of_values ?_ (fun _ _ => c.set_value_of_ne (by decide) _)
    intro i v hi
    by_cases hd : i = .dnsHosts
    · subst hd
      have hv := h.obeys.value _ v hi
      rw [sanitizeDnsHosts,set_value_self,strings,hv]
      simpa [tidy,hi] using ht
    · exact c.set_value_of_ne hd _
  flagged := h.flagged
  synced := h.synced.set (by decide) (by decide) _

def filesApart (S : Site) (webroot : ConfVal) : Bool :=
  writtenFiles.all (fun i => (S.forcedValue i).all (fun v =>
    (normalWebroot webroot.toText).all (fun wnorm => !conflicts wnorm v.toText)))

theorem check_stub (P : Platform) {j : Item} (hj : j.validator = .stub) (v : ConfVal) :
    P.check j v = none := by
  simp [check,hj]

theorem resetConfig_stub (P : Platform) {j : Item} (hj : j.validator = .stub)
    (hf : j ∉ writtenFiles) (c : Configuration) : (P.resetConfig c).value j = c.value j :=
  P.resetConfig_value (check_stub P hj _) hf

theorem resetConfig_synced (P : Platform) (h : c.Synced) : (P.resetConfig c).Synced := by
  have hall : ∀ j ∈ Item.all, j.isDebug = true → j.validator = .stub ∧ j ∉ writtenFiles := by
    decide +kernel
  have hdebug : (P.resetConfig c).allDebugSet = c.allDebugSet := by
    apply allDebugSet_congr
    intro j hj
    obtain ⟨hs,hf⟩ := hall j (Item.mem_all j) hj
    exact resetConfig_stub P hs hf c
  rw [Synced,hdebug,resetConfig_stub P rfl (by decide)]
  exact h

theorem resetConfig_forced (h : S.Obeys c) (hr : S.filesApart (c.value .webserverPathsWebroot) = true)
    (hd : S.filesApart (Item.dflt .webserverPathsWebroot) = true) (hi : S.forcedValue i = some v) :
    (S.platform.resetConfig c).value i = v := by
  have hv := h.value i v hi
  have hc := (forcedValue_eq hi).2.2
  by_cases hf : i ∈ writtenFiles
  · have hw : i ≠ .webserverPathsWebroot := by
      rintro rfl
      revert hf
      decide
    have hapart : ∀ w, S.filesApart w = true → ∀ wnorm, normalWebroot w.toText = some wnorm →
        conflicts wnorm v.toText = false := by
      intro w hw wnorm hn
      simp only [filesApart,List.all_eq_true] at hw
      simpa [hi,hn] using hw i hf
    have hval : (S.platform.resetInvalid c).value i = v := by
      rw [resetInvalid_value (by rw [hv,hc]),hv]
    obtain ⟨wnorm,hn⟩ := Option.isSome_iff_exists.1
      (normalWebroot_of_check (S.platform.resetInvalid_check (c := c) S.platform.check_webroot_dflt))
    rw [resetConfig,resolveConfigPaths_file _ hn hw,hval]
    rw [Configuration.text,hval]
    by_cases hroot : S.platform.check .webserverPathsWebroot (c.value .webserverPathsWebroot) = none
    · rw [Configuration.text,resetInvalid_value hroot] at hn
      exact hapart _ hr wnorm hn
    have hreset : (S.platform.resetInvalid c).value .webserverPathsWebroot =
        Item.dflt .webserverPathsWebroot := by
      simp [resetInvalid,hroot]
    rw [Configuration.text,hreset] at hn
    exact hapart _ hd wnorm hn
  · rw [S.platform.resetConfig_value (by rw [hv,hc]) hf,hv]

theorem Keeping.reset (h : S.Keeping c)
    (hr : S.filesApart (c.value .webserverPathsWebroot) = true)
    (hd : S.filesApart (Item.dflt .webserverPathsWebroot) = true) :
    S.Keeping (S.platform.resetConfig c) where
  obeys := by
    refine h.obeys.of_values ?_ (fun _ _ => resetConfig_stub _ rfl (by decide) c)
    exact fun i v hi => (resetConfig_forced h.obeys hr hd hi).trans (h.obeys.value i v hi).symm
  flagged i v hi := by
    rw [resetConfig,resolveConfigPaths_envVar]
    exact h.flagged i v hi
  synced := resetConfig_synced _ h.synced

theorem readEnvValue_isSome {s : List Char} (h : S.forcedValue i = some v) (hs : S.env i = some s)
    (live c : Configuration) : (S.platform.readEnvValue live i s c).isSome = true := by
  obtain ⟨hp,⟨s',hs',hv⟩,hc⟩ := forcedValue_eq h
  obtain rfl : s' = s := Option.some.inj (hs'.symm.trans hs)
  by_cases hd : i = .debugAll
  · subst hd
    unfold readEnvValue
    rw [hv]
    rfl
  · rw [readEnvValue_forced hd hp hv hc]
    rfl

/-- A file that is read with the environment keeps the forced items, also when the paths
are put right. -/
def fileKeeps (S : Site) (live : Option Configuration) (src : TomlSource) (c : Configuration) :
    Bool :=
  S.readKeeps live src c &&
    S.filesApart (S.platform.reading live src c .webserverPathsWebroot) &&
    S.filesApart (Item.dflt .webserverPathsWebroot)

theorem readDocument_webroot (P : Platform) (live : Option Configuration) (src : TomlSource)
    (c : Configuration) : (P.readDocument live src c).value .webserverPathsWebroot =
      P.reading live src c .webserverPathsWebroot := by
  rw [readDocument_eq,setDebugFlags_value_of_ne _ (by decide),
    (migrateConfig_keeps _ _).value _ ⟨.inl (by decide),.inl (by decide)⟩,
    readItems_sole (by decide)]

theorem keeping_of_file (ht : src.teleporter = false) (he : src.env = S.env)
    (hk : S.fileKeeps live src c = true) :
    S.Keeping (S.platform.resetConfig (S.platform.readDocument live src c)) := by
  simp only [fileKeeps,Bool.and_eq_true] at hk
  refine Keeping.reset ⟨?_,?_,synced_setDebugFlags _⟩ ?_ hk.2
  · refine readDocument_obeys (.inr he) hk.1.1 ?_
    intro v hv ha
    rw [allDebug_forced ht he hv] at ha
    cases ha
  · intro i v hi
    obtain ⟨-,⟨s,hs,-⟩,-⟩ := forcedValue_eq hi
    exact readDocument_flags ht (by rw [he,hs])
      (fun c => readEnvValue_isSome hi hs _ c) c
  · rw [readDocument_webroot]
    exact hk.1.2

theorem Keeping.archive (h : S.Keeping c) (ht : src.teleporter = true)
    (hk : S.readKeeps live src c = true) : S.Keeping (S.platform.readDocument live src c) where
  obeys := readDocument_obeys (.inl ht) hk (fun v hv _ => ⟨h.synced,h.obeys.value _ v hv⟩)
  flagged i v hi := readDocument_flagged (h.flagged i v hi)
  synced := synced_setDebugFlags _

end Site

namespace Host

variable {S : Site} {h : Host}

theorem write_keeping (hk : S.Keeping h.config) (ht : S.tidy = true) (header : List Char) :
    S.Keeping (h.write header).config := by
  simp only [write,writeLorentztoml]
  split_ifs
  · exact hk
  · exact hk.sanitize ht
  · exact hk.sanitize ht

/-- The request names no item that sets a forced one, no debug item while `debug.all` is forced,
and not the hash while the password is. -/
def editKeeps (S : Site) (r : ConfigRequest) : Bool :=
  Item.all.all (fun i => (S.forcedValue i).isNone ||
      (!r.aliases i && (i ≠ .debugAll || !r.alters .debugAll))) &&
    (S.forcedPassword.isNone || !r.touches .webserverApiPwhash)

theorem editConfig_keeping (hk : S.Keeping h.config) (ht : S.tidy = true) {r : ConfigRequest}
    (he : editKeeps S r = true) (header : List Char) :
    S.Keeping (h.editConfig S r header).config := by
  simp only [editKeeps,Bool.and_eq_true,List.all_eq_true] at he
  obtain ⟨hitems,hpassword⟩ := he
  unfold editConfig
  split
  · exact hk
  split
  · exact hk
  rename_i s hs
  split
  · have hkeep := Platform.edit_keeps hs
    refine write_keeping (h := { h with config := s.conf.setDebugFlags })
      ⟨hk.obeys.of_values ?_ ?_,?_,synced_setDebugFlags _⟩ ht header
    · intro i v hi
      have hitem : r.aliases i = false ∧ (i = .debugAll → r.alters .debugAll = false) := by
        have := hitems i (Item.mem_all i)
        simp [hi] at this
        exact ⟨this.1,fun hd => this.2.resolve_left (by simp [hd])⟩
      by_cases hd : i = .debugAll
      · subst hd
        -- no debug item is touched, so that `debug.all` comes out as it was
        have hall : s.conf.allDebugSet = h.config.allDebugSet := by
          apply allDebugSet_congr
          intro j hj
          apply hkeep.value
          have halter := hitem.2 rfl
          simp only [ConfigRequest.alters,Bool.or_eq_false_iff,decide_true,Bool.true_and,
            List.any_eq_false] at halter
          simpa [hj] using halter.2 j (Item.mem_all j)
        rw [setDebugFlags,set_value_self,hall]
        exact hk.synced.symm
      · rw [setDebugFlags_value_of_ne _ hd]
        refine Platform.edit_guarded ?_ (Site.forcedValue_eq hi).1 hitem.1 hs
        simp [guarded,hk.flagged i v hi]
    · intro password hp
      exact hkeep.value _ (by simpa [hp] using hpassword)
    · intro i v hi
      rw [setDebugFlags_envVar,hkeep.envVar]
      exact hk.flagged i v hi
  · exact hk

def memberKeeps (S : Site) (selection : Option Json) (h : Host) : ZipMember → Bool
  | .lorentzToml (.ok doc) =>
    !selects selection "config" ||
      S.readKeeps (some h.config) ⟨doc,[],fun _ => none,true,false⟩ h.config
  | _ => true

def zipKeeps (S : Site) (selection : Option Json) (header : List Char) :
    List ZipMember → Host → Bool
  | [], _ => true
  | m :: members, h =>
    memberKeeps S selection h m &&
      match h.importMember S selection header m with
      | .error _ => true
      | .ok h => zipKeeps S selection header members h

theorem importMember_keeping {h' : Host} {selection : Option Json} {header : List Char}
    {m : ZipMember} (hk : S.Keeping h.config) (ht : S.tidy = true)
    (hm : memberKeeps S selection h m = true)
    (hi : h.importMember S selection header m = .ok h') : S.Keeping h'.config := by
  obtain ⟨hc,-⟩ | ⟨doc,rfl,hsel,rfl⟩ := importMember_cases hi
  · rwa [hc]
  · simp [memberKeeps,hsel] at hm
    exact write_keeping (h := { h with config := _ }) (hk.archive rfl hm) ht header

theorem readTeleporterZip_keeping {selection : Option Json} {header : List Char}
    {members : List ZipMember} (hk : S.Keeping h.config) (ht : S.tidy = true)
    (hz : zipKeeps S selection header members h = true) :
    S.Keeping (readTeleporterZip S selection header members h).1.config := by
  induction members generalizing h with
  | nil => exact hk
  | cons m members ih =>
    unfold zipKeeps at hz
    unfold readTeleporterZip
    simp only [Bool.and_eq_true] at hz
    cases hi : h.importMember S selection header m with
    | error e => exact hk
    | ok h' =>
      rw [hi] at hz
      exact ih (importMember_keeping hk ht hz.1 hi) hz.2

def legacyKeeps (S : Site) (h : Host) (i : Item) : Bool :=
  (h.lorentzConf.isNone ||
      (i ∉ LegacyKey.allSets lorentzconfKeys && !i.isDebug && i ≠ .debugAll)) &&
    h.setupVars.all (fun text => setupVarsKeys.all (fun k => i ∉ k.sets ||
      (k.read S.platform (readSetupVarsconf text) h.config).value i = h.config.value i)) &&
    (i ≠ .dhcpHosts || h.staticLeases.isNone) && (i ≠ .dnsCnameRecords || h.cnames.isNone) &&
    (i ≠ .dnsHosts || h.customList.isNone) &&
    (i ≠ .webserverPort || h.config.portImported ||
      h.setupVars.any (fun text => (readSetupVarsconf text "WEB_PORTS".toList).isSome))

theorem setupVars_sets {k : LegacyKey} (hk : k ∈ setupVarsKeys) {i j : Item} (hi : i ∈ k.sets)
    (hj : j ∈ k.sets) : j = i := by
  have hall : ∀ k ∈ setupVarsKeys, k.sets.length = 1 := by decide
  obtain ⟨l,hl⟩ := List.length_eq_one_iff.1 (hall k hk)
  simp [hl] at hi hj
  rw [hi,hj]

theorem lorentzConf_value {i : Item} (hl : h.lorentzConf = none ∨
      i ∉ LegacyKey.allSets lorentzconfKeys ∧ i.isDebug = false ∧ i ≠ .debugAll) :
    (h.lorentzConf.elim h.config
      (fun text => readLorentzlegacy S.platform text h.config)).value i = h.config.value i := by
  cases hc : h.lorentzConf with
  | none => rfl
  | some text =>
    simp only [hc,reduceCtorEq,false_or] at hl
    exact (readLorentzlegacy_keeps S.platform text h.config).value i hl

theorem setupVars_value {i : Item} {c : Configuration} (hc : c.value i = h.config.value i)
    (hs : h.setupVars.all (fun text => setupVarsKeys.all (fun k => i ∉ k.sets ||
      (k.read S.platform (readSetupVarsconf text) h.config).value i = h.config.value i)) = true) :
    (h.setupVars.elim c (fun text => importsetupVarsConf S.platform text c)).value i =
      h.config.value i := by
  cases hv : h.setupVars with
  | none => exact hc
  | some text =>
    simp only [hv,Option.all_some,List.all_eq_true] at hs
    by_cases hi : i ∈ LegacyKey.allSets setupVarsKeys
    · obtain ⟨k,hk,hik⟩ := List.mem_flatMap.1 hi
      have hread := hs k hk
      simp [hik] at hread
      rw [Option.elim_some,importsetupVarsConf_value S.platform text c hk hik,← hread]
      refine k.read_congr S.platform _ ?_ hik
      intro j hj
      rw [setupVars_sets hk hik hj,hc]
    · exact ((importsetupVarsConf_keeps S.platform text c).value i hi).trans hc

theorem legacyConfig_value {i : Item} (hl : legacyKeeps S h i = true) :
    (h.legacyConfig S).value i = h.config.value i := by
  simp only [legacyKeeps,Bool.and_eq_true] at hl
  obtain ⟨⟨⟨⟨⟨hconf,hvars⟩,hleases⟩,hcnames⟩,hlist⟩,hport⟩ := hl
  have h0 : h.lorentzConf = none ∨
      i ∉ LegacyKey.allSets lorentzconfKeys ∧ i.isDebug = false ∧ i ≠ .debugAll := by
    simpa [and_assoc] using hconf
  rw [legacyConfig,getWebPort_value,readList_value (by simpa using hlist),
    readList_value (by simpa using hcnames),readList_value (by simpa using hleases),
    setupVars_value (lorentzConf_value h0) hvars]
  simp only [readList_portImported]
  by_cases hi : i = .webserverPort
  · subst hi
    -- the ports are in `lorentz.conf` too, so that there is none
    have hnone : h.lorentzConf = none := by
      refine h0.resolve_right (fun hn => hn.1 ?_)
      decide
    right
    rw [hnone,Option.elim_none]
    cases hv : h.setupVars with
    | none => simpa [hv] using hport
    | some text => simpa [hv,importsetupVarsConf] using hport
  · exact .inl hi

theorem legacyConfig_synced (hs : h.config.Synced) : (h.legacyConfig S).Synced := by
  have hc : (h.lorentzConf.elim h.config
      (fun text => readLorentzlegacy S.platform text h.config)).Synced := by
    cases h.lorentzConf with
    | none => exact hs
    | some text => exact synced_setDebugFlags _
  have hother : ∀ j ∈ Item.all, (j.isDebug = true ∨ j = .debugAll) →
      j ∉ LegacyKey.allSets setupVarsKeys ∧ j ≠ .dhcpHosts ∧ j ≠ .dnsCnameRecords ∧
        j ≠ .dnsHosts ∧ j ≠ .webserverPort := by decide +kernel
  refine hc.congr ?_
  exact fun j hj => legacyConfig_lorentzConf (hother j (Item.mem_all j) hj)

/-- The files that are migrated keep the forced items, also when the paths are put right. -/
def tarKeeps (S : Site) (h : Host) : Bool :=
  Item.all.all (fun i => (S.forcedValue i).isNone || legacyKeeps S h i) &&
    (S.forcedPassword.isNone || legacyKeeps S h .webserverApiPwhash) &&
    S.filesApart (h.legacyPath "WEBROOT" .webserverPathsWebroot) &&
    S.filesApart (Item.dflt .webserverPathsWebroot)

theorem migrateConfigV6_keeping (hk : S.Keeping h.config) (ht : S.tidy = true)
    (hl : tarKeeps S h = true) (header : List Char) :
    S.Keeping (h.migrateConfigV6 S header).config := by
  simp only [tarKeeps,Bool.and_eq_true,List.all_eq_true] at hl
  obtain ⟨⟨⟨hitems,hpassword⟩,hroot⟩,hdflt⟩ := hl
  have hlegacy : S.Keeping (h.legacyConfig S) := by
    refine ⟨hk.obeys.of_values ?_ ?_,?_,legacyConfig_synced hk.synced⟩
    · intro i v hi
      exact legacyConfig_value (by simpa [hi] using hitems i (Item.mem_all i))
    · intro s hs
      exact legacyConfig_value (by simpa [hs] using hpassword)
    · intro i v hi
      rw [legacyConfig_envVar]
      exact hk.flagged i v hi
  refine write_keeping (h := { h with config := S.platform.resetConfig (h.legacyConfig S) })
    (hlegacy.reset ?_ hdflt) ht header
  rw [legacyConfig_webroot]
  exact hroot

def rereadKeeps (S : Site) (h : Host) : Bool :=
  h.toml.all (fun file => h.lastChecksum.any file.sameSum ||
    (S.tomlParse file).all (fun doc =>
      S.fileKeeps (some h.config) ⟨doc,S.forced file,S.env,false,false⟩ h.config))

theorem reread_keeping (hk : S.Keeping h.config) (ht : S.tidy = true)
    (hr : rereadKeeps S h = true) (header : List Char) :
    S.Keeping (h.reread S header).config := by
  unfold reread
  split
  · exact hk
  rename_i file hf
  simp only [rereadKeeps,hf,Option.all_some,Bool.or_eq_true] at hr
  split
  · exact hk
  rename_i hsum
  replace hr := hr.resolve_left hsum
  cases hp : S.tomlParse file with
  | none =>
    simp only [Site.readLorentztoml,hp,Option.map_none]
    exact write_keeping hk ht header
  | some doc =>
    rw [hp,Option.all_some] at hr
    simp only [Site.readLorentztoml,hp,Option.map_some]
    exact write_keeping (h := { h with config := _ }) (Site.keeping_of_file rfl rfl hr) ht header

def keepsForced (S : Site) (h : Host) : HostEvent → Bool
  | .api (.edit r _) => editKeeps S r
  | .api (.zip selection members header) => zipKeeps S selection header members h
  | .api (.tar _ none _) => true
  | .api (.tar selection (some a) _) => tarKeeps S (h.unpacked selection a)
  | .cli _ _ _ _ _ => true
  | .file _ => true
  | .reread _ => rereadKeeps S h

theorem step_keeping {e : HostEvent} (hk : S.Keeping h.config) (ht : S.tidy = true)
    (he : keepsForced S h e = true) : S.Keeping (h.step S e).config := by
  cases e with
  | api e =>
    cases e with
    | edit r header => exact editConfig_keeping hk ht he header
    | zip selection members header => exact readTeleporterZip_keeping hk ht he
    | tar selection archive header =>
      cases archive with
      | none => exact hk
      | some a => exact migrateConfigV6_keeping (h := h.unpacked selection a) hk ht he header
  | cli env backups key value header =>
    simp only [step,setConfigFromCLI]
    split <;> exact hk
  | file toml => exact hk
  | reread header => exact reread_keeping hk ht he header

/-- `readLorentzconf` at start-up, for a file that can be read. -/
def startUp (S : Site) (h : Host) (file : TomlFile) (doc : Toml) (header : List Char) : Host :=
  let new := S.platform.readDocument none ⟨doc,S.forced file,S.env,false,false⟩ .initial
  { h with config := S.platform.resetConfig new }.write header

/-- The variables contradict neither each other nor the file, and the hosts are written as the
file has them. -/
def startKeeps (S : Site) (file : TomlFile) (doc : Toml) : Bool :=
  S.tidy && S.fileKeeps none ⟨doc,S.forced file,S.env,false,false⟩ .initial

/-- A forced item has the value of its variable in every state reached by steps that keep the
forced items. -/
theorem environment_wins (S : Site) (h : Host) (file : TomlFile) (doc : Toml)
    (header : List Char) (es : List HostEvent) (hs : startKeeps S file doc = true)
    (he : Machine.Meets (step S) (keepsForced S) (h.startUp S file doc header) es = true) :
    S.Obeys (Machine.run (step S) (h.startUp S file doc header) es).config := by
  simp only [startKeeps,Bool.and_eq_true] at hs
  have hstart : S.Keeping (h.startUp S file doc header).config :=
    write_keeping (h := { h with config := _ }) (Site.keeping_of_file rfl rfl hs.2) hs.1 header
  have hrun : S.Keeping (Machine.run (step S) (h.startUp S file doc header) es).config :=
    Machine.Meets.keeps (I := fun h => S.Keeping h.config)
      (fun h e he hk => step_keeping hk hs.1 he) hstart he
  exact hrun.obeys

def oneVariable (text : List Char) (doc : Toml) (i : Item) (s : List Char) : Site :=
  { Site.plain [(text,doc,[])] with env := fun j => if j = i then some s else none }

def domainText : List Char := "[webserver]\ndomain = \"b\"\n".toList

def domainDocument : Toml := .table [("webserver".toList,.table [("domain".toList,.str ['b'])])]

/-- The domain is forced, a request changes another item, and a file with another domain is read
again. -/
theorem environment_wins_sample :
    let S := oneVariable domainText domainDocument .webserverDomain ['a']
    let file : TomlFile := ⟨[],.other domainText⟩
    let es : List HostEvent :=
      [.api (.edit (.patch (.ok (.nest ["config","dns","port"] (.num 5)))) []),
        .file (some file),.reread []]
    S.forcedValue .webserverDomain = some (.text ['a']) ∧
      (Machine.run (step S) ((Host.fresh .initial).startUp S file domainDocument []) es).config.value
        .webserverDomain = .text ['a'] := by
  have hf : (oneVariable domainText domainDocument .webserverDomain ['a']).forcedValue
      .webserverDomain = some (.text ['a']) := by
    decide
  exact ⟨hf,(environment_wins _ _ _ _ _ _ (by decide +kernel) (by decide +kernel)).value _ _ hf⟩

/-- The hash is forced, and a request for another password is accepted. -/
theorem environment_loses :
    let old := sampleHashing.createPassword (some ()) "old".toList
    let S := oneVariable [] (.table []) .webserverApiPwhash old
    let h := (Host.fresh .initial).startUp S ⟨[],.other []⟩ (.table []) []
    S.forcedValue .webserverApiPwhash = some (.text old) ∧
      h.config.value .webserverApiPwhash = .text old ∧
      (h.step S (.api (.edit (.patch (.ok
        (.nest ["config","webserver","api","password"] (.str ['n','e','w'])))) []))).config.value
          .webserverApiPwhash = .text (sampleHashing.createPassword (some ()) "new".toList) := by
  decide +kernel

end Host

end Lorentz
