import Lorentz.ForcedItems

/-!
Which changes of the configuration end the sessions, on each of the ways it can be changed.
-/

set_option autoImplicit false

namespace Lorentz
open Item Host

/-- The password hashes and the second factor: what is flagged to end the sessions, but for the
pseudo item of the password. -/
def Item.credential (i : Item) : Bool := i.has .invalidateSessions && !i.has .pseudoItem

namespace Platform

variable (P : Platform) (live old : Option Configuration) (src : TomlSource)

/-- The loop of `readLorentztoml` comes to compare the item: it is neither from the environment
nor reset, and its tables are there. -/
def comparesItem (new : Configuration) (i : Item) : Bool :=
  (src.teleporter ||
    (match src.env i with
      | some s => (P.readEnvValue (live.getD new) i s new).isNone
      | none => i.key ∉ src.forced)) &&
    (src.doc.getPath i.path.dropLast).isSome &&
    !(src.teleporter && !src.cliMode && i.has .apiReadOnly)

/-- The sessions are ended for an item; without an old configuration nothing is compared. -/
def itemEnds (new : Configuration) (i : Item) : Bool :=
  P.comparesItem live src new i && i.has .invalidateSessions &&
    old.any (fun old => !i.type.same (old.value i) ((P.readItem live src new i).value i))

def readEnds : List Item → Configuration → Bool
  | [], _ => false
  | i :: is, new => P.itemEnds live old src new i || readEnds is (P.readItem live src new i)

end Platform

namespace Host

variable (S : Site) (h : Host)

/-- `api_config_patch` and its siblings end the sessions once the configuration is replaced. -/
def editEnds (r : ConfigRequest) : Bool :=
  match r.precheck h.config with
  | some _ => false
  | none =>
    match S.platform.edit r h.config h.config with
    | .error _ => false
    | .ok s => s.changed && s.invalidateSessions

/-- `reread_config`: the loop ends them for an item, or the password hash is another one. -/
def rereadEnds : Bool :=
  match h.toml with
  | none => false
  | some file =>
    if h.lastChecksum.any file.sameSum then false
    else
      match S.tomlParse file with
      | none => false
      | some doc =>
        let src : TomlSource := ⟨doc,S.forced file,S.env,false,false⟩
        S.platform.readEnds (some h.config) (some h.config) src Item.all
            (S.platform.readDebugConfig (some h.config) src h.config) ||
          (S.platform.resetConfig (S.platform.readDocument (some h.config) src h.config)).value
            .webserverApiPwhash ≠ h.config.value .webserverApiPwhash

def ends : HostEvent → Bool
  | .api (.edit r _) => h.editEnds S r
  | .api (.zip _ _ _) => false
  | .api (.tar _ _ _) => false
  | .cli _ _ _ _ _ => false
  | .file _ => false
  | .reread _ => h.rereadEnds S

def rejects : HostEvent → Bool
  | .api (.edit r _) =>
    (r.precheck h.config).isSome ||
      (match S.platform.edit r h.config h.config with
        | .error _ => true
        | .ok _ => false)
  | .api (.zip selection members header) => (readTeleporterZip S selection header members h).2.isSome
  | .api (.tar _ archive _) => archive.isNone
  | .cli env backups key value _ =>
    match S.setting (S.readLorentzconf env (h.toml.toList ++ backups)) key value with
    | .error _ => true
    | .ok _ => false
  | .file _ => false
  | .reread _ => h.toml.all (fun file => (S.tomlParse file).isNone)

end Host

structure Daemon where
  host : Host
  sessions : List Session

/-- A change of the configuration, or of the sessions, such as a login. -/
inductive DaemonEvent where
  | change (e : HostEvent)
  | sessions (t : List Session)

namespace Daemon

variable (S : Site) (d : Daemon)

def change (e : HostEvent) : Daemon where
  host := d.host.step S e
  sessions := if d.host.ends S e then d.sessions.map (fun _ => .zero) else d.sessions

def step : DaemonEvent → Daemon
  | .change e => d.change S e
  | .sessions t => { d with sessions := t }

def EndsSessions (e : HostEvent) : Prop :=
  ((∃ i ∈ Item.all, i.credential = true ∧
      (d.change S e).host.config.value i ≠ d.host.config.value i) →
    ∀ x ∈ (d.change S e).sessions, x.used = false) ∧
  (d.host.rejects S e = true → (d.change S e).sessions = d.sessions)

instance (e : HostEvent) : Decidable (d.EndsSessions S e) := by
  unfold EndsSessions
  infer_instance

def memberKeeps (selection : Option Json) : ZipMember → Bool
  | .lorentzToml (.ok doc) =>
    !selects selection "config" || Item.all.all (fun i => !i.credential ||
      ((doc.getPath i.path).bind (S.platform.tomlValue i)).all (fun v => v = d.host.config.value i))
  | _ => true

/-- Neither the environment nor a reset changes a credential when the file is read again. -/
def rereadKeepsCredential (i : Item) : Bool :=
  (match S.env i with
    | some s => d.host.config.value i = .text s
    | none =>
      d.host.toml.all (fun file => i.key ∉ S.forced file || d.host.config.value i = i.dflt))

def keepsCredentials : DaemonEvent → Bool
  | .change (.api (.zip selection members _)) => members.all (d.memberKeeps S selection)
  | .change (.api (.tar selection (some a) _)) =>
    Item.all.all (fun i => !i.credential || Host.legacyKeeps S (d.host.unpacked selection a) i)
  | .change (.reread _) =>
    Item.all.all (fun i => !i.credential || i = .webserverApiPwhash || d.rereadKeepsCredential S i)
  | _ => true

end Daemon

section

variable {i j : Item}

theorem Item.credential_spec (h : j.credential = true) :
    j.type = .string ∧ j.validator = .stub ∧ j.has .apiReadOnly = false ∧ j ∉ writtenFiles ∧
      j ≠ .dnsHosts ∧ j ≠ .debugAll ∧ j ≠ .debugConfig ∧ j ≠ .dnsRevServers ∧ j ≠ .dnsDomainName ∧
      (j = .webserverApiPwhash ∨ j.sole = true) := by
  have hall : ∀ j ∈ Item.all, j.credential = true →
    j.type = .string ∧ j.validator = .stub ∧ j.has .apiReadOnly = false ∧ j ∉ writtenFiles ∧
      j ≠ .dnsHosts ∧ j ≠ .debugAll ∧ j ≠ .debugConfig ∧ j ≠ .dnsRevServers ∧ j ≠ .dnsDomainName ∧
      (j = .webserverApiPwhash ∨ j.sole = true) := by decide +kernel
  exact hall j (mem_all j) h

theorem Item.sets_credential (hj : j.credential = true) (hs : i.sets j = true) :
    i = j ∨ i.type = .password := by
  have hdebug : ∀ j ∈ Item.all, j.isDebug = true → j.type ≠ .string := by decide +kernel
  have hstring := (credential_spec hj).1
  unfold Item.sets at hs
  split at hs
  · exact .inr (by assumption)
  · simp only [Bool.or_eq_true,decide_eq_true_eq] at hs
    rcases hs with rfl | hs
    · exact .inl rfl
    · exact absurd hstring (hdebug j (mem_all j) hs)
  · exact .inl (of_decide_eq_true hs).symm

theorem Item.flagged_of_sets (hj : j.credential = true) (hs : i.sets j = true) :
    i.has .invalidateSessions = true := by
  have hpassword : ∀ i ∈ Item.all, i.type = .password → i.has .invalidateSessions = true := by
    decide +kernel
  rcases sets_credential hj hs with rfl | hp
  · simp only [credential,Bool.and_eq_true] at hj
    exact hj.1
  · exact hpassword i (mem_all i) hp

end

section

variable {P : Platform} {live : Configuration} {conf : Json} {s s' : Edited} {j : Item}

def Edited.Notes (live : Configuration) (j : Item) (s : Edited) : Prop :=
  s.conf.value j = live.value j ∨ s.invalidateSessions = true

theorem Platform.patchItem_notes (hj : j.credential = true) {i : Item}
    (h : P.patchItem live conf s i = .ok s') (hs : s.Notes live j) : s'.Notes live j := by
  cases patchItem_patches h with
  | skipped _ => exact hs
  | @kept elem new _ hv hsame =>
    -- the value is the running one, or the password is not given
    rcases hs with hs | hs
    · left
      by_cases hset : i.sets j = true
      · rcases hsame with ⟨hp,hsame⟩ | ⟨hp,htext⟩
        · obtain rfl := (sets_credential hj hset).resolve_right hp
          exact ConfType.eq_of_same hp hsame
        have hnew : new = s.conf := by
          unfold getJSONvalue at hv
          split at hv
          · cases hv
          · simp only [hp,htext,if_true] at hv
            cases hv
            rfl
        rw [hnew]
        exact hs
      · exact ((getJSONvalue_keeps hv).value j (by simpa using hset)).trans hs
    · exact .inr hs
  | changed _ hv _ _ hi =>
    rw [Edited.Notes,hi]
    rcases hs with hs | hs
    · by_cases hset : i.sets j = true
      · exact .inr (by simp [flagged_of_sets hj hset])
      · exact .inl (((getJSONvalue_keeps hv).value j (by simpa using hset)).trans hs)
    · exact .inr (by simp [hs])

theorem Platform.patchItems_notes (hj : j.credential = true) {is : List Item}
    (h : P.patchItems live conf is s = .ok s') (hs : s.Notes live j) : s'.Notes live j := by
  induction is generalizing s with
  | nil =>
    cases h
    exact hs
  | cons i is ih =>
    unfold patchItems at h
    split at h
    · cases h
    · rename_i h₁
      exact ih h (patchItem_notes hj h₁ hs)

theorem requestedEntry_array {item value : List Char} {i : Item}
    (h : requestedEntry item = some (i,value)) : i.type = .jsonStringArray := by
  obtain ⟨k,-,hk⟩ := List.exists_of_findSome?_eq_some h
  obtain ⟨v,hv,heq⟩ := Option.map_eq_some_iff.1 hk
  obtain ⟨rfl,rfl⟩ := Prod.mk.inj heq
  unfold requestedValue at hv
  dsimp only at hv
  split at hv
  · rename_i hc
    exact hc.1
  · cases hv

theorem Platform.edit_notes {r : ConfigRequest} (hj : j.credential = true)
    (h : P.edit r live live = .ok s) : s.Notes live j := by
  have harray : ∀ item, (requestedEntry item).any (fun e => e.1 = j) = false := by
    intro item
    cases he : requestedEntry item with
    | none => rfl
    | some e =>
      have htype := requestedEntry_array he
      have hstring := (credential_spec hj).1
      simp only [Option.any_some,decide_eq_false_iff_not]
      rintro rfl
      rw [hstring] at htype
      cases htype
  cases r with
  | patch payload => exact patchItems_notes hj (edit_patchItems h) (.inl rfl)
  | put item | delete item => exact .inl ((edit_keeps h).value j (harray item))

theorem Host.editConfig_credential (S : Site) (h : Host) (r : ConfigRequest) (header : List Char)
    (hj : j.credential = true) :
    (h.editConfig S r header).config.value j = h.config.value j ∨ h.editEnds S r = true := by
  unfold editConfig editEnds
  cases r.precheck h.config with
  | some e => exact .inl rfl
  | none =>
    cases he : S.platform.edit r h.config h.config with
    | error e => exact .inl rfl
    | ok s =>
      obtain ⟨-,-,-,-,hhosts,hdebug,-⟩ := credential_spec hj
      cases hc : s.changed with
      | false => exact .inl (by simp [hc])
      | true =>
        refine (Platform.edit_notes hj he).imp (fun hv => ?_) (fun hn => by simp [hc,hn])
        simp only [hc,if_true]
        rw [(write_keeps _ header).value j hhosts,Configuration.setDebugFlags_value_of_ne _ hdebug,hv]

end

section

variable {P : Platform} {live old : Option Configuration} {src : TomlSource} {j : Item}

theorem Toml.getPath_append (doc : Toml) (p q : List (List Char)) :
    doc.getPath (p ++ q) = (doc.getPath p).bind (fun t => t.getPath q) := by
  induction p generalizing doc with
  | nil => rfl
  | cons key p ih =>
    simp only [List.cons_append,Toml.getPath,Option.bind_assoc]
    congr 1
    funext t
    exact ih t

theorem Toml.getPath_dropLast {doc t : Toml} {path : List (List Char)}
    (h : doc.getPath path = some t) :
    (doc.getPath path.dropLast).isSome = true := by
  rcases path.eq_nil_or_concat with rfl | ⟨front,key,rfl⟩
  · rfl
  rw [List.concat_eq_append,Toml.getPath_append] at h
  obtain ⟨t',ht',-⟩ := Option.bind_eq_some_iff.1 h
  rw [List.concat_eq_append,List.dropLast_concat,ht']
  rfl

theorem Platform.readFromDoc_credential (hj : j.credential = true) (c : Configuration) :
    (P.readFromDoc src c j).value j =
      ((src.doc.getPath j.path).bind (P.tomlValue j)).getD (c.value j) := by
  obtain ⟨hstring,-,hreadOnly,-⟩ := credential_spec hj
  unfold readFromDoc readTOMLvalue
  rw [if_neg (by simp [hreadOnly])]
  cases (src.doc.getPath j.path).bind (P.tomlValue j) with
  | none => rfl
  | some v =>
    simp only [hstring,reduceCtorEq,if_false]
    exact c.set_value_self j v

theorem Platform.readEnds_of_item {before after : List Item} (c : Configuration)
    (h : P.itemEnds live old src (before.foldl (P.readItem live src) c) j = true) :
    P.readEnds live old src (before ++ j :: after) c = true := by
  induction before generalizing c with
  | nil => simp [readEnds,show P.itemEnds live old src c j = true from h]
  | cons i before ih => simp [readEnds,ih _ h]

section

variable (hj : j.credential = true)
include hj

theorem Platform.readDocument_credential (c : Configuration) :
    (P.readDocument live src c).value j = (P.readItems live src c).value j := by
  obtain ⟨-,-,-,-,-,hdebug,-,hrev,hdomain,-⟩ := credential_spec hj
  rw [readDocument_eq,Configuration.setDebugFlags_value_of_ne _ hdebug]
  exact (migrateConfig_keeps src.doc _).value j ⟨.inl hrev,.inl hdomain⟩

theorem Platform.readDebugConfig_credential (c : Configuration) :
    (P.readDebugConfig live src c).value j = c.value j := by
  obtain ⟨-,-,-,-,-,hdebug,hconfig,-⟩ := credential_spec hj
  exact readDebugConfig_value_of_ne c hconfig hdebug

theorem Platform.readDocument_archive (ht : src.teleporter = true) {c : Configuration}
    (hv : ((src.doc.getPath j.path).bind (P.tomlValue j)).all (fun v => v = c.value j) = true) :
    (P.readDocument live src c).value j = c.value j := by
  have hreading : P.reading live src c j = c.value j := by
    rw [reading,readItem,if_pos ht,readFromDoc_credential hj,readDebugConfig_credential hj]
    cases hb : (src.doc.getPath j.path).bind (P.tomlValue j) with
    | none => rfl
    | some v => simpa [hb] using hv
  rw [readDocument_credential hj]
  rcases (credential_spec hj).2.2.2.2.2.2.2.2.2 with rfl | hsole
  · obtain ⟨c',hc',hhash⟩ := readItems_pwhash P live src c
    rw [hhash,hashed,if_pos ht,hc',hreading]
  · rw [readItems_sole hsole,hreading]

/-- A file that is read again changes a credential only if the sessions are ended, or the
environment or a reset changes it. -/
theorem Platform.readDocument_ends (hsole : j.sole = true) (ht : src.teleporter = false)
    (c : Configuration)
    (henv : match src.env j with
      | some s => c.value j = .text s
      | none => j.key ∈ src.forced → c.value j = j.dflt) :
    (P.readDocument (some c) src c).value j = c.value j ∨
      P.readEnds (some c) (some c) src Item.all (P.readDebugConfig (some c) src c) = true := by
  obtain ⟨hstring,hstub,hreadOnly,-⟩ := credential_spec hj
  rw [readDocument_credential hj]
  obtain ⟨before,after,hall⟩ := List.append_of_mem (mem_all j)
  have hnodup := all_nodup
  rw [hall,List.nodup_append,List.nodup_cons] at hnodup
  have hother : ∀ k, j ≠ k → j ≠ k ∧ k.sets j = false := by
    intro k hne
    refine ⟨hne,?_⟩
    by_contra hs
    exact hne (sets_sole hsole (by simpa using hs)).symm
  -- the configuration when the turn of the item comes, which nobody has set yet
  have hturn : (before.foldl (P.readItem (some c) src) (P.readDebugConfig (some c) src c)).value j =
      c.value j := by
    rw [foldl_readItem_of_sets P (some c) src,readDebugConfig_credential hj]
    exact fun k hk => hother k fun h => hnodup.2.2 k hk j (by simp) h.symm
  have hvalue : (P.readItems (some c) src c).value j = (P.readItem (some c) src
      (before.foldl (P.readItem (some c) src) (P.readDebugConfig (some c) src c)) j).value j := by
    rw [readItems,hall,List.foldl_append,List.foldl_cons,foldl_readItem_of_sets P (some c) src]
    exact fun k hk => hother k fun h => hnodup.2.1.1 (h ▸ hk)
  rw [hvalue]
  generalize hnew : before.foldl (P.readItem (some c) src) (P.readDebugConfig (some c) src c) = new
  rw [hnew] at hturn
  cases he : src.env j with
  | some s =>
    left
    rw [he] at henv
    have hread : P.readEnvValue c j s new = some (new.set j (.text s)) := by
      simp [readEnvValue,envValue,hstring,Site.check_stub P hstub]
    simp only [readItem,ht,he,Option.getD_some,hread,Configuration.flagEnv]
    exact (new.set_value_self j _).trans henv.symm
  | none =>
    rw [he] at henv
    by_cases hforced : j.key ∈ src.forced
    · left
      simp only [readItem,ht,he,if_pos hforced,resetForced,hstring,reduceCtorEq,if_false]
      exact (new.set_value_self j _).trans (henv hforced).symm
    have hread : P.readItem (some c) src new j = P.readFromDoc src new j := by
      simp [readItem,ht,he,hforced]
    by_cases hsame : (P.readFromDoc src new j).value j = c.value j
    · left
      rw [hread,hsame]
    right
    rw [hall]
    refine readEnds_of_item _ ?_
    rw [hnew]
    have htables : (src.doc.getPath j.path.dropLast).isSome = true := by
      rw [readFromDoc_credential hj,hturn] at hsame
      cases hb : (src.doc.getPath j.path).bind (P.tomlValue j) with
      | none => simp [hb] at hsame
      | some v =>
        obtain ⟨t,hpath,-⟩ := Option.bind_eq_some_iff.1 hb
        exact Toml.getPath_dropLast hpath
    have hflag : j.has .invalidateSessions = true := by
      simp only [credential,Bool.and_eq_true] at hj
      exact hj.1
    have hdiffer : j.type.same (c.value j) ((P.readFromDoc src new j).value j) = false := by
      simp only [ConfType.same,hstring,decide_eq_false_iff_not]
      exact fun h => hsame h.symm
    simp [itemEnds,comparesItem,ht,he,hforced,htables,hreadOnly,hflag,hread,hdiffer]

end

end

section

variable {S : Site} {d : Daemon} {j : Item}

theorem Host.write_credential (h : Host) (header : List Char) (hj : j.credential = true) :
    (h.write header).config.value j = h.config.value j :=
  (h.write_keeps header).value j (credential_spec hj).2.2.2.2.1

theorem resetConfig_credential (P : Platform) (hj : j.credential = true) (c : Configuration) :
    (P.resetConfig c).value j = c.value j :=
  Site.resetConfig_stub P (credential_spec hj).2.1 (credential_spec hj).2.2.2.1 c

theorem zip_credential {selection : Option Json} {members : List ZipMember} {header : List Char}
    (hm : members.all (d.memberKeeps S selection) = true) (hj : j.credential = true) :
    (readTeleporterZip S selection header members d.host).1.config.value j =
      d.host.config.value j := by
  rw [List.all_eq_true] at hm
  -- the other credentials stay, too, so that every file is compared with the same values
  suffices h : ∀ j, j.credential = true →
      (readTeleporterZip S selection header members d.host).1.config.value j =
        d.host.config.value j from h j hj
  refine readTeleporterZip_rule
    (I := fun h => ∀ j, j.credential = true → h.config.value j = d.host.config.value j)
    (fun _ _ => rfl) ?_
  intro h h' m hmem hs hi j hj
  rcases importMember_cases hi with ⟨heq,-⟩ | ⟨doc,rfl,hsel,rfl⟩
  · rw [heq,hs j hj]
  have hkeep := hm _ hmem
  simp only [Daemon.memberKeeps,hsel,Bool.not_true,Bool.false_or,List.all_eq_true] at hkeep
  have hv := hkeep j (mem_all j)
  rw [hj,Bool.not_true,Bool.false_or,← hs j hj] at hv
  rw [write_credential _ header hj,← hs j hj]
  exact Platform.readDocument_archive hj rfl hv

theorem tar_credential {selection : Option Json} {a : TarArchive} {header : List Char}
    (hl : legacyKeeps S (d.host.unpacked selection a) j = true) (hj : j.credential = true) :
    (d.host.processReceivedTarGz S selection a header).config.value j = d.host.config.value j := by
  rw [processReceivedTarGz,migrateConfigV6,write_credential _ header hj]
  exact (resetConfig_credential S.platform hj _).trans (legacyConfig_value hl)

theorem reread_credential {header : List Char}
    (hk : j = .webserverApiPwhash ∨ d.rereadKeepsCredential S j = true) (hj : j.credential = true) :
    (d.host.reread S header).config.value j = d.host.config.value j ∨ d.host.rereadEnds S = true := by
  unfold reread rereadEnds
  cases hfile : d.host.toml with
  | none => exact .inl rfl
  | some file =>
    by_cases hsum : d.host.lastChecksum.any file.sameSum = true
    · simp [hsum]
    simp only [hsum]
    cases hp : S.tomlParse file with
    | none =>
      simp only [Site.readLorentztoml,hp,Option.map_none]
      exact .inl (write_credential _ header hj)
    | some doc =>
      simp only [Site.readLorentztoml,hp,Option.map_some,write_credential _ header hj,
        Bool.false_eq_true,if_false,Bool.or_eq_true,decide_eq_true_eq]
      by_cases hpw : j = .webserverApiPwhash
      · subst hpw
        by_cases hv : (S.platform.resetConfig (S.platform.readDocument (some d.host.config)
            ⟨doc,S.forced file,S.env,false,false⟩ d.host.config)).value .webserverApiPwhash =
            d.host.config.value .webserverApiPwhash
        · exact .inl hv
        · exact .inr (.inr hv)
      rw [resetConfig_credential S.platform hj]
      have hsole := (credential_spec hj).2.2.2.2.2.2.2.2.2.resolve_left hpw
      refine (Platform.readDocument_ends hj hsole rfl d.host.config ?_).imp_right .inl
      have hkeep := hk.resolve_left hpw
      unfold Daemon.rereadKeepsCredential at hkeep
      dsimp only
      cases he : S.env j with
      | some s => simpa [he] using hkeep
      | none =>
        intro hforced
        simpa [he,hfile,hforced] using hkeep

theorem change_credential {e : HostEvent} (hk : d.keepsCredentials S (.change e) = true)
    (hj : j.credential = true) :
    (d.host.step S e).config.value j = d.host.config.value j ∨ d.host.ends S e = true := by
  have hall : ∀ p : Item → Bool, Item.all.all (fun i => !i.credential || p i) = true →
    p j = true := by
    intro p hp
    simpa [hj] using List.all_eq_true.1 hp j (mem_all j)
  cases e with
  | api e =>
    cases e with
    | edit r header => exact editConfig_credential S d.host r header hj
    | zip selection members header => exact .inl (zip_credential hk hj)
    | tar selection archive header =>
      cases archive with
      | none => exact .inl rfl
      | some a => exact .inl (tar_credential (hall _ hk) hj)
  | cli env backups key value header =>
    left
    simp only [Host.step,setConfigFromCLI]
    split <;> rfl
  | file toml => exact .inl rfl
  | reread header =>
    refine reread_credential ?_ hj
    simp only [Daemon.keepsCredentials,Bool.or_assoc] at hk
    simpa using hall _ hk

theorem ends_of_rejects {h : Host} {e : HostEvent} (hr : h.rejects S e = true) :
    h.ends S e = false := by
  cases e with
  | api e =>
    cases e with
    | edit r header =>
      simp only [rejects,Bool.or_eq_true] at hr
      simp only [Host.ends,editEnds]
      cases hp : r.precheck h.config with
      | some e => rfl
      | none =>
        cases he : S.platform.edit r h.config h.config with
        | error e => rfl
        | ok s => simp [hp,he] at hr
    | zip selection members header | tar selection archive header => rfl
  | cli env backups key value header | file toml => rfl
  | reread header =>
    simp only [rejects] at hr
    simp only [Host.ends,rereadEnds]
    cases hf : h.toml with
    | none => rfl
    | some file =>
      rw [hf,Option.all_some,Option.isNone_iff_eq_none] at hr
      simp only [hr,ite_self]

theorem change_endsSessions {e : HostEvent} (hk : d.keepsCredentials S (.change e) = true) :
    d.EndsSessions S e := by
  constructor
  · rintro ⟨i,-,hi,hne⟩ x hx
    have hends := (change_credential hk hi).resolve_left hne
    simp only [Daemon.change,hends,if_true] at hx
    obtain ⟨y,-,rfl⟩ := List.mem_map.1 hx
    rfl
  · intro hr
    simp [Daemon.change,ends_of_rejects hr]

end

/-- In every run whose steps meet the condition, each change of a credential ends the sessions and
each rejected one leaves them. -/
theorem credential_change_run (S : Site) (d : Daemon) (es : List DaemonEvent)
    (hm : Machine.Meets (Daemon.step S) (Daemon.keepsCredentials S) d es = true) :
    ∀ before e after, es = before ++ .change e :: after →
      (Machine.run (Daemon.step S) d before).EndsSessions S e := by
  rintro before e after rfl
  exact change_endsSessions (Machine.Meets.at_event hm)

def openSession : Session := ⟨true,['s'],['c'],1000,1⟩

def totpDocument (secret : Char) : Toml :=
  .table [("webserver".toList,.table [("api".toList,.table [("totp_secret".toList,.str [secret])])])]

def totpText : List Char := "[webserver.api]\ntotp_secret = \"X\"\n".toList

/-- The statistics at the end of a file name the variables that were forced when it was written. -/
def forcedText : List Char :=
  ("[webserver.api]\ntotp_secret = \"A\"\n# 1 entry is forced through environment:\n" ++
    "#   - webserver.api.totp_secret\n").toList

def totpSite : Site :=
  .plain [(totpText,totpDocument 'X',[]),
    (forcedText,totpDocument 'A',[Item.webserverApiTotpSecret.key])]

def totpHost : Host := .fresh (Configuration.initial.set .webserverApiTotpSecret (.text ['A']))

def totpReread : List DaemonEvent :=
  [.change (.file (some ⟨[],.other totpText⟩)),.change (.reread [])]

theorem credential_change_sample :
    Machine.Meets (Daemon.step totpSite) (Daemon.keepsCredentials totpSite)
        ⟨totpHost,[openSession]⟩ totpReread = true ∧
      ∀ before e after, totpReread = before ++ .change e :: after →
        (Machine.run (Daemon.step totpSite) ⟨totpHost,[openSession]⟩ before).EndsSessions
          totpSite e :=
  ⟨by decide,credential_change_run totpSite ⟨totpHost,[openSession]⟩ totpReread (by decide)⟩

/-- An archive with another second factor leaves the session, and so does a file that calls the
factor forced, which resets it. -/
theorem credential_change_survived :
    ¬ Daemon.EndsSessions totpSite ⟨totpHost,[openSession]⟩
        (.api (.zip none [.lorentzToml (.ok (totpDocument 'X'))] [])) ∧
      ¬ Daemon.EndsSessions totpSite
        ⟨{ totpHost with toml := some ⟨[],.other forcedText⟩ },[openSession]⟩ (.reread []) := by
  decide +kernel

end Lorentz
