import Lorentz.ConfigEdit
import Lorentz.LegacyConfig

/-!
A host with its running configuration and its files. Requests of the API change both, the command
line and an editor only the file, and an archive of the Teleporter replaces the configuration or
is migrated.
-/

set_option autoImplicit false

namespace Lorentz

/-- The setup of a host: the environment of the daemon, the parsers of TOML and JSON, the keys a
file written by somebody else calls forced, and the ports `get_web_port` finds free. -/
structure Site where
  platform : Platform
  env : Item → Option (List Char)
  tomlParse : TomlFile → Option Toml
  jsonParse : List Char → Option Json
  forcedVars : List Char → List (List Char)
  webPort : List Char

/-- A site with the texts of some files, the documents they are and the variables they call
forced. -/
def Site.plain (files : List (List Char × Toml × List (List Char))) : Site where
  platform := .plain
  env _ := none
  tomlParse file :=
    match file.body with
    | .lines .. => none
    | .other text => (files.lookup text).map Prod.fst
  jsonParse _ := none
  forcedVars text := ((files.lookup text).map Prod.snd).getD []
  webPort := "80o".toList

/-- The running configuration, `lorentz.toml` with its remembered checksum, the files of older
versions and the leases. -/
structure Host where
  config : Configuration
  toml : Option TomlFile
  lastChecksum : Option TomlFile
  lorentzConf : Option (List Char)
  setupVars : Option (List Char)
  customList : Option (List Char)
  staticLeases : Option (List Char)
  cnames : Option (List Char)
  leases : Option (List Char)

def Host.fresh (c : Configuration) : Host := ⟨c,none,none,none,none,none,none,none,none⟩

namespace Host

variable (h : Host)

/-- `writeLorentztoml`, which notes the checksum in the end. -/
def write (header : List Char) : Host :=
  let w := writeLorentztoml header h.config h.toml
  { h with config := w.1, toml := w.2, lastChecksum := w.2.orElse (fun _ => h.lastChecksum) }

theorem write_keeps (header : List Char) :
    h.config.Keeps (fun i => i ≠ .dnsHosts) (h.write header).config := by
  simp only [write,writeLorentztoml]
  split_ifs
  · exact .refl _ _
  · exact .set _ _ (by simp)
  · exact .set _ _ (by simp)

theorem write_toml (header : List Char) :
    (h.write header).toml = h.toml ∨
      (h.write header).toml = some ⟨header,(h.write header).config.lines⟩ := by
  simp only [write,writeLorentztoml]
  split_ifs
  · exact .inl rfl
  · exact .inl rfl
  · exact .inr rfl

/-- A `PATCH`, `PUT` or `DELETE` while no other request is served. -/
def editConfig (S : Site) (r : ConfigRequest) (header : List Char) : Host :=
  match r.precheck h.config with
  | some _ => h
  | none =>
    match S.platform.edit r h.config h.config with
    | .error _ => h
    | .ok s => if s.changed then { h with config := s.conf.setDebugFlags }.write header else h

end Host

namespace Site

variable (S : Site)

/-- `read_forced_vars`. -/
def forced (file : TomlFile) : List (List Char) :=
  match file.body with
  | .lines _ forced => forced
  | .other text => S.forcedVars text

/-- `readLorentztoml` for a file: an item that is not valid is reset. -/
def readLorentztoml (env : Item → Option (List Char)) (live : Option Configuration)
    (new : Configuration) (file : TomlFile) : Option Configuration :=
  (S.tomlParse file).map (fun doc =>
    S.platform.resetConfig (S.platform.readDocument live ⟨doc,S.forced file,env,false,false⟩ new))

/-- `readLorentzconf` without `rewrite`: the first file that can be read, or the defaults. -/
def readLorentzconf (env : Item → Option (List Char)) : List TomlFile → Configuration
  | [] => .initial
  | file :: backups =>
    match S.readLorentztoml env none .initial file with
    | some c => c
    | none => readLorentzconf env backups

end Site

/-- `reread_config`. -/
def Host.reread (S : Site) (h : Host) (header : List Char) : Host :=
  match h.toml with
  | none => h
  | some file =>
    if h.lastChecksum.any file.sameSum then h
    else
      match S.readLorentztoml S.env (some h.config) h.config file with
      | some c => { h with config := c }.write header
      | none => h.write header

namespace Site

variable (S : Site)

def stringValue (t : ConfType) (s : List Char) : Option ConfVal :=
  match t with
  | .uint16 => (S.platform.scanUint s).map (fun n => .num (n % 2^16))
  | .jsonStringArray =>
    match S.jsonParse s with
    | some (.arr l) => (l.mapM Json.toText).map ConfVal.strings
    | _ => none
  | t => S.platform.envValue t s

def newPassword (password : List Char) : Option (List Char) :=
  if password = [] then some []
  else
    let pwhash := S.platform.passwords.createPassword password
    if pwhash = [] ∨ S.platform.passwords.verifyPassword password pwhash then some pwhash else none

def readStringValue (i : Item) (s : List Char) (new : Configuration) : Option Configuration :=
  (S.stringValue i.type s).bind (fun v =>
    match i.type with
    | .password => (S.newPassword s).map (fun pwhash => new.set .webserverApiPwhash (.text pwhash))
    | .allDebugBool => some (((new.setAllDebug v.toBool).set i v).setDebugFlags)
    | _ => some (new.set i v))

def testSetting (i : Item) (new : Configuration) : Except Nat Configuration :=
  if (S.platform.check i (new.value i)).isSome then .error 3
  else if i.has .restartLorentz ∧ (S.platform.dnsmasqTest new).isSome then .error 3
  else .ok new

/-- `set_config_from_CLI` up to the writing of the file: the configuration that is written,
or the exit code. -/
def setting (own : Configuration) (key value : List Char) : Except Nat Configuration :=
  if own.bool .miscReadOnly then .error 1
  else
    match Item.all.find? (fun i => i.key = key) with
    | none => .error 4
    | some i =>
      if own.envVar i then .error 5
      else if i.has .apiCliReadOnly then .error 1
      else
        match S.readStringValue i value own with
        | none => .error 2
        | some new =>
          if i.type = .password ∨ i.type.same (new.value i) (own.value i) = false then
            S.testSetting i new
          else .ok own

end Site

/-- `set_config_from_CLI` in its own process and environment; the file is read first, or its first
backup that can be read. -/
def Host.setConfigFromCLI (S : Site) (h : Host) (env : Item → Option (List Char))
    (backups : List TomlFile) (key value header : List Char) : Host :=
  match S.setting (S.readLorentzconf env (h.toml.toList ++ backups)) key value with
  | .error _ => h
  | .ok new => { h with toml := (writeLorentztoml header new h.toml).2 }

def Json.keyTrue (obj : Json) (key : String) : Bool :=
  match obj with
  | .obj l => (l.find? (fun m => m.1 = key.toList)).any (fun m => m.2.isTrue)
  | _ => false

def selects (selection : Option Json) (key : String) : Bool :=
  selection.all (fun s => s.keyTrue key)

def validLeaseLine (line : List Char) : Bool :=
  let rest := line.dropWhile isBlank
  let token := rest.takeWhile (fun c => !isBlank c)
  line.all (fun c => c = '\t' || (' ' ≤ c && c ≤ '~')) &&
    (rest = [] || token.all Char.isDigit ||
      token ∈ ["duid".toList,"vendorclass".toList,"agent-info".toList])

def validDhcpLeases (data : List Char) : Bool := (data.splitOn '\n').all validLeaseLine

/-- A file of the archive: its TOML or why there is none, the leases, the database with the error
of its import, or a file that is skipped. -/
inductive ZipMember where
  | lorentzToml (doc : Except String Toml)
  | dhcpLeases (data : List Char)
  | gravityDb (error : Option String)
  | other

namespace Host

variable (S : Site) (h : Host)

def importLorentzToml (doc : Except String Toml) (header : List Char) : Except String Host :=
  match doc with
  | .error e => .error e
  | .ok doc =>
    let new := S.platform.readDocument (some h.config) ⟨doc,[],fun _ => none,true,false⟩ h.config
    if (S.platform.validateConfig new).isSome then
      .error "File etc/lorentz/lorentz.toml in ZIP archive contains an invalid value"
    else if (S.platform.dnsmasqTest new).isSome then
      .error "File etc/lorentz/lorentz.toml in ZIP archive contains invalid dnsmasq configuration"
    else .ok ({ h with config := new }.write header)

def importMember (selection : Option Json) (header : List Char) : ZipMember → Except String Host
  | .lorentzToml doc =>
    if selects selection "config" then h.importLorentzToml S doc header else .ok h
  | .dhcpLeases data =>
    if selects selection "dhcp_leases" && validDhcpLeases data then .ok { h with leases := some data }
    else .ok h
  | .gravityDb none => .ok h
  | .gravityDb (some e) => .error e
  | .other => .ok h

/-- `read_teleporter_zip`: the first error ends the import, and what was imported before it
stays. -/
def readTeleporterZip (selection : Option Json) (header : List Char) :
    List ZipMember → Host → Host × Option String
  | [], h => (h,none)
  | m :: members, h =>
    match h.importMember S selection header m with
    | .error e => (h,some e)
    | .ok h => readTeleporterZip selection header members h

variable {S h}

def Untouched (h h' : Host) : Prop := h'.config = h.config ∧ h'.toml = h.toml

theorem importMember_cases {selection : Option Json} {header : List Char} {m : ZipMember} {h' : Host}
    (hi : h.importMember S selection header m = .ok h') :
    h.Untouched h' ∨ ∃ doc, m = .lorentzToml (.ok doc) ∧ selects selection "config" = true ∧
      h' = { h with
        config := S.platform.readDocument (some h.config) ⟨doc,[],fun _ => none,true,false⟩
          h.config }.write header := by
  cases m with
  | lorentzToml doc =>
    simp only [importMember] at hi
    split at hi
    · rename_i hs
      cases doc with
      | error e => cases hi
      | ok doc =>
        simp only [importLorentzToml] at hi
        split_ifs at hi
        cases hi
        exact .inr ⟨doc,rfl,hs,rfl⟩
    · cases hi
      exact .inl ⟨rfl,rfl⟩
  | dhcpLeases data =>
    simp only [importMember] at hi
    split at hi <;> cases hi <;> exact .inl ⟨rfl,rfl⟩
  | gravityDb error =>
    cases error with
    | none =>
      cases hi
      exact .inl ⟨rfl,rfl⟩
    | some e => cases hi
  | other =>
    cases hi
    exact .inl ⟨rfl,rfl⟩

theorem readTeleporterZip_rule {selection : Option Json} {header : List Char} {I : Host → Prop}
    {members : List ZipMember} (hs : I h)
    (hstep : ∀ h h' m, m ∈ members → I h → h.importMember S selection header m = .ok h' → I h') :
    I (readTeleporterZip S selection header members h).1 := by
  induction members generalizing h with
  | nil => exact hs
  | cons m members ih =>
    unfold readTeleporterZip
    cases hi : h.importMember S selection header m with
    | error e => exact hs
    | ok h' =>
      exact ih (hstep h h' m (by simp) hs hi) (fun h h' m hm => hstep h h' m (by simp [hm]))

end Host

/-- The files of the archive that are there and not empty. -/
structure TarArchive where
  customList : Option (List Char)
  dhcpLeases : Option (List Char)
  lorentzConf : Option (List Char)
  setupVars : Option (List Char)
  staticLeases : Option (List Char)
  cnames : Option (List Char)

def extract (selected : Bool) (file disk : Option (List Char)) : Option (List Char) :=
  if selected then file.orElse (fun _ => disk) else disk

namespace Host

variable (S : Site) (h : Host)

def extractFiles (selection : Option Json) (a : TarArchive) : Host :=
  let config := selects selection "config"
  { h with
    customList := extract config a.customList h.customList
    leases := extract (selects selection "dhcp_leases") (a.dhcpLeases.filter validDhcpLeases) h.leases
    lorentzConf := extract config a.lorentzConf h.lorentzConf
    setupVars := extract config a.setupVars h.setupVars
    staticLeases := extract config a.staticLeases h.staticLeases
    cnames := extract config a.cnames h.cnames }

def webPorts : List Char := "WEB_PORTS=".toList ++ h.config.text .webserverPort ++ ['\n']

def readList (i : Item) (entries : List Char → List (List Char)) (file : Option (List Char))
    (c : Configuration) : Configuration :=
  match file with
  | none => c
  | some text => c.set i (.strings (entries text))

def getWebPort (c : Configuration) : Configuration :=
  if c.portImported then c else c.set .webserverPort (.text S.webPort)

def legacyConfig : Configuration :=
  let c := h.lorentzConf.elim h.config (fun text => readLorentzlegacy S.platform text h.config)
  let c := h.setupVars.elim c (fun text => importsetupVarsConf S.platform text c)
  let c := readList .dhcpHosts (fun text => dnsmasqValues text "dhcp-host".toList) h.staticLeases c
  let c := readList .dnsCnameRecords (fun text => dnsmasqValues text "cname".toList) h.cnames c
  getWebPort S (readList .dnsHosts customHosts h.customList c)

/-- `migrate_config_v6`: nothing is initialized again at run time; three of the files are moved
away, the two for dnsmasq stay. -/
def migrateConfigV6 (header : List Char) : Host :=
  { h with
    config := S.platform.resetConfig (h.legacyConfig S)
    lorentzConf := none
    setupVars := none
    customList := none }.write header

/-- The files of the archive are on the disk, and `lorentz.toml` is not. -/
def unpacked (selection : Option Json) (a : TarArchive) : Host :=
  let h := h.extractFiles selection a
  { h with setupVars := some (h.setupVars.getD [] ++ h.webPorts), toml := none }

def processReceivedTarGz (selection : Option Json) (a : TarArchive) (header : List Char) : Host :=
  (h.unpacked selection a).migrateConfigV6 S header

section

variable {S : Site} {h : Host}

theorem readList_value {i j : Item} {entries : List Char → List (List Char)}
    {file : Option (List Char)} (hj : j ≠ i ∨ file = none) (c : Configuration) :
    (readList i entries file c).value j = c.value j := by
  cases file with
  | none => rfl
  | some text =>
    have hne : j ≠ i := by simpa using hj
    exact c.set_value_of_ne hne _

theorem readList_portImported (i : Item) (entries : List Char → List (List Char))
    (file : Option (List Char)) (c : Configuration) :
    (readList i entries file c).portImported = c.portImported := by
  cases file <;> rfl

theorem getWebPort_value {i : Item} {c : Configuration}
    (hp : i ≠ .webserverPort ∨ c.portImported = true) :
    (getWebPort S c).value i = c.value i := by
  unfold getWebPort
  split
  · rfl
  · rename_i hn
    exact c.set_value_of_ne (hp.resolve_right hn) _

theorem legacyConfig_lorentzConf {i : Item}
    (hi : i ∉ LegacyKey.allSets setupVarsKeys ∧ i ≠ .dhcpHosts ∧ i ≠ .dnsCnameRecords ∧
      i ≠ .dnsHosts ∧ i ≠ .webserverPort) :
    (h.legacyConfig S).value i =
      (h.lorentzConf.elim h.config
        (fun text => readLorentzlegacy S.platform text h.config)).value i := by
  obtain ⟨hs,hl,hc,hh,hp⟩ := hi
  rw [legacyConfig,getWebPort_value (.inl hp),readList_value (.inl hh),readList_value (.inl hc),
    readList_value (.inl hl)]
  cases h.setupVars with
  | none => rfl
  | some text => exact (importsetupVarsConf_keeps S.platform text _).value i hs

/-- What a `lorentz.conf` makes of a path that is configured. -/
def legacyPath (h : Host) (key : String) (i : Item) : ConfVal :=
  match h.lorentzConf with
  | none => h.config.value i
  | some text => .text (getPath (parseLorentzconf text key.toList) (h.config.text i))

theorem lorentzConf_path {b a : List LegacyKey} {key : String} {i : Item}
    (hk : lorentzconfKeys = b ++ pathKey key i :: a) (hb : ∀ j ∈ [i], j ∉ LegacyKey.allSets b)
    (ha : i ∉ LegacyKey.allSets a) (hd : i.isDebug = false ∧ i ≠ .debugAll) (S : Site) (h : Host) :
    (h.lorentzConf.elim h.config (fun text => readLorentzlegacy S.platform text h.config)).value i =
      h.legacyPath key i := by
  unfold legacyPath
  cases h.lorentzConf with
  | none => rfl
  | some text => exact readLorentzlegacy_path hk hb ha hd _ _ _

theorem lorentzConf_webroot (S : Site) (h : Host) :
    (h.lorentzConf.elim h.config (fun text => readLorentzlegacy S.platform text h.config)).value
      .webserverPathsWebroot = h.legacyPath "WEBROOT" .webserverPathsWebroot :=
  lorentzConf_path (b := lorentzconfKeys.take 17) rfl (by decide) (by decide) (by decide) S h

theorem lorentzConf_webhome (S : Site) (h : Host) :
    (h.lorentzConf.elim h.config (fun text => readLorentzlegacy S.platform text h.config)).value
      .webserverPathsWebhome = h.legacyPath "WEBHOME" .webserverPathsWebhome :=
  lorentzConf_path (b := lorentzconfKeys.take 19) rfl (by decide) (by decide) (by decide) S h

theorem legacyConfig_webroot (S : Site) (h : Host) :
    (h.legacyConfig S).value .webserverPathsWebroot =
      h.legacyPath "WEBROOT" .webserverPathsWebroot :=
  (legacyConfig_lorentzConf (by decide)).trans (lorentzConf_webroot S h)

theorem legacyConfig_envVar (S : Site) (h : Host) : (h.legacyConfig S).envVar = h.config.envVar := by
  have hlist : ∀ (i : Item) (entries : List Char → List (List Char)) (file : Option (List Char))
      (c : Configuration), (readList i entries file c).envVar = c.envVar := by
    intro i entries file c
    cases file <;> rfl
  have hport : ∀ c : Configuration, (getWebPort S c).envVar = c.envVar := by
    intro c
    unfold getWebPort
    split <;> rfl
  rw [legacyConfig,hport,hlist,hlist,hlist]
  have hconf : (h.lorentzConf.elim h.config
      (fun text => readLorentzlegacy S.platform text h.config)).envVar = h.config.envVar := by
    cases h.lorentzConf with
    | none => rfl
    | some text => exact (readLorentzlegacy_keeps S.platform text h.config).envVar
  cases h.setupVars with
  | none => exact hconf
  | some text => exact (importsetupVarsConf_keeps S.platform text _).envVar.trans hconf

end

end Host

/-- A request that can change the configuration; an older archive may fail to be decompressed.
`header` has the time for a file. -/
inductive ApiEvent where
  | edit (r : ConfigRequest) (header : List Char)
  | zip (selection : Option Json) (members : List ZipMember) (header : List Char)
  | tar (selection : Option Json) (archive : Option TarArchive) (header : List Char)

/-- A setting from the command line, with the environment of that process and the backups it
finds, an edit of the file, and its notice. -/
inductive HostEvent where
  | api (e : ApiEvent)
  | cli (env : Item → Option (List Char)) (backups : List TomlFile) (key value header : List Char)
  | file (toml : Option TomlFile)
  | reread (header : List Char)

namespace Host

variable (S : Site) (h : Host)

def serve : ApiEvent → Host
  | .edit r header => h.editConfig S r header
  | .zip selection members header => (readTeleporterZip S selection header members h).1
  | .tar _ none _ => h
  | .tar selection (some a) header => h.processReceivedTarGz S selection a header

def step : HostEvent → Host
  | .api e => h.serve S e
  | .cli env backups key value header => h.setConfigFromCLI S env backups key value header
  | .file toml => { h with toml := toml }
  | .reread header => h.reread S header

end Host

end Lorentz
