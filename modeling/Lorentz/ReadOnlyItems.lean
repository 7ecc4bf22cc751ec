import Lorentz.Teleporter

/-!
Items that are read-only for the API stay as they are under every request, and in read-only
mode the configuration and its file do.
-/

set_option autoImplicit false

namespace Lorentz
open Item

def readOnlyItems : List Item :=
  [.webserverAdvancedOpts,.webserverPathsWebroot,.webserverPathsWebhome,.webserverPathsPrefix,
    .miscDnsmasqLines]

variable {i j : Item}

theorem mem_readOnlyItems (h : i.has .apiReadOnly = true) : i ∈ readOnlyItems := by
  have hall : ∀ i ∈ Item.all, i.has .apiReadOnly = true → i ∈ readOnlyItems := by decide +kernel
  exact hall i (mem_all i) h

theorem Item.of_readOnly {p : Item → Prop} (hp : ∀ i ∈ readOnlyItems, p i)
    (h : i.has .apiReadOnly = true) : p i :=
  hp i (mem_readOnlyItems h)

theorem Item.readOnly_ne (h : i.has .apiReadOnly = true) (hj : j ∉ readOnlyItems) : i ≠ j := by
  rintro rfl
  exact hj (mem_readOnlyItems h)

theorem Item.readOnly_sets (h : i.has .apiReadOnly = true) (hj : j.sets i = true) : j = i :=
  sets_plain (of_readOnly (p := fun i => i.plain = true) (by decide) h) hj

theorem keeps_set_of_not_readOnly (c : Configuration) (v : ConfVal) (hi : i ∉ readOnlyItems) :
    c.Keeps (fun j => j.has .apiReadOnly = true) (c.set i v) :=
  .set c v (fun h => hi (mem_readOnlyItems h))

theorem Platform.check_readOnly_dflt (P : Platform) (h : i.has .apiReadOnly = true) :
    P.check i i.dflt = none := by
  refine of_readOnly (p := fun i => P.check i i.dflt = none) ?_ h
  have hhome : validateFilepathTwoSlash (Item.key .webserverPathsWebhome)
      (Item.dflt .webserverPathsWebhome).toText = none := by decide
  simp only [readOnlyItems,List.forall_mem_cons]
  exact ⟨rfl,P.check_webroot_dflt,hhome,rfl,rfl,by simp⟩

structure Configuration.ReadOnlyKept (P : Platform) (c c' : Configuration) : Prop where
  value : ∀ i, i.has .apiReadOnly = true → c'.value i = c.value i
  valid : ∀ i, i.has .apiReadOnly = true → P.check i (c.value i) = none

/-- The file is the first one, or absent, or was written with these values of the items. -/
def Host.FileKept (c : Configuration) (toml : Option TomlFile) (h : Host) : Prop :=
  h.toml = toml ∨ h.toml = none ∨
    ∃ header values forced, h.toml = some ⟨header,.lines values forced⟩ ∧
      ∀ i, i.has .apiReadOnly = true → values i = c.value i

namespace Configuration.ReadOnlyKept

variable {P : Platform} {c c' c'' : Configuration}

theorem keeps (h : c.ReadOnlyKept P c')
    (hk : c'.Keeps (fun i => i.has .apiReadOnly = true) c'') : c.ReadOnlyKept P c'' :=
  ⟨fun i hi => (hk.value i hi).trans (h.value i hi),h.valid⟩

theorem reset (h : c.ReadOnlyKept P c') : c.ReadOnlyKept P (P.resetConfig c') := by
  refine ⟨fun i hi => ?_,h.valid⟩
  have hf : i ∉ writtenFiles :=
    of_readOnly (p := fun i => i ∉ writtenFiles) (by decide) hi
  rw [P.resetConfig_value ?_ hf,h.value i hi]
  rw [h.value i hi]
  exact h.valid i hi

end Configuration.ReadOnlyKept

theorem Configuration.lines_readOnly (c : Configuration) :
    ∃ values forced, c.lines = .lines values forced ∧
      ∀ i, i.has .apiReadOnly = true → values i = c.value i := by
  refine ⟨_,_,rfl,?_⟩
  intro i hi
  have hp : i.has .pseudoItem = false :=
    of_readOnly (p := fun i => i.has .pseudoItem = false) (by decide) hi
  simp [hp]

namespace Host

variable {S : Site} {c : Configuration} {toml : Option TomlFile} {h : Host}

def ReadOnlyKept (S : Site) (c : Configuration) (toml : Option TomlFile) (h : Host) : Prop :=
  c.ReadOnlyKept S.platform h.config ∧ h.FileKept c toml

theorem write_readOnlyKept (hk : h.ReadOnlyKept S c toml) (header : List Char) :
    (h.write header).ReadOnlyKept S c toml := by
  have hc : c.ReadOnlyKept S.platform (h.write header).config :=
    hk.1.keeps ((h.write_keeps header).mono (fun i hi => readOnly_ne hi (by decide)))
  refine ⟨hc,?_⟩
  rcases h.write_toml header with ht | ht
  · rw [FileKept,ht]
    exact hk.2
  obtain ⟨values,forced,hl,hv⟩ := (h.write header).config.lines_readOnly
  refine .inr (.inr ⟨header,values,forced,by rw [ht,hl],?_⟩)
  intro i hi
  rw [hv i hi,hc.value i hi]

theorem editConfig_readOnlyKept (hk : h.ReadOnlyKept S c toml) (r : ConfigRequest)
    (header : List Char) : (h.editConfig S r header).ReadOnlyKept S c toml := by
  unfold editConfig
  split
  · exact hk
  split
  · exact hk
  rename_i s he
  split
  · refine write_readOnlyKept (h := { h with config := s.conf.setDebugFlags })
      ⟨⟨fun i hi => ?_,hk.1.valid⟩,hk.2⟩ header
    have ha : r.aliases i = false := by
      simp only [ConfigRequest.aliases,Json.aliases,List.any_eq_false]
      intro j _ hj
      simp at hj
      exact hj.1.1 (readOnly_sets hi hj.2)
    have ht : i.type ≠ .password :=
      of_readOnly (p := fun i => i.type ≠ .password) (by decide) hi
    rw [Configuration.setDebugFlags_value_of_ne _ (readOnly_ne hi (by decide)),
      Platform.edit_guarded (by simp [Configuration.guarded,hi]) ht ha he,hk.1.value i hi]
  · exact hk

variable (P : Platform) (live : Option Configuration) (doc : Toml) (new : Configuration)

theorem readItem_readOnly (i : Item) : new.Keeps (fun j => j.has .apiReadOnly = true)
      (P.readItem live ⟨doc,[],fun _ => none,true,false⟩ new i) := by
  simp only [Platform.readItem,Platform.readFromDoc,if_true,true_and]
  split
  · exact .refl _ new
  rename_i hi
  refine (P.readTOMLvalue_keeps i _ new).mono ?_
  intro j hj
  by_contra hs
  obtain rfl := readOnly_sets hj (by simpa using hs)
  exact hi hj

theorem readDebugConfig_readOnly : new.Keeps (fun j => j.has .apiReadOnly = true)
      (P.readDebugConfig live ⟨doc,[],fun _ => none,true,false⟩ new) := by
  refine .trans ((P.readTOMLvalue_keeps .debugConfig _ new).mono ?_) (.setDebugFlags _ (by decide))
  intro j hj
  by_contra hs
  have he : debugConfig = j := readOnly_sets hj (by simpa using hs)
  subst he
  exact absurd hj (by decide)

theorem migrateConfig_readOnly :
    new.Keeps (fun j => j.has .apiReadOnly = true) (Platform.migrateConfig doc new) := by
  unfold Platform.migrateConfig
  split <;> split
  · exact (keeps_set_of_not_readOnly _ _ (by decide)).trans
      (keeps_set_of_not_readOnly _ _ (by decide))
  · exact keeps_set_of_not_readOnly _ _ (by decide)
  · exact keeps_set_of_not_readOnly _ _ (by decide)
  · exact .refl _ _

theorem readDocument_readOnly : new.Keeps (fun j => j.has .apiReadOnly = true)
      (P.readDocument live ⟨doc,[],fun _ => none,true,false⟩ new) :=
  (((readDebugConfig_readOnly P live doc new).trans
    (.foldl (readItem_readOnly P live doc) _ Item.all)).trans
      (migrateConfig_readOnly doc _)).trans (.setDebugFlags _ (by decide))

theorem importMember_readOnlyKept {h' : Host} {selection : Option Json} {header : List Char}
    {m : ZipMember} (hk : h.ReadOnlyKept S c toml)
    (hi : h.importMember S selection header m = .ok h') : h'.ReadOnlyKept S c toml := by
  obtain ⟨hc,ht⟩ | ⟨doc,-,-,rfl⟩ := importMember_cases hi
  · unfold ReadOnlyKept FileKept
    rw [hc,ht]
    exact hk
  · exact write_readOnlyKept (h := { h with config := _ })
      ⟨hk.1.keeps (readDocument_readOnly _ _ doc _),hk.2⟩ header

theorem keeps_lorentzConf (S : Site) (h : Host)
    (hroot : h.legacyPath "WEBROOT" .webserverPathsWebroot = h.config.value .webserverPathsWebroot)
    (hhome : h.legacyPath "WEBHOME" .webserverPathsWebhome = h.config.value .webserverPathsWebhome) :
    ∀ i, i.has .apiReadOnly = true →
      (h.lorentzConf.elim h.config
        (fun text => readLorentzlegacy S.platform text h.config)).value i = h.config.value i := by
  intro i hi
  by_cases hr : i = .webserverPathsWebroot
  · rw [hr,lorentzConf_webroot,hroot]
  by_cases hm : i = .webserverPathsWebhome
  · rw [hm,lorentzConf_webhome,hhome]
  cases h.lorentzConf with
  | none => rfl
  | some text =>
    refine (readLorentzlegacy_keeps S.platform text h.config).value i ?_
    refine of_readOnly (p := fun i => i ≠ .webserverPathsWebroot →
      i ≠ .webserverPathsWebhome → i ∉ LegacyKey.allSets lorentzconfKeys ∧
        i.isDebug = false ∧ i ≠ .debugAll) (by decide) hi hr hm

/-- A `lorentz.conf` that is migrated names the paths that are configured, or none. -/
def keepsPaths (h : Host) : ApiEvent → Bool
  | .tar selection (some a) _ =>
    let h := h.unpacked selection a
    h.legacyPath "WEBROOT" .webserverPathsWebroot = h.config.value .webserverPathsWebroot &&
      h.legacyPath "WEBHOME" .webserverPathsWebhome = h.config.value .webserverPathsWebhome
  | _ => true

theorem processReceivedTarGz_readOnlyKept {selection : Option Json} {a : TarArchive}
    {header : List Char} (hk : h.ReadOnlyKept S c toml)
    (hp : h.keepsPaths (.tar selection (some a) header) = true) :
    (h.processReceivedTarGz S selection a header).ReadOnlyKept S c toml := by
  simp only [keepsPaths,Bool.and_eq_true,decide_eq_true_eq] at hp
  refine write_readOnlyKept (h := { h with config := _, toml := _ }) ⟨.reset ?_,?_⟩ header
  · refine ⟨fun i hi => ?_,hk.1.valid⟩
    rw [legacyConfig_lorentzConf (of_readOnly (p := fun i =>
      i ∉ LegacyKey.allSets setupVarsKeys ∧ i ≠ .dhcpHosts ∧ i ≠ .dnsCnameRecords ∧
        i ≠ .dnsHosts ∧ i ≠ .webserverPort) (by decide) hi)]
    exact (keeps_lorentzConf S (h.unpacked selection a) hp.1 hp.2 i hi).trans (hk.1.value i hi)
  · exact .inr (.inl rfl)

theorem serve_readOnlyKept {e : ApiEvent} (hk : h.ReadOnlyKept S c toml)
    (he : h.keepsPaths e = true) : (h.serve S e).ReadOnlyKept S c toml := by
  cases e with
  | edit r header => exact editConfig_readOnlyKept hk r header
  | zip selection members header =>
    exact readTeleporterZip_rule hk fun _ _ _ _ hk hi => importMember_readOnlyKept hk hi
  | tar selection archive header =>
    cases archive with
    | none => exact hk
    | some a => exact processReceivedTarGz_readOnlyKept hk he

def started (S : Site) (h : Host) : Host := { h with config := S.platform.resetConfig h.config }

/-- No request changes an item that is read-only for the API, in the running configuration or in a
file it writes, if archives of older versions bring no other paths. -/
theorem readOnly_items_unchanged (S : Site) (h : Host) (es : List ApiEvent)
    (he : Machine.Meets (serve S) keepsPaths (h.started S) es = true) :
    (∀ i, i.has .apiReadOnly = true →
      (Machine.run (serve S) (h.started S) es).config.value i = (h.started S).config.value i) ∧
    (Machine.run (serve S) (h.started S) es).FileKept (h.started S).config h.toml := by
  have hk : (Machine.run (serve S) (h.started S) es).ReadOnlyKept S (h.started S).config h.toml := by
    refine Machine.Meets.keeps (I := ReadOnlyKept S (h.started S).config h.toml) ?_ ?_ he
    · exact fun h e he hk => serve_readOnlyKept hk he
    · refine ⟨⟨fun _ _ => rfl,fun i hi => ?_⟩,.inl rfl⟩
      exact S.platform.resetConfig_check h.config (S.platform.check_readOnly_dflt hi)
  exact ⟨hk.1.value,hk.2⟩

def confArchive (text : String) : TarArchive := ⟨none,none,some text.toList,none,none,none⟩

theorem readOnly_items_sample :
    let S := Site.plain []
    let es : List ApiEvent :=
      [.tar none (some (confArchive "MAXDBDAYS=30")) [],
        .edit (.put "misc/dnsmasq_lines/log-debug".toList) [],
        .zip none [.lorentzToml (.ok (.table [("webserver".toList,.table [("paths".toList,
          .table [("webroot".toList,.str "/srv".toList)])])]))] []]
    (Machine.run (serve S) ((Host.fresh .initial).started S) es).config.value .miscDnsmasqLines =
      ((Host.fresh .initial).started S).config.value .miscDnsmasqLines :=
  (readOnly_items_unchanged _ _ _ (by decide +kernel)).1 .miscDnsmasqLines (by decide)

theorem readOnly_webroot_imported :
    let S := Site.plain []
    let h := (Host.fresh .initial).started S
    h.config.value .webserverPathsWebroot = .text "/var/www/html".toList ∧
      (h.serve S (.tar none (some (confArchive "WEBROOT=/srv/www")) [])).config.value
        .webserverPathsWebroot = .text "/srv/www".toList := by
  refine ⟨by decide,?_⟩
  decide +kernel

end Host

theorem ConfigRequest.precheck_readOnly (r : ConfigRequest) {live : Configuration}
    (h : live.bool .miscReadOnly = true) : (r.precheck live).isSome = true := by
  cases r with
  | patch payload =>
    cases payload with
    | error hint => cases hint <;> simp [precheck]
    | ok body =>
      simp only [precheck,h,if_true]
      split <;> rfl
  | put item =>
    simp only [precheck,h,if_true]
    split <;> rfl
  | delete item =>
    simp only [precheck,h,if_true]
    split <;> rfl

def ZipMember.bringsNone : ZipMember → Bool
  | .lorentzToml (.ok _) => false
  | _ => true

namespace Host

variable (S : Site)

theorem editConfig_readOnly {h : Host} (hr : h.config.bool .miscReadOnly = true)
    (r : ConfigRequest) (header : List Char) : h.editConfig S r header = h := by
  have hp := r.precheck_readOnly hr
  unfold editConfig
  cases hc : r.precheck h.config with
  | none => simp [hc] at hp
  | some e => rfl

theorem setConfigFromCLI_readOnly (h : Host) {env : Item → Option (List Char)}
    {backups : List TomlFile}
    (hr : (S.readLorentzconf env (h.toml.toList ++ backups)).bool .miscReadOnly = true)
    (key value header : List Char) :
    h.setConfigFromCLI S env backups key value header = h := by
  simp [setConfigFromCLI,Site.setting,hr]

theorem readTeleporterZip_untouched {selection : Option Json} {header : List Char}
    {members : List ZipMember} (h : Host)
    (hm : selects selection "config" = false ∨ members.all ZipMember.bringsNone = true) :
    h.Untouched (readTeleporterZip S selection header members h).1 := by
  refine readTeleporterZip_rule (I := h.Untouched) ⟨rfl,rfl⟩ fun h₁ h₂ m hmem hu hi => ?_
  obtain ⟨hc,ht⟩ | ⟨doc,rfl,hs,-⟩ := importMember_cases hi
  · exact ⟨hc.trans hu.1,ht.trans hu.2⟩
  obtain hm | hm := hm
  · rw [hm] at hs
    cases hs
  · exact absurd (List.all_eq_true.mp hm _ hmem) (by simp [ZipMember.bringsNone])

/-- Nothing imported brings a configuration, the settings the command line finds are read-only
too, and nobody edits the file. -/
def leavesConfig (h : Host) : HostEvent → Bool
  | .api (.edit _ _) => true
  | .api (.zip selection members _) =>
    !selects selection "config" || members.all ZipMember.bringsNone
  | .api (.tar _ archive _) => archive.isNone
  | .cli env backups _ _ _ =>
    (S.readLorentzconf env (h.toml.toList ++ backups)).bool .miscReadOnly
  | .file _ => false
  | .reread _ => h.toml.all (fun file => h.lastChecksum.any file.sameSum)

theorem step_untouched {h : Host} {e : HostEvent} (hr : h.config.bool .miscReadOnly = true)
    (he : h.leavesConfig S e = true) : h.Untouched (h.step S e) := by
  cases e with
  | api e =>
    cases e with
    | edit r header =>
      simp only [step,serve,editConfig_readOnly S hr]
      exact ⟨rfl,rfl⟩
    | zip selection members header =>
      simp [leavesConfig] at he
      refine readTeleporterZip_untouched S h ?_
      simpa using he
    | tar selection archive header =>
      simp [leavesConfig] at he
      subst he
      exact ⟨rfl,rfl⟩
  | cli env backups key value header =>
    simp only [step,setConfigFromCLI_readOnly S h he]
    exact ⟨rfl,rfl⟩
  | file toml => simp [leavesConfig] at he
  | reread header =>
    simp only [step,reread]
    split
    · exact ⟨rfl,rfl⟩
    rename_i hf
    simp only [leavesConfig,hf,Option.all_some] at he
    simp only [he,if_true]
    exact ⟨rfl,rfl⟩

/-- In read-only mode no item and no byte of the file changes in a run whose steps leave the
configuration alone. -/
theorem readOnly_mode_holds (h : Host) (es : List HostEvent)
    (hr : h.config.bool .miscReadOnly = true)
    (he : Machine.Meets (step S) (leavesConfig S) h es = true) :
    (Machine.run (step S) h es).config = h.config ∧
      (Machine.run (step S) h es).toml = h.toml ∧
        (Machine.run (step S) h es).config.bool .miscReadOnly = true := by
  have hk : h.Untouched (Machine.run (step S) h es) := by
    refine Machine.Meets.keeps (I := h.Untouched) ?_ ⟨rfl,rfl⟩ he
    intro h' e ha hu
    have hr' : h'.config.bool .miscReadOnly = true := by rw [hu.1,hr]
    obtain ⟨hc,ht⟩ := step_untouched S hr' ha
    exact ⟨hc.trans hu.1,ht.trans hu.2⟩
  exact ⟨hk.1,hk.2,by rw [hk.1,hr]⟩

def readOnlyDoc (b : Bool) : Toml :=
  .table [("misc".toList,.table [("readOnly".toList,.bool b)])]

def lockedHost : Host := .fresh (Configuration.initial.set .miscReadOnly (.bool true))

def lockedText : List Char := "[misc]\nreadOnly = true\n".toList

def lockedSite : Site := .plain [(lockedText,readOnlyDoc true,[])]

theorem readOnly_mode_sample :
    let es : List HostEvent :=
      [.api (.edit (.put "dns/upstreams/9.9.9.9".toList) []),
        .api (.zip none [.dhcpLeases "1 a b".toList,.other] []),.api (.tar none none []),
        .cli (fun _ => none) [⟨[],.other lockedText⟩] "dns.port".toList "54".toList []]
    Machine.Meets (step lockedSite) (leavesConfig lockedSite) lockedHost es = true ∧
      (Machine.run (step lockedSite) lockedHost es).toml = none := by
  have he : Machine.Meets (step lockedSite) (leavesConfig lockedSite) lockedHost
        [.api (.edit (.put "dns/upstreams/9.9.9.9".toList) []),
          .api (.zip none [.dhcpLeases "1 a b".toList,.other] []),.api (.tar none none []),
          .cli (fun _ => none) [⟨[],.other lockedText⟩] "dns.port".toList "54".toList []] = true := by
    decide +kernel
  exact ⟨he,(readOnly_mode_holds _ lockedHost _ (by decide) he).2.1⟩

/-- An archive that switches the mode off is imported in it, and the file is written. -/
theorem readOnly_mode_imported :
    let h := lockedHost.step lockedSite
      (.api (.zip none [.lorentzToml (.ok (readOnlyDoc false))] []))
    lockedHost.config.bool .miscReadOnly = true ∧ h.config.bool .miscReadOnly = false ∧
      lockedHost.toml.isSome = false ∧ h.toml.isSome = true := by
  decide +kernel

end Host

end Lorentz
