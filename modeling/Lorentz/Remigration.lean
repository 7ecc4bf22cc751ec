import Lorentz.Teleporter

/-!
An archive of an older version whose configuration is not selected: the migration is made
nevertheless, and `lorentz.toml` is written anew.
-/

set_option autoImplicit false

namespace Lorentz
open Lorentz.Configuration Platform List

variable {key : List Char} {c c' : Configuration}

theorem findEquals_key (hk : '=' ∉ key) (s : List Char) :
    findEquals (key ++ '=' :: s) = s.takeWhile (fun c => c ≠ ' ') := by
  have hd : (key ++ '=' :: s).dropWhile (fun c => c ≠ '=') = '=' :: s := by
    induction key with
    | nil => simp
    | cons c key ih =>
      simp only [mem_cons,not_or] at hk
      simp [Ne.symm hk.1]
      simpa using ih hk.2
  rw [findEquals,hd]
  simp

theorem equals_of_infix {p s : List Char} (hp : p.length ≤ key.length)
    (h : key ++ ['='] <:+: p ++ s) : '=' ∈ s := by
  obtain ⟨a,b,hab⟩ := h
  have hs : s = (a ++ key ++ '=' :: b).drop p.length := by
    have : a ++ key ++ '=' :: b = p ++ s := by simpa using hab
    rw [this]
    simp
  rw [hs,drop_append_of_le_length (by simp; omega)]
  simp

def webPortsKey : List Char := "WEB_PORTS".toList

theorem webPortsKey_eq : webPortsKey = ['W','E','B','_','P','O','R','T','S'] := by decide

theorem equals_not_mem_webPortsKey : '=' ∉ webPortsKey := by simp [webPortsKey_eq]

theorem lineOf_of_first {text line : List Char} {lines : List (List Char)}
    (ht : text.splitOn '\n' = line :: lines) (hc : commentLine line = false)
    (hk : key ++ ['='] <:+: line) : lineOf text key = some line := by
  simp [lineOf,ht,hc,hk]

namespace Host

variable (h : Host)

theorem webPorts_eq :
    h.webPorts = webPortsKey ++ '=' :: (h.config.text .webserverPort ++ ['\n']) := by
  have hw : h.webPorts = webPortsKey ++ ['='] ++ h.config.text .webserverPort ++ ['\n'] := by
    rfl
  rw [hw,append_assoc,append_assoc,singleton_append]

theorem webPorts_lines : ∃ first more,
    h.config.text .webserverPort ++ ['\n'] = first ++ '\n' :: more ∧
      h.webPorts.splitOn '\n' = (webPortsKey ++ '=' :: first) :: more.splitOn '\n' := by
  obtain ⟨first,more,heq,hnot⟩ := eq_append_cons_of_mem
    (show '\n' ∈ h.config.text .webserverPort ++ ['\n'] by simp)
  refine ⟨first,more,heq,?_⟩
  have hkey : '\n' ∉ webPortsKey := by simp [webPortsKey_eq]
  have hline : ∀ c ∈ webPortsKey ++ '=' :: first, (c == '\n') = false := by
    intro c hc
    simp only [mem_append,mem_cons] at hc
    rw [beq_eq_false_iff_ne]
    rintro rfl
    rcases hc with hc | hc | hc
    · exact hkey hc
    · cases hc
    · exact hnot hc
  have hsplit := splitOnP_append_cons_of_forall_mem hline '\n' (by simp) more
  rw [webPorts_eq,heq]
  simpa [splitOn] using hsplit

theorem found_of_lines {h : Host} {first : List Char} {lines : List (List Char)}
    (hl : h.webPorts.splitOn '\n' = (webPortsKey ++ '=' :: first) :: lines) :
    readSetupVarsconf h.webPorts webPortsKey = some (first.takeWhile (fun c => c ≠ ' ')) := by
  have hhead : webPortsKey.head? = some 'W' := by simp [webPortsKey_eq]
  have hc : commentLine (webPortsKey ++ '=' :: first) = false := by
    simp [commentLine,head?_append,hhead]
  have hi : webPortsKey ++ ['='] <:+: webPortsKey ++ '=' :: first := ⟨[],first,by simp⟩
  rw [readSetupVarsconf,lineOf_of_first hl hc hi,Option.map_some,
    findEquals_key equals_not_mem_webPortsKey]

theorem webPorts_isSome : (readSetupVarsconf h.webPorts webPortsKey).isSome = true := by
  obtain ⟨first,more,-,hl⟩ := h.webPorts_lines
  simp [found_of_lines hl]

variable {h : Host}

variable (hp : readSetupVarsconf h.webPorts webPortsKey = some (h.config.text .webserverPort))
include hp

theorem webPorts_line :
    h.webPorts.splitOn '\n' = [webPortsKey ++ '=' :: h.config.text .webserverPort,[]] := by
  obtain ⟨first,more,heq,hl⟩ := h.webPorts_lines
  rw [found_of_lines hl,Option.some.injEq] at hp
  have hlen := congrArg List.length heq
  have hle := (List.takeWhile_prefix (l := first) (fun c => decide (c ≠ ' '))).length_le
  rw [hp] at hle
  simp at hlen
  have hm : more = [] := eq_nil_of_length_eq_zero (by omega)
  have hf : h.config.text .webserverPort = first := by
    subst hm
    exact (append_left_inj _).1 heq
  rw [hl,hm,hf]
  rfl

theorem webPorts_others {key s : List Char} (hs : readSetupVarsconf h.webPorts key = some s) :
    s = h.config.text .webserverPort ∧
      key ++ ['='] <:+: webPortsKey ++ '=' :: h.config.text .webserverPort := by
  have hl := webPorts_line hp
  obtain ⟨line,hline,rfl⟩ := Option.map_eq_some_iff.1 hs
  have hmem := mem_of_find?_eq_some hline
  have hkey := find?_some hline
  simp only [Bool.and_eq_true,decide_eq_true_eq] at hkey
  rw [hl] at hmem
  simp only [mem_cons,not_mem_nil,or_false] at hmem
  rcases hmem with rfl | rfl
  · rw [found_of_lines hl,Option.some.injEq] at hp
    exact ⟨by rw [findEquals_key equals_not_mem_webPortsKey,hp],hkey.2⟩
  · have := hkey.2
    simp at this

end Host

/-- What `validate_config` makes of a value, but for the rule about the paths. -/
def Platform.settled (P : Platform) (i : Item) (v : ConfVal) : ConfVal :=
  if (P.check i v).isNone then v else i.dflt

theorem Platform.settled_or (P : Platform) (i : Item) (v : ConfVal) :
    P.settled i v = v ∨ P.settled i v = i.dflt := by
  unfold settled
  split <;> simp

@[simp] theorem Platform.settled_settled (P : Platform) (i : Item) (v : ConfVal) :
    P.settled i (P.settled i v) = P.settled i v := by
  unfold settled
  split_ifs <;> simp_all

theorem validateConfigPaths_congr (h : c'.value = c.value) :
    validateConfigPaths c' = validateConfigPaths c := by
  cases c
  cases c'
  cases h
  rfl

theorem resolveConfigPaths_congr (h : c'.value = c.value) (n : Nat) :
    (resolveConfigPaths n c').value = (resolveConfigPaths n c).value := by
  induction n generalizing c c' with
  | zero => exact h
  | succ n ih =>
    simp only [resolveConfigPaths,validateConfigPaths_congr h]
    split
    · exact h
    · exact ih (by simp [resetDefault,Configuration.set,h])

theorem resolveConfigPaths_value_iff (c : Configuration) (n : Nat) :
    (resolveConfigPaths (n+1) c).value = c.value ↔
      ∀ o err, validateConfigPaths c = some (o,err) → c.value o = o.dflt := by
  constructor
  · intro h o err ho
    have hd : (c.resetDefault o).value o = o.dflt := c.set_value_self o _
    have hv : (resolveConfigPaths (n+1) c).value o =
      (resolveConfigPaths n (c.resetDefault o)).value o := by
      simp [resolveConfigPaths,ho]
    rcases resolveConfigPaths_value_or n (c.resetDefault o) o with hr | hr
    · rw [← h,hv,hr,hd]
    · rw [← h,hv,hr]
  intro h
  have hall (n : Nat) : (resolveConfigPaths n c).value = c.value := by
    induction n with
    | zero => rfl
    | succ n ih =>
      unfold resolveConfigPaths
      split
      · rfl
      rename_i o err ho
      refine (resolveConfigPaths_congr ?_ n).trans ih
      rw [resetDefault,← h o err ho]
      simp [Configuration.set]
  exact hall (n+1)

theorem Configuration.lines_congr (hv : c'.value = c.value) (he : c'.envVar = c.envVar) :
    c'.lines = c.lines := by
  simp only [lines,forcedKeys,hv,he]

namespace Host

theorem write_config (h : Host) (header : List Char) :
    (h.write header).config =
      if h.config.bool .miscReadOnly then h.config else h.config.sanitizeDnsHosts := by
  simp only [write,writeLorentztoml]
  split_ifs <;> rfl

theorem write_none {h : Host} (ht : h.toml = none) (header : List Char) :
    (h.write header).toml =
      if h.config.bool .miscReadOnly then none
      else some ⟨header,h.config.sanitizeDnsHosts.lines⟩ := by
  simp only [write,writeLorentztoml,ht]
  split_ifs <;> simp_all

variable (P : Platform) (h : Host)

/-- The running configuration with the line of the ports, and with the two files for dnsmasq
that stay on the disk. -/
def leftover : Configuration :=
  readList .dnsCnameRecords (fun text => dnsmasqValues text "cname".toList) h.cnames
    (readList .dhcpHosts (fun text => dnsmasqValues text "dhcp-host".toList) h.staticLeases
      (importsetupVarsConf P h.webPorts h.config))

theorem leftover_key {k : LegacyKey} (hk : k ∈ setupVarsKeys) {i : Item} (hi : i ∈ k.sets) :
    (h.leftover P).value i = (k.read P (readSetupVarsconf h.webPorts) h.config).value i := by
  have hall : ∀ j ∈ LegacyKey.allSets setupVarsKeys, j ≠ .dhcpHosts ∧ j ≠ .dnsCnameRecords := by
    decide
  obtain ⟨hl,hc⟩ := hall i (mem_flatMap.2 ⟨k,hk,hi⟩)
  rw [leftover,readList_value (.inl hc),readList_value (.inl hl),
    importsetupVarsConf_value P _ _ hk hi]

theorem leftover_other {i : Item} (hs : i ∉ LegacyKey.allSets setupVarsKeys)
    (hl : i ≠ .dhcpHosts ∨ h.staticLeases = none)
    (hc : i ≠ .dnsCnameRecords ∨ h.cnames = none) :
    (h.leftover P).value i = h.config.value i := by
  rw [leftover,readList_value hc,readList_value hl]
  exact (importsetupVarsConf_keeps P _ _).value i hs

theorem leftover_dhcpHosts {text : List Char} (ht : h.staticLeases = some text) :
    (h.leftover P).value .dhcpHosts = .strings (dnsmasqValues text "dhcp-host".toList) := by
  rw [leftover,readList_value (.inl (by decide)),ht]
  exact set_value_self _ _ _

theorem leftover_cnames {text : List Char} (ht : h.cnames = some text) :
    (h.leftover P).value .dnsCnameRecords = .strings (dnsmasqValues text "cname".toList) := by
  rw [leftover,ht]
  exact set_value_self _ _ _

/-- What is left over gives the items the values they have. -/
structure Agrees : Prop where
  keys : ∀ k ∈ setupVarsKeys, ∀ i ∈ k.sets,
    P.settled i ((k.read P (readSetupVarsconf h.webPorts) h.config).value i) = h.config.value i
  staticLeases : ∀ text ∈ h.staticLeases,
    P.settled .dhcpHosts (.strings (dnsmasqValues text "dhcp-host".toList)) =
      h.config.value .dhcpHosts
  cnames : ∀ text ∈ h.cnames,
    P.settled .dnsCnameRecords (.strings (dnsmasqValues text "cname".toList)) =
      h.config.value .dnsCnameRecords
  valid : ∀ i, P.check i (h.config.value i) = none ∨ h.config.value i = i.dflt

theorem agrees_iff :
    h.Agrees P ↔ ∀ i, P.settled i ((h.leftover P).value i) = h.config.value i := by
  constructor
  · intro ha i
    have hv : P.settled i (h.config.value i) = h.config.value i := by
      rcases ha.valid i with hv | hv
      · simp [settled,hv]
      · rw [hv,settled]
        split <;> rfl
    by_cases hs : i ∈ LegacyKey.allSets setupVarsKeys
    · obtain ⟨k,hk,hi⟩ := mem_flatMap.1 hs
      rw [leftover_key P h hk hi,ha.keys k hk i hi]
    by_cases hl : i ≠ .dhcpHosts ∨ h.staticLeases = none
    · by_cases hc : i ≠ .dnsCnameRecords ∨ h.cnames = none
      · rw [leftover_other P h hs hl hc,hv]
      simp only [ne_eq,not_or,not_not,← Option.isSome_iff_ne_none] at hc
      obtain ⟨rfl,hc⟩ := hc
      obtain ⟨text,ht⟩ := Option.isSome_iff_exists.1 hc
      rw [leftover_cnames P h ht,ha.cnames text ht]
    · simp only [ne_eq,not_or,not_not,← Option.isSome_iff_ne_none] at hl
      obtain ⟨rfl,hl⟩ := hl
      obtain ⟨text,ht⟩ := Option.isSome_iff_exists.1 hl
      rw [leftover_dhcpHosts P h ht,ha.staticLeases text ht]
  intro ha
  refine ⟨?_,?_,?_,?_⟩
  · intro k hk i hi
    rw [← leftover_key P h hk hi,ha]
  · intro text ht
    rw [← leftover_dhcpHosts P h ht,ha]
  · intro text ht
    rw [← leftover_cnames P h ht,ha]
  intro i
  have hv : P.settled i (h.config.value i) = h.config.value i := by
    rw [← ha i,settled_settled]
  unfold settled at hv
  split at hv
  · rename_i hc
    exact .inl (by simpa using hc)
  · exact .inr hv.symm

def sameStored : Option TomlFile → Option TomlFile → Bool
  | none, none => true
  | some f, some f' => f.body.same f'.body
  | _, _ => false

/-- The running configuration and the files it is stored in or read from are the same. -/
structure SameConfig (h h' : Host) : Prop where
  value : ∀ i, h'.config.value i = h.config.value i
  stored : sameStored h.toml h'.toml = true
  lorentzConf : h'.lorentzConf = h.lorentzConf
  setupVars : h'.setupVars = h.setupVars
  customList : h'.customList = h.customList
  staticLeases : h'.staticLeases = h.staticLeases
  cnames : h'.cnames = h.cnames

structure Steady (S : Site) (h : Host) : Prop where
  lorentzConf : h.lorentzConf = none
  setupVars : h.setupVars = none
  customList : h.customList = none
  agrees : h.Agrees S.platform
  paths : ∀ o err, validateConfigPaths h.config = some (o,err) → h.config.value o = o.dflt
  stored :
    if h.config.bool .miscReadOnly then h.toml = none
    else h.config.sanitizeDnsHosts.value .dnsHosts = h.config.value .dnsHosts ∧
      h.toml.any (fun f => f.body.same h.config.lines) = true

variable {S : Site} {h : Host} {selection : Option Json} (a : TarArchive) (header : List Char)

def remade (S : Site) (h : Host) (selection : Option Json) (a : TarArchive) : Configuration :=
  S.platform.resetConfig ((h.unpacked selection a).legacyConfig S)

theorem remade_envVar : (remade S h selection a).envVar = h.config.envVar := by
  rw [remade,resetConfig,resolveConfigPaths_envVar]
  exact legacyConfig_envVar S _

theorem processReceivedTarGz_config :
    (h.processReceivedTarGz S selection a header).config =
      if (remade S h selection a).bool .miscReadOnly then remade S h selection a
      else (remade S h selection a).sanitizeDnsHosts :=
  write_config _ header

theorem processReceivedTarGz_toml :
    (h.processReceivedTarGz S selection a header).toml =
      if (remade S h selection a).bool .miscReadOnly then none
      else some ⟨header,(remade S h selection a).sanitizeDnsHosts.lines⟩ :=
  write_none rfl header

theorem legacyConfig_off (hoff : selects selection "config" = false)
    (hl : h.lorentzConf = none) (hs : h.setupVars = none) (hc : h.customList = none) (i : Item) :
    ((h.unpacked selection a).legacyConfig S).value i = (h.leftover S.platform).value i := by
  have hw := h.webPorts_isSome
  simp only [legacyConfig,unpacked,extractFiles,hoff,extract,hl,hs,hc,Bool.false_eq_true,if_false,
    Option.elim_none,Option.elim_some,Option.getD_none,nil_append]
  rw [getWebPort_value]
  · rfl
  · right
    simp only [readList_portImported,importsetupVarsConf,Bool.or_eq_true]
    exact .inr hw

theorem stringVar_read (P : Platform) (look : List Char → Option (List Char)) (key : String)
    (i : Item) (c : Configuration) :
    ((stringVar key i).read P look c).value i = (look key.toList).elim (c.value i) ConfVal.text := by
  cases hl : look key.toList with
  | none =>
    simp [stringVar,LegacyKey.item,LegacyKey.one,LegacyKey.of,LegacyKey.read,setAll,hl]
  | some s =>
    simp [stringVar,LegacyKey.item,LegacyKey.one,LegacyKey.of,LegacyKey.read,setAll,hl]

theorem webPorts_of_settled {P : Platform}
    (hv : P.settled .webserverPort ((h.leftover P).value .webserverPort) =
      h.config.value .webserverPort) :
    readSetupVarsconf h.webPorts webPortsKey = some (h.config.text .webserverPort) := by
  have hk : stringVar "WEB_PORTS" .webserverPort ∈ setupVarsKeys :=
    mem_of_getElem? (i := 27) rfl
  obtain ⟨s,hs⟩ := Option.isSome_iff_exists.1 h.webPorts_isSome
  have hl : (h.leftover P).value .webserverPort = .text s := by
    rw [leftover_key P h hk (mem_singleton_self _),stringVar_read]
    change (readSetupVarsconf h.webPorts webPortsKey).elim _ _ = _
    rw [hs]
    rfl
  have hc : P.check .webserverPort (.text s) = none := rfl
  rw [hl,settled,hc] at hv
  rw [hs,Configuration.text,← hv]
  rfl

theorem leftover_gravityTmp {P : Platform}
    (hp : readSetupVarsconf h.webPorts webPortsKey = some (h.config.text .webserverPort)) :
    P.settled .filesGravityTmp ((h.leftover P).value .filesGravityTmp) =
        h.config.value .filesGravityTmp ∨
      P.settled .filesGravityTmp ((h.leftover P).value .filesGravityTmp) =
        Item.dflt .filesGravityTmp := by
  have hk : stringVar "GRAVITY_TMPDIR" .filesGravityTmp ∈ setupVarsKeys :=
    mem_of_getElem? (i := 26) rfl
  rw [leftover_key P h hk (mem_singleton_self _),stringVar_read]
  cases hs : readSetupVarsconf h.webPorts "GRAVITY_TMPDIR".toList with
  | none => exact P.settled_or _ _
  | some s =>
    obtain ⟨rfl,hi⟩ := webPorts_others hp hs
    have hlen : (webPortsKey ++ ['=']).length ≤ "GRAVITY_TMPDIR".toList.length := by
      decide
    have heq : '=' ∈ h.config.text .webserverPort := by
      refine equals_of_infix hlen ?_
      simpa using hi
    right
    have hc : (P.check .filesGravityTmp (.text (h.config.text .webserverPort))).isNone = false := by
      change (validateFilepath _ (h.config.text .webserverPort)).isNone = false
      have hall : (h.config.text .webserverPort).all isPathChar = false := by
        rw [all_eq_false]
        exact ⟨'=',heq,by decide⟩
      simp [validateFilepath,hall]
    simp [settled,hc]

theorem remade_of_written {i : Item} (hi : i ≠ .dnsHosts) :
    (h.processReceivedTarGz S selection a header).config.value i =
      (remade S h selection a).value i := by
  rw [processReceivedTarGz_config]
  split
  · rfl
  · exact set_value_of_ne _ hi _

section

variable (hoff : selects selection "config" = false) (hl : h.lorentzConf = none)
  (hs : h.setupVars = none) (hc : h.customList = none)

include hoff hl hs hc

theorem remade_value :
    (remade S h selection a).value =
      (resolveConfigPaths (writtenFiles.length+1)
        (S.platform.resetInvalid (h.leftover S.platform))).value := by
  refine resolveConfigPaths_congr ?_ _
  funext i
  simp only [resetInvalid,legacyConfig_off a hoff hl hs hc]

theorem remade_plain {i : Item} (hw : i ≠ .webserverPathsWebroot) (hf : i ∉ writtenFiles) :
    (remade S h selection a).value i = S.platform.settled i ((h.leftover S.platform).value i) := by
  rw [remade_value a hoff hl hs hc,resolveConfigPaths_value_of_ne _ hw hf]
  rfl

theorem agrees_of_value
    (hv : ∀ i, (h.processReceivedTarGz S selection a header).config.value i = h.config.value i) :
    h.Agrees S.platform := by
  have hwritten {i : Item} (hi : i ≠ .dnsHosts) :
      (remade S h selection a).value i = h.config.value i := by
    rw [← hv i,remade_of_written a header hi]
  have hplain {i : Item} (hw : i ≠ .webserverPathsWebroot) (hf : i ∉ writtenFiles) :=
    remade_plain (S := S) a hoff hl hs hc hw hf
  rw [agrees_iff]
  intro i
  by_cases hpath : i = .webserverPathsWebroot ∨ i ∈ writtenFiles
  · -- a path that is not as it was is at its default, and stays there
    have hne : i ≠ .dnsHosts := by
      rintro rfl
      revert hpath
      decide
    have hor : S.platform.settled i ((h.leftover S.platform).value i) = h.config.value i ∨
        S.platform.settled i ((h.leftover S.platform).value i) = i.dflt := by
      by_cases hg : i = .filesGravityTmp
      · subst hg
        refine leftover_gravityTmp (webPorts_of_settled (P := S.platform) ?_)
        rw [← hplain (by decide) (by decide),hwritten (by decide)]
      have hother : ∀ j ∈ Item.webserverPathsWebroot :: writtenFiles, j ≠ .filesGravityTmp →
          j ∉ LegacyKey.allSets setupVarsKeys ∧ j ≠ .dhcpHosts ∧ j ≠ .dnsCnameRecords := by
        decide
      obtain ⟨h1,h2,h3⟩ := hother i (mem_cons.2 hpath) hg
      rw [leftover_other _ _ h1 (.inl h2) (.inl h3)]
      exact S.platform.settled_or i _
    refine hor.elim id (fun hd => ?_)
    have hval := hwritten hne
    rw [remade_value a hoff hl hs hc] at hval
    rcases resolveConfigPaths_value_or (writtenFiles.length+1)
      (S.platform.resetInvalid (h.leftover S.platform)) i with hr | hr
    · rw [← hval,hr]
      rfl
    · rw [hd,← hr,hval]
  simp only [not_or] at hpath
  rw [← hplain hpath.1 hpath.2]
  by_cases hi : i = .dnsHosts
  · subst hi
    have hval := hv .dnsHosts
    rw [processReceivedTarGz_config] at hval
    split at hval
    · exact hval
    have hset := hplain (i := .dnsHosts) (by decide) (by decide)
    rw [leftover_other _ _ (by decide) (.inl (by decide)) (.inl (by decide))] at hset
    rcases S.platform.settled_or .dnsHosts (h.config.value .dnsHosts) with hr | hr
    · rw [hset,hr]
    -- the default is the empty list, which is sane
    rw [hr] at hset
    rw [← hval,sanitizeDnsHosts,set_value_self,
      strings,hset]
    rfl
  · exact hwritten hi

theorem remade_of_agrees (ha : h.Agrees S.platform) :
    (remade S h selection a).value =
      (resolveConfigPaths (writtenFiles.length+1) h.config).value := by
  rw [remade_value a hoff hl hs hc]
  refine resolveConfigPaths_congr ?_ _
  funext i
  exact (agrees_iff _ _).1 ha i

theorem running_iff :
    (∀ i, (h.processReceivedTarGz S selection a header).config.value i = h.config.value i) ↔
      h.Agrees S.platform ∧
        (∀ o err, validateConfigPaths h.config = some (o,err) → h.config.value o = o.dflt) ∧
          (h.config.bool .miscReadOnly = false →
            h.config.sanitizeDnsHosts.value .dnsHosts = h.config.value .dnsHosts) := by
  constructor
  · intro hv
    have ha := agrees_of_value a header hoff hl hs hc hv
    have hrem := remade_of_agrees a hoff hl hs hc ha
    have hfix : (remade S h selection a).value = h.config.value := by
      funext i
      by_cases hi : i = .dnsHosts
      · subst hi
        rw [hrem,resolveConfigPaths_value_of_ne _ (by decide) (by decide)]
      · rw [← hv i,remade_of_written a header hi]
    refine ⟨ha,(resolveConfigPaths_value_iff h.config _).1 (hrem ▸ hfix),?_⟩
    intro hro
    have hval := hv .dnsHosts
    simp only [processReceivedTarGz_config,Configuration.bool,hfix] at hval
    rw [Configuration.bool] at hro
    simp only [hro,Bool.false_eq_true,if_false] at hval
    rw [← hval]
    simp [sanitizeDnsHosts,strings,hfix]
  rintro ⟨ha,hp,hd⟩ i
  have hfix : (remade S h selection a).value = h.config.value := by
    rw [remade_of_agrees a hoff hl hs hc ha]
    exact (resolveConfigPaths_value_iff h.config _).2 hp
  rw [processReceivedTarGz_config]
  split
  · rw [hfix]
  rename_i hro
  simp only [Configuration.bool,hfix,Bool.not_eq_true] at hro
  by_cases hi : i = .dnsHosts
  · subst hi
    rw [← hd hro]
    simp [sanitizeDnsHosts,strings,hfix]
  · rw [sanitizeDnsHosts,set_value_of_ne _ hi,hfix]

end

theorem stored_iff
    (hv : ∀ i, (h.processReceivedTarGz S selection a header).config.value i = h.config.value i) :
    sameStored h.toml (h.processReceivedTarGz S selection a header).toml = true ↔
      if h.config.bool .miscReadOnly then h.toml = none
      else h.toml.any (fun f => f.body.same h.config.lines) = true := by
  have hro : (remade S h selection a).bool .miscReadOnly = h.config.bool .miscReadOnly := by
    rw [Configuration.bool,Configuration.bool,← hv,remade_of_written a header (by decide)]
  rw [processReceivedTarGz_toml,hro]
  split
  · cases h.toml <;> simp [sameStored]
  rename_i hr
  have hlines : (remade S h selection a).sanitizeDnsHosts.lines = h.config.lines := by
    refine lines_congr ?_ (remade_envVar a)
    funext i
    rw [← hv i,processReceivedTarGz_config,hro,if_neg hr]
  cases h.toml <;> simp [sameStored,hlines]

/-- With the configuration not selected, an import leaves it as it was if and only if a migration
finds nothing to change. -/
theorem sameConfig_iff (hoff : selects selection "config" = false) :
    h.SameConfig (h.processReceivedTarGz S selection a header) ↔ h.Steady S := by
  constructor
  · intro hsame
    have hl := hsame.lorentzConf.symm
    have hs := hsame.setupVars.symm
    have hc := hsame.customList.symm
    obtain ⟨ha,hp,hd⟩ := (running_iff a header hoff hl hs hc).1 hsame.value
    have hst := (stored_iff a header hsame.value).1 hsame.stored
    refine ⟨hl,hs,hc,ha,hp,?_⟩
    cases hr : h.config.bool .miscReadOnly with
    | true => simpa [hr] using hst
    | false => exact ⟨hd hr,by simpa [hr] using hst⟩
  rintro ⟨hl,hs,hc,ha,hp,hst⟩
  have hd : h.config.bool .miscReadOnly = false →
      h.config.sanitizeDnsHosts.value .dnsHosts = h.config.value .dnsHosts := by
    intro hr
    simp only [hr,Bool.false_eq_true,if_false] at hst
    exact hst.1
  have hv := (running_iff a header hoff hl hs hc).2 ⟨ha,hp,hd⟩
  refine ⟨hv,(stored_iff a header hv).2 ?_,hl.symm,hs.symm,hc.symm,?_,?_⟩
  · cases hr : h.config.bool .miscReadOnly with
    | true => simpa [hr] using hst
    | false =>
      simp only [hr,Bool.false_eq_true,if_false] at hst
      simpa using hst.2
  · change extract (selects selection "config") _ _ = _
    simp [extract,hoff]
  · change extract (selects selection "config") _ _ = _
    simp [extract,hoff]

end Host

end Lorentz
