import Lorentz.DnsmasqConfig

/-!
The lines of the files for dnsmasq are those of the generator: no string of an accepted
configuration breaks one.
-/

set_option autoImplicit false

namespace Lorentz
open Print Split List

def ConfVal.Alike : ConfVal → ConfVal → Prop
  | .text s, .text s' => s = [] ↔ s' = []
  | .strings l, .strings l' => l.map List.isEmpty = l'.map List.isEmpty
  | v, v' => v = v'

instance ConfVal.decidableAlike (v v' : ConfVal) : Decidable (v.Alike v') := by
  unfold ConfVal.Alike
  split <;> infer_instance

def Configuration.Alike (c c' : Configuration) : Prop := ∀ i, (c.value i).Alike (c'.value i)

instance Configuration.decidableAlike (c c' : Configuration) : Decidable (c.Alike c') :=
  decidable_of_iff (∀ i ∈ Item.all, (c.value i).Alike (c'.value i))
    ⟨fun h i => h i (Item.mem_all i),fun h i _ => h i⟩

theorem ConfVal.Alike.inv {v v' : ConfVal} (h : v.Alike v') :
    v' = v ∨ (∃ s s', v = .text s ∧ v' = .text s' ∧ (s = [] ↔ s' = [])) ∨
      ∃ l l', v = .strings l ∧ v' = .strings l' ∧ l.map isEmpty = l'.map isEmpty := by
  unfold ConfVal.Alike at h
  split at h
  · exact .inr (.inl ⟨_,_,rfl,rfl,h⟩)
  · exact .inr (.inr ⟨_,_,rfl,rfl,h⟩)
  · exact .inl h.symm

namespace Configuration.Alike

variable {c c' : Configuration} (ha : c.Alike c') (i : Item)
include ha

theorem bool : c'.bool i = c.bool i := by
  unfold Configuration.bool
  obtain h | ⟨_,_,h,h',_⟩ | ⟨_,_,h,h',_⟩ := (ha i).inv
  · rw [h]
  all_goals rw [h,h']; rfl

theorem num : c'.num i = c.num i := by
  unfold Configuration.num
  obtain h | ⟨_,_,h,h',_⟩ | ⟨_,_,h,h',_⟩ := (ha i).inv
  · rw [h]
  all_goals rw [h,h']; rfl

theorem text : c'.text i = [] ↔ c.text i = [] := by
  unfold Configuration.text
  obtain h | ⟨_,_,h,h',he⟩ | ⟨_,_,h,h',_⟩ := (ha i).inv
  · rw [h]
  · rw [h,h']
    exact he.symm
  · rw [h,h']
    rfl

theorem strings : (c.strings i).map isEmpty = (c'.strings i).map isEmpty := by
  unfold Configuration.strings
  obtain h | ⟨_,_,h,h',_⟩ | ⟨_,_,h,h',he⟩ := (ha i).inv
  · rw [h]
  · rw [h,h']
    rfl
  · rw [h,h']
    exact he

theorem length : (c'.strings i).length = (c.strings i).length := by
  simpa using congrArg List.length (ha.strings i).symm

theorem strings_eq_nil : c'.strings i = [] ↔ c.strings i = [] := by
  rw [← length_eq_zero_iff,← length_eq_zero_iff,ha.length i]

end Configuration.Alike

section

variable {env : DnsmasqEnv} {c : Configuration} {ps : List (Piece Hole)}

@[simp] theorem lined_put {s : String} : Lined (put s :: ps) ↔ Lined ps := lined_lit

@[simp] theorem lined_putField {label tail : String} {hole : Hole} {s : List Char} :
    Lined (putField label hole s tail) ↔ '\n' ∉ s := by
  simp [putField]

theorem toDigits_newline (n : Nat) : '\n' ∉ Nat.toDigits 10 n := by
  intro h
  exact absurd (Nat.isDigit_of_mem_toDigits (by decide) (by decide) h) (by decide)

@[simp] theorem lined_putNumber {n : Int} : Lined (putNumber n :: ps) ↔ Lined ps := by
  unfold putNumber printInteger
  split <;> simp [toDigits_newline]

theorem lined_header (description : String) : Lined (header env description) := by
  refine lined_flatMap fun l hl => ?_
  simpa using env.headerLine description l hl

theorem lined_arrayLines {comment label : String} {i : Item} (h : ∀ s ∈ c.strings i, '\n' ∉ s) :
    Lined (arrayLines c comment label i) := by
  have hl := lined_flatMap (l := c.strings i) (f := fun s => putField label (.item i) s "\n")
    fun s hs => lined_putField.mpr (h s hs)
  simp [arrayLines,hl]

theorem mem_of_mem_splitOn {x a : Char} {s part : List Char} (hp : part ∈ s.splitOn a)
    (hx : x ∈ part) : x ∈ s := by
  induction s generalizing part with
  | nil =>
    have hnil : part = [] := by simpa using hp
    simp [hnil] at hx
  | cons b s ih =>
    simp only [splitOn,splitOnP_cons_eq_if_modifyHead] at hp ih
    split at hp
    · obtain rfl | hp := mem_cons.mp hp
      · cases hx
      · exact mem_cons_of_mem b (ih hp hx)
    cases hs : s.splitOnP (· == a) with
    | nil => exact absurd hs (splitOnP_ne_nil _ _)
    | cons q qs =>
      rw [hs] at hp ih
      obtain rfl | hp := mem_cons.mp hp
      · obtain rfl | hx := mem_cons.mp hx
        · simp
        · exact mem_cons_of_mem b (ih (by simp) hx)
      · exact mem_cons_of_mem b (ih (by simp [hp]) hx)

theorem revServer_newline {s : List Char} {r : RevServer} (h : revServer s = some r)
    (hs : '\n' ∉ s) :
    '\n' ∉ r.cidr ∧ '\n' ∉ r.target ∧ ∀ domain ∈ r.domain, '\n' ∉ domain := by
  have hparts : ∀ part ∈ (s.splitOn ',').filter (fun part => part ≠ []), '\n' ∉ part :=
    fun part hp hx => hs (mem_of_mem_splitOn (mem_of_mem_filter hp) hx)
  unfold revServer at h
  split at h
  · rename_i cidr target rest heq
    rw [heq] at hparts
    split at h
    · cases h
      refine ⟨hparts cidr (by simp),hparts target (by simp),fun domain hd => ?_⟩
      have hmem : domain ∈ rest := mem_of_head? hd
      exact hparts domain (by simp [hmem])
    · cases h
  · cases h

theorem lined_revServersLines (h : ∀ s ∈ c.strings .dnsRevServers, '\n' ∉ s) :
    Lined (revServersLines c) := by
  refine lined_flatMap fun e he => ?_
  cases hr : revServer e.1 with
  | none => exact lined_nil
  | some r =>
    obtain ⟨hcidr,htarget,hdomain⟩ := revServer_newline hr (h e.1 (fst_mem_of_mem_zipIdx he))
    cases hd : r.domain with
    | none =>
      simp only [revServerLines,hd]
      split <;> simp [hcidr,htarget]
    | some domain =>
      have hdom := hdomain domain hd
      simp only [revServerLines,hd]
      split <;> simp [hcidr,htarget,hdom]

theorem interfaceName_newline (h : '\n' ∉ c.text .dnsInterface) :
    '\n' ∉ interfaceName env c := by
  unfold interfaceName
  extract_lets interface
  split
  · exact env.gatewayLine
  · exact fun hm => h (mem_of_mem_take hm)

theorem lined_listeningLines (h : '\n' ∉ c.text .dnsInterface) : Lined (listeningLines env c) := by
  have hi : '\n' ∉ interfaceName env c := interfaceName_newline h
  unfold listeningLines
  split <;> simp [hi]

theorem lined_domainLines (h : '\n' ∉ c.text .dnsDomainName) : Lined (domainLines c) := by
  simp [domainLines,h]

theorem lined_dhcpLines (hi : '\n' ∉ c.text .dnsInterface) (hl : '\n' ∉ c.text .dhcpLeaseTime)
    (hh : ∀ s ∈ c.strings .dhcpHosts, '\n' ∉ s) : Lined (dhcpLines env c) := by
  have hrange : Lined (dhcpRangeLines env c) := by simp [dhcpRangeLines,env.ntopLine,hl]
  have hipv6 : Lined (dhcpIpv6Lines env c) := by
    have hname : '\n' ∉ interfaceName env c := interfaceName_newline hi
    unfold dhcpIpv6Lines
    split
    · split <;> simp [hname]
    · exact lined_nil
  simp [dhcpLines,hrange,multiDNSLines,hipv6,dhcpOptionLines,lined_arrayLines hh]

theorem lined_userLines (h : ∀ s ∈ c.strings .miscDnsmasqLines, '\n' ∉ s) :
    Lined (userLines c) := by
  have hl := lined_flatMap (l := c.strings .miscDnsmasqLines)
    (f := fun line => [.val (Hole.item .miscDnsmasqLines) line,put "\n"])
    fun s hs => by simp [h s hs]
  simp [userLines,hl]

end

section

variable {P : Platform} {env : DnsmasqEnv} {c : Configuration}
  (h : P.withEntries.validateConfig c = none)
include h

theorem lined_resolverLines : Lined (resolverLines env c) := by
  have hinterface : '\n' ∉ c.text .dnsInterface := text_oneLine h rfl
  have hlog : '\n' ∉ c.text .filesLogDnsmasq := text_oneLine h rfl
  have hrecord : '\n' ∉ c.text .dnsHostRecord := text_oneLine h rfl
  have hupstream : Lined (upstreamLines c) := lined_arrayLines (strings_oneLine h rfl)
  have hlogging : Lined (loggingLines c) := by
    unfold loggingLines
    split
    · split <;> simp
    · simp
  rw [resolverLines,lined_flatten]
  simp [lined_header,portLines,hupstream,cacheSizeLines,localiseLines,hlogging,logFileLines,hlog,
    bogusPrivLines,domainNeededLines,expandHostsLines,dnssecLines,hostRecordLines,hrecord,
    staleCacheLines,lined_listeningLines hinterface,lined_revServersLines (strings_oneLine h rfl),
    plainNamesLines]

theorem lined_localNamesLines : Lined (localNamesLines c) := by
  have hzone (zone : String) : Lined (zoneLines c zone) := by simp [zoneLines]
  have hdomain : '\n' ∉ c.text .dnsDomainName := text_oneLine h rfl
  simp [localNamesLines,hzone,lined_domainLines hdomain,ownDomainLines]

theorem lined_serviceLines : Lined (serviceLines env c) := by
  have hdhcp : Lined (dhcpLines env c) :=
    lined_dhcpLines (text_oneLine h rfl) (text_oneLine h rfl) (strings_oneLine h rfl)
  have hcname : Lined (cnameLines c) := lined_arrayLines (strings_oneLine h rfl)
  have hrrtype : '\n' ∉ c.text .dnsCacheRrtype := text_oneLine h rfl
  have hpcap : '\n' ∉ c.text .filesPcap := text_oneLine h rfl
  rw [serviceLines,lined_flatten]
  simp [hdhcp,hcname,specialNamesLines,confDirLines,cacheTypeLines,hrrtype,pcapLines,hpcap,
    filterLines]

theorem lined_writeDnsmasqConfig {ps : List (Piece Hole)} (hw : writeDnsmasqConfig env c = .ok ps) :
    Lined ps := by
  unfold writeDnsmasqConfig at hw
  split at hw
  · cases hw
  · cases hw
    simp [lined_resolverLines h,lined_localNamesLines h,lined_serviceLines h,
      lined_userLines (strings_oneLine h rfl)]

theorem lined_writeCustomList : Lined (writeCustomList env c) := by
  have hl := lined_flatMap (l := c.strings .dnsHosts)
    (f := fun s => [.val (Hole.item .dnsHosts) s,put "\n"])
    fun s hs => by simp [strings_oneLine h (i := .dnsHosts) rfl s hs]
  simp [writeCustomList,lined_header,hl]

end

section

variable {env : DnsmasqEnv} {c : Configuration}

theorem entries_are_lines (hole : Hole) {l : List (List Char)} (h : ∀ s ∈ l, '\n' ∉ s)
    (before after : List Char) :
    l <:+: (before ++ '\n' :: text (l.flatMap (fun s => [.val hole s,put "\n"])) ++ after).splitOn
      '\n' := by
  have hentries : text (l.flatMap (fun s => [.val hole s,put "\n"]))
      = l.flatMap (fun s => s ++ ['\n']) := by
    simp only [text,flatMap_assoc]
    rfl
  rw [hentries,append_assoc,cons_append,splitOn_append_cons_self,splitOn_flatMap_break h]
  exact ⟨before.splitOn '\n',after.splitOn '\n',by simp⟩

theorem userLines_are_lines (h : ∀ s ∈ c.strings .miscDnsmasqLines, '\n' ∉ s)
    (ps : List (Piece Hole)) :
    c.strings .miscDnsmasqLines <:+: (text (ps ++ userLines c)).splitOn '\n' := by
  unfold userLines
  split
  · rename_i hnil
    rw [hnil]
    exact nil_infix
  have hstart : (put "#### Additional user configuration - START ####\n").chars
      = "#### Additional user configuration - START ####".toList ++ ['\n'] := by
    simp [put,Piece.chars]
  have hi := entries_are_lines (.item .miscDnsmasqLines) h
    (text ps ++ "#### Additional user configuration - START ####".toList)
    (text [put "#### Additional user configuration - END ####\n\n"])
  simpa [hstart] using hi

theorem writeCustomList_entries (h : ∀ s ∈ c.strings .dnsHosts, '\n' ∉ s) :
    c.strings .dnsHosts <:+: (text (writeCustomList env c)).splitOn '\n' := by
  unfold writeCustomList
  extract_lets n
  generalize (if n = 1 then _ else _ : List (Piece Hole)) = count
  by_cases hn : n > 0
  · have hbreak : (put "\n").chars = ['\n'] := rfl
    have hi := entries_are_lines (.item .dnsHosts) h
      (text (header env "Custom DNS entries (HOSTS file)"))
      (text (put "\n" :: count))
    simpa [hn,hbreak] using hi
  · have hnil : c.strings .dnsHosts = [] := length_eq_zero_iff.mp (Nat.eq_zero_of_not_pos hn)
    rw [hnil]
    exact nil_infix

end

/-- What the generator finds out about strings: for each reverse server whether it is written and
with a domain, whether one is for the local domain or a special zone, whether the local domain is
one and not local, and whether the capture file is writeable. -/
structure ContentTests where
  revServers : List (Option Bool)
  revServerDomain : Bool
  zones : List (Bool × Bool)
  pcap : Bool
  deriving DecidableEq

def revServerKind (s : List Char) : Option Bool := (revServer s).map (fun r => r.domain.isSome)

def contentTests (env : DnsmasqEnv) (c : Configuration) : ContentTests where
  revServers := (c.strings .dnsRevServers).map revServerKind
  revServerDomain := revServerDomain c
  zones := ["home.arpa","internal"].map (fun zone =>
    (revServerZone c zone,domainIs c zone && !c.bool .dnsDomainLocal))
  pcap := env.writeable (c.text .filesPcap)

section

variable {env : DnsmasqEnv} {c c' : Configuration}

theorem same_putField (label tail : String) (hole : Hole) (s s' : List Char) :
    Same (putField label hole s tail) (putField label hole s' tail) := rfl

section

variable (ha : c.Alike c')
include ha

theorem same_entries (i : Item) {g : List Char → List (Piece Hole)} (hg : ∀ s s', Same (g s) (g s')) :
    Same ((c.strings i).flatMap g) ((c'.strings i).flatMap g) :=
  .flatMap (fun s s' _ => hg s s') (ha.strings i)

theorem same_arrayLines (comment label : String) (i : Item) :
    Same (arrayLines c comment label i) (arrayLines c' comment label i) := by
  unfold arrayLines
  simp only [ha.strings_eq_nil i]
  split
  · exact .rfl
  · exact .append (.cons _ (same_entries ha i fun s s' => same_putField label "\n" _ s s')) .rfl

theorem same_revServerLines {r r' : RevServer} (hd : r.domain.isSome = r'.domain.isSome) (n : Nat) :
    Same (revServerLines c r n) (revServerLines c' r' n) := by
  unfold revServerLines
  rw [ha.bool]
  refine .append (.append (.append rfl ?_) ?_) .rfl
  · cases hr : r.domain with
    | none =>
      cases hr' : r'.domain with
      | none => exact .rfl
      | some _ => simp [hr,hr'] at hd
    | some _ =>
      cases hr' : r'.domain with
      | none => simp [hr,hr'] at hd
      | some _ => exact rfl
  · split <;> rfl

theorem same_revServersLines
    (h : (c.strings .dnsRevServers).map revServerKind =
      (c'.strings .dnsRevServers).map revServerKind) :
    Same (revServersLines c) (revServersLines c') := by
  refine .flatMap (f := Prod.map revServerKind id) ?_ (by rw [← zipIdx_map,h,zipIdx_map])
  rintro ⟨s,n⟩ ⟨s',n'⟩ he
  simp only [Prod.map_apply,id_eq,Prod.mk.injEq,revServerKind] at he
  obtain ⟨hkind,rfl⟩ := he
  cases hr : revServer s with
  | none =>
    cases hr' : revServer s' with
    | none => exact .rfl
    | some _ => simp [hr,hr'] at hkind
  | some r =>
    cases hr' : revServer s' with
    | none => simp [hr,hr'] at hkind
    | some r' =>
      simp only [hr,hr',Option.map_some,Option.some.injEq] at hkind
      exact same_revServerLines ha hkind (n+1)

theorem same_logFileLines : Same (logFileLines c) (logFileLines c') := by
  simp only [logFileLines,ha.text]
  split <;> rfl

theorem same_hostRecordLines : Same (hostRecordLines c) (hostRecordLines c') := by
  simp only [hostRecordLines,ha.text]
  split <;> rfl

theorem same_listeningLines : Same (listeningLines env c) (listeningLines env c') := by
  simp only [listeningLines,ha.num]
  split <;> rfl

omit ha in
theorem same_zoneLines (zone : String) (hr : revServerZone c zone = revServerZone c' zone)
    (hd : (domainIs c zone && !c.bool .dnsDomainLocal) =
      (domainIs c' zone && !c'.bool .dnsDomainLocal)) :
    Same (zoneLines c zone) (zoneLines c' zone) := by
  simp only [zoneLines,hr,hd]
  exact .rfl

theorem same_domainLines (hr : revServerDomain c = revServerDomain c') :
    Same (domainLines c) (domainLines c') := by
  simp only [domainLines,ha.text,ha.bool,hr]
  split
  · exact .rfl
  refine .cons _ ?_
  split
  · exact .append .rfl rfl
  · exact rfl

theorem same_dhcpLines : Same (dhcpLines env c) (dhcpLines env c') := by
  have hrange : Same (dhcpRangeLines env c) (dhcpRangeLines env c') := by
    simp only [dhcpRangeLines,ha.text,ha.num]
    refine .append (.append .rfl ?_) .rfl
    split <;> rfl
  have hipv6 : Same (dhcpIpv6Lines env c) (dhcpIpv6Lines env c') := by
    simp only [dhcpIpv6Lines,ha.bool]
    split <;> rfl
  simp only [dhcpLines,multiDNSLines,dhcpOptionLines,ha.bool]
  split
  · exact .append (.append (.append (.append (.append (.append (.append .rfl hrange) .rfl) .rfl)
      hipv6) .rfl) .rfl) (same_arrayLines ha _ _ _)
  · exact .rfl

theorem same_pcapLines (h : env.writeable (c.text .filesPcap) = env.writeable (c'.text .filesPcap)) :
    Same (pcapLines env c) (pcapLines env c') := by
  simp only [pcapLines,ha.text,h]
  split
  · exact .rfl
  · split <;> rfl

theorem same_userLines : Same (userLines c) (userLines c') := by
  simp only [userLines,ha.strings_eq_nil]
  split
  · exact .rfl
  · exact .append (.cons _ (same_entries ha _ fun _ _ => rfl)) .rfl

theorem same_resolverLines
    (hrev : (contentTests env c).revServers = (contentTests env c').revServers) :
    Same (resolverLines env c) (resolverLines env c') := by
  refine .flatten ?_
  simp only [forall₂_cons,Forall₂.nil,and_true]
  -- The blocks that are left read flags and numbers only.
  refine ⟨.rfl,?_,same_arrayLines ha _ _ _,?_,?_,?_,same_logFileLines ha,?_,?_,?_,?_,
    same_hostRecordLines ha,?_,same_listeningLines ha,same_revServersLines ha hrev,?_⟩
  all_goals
    simp only [portLines,cacheSizeLines,localiseLines,loggingLines,bogusPrivLines,domainNeededLines,
      expandHostsLines,dnssecLines,staleCacheLines,plainNamesLines,ha.bool,ha.num]
    exact .rfl

theorem same_localNamesLines (hdomain : revServerDomain c = revServerDomain c')
    (hzones : (contentTests env c).zones = (contentTests env c').zones) :
    Same (localNamesLines c) (localNamesLines c') := by
  simp only [contentTests,map_cons,map_nil,List.cons.injEq,Prod.mk.injEq,and_true]
    at hzones
  obtain ⟨⟨hr,hd⟩,hr',hd'⟩ := hzones
  exact (((same_zoneLines _ hr hd).append (same_zoneLines _ hr' hd')).append
    (same_domainLines ha hdomain)).append .rfl

theorem same_serviceLines (hpcap : (contentTests env c).pcap = (contentTests env c').pcap) :
    Same (serviceLines env c) (serviceLines env c') := by
  have hdir : confDirLines env c' = confDirLines env c := by simp only [confDirLines,ha.bool]
  refine .flatten ?_
  simp only [forall₂_cons,Forall₂.nil,and_true,hdir]
  exact ⟨same_dhcpLines ha,same_arrayLines ha _ _ _,.rfl,.rfl,rfl,same_pcapLines ha hpcap,.rfl⟩

theorem dhcpError_alike : dhcpError c' = dhcpError c := by
  have hmask : dhcpNetmask c' = dhcpNetmask c := by
    rw [dhcpNetmask,dhcpNetmask,ha.num .dhcpNetmask,ha.num .dhcpStart]
  rw [dhcpError,dhcpError,ha.bool,ha.num .dhcpStart,ha.num .dhcpEnd,ha.num .dhcpRouter,hmask]

end

theorem writeDnsmasqConfig_ok (env : DnsmasqEnv) (h : dhcpError c = none) :
    writeDnsmasqConfig env c
      = .ok (resolverLines env c ++ localNamesLines c ++ serviceLines env c ++ userLines c) := by
  rw [writeDnsmasqConfig,h]

theorem layout_writeDnsmasqConfig (ha : c.Alike c') (ht : contentTests env c = contentTests env c') :
    (writeDnsmasqConfig env c).map layout = (writeDnsmasqConfig env c').map layout := by
  unfold writeDnsmasqConfig
  rw [dhcpError_alike ha]
  split
  · rfl
  have hrev := congrArg ContentTests.revServers ht
  have hdomain := congrArg ContentTests.revServerDomain ht
  have hzones := congrArg ContentTests.zones ht
  have hpcap := congrArg ContentTests.pcap ht
  have hsame := (((same_resolverLines ha hrev).append
    (same_localNamesLines ha hdomain hzones)).append (same_serviceLines ha hpcap)).append
    (same_userLines ha)
  exact congrArg Except.ok hsame.layout

theorem layout_writeCustomList (ha : c.Alike c') :
    layout (writeCustomList env c) = layout (writeCustomList env c') := by
  refine Same.layout ?_
  unfold writeCustomList
  rw [ha.length]
  refine .append (.append .rfl ?_) .rfl
  split
  · exact .append (same_entries ha _ fun _ _ => rfl) .rfl
  · exact .rfl

end

/-- The files have no lines but those of the generator. Whatever strings an accepted
configuration has, the text of each file is cut where the generator breaks its lines and
nowhere else, and the lines of the user and the local hosts are one line each. With other
strings in it a configuration gives the same local hosts file, line by line and up to the
strings, and the same configuration of dnsmasq unless the generator tests them. -/
theorem dnsmasq_files_lines (P : Platform) (env : DnsmasqEnv) {c c' : Configuration}
    (h : P.withEntries.validateConfig c = none) (h' : P.withEntries.validateConfig c' = none)
    (ha : c.Alike c') :
    (∀ d ∈ [c,c'],
      (∀ ps, writeDnsmasqConfig env d = .ok ps →
        (lines ps).map text = (text ps).splitOn '\n' ∧
        d.strings .miscDnsmasqLines <:+: (text ps).splitOn '\n') ∧
      (lines (writeCustomList env d)).map text = (text (writeCustomList env d)).splitOn '\n' ∧
      d.strings .dnsHosts <:+: (text (writeCustomList env d)).splitOn '\n') ∧
    layout (writeCustomList env c) = layout (writeCustomList env c') ∧
    (contentTests env c = contentTests env c' →
      (writeDnsmasqConfig env c).map layout = (writeDnsmasqConfig env c').map layout) := by
  refine ⟨?_,layout_writeCustomList ha,layout_writeDnsmasqConfig ha⟩
  intro d hd
  have hv : P.withEntries.validateConfig d = none := by
    obtain rfl | rfl : d = c ∨ d = c' := by simpa using hd
    · exact h
    · exact h'
  refine ⟨fun ps hps => ⟨map_text_lines (lined_writeDnsmasqConfig hv hps),?_⟩,
    map_text_lines (lined_writeCustomList hv),writeCustomList_entries (strings_oneLine hv rfl)⟩
  unfold writeDnsmasqConfig at hps
  split at hps
  · cases hps
  · cases hps
    exact userLines_are_lines (strings_oneLine hv rfl) _

def DnsmasqEnv.plain : DnsmasqEnv where
  header _ := ["# Lorentz".toList]
  gateway := "eth0".toList
  ntop _ := "10.0.0.1".toList
  writeable _ := true
  etcDnsmasqD := false
  headerLine _ := by decide
  gatewayLine := by decide
  ntopLine _ := by decide

def localDomain (name : String) : Configuration :=
  (Configuration.initial.set .dnsDomainLocal (.bool false)).set .dnsDomainName (.text name.toList)

theorem dnsmasq_files_lines_domain :
    contentTests .plain (localDomain "home") = contentTests .plain (localDomain "lan") ∧
    (writeDnsmasqConfig .plain (localDomain "home")).map layout
      = (writeDnsmasqConfig .plain (localDomain "lan")).map layout := by
  have ht : contentTests .plain (localDomain "home") = contentTests .plain (localDomain "lan") := by
    decide +kernel
  exact ⟨ht,(dnsmasq_files_lines .plain .plain (c := localDomain "home") (by decide +kernel)
    (by decide +kernel) (by decide +kernel)).2.2 ht⟩

/-- With the local domain `internal` the generator prints another comment. -/
theorem dnsmasq_lines_special_zone :
    Platform.plain.withEntries.validateConfig (localDomain "home") = none ∧
    Platform.plain.withEntries.validateConfig (localDomain "internal") = none ∧
    (localDomain "home").Alike (localDomain "internal") ∧
    ∃ ps ps', writeDnsmasqConfig .plain (localDomain "home") = .ok ps ∧
      writeDnsmasqConfig .plain (localDomain "internal") = .ok ps' ∧
      ((text ps').splitOn '\n').length = ((text ps).splitOn '\n').length + 1 := by
  have h : Platform.plain.withEntries.validateConfig (localDomain "home") = none := by
    decide +kernel
  have h' : Platform.plain.withEntries.validateConfig (localDomain "internal") = none := by
    decide +kernel
  have ha : (localDomain "home").Alike (localDomain "internal") := by decide +kernel
  have hlength {d : Configuration} {ps : List (Piece Hole)}
      (hd : Platform.plain.withEntries.validateConfig d = none)
      (hw : writeDnsmasqConfig .plain d = .ok ps) :
      ((text ps).splitOn '\n').length = breaks ps + 1 := by
    rw [← map_text_lines (lined_writeDnsmasqConfig hd hw),length_map,length_lines]
  have hresolver : breaks (resolverLines .plain (localDomain "home"))
      = breaks (resolverLines .plain (localDomain "internal")) :=
    (same_resolverLines ha (by decide)).breaks
  have harpa : breaks (zoneLines (localDomain "home") "home.arpa")
      = breaks (zoneLines (localDomain "internal") "home.arpa") :=
    (same_zoneLines _ (by decide) (by decide)).breaks
  have hdomain := (same_domainLines ha (by decide)).breaks
  have hservice : breaks (serviceLines .plain (localDomain "home"))
      = breaks (serviceLines .plain (localDomain "internal")) :=
    (same_serviceLines ha (by decide)).breaks
  have huser := (same_userLines ha).breaks
  have hzone : breaks (zoneLines (localDomain "home") "internal") = 3 := by decide
  have hzone' : breaks (zoneLines (localDomain "internal") "internal") = 4 := by decide +kernel
  have hw := writeDnsmasqConfig_ok .plain (c := localDomain "home") (by decide +kernel)
  have hw' := writeDnsmasqConfig_ok .plain (c := localDomain "internal") (by decide +kernel)
  refine ⟨h,h',ha,_,_,hw,hw',?_⟩
  rw [hlength h hw,hlength h' hw']
  simp only [breaks_append,localNamesLines,hzone,hzone',hresolver,harpa,hdomain,hservice,huser]
  omega

end Lorentz
