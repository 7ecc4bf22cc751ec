import Lorentz.ConfigFile

/-!
The files of older versions out of which a configuration is migrated. A `LegacyKey` comes with
the proof that it sets no items but its own.
-/

set_option autoImplicit false

namespace Lorentz

def trimWhitespace (s : List Char) : List Char :=
  ((s.dropWhile isSpace).reverse.dropWhile isSpace).reverse

def findEquals (line : List Char) : List Char :=
  ((line.dropWhile (fun c => c ≠ '=')).takeWhile (fun c => c ≠ ' ')).drop 1

def commentLine (line : List Char) : Bool := line.head? = some '#' || line.head? = some ';'

def lineOf (text key : List Char) : Option (List Char) :=
  (text.splitOn '\n').find? (fun line => !commentLine line && decide (key ++ ['='] <:+: line))

def parseLorentzconf (text key : List Char) : Option (List Char) :=
  (lineOf text key).map (fun line => trimWhitespace (findEquals line))

def readSetupVarsconf (text key : List Char) : Option (List Char) :=
  (lineOf text key).map findEquals

/-- What a key finds in a file, and the values it gives to items. -/
structure LegacyKey where
  sets : List Item
  values : Platform → (List Char → Option (List Char)) → Configuration → List (Item × ConfVal)
  within : ∀ P look c, ∀ e ∈ values P look c, e.1 ∈ sets

def Configuration.setAll (c : Configuration) (l : List (Item × ConfVal)) : Configuration :=
  l.foldl (fun c e => c.set e.1 e.2) c

theorem Configuration.Keeps.setAll {kept : Item → Prop} (c : Configuration)
    {l : List (Item × ConfVal)} (hl : ∀ e ∈ l, ¬kept e.1) : Keeps kept c (c.setAll l) := by
  induction l generalizing c with
  | nil => exact .refl kept c
  | cons e l ih =>
    exact (Keeps.set c e.2 (hl e (by simp))).trans (ih _ (fun e he => hl e (by simp [he])))

def Configuration.only (c : Configuration) (is : List Item) : Configuration :=
  { Configuration.initial with value := fun i => if i ∈ is then c.value i else i.dflt }

variable {c c' : Configuration}

theorem Configuration.only_congr {is : List Item} (h : ∀ i ∈ is, c.value i = c'.value i) :
    c.only is = c'.only is := by
  have hv : (fun i => if i ∈ is then c.value i else i.dflt) =
      fun i => if i ∈ is then c'.value i else i.dflt := by
    funext i
    split
    · rename_i hi
      exact h i hi
    · rfl
  simp [only,hv]

theorem Configuration.setAll_congr {i : Item} (h : c.value i = c'.value i)
    (l : List (Item × ConfVal)) : (c.setAll l).value i = (c'.setAll l).value i := by
  induction l generalizing c c' with
  | nil => exact h
  | cons e l ih =>
    refine ih ?_
    simp [Configuration.set_value,h]

namespace LegacyKey

variable (P : Platform) (look : List Char → Option (List Char))

def read (c : Configuration) (k : LegacyKey) : Configuration :=
  c.setAll (k.values P look (c.only k.sets))

variable (k : LegacyKey) (keys keys' : List LegacyKey) (c : Configuration)

theorem read_keeps : c.Keeps (fun i => i ∉ k.sets) (k.read P look c) :=
  .setAll c (fun e he => not_not.2 (k.within P look _ e he))

theorem read_congr {c c' : Configuration} (h : ∀ i ∈ k.sets, c.value i = c'.value i) {i : Item}
    (hi : i ∈ k.sets) : (k.read P look c).value i = (k.read P look c').value i := by
  rw [read,read,Configuration.only_congr h]
  exact Configuration.setAll_congr (h i hi) _

def readAll (keys : List LegacyKey) (c : Configuration) : Configuration :=
  keys.foldl (fun c k => k.read P look c) c

def allSets (keys : List LegacyKey) : List Item := keys.flatMap LegacyKey.sets

theorem readAll_keeps (keys : List LegacyKey) (c : Configuration) :
    c.Keeps (fun i => i ∉ allSets keys) (readAll P look keys c) := by
  induction keys generalizing c with
  | nil => exact .refl _ c
  | cons k keys ih =>
    refine ((read_keeps P look k c).mono ?_).trans ((ih (k.read P look c)).mono ?_)
    · intro i hi hk
      exact hi (List.mem_flatMap.2 ⟨k,by simp,hk⟩)
    · intro i hi hk
      obtain ⟨k',hk',hs⟩ := List.mem_flatMap.1 hk
      exact hi (List.mem_flatMap.2 ⟨k',by simp [hk'],hs⟩)

theorem readAll_append :
    readAll P look (keys ++ keys') c = readAll P look keys' (readAll P look keys c) := by
  simp [readAll]

theorem allSets_append : allSets (keys ++ keys') = allSets keys ++ allSets keys' := by
  simp [allSets]

theorem allSets_cons (keys : List LegacyKey) : allSets (k :: keys) = k.sets ++ allSets keys := by
  simp [allSets]

theorem readAll_value {before keys after : List LegacyKey} {k : LegacyKey} {i : Item}
    (hk : keys = before ++ k :: after) (hb : ∀ j ∈ k.sets, j ∉ allSets before)
    (ha : i ∉ allSets after) (hi : i ∈ k.sets) (c : Configuration) :
    (readAll P look keys c).value i = (k.read P look c).value i := by
  rw [hk,readAll_append]
  refine ((readAll_keeps P look after _).value i ha).trans (read_congr P look k ?_ hi)
  exact fun j hj => (readAll_keeps P look before c).value j (hb j hj)

theorem readAll_value_of_mem {keys : List LegacyKey} {k : LegacyKey} {i : Item}
    (hd : (allSets keys).Nodup) (hk : k ∈ keys) (hi : i ∈ k.sets) (c : Configuration) :
    (readAll P look keys c).value i = (k.read P look c).value i := by
  obtain ⟨before,after,rfl⟩ := List.append_of_mem hk
  simp only [allSets_append,allSets_cons,List.nodup_append] at hd
  refine readAll_value P look rfl ?_ ?_ hi c
  · exact fun j hj hb => hd.2.2 j hb j (by simp [hj]) rfl
  · exact fun ha => hd.2.1.2.2 i hi i ha rfl

def of {α : Type} (sets : List Item)
    (found : Platform → (List Char → Option (List Char)) → Configuration → Option α)
    (give : α → List (Item × ConfVal)) (hg : ∀ a, ∀ e ∈ give a, e.1 ∈ sets) : LegacyKey where
  sets := sets
  values P look c := (found P look c).elim [] give
  within P look c e he := by
    cases ha : found P look c with
    | none => simp [ha] at he
    | some a => exact hg a e (by simpa [ha] using he)

def one (i : Item)
    (value : Platform → (List Char → Option (List Char)) → Configuration → Option ConfVal) :
    LegacyKey :=
  of [i] value (fun v => [(i,v)]) (by simp)

def item (i : Item) (key : String)
    (value : Platform → Configuration → Option (List Char) → Option ConfVal) : LegacyKey :=
  one i (fun P look c => value P c (look key.toList))

end LegacyKey

def parseBool (s : List Char) : Option ConfVal :=
  if strcasecmp s "false".toList ∨ strcasecmp s "no".toList then some (.bool false)
  else if strcasecmp s "true".toList ∨ strcasecmp s "yes".toList then some (.bool true)
  else none

/-- `sscanf` in a condition: not zero at the end of the text either, and the variable keeps what
it had. -/
def scanned {α : Type} (scan : List Char → Option α) (before : α) : Option (List Char) → Option α
  | none => none
  | some [] => some before
  | some s => scan s

def word (s : List Char) : List Char := (s.takeWhile (fun c => !isSpace c)).take 127

def getPath (buffer : Option (List Char)) (pathDefault : List Char) : List Char :=
  if (word (buffer.getD [])) = [] then pathDefault.take 127 else word (buffer.getD [])

def boolKey (key : String) (i : Item) : LegacyKey := .item i key (fun _ _ b => b.bind parseBool)

def pathKey (key : String) (i : Item) : LegacyKey :=
  .item i key (fun _ c b => some (.text (getPath b (c.text i))))

variable (P : Platform) (look : List Char → Option (List Char)) (text : List Char)
  (c : Configuration)

theorem pathKey_read (key : String) (i : Item) (c : Configuration) :
    ((pathKey key i).read P look c).value i = .text (getPath (look key.toList) (c.text i)) := by
  simp [pathKey,LegacyKey.item,LegacyKey.one,LegacyKey.of,LegacyKey.read,Configuration.setAll,
    Configuration.only,Configuration.text]

/-- A number within bounds, that is `before` for an empty text. -/
def intKey (key : String) (i : Item) (before lo hi : Int) : LegacyKey :=
  .item i key (fun P _ b =>
    (scanned P.scanInt before b).bind (fun n => if lo ≤ n ∧ n ≤ hi then some (.num n) else none))

def nameKey (key : String) (i : Item) (names : List (String × Int)) (otherwise : Option Int) :
    LegacyKey :=
  .item i key (fun _ _ b =>
    match b.bind (fun s => names.find? (fun o => strcasecmp s o.1.toList)) with
    | some o => some (.num o.2)
    | none => otherwise.map ConfVal.num)

def MAXDBDAYS_MAX : Int := 24855

def maxDBdaysKey : LegacyKey :=
  .of [.databaseMaxDBdays,.databaseStoreQueries]
    (fun P look _ => scanned P.scanInt 0 (look "MAXDBDAYS".toList))
    (fun n =>
      if 0 < n then [(.databaseMaxDBdays,.num (min n MAXDBDAYS_MAX))]
      else [(.databaseStoreQueries,.bool false)])
    (by intro n e he; split at he <;> simp_all)

def dbIntervalKey : LegacyKey :=
  .item .databaseDBinterval "DBINTERVAL" (fun P _ b =>
    (scanned P.scanDouble 0 b).bind (fun d =>
      if 1/10 ≤ d ∧ d ≤ 1440 then some (.num (towardsZero (d*60))) else none))

def dbFileKey : LegacyKey :=
  .of [.filesDatabase,.databaseStoreQueries]
    (fun _ look c =>
      match look "DBFILE".toList with
      | none => some Item.filesDatabase.dflt.toText
      | some [] => some (c.text .filesDatabase)
      | some b => some (word b))
    (fun s =>
      if s = [] then [(.filesDatabase,Item.filesDatabase.dflt),(.databaseStoreQueries,.bool false)]
      else [(.filesDatabase,.text s)])
    (by
      intro s e he
      split at he <;> simp at he
      · rcases he with rfl | rfl <;> simp
      · simp [he])

def maxLogAgeKey : LegacyKey :=
  .item .webserverApiMaxHistory "MAXLOGAGE" (fun P _ b =>
    (scanned P.scanDouble 0 b).bind (fun d =>
      if 0 ≤ d ∧ d ≤ 24 then some (.num (towardsZero (d*3600))) else none))

def privacyLevelKey : LegacyKey :=
  .item .miscPrivacylevel "PRIVACYLEVEL" (fun P c b =>
    (b.bind P.scanInt).bind (fun n =>
      if 0 ≤ n ∧ n ≤ PRIVACY_MAXIMUM ∧ c.num .miscPrivacylevel < n then some (.num n) else none))

def delayStartupKey : LegacyKey :=
  .item .miscDelayStartup "DELAY_STARTUP" (fun P _ b =>
    (b.bind P.scanUint).bind (fun n => if 0 < n ∧ n ≤ 300 then some (.num n) else none))

def webPortKey : LegacyKey :=
  .item .webserverPort "WEBPORT" (fun _ _ b =>
    b.bind (fun s => if s = [] then none else some (.text s)))

def webAclKey : LegacyKey := .item .webserverAcl "WEBACL" (fun _ _ b => b.map ConfVal.text)

def rateLimitKey : LegacyKey :=
  .of [.dnsRateLimitCount,.dnsRateLimitInterval]
    (fun P look _ => (look "RATE_LIMIT".toList).bind P.scanRate)
    (fun r => [(.dnsRateLimitCount,.num r.1),(.dnsRateLimitInterval,.num r.2)])
    (by
      intro r e he
      simp at he
      rcases he with rfl | rfl <;> simp)

def addressOf (inetPton : List Char → Option Nat) (b : Option (List Char)) : Option Nat :=
  b.bind (fun s => if s = [] then none else inetPton s)

def forceKey (key : String) (force addr : Item) (inetPton : Platform → List Char → Option Nat) :
    LegacyKey :=
  .of [force,addr] (fun P look _ => some (addressOf (inetPton P) (look key.toList)))
    (fun a => [(force,.bool a.isSome),(addr,.num (a.getD 0))])
    (by
      intro a e he
      simp at he
      rcases he with rfl | rfl <;> simp)

def replyAddrKey (key : String) (force addr force' addr' : Item)
    (inetPton : Platform → List Char → Option Nat) : LegacyKey :=
  .of [force,addr,force',addr']
    (fun P look c =>
      if c.bool force || c.bool force' then none else addressOf (inetPton P) (look key.toList))
    (fun a => [(force,.bool true),(addr,.num a),(force',.bool true),(addr',.num a)])
    (by
      intro a e he
      simp at he
      rcases he with rfl | rfl | rfl | rfl <;> simp)

def blockTTLKey : LegacyKey :=
  .item .dnsBlockTTL "BLOCK_TTL" (fun P _ b => some (.num ((scanned P.scanUint 0 b).getD 2)))

def percent (scan : Option Nat) : ConfVal :=
  match scan with
  | some n => if n ≤ 100 then .num n else .num 90
  | none => .num 90

def checkShmemKey : LegacyKey :=
  .item .miscCheckShmem "CHECK_SHMEM" (fun P _ b => some (percent (scanned P.scanUint 0 b)))

/-- The variable is the one that `CHECK_SHMEM` was read into. -/
def checkDiskKey : LegacyKey :=
  .one .miscCheckDisk (fun P look _ =>
    let uvalue := (scanned P.scanUint 0 (look "CHECK_SHMEM".toList)).getD 0
    some (percent (scanned P.scanUint uvalue (look "CHECK_DISK".toList))))

def lorentzconfKeys : List LegacyKey :=
  [maxDBdaysKey,boolKey "RESOLVE_IPV6" .resolverResolveIPv6,
    boolKey "RESOLVE_IPV4" .resolverResolveIPv4,
    dbIntervalKey,dbFileKey,maxLogAgeKey,privacyLevelKey,
    boolKey "IGNORE_LOCALHOST" .dnsIgnoreLocalhost,
    nameKey "BLOCKINGMODE" .dnsBlockingMode
      [("NXDOMAIN",1),("NULL",2),("IP-NODATA-AAAA",3),("IP",0),("NODATA",4)]
      (some Item.dnsBlockingMode.dflt.toNum),
    boolKey "ANALYZE_ONLY_A_AND_AAAA" .dnsAnalyzeOnlyAandAAAA,boolKey "DBIMPORT" .databaseDBimport,
    pathKey "MACVENDORDB" .filesMacvendor,pathKey "GRAVITYDB" .filesGravity,
    boolKey "PARSE_ARP_CACHE" .databaseNetworkParseARPcache,
    boolKey "CNAME_DEEP_INSPECT" .dnsCNAMEdeepInspect,delayStartupKey,
    boolKey "BLOCK_ESNI" .dnsBlockESNI,pathKey "WEBROOT" .webserverPathsWebroot,webPortKey,
    pathKey "WEBHOME" .webserverPathsWebhome,webAclKey,
    intKey "API_SESSION_TIMEOUT" .webserverSessionTimeout 0 1 INT_MAX,
    boolKey "API_PRETTY_JSON" .webserverApiPrettyJSON,pathKey "API_INFO_LOG" .filesLogWebserver,
    intKey "NICE" .miscNice 0 (-20) 19,intKey "MAXNETAGE" .databaseNetworkExpire 0 1 8760,
    boolKey "NAMES_FROM_NETDB" .resolverNetworkNames,boolKey "EDNS0_ECS" .dnsEDNS0ECS,
    nameKey "REFRESH_HOSTNAMES" .resolverRefreshNames [("ALL",0),("NONE",3),("UNKNOWN",2)] (some 1),
    pathKey "WEBDOMAIN" .webserverDomain,rateLimitKey,
    forceKey "LOCAL_IPV4" .dnsReplyHostForce4 .dnsReplyHostV4 Platform.inetPton4,
    forceKey "LOCAL_IPV6" .dnsReplyHostForce6 .dnsReplyHostV6 Platform.inetPton6,
    forceKey "BLOCK_IPV4" .dnsReplyBlockingForce4 .dnsReplyBlockingV4 Platform.inetPton4,
    forceKey "BLOCK_IPV6" .dnsReplyBlockingForce6 .dnsReplyBlockingV6 Platform.inetPton6,
    replyAddrKey "REPLY_ADDR4" .dnsReplyHostForce4 .dnsReplyHostV4 .dnsReplyBlockingForce4
      .dnsReplyBlockingV4 Platform.inetPton4,
    replyAddrKey "REPLY_ADDR6" .dnsReplyHostForce6 .dnsReplyHostV6 .dnsReplyBlockingForce6
      .dnsReplyBlockingV6 Platform.inetPton6,
    boolKey "SHOW_DNSSEC" .dnsShowDNSSEC,boolKey "MOZILLA_CANARY" .dnsSpecialDomainsMozillaCanary,
    nameKey "LORENTZ_PTR" .dnsLorentzPTR
      [("none",3),("false",3),("hostname",1),("hostnamefqdn",2)] none,
    boolKey "ADDR2LINE" .miscAddr2line,
    nameKey "REPLY_WHEN_BUSY" .dnsReplyWhenBusy [("DROP",3),("REFUSE",2),("BLOCK",0)] none,
    blockTTLKey,boolKey "BLOCK_ICLOUD_PR" .dnsSpecialDomainsICloudPrivateRelay,
    boolKey "CHECK_LOAD" .miscCheckLoad,checkShmemKey,checkDiskKey]

/-- The loop over the debug flags doubles the number of the flag, and the item with that number is
one further. -/
def debugKeys : List LegacyKey :=
  [boolKey "DEBUG_DATABASE" .debugNetworking,boolKey "DEBUG_NETWORKING" .debugLocks,
    boolKey "DEBUG_QUERIES" .debugFlags,boolKey "DEBUG_ARP" .debugRegex,
    boolKey "DEBUG_VECTORS" .debugResolver]

def readDebugingSettingsLegacy (P : Platform) (look : List Char → Option (List Char))
    (c : Configuration) : Configuration :=
  let c := c.setAllDebug false
  (if (look "DEBUG_ALL".toList).bind parseBool = some (.bool true) then c.setAllDebug true
    else LegacyKey.readAll P look debugKeys c).setDebugFlags

def readLorentzlegacy (P : Platform) (text : List Char) (c : Configuration) : Configuration :=
  readDebugingSettingsLegacy P (parseLorentzconf text)
    (LegacyKey.readAll P (parseLorentzconf text) lorentzconfKeys c)

theorem readDebugingSettingsLegacy_keeps :
    c.Keeps (fun i => i.isDebug = false ∧ i ≠ .debugAll) (readDebugingSettingsLegacy P look c) := by
  refine .trans ?_ (.setDebugFlags _ (by simp))
  refine (Configuration.Keeps.setAllDebug c false (fun i hi => hi.1)).trans ?_
  split
  · exact .setAllDebug _ true (fun i hi => hi.1)
  refine (LegacyKey.readAll_keeps P look debugKeys _).mono ?_
  intro i hi hs
  have hd : ∀ j ∈ LegacyKey.allSets debugKeys, j.isDebug = true := by decide
  simp [hd i hs] at hi

theorem readLorentzlegacy_path {before after : List LegacyKey} {key : String} {i : Item}
    (hk : lorentzconfKeys = before ++ pathKey key i :: after)
    (hb : ∀ j ∈ [i], j ∉ LegacyKey.allSets before) (ha : i ∉ LegacyKey.allSets after)
    (hd : i.isDebug = false ∧ i ≠ .debugAll) (P : Platform) (text : List Char)
    (c : Configuration) :
    (readLorentzlegacy P text c).value i =
      .text (getPath (parseLorentzconf text key.toList) (c.text i)) := by
  rw [readLorentzlegacy,(readDebugingSettingsLegacy_keeps P _ _).value i hd,
    LegacyKey.readAll_value P _ hk hb ha (List.mem_singleton_self i),pathKey_read]

theorem readLorentzlegacy_keeps :
    c.Keeps (fun i => i ∉ LegacyKey.allSets lorentzconfKeys ∧ i.isDebug = false ∧ i ≠ .debugAll)
      (readLorentzlegacy P text c) := by
  refine ((LegacyKey.readAll_keeps P (parseLorentzconf text) lorentzconfKeys c).mono ?_).trans
    ((readDebugingSettingsLegacy_keeps P _ _).mono ?_)
  · exact fun i hi => hi.1
  · exact fun i hi => hi.2

def stringVar (key : String) (i : Item) : LegacyKey :=
  .item i key (fun _ _ b => b.map ConfVal.text)

def boolVar (key : String) (i : Item) : LegacyKey :=
  .item i key (fun _ _ b => b.map (fun s => .bool (s = "true".toList)))

def ipv4Var (key : String) (i : Item) : LegacyKey :=
  .item i key (fun P _ b => b.map (fun s => .num ((addressOf P.inetPton4 (some s)).getD 0)))

def optionVar (key : String) (i : Item) : LegacyKey :=
  .item i key (fun _ _ b => (b.bind i.type.optionVal).map ConfVal.num)

def asRegex (s : List Char) : List Char :=
  let regex := s.flatMap (fun c => if c = '.' then ['\\','.'] else [c])
  if regex.head? = some '*' then regex.drop 1 ++ ['$'] else ['^'] ++ regex ++ ['$']

def regexVar (key : String) (i : Item) : LegacyKey :=
  .item i key (fun _ c b =>
    b.map (fun s => .strings (c.strings i ++ ((s.splitOn ',').filter (fun e => e ≠ [])).map asRegex)))

def tempLimitVar : LegacyKey :=
  .item .webserverApiTempLimit "TEMPERATURE_LIMIT" (fun P _ b =>
    (b.bind P.scanDouble).map ConfVal.double)

def boxedVar : LegacyKey :=
  .item .webserverInterfaceBoxed "WEBUIBOXEDLAYOUT" (fun _ _ b =>
    b.map (fun s => .bool (strcasecmp s "boxed".toList)))

def upstreamsVar : LegacyKey :=
  .one .dnsUpstreams (fun _ look c =>
    let servers :=
      (List.range 50).filterMap (fun n => look ("LORENTZ_DNS_".toList ++ Nat.toDigits 10 n))
    some (.strings (c.strings .dnsUpstreams ++ servers)))

def revServerVar : LegacyKey :=
  .one .dnsRevServers (fun _ look c =>
    match look "REV_SERVER".toList, look "REV_SERVER_CIDR".toList,
      look "REV_SERVER_TARGET".toList with
    | some active, some cidr, some target =>
      let domain := trimWhitespace ((look "REV_SERVER_DOMAIN".toList).getD [])
      let old (status : String) :=
        status.toList ++ [','] ++ trimWhitespace cidr ++ [','] ++ trimWhitespace target ++
          (if domain = [] then [] else [','] ++ domain)
      if strcasecmp active "true".toList then
        some (.strings (c.strings .dnsRevServers ++ [old "true"]))
      else if strcasecmp active "false".toList then
        some (.strings (c.strings .dnsRevServers ++ [old "false"]))
      else none
    | _, _, _ => none)

def leaseTimeVar : LegacyKey :=
  .one .dhcpLeaseTime (fun P look c =>
    let new :=
      match look "DHCP_LEASETIME".toList with
      | some s => if 'h' ∈ s then s else ((toString (P.atoi s)).toList ++ ['h']).take 9
      | none => c.text .dhcpLeaseTime
    some (.text (if new = "24".toList then "24h".toList else new)))

def setupVarsKeys : List LegacyKey :=
  [stringVar "WEBPASSWORD" .webserverApiPwhash,boolVar "BLOCKING_ENABLED" .dnsBlockingActive,
    regexVar "API_EXCLUDE_CLIENTS" .webserverApiExcludeClients,
    regexVar "API_EXCLUDE_DOMAINS" .webserverApiExcludeDomains,tempLimitVar,
    optionVar "TEMPERATURE_UNIT" .webserverApiTempUnit,boxedVar,
    optionVar "WEBTHEME" .webserverInterfaceTheme,upstreamsVar,
    stringVar "LORENTZ_DOMAIN" .dnsDomainName,boolVar "DNS_FQDN_REQUIRED" .dnsDomainNeeded,
    boolVar "DNS_FQDN_REQUIRED" .dnsExpandHosts,boolVar "DNS_BOGUS_PRIV" .dnsBogusPriv,
    boolVar "DNSSEC" .dnsDnssec,stringVar "LORENTZ_INTERFACE" .dnsInterface,
    stringVar "HOSTRECORD" .dnsHostRecord,optionVar "DNSMASQ_LISTENING" .dnsListeningMode,
    revServerVar,boolVar "DHCP_ACTIVE" .dhcpActive,ipv4Var "DHCP_START" .dhcpStart,
    ipv4Var "DHCP_END" .dhcpEnd,ipv4Var "DHCP_ROUTER" .dhcpRouter,leaseTimeVar,
    boolVar "DHCP_IPv6" .dhcpIpv6,boolVar "DHCP_RAPID_COMMIT" .dhcpRapidCommit,
    boolVar "QUERY_LOGGING" .dnsQueryLogging,stringVar "GRAVITY_TMPDIR" .filesGravityTmp,
    stringVar "WEB_PORTS" .webserverPort]

def importsetupVarsConf (P : Platform) (text : List Char) (c : Configuration) : Configuration :=
  let look := readSetupVarsconf text
  { LegacyKey.readAll P look setupVarsKeys c with
    portImported := c.portImported || (look "WEB_PORTS".toList).isSome }

theorem setupVarsKeys_nodup : (LegacyKey.allSets setupVarsKeys).Nodup := by decide

theorem importsetupVarsConf_value {k : LegacyKey} (hk : k ∈ setupVarsKeys) {i : Item}
    (hi : i ∈ k.sets) :
    (importsetupVarsConf P text c).value i = (k.read P (readSetupVarsconf text) c).value i :=
  LegacyKey.readAll_value_of_mem P _ setupVarsKeys_nodup hk hi c

theorem importsetupVarsConf_keeps :
    c.Keeps (fun i => i ∉ LegacyKey.allSets setupVarsKeys) (importsetupVarsConf P text c) :=
  have h := LegacyKey.readAll_keeps P (readSetupVarsconf text) setupVarsKeys c
  ⟨h.value,h.envVar⟩

def dnsmasqValues (text key : List Char) : List (List Char) :=
  ((text.splitOn '\n').filter (fun line => decide (key ++ ['='] <:+: line))).map (fun line =>
    trimWhitespace (findEquals line))

def customHosts (text : List Char) : List (List Char) :=
  ((text.splitOn '\n').map trimWhitespace).filter (fun line => line ≠ [] && line.head? ≠ some '#')

end Lorentz
