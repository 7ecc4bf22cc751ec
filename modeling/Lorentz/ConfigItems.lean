import Mathlib

/-!
The items of the configuration in the order of `struct config`: key, type, default, validator and
flags, as `initConfig` sets them.
-/

set_option autoImplicit false

namespace Lorentz

/-- The types of items there are; a string is one type, allocated or not. -/
inductive ConfType where
  | bool | int | uint | uint16 | double | string | password | ptrType | busyType | blockingMode
  | refreshHostnames | privacyLevel | listeningMode | webTheme | blockingEdnsMode | tempUnit
  | inAddr | in6Addr | jsonStringArray | allDebugBool
  deriving DecidableEq, Repr

/-- `union conf_value`: an enumeration and an address is a number. -/
inductive ConfVal where
  | bool (b : Bool)
  | num (n : Int)
  | double (d : Rat)
  | text (s : List Char)
  | strings (l : List (List Char))
  deriving DecidableEq

inductive ConfFlag where
  | restartLorentz | pseudoItem | invalidateSessions | writeOnly | apiCliReadOnly | apiReadOnly
  deriving DecidableEq, Repr

inductive Validator where
  | stub | dnsHosts | dnsCnames | dnsDomain | dnsDomainOrIp | dnsRevServers | domain | netmask
  | filepath | filepathTwoSlash | filepathEmpty | filepathDash | databaseLocation | webroot
  | regexArray | uiMin7Or0 | strNoNewline | arrayNoNewline
  deriving DecidableEq, Repr

/-- What `struct conf_item` holds that never changes; the key is the path with dots. -/
structure ConfItem where
  p : List String
  t : ConfType
  d : ConfVal
  c : Validator
  f : List ConfFlag

def ConfItem.bool (p : List String) (d : Bool) (f : List ConfFlag := []) : ConfItem :=
  ⟨p,.bool,.bool d,.stub,f⟩

def ConfItem.num (p : List String) (t : ConfType) (d : Int) (f : List ConfFlag := []) : ConfItem :=
  ⟨p,t,.num d,.stub,f⟩

def ConfItem.text (p : List String) (d : String) (c : Validator) (f : List ConfFlag := []) :
    ConfItem :=
  ⟨p,.string,.text d.toList,c,f⟩

def ConfItem.array (p : List String) (c : Validator) (f : List ConfFlag := []) : ConfItem :=
  ⟨p,.jsonStringArray,.strings [],c,f⟩

inductive Item where
  | dnsUpstreams | dnsCNAMEdeepInspect | dnsBlockESNI | dnsEDNS0ECS | dnsIgnoreLocalhost
  | dnsShowDNSSEC | dnsAnalyzeOnlyAandAAAA | dnsLorentzPTR | dnsReplyWhenBusy | dnsBlockTTL
  | dnsHosts | dnsDomainNeeded | dnsExpandHosts | dnsBogusPriv | dnsDnssec | dnsInterface
  | dnsHostRecord | dnsListeningMode | dnsQueryLogging | dnsCnameRecords | dnsPort | dnsLocalise
  | dnsRevServers | dnsDomainName | dnsDomainLocal | dnsCacheSize | dnsCacheOptimizer
  | dnsCacheUpstreamBlockedTTL | dnsCacheRrtype | dnsBlockingActive | dnsBlockingMode
  | dnsBlockingEdns | dnsSpecialDomainsMozillaCanary | dnsSpecialDomainsICloudPrivateRelay
  | dnsSpecialDomainsDesignatedResolver | dnsReplyHostForce4 | dnsReplyHostV4 | dnsReplyHostForce6
  | dnsReplyHostV6 | dnsReplyBlockingForce4 | dnsReplyBlockingV4 | dnsReplyBlockingForce6
  | dnsReplyBlockingV6 | dnsRateLimitCount | dnsRateLimitInterval
  | dhcpActive | dhcpStart | dhcpEnd | dhcpRouter | dhcpNetmask | dhcpLeaseTime | dhcpIpv6
  | dhcpRapidCommit | dhcpMultiDNS | dhcpLogging | dhcpIgnoreUnknownClients | dhcpHosts
  | ntpIpv4Active | ntpIpv4Address | ntpIpv6Active | ntpIpv6Address | ntpSyncActive
  | ntpSyncServer | ntpSyncInterval | ntpSyncCount | ntpSyncRtcSet | ntpSyncRtcDevice
  | ntpSyncRtcUtc
  | resolverResolveIPv4 | resolverResolveIPv6 | resolverMacNames | resolverNetworkNames
  | resolverRefreshNames
  | gravityUpdateInterval
  | databaseDBimport | databaseStoreQueries | databaseMaxDBdays | databaseDBinterval
  | databaseUseWAL | databaseForceDisk | databaseNetworkParseARPcache | databaseNetworkExpire
  | databasePoolSize | databasePoolIdleTimeout
  | webserverDomain | webserverAcl | webserverPort | webserverThreads | webserverHeaders
  | webserverServeAll | webserverAdvancedOpts | webserverSessionTimeout | webserverSessionRestore
  | webserverTlsCert | webserverTlsValidity | webserverPathsWebroot | webserverPathsWebhome
  | webserverPathsPrefix | webserverInterfaceBoxed | webserverInterfaceTheme
  | webserverApiMaxSessions | webserverApiPrettyJSON | webserverApiPwhash | webserverApiPassword
  | webserverApiTotpSecret | webserverApiAppPwhash | webserverApiAppSudo | webserverApiCliPw
  | webserverApiExcludeClients | webserverApiExcludeDomains | webserverApiMaxHistory
  | webserverApiMaxClients | webserverApiClientHistoryGlobalMax | webserverApiAllowDestructive
  | webserverApiTempLimit | webserverApiTempUnit
  | filesDatabase | filesTmpDb | filesGravity | filesGravityTmp | filesMacvendor | filesPcap
  | filesLogLorentz | filesLogDnsmasq | filesLogWebserver
  | miscPrivacylevel | miscDelayStartup | miscNice | miscAddr2line | miscEtcDnsmasqD
  | miscDnsmasqLines | miscExtraLogging | miscReadOnly | miscNormalizeCPU | miscHideDnsmasqWarn
  | miscHideConnectionError | miscCheckLoad | miscCheckShmem | miscCheckDisk
  | debugDatabase | debugNetworking | debugLocks | debugQueries | debugFlags | debugShmem
  | debugGc | debugArp | debugRegex | debugApi | debugTls | debugOvertime | debugStatus
  | debugCaps | debugDnssec | debugVectors | debugResolver | debugEdns0 | debugClients
  | debugAliasclients | debugEvents | debugHelper | debugConfig | debugInotify | debugWebserver
  | debugExtra | debugReserved | debugNtp | debugNetlink | debugTiming | debugPerformance
  | debugAll
  deriving DecidableEq, Repr

namespace Item

def all : List Item := (List.range 171).map Item.ofNat

@[simp] theorem mem_all (i : Item) : i ∈ all := by
  refine List.mem_map.2 ⟨i.ctorIdx,List.mem_range.2 ?_,Item.ofNat_ctorIdx i⟩
  cases i <;> decide

def conf : Item → ConfItem
  | .dnsUpstreams => .array ["dns","upstreams"] .arrayNoNewline [.restartLorentz]
  | .dnsCNAMEdeepInspect => .bool ["dns","CNAMEdeepInspect"] true
  | .dnsBlockESNI => .bool ["dns","blockESNI"] true
  | .dnsEDNS0ECS => .bool ["dns","EDNS0ECS"] true
  | .dnsIgnoreLocalhost => .bool ["dns","ignoreLocalhost"] false
  | .dnsShowDNSSEC => .bool ["dns","showDNSSEC"] true
  | .dnsAnalyzeOnlyAandAAAA => .bool ["dns","analyzeOnlyAandAAAA"] false
  | .dnsLorentzPTR => .num ["dns","lorentzPTR"] .ptrType 0 [.restartLorentz]
  | .dnsReplyWhenBusy => .num ["dns","replyWhenBusy"] .busyType 1
  | .dnsBlockTTL => .num ["dns","blockTTL"] .uint 2
  | .dnsHosts => .array ["dns","hosts"] .dnsHosts
  | .dnsDomainNeeded => .bool ["dns","domainNeeded"] false [.restartLorentz]
  | .dnsExpandHosts => .bool ["dns","expandHosts"] false [.restartLorentz]
  | .dnsBogusPriv => .bool ["dns","bogusPriv"] true [.restartLorentz]
  | .dnsDnssec => .bool ["dns","dnssec"] false [.restartLorentz]
  | .dnsInterface => ⟨["dns","interface"],.string,.text [],.strNoNewline,[.restartLorentz]⟩
  | .dnsHostRecord => ⟨["dns","hostRecord"],.string,.text [],.strNoNewline,[.restartLorentz]⟩
  | .dnsListeningMode => .num ["dns","listeningMode"] .listeningMode 0 [.restartLorentz]
  | .dnsQueryLogging => .bool ["dns","queryLogging"] true [.restartLorentz]
  | .dnsCnameRecords => .array ["dns","cnameRecords"] .dnsCnames [.restartLorentz]
  | .dnsPort => .num ["dns","port"] .uint16 53 [.restartLorentz]
  | .dnsLocalise => .bool ["dns","localise"] true [.restartLorentz]
  | .dnsRevServers => .array ["dns","revServers"] .dnsRevServers [.restartLorentz]
  | .dnsDomainName => .text ["dns","domain","name"] "lan" .dnsDomain [.restartLorentz]
  | .dnsDomainLocal => .bool ["dns","domain","local"] true [.restartLorentz]
  | .dnsCacheSize => .num ["dns","cache","size"] .uint 10000 [.restartLorentz]
  | .dnsCacheOptimizer => .num ["dns","cache","optimizer"] .int 3600 [.restartLorentz]
  | .dnsCacheUpstreamBlockedTTL => .num ["dns","cache","upstreamBlockedTTL"] .uint 86400
  | .dnsCacheRrtype => .text ["dns","cache","rrtype"] "ANY" .strNoNewline [.restartLorentz]
  | .dnsBlockingActive => .bool ["dns","blocking","active"] true
  | .dnsBlockingMode => .num ["dns","blocking","mode"] .blockingMode 2
  | .dnsBlockingEdns => .num ["dns","blocking","edns"] .blockingEdnsMode 2
  | .dnsSpecialDomainsMozillaCanary => .bool ["dns","specialDomains","mozillaCanary"] true
  | .dnsSpecialDomainsICloudPrivateRelay => .bool ["dns","specialDomains","iCloudPrivateRelay"] true
  | .dnsSpecialDomainsDesignatedResolver => .bool ["dns","specialDomains","designatedResolver"] true
  | .dnsReplyHostForce4 => .bool ["dns","reply","host","force4"] false
  | .dnsReplyHostV4 => .num ["dns","reply","host","IPv4"] .inAddr 0
  | .dnsReplyHostForce6 => .bool ["dns","reply","host","force6"] false
  | .dnsReplyHostV6 => .num ["dns","reply","host","IPv6"] .in6Addr 0
  | .dnsReplyBlockingForce4 => .bool ["dns","reply","blocking","force4"] false
  | .dnsReplyBlockingV4 => .num ["dns","reply","blocking","IPv4"] .inAddr 0
  | .dnsReplyBlockingForce6 => .bool ["dns","reply","blocking","force6"] false
  | .dnsReplyBlockingV6 => .num ["dns","reply","blocking","IPv6"] .in6Addr 0
  | .dnsRateLimitCount => .num ["dns","rateLimit","count"] .uint 1000
  | .dnsRateLimitInterval => .num ["dns","rateLimit","interval"] .uint 60
  | .dhcpActive => .bool ["dhcp","active"] false [.restartLorentz]
  | .dhcpStart => .num ["dhcp","start"] .inAddr 0 [.restartLorentz]
  | .dhcpEnd => .num ["dhcp","end"] .inAddr 0 [.restartLorentz]
  | .dhcpRouter => .num ["dhcp","router"] .inAddr 0 [.restartLorentz]
  | .dhcpNetmask => ⟨["dhcp","netmask"],.inAddr,.num 0,.netmask,[.restartLorentz]⟩
  | .dhcpLeaseTime => ⟨["dhcp","leaseTime"],.string,.text [],.strNoNewline,[.restartLorentz]⟩
  | .dhcpIpv6 => .bool ["dhcp","ipv6"] false [.restartLorentz]
  | .dhcpRapidCommit => .bool ["dhcp","rapidCommit"] false [.restartLorentz]
  | .dhcpMultiDNS => .bool ["dhcp","multiDNS"] false [.restartLorentz]
  | .dhcpLogging => .bool ["dhcp","logging"] false [.restartLorentz]
  | .dhcpIgnoreUnknownClients => .bool ["dhcp","ignoreUnknownClients"] false [.restartLorentz]
  | .dhcpHosts => .array ["dhcp","hosts"] .arrayNoNewline [.restartLorentz]
  | .ntpIpv4Active => .bool ["ntp","ipv4","active"] true [.restartLorentz]
  | .ntpIpv4Address => .num ["ntp","ipv4","address"] .inAddr 0 [.restartLorentz]
  | .ntpIpv6Active => .bool ["ntp","ipv6","active"] true [.restartLorentz]
  | .ntpIpv6Address => .num ["ntp","ipv6","address"] .in6Addr 0 [.restartLorentz]
  | .ntpSyncActive => .bool ["ntp","sync","active"] true [.restartLorentz]
  | .ntpSyncServer => .text ["ntp","sync","server"] "pool.ntp.org" .dnsDomainOrIp
  | .ntpSyncInterval => .num ["ntp","sync","interval"] .uint 3600
  | .ntpSyncCount => .num ["ntp","sync","count"] .uint 8
  | .ntpSyncRtcSet => .bool ["ntp","sync","rtc","set"] false
  | .ntpSyncRtcDevice => ⟨["ntp","sync","rtc","device"],.string,.text [],.stub,[]⟩
  | .ntpSyncRtcUtc => .bool ["ntp","sync","rtc","utc"] true
  | .resolverResolveIPv4 => .bool ["resolver","resolveIPv4"] true
  | .resolverResolveIPv6 => .bool ["resolver","resolveIPv6"] true
  | .resolverMacNames => .bool ["resolver","macNames"] true
  | .resolverNetworkNames => .bool ["resolver","networkNames"] true
  | .resolverRefreshNames => .num ["resolver","refreshNames"] .refreshHostnames 1
  | .gravityUpdateInterval => .num ["gravity","updateInterval"] .uint 24
  | .databaseDBimport => .bool ["database","DBimport"] true
  | .databaseStoreQueries => .bool ["database","storeQueries"] true
  | .databaseMaxDBdays => .num ["database","maxDBdays"] .uint 91
  | .databaseDBinterval => .num ["database","DBinterval"] .uint 60
  | .databaseUseWAL => .bool ["database","useWAL"] true [.restartLorentz]
  | .databaseForceDisk => .bool ["database","forceDisk"] false [.restartLorentz]
  | .databaseNetworkParseARPcache => .bool ["database","network","parseARPcache"] true
  | .databaseNetworkExpire => .num ["database","network","expire"] .uint 91
  | .databasePoolSize => .num ["database","pool","size"] .uint 8 [.restartLorentz]
  | .databasePoolIdleTimeout => .num ["database","pool","idleTimeout"] .uint 300 [.restartLorentz]
  | .webserverDomain => .text ["webserver","domain"] "lorentz.lan" .domain [.restartLorentz]
  | .webserverAcl => ⟨["webserver","acl"],.string,.text [],.stub,[.restartLorentz]⟩
  | .webserverPort =>
    .text ["webserver","port"] "80o,443os,[::]:80o,[::]:443os" .stub [.restartLorentz]
  | .webserverThreads => .num ["webserver","threads"] .uint 50 [.restartLorentz]
  | .webserverHeaders => .array ["webserver","headers"] .stub [.restartLorentz]
  | .webserverServeAll => .bool ["webserver","serve_all"] false
  | .webserverAdvancedOpts =>
    .array ["webserver","advancedOpts"] .stub [.restartLorentz,.apiReadOnly]
  | .webserverSessionTimeout => .num ["webserver","session","timeout"] .uint 1800
  | .webserverSessionRestore => .bool ["webserver","session","restore"] true
  | .webserverTlsCert =>
    .text ["webserver","tls","cert"] "/etc/lorentz/tls.pem" .filepath [.restartLorentz]
  | .webserverTlsValidity => ⟨["webserver","tls","validity"],.uint,.num 47,.uiMin7Or0,[]⟩
  | .webserverPathsWebroot =>
    .text ["webserver","paths","webroot"] "/var/www/html" .webroot [.restartLorentz,.apiReadOnly]
  | .webserverPathsWebhome =>
    .text ["webserver","paths","webhome"] "/admin/" .filepathTwoSlash [.restartLorentz,.apiReadOnly]
  | .webserverPathsPrefix =>
    ⟨["webserver","paths","prefix"],.string,.text [],.filepathEmpty,[.restartLorentz,.apiReadOnly]⟩
  | .webserverInterfaceBoxed => .bool ["webserver","interface","boxed"] true
  | .webserverInterfaceTheme => .num ["webserver","interface","theme"] .webTheme 0
  | .webserverApiMaxSessions => .num ["webserver","api","max_sessions"] .uint16 16 [.restartLorentz]
  | .webserverApiPrettyJSON => .bool ["webserver","api","prettyJSON"] false
  | .webserverApiPwhash =>
    ⟨["webserver","api","pwhash"],.string,.text [],.stub,[.invalidateSessions]⟩
  | .webserverApiPassword =>
    ⟨["webserver","api","password"],.password,.text [],.stub,[.pseudoItem,.invalidateSessions]⟩
  | .webserverApiTotpSecret =>
    ⟨["webserver","api","totp_secret"],.string,.text [],.stub,[.writeOnly,.invalidateSessions]⟩
  | .webserverApiAppPwhash =>
    ⟨["webserver","api","app_pwhash"],.string,.text [],.stub,[.invalidateSessions]⟩
  | .webserverApiAppSudo => .bool ["webserver","api","app_sudo"] false
  | .webserverApiCliPw => .bool ["webserver","api","cli_pw"] true [.restartLorentz]
  | .webserverApiExcludeClients => .array ["webserver","api","excludeClients"] .regexArray
  | .webserverApiExcludeDomains => .array ["webserver","api","excludeDomains"] .regexArray
  | .webserverApiMaxHistory => .num ["webserver","api","maxHistory"] .uint 86400 [.restartLorentz]
  | .webserverApiMaxClients => .num ["webserver","api","maxClients"] .uint16 10
  | .webserverApiClientHistoryGlobalMax =>
    .bool ["webserver","api","client_history_global_max"] true
  | .webserverApiAllowDestructive => .bool ["webserver","api","allow_destructive"] true
  | .webserverApiTempLimit => ⟨["webserver","api","temp","limit"],.double,.double 60,.stub,[]⟩
  | .webserverApiTempUnit => .num ["webserver","api","temp","unit"] .tempUnit 0
  | .filesDatabase =>
    .text ["files","database"] "/etc/lorentz/lorentz.db" .databaseLocation [.restartLorentz]
  | .filesTmpDb =>
    .text ["files","tmp_db"] "/etc/lorentz/lorentz-tmp.db" .filepath [.restartLorentz]
  | .filesGravity =>
    .text ["files","gravity"] "/etc/lorentz/gravity.db" .databaseLocation [.restartLorentz]
  | .filesGravityTmp => .text ["files","gravity_tmp"] "/tmp" .filepath [.restartLorentz]
  | .filesMacvendor => .text ["files","macvendor"] "/etc/lorentz/macvendor.db" .filepath
  | .filesPcap => ⟨["files","pcap"],.string,.text [],.filepathEmpty,[.restartLorentz]⟩
  | .filesLogLorentz => .text ["files","log","lorentz"] "/var/log/lorentz/lorentz.log" .filepath
  | .filesLogDnsmasq =>
    .text ["files","log","dnsmasq"] "/var/log/lorentz/lorentz.log" .filepathDash [.restartLorentz]
  | .filesLogWebserver =>
    .text ["files","log","webserver"] "/var/log/lorentz/webserver.log" .filepath [.restartLorentz]
  | .miscPrivacylevel => .num ["misc","privacylevel"] .privacyLevel 0
  | .miscDelayStartup => .num ["misc","delay_startup"] .uint 0
  | .miscNice => .num ["misc","nice"] .int (-10) [.restartLorentz]
  | .miscAddr2line => .bool ["misc","addr2line"] true
  | .miscEtcDnsmasqD => .bool ["misc","etc_dnsmasq_d"] false [.restartLorentz]
  | .miscDnsmasqLines =>
    .array ["misc","dnsmasq_lines"] .arrayNoNewline [.restartLorentz,.apiReadOnly]
  | .miscExtraLogging => .bool ["misc","extraLogging"] false [.restartLorentz]
  | .miscReadOnly => .bool ["misc","readOnly"] false [.apiCliReadOnly]
  | .miscNormalizeCPU => .bool ["misc","normalizeCPU"] true
  | .miscHideDnsmasqWarn => .bool ["misc","hide_dnsmasq_warn"] false
  | .miscHideConnectionError => .bool ["misc","hide_connection_error"] false
  | .miscCheckLoad => .bool ["misc","check","load"] true
  | .miscCheckShmem => .num ["misc","check","shmem"] .uint 90
  | .miscCheckDisk => .num ["misc","check","disk"] .uint 90
  | .debugDatabase => .bool ["debug","database"] false
  | .debugNetworking => .bool ["debug","networking"] false
  | .debugLocks => .bool ["debug","locks"] false
  | .debugQueries => .bool ["debug","queries"] false
  | .debugFlags => .bool ["debug","flags"] false
  | .debugShmem => .bool ["debug","shmem"] false
  | .debugGc => .bool ["debug","gc"] false
  | .debugArp => .bool ["debug","arp"] false
  | .debugRegex => .bool ["debug","regex"] false
  | .debugApi => .bool ["debug","api"] false
  | .debugTls => .bool ["debug","tls"] false
  | .debugOvertime => .bool ["debug","overtime"] false
  | .debugStatus => .bool ["debug","status"] false
  | .debugCaps => .bool ["debug","caps"] false
  | .debugDnssec => .bool ["debug","dnssec"] false
  | .debugVectors => .bool ["debug","vectors"] false
  | .debugResolver => .bool ["debug","resolver"] false
  | .debugEdns0 => .bool ["debug","edns0"] false
  | .debugClients => .bool ["debug","clients"] false
  | .debugAliasclients => .bool ["debug","aliasclients"] false
  | .debugEvents => .bool ["debug","events"] false
  | .debugHelper => .bool ["debug","helper"] false
  | .debugConfig => .bool ["debug","config"] false
  | .debugInotify => .bool ["debug","inotify"] false
  | .debugWebserver => .bool ["debug","webserver"] false
  | .debugExtra => .bool ["debug","extra"] false
  | .debugReserved => .bool ["debug","reserved"] false
  | .debugNtp => .bool ["debug","ntp"] false
  | .debugNetlink => .bool ["debug","netlink"] false
  | .debugTiming => .bool ["debug","timing"] false
  | .debugPerformance => .bool ["debug","performance"] false
  | .debugAll => ⟨["debug","all"],.allDebugBool,.bool false,.stub,[]⟩

variable (i : Item)

def path : List (List Char) := i.conf.p.map String.toList

def key : List Char := ['.'].intercalate i.path

def type : ConfType := i.conf.t

def dflt : ConfVal := i.conf.d

def validator : Validator := i.conf.c

def has (f : ConfFlag) : Bool := f ∈ i.conf.f

end Item

end Lorentz
