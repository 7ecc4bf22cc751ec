import Lorentz.ConfigFile
import Lorentz.DomainSyntax

/-!
The validators of host entries, CNAME records, reverse servers and the local domain, and what
`write_dnsmasq_config` and `write_custom_list` print.
-/

set_option autoImplicit false

namespace Lorentz
open Platform

def firstError (key : List Char) (check : List Char → Option (List Char))
    (l : List (List Char)) : Option (List Char) :=
  l.zipIdx.findSome? (fun e =>
    (check e.1).map (fun err => key ++ ['['] ++ Nat.toDigits 10 e.2 ++ "]: ".toList ++ err))

def validateHostCount (entry : List Char) (hosts : Nat) : Option (List Char) :=
  if hosts < 1 then some (quoted [] "entry does not have at least one hostname" entry) else none

/-- The names behind the address, up to a comment; `hosts` counts those that are good. -/
def validateHostnames (entry : List Char) : List (List Char) → Nat → Option (List Char)
  | [], hosts => validateHostCount entry hosts
  | host :: rest, hosts =>
    let host := host.dropWhile isspace
    if host = [] then validateHostnames entry rest hosts
    else if host.head? = some '#' then validateHostCount entry hosts
    else if validDomain host false true = false then some (quoted [] "invalid hostname" host)
    else validateHostnames entry rest (hosts+1)

def validateCname (entry : List Char) : Option (List Char) :=
  let parts := entry.splitOn ','
  match parts.findIdx? (fun s => s = []) with
  | some j => some ("contains an empty string at position ".toList ++ Nat.toDigits 10 j)
  | none =>
    if parts.length < 2 then some "not a valid CNAME definition (too few elements)".toList
    else if hasNewline entry then some "contains newline characters".toList
    else none

def validateDnsDomain (key s : List Char) : Option (List Char) :=
  if s ≠ [] ∧ validDomain s false true = false then some (quoted key ": not a valid domain" s)
  else none

namespace Platform

variable (P : Platform)

def isAddress (s : List Char) : Bool := (P.inetPton4 s).isSome || (P.inetPton6 s).isSome

def validateHost (entry : List Char) : Option (List Char) :=
  if hasNewline entry then some "contains newline characters".toList
  else
    let tmp := entry.dropWhile isspace
    let ip := tmp.takeWhile (fun c => !isBlank c)
    -- behind the separator `strsep` has found, if there was one
    let names := match tmp.drop ip.length with
      | [] => []
      | _ :: rest => (rest.dropWhile isspace).splitOnP isBlank
    if ip = [] then some (quoted [] "found no first element" entry)
    else if P.isAddress ip = false then
      some (quoted [] "neither a valid IPv4 nor IPv6 address" ip)
    else validateHostnames entry names 0

def validateLength (ip len : List Char) : Option (List Char) :=
  let ipv4 := (P.inetPton4 ip).isSome
  let ipv6 := (P.inetPton6 ip).isSome
  let n := P.atoi len
  if len = [] then some "<prefix-len> empty".toList
  else if n < 0 ∨ (ipv4 = true ∧ n > 32) ∨ (ipv6 = true ∧ n > 128) then
    some (quoted [] ("<prefix-len> not a valid " ++ (if ipv4 then "IPv4 " else if ipv6 then "IPv6 "
      else "") ++ "prefix length") len)
  else none

/-- `<ip-address>[/<prefix-len>]`. -/
def validateNetwork (s : List Char) : Option (List Char) :=
  let parts := s.splitOn '/'
  let ip := parts.headD []
  if ip = [] then some "<ip-address> empty".toList
  else if P.isAddress ip = false then
    some (quoted [] "<ip-address> neither a valid IPv4 nor IPv6 address" ip)
  else parts[1]?.bind (P.validateLength ip)

def validatePort (port : List Char) : Option (List Char) :=
  let n := P.atoi port
  if port = [] then some "specified server <port> empty".toList
  else if n < 0 ∨ n > 65535 then some (quoted [] "server <port> not a valid port" port)
  else none

/-- `<server>[#<port>]`. -/
def validateServer (s : List Char) : Option (List Char) :=
  let parts := s.splitOn '#'
  let server := parts.headD []
  if server = [] then some "<server> empty".toList
  else if P.isAddress server = false ∧ validDomain server false true = false then
    some (quoted [] "<server> neither a valid domain nor an IPv4 or IPv6 address" server)
  else parts[1]?.bind P.validatePort

def validateRevElement (e : Nat) (s : List Char) : Option (List Char) :=
  if s = [] then some "contains two commas following each other immediately".toList
  else match e with
    | 0 =>
      if s ≠ "true".toList ∧ s ≠ "false".toList then some (quoted [] "<enabled> not a boolean" s)
      else none
    | 1 => P.validateNetwork s
    | 2 => P.validateServer s
    | 3 =>
      if validDomain s false true = false then
        some (quoted [] "specified <domain> not a valid domain" s)
      else none
    | _ => some "too many elements".toList

def validateRevElements : Nat → List (List Char) → Option (List Char)
  | e, [] =>
    if e < 3 then
      some ("entry does not have all required elements (<enabled>,<ip-address>[/<prefix-len>]," ++
        "<server>[#<port>][,<domain>])").toList
    else none
  | e, s :: rest =>
    match P.validateRevElement e s with
    | some err => some err
    | none => validateRevElements (e+1) rest

def validateRevServer (entry : List Char) : Option (List Char) :=
  match P.validateRevElements 0 (entry.splitOn ',') with
  | some err => some err
  | none => if hasNewline entry then some "contains newline characters".toList else none

def withEntries : Platform :=
  { P with
    validate := fun w key v =>
      match w with
      | .dnsHosts => firstError key P.validateHost v.toStrings
      | .dnsCnames => firstError key validateCname v.toStrings
      | .dnsDomain => validateDnsDomain key v.toText
      | .dnsRevServers => firstError key P.validateRevServer v.toStrings
      | w => P.validate w key v }

end Platform

section

variable {key s : List Char}

theorem firstError_eq_none {check : List Char → Option (List Char)} {l : List (List Char)}
    (h : firstError key check l = none) : ∀ s ∈ l, check s = none := by
  intro s hs
  obtain ⟨i,hi,rfl⟩ := List.mem_iff_getElem.mp hs
  have hz : (l[i],i) ∈ l.zipIdx := by
    rw [List.mk_mem_zipIdx_iff_getElem?]
    exact List.getElem?_eq_getElem hi
  have hnone := List.findSome?_eq_none_iff.mp h _ hz
  simpa using hnone

theorem not_mem_of_hasNewline (h : hasNewline s = false) : '\n' ∉ s := by
  intro hm
  have := List.any_eq_false.mp h '\n' hm
  simp at this

theorem validateCname_newline (h : validateCname s = none) : hasNewline s = false := by
  unfold validateCname at h
  dsimp only at h
  split at h
  · cases h
  split at h
  · cases h
  · split at h
    · cases h
    · exact Bool.eq_false_iff.mpr ‹_›

variable {P : Platform}

theorem Platform.validateHost_newline (h : P.validateHost s = none) : hasNewline s = false := by
  unfold validateHost at h
  split at h
  · cases h
  · exact Bool.eq_false_iff.mpr ‹_›

theorem Platform.validateRevServer_newline (h : P.validateRevServer s = none) :
    hasNewline s = false := by
  unfold validateRevServer at h
  split at h
  · cases h
  · split at h
    · cases h
    · exact Bool.eq_false_iff.mpr ‹_›

theorem validateFilepath_newline (h : validateFilepath key s = none) : '\n' ∉ s := by
  unfold validateFilepath at h
  split at h
  · rename_i hs
    intro hm
    have := List.all_eq_true.mp hs '\n' hm
    revert this
    decide
  · cases h

theorem validDomain_newline {fqdnOnly allowUtf8 : Bool}
    (h : validDomain s fqdnOnly allowUtf8 = true) : '\n' ∉ s := by
  intro hn
  rcases (validDomain_chars h).2 _ hn with hc | ⟨-,hc⟩
  · exact absurd hc (by decide)
  · exact absurd hc (by decide)

theorem validateDnsDomain_newline (h : validateDnsDomain key s = none) : '\n' ∉ s := by
  unfold validateDnsDomain at h
  split at h
  · cases h
  rename_i hs
  by_cases hnil : s = []
  · simp [hnil]
  have hd : validDomain s false true = true := by
    by_contra hd
    exact hs ⟨hnil,by simpa using hd⟩
  exact validDomain_newline hd

end

section

variable {P : Platform} {c : Configuration}

theorem Platform.check_of_validateConfig (h : P.validateConfig c = none) (i : Item) :
    P.check i (c.value i) = none := by
  unfold validateConfig at h
  split at h
  · cases h
  · rename_i hnone
    exact List.findSome?_eq_none_iff.mp hnone i (Item.mem_all i)

def Validator.oneLine : Validator → Bool
  | .strNoNewline | .filepathDash | .filepathEmpty | .dnsDomain => true
  | _ => false

def Validator.oneLineEach : Validator → Bool
  | .arrayNoNewline | .dnsHosts | .dnsCnames | .dnsRevServers => true
  | _ => false

theorem text_oneLine (h : P.withEntries.validateConfig c = none) {i : Item}
    (hi : i.validator.oneLine = true) : '\n' ∉ c.text i := by
  have hc := check_of_validateConfig h i
  unfold check at hc
  unfold Configuration.text
  cases hv : i.validator with
  | dnsDomain =>
    rw [hv] at hc
    exact validateDnsDomain_newline hc
  | filepathEmpty =>
    simp only [hv,validateFilepathEmpty] at hc
    split at hc
    · rename_i hnil
      simp [hnil]
    · exact validateFilepath_newline hc
  | filepathDash =>
    simp only [hv,validateFilepathDash] at hc
    split at hc
    · rename_i hdash
      simp [hdash]
    · exact validateFilepath_newline hc
  | strNoNewline =>
    simp only [hv,validateStrNoNewline] at hc
    split at hc
    · cases hc
    · exact not_mem_of_hasNewline (Bool.eq_false_iff.mpr ‹_›)
  | _ => simp [hv,Validator.oneLine] at hi

theorem strings_oneLine (h : P.withEntries.validateConfig c = none) {i : Item}
    (hi : i.validator.oneLineEach = true) : ∀ s ∈ c.strings i, '\n' ∉ s := by
  have hc := check_of_validateConfig h i
  unfold check at hc
  intro s hs
  cases hv : i.validator with
  | dnsHosts =>
    rw [hv] at hc
    exact not_mem_of_hasNewline (validateHost_newline (firstError_eq_none hc s hs))
  | dnsCnames =>
    rw [hv] at hc
    exact not_mem_of_hasNewline (validateCname_newline (firstError_eq_none hc s hs))
  | dnsRevServers =>
    rw [hv] at hc
    exact not_mem_of_hasNewline (validateRevServer_newline (firstError_eq_none hc s hs))
  | arrayNoNewline =>
    simp only [hv,validateArrayNoNewline] at hc
    rw [Option.map_eq_none_iff,List.findIdx?_eq_none_iff] at hc
    exact not_mem_of_hasNewline (hc s hs)
  | _ => simp [hv,Validator.oneLineEach] at hi

end

open Print

inductive Hole where
  | header
  | number
  | address
  | interface
  | item (i : Item)
  deriving DecidableEq

/-- What the generator asks the system for; interface names, texts of addresses and comment lines
have no line breaks. -/
structure DnsmasqEnv where
  header : String → List (List Char)
  gateway : List Char
  ntop : Int → List Char
  writeable : List Char → Bool
  etcDnsmasqD : Bool
  headerLine : ∀ description, ∀ l ∈ header description, '\n' ∉ l
  gatewayLine : '\n' ∉ gateway
  ntopLine : ∀ a, '\n' ∉ ntop a

def put (s : String) : Piece Hole := .lit s.toList

def putField (before : String) (hole : Hole) (s : List Char) (after : String) :
    List (Piece Hole) :=
  [put before,.val hole s,put after]

def putNumber (n : Int) : Piece Hole := .val .number (printInteger n)

def uint32Max : Nat := 0xFFFFFFFF

def dhcpNetmask (c : Configuration) : Nat :=
  let netmask := (c.num .dhcpNetmask).toNat
  let addr := (c.num .dhcpStart).toNat
  if netmask ≠ 0 then netmask
  else if addr &&& 0x80000000 = 0 then 0xFF000000
  else if addr &&& 0xC0000000 = 0x80000000 then 0xFFFF0000
  else 0xFFFFFF00

def invalidHostAddress (addr netmask : Nat) : Option String :=
  let hostmask := uint32Max-netmask
  let host := addr &&& hostmask
  if host = 0 then some "the network address of the subnet"
  else if host = hostmask then some "the broadcast address of the subnet"
  else none

def dhcpError (c : Configuration) : Option String :=
  let start := (c.num .dhcpStart).toNat
  let last := (c.num .dhcpEnd).toNat
  let router := (c.num .dhcpRouter).toNat
  let netmask := dhcpNetmask c
  let hostmask := uint32Max-netmask
  if c.bool .dhcpActive = false then none
  else if start = 0 ∨ start = uint32Max then some "DHCP start address is not valid"
  else if last = 0 ∨ last = uint32Max then some "DHCP end address is not valid"
  else if router = 0 ∨ router = uint32Max then some "DHCP router address is not valid"
  else if hostmask &&& (hostmask+1) % (uint32Max+1) ≠ 0 then some "DHCP netmask is not valid"
  else
    match invalidHostAddress start netmask,invalidHostAddress last netmask,
        invalidHostAddress router netmask with
    | some reason,_,_ => some ("DHCP start address is " ++ reason)
    | none,some reason,_ => some ("DHCP end address is " ++ reason)
    | none,none,some reason => some ("DHCP router address is " ++ reason)
    | none,none,none =>
      if start > last then some "DHCP range start address is larger than the end address"
      else if start ≤ router ∧ router ≤ last then
        some "DHCP router address should not be within DHCP range"
      else none

structure RevServer where
  cidr : List Char
  target : List Char
  domain : Option (List Char)
  deriving DecidableEq

/-- `strtok_r` passes over empty parts; an entry not active or not complete is left out. -/
def revServer (entry : List Char) : Option RevServer :=
  match (entry.splitOn ',').filter (fun part => part ≠ []) with
  | active :: cidr :: target :: rest =>
    if active = "true".toList ∨ active = "1".toList then some ⟨cidr,target,rest.head?⟩ else none
  | _ => none

def ordinalSuffix (n : Nat) : String :=
  if n % 100 > 9 ∧ n % 100 < 20 then "th"
  else match n % 10 with
    | 1 => "st"
    | 2 => "nd"
    | 3 => "rd"
    | _ => "th"

section

variable (env : DnsmasqEnv) (c : Configuration)

def header (description : String) : List (Piece Hole) :=
  (env.header description).flatMap (fun l => [.val .header l,put "\n"])

def arrayLines (comment label : String) (i : Item) : List (Piece Hole) :=
  if c.strings i = [] then []
  else put comment :: (c.strings i).flatMap (fun s => putField label (.item i) s "\n") ++ [put "\n"]

def portLines : List (Piece Hole) :=
  [put "hostsdir=/etc/lorentz/hosts\n",put "\n",
    put "# Don't read /etc/resolv.conf. Get upstream servers only from the configuration\n",
    put "no-resolv\n",put "\n",put "# DNS port to be used\n",
    put "port=",putNumber (c.num .dnsPort),put "\n",put "\n"]

def upstreamLines : List (Piece Hole) :=
  arrayLines c "# List of upstream DNS server\n" "server=" .dnsUpstreams

def cacheSizeLines : List (Piece Hole) :=
  [put "# Set the size of dnsmasq's cache. The default is 150 names. Setting the cache\n",
    put "# size to zero disables caching. Note: huge cache size impacts performance\n",
    put "cache-size=",putNumber (c.num .dnsCacheSize),put "\n",put "\n"]

def localiseLines : List (Piece Hole) :=
  if c.bool .dnsLocalise then
    [put "# Return answers to DNS queries from /etc/hosts and interface-name and\n",
      put "# dynamic-host which depend on the interface over which the query was\n",
      put "# received. If a name has more than one address associated with it, and\n",
      put "# at least one of those addresses is on the same subnet as the interface\n",
      put "# to which the query was sent, then return only the address(es) on that\n",
      put "# subnet and return all the available addresses otherwise.\n",
      put "localise-queries\n",put "\n"]
  else []

def loggingLines : List (Piece Hole) :=
  if c.bool .dnsQueryLogging then
    [put "# Enable query logging\n",
      if c.bool .miscExtraLogging then put "log-queries=proto\n" else put "log-queries\n",
      put "log-async\n",put "\n"]
  else [put "# Disable query logging\n",put "#log-queries\n",put "#log-async\n",put "\n"]

def logFileLines : List (Piece Hole) :=
  if c.text .filesLogDnsmasq = [] then []
  else
    [put "# Specify the log file to use\n",
      put "# We set this even if logging is disabled to store warnings\n",
      put "# and errors in this file. This is useful for debugging.\n"] ++
    putField "log-facility=" (.item .filesLogDnsmasq) (c.text .filesLogDnsmasq) "\n" ++ [put "\n"]

def bogusPrivLines : List (Piece Hole) :=
  if c.bool .dnsBogusPriv then
    [put "# Bogus private reverse lookups. All reverse lookups for private IP\n",
      put "# ranges (ie 192.168.x.x, etc) which are not found in /etc/hosts or the\n",
      put "# DHCP leases file are answered with NXDOMAIN rather than being forwarded\n",
      put "bogus-priv\n",put "\n"]
  else []

def domainNeededLines : List (Piece Hole) :=
  if c.bool .dnsDomainNeeded then
    [put "# Never forward A or AAAA queries for plain names, without dots or\n",
      put "# domain parts, to upstream nameservers\n",put "domain-needed\n",put "\n"]
  else []

def expandHostsLines : List (Piece Hole) :=
  if c.bool .dnsExpandHosts then
    [put "# Add the domain to simple names (without a period) in /etc/hosts in\n",
      put "# the same way as for DHCP-derived names\n",put "expand-hosts\n",put "\n"]
  else []

def dnssecLines : List (Piece Hole) :=
  if c.bool .dnsDnssec then
    [put "# Use DNNSEC\n",put "dnssec\n",put "# 2017-02-02 root zone trust anchor\n",
      put "# https://www.iana.org/reports/2017/root-ksk-2017.pdf\n",
      put "trust-anchor=.,20326,8,2,E06D44B80B8F1D39A95C0B0D7C65D08458E880409BBC683457104237C7F8EC8D\n",
      put "# 2024-07-26 root zone trust anchor\n",
      put "# https://www.iana.org/reports/2024/root-ksk-2024.pdf\n",
      put "trust-anchor=.,38696,8,2,683D2D0ACB8C9B712A1948B27F741219298D0A450D612C483AF444A4C0FB2B16\n",
      put "\n"]
  else []

def hostRecordLines : List (Piece Hole) :=
  if c.text .dnsHostRecord = [] then []
  else put "# Add A, AAAA and PTR records to the DNS\n" ::
    putField "host-record=" (.item .dnsHostRecord) (c.text .dnsHostRecord) "\n" ++ [put "\n"]

def staleCacheLines : List (Piece Hole) :=
  if c.num .dnsCacheOptimizer > -1 then
    [put "# Use stale cache entries for a given number of seconds to optimize cache utilization\n",
      put "# Setting the time to zero will serve stale cache data regardless how long it has expired.\n",
      put "use-stale-cache=",putNumber (c.num .dnsCacheOptimizer),put "\n",put "\n"]
  else []

def MAXIFACESTRLEN : Nat := 32

def interfaceName : List Char :=
  let interface := (c.text .dnsInterface).take (MAXIFACESTRLEN-1)
  if interface = [] then env.gateway else interface

def listeningLines : List (Piece Hole) :=
  (match c.num .dnsListeningMode with
  | 0 =>
    [put "# Only respond to queries from devices that are at most one hop away (local devices)\n",
      put "local-service\n"]
  | 1 => [put "# Listen on all interfaces, permit all origins\n",put "except-interface=nonexisting\n"]
  | 2 => put "# Listen on one interface\n" ::
    putField "interface=" .interface (interfaceName env c) "\n"
  | 3 => put "# Bind to one interface\n" ::
    putField "interface=" .interface (interfaceName env c) "\n" ++ [put "bind-interfaces\n"]
  | 4 => [put "# No interface configuration applied, make sure to cover this yourself\n"]
  | _ => []) ++ [put "\n"]

/-- The lines of the reverse server that is number `n` of the array. -/
def revServerLines (r : RevServer) (n : Nat) : List (Piece Hole) :=
  [put "# Reverse server setting (",putNumber n,put (ordinalSuffix n),put " server)\n",
    put "rev-server=",.val (.item .dnsRevServers) r.cidr,put ",",
    .val (.item .dnsRevServers) r.target,put "\n"] ++
  (match r.domain with
  | some domain =>
    [put "server=/",.val (.item .dnsRevServers) domain,put "/",.val (.item .dnsRevServers) r.target,
      put "\n"]
  | none => []) ++
  (if c.bool .dnsDomainNeeded then []
    else putField "server=//" (.item .dnsRevServers) r.target "\n") ++ [put "\n"]

def revServersLines : List (Piece Hole) :=
  (c.strings .dnsRevServers).zipIdx.flatMap (fun e =>
    match revServer e.1 with
    | some r => revServerLines c r (e.2+1)
    | none => [])

def revServerFor (test : List Char → Bool) : Bool :=
  (c.strings .dnsRevServers).any (fun s => (revServer s).any (fun r => r.domain.any test))

def revServerDomain : Bool :=
  revServerFor c (fun domain =>
    c.text .dnsDomainName ≠ [] && strcasecmp domain (c.text .dnsDomainName))

def revServerZone (zone : String) : Bool := revServerFor c (fun domain => domain = zone.toList)

def domainIs (zone : String) : Bool :=
  c.text .dnsDomainName ≠ [] && strcasecmp (c.text .dnsDomainName) zone.toList

def plainNamesLines : List (Piece Hole) :=
  if c.bool .dnsDomainNeeded then
    [put "# Never forward queries for plain names, without\n",
      put "# dots or domain parts, to upstream nameservers. If the name\n",
      put "# is not known from /etc/hosts or DHCP, NXDOMAIN is returned\n",put "local=//\n\n"]
  else []

def zoneLines (zone : String) : List (Piece Hole) :=
  if revServerZone c zone then
    [put ("# A reverse server is configured for \"" ++ zone ++ "\".\n"),
      put "# All queries for this domain will be forwarded to this\n",
      put "# upstream server\n\n"]
  else if domainIs c zone && !c.bool .dnsDomainLocal then
    [put ("# The configured DNS domain is \"" ++ zone ++ "\" and is explicitly\n"),
      put "# marked non-local. Lorentz will be forwarding queries for this\n",
      put "# domain to upstream servers.\n\n"]
  else
    [put ("# Do not forward ." ++ zone ++ " domains to upstream servers\n"),
      put ("local=/" ++ zone ++ "/\n\n")]

def domainLines : List (Piece Hole) :=
  let domain := c.text .dnsDomainName
  let hole := Hole.item .dnsDomainName
  if domain = [] then []
  else put "# DNS domain for both the DNS and DHCP server\n" ::
    if revServerDomain c || !c.bool .dnsDomainLocal then
      (if revServerDomain c then
        [put "# This DNS domain is also used for reverse lookups\n",
          put "# It is forwarded to the upstream servers configured above\n"]
      else
        [put "# This domain is explicitly configured to *not* be local. Ensure\n",
          put "# that you have configured at least one upstream server for this\n",
          put "# domain elsewhere to prevent it from being forwarded to the general\n",
          put "# (probably public) upstream servers\n"]) ++
      put "# (see server=/<domain>/target above)\n" :: putField "domain=" hole domain "\n\n"
    else
      [put "# This DNS domain is purely local. Lorentz may answer queries from\n",
        put "# /etc/hosts or DHCP but should never forward queries on that\n",
        put "# domain to any upstream servers\n"] ++
      putField "domain=" hole domain "\n" ++ putField "local=/" hole domain "/\n\n"

def ownDomainLines : List (Piece Hole) :=
  [put "# Local domain for Lorentz\n",
    put "# This domain is purely local and should never be forwarded to any\n",
    put "# upstream servers. We add a false A-record to this domain to prevent\n",
    put "# NXDOMAIN responses for queries on this domain. The actual response\n",
    put "# is handled by Lorentz at runtime\n",put "local=/lorentz.lan/\n",
    put "host-record=lorentz.lan,0.0.0.0,::\n"]

def dhcpRangeLines : List (Piece Hole) :=
  [put "dhcp-range=",.val .address (env.ntop (c.num .dhcpStart)),put ",",
    .val .address (env.ntop (c.num .dhcpEnd))] ++
  (if c.num .dhcpNetmask = 0 then []
    else [put ",",.val .address (env.ntop (c.num .dhcpNetmask))]) ++
  (if c.text .dhcpLeaseTime = [] then []
    else [put ",",.val (.item .dhcpLeaseTime) (c.text .dhcpLeaseTime)]) ++
  putField "\ndhcp-option=option:router," .address (env.ntop (c.num .dhcpRouter)) "\n"

def multiDNSLines : List (Piece Hole) :=
  if c.bool .dhcpMultiDNS then
    [put "# Advertise the DNS server multiple times to work around\n",
      put "# issues with some clients adding their own servers if only\n",
      put "# one DNS server is advertised by the DHCP server.\n",
      put "dhcp-option=option:dns-server,0.0.0.0,0.0.0.0,0.0.0.0\n"]
  else []

def dhcpIpv6Lines : List (Piece Hole) :=
  if c.bool .dhcpIpv6 then
    [if c.bool .dhcpMultiDNS then
        put "dhcp-option=option6:dns-server,[::],[::],[fd00::],[fd00::],[fe80::],[fe80::]\n"
      else put "dhcp-option=option6:dns-server,[::]\n",
      put "# Enable IPv6 DHCP variant\n"] ++
    putField "dhcp-range=::,constructor:" .interface (interfaceName env c)
      ",ra-names,ra-stateless,64\n"
  else []

def dhcpOptionLines : List (Piece Hole) :=
  (if c.bool .dhcpLogging then [put "# Enable DHCP logging\n",put "log-dhcp\n\n"] else []) ++
  (if c.bool .ntpIpv4Active then
    [put "# Add NTP server to DHCP\n",put "dhcp-option=option:ntp-server,0.0.0.0\n\n"]
    else []) ++
  (if c.bool .dhcpIgnoreUnknownClients then
    [put "# Ignore clients not configured below\n",put "dhcp-ignore=tag:!known\n\n"]
    else [])

def dhcpLines : List (Piece Hole) :=
  if c.bool .dhcpActive then
    [put "# DHCP server setting\n",put "dhcp-authoritative\n",
      put "dhcp-leasefile=/etc/lorentz/dhcp.leases\n"] ++
    dhcpRangeLines env c ++
    (if c.bool .dhcpRapidCommit then [put "dhcp-rapid-commit\n"] else []) ++
    multiDNSLines c ++ dhcpIpv6Lines env c ++ [put "\n"] ++ dhcpOptionLines c ++
    arrayLines c "# Per host parameters for the DHCP server\n" "dhcp-host=" .dhcpHosts
  else []

def cnameLines : List (Piece Hole) :=
  arrayLines c "# User-defined custom CNAMEs\n" "cname=" .dnsCnameRecords

def specialNamesLines : List (Piece Hole) :=
  [put "# RFC 6761: Caching DNS servers SHOULD recognize\n",
    put "#     test, & invalid\n",
    put "# names as special and SHOULD NOT attempt to look up NS records for them, or\n",
    put "# otherwise query authoritative DNS servers in an attempt to resolve these\n",
    put "# names.\n",put "server=/test/\n",put "server=/invalid/\n",put "#     localhost\n",
    put "# Instead, caching DNS servers SHOULD, for all such address queries, generate\n",
    put "# an immediate positive response giving the IP loopback address\n",
    put "address=/localhost/127.0.0.1\n",put "address=/localhost/::1\n",put "\n",
    put "# The same RFC requests something similar for\n",
    put "#     10.in-addr.arpa.      21.172.in-addr.arpa.  27.172.in-addr.arpa.\n",
    put "#     16.172.in-addr.arpa.  22.172.in-addr.arpa.  28.172.in-addr.arpa.\n",
    put "#     17.172.in-addr.arpa.  23.172.in-addr.arpa.  29.172.in-addr.arpa.\n",
    put "#     18.172.in-addr.arpa.  24.172.in-addr.arpa.  30.172.in-addr.arpa.\n",
    put "#     19.172.in-addr.arpa.  25.172.in-addr.arpa.  31.172.in-addr.arpa.\n",
    put "#     20.172.in-addr.arpa.  26.172.in-addr.arpa.  168.192.in-addr.arpa.\n",
    put "# Lorentz implements this via the dnsmasq option \"bogus-priv\" above\n",
    put "# (if enabled!) as this option also covers IPv6.\n",put "\n",
    put "# OpenWRT furthermore blocks bind, local, onion domains\n",
    put "# see https://git.openwrt.org/?p=openwrt/openwrt.git;a=blob_plain;f=package/network/services/dnsmasq/files/rfc6761.conf;hb=HEAD\n",
    put "# and https://www.iana.org/assignments/special-use-domain-names/special-use-domain-names.xhtml\n",
    put "# We do not include the \".local\" rule ourselves, see https://github.com/pi-hole/pi-hole/pull/4282#discussion_r689112972\n",
    put "server=/bind/\n",put "server=/onion/\n",put "\n"]

def confDirLines : List (Piece Hole) :=
  if env.etcDnsmasqD && c.bool .miscEtcDnsmasqD then
    [put "# Load additional user configs\n",put "conf-dir=/etc/dnsmasq.d,*.conf\n",put "\n"]
  else []

def cacheTypeLines : List (Piece Hole) :=
  put "# Cache all DNS records\n" ::
    putField "cache-rr=" (.item .dnsCacheRrtype) (c.text .dnsCacheRrtype) "\n\n" ++ [put "\n"]

def pcapLines : List (Piece Hole) :=
  if c.text .filesPcap = [] then []
  else if env.writeable (c.text .filesPcap) then
    [put "# PCAP network traffic recording\n",put "dumpmask=0xFFFF\n"] ++
    putField "dumpfile=" (.item .filesPcap) (c.text .filesPcap) "\n" ++ [put "\n"]
  else []

def filterLines : List (Piece Hole) :=
  [put "# RFC 8482: Providing Minimal-Sized Responses to DNS Queries That Have QTYPE=ANY\n",
    put "# Filters replies to queries for type ANY. Everything other than A, AAAA, MX and CNAME\n",
    put "# records are removed. Since ANY queries with forged source addresses can be used in DNS amplification attacks\n",
    put "# replies to ANY queries can be large) this defangs such attacks, whilst still supporting the\n",
    put "# one remaining possible use of ANY queries. See RFC 8482 para 4.3 for details.\n",
    put "filter-rr=ANY\n",put "\n"]

def userLines : List (Piece Hole) :=
  if c.strings .miscDnsmasqLines = [] then []
  else put "#### Additional user configuration - START ####\n" ::
    (c.strings .miscDnsmasqLines).flatMap (fun line =>
      [.val (.item .miscDnsmasqLines) line,put "\n"]) ++
    [put "#### Additional user configuration - END ####\n\n"]

def resolverLines : List (Piece Hole) :=
  [header env "Dnsmasq config for Lorentz's",portLines c,upstreamLines c,cacheSizeLines c,
    localiseLines c,loggingLines c,logFileLines c,bogusPrivLines c,domainNeededLines c,
    expandHostsLines c,dnssecLines c,hostRecordLines c,staleCacheLines c,listeningLines env c,
    revServersLines c,plainNamesLines c].flatten

def localNamesLines : List (Piece Hole) :=
  zoneLines c "home.arpa" ++ zoneLines c "internal" ++ domainLines c ++ ownDomainLines

def serviceLines : List (Piece Hole) :=
  [dhcpLines env c,cnameLines c,specialNamesLines,confDirLines env c,cacheTypeLines c,
    pcapLines env c,filterLines].flatten

/-- `write_dnsmasq_config`: the error, or what is printed to the file. -/
def writeDnsmasqConfig : Except String (List (Piece Hole)) :=
  match dhcpError c with
  | some err => .error err
  | none => .ok (resolverLines env c ++ localNamesLines c ++ serviceLines env c ++ userLines c)

def writeCustomList : List (Piece Hole) :=
  let n := (c.strings .dnsHosts).length
  header env "Custom DNS entries (HOSTS file)" ++ [put "\n"] ++
  (if n > 0 then
    (c.strings .dnsHosts).flatMap (fun s => [.val (.item .dnsHosts) s,put "\n"]) ++ [put "\n"]
    else []) ++
  (if n = 1 then [put "\n# There is ",putNumber n,put " entry in this file\n"]
    else if n > 1 then [put "\n# There are ",putNumber n,put " entries in this file\n"]
    else [put "\n# There are currently no entries in this file\n"])

end

end Lorentz
