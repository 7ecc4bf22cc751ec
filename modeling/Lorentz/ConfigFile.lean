import Lorentz.ConfigValues

/-!
`lorentz.toml`: how a file and the environment are read into a configuration, item by item, and
how the running configuration is written.
-/

set_option autoImplicit false

namespace Lorentz

/-- A parsed document; what is none of the named types is a date or a time. -/
inductive Toml where
  | bool (b : Bool)
  | int64 (n : Int)
  | fp64 (d : Rat)
  | str (s : List Char)
  | arr (l : List Toml)
  | table (l : List (List Char × Toml))
  | other

namespace Toml

/-- `toml_table_find`. -/
def find (key : List Char) : Toml → Option Toml
  | .table l => (l.find? (fun m => m.1 = key)).map Prod.snd
  | _ => none

def getPath (t : Toml) : List (List Char) → Option Toml
  | [] => some t
  | p :: path => (t.find p).bind (fun t => t.getPath path)

def text? : Toml → Option (List Char)
  | .str s => some s
  | _ => none

def isTable : Toml → Bool
  | .table _ => true
  | _ => false

/-- The entries of an array up to the first that is no string, without the empty ones. -/
def strings (l : List Toml) : List (List Char) :=
  ((l.takeWhile (fun t => t.text?.isSome)).filterMap text?).filter (fun s => s ≠ [])

end Toml

def tomlInteger (lo hi : Int) : Toml → Option ConfVal
  | .int64 n => if lo ≤ n ∧ n ≤ hi then some (.num n) else none
  | _ => none

/-- A number as `%d` prints it. -/
def printInteger (n : Int) : List Char :=
  if n < 0 then '-' :: Nat.toDigits 10 n.natAbs else Nat.toDigits 10 n.natAbs

def addressValue (inetPton : List Char → Option Nat) (s : List Char) : Option ConfVal :=
  if s = [] then some (.num 0) else (inetPton s).map (fun a => .num a)

namespace Platform

variable (P : Platform)

/-- What `readTOMLvalue` sets an item to, unless the type is wrong. -/
def tomlValue (i : Item) (v : Toml) : Option ConfVal :=
  match i.type with
  | .bool | .allDebugBool =>
    match v with
    | .bool b => some (.bool b)
    | _ => none
  | .int => tomlInteger INT_MIN INT_MAX v
  | .uint =>
    match v with
    | .int64 n =>
      -- a negative number once kept the queries for ever
      if n < 0 ∧ i = .databaseMaxDBdays then some (.num UINT_MAX) else tomlInteger 0 UINT_MAX v
    | _ => none
  | .uint16 => tomlInteger 0 UINT16_MAX v
  | .double =>
    match v with
    | .fp64 d => some (.double d)
    | _ => none
  | .string => v.text?.map ConfVal.text
  | .password => none
  | .ptrType | .busyType | .blockingMode | .refreshHostnames | .listeningMode | .webTheme
  | .tempUnit | .blockingEdnsMode => (v.text?.bind i.type.optionVal).map ConfVal.num
  | .privacyLevel => tomlInteger 0 PRIVACY_MAXIMUM v
  | .inAddr => v.text?.bind (addressValue P.inetPton4)
  | .in6Addr => v.text?.bind (addressValue P.inetPton6)
  | .jsonStringArray =>
    match v with
    | .arr l => some (.strings (Toml.strings l))
    | _ => none

/-- `debug.all` is not set itself, but the others are. -/
def readTOMLvalue (i : Item) (datum : Option Toml) (new : Configuration) : Configuration :=
  match datum.bind (P.tomlValue i) with
  | none => new
  | some v => if i.type = .allDebugBool then new.setAllDebug v.toBool else new.set i v

theorem tomlValue_password {i : Item} (hi : i.type = .password) (v : Toml) :
    P.tomlValue i v = none := by
  simp [tomlValue,hi]

theorem readTOMLvalue_keeps (i : Item) (datum : Option Toml) (new : Configuration) :
    new.Keeps (fun j => i.sets j = false) (P.readTOMLvalue i datum new) := by
  unfold readTOMLvalue
  split
  · exact .refl _ new
  rename_i hv
  split
  · rename_i ht
    apply Configuration.Keeps.setAllDebug
    intro j hj
    simp [Item.sets,ht] at hj
    exact hj.2
  apply Configuration.Keeps.set
  obtain ⟨t,-,hv⟩ := Option.bind_eq_some_iff.1 hv
  have hp : i.type ≠ .password := by
    intro hp
    simp [P.tomlValue_password hp] at hv
  unfold Item.sets
  split <;> simp_all

def envBool (s : List Char) : Option ConfVal :=
  if strcasecmp s "true".toList ∨ strcasecmp s "yes".toList then some (.bool true)
  else if strcasecmp s "false".toList ∨ strcasecmp s "no".toList then some (.bool false)
  else none

def envStrings (s : List Char) : List (List Char) :=
  (s.splitOnP (fun c => c = ';' || c = '\n')).filter (fun e => e ≠ [])

def envValue (t : ConfType) (s : List Char) : Option ConfVal :=
  match t with
  | .bool | .allDebugBool => envBool s
  | .int => (P.scanInt s).map ConfVal.num
  | .uint => (P.scanUint s).map (fun n => .num n)
  | .uint16 => (P.scanUint s).bind (fun n => if (n : Int) ≤ UINT16_MAX then some (.num n) else none)
  | .double => (P.scanDouble s).map ConfVal.double
  | .string | .password => some (.text s)
  | .ptrType | .busyType | .blockingMode | .refreshHostnames | .listeningMode | .webTheme
  | .tempUnit | .blockingEdnsMode => (t.optionVal s).map ConfVal.num
  | .privacyLevel =>
    (P.scanInt s).bind (fun n => if 0 ≤ n ∧ n ≤ PRIVACY_MAXIMUM then some (.num n) else none)
  | .inAddr => addressValue P.inetPton4 s
  | .in6Addr => addressValue P.inetPton6 s
  | .jsonStringArray => some (.strings (envStrings s))

/-- `readEnvValue` for a variable that exists: `none` if the validator refuses it. A text of the
wrong type leaves the item alone and still counts. -/
def readEnvValue (live : Configuration) (i : Item) (s : List Char) (new : Configuration) :
    Option Configuration :=
  match P.envValue i.type s with
  | none => if (P.check i (new.value i)).isNone then some new else none
  | some v =>
    match i.type with
    | .password => some ((P.setAndCheckPassword live new v.toText).getD new)
    | .allDebugBool => some (new.setAllDebug v.toBool)
    | _ => if (P.check i v).isNone then some (new.set i v) else none

end Platform

/-- What `readLorentztoml` is called with: the document, the keys the file calls forced, and the
variables (none for an archive). -/
structure TomlSource where
  doc : Toml
  forced : List (List Char)
  env : Item → Option (List Char)
  teleporter : Bool
  cliMode : Bool

def Configuration.flagEnv (c : Configuration) (i : Item) : Configuration :=
  { c with envVar := fun j => j = i || c.envVar j }

namespace Platform

-- without a running configuration, at start-up, the one that is read is the running one
variable (P : Platform) (live : Option Configuration) (src : TomlSource)

def readFromDoc (new : Configuration) (i : Item) : Configuration :=
  if src.teleporter ∧ src.cliMode = false ∧ i.has .apiReadOnly then new
  else P.readTOMLvalue i (src.doc.getPath i.path) new

def resetForced (new : Configuration) (i : Item) : Configuration :=
  if i.type = .allDebugBool then ((new.resetDefault i).setAllDebug false).setDebugFlags
  else new.resetDefault i

def readItem (new : Configuration) (i : Item) : Configuration :=
  if src.teleporter then P.readFromDoc src new i
  else
    match src.env i with
    | some s =>
      match P.readEnvValue (live.getD new) i s new with
      | some new => new.flagEnv i
      | none => P.readFromDoc src new i
    | none => if i.key ∈ src.forced then resetForced new i else P.readFromDoc src new i

/-- `debug.config` is read first, for the messages of the rest. -/
def readDebugConfig (new : Configuration) : Configuration :=
  let datum := (src.doc.find "debug".toList).bind (fun t =>
    if t.isTable then t.find "config".toList else none)
  let new :=
    if src.teleporter then P.readTOMLvalue .debugConfig datum new
    else
      match src.env .debugConfig with
      | some s =>
        (P.readEnvValue (live.getD new) .debugConfig s new).getD
          (P.readTOMLvalue .debugConfig datum new)
      | none =>
        P.readTOMLvalue .debugConfig datum
          (if Item.debugConfig.key ∈ src.forced then new.resetDefault .debugConfig else new)
  new.setDebugFlags

/-- The table `dns.revServer` of older files, if it is complete. -/
def oldRevServer (doc : Toml) : Option (List Char) :=
  match (doc.find "dns".toList).bind (Toml.find "revServer".toList) with
  | none => none
  | some t =>
    match t.find "active".toList, (t.find "cidr".toList).bind Toml.text?,
      (t.find "target".toList).bind Toml.text?, (t.find "domain".toList).bind Toml.text? with
    | some (.bool active), some cidr, some target, some domain =>
      if cidr ≠ [] ∧ target ≠ [] then
        some ((if active then "true".toList else "false".toList) ++ [','] ++ cidr ++ [','] ++
          target ++ [','] ++ domain)
      else none
    | _, _, _, _ => none

def oldDomain (doc : Toml) : Option (List Char) :=
  match (doc.find "dns".toList).bind (Toml.find "domain".toList) with
  | some (.str s) => if s ≠ [] then some s else none
  | _ => none

def migrateConfig (doc : Toml) (new : Configuration) : Configuration :=
  let new :=
    match oldRevServer doc with
    | some s => new.set .dnsRevServers (.strings (new.strings .dnsRevServers ++ [s]))
    | none => new
  match oldDomain doc with
  | some s => new.set .dnsDomainName (.text s)
  | none => new

/-- What `readLorentztoml` makes of the configuration before it is validated. -/
def readDocument (new : Configuration) : Configuration :=
  (migrateConfig src.doc (Item.all.foldl (P.readItem live src)
    (P.readDebugConfig live src new))).setDebugFlags

end Platform

def isSpace (c : Char) : Bool := c ∈ [' ','\t','\n','\x0b','\x0c','\r']

def isBlank (c : Char) : Bool := c = ' ' || c = '\t'

/-- `strcpy` to the end of a buffer for `n` characters, if it fits. -/
def copyTo (n : Nat) (sanitized s : List Char) : List Char :=
  if sanitized.length+s.length ≤ n then sanitized ++ s else sanitized

def separate (n : Nat) (sanitized : List Char) : List Char :=
  if sanitized.length < n then sanitized ++ [' '] else sanitized

/-- The names behind the address as `strsep` finds them; what follows a comment is taken as it is.
The first argument bounds their number. -/
def sanitizeNames (n : Nat) : Nat → List Char → List Char → List Char
  | 0, _, sanitized => sanitized
  | fuel+1, tmp, sanitized =>
    let host := (tmp.takeWhile (fun c => !isBlank c)).dropWhile isSpace
    match tmp.dropWhile (fun c => !isBlank c) with
    | [] => if host = [] then sanitized else copyTo n (separate n sanitized) host
    | _ :: tail =>
      if host = [] then sanitizeNames n fuel tail sanitized
      else if host.head? = some '#' ∧ tail ≠ [] then
        copyTo n (separate n (copyTo n (separate n sanitized) host)) tail
      else if host.head? = some '#' then copyTo n (separate n sanitized) host
      else sanitizeNames n fuel tail (copyTo n (separate n sanitized) host)

def sanitizeEntry (s : List Char) : List Char :=
  let tmp := s.dropWhile isSpace
  if tmp = [] ∨ tmp.head? = some '#' then s
  else
    match tmp.dropWhile (fun c => !isBlank c) with
    | [] => tmp
    | _ :: rest =>
      sanitizeNames s.length s.length (rest.dropWhile isSpace) (tmp.takeWhile (fun c => !isBlank c))

/-- `sanitize_dns_hosts`, which changes the running configuration. -/
def Configuration.sanitizeDnsHosts (c : Configuration) : Configuration :=
  c.set .dnsHosts (.strings ((c.strings .dnsHosts).map sanitizeEntry))

/-- A file behind its first eight lines: what is written for a configuration and its forced keys,
or something else. -/
inductive TomlBody where
  | lines (values : Item → ConfVal) (forced : List (List Char))
  | other (text : List Char)

/-- `header` is the first eight lines, which hold the time. -/
structure TomlFile where
  header : List Char
  body : TomlBody

namespace Configuration

variable (c : Configuration)

def forcedKeys : List (List Char) :=
  (Item.all.filter (fun i => !i.has .pseudoItem && c.envVar i && c.value i ≠ i.dflt)).map Item.key

def lines : TomlBody :=
  .lines (fun i => if i.has .pseudoItem then i.dflt else c.value i) c.forcedKeys

end Configuration

def TomlBody.same : TomlBody → TomlBody → Bool
  | .lines v f, .lines v' f' => Item.all.all (fun i => v i = v' i) && f = f'
  | .other t, .other t' => t = t'
  | _, _ => false

def TomlFile.sameSum (f f' : TomlFile) : Bool := f.header = f'.header && f.body.same f'.body

/-- `writeLorentztoml` for the running configuration: the file stays if only its header would
change, and in read-only mode. -/
def writeLorentztoml (header : List Char) (running : Configuration) (file : Option TomlFile) :
    Configuration × Option TomlFile :=
  if running.bool .miscReadOnly then (running,file)
  else if file.any (fun f => f.body.same running.sanitizeDnsHosts.lines) then
    (running.sanitizeDnsHosts,file)
  else (running.sanitizeDnsHosts,some ⟨header,running.sanitizeDnsHosts.lines⟩)

open Lorentz.Configuration Item

namespace Platform

variable (P : Platform) (live : Option Configuration) (src : TomlSource)

def reading (c : Configuration) (i : Item) : ConfVal :=
  (P.readItem live src (P.readDebugConfig live src c) i).value i

/-- What `set_all_debug` is called with when `debug.all` is read. -/
def allDebug : Option Bool :=
  let doc := ((src.doc.getPath Item.debugAll.path).bind (P.tomlValue .debugAll)).map ConfVal.toBool
  if src.teleporter then doc
  else
    match src.env .debugAll with
    | some s => (envBool s).map ConfVal.toBool
    | none => if Item.debugAll.key ∈ src.forced then some false else doc

end Platform

section

variable {P : Platform} {live : Option Configuration} {src : TomlSource} {c c' : Configuration}
variable {i j : Item}

theorem Item.eq_debugAll (h : i.type = .allDebugBool) : i = .debugAll := by
  have hall : ∀ i ∈ Item.all, i.type = .allDebugBool → i = .debugAll := by decide +kernel
  exact hall i (mem_all i) h

theorem Platform.readEnvValue_keeps {live : Configuration} {s : List Char}
    (h : P.readEnvValue live i s c = some c') : c.Keeps (fun j => i.sets j = false) c' := by
  unfold readEnvValue at h
  split at h
  · split at h
    · cases h
      exact .refl _ _
    · cases h
  rename_i v hv
  split at h
  · rename_i ht
    cases h
    cases hp : P.setAndCheckPassword live c v.toText with
    | none => exact .refl _ _
    | some new =>
      simp only [setAndCheckPassword,Option.map_eq_some_iff] at hp
      obtain ⟨hash,-,rfl⟩ := hp
      exact .set c _ (by simp [Item.sets,ht])
  · rename_i ht
    cases h
    apply Keeps.setAllDebug
    intro j hj
    simp [Item.sets,ht] at hj
    exact hj.2
  · split at h
    · cases h
      refine .set c v ?_
      unfold Item.sets
      split <;> simp_all
    · cases h

theorem Platform.resetForced_value (c : Configuration) (hne : j ≠ i) (hs : i.sets j = false) :
    (resetForced c i).value j = c.value j := by
  unfold resetForced
  split
  · rename_i ht
    simp [Item.sets,ht] at hs
    obtain rfl := eq_debugAll ht
    rw [setDebugFlags_value_of_ne _ hne,
      setAllDebug_value_of_not _ hs.2,resetDefault,
      set_value_of_ne _ hne]
  · exact c.set_value_of_ne hne _

theorem Platform.readFromDoc_keeps (c : Configuration) (i : Item) :
    c.Keeps (fun j => i.sets j = false) (P.readFromDoc src c i) := by
  unfold readFromDoc
  split
  · exact .refl _ c
  · exact P.readTOMLvalue_keeps i _ c

theorem Platform.readItem_value_of_ne (c : Configuration) (hne : j ≠ i) (hs : i.sets j = false) :
    (P.readItem live src c i).value j = c.value j := by
  unfold readItem
  split
  · exact (readFromDoc_keeps c i).value j hs
  split
  · split
    · rename_i hn
      exact (readEnvValue_keeps hn).value j hs
    · exact (readFromDoc_keeps c i).value j hs
  · split
    · exact resetForced_value c hne hs
    · exact (readFromDoc_keeps c i).value j hs

theorem Platform.readItem_congr (hp : i.type ≠ .password) (hd : i.type ≠ .allDebugBool)
    (h : c.value i = c'.value i) :
    (P.readItem live src c i).value i = (P.readItem live src c' i).value i := by
  have hdoc : (P.readFromDoc src c i).value i = (P.readFromDoc src c' i).value i := by
    unfold readFromDoc readTOMLvalue
    split
    · exact h
    · split
      · exact h
      · simp
  have henv : ∀ s, (P.readEnvValue (live.getD c) i s c).map (fun c => c.value i) =
      (P.readEnvValue (live.getD c') i s c').map (fun c => c.value i) := by
    intro s
    unfold readEnvValue
    cases P.envValue i.type s with
    | none =>
      split <;> simp [h]
    | some v =>
      simp only
      split <;> simp
  unfold readItem
  split
  · exact hdoc
  cases src.env i with
  | none =>
    simp only
    split
    · simp [resetForced,hd,resetDefault]
    · exact hdoc
  | some s =>
    have hs := henv s
    cases h1 : P.readEnvValue (live.getD c) i s c with
    | none =>
      cases h2 : P.readEnvValue (live.getD c') i s c' with
      | none => simpa [h1,h2] using hdoc
      | some d => simp [h1,h2] at hs
    | some d =>
      cases h2 : P.readEnvValue (live.getD c') i s c' with
      | none => simp [h1,h2] at hs
      | some d' => simpa [h1,h2,flagEnv] using hs

theorem Platform.readDebugConfig_value_of_ne (c : Configuration) (hc : j ≠ .debugConfig)
    (ha : j ≠ .debugAll) : (P.readDebugConfig live src c).value j = c.value j := by
  have hs : debugConfig.sets j = false := by
    change decide (j = debugConfig) = false
    simp [hc]
  have hdoc : ∀ (c : Configuration) (datum : Option Toml),
      (P.readTOMLvalue .debugConfig datum c).value j = c.value j :=
    fun c datum => (P.readTOMLvalue_keeps .debugConfig datum c).value j hs
  simp only [readDebugConfig]
  rw [setDebugFlags_value_of_ne _ ha]
  split
  · exact hdoc c _
  split
  · rename_i s _
    cases hv : P.readEnvValue (live.getD c) .debugConfig s c with
    | none => exact hdoc c _
    | some new => exact (readEnvValue_keeps hv).value j hs
  · rw [hdoc]
    split
    · exact c.set_value_of_ne hc _
    · rfl

theorem Configuration.allDebugSet_setAllDebug_false (c : Configuration) :
    (c.setAllDebug false).allDebugSet = false := by
  unfold setAllDebug
  split
  · rename_i h
    exact h.2
  · simp only [allDebugSet,List.all_eq_false]
    have hd : debugConfig.isDebug = true := by decide
    exact ⟨.debugConfig,mem_all _,by simp [bool,hd,ConfVal.toBool]⟩

theorem Configuration.setAllDebug_true_value (c : Configuration) (hj : j.isDebug = true) :
    (c.setAllDebug true).value j = .bool true := by
  simp [setAllDebug,hj]

theorem Configuration.setAllDebug_false_value (c : Configuration) (hj : j.isDebug = true) :
    (c.setAllDebug false).value j = if c.allDebugSet then .bool false else c.value j := by
  unfold setAllDebug
  cases c.allDebugSet <;> simp [hj]

theorem Platform.readItem_debugAll (c : Configuration) (hj : j.isDebug = true) :
    (P.readItem live src c .debugAll).value j =
      ((P.allDebug src).elim c (fun b => c.setAllDebug b)).value j := by
  have hne : j ≠ .debugAll := by
    rintro rfl
    revert hj
    decide
  have hdoc : (P.readFromDoc src c .debugAll).value j =
      ((((src.doc.getPath debugAll.path).bind (P.tomlValue .debugAll)).map
        ConfVal.toBool).elim c (fun b => c.setAllDebug b)).value j := by
    have ht : debugAll.type = .allDebugBool := rfl
    have hr : debugAll.has .apiReadOnly = false := by decide
    simp only [readFromDoc,hr,Bool.false_eq_true,and_false,if_false,readTOMLvalue,ht,if_true]
    cases (src.doc.getPath debugAll.path).bind (P.tomlValue .debugAll) <;> rfl
  unfold readItem allDebug
  split
  · exact hdoc
  cases src.env .debugAll with
  | none =>
    simp only
    split
    · have ht : debugAll.type = .allDebugBool := rfl
      rw [resetForced,if_pos ht,setDebugFlags_value_of_ne _ hne]
      show ((c.set .debugAll _).setAllDebug false).value j = (c.setAllDebug false).value j
      rw [setAllDebug_false_value _ hj,setAllDebug_false_value _ hj,
        allDebugSet_set _ (by decide),set_value_of_ne _ hne]
    · exact hdoc
  | some s =>
    have he : P.envValue debugAll.type s = envBool s := rfl
    simp only [readEnvValue,he]
    cases envBool s <;> rfl

variable (P live src) in
theorem Platform.foldl_readItem_of_sets {l : List Item}
    (hl : ∀ j ∈ l, i ≠ j ∧ j.sets i = false) (c : Configuration) :
    (l.foldl (P.readItem live src) c).value i = c.value i := by
  induction l generalizing c with
  | nil => rfl
  | cons j l ih =>
    rw [List.foldl_cons,ih (fun k hk => hl k (by simp [hk]))]
    exact readItem_value_of_ne c (hl j (by simp)).1 (hl j (by simp)).2

variable (P live src) in
theorem Platform.foldl_readItem_value {l : List Item} (hn : l.Nodup) (hi : i ∈ l)
    (hs : ∀ j ∈ l, j.sets i = true → j = i) (c : Configuration) :
    ∃ c' : Configuration, c'.value i = c.value i ∧
      (l.foldl (P.readItem live src) c).value i = (P.readItem live src c' i).value i := by
  have hother : ∀ j ∈ l, i ≠ j → i ≠ j ∧ j.sets i = false := by
    intro j hj hne
    refine ⟨hne,?_⟩
    by_contra h
    exact hne (hs j hj (by simpa using h)).symm
  obtain ⟨before,after,rfl⟩ := List.append_of_mem hi
  simp only [List.nodup_append,List.nodup_cons,List.mem_cons] at hn
  refine ⟨before.foldl (P.readItem live src) c,foldl_readItem_of_sets P live src ?_ c,?_⟩
  · exact fun j hj => hother j (by simp [hj]) (fun h => hn.2.2 j hj i (.inl rfl) h.symm)
  · rw [List.foldl_append,List.foldl_cons,foldl_readItem_of_sets P live src]
    exact fun j hj => hother j (by simp [hj]) (fun h => hn.2.1.1 (h ▸ hj))

theorem Item.all_nodup : Item.all.Nodup := by decide +kernel

def Item.sole (i : Item) : Bool :=
  i.type ≠ .password && i.type ≠ .allDebugBool && !i.isDebug && i ≠ .webserverApiPwhash

theorem Item.sets_sole (hi : i.sole = true) (hj : j.sets i = true) : j = i := by
  simp [Item.sole] at hi
  unfold Item.sets at hj
  split at hj <;> simp_all

variable (P live src) in
def Platform.readItems (c : Configuration) : Configuration :=
  Item.all.foldl (P.readItem live src) (P.readDebugConfig live src c)

theorem Platform.readItems_sole (hi : i.sole = true) (c : Configuration) :
    (P.readItems live src c).value i = P.reading live src c i := by
  obtain ⟨c',hc,hv⟩ := foldl_readItem_value P live src all_nodup (mem_all i)
    (fun j _ => sets_sole hi) (P.readDebugConfig live src c)
  simp [Item.sole] at hi
  rw [readItems,hv,reading]
  exact readItem_congr hi.1.1.1 hi.1.1.2 hc

variable (P live src) in
theorem Platform.readItems_debug (c : Configuration) :
    ∃ front : Configuration, (∀ j, j.isDebug = true → front.value j = P.reading live src c j) ∧
      ∀ j, j.isDebug = true → (P.readItems live src c).value j =
        ((P.allDebug src).elim front (fun b => front.setAllDebug b)).value j := by
  have hall : Item.all = Item.all.dropLast ++ [.debugAll] := by decide +kernel
  refine ⟨Item.all.dropLast.foldl (P.readItem live src) (P.readDebugConfig live src c),?_,?_⟩
  · intro j hj
    have htype : ∀ j ∈ Item.all, j.isDebug = true → j.type ≠ .password ∧ j.type ≠ .allDebugBool ∧
        j ∈ Item.all.dropLast := by decide +kernel
    obtain ⟨hp,hd,hm⟩ := htype j (mem_all j) hj
    have hother : ∀ k ∈ Item.all.dropLast, k.type ≠ .allDebugBool := by decide +kernel
    obtain ⟨c',hc,hv⟩ := foldl_readItem_value P live src
      (all_nodup.sublist (List.dropLast_sublist _)) hm (by
        intro k hk hs
        have hka := hother k hk
        unfold Item.sets at hs
        split at hs
        · have hne : j ≠ .webserverApiPwhash := by
            rintro rfl
            revert hj
            decide
          simp [hne] at hs
        · exact absurd (by assumption) hka
        · exact (of_decide_eq_true hs).symm) (P.readDebugConfig live src c)
    rw [hv,reading]
    exact readItem_congr hp hd hc
  · intro j hj
    conv_lhs => rw [readItems,hall,List.foldl_append]
    exact readItem_debugAll _ hj

variable (P live src) in
def Platform.hashed (c : Configuration) : ConfVal :=
  if src.teleporter then c.value .webserverApiPwhash
  else
    match src.env .webserverApiPassword with
    | none => c.value .webserverApiPwhash
    | some s =>
      ((P.setAndCheckPassword (live.getD c) c s).getD c).value .webserverApiPwhash

theorem Platform.readItem_password (c : Configuration) :
    (P.readItem live src c .webserverApiPassword).value .webserverApiPwhash =
      P.hashed live src c := by
  have hdoc : P.readFromDoc src c .webserverApiPassword = c := by
    have ht : webserverApiPassword.type = .password := rfl
    simp [readFromDoc,readTOMLvalue,Option.bind_eq_none_iff.2 (fun t _ => P.tomlValue_password ht t)]
  unfold readItem hashed
  rw [hdoc]
  split
  · rfl
  cases src.env .webserverApiPassword with
  | none =>
    simp only
    split
    · exact c.set_value_of_ne (by decide) _
    · rfl
  | some s => rfl

variable (P live src) in
theorem Platform.readItems_pwhash (c : Configuration) :
    ∃ c' : Configuration,
      c'.value .webserverApiPwhash = P.reading live src c .webserverApiPwhash ∧
        (P.readItems live src c).value .webserverApiPwhash = P.hashed live src c' := by
  have hall : Item.all = Item.all.takeWhile (fun i => i ≠ .webserverApiPassword) ++
      .webserverApiPassword :: (Item.all.dropWhile (fun i => i ≠ .webserverApiPassword)).tail := by
    decide +kernel
  have hbefore : ∀ j ∈ Item.all.takeWhile (fun i => i ≠ .webserverApiPassword),
      j.sets .webserverApiPwhash = true → j = .webserverApiPwhash := by decide
  have hafter : ∀ j ∈ (Item.all.dropWhile (fun i => i ≠ .webserverApiPassword)).tail,
      .webserverApiPwhash ≠ j ∧ j.sets .webserverApiPwhash = false := by decide
  obtain ⟨c',hc,hv⟩ := foldl_readItem_value P live src
    (all_nodup.sublist (List.takeWhile_sublist _)) (by decide) hbefore
    (P.readDebugConfig live src c)
  refine ⟨_,hv.trans (readItem_congr (by decide) (by decide) hc),?_⟩
  conv_lhs => rw [readItems,hall,List.foldl_append,List.foldl_cons]
  rw [foldl_readItem_of_sets P live src hafter,readItem_password]

theorem Platform.resetForced_envVar (c : Configuration) (i : Item) :
    (resetForced c i).envVar = c.envVar := by
  unfold resetForced
  split
  · simp [resetDefault]
  · rfl

theorem Platform.readItem_flagged (h : c.envVar j = true) (i : Item) :
    (P.readItem live src c i).envVar j = true := by
  have hdoc : (P.readFromDoc src c i).envVar j = true := by
    rw [(readFromDoc_keeps c i).envVar,h]
  unfold readItem
  split
  · exact hdoc
  split
  · split
    · rename_i hn
      simp [flagEnv,(readEnvValue_keeps hn).envVar,h]
    · exact hdoc
  · split
    · rw [resetForced_envVar,h]
    · exact hdoc

theorem Platform.foldl_readItem_flagged (h : c.envVar j = true) (l : List Item) :
    (l.foldl (P.readItem live src) c).envVar j = true := by
  induction l generalizing c with
  | nil => exact h
  | cons i l ih => exact ih (readItem_flagged h i)

theorem Platform.readDebugConfig_envVar (c : Configuration) :
    (P.readDebugConfig live src c).envVar = c.envVar := by
  simp only [readDebugConfig,setDebugFlags_envVar]
  split
  · exact (P.readTOMLvalue_keeps _ _ c).envVar
  split
  · rename_i s _
    cases hv : P.readEnvValue (live.getD c) .debugConfig s c with
    | none => exact (P.readTOMLvalue_keeps _ _ c).envVar
    | some new => exact (readEnvValue_keeps hv).envVar
  · rw [(P.readTOMLvalue_keeps _ _ _).envVar]
    split <;> rfl

theorem Platform.migrateConfig_keeps (doc : Toml) (c : Configuration) :
    c.Keeps (fun j => (j ≠ .dnsRevServers ∨ oldRevServer doc = none) ∧
      (j ≠ .dnsDomainName ∨ oldDomain doc = none)) (migrateConfig doc c) := by
  unfold migrateConfig
  split
  · rename_i hs
    split
    · exact (Keeps.set c _ (by simp [hs])).trans (.set _ _ (by simp_all))
    · exact .set c _ (by simp [hs])
  · split
    · exact .set c _ (by simp_all)
    · exact .refl _ c

theorem Platform.readDocument_eq (c : Configuration) :
    P.readDocument live src c = (migrateConfig src.doc (P.readItems live src c)).setDebugFlags :=
  rfl

theorem Platform.readDocument_flagged (h : c.envVar j = true) :
    (P.readDocument live src c).envVar j = true := by
  rw [readDocument_eq,setDebugFlags_envVar,(migrateConfig_keeps _ _).envVar]
  exact foldl_readItem_flagged (by rw [readDebugConfig_envVar,h]) Item.all

theorem Platform.readDocument_flags {s : List Char} (ht : src.teleporter = false)
    (he : src.env i = some s)
    (hv : ∀ c, (P.readEnvValue (live.getD c) i s c).isSome = true) (c : Configuration) :
    (P.readDocument live src c).envVar i = true := by
  have hitem : ∀ c, (P.readItem live src c i).envVar i = true := by
    intro c
    cases hn : P.readEnvValue (live.getD c) i s c with
    | none =>
      have := hv c
      simp [hn] at this
    | some new => simp [readItem,ht,he,hn,flagEnv]
  obtain ⟨before,after,hall⟩ := List.append_of_mem (mem_all i)
  rw [readDocument_eq,setDebugFlags_envVar,(migrateConfig_keeps _ _).envVar,
    readItems,hall,List.foldl_append,List.foldl_cons]
  exact foldl_readItem_flagged (hitem _) after

end

end Lorentz
