import Lorentz.ConfigItems
import Lorentz.Access

/-!
A configuration, the values read into it out of JSON, and its checks. The C library and the
validators of names and addresses are a `Platform`.
-/

set_option autoImplicit false

namespace Lorentz

/-- The values of the items and the flags set at run time: `FLAG_ENV_VAR` of each,
`FLAG_CONF_IMPORTED` of the web server's ports. -/
structure Configuration where
  value : Item → ConfVal
  envVar : Item → Bool
  portImported : Bool

/-- `initConfig`. -/
def Configuration.initial : Configuration := ⟨Item.dflt,fun _ => false,false⟩

def ConfVal.toBool : ConfVal → Bool
  | .bool b => b
  | _ => false

def ConfVal.toNum : ConfVal → Int
  | .num n => n
  | _ => 0

def ConfVal.toText : ConfVal → List Char
  | .text s => s
  | _ => []

def ConfVal.toStrings : ConfVal → List (List Char)
  | .strings l => l
  | _ => []

namespace Configuration

variable (c : Configuration) (i : Item)

def bool : Bool := (c.value i).toBool

def num : Int := (c.value i).toNum

def text : List Char := (c.value i).toText

def strings : List (List Char) := (c.value i).toStrings

def set (v : ConfVal) : Configuration := { c with value := Function.update c.value i v }

@[simp] theorem set_value_self (v : ConfVal) : (c.set i v).value i = v := by
  simp [set]

theorem set_value_of_ne {i j : Item} (h : j ≠ i) (v : ConfVal) :
    (c.set i v).value j = c.value j := by
  simp [set,h]

theorem set_value (v : ConfVal) (j : Item) :
    (c.set i v).value j = if j = i then v else c.value j := by
  simp [set,Function.update_apply]

@[simp] theorem set_envVar (v : ConfVal) : (c.set i v).envVar = c.envVar := rfl

end Configuration

/-- The items `get_debug_item` finds, without `debug.all` behind them. -/
def Item.isDebug (i : Item) : Bool :=
  Item.debugDatabase.ctorIdx ≤ i.ctorIdx && i.ctorIdx < Item.debugAll.ctorIdx

namespace Configuration

variable (c : Configuration)

def allDebugSet : Bool := Item.all.all (fun i => !i.isDebug || c.bool i)

/-- `debug.all` being unset does not count unless all of them are set. -/
def setAllDebug (status : Bool) : Configuration :=
  if status = false ∧ c.allDebugSet = false then c
  else { c with value := fun i => if i.isDebug then .bool status else c.value i }

def setDebugFlags : Configuration := c.set .debugAll (.bool c.allDebugSet)

theorem setAllDebug_value_of_not {i : Item} (h : i.isDebug = false) (status : Bool) :
    (c.setAllDebug status).value i = c.value i := by
  unfold setAllDebug
  split <;> simp [h]

@[simp] theorem setAllDebug_envVar (status : Bool) :
    (c.setAllDebug status).envVar = c.envVar := by
  unfold setAllDebug
  split <;> rfl

@[simp] theorem setDebugFlags_envVar : c.setDebugFlags.envVar = c.envVar := rfl

theorem setDebugFlags_value_of_ne {i : Item} (h : i ≠ .debugAll) :
    c.setDebugFlags.value i = c.value i :=
  c.set_value_of_ne h _

end Configuration

namespace Configuration

variable (c : Configuration)

def Synced : Prop := c.value .debugAll = .bool c.allDebugSet

theorem allDebugSet_congr {c c' : Configuration}
    (h : ∀ i : Item, i.isDebug = true → c'.value i = c.value i) : c'.allDebugSet = c.allDebugSet := by
  unfold allDebugSet
  congr 1
  funext i
  cases hi : i.isDebug with
  | false => rfl
  | true => simp [bool,h i hi]

theorem allDebugSet_set {i : Item} (hi : i.isDebug = false) (v : ConfVal) :
    (c.set i v).allDebugSet = c.allDebugSet := by
  apply allDebugSet_congr
  intro j hj
  apply set_value_of_ne
  rintro rfl
  simp [hi] at hj

theorem synced_setDebugFlags : c.setDebugFlags.Synced := by
  rw [Synced,setDebugFlags,allDebugSet_set c (by decide)]
  simp

theorem Synced.congr {c c' : Configuration} (h : c.Synced)
    (hv : ∀ i : Item, (i.isDebug = true ∨ i = .debugAll) → c'.value i = c.value i) : c'.Synced := by
  rw [Synced,allDebugSet_congr (fun i hi => hv i (.inl hi)),hv _ (.inr rfl)]
  exact h

theorem Synced.set {c : Configuration} (h : c.Synced) {i : Item} (hi : i.isDebug = false)
    (hne : i ≠ .debugAll) (v : ConfVal) : (c.set i v).Synced := by
  rw [Synced,allDebugSet_set c hi,set_value_of_ne c (Ne.symm hne)]
  exact h

end Configuration

/-- The values of the items that are kept and the flags for the environment stay. -/
structure Configuration.Keeps (kept : Item → Prop) (c c' : Configuration) : Prop where
  value : ∀ i, kept i → c'.value i = c.value i
  envVar : c'.envVar = c.envVar

namespace Configuration.Keeps

variable {kept kept' : Item → Prop} {c c' c'' : Configuration}

@[refl] theorem refl (kept : Item → Prop) (c : Configuration) : Keeps kept c c :=
  ⟨fun _ _ => rfl,rfl⟩

theorem trans (h : Keeps kept c c') (h' : Keeps kept c' c'') : Keeps kept c c'' where
  value i hi := (h'.value i hi).trans (h.value i hi)
  envVar := h'.envVar.trans h.envVar

theorem mono (h : Keeps kept c c') (hk : ∀ i, kept' i → kept i) : Keeps kept' c c' :=
  ⟨fun i hi => h.value i (hk i hi),h.envVar⟩

theorem set (c : Configuration) {i : Item} (v : ConfVal) (hi : ¬kept i) :
    Keeps kept c (c.set i v) where
  value j hj := by
    have hne : j ≠ i := by
      rintro rfl
      exact hi hj
    exact c.set_value_of_ne hne v
  envVar := rfl

theorem setAllDebug (c : Configuration) (status : Bool)
    (hd : ∀ i, kept i → i.isDebug = false) : Keeps kept c (c.setAllDebug status) :=
  ⟨fun i hi => c.setAllDebug_value_of_not (hd i hi) status,by simp⟩

theorem setDebugFlags (c : Configuration) (hd : ¬kept .debugAll) :
    Keeps kept c c.setDebugFlags :=
  .set c _ hd

theorem foldl {α : Type} {f : Configuration → α → Configuration}
    (hf : ∀ c a, Keeps kept c (f c a)) (c : Configuration) (l : List α) :
    Keeps kept c (l.foldl f c) := by
  induction l generalizing c with
  | nil => exact refl kept c
  | cons a l ih => exact (hf c a).trans (ih (f c a))

end Configuration.Keeps

/-- The C library, the passwords, the validators of names, addresses and regular expressions, and
dnsmasq's test of its configuration; validators and test answer with the text of the error. -/
structure Platform where
  inetPton4 : List Char → Option Nat
  inetPton6 : List Char → Option Nat
  scanInt : List Char → Option Int
  scanUint : List Char → Option Nat
  scanDouble : List Char → Option Rat
  scanRate : List Char → Option (Nat × Nat)
  atoi : List Char → Int
  passwords : Passwords
  validate : Validator → List Char → ConfVal → Option (List Char)
  dnsmasqTest : Configuration → Option (List Char)

def scanDigits (s : List Char) : Option Nat :=
  let ds := s.takeWhile Char.isDigit
  if ds = [] then none else some (Nat.ofDigitChars 10 ds 0)

/-- The C library on decimal numbers without blanks and on IPv4 addresses; the validators and
dnsmasq accept everything. -/
def Platform.plain : Platform where
  inetPton4 s :=
    let bytes := (s.splitOn '.').map (fun d =>
      if d.all Char.isDigit && d.length ≤ 3 then (scanDigits d).getD 256 else 256)
    if bytes.length = 4 ∧ ∀ b ∈ bytes, b < 256 then some (bytes.foldr (fun b n => 256*n+b) 0)
    else none
  inetPton6 _ := none
  scanInt
    | '-' :: s => (scanDigits s).map (fun n => -n)
    | s => (scanDigits s).map Int.ofNat
  scanUint := scanDigits
  scanDouble s := (scanDigits s).map (fun n => n)
  scanRate s := do
    let n ← scanDigits s
    match s.dropWhile Char.isDigit with
    | '/' :: t => (scanDigits t).map (fun m => (n,m))
    | _ => none
  atoi s := ((scanDigits s).getD 0 : Nat)
  passwords := sampleHashing.passwords (some ())
  validate _ _ _ := none
  dnsmasqTest _ := none

def ConfType.options : ConfType → List (String × Int)
  | .ptrType => [("lorentz.lan",0),("hostname",1),("hostnamefqdn",2),("none",3),("false",3)]
  | .busyType => [("BLOCK",0),("ALLOW",1),("REFUSE",2),("DROP",3)]
  | .blockingMode => [("IP",0),("NX",1),("NULL",2),("IP_NODATA_AAAA",3),("NODATA",4)]
  | .refreshHostnames => [("ALL",0),("IPV4_ONLY",1),("UNKNOWN",2),("NONE",3)]
  | .listeningMode => [("LOCAL",0),("ALL",1),("SINGLE",2),("BIND",3),("NONE",4)]
  | .webTheme => [("default-auto",0),("default-light",1),("default-dark",2),("default-darker",3),
      ("high-contrast",4),("high-contrast-dark",5),("lcars",6)]
  | .tempUnit => [("C",0),("F",1),("K",2)]
  | .blockingEdnsMode => [("NONE",0),("CODE",1),("TEXT",2)]
  | _ => []

def ConfType.optionVal (t : ConfType) (s : List Char) : Option Int :=
  (t.options.find? (fun o => strcasecmp s o.1.toList)).map Prod.snd

inductive Json where
  | null
  | bool (b : Bool)
  | num (d : Rat)
  | str (s : List Char)
  | arr (l : List Json)
  | obj (l : List (List Char × Json))

namespace Json

/-- `cJSON_GetObjectItem`: the first member with that name, in any case. -/
def getObjectItem (name : List Char) : Json → Option Json
  | .obj l => (l.find? (fun m => strcasecmp name m.1)).map Prod.snd
  | _ => none

def getPath (j : Json) : List (List Char) → Option Json
  | [] => some j
  | p :: path => (j.getObjectItem p).bind (fun j => j.getPath path)

def nest : List String → Json → Json
  | [], v => v
  | p :: path, v => .obj [(p.toList,Json.nest path v)]

def isTrue : Json → Bool
  | .bool b => b
  | _ => false

def isText (s : List Char) : Json → Bool
  | .str t => t = s
  | _ => false

def toText : Json → Option (List Char)
  | .str s => some s
  | _ => none

end Json

def towardsZero (d : Rat) : Int := d.num.tdiv d.den

def INT_MIN : Int := -2147483648

def INT_MAX : Int := 2147483647

def UINT_MAX : Int := 4294967295

def UINT16_MAX : Int := 65535

/-- The `valueint` of a number. -/
def valueint (d : Rat) : Int := max INT_MIN (min INT_MAX (towardsZero d))

def Json.integer (j : Json) (lo hi : Int) (error : String) : Except (List Char) ConfVal :=
  match j with
  | .num d => if d < lo ∨ hi < d then .error error.toList else .ok (.num (towardsZero d))
  | _ => .error error.toList

def Json.option (j : Json) (t : ConfType) : Except (List Char) ConfVal :=
  match j with
  | .str s =>
    match t.optionVal s with
    | some n => .ok (.num n)
    | none => .error "invalid option".toList
  | _ => .error "not of type string".toList

def Json.address (j : Json) (inetPton : List Char → Option Nat) (error : String) :
    Except (List Char) ConfVal :=
  match j with
  | .str s =>
    if s = [] then .ok (.num 0)
    else
      match inetPton s with
      | some a => .ok (.num a)
      | none => .error error.toList
  | _ => .error "not of type string".toList

def PRIVACY_MAXIMUM : Int := 3

def privacyLevel (n : Int) : Except (List Char) ConfVal :=
  if n < 0 ∨ PRIVACY_MAXIMUM < n then .error "not within valid range".toList else .ok (.num n)

namespace Platform

variable (P : Platform)

/-- What `getJSONvalue` sets an item to by its type; the password and `debug.all`, which set other
items, come below. -/
def jsonValue (t : ConfType) (elem : Json) : Except (List Char) ConfVal :=
  match t with
  | .bool | .allDebugBool =>
    match elem with
    | .bool b => .ok (.bool b)
    | _ => .error "not of type bool".toList
  | .int => elem.integer INT_MIN INT_MAX "not of type integer"
  | .uint => elem.integer 0 UINT_MAX "not of type unsigned integer"
  | .uint16 => elem.integer 0 UINT16_MAX "not of type unsigned integer (16bit)"
  | .double =>
    match elem with
    | .num d => .ok (.double d)
    | _ => .error "not a number".toList
  | .string | .password =>
    match elem with
    | .str s => .ok (.text s)
    | _ => .error "not of type string".toList
  | .ptrType | .busyType | .blockingMode | .refreshHostnames | .listeningMode | .webTheme
  | .tempUnit | .blockingEdnsMode => elem.option t
  | .privacyLevel =>
    match elem with
    | .num d => privacyLevel (valueint d)
    | .str s =>
      match P.scanInt s with
      | some n => privacyLevel n
      | none => .error "not of type integer".toList
    | _ => .error "not of type integer".toList
  | .inAddr => elem.address P.inetPton4 "not a valid IPv4 address"
  | .in6Addr => elem.address P.inetPton6 "not a valid IPv6 address"
  | .jsonStringArray =>
    match elem with
    | .arr l =>
      match l.mapM Json.toText with
      | some l => .ok (.strings l)
      | none => .error "array has invalid elements".toList
    | _ => .error "not of type array".toList

/-- `set_and_check_password` with the running configuration: the item before the pseudo
item is the hash. -/
def setAndCheckPassword (live new : Configuration) (password : List Char) : Option Configuration :=
  (P.passwords.setAndCheckPassword (live.text .webserverApiPwhash) (new.text .webserverApiPwhash)
    password).map (fun h => new.set .webserverApiPwhash (.text h))

def getJSONvalue (live : Configuration) (i : Item) (elem : Json) (new : Configuration) :
    Except (List Char) Configuration :=
  match P.jsonValue i.type elem with
  | .error response => .error response
  | .ok v =>
    match i.type with
    | .password =>
      if elem.isText PASSWORD_VALUE then .ok new
      else
        match P.setAndCheckPassword live new v.toText with
        | some new => .ok new
        | none => .error "password hash verification failed".toList
    | .allDebugBool => .ok ((new.set i v).setAllDebug v.toBool)
    | _ => .ok (new.set i v)

end Platform

/-- The items that are set when a value is given for `i`. -/
def Item.sets (i j : Item) : Bool :=
  match i.type with
  | .password => j = .webserverApiPwhash
  | .allDebugBool => j = i || j.isDebug
  | _ => j = i

/-- `compare_config_item`; the password is only a pseudo item. -/
def ConfType.same (t : ConfType) (val1 val2 : ConfVal) : Bool :=
  match t with
  | .password => val2 ≠ .text PASSWORD_VALUE
  | _ => val1 = val2

def NORMALIZED_PATH_LEN : Nat := 4096

def CONFIG_DIR : List Char := "/etc/lorentz".toList

def pathSegments (path : List Char) : List (List Char) :=
  (path.splitOn '/').filter (fun seg => seg ≠ [])

/-- `..` drops the segment before it, and does nothing at the root. -/
def dropSegment (out : List Char) : List Char :=
  let out := (out.reverse.dropWhile (fun c => c ≠ '/')).reverse
  if 1 < out.length then out.dropLast else out

def appendSegment (out seg : List Char) : Option (List Char) :=
  if seg = ['.'] then some out
  else if seg = ['.','.'] then some (dropSegment out)
  else if 1 < out.length ∧ NORMALIZED_PATH_LEN ≤ out.length+1 then none
  else
    let out := if 1 < out.length then out ++ ['/'] else out
    if NORMALIZED_PATH_LEN ≤ out.length+seg.length then none else some (out ++ seg)

/-- `none` if the path is not absolute or does not fit. -/
def normalizePath (path : List Char) : Option (List Char) :=
  if path.head? = some '/' then (pathSegments path).foldlM appendSegment ['/'] else none

def pathsOverlap (a b : List Char) : Bool :=
  let shorter := min a.length b.length
  a.take shorter = b.take shorter &&
    (a.length = b.length || a[b.length]? = some '/' || b[a.length]? = some '/')

def normalWebroot (webroot : List Char) : Option (List Char) :=
  match normalizePath webroot with
  | none => none
  | some norm => if norm.length = 1 ∨ pathsOverlap norm CONFIG_DIR then none else some norm

def writtenFiles : List Item :=
  [.filesLogLorentz,.filesLogDnsmasq,.filesLogWebserver,.filesDatabase,.filesTmpDb,.filesGravity,
    .filesGravityTmp,.filesPcap]

def conflicts (wnorm path : List Char) : Bool :=
  path.head? = some '/' &&
    match normalizePath path with
    | none => true
    | some pnorm => pathsOverlap wnorm pnorm

/-- `validate_config_paths`: the item that offends, and the error. -/
def validateConfigPaths (c : Configuration) : Option (Item × List Char) :=
  if (c.text .webserverPathsWebroot).head? ≠ some '/' then
    some (.webserverPathsWebroot,Item.webserverPathsWebroot.key ++
      ": must be an absolute path".toList)
  else
    match normalWebroot (c.text .webserverPathsWebroot) with
    | none =>
      some (.webserverPathsWebroot,Item.webserverPathsWebroot.key ++
        ": must not be \"/\" or overlap Lorentz's configuration directory (\"".toList ++
          CONFIG_DIR ++ "\")".toList)
    | some wnorm =>
      (writtenFiles.find? (fun i => conflicts wnorm (c.text i))).map (fun i =>
        (i,i.key ++ " (\"".toList ++ c.text i ++ "\") must not be inside ".toList ++
          Item.webserverPathsWebroot.key ++ " (\"".toList ++ c.text .webserverPathsWebroot ++
            "\")".toList))

def isPathChar (c : Char) : Bool := c.isAlphanum || c ∈ ['/','.','-','_',' ']

def quoted (key : List Char) (message : String) (s : List Char) : List Char :=
  key ++ message.toList ++ " (\"".toList ++ s ++ "\")".toList

def validateFilepath (key s : List Char) : Option (List Char) :=
  if s.all isPathChar then none else some (quoted key ": not a valid file path" s)

def validateFilepathTwoSlash (key s : List Char) : Option (List Char) :=
  if s.head? = some '/' ∧ s.getLast? = some '/' then validateFilepath key s
  else some (quoted key ": file path does not start and end with a slash" s)

def validateFilepathEmpty (key s : List Char) : Option (List Char) :=
  if s = [] then none else validateFilepath key s

def validateFilepathDash (key s : List Char) : Option (List Char) :=
  if s = ['-'] then none else validateFilepath key s

def validateWebroot (key s : List Char) : Option (List Char) :=
  match validateFilepath key s with
  | some err => some err
  | none =>
    if s.head? ≠ some '/' then some (quoted key ": must be an absolute path" s)
    else
      match normalWebroot s with
      | none =>
        some (quoted key ": must not be \"/\" or overlap Lorentz's configuration directory"
          CONFIG_DIR)
      | some _ => none

def validateUiMin7Or0 (key : List Char) (n : Int) : Option (List Char) :=
  if n < 7 ∧ n ≠ 0 then some (key ++ ": cannot be lower than 7".toList) else none

def hasNewline (s : List Char) : Bool := s.any (fun c => c = '\n' || c = '\r')

def validateStrNoNewline (key s : List Char) : Option (List Char) :=
  if hasNewline s then some (key ++ ": contains newline characters".toList) else none

def validateArrayNoNewline (key : List Char) (l : List (List Char)) : Option (List Char) :=
  (l.findIdx? hasNewline).map (fun n =>
    key ++ ['['] ++ (toString n).toList ++ "]: contains newline characters".toList)

/-- `conf_item->c`: the error, if there is one. -/
def Platform.check (P : Platform) (i : Item) (v : ConfVal) : Option (List Char) :=
  match i.validator with
  | .stub => none
  | .filepath => validateFilepath i.key v.toText
  | .filepathTwoSlash => validateFilepathTwoSlash i.key v.toText
  | .filepathEmpty => validateFilepathEmpty i.key v.toText
  | .filepathDash => validateFilepathDash i.key v.toText
  | .webroot => validateWebroot i.key v.toText
  | .uiMin7Or0 => validateUiMin7Or0 i.key v.toNum
  | .strNoNewline => validateStrNoNewline i.key v.toText
  | .arrayNoNewline => validateArrayNoNewline i.key v.toStrings
  | w => P.validate w i.key v

def Configuration.resetDefault (c : Configuration) (i : Item) : Configuration := c.set i i.dflt

/-- `resolve_config_paths`, with the passes that are left. -/
def resolveConfigPaths : Nat → Configuration → Configuration
  | 0, c => c
  | passes+1, c =>
    match validateConfigPaths c with
    | none => c
    | some (offender,_) => resolveConfigPaths passes (c.resetDefault offender)

namespace Platform

variable (P : Platform)

def resetInvalid (c : Configuration) : Configuration :=
  { c with value := fun i => if (P.check i (c.value i)).isNone then c.value i else i.dflt }

def resetConfig (c : Configuration) : Configuration :=
  resolveConfigPaths (writtenFiles.length+1) (P.resetInvalid c)

/-- `validate_config` without `reset`: the first rejection. -/
def validateConfig (c : Configuration) : Option (List Char) :=
  match Item.all.findSome? (fun i => P.check i (c.value i)) with
  | some err => some err
  | none => (validateConfigPaths c).map Prod.snd

end Platform

section

variable {c : Configuration} {i : Item}

theorem validateConfigPaths_offender {err : List Char}
    (h : validateConfigPaths c = some (i,err)) : i = .webserverPathsWebroot ∨ i ∈ writtenFiles := by
  unfold validateConfigPaths at h
  split at h
  · simp at h
    exact .inl h.1.symm
  split at h
  · simp at h
    exact .inl h.1.symm
  · simp only [Option.map_eq_some_iff,Prod.mk.injEq] at h
    obtain ⟨j,hj,rfl,-⟩ := h
    exact .inr (List.mem_of_find?_eq_some hj)

theorem absolute_of_normalWebroot {path norm : List Char} (h : normalWebroot path = some norm) :
    path.head? = some '/' := by
  by_contra hp
  simp [normalWebroot,normalizePath,hp] at h

theorem validateConfigPaths_webroot {err : List Char}
    (hw : (normalWebroot (c.text .webserverPathsWebroot)).isSome = true) :
    validateConfigPaths c ≠ some (.webserverPathsWebroot,err) := by
  intro h
  unfold validateConfigPaths at h
  split at h
  · rename_i hs
    simp [normalWebroot,normalizePath,hs] at hw
  split at h
  · rename_i hn
    simp [hn] at hw
  simp only [Option.map_eq_some_iff,Prod.mk.injEq] at h
  obtain ⟨j,hj,rfl,-⟩ := h
  have := List.mem_of_find?_eq_some hj
  revert this
  decide

theorem resolveConfigPaths_envVar (n : Nat) (c : Configuration) :
    (resolveConfigPaths n c).envVar = c.envVar := by
  induction n generalizing c with
  | zero => rfl
  | succ n ih =>
    unfold resolveConfigPaths
    split
    · rfl
    · rw [ih]
      rfl

theorem resolveConfigPaths_value_of_ne (n : Nat) (hw : i ≠ .webserverPathsWebroot)
    (hf : i ∉ writtenFiles) : (resolveConfigPaths n c).value i = c.value i := by
  induction n generalizing c with
  | zero => rfl
  | succ n ih =>
    unfold resolveConfigPaths
    split
    · rfl
    rename_i offender err h
    have hne : i ≠ offender := by
      rintro rfl
      rcases validateConfigPaths_offender h with h | h
      · exact hw h
      · exact hf h
    rw [ih]
    exact c.set_value_of_ne hne _

theorem resolveConfigPaths_webroot (n : Nat)
    (hw : (normalWebroot (c.text .webserverPathsWebroot)).isSome = true) :
    (resolveConfigPaths n c).value .webserverPathsWebroot = c.value .webserverPathsWebroot := by
  induction n generalizing c with
  | zero => rfl
  | succ n ih =>
    unfold resolveConfigPaths
    split
    · rfl
    rename_i offender err h
    have hne : Item.webserverPathsWebroot ≠ offender := by
      rintro rfl
      exact validateConfigPaths_webroot hw h
    have hv : (c.resetDefault offender).value .webserverPathsWebroot =
        c.value .webserverPathsWebroot := c.set_value_of_ne hne _
    rw [ih,hv]
    rw [Configuration.text] at hw ⊢
    rwa [hv]

theorem resolveConfigPaths_file (n : Nat) {wnorm : List Char}
    (hw : normalWebroot (c.text .webserverPathsWebroot) = some wnorm)
    (hi : i ≠ .webserverPathsWebroot) (hc : conflicts wnorm (c.text i) = false) :
    (resolveConfigPaths n c).value i = c.value i := by
  induction n generalizing c with
  | zero => rfl
  | succ n ih =>
    unfold resolveConfigPaths
    split
    · rfl
    rename_i offender err h
    have hroot : Item.webserverPathsWebroot ≠ offender := by
      rintro rfl
      exact validateConfigPaths_webroot (by simp [hw]) h
    have hne : i ≠ offender := by
      rintro rfl
      have hs := absolute_of_normalWebroot hw
      simp only [validateConfigPaths,hs,hw,ne_eq,not_true_eq_false,if_false,
        Option.map_eq_some_iff,Prod.mk.injEq] at h
      obtain ⟨j,hj,rfl,-⟩ := h
      have := List.find?_some hj
      simp [hc] at this
    have hv : ∀ j, j ≠ offender → (c.resetDefault offender).text j = c.text j := by
      intro j hj
      rw [Configuration.text,Configuration.resetDefault,c.set_value_of_ne hj,Configuration.text]
    rw [ih (by rw [hv _ hroot,hw]) (by rw [hv _ hne,hc])]
    exact c.set_value_of_ne hne _

theorem resolveConfigPaths_value_or (n : Nat) (c : Configuration) (i : Item) :
    (resolveConfigPaths n c).value i = c.value i ∨ (resolveConfigPaths n c).value i = i.dflt := by
  induction n generalizing c with
  | zero => exact .inl rfl
  | succ n ih =>
    unfold resolveConfigPaths
    split
    · exact .inl rfl
    rename_i offender err h
    rcases ih (c.resetDefault offender) with h | h
    · rw [h,Configuration.resetDefault,Configuration.set_value]
      split
      · rename_i hi
        exact .inr (by rw [hi])
      · exact .inl rfl
    · exact .inr h

variable {P : Platform}

theorem Platform.resetInvalid_value (h : P.check i (c.value i) = none) :
    (P.resetInvalid c).value i = c.value i := by
  simp [resetInvalid,h]

theorem Platform.resetInvalid_check (hd : P.check i i.dflt = none) :
    P.check i ((P.resetInvalid c).value i) = none := by
  simp only [resetInvalid]
  split
  · rename_i h
    simpa using h
  · exact hd

theorem normalWebroot_of_check
    (h : P.check .webserverPathsWebroot (c.value .webserverPathsWebroot) = none) :
    (normalWebroot (c.text .webserverPathsWebroot)).isSome = true := by
  change validateWebroot _ (c.text .webserverPathsWebroot) = none at h
  unfold validateWebroot at h
  split at h
  · cases h
  split_ifs at h
  split at h
  · cases h
  · rename_i hn
    simp [hn]

theorem Platform.check_webroot_dflt (P : Platform) :
    P.check .webserverPathsWebroot (Item.dflt .webserverPathsWebroot) = none := by
  have h : validateWebroot (Item.key .webserverPathsWebroot)
      (Item.dflt .webserverPathsWebroot).toText = none := by decide
  exact h

theorem Platform.resetConfig_value (h : P.check i (c.value i) = none) (hf : i ∉ writtenFiles) :
    (P.resetConfig c).value i = c.value i := by
  have hi := resetInvalid_value h
  by_cases hw : i = .webserverPathsWebroot
  · subst hw
    rw [resetConfig,resolveConfigPaths_webroot,hi]
    apply normalWebroot_of_check
    rw [hi,h]
  · rw [resetConfig,resolveConfigPaths_value_of_ne _ hw hf,hi]

theorem Platform.resetConfig_check (c : Configuration) (hd : P.check i i.dflt = none) :
    P.check i ((P.resetConfig c).value i) = none := by
  rcases resolveConfigPaths_value_or (writtenFiles.length+1) (P.resetInvalid c) i with h | h
  · rw [resetConfig,h]
    exact resetInvalid_check hd
  · rw [resetConfig,h,hd]

end

end Lorentz
