import Lorentz.Library.Bits
import Lorentz.Library.Monitor

/-!
EDNS(0): the pseudoheader of a packet, the one record its options are read into, the client
that they name, and `getEDNS`, which hands that record out once.
-/

set_option autoImplicit false

namespace Lorentz

open Tlv

inductive AddressFamily where
  | inet
  | inet6
  deriving DecidableEq, Repr

def AddressFamily.size : AddressFamily → Nat
  | .inet => 4
  | .inet6 => 16

/-- From the C library and dnsmasq: the text of an address, and MAC addresses as text and back;
`scanMac` is what `sscanf` has converted, up to six bytes. -/
structure EdnsLibrary where
  inetNtop : AddressFamily → List UInt8 → List Char
  printMac : List UInt8 → List UInt8
  scanMac : List UInt8 → List UInt8
  inetNtop_injective : ∀ f f' a a', a.length = f.size → a'.length = f'.size →
    inetNtop f a = inetNtop f' a' → f = f' ∧ a = a'
  scanMac_length : ∀ s, (scanMac s).length ≤ 6

/-- `ednsData`; an error code that is not set is `none`. -/
structure EdnsData where
  clientSet : Bool
  macSet : Bool
  valid : Bool
  client : List Char
  macByte : List UInt8
  macText : List UInt8
  ede : Option Nat
  deriving DecidableEq

def EdnsData.blank : EdnsData := ⟨false,false,true,[],List.replicate 6 0,[],none⟩

/-- `getEDNS`: the record, if it was not handed out yet, and what is left. -/
def getEDNS (edns : EdnsData) : Option EdnsData × EdnsData :=
  if edns.valid then (some { edns with valid := false },{ edns with valid := false })
  else (none,edns)

def EDNS0_ECS : Nat := 8
def EDNS0_COOKIE : Nat := 10
def EDNS0_EDE : Nat := 15
def EDNS0_MAC_ADDR_BYTE : Nat := 65001
def EDNS0_MAC_ADDR_TEXT : Nat := 65073
def EDNS0_MAC_ADDR_BASE64 : Nat := EDNS0_MAC_ADDR_TEXT
def EDNS0_CPE_ID : Nat := 65074

def AddressFamily.padded (f : AddressFamily) (addr : List UInt8) : List UInt8 :=
  addr ++ List.replicate (f.size-addr.length) 0

def AddressFamily.loopback : AddressFamily → List UInt8 → Bool
  | .inet, addr => addr.head? = some 127
  | .inet6, addr => addr = List.replicate 15 0 ++ [1]

namespace EdnsLibrary

variable (E : EdnsLibrary)

/-- The end of the ECS branch: the text is stored for a full prefix, the flag only for an address
that is not loopback. -/
def storeClient (f : AddressFamily) (sourceNetmask : Nat) (addr : List UInt8) (edns : EdnsData) :
    EdnsData :=
  if sourceNetmask = 8*f.size then
    { edns with
      client := E.inetNtop f (f.padded addr),
      clientSet := edns.clientSet || !f.loopback (f.padded addr) }
  else edns

def storeMacByte (mac : List UInt8) (edns : EdnsData) : EdnsData :=
  { edns with macByte := mac, macText := E.printMac mac, macSet := true }

/-- `sscanf` writes the bytes it converts, also if there are not enough of them. -/
def storeMacText (text : List UInt8) (edns : EdnsData) : EdnsData :=
  let mac := E.scanMac text
  { edns with
    macText := text,
    macByte := mac ++ edns.macByte.drop mac.length,
    macSet := edns.macSet || mac.length = 6 }

/-- The option at `p` of the buffer `b`, with what is read for the log only. -/
def readEcs (b : List UInt8) (p optlen : Nat) (edns : EdnsData) : Option EdnsData :=
  match short b p, b[p+2]? with
  | some family, some sourceNetmask =>
    let addrlen := optlen-4
    if family = 1 ∧ addrlen ≤ 4 then
      (bytes b (p+4) addrlen).map (fun addr => E.storeClient .inet sourceNetmask.toNat addr edns)
    else if family = 2 ∧ addrlen ≤ 16 then
      (bytes b (p+4) addrlen).map (fun addr => E.storeClient .inet6 sourceNetmask.toNat addr edns)
    else some edns
  | _, _ => none

/-- A pass of the loop of `Lorentz_parse_pseudoheaders` behind the header of the option; `ecs` is
`dns.EDNS0ECS`. Every branch moves the pointer by `optlen`. -/
def readOption (ecs : Bool) (b : List UInt8) (p code optlen : Nat) (edns : EdnsData) :
    Option EdnsData :=
  if code = EDNS0_ECS ∧ ecs ∧ 4 ≤ optlen then E.readEcs b p optlen edns
  else if code = EDNS0_COOKIE ∧ optlen = 8 then (bytes b p 8).map (fun _ => edns)
  else if code = EDNS0_COOKIE ∧ 16 ≤ optlen ∧ optlen ≤ 40 then
    (bytes b p optlen).map (fun _ => edns)
  else if code = EDNS0_MAC_ADDR_BYTE ∧ optlen = 6 then
    (bytes b p 6).map (fun mac => E.storeMacByte mac edns)
  else if code = EDNS0_MAC_ADDR_TEXT ∧ optlen = 17 then
    (bytes b p 17).map (fun text => E.storeMacText text edns)
  else if code = EDNS0_MAC_ADDR_BASE64 ∧ optlen = 8 then some edns
  else if code = EDNS0_CPE_ID ∧ optlen < 256 then (bytes b p optlen).map (fun _ => edns)
  else if code = EDNS0_EDE ∧ 2 ≤ optlen then
    match short b p, bytes b (p+2) (optlen-2) with
    | some infoCode, some _ => some { edns with ede := some infoCode }
    | _, _ => none
  else some edns

def parsePseudoheaders (ecs : Bool) (pheader : Option (List UInt8)) (edns : EdnsData) :
    Outcome EdnsData :=
  match pheader with
  | none => .done edns
  | some b =>
    match b[0]? with
    | none => .outside
    | some name =>
      if name ≠ 0 then .done edns
      else
        match short b 1 with
        | none => .outside
        | some type =>
          if type ≠ 41 then .done edns
          else
            -- the class and the two halves of the TTL, the lower byte of the first is the version
            match short b 3, short b 5, short b 7, short b 9 with
            | some _, some high, some _, some rdlen =>
              if high % 256 ≠ 0 then .done edns
              else if rdlen < 65535 then scan b (11+rdlen) (E.readOption ecs b) b.length 11 .blank
              else .done .blank
            | _, _, _, _ => .outside

end EdnsLibrary

/-- An ECS option of one of the two families with not too many bytes of an address. -/
structure EcsOption where
  family : AddressFamily
  sourceNetmask : Nat
  address : List UInt8
  deriving DecidableEq

namespace EcsOption

def read (data : List UInt8) : Option EcsOption :=
  match short data 0, data[2]? with
  | some family, some sourceNetmask =>
    let addrlen := data.length-4
    if family = 1 ∧ addrlen ≤ 4 then some ⟨.inet,sourceNetmask.toNat,data.drop 4⟩
    else if family = 2 ∧ addrlen ≤ 16 then some ⟨.inet6,sourceNetmask.toNat,data.drop 4⟩
    else none
  | _, _ => none

variable (o : EcsOption)

def padded : List UInt8 := o.family.padded o.address

def full : Bool := o.sourceNetmask = 8*o.family.size

def complete : Bool := o.address.length = o.family.size

def loopback : Bool := o.family.loopback o.padded

end EcsOption

def ecsOf (ecs : Bool) (r : Nat × List UInt8) : Option EcsOption :=
  if r.1 = EDNS0_ECS ∧ ecs ∧ 4 ≤ r.2.length then EcsOption.read r.2 else none

def EdnsLibrary.macOf (E : EdnsLibrary) (r : Nat × List UInt8) : Option (List UInt8) :=
  if r.1 = EDNS0_MAC_ADDR_BYTE ∧ r.2.length = 6 then some r.2
  else if r.1 = EDNS0_MAC_ADDR_TEXT ∧ r.2.length = 17 then some (E.scanMac r.2)
  else none

def edeOf (r : Nat × List UInt8) : Option Nat :=
  if r.1 = EDNS0_EDE ∧ 2 ≤ r.2.length then short r.2 0 else none

def EdnsLibrary.applyOption (E : EdnsLibrary) (ecs : Bool) (code : Nat) (data : List UInt8)
    (edns : EdnsData) : EdnsData :=
  if code = EDNS0_ECS ∧ ecs ∧ 4 ≤ data.length then
    match EcsOption.read data with
    | some o => E.storeClient o.family o.sourceNetmask o.address edns
    | none => edns
  else if code = EDNS0_MAC_ADDR_BYTE ∧ data.length = 6 then E.storeMacByte data edns
  else if code = EDNS0_MAC_ADDR_TEXT ∧ data.length = 17 then E.storeMacText data edns
  else if code = EDNS0_EDE ∧ 2 ≤ data.length then { edns with ede := (short data 0) }
  else edns

section

variable {E : EdnsLibrary} {ecs : Bool} {b : List UInt8}

theorem length_window {p n : Nat} (h : p+n ≤ b.length) : ((b.drop p).take n).length = n := by
  simp
  omega

theorem short_window {p n k : Nat} (h : k+2 ≤ n) : short ((b.drop p).take n) k = short b (p+k) := by
  rw [short_take h,short_drop]

theorem readEcs_eq {p optlen : Nat} (h : p+optlen ≤ b.length) (h4 : 4 ≤ optlen)
    (edns : EdnsData) :
    E.readEcs b p optlen edns =
      some (match EcsOption.read ((b.drop p).take optlen) with
        | some o => E.storeClient o.family o.sourceNetmask o.address edns
        | none => edns) := by
  obtain ⟨family,hfamily⟩ := short_isSome (b := b) (p := p) (by omega)
  have hmask : p+2 < b.length := by omega
  have hfamily' : short ((b.drop p).take optlen) 0 = some family := by
    rw [short_window (by omega),Nat.add_zero,hfamily]
  have hmask' : ((b.drop p).take optlen)[2]? = some b[p+2] := by
    have h2 : 2 < optlen := by omega
    simp [h2,hmask]
  have haddr : ((b.drop p).take optlen).drop 4 = (b.drop (p+4)).take (optlen-4) := by
    rw [List.drop_take,List.drop_drop]
  rw [EdnsLibrary.readEcs,EcsOption.read,hfamily,hfamily',hmask',length_window h,haddr,
    List.getElem?_eq_getElem hmask]
  dsimp only
  rw [bytes_eq (show p+4+(optlen-4) ≤ b.length by omega)]
  by_cases h1 : family = 1 ∧ optlen-4 ≤ 4
  · simp only [if_pos h1,Option.map_some]
  · by_cases h2 : family = 2 ∧ optlen-4 ≤ 16
    · simp only [if_neg h1,if_pos h2,Option.map_some]
    · simp only [if_neg h1,if_neg h2]

theorem readOption_eq (p code optlen : Nat) (edns : EdnsData) (h : p+optlen ≤ b.length) :
    E.readOption ecs b p code optlen edns =
      some (E.applyOption ecs code ((b.drop p).take optlen) edns) := by
  rw [EdnsLibrary.readOption,EdnsLibrary.applyOption,length_window h]
  by_cases hecs : code = EDNS0_ECS ∧ ecs ∧ 4 ≤ optlen
  · simp only [if_pos hecs]
    exact readEcs_eq h hecs.2.2 edns
  simp only [if_neg hecs]
  by_cases hc : code = EDNS0_COOKIE ∧ optlen = 8
  · obtain ⟨rfl,rfl⟩ := hc
    simp [bytes_eq h,EDNS0_COOKIE,EDNS0_MAC_ADDR_BYTE,EDNS0_MAC_ADDR_TEXT,EDNS0_EDE]
  simp only [if_neg hc]
  by_cases hs : code = EDNS0_COOKIE ∧ 16 ≤ optlen ∧ optlen ≤ 40
  · obtain ⟨rfl,-⟩ := id hs
    simp [bytes_eq h,hs,EDNS0_COOKIE,EDNS0_MAC_ADDR_BYTE,EDNS0_MAC_ADDR_TEXT,EDNS0_EDE]
  simp only [if_neg hs]
  by_cases hm : code = EDNS0_MAC_ADDR_BYTE ∧ optlen = 6
  · obtain ⟨rfl,rfl⟩ := hm
    simp [bytes_eq h]
  simp only [if_neg hm]
  by_cases ht : code = EDNS0_MAC_ADDR_TEXT ∧ optlen = 17
  · obtain ⟨rfl,rfl⟩ := ht
    simp [bytes_eq h]
  simp only [if_neg ht]
  by_cases hb : code = EDNS0_MAC_ADDR_BASE64 ∧ optlen = 8
  · obtain ⟨rfl,rfl⟩ := hb
    simp [EDNS0_MAC_ADDR_BASE64,EDNS0_MAC_ADDR_TEXT,EDNS0_EDE]
  simp only [if_neg hb]
  by_cases hi : code = EDNS0_CPE_ID ∧ optlen < 256
  · obtain ⟨rfl,-⟩ := id hi
    simp [bytes_eq h,hi,EDNS0_CPE_ID,EDNS0_EDE]
  simp only [if_neg hi]
  by_cases he : code = EDNS0_EDE ∧ 2 ≤ optlen
  · obtain ⟨infoCode,hcode⟩ := short_isSome (b := b) (p := p) (by omega)
    have hwindow : short ((b.drop p).take optlen) 0 = some infoCode := by
      rw [short_window (by omega),Nat.add_zero,hcode]
    simp only [if_pos he,hcode,hwindow,bytes_eq (show p+2+(optlen-2) ≤ b.length by omega)]
  · simp only [if_neg he]

end

/-- What `find_pseudoheader` finds for the root as name: the eleven bytes of the fixed part and as
many as its length says. -/
structure Pseudoheader where
  bytes : List UInt8
  nonempty : 0 < bytes.length
  sized : bytes[0]? = some 0 → ∃ rdlen, short bytes 9 = some rdlen ∧ bytes.length = 11+rdlen

namespace Pseudoheader

variable (h : Pseudoheader)

def version0 : Bool :=
  h.bytes[0]? = some 0 && short h.bytes 1 = some 41 && (short h.bytes 5).any (fun n => n % 256 = 0)

def options : List (Nat × List UInt8) :=
  if h.bytes.length < 11+65535 then records h.bytes.length (h.bytes.drop 11) else []

def data (E : EdnsLibrary) (ecs : Bool) : EdnsData :=
  h.options.foldl (fun edns r => E.applyOption ecs r.1 r.2 edns) .blank

end Pseudoheader

theorem parsePseudoheaders_eq (E : EdnsLibrary) (ecs : Bool) (h : Pseudoheader) (edns : EdnsData) :
    E.parsePseudoheaders ecs (some h.bytes) edns =
      .done (if h.version0 then h.data E ecs else edns) := by
  obtain ⟨b,hne,hsized⟩ := h
  have hname : b[0]? = some b[0] := List.getElem?_eq_getElem hne
  simp only [EdnsLibrary.parsePseudoheaders,Pseudoheader.version0,hname]
  by_cases h0 : b[0] = 0
  · obtain ⟨rdlen,hrd,hlen⟩ := hsized (by rw [hname,h0])
    obtain ⟨type,htype⟩ := short_isSome (b := b) (p := 1) (by omega)
    obtain ⟨payload,hclass⟩ := short_isSome (b := b) (p := 3) (by omega)
    obtain ⟨high,hhigh⟩ := short_isSome (b := b) (p := 5) (by omega)
    obtain ⟨low,hlow⟩ := short_isSome (b := b) (p := 7) (by omega)
    simp only [h0,htype,hclass,hhigh,hlow,hrd]
    by_cases ht : type = 41
    · by_cases hv : high % 256 = 0
      · have hrec : scan b (11+rdlen) (E.readOption ecs b) b.length 11 .blank = _ :=
          scan_eq (by omega) (fun p code n s hp => readOption_eq p code n s hp) (by omega)
            (by omega) EdnsData.blank
        rw [← hlen,List.take_length] at hrec
        by_cases hr : rdlen < 65535
        · have hopt : b.length < 11+65535 := by omega
          simp [ht,hv,hr,hrec,Pseudoheader.data,Pseudoheader.options,hopt,← hlen]
        · have hopt : ¬ b.length < 11+65535 := by omega
          simp [ht,hv,hr,Pseudoheader.data,Pseudoheader.options,hopt]
      · simp [ht,hv]
    · simp [ht]
  · simp [h0]

open Tlv EdnsLibrary EcsOption

def fullEcs (ecs : Bool) (rs : List (Nat × List UInt8)) : List EcsOption :=
  (rs.filterMap (ecsOf ecs)).filter EcsOption.full

def EdnsLibrary.ecsText (E : EdnsLibrary) (o : EcsOption) : List Char := E.inetNtop o.family o.padded

namespace EcsOption

def proper (o : EcsOption) : Bool := o.full && o.complete && !o.loopback

theorem length_address {data : List UInt8} {o : EcsOption} (h : read data = some o) :
    o.address.length ≤ o.family.size := by
  unfold read at h
  split at h
  · dsimp only at h
    split_ifs at h with h1 h2
    · obtain rfl := Option.some.inj h
      simpa [AddressFamily.size] using h1.2
    · obtain rfl := Option.some.inj h
      simpa [AddressFamily.size] using h2.2
  · cases h

theorem length_padded {o : EcsOption} (h : o.address.length ≤ o.family.size) :
    o.padded.length = o.family.size := by
  simp [padded,AddressFamily.padded]
  omega

end EcsOption

section

variable {E : EdnsLibrary} {ecs : Bool}

theorem mem_fullEcs {rs : List (Nat × List UInt8)} {o : EcsOption} (h : o ∈ fullEcs ecs rs) :
    o.full = true ∧ o.address.length ≤ o.family.size := by
  obtain ⟨hm,hfull⟩ := List.mem_filter.1 h
  obtain ⟨r,-,hr⟩ := List.mem_filterMap.1 hm
  unfold ecsOf at hr
  split_ifs at hr
  exact ⟨hfull,length_address hr⟩

theorem applyOption_client (E : EdnsLibrary) (ecs : Bool) (r : Nat × List UInt8) (edns : EdnsData) :
    (E.applyOption ecs r.1 r.2 edns).client =
        (((fullEcs ecs [r]).getLast?).map E.ecsText).getD edns.client ∧
      (E.applyOption ecs r.1 r.2 edns).clientSet =
        (edns.clientSet || (fullEcs ecs [r]).any (fun o => !o.loopback)) := by
  unfold applyOption fullEcs
  by_cases hecs : r.1 = EDNS0_ECS ∧ ecs ∧ 4 ≤ r.2.length
  · cases hr : EcsOption.read r.2 with
    | none => simp [ecsOf,hecs,hr]
    | some o =>
      by_cases hf : o.sourceNetmask = 8*o.family.size
      · simp [ecsOf,hecs,hr,storeClient,EcsOption.full,hf,ecsText,
          padded,loopback]
      · simp [ecsOf,hecs,hr,storeClient,EcsOption.full,hf]
  · have hnone : ecsOf ecs r = none := if_neg hecs
    simp only [List.filterMap_cons,hnone,List.filterMap_nil,List.filter_nil]
    split_ifs <;> simp [storeMacByte,storeMacText]

theorem foldl_client (rs : List (Nat × List UInt8)) (edns : EdnsData) :
    (rs.foldl (fun edns r => E.applyOption ecs r.1 r.2 edns) edns).client =
        (((fullEcs ecs rs).getLast?).map E.ecsText).getD edns.client ∧
      (rs.foldl (fun edns r => E.applyOption ecs r.1 r.2 edns) edns).clientSet =
        (edns.clientSet || (fullEcs ecs rs).any (fun o => !o.loopback)) := by
  induction rs using List.reverseRecOn with
  | nil => simp [fullEcs]
  | append_singleton rs r ih =>
    obtain ⟨hclient,hset⟩ := applyOption_client E ecs r
      (rs.foldl (fun edns r => E.applyOption ecs r.1 r.2 edns) edns)
    have happ : fullEcs ecs (rs ++ [r]) = fullEcs ecs rs ++ fullEcs ecs [r] := by
      simp [fullEcs]
    rw [List.foldl_append,List.foldl_cons,List.foldl_nil,hclient,hset,ih.1,ih.2,happ]
    constructor
    · rw [List.getLast?_append]
      cases (fullEcs ecs [r]).getLast? <;> simp
    · simp [Bool.or_assoc]

end

def ProperClient (E : EdnsLibrary) (ecs : Bool) (rs : List (Nat × List UInt8)) (edns : EdnsData) :
    Prop :=
  edns.clientSet = true →
    ∃ o ∈ rs.filterMap (ecsOf ecs), o.proper = true ∧ edns.client = E.inetNtop o.family o.address

/-- If some ECS option with a full prefix is not loopback, the last one with a full prefix has,
filled up with zeros, the address of a proper one. -/
def LastIsProper (ecs : Bool) (rs : List (Nat × List UInt8)) : Prop :=
  (∃ o ∈ fullEcs ecs rs, o.loopback = false) →
    ∃ o ∈ fullEcs ecs rs, o.proper = true ∧
      ∀ last ∈ (fullEcs ecs rs).getLast?, last.family = o.family ∧ last.padded = o.address

instance (ecs : Bool) (rs : List (Nat × List UInt8)) : Decidable (LastIsProper ecs rs) := by
  unfold LastIsProper
  infer_instance

theorem clientSet_data (E : EdnsLibrary) (ecs : Bool) (h : Pseudoheader) :
    (h.data E ecs).clientSet = true ↔ ∃ o ∈ fullEcs ecs h.options, o.loopback = false := by
  rw [Pseudoheader.data,(foldl_client h.options .blank).2]
  simp [EdnsData.blank]

theorem client_data {E : EdnsLibrary} {ecs : Bool} {h : Pseudoheader}
    (hset : (h.data E ecs).clientSet = true) :
    ∃ last, (fullEcs ecs h.options).getLast? = some last ∧
      (h.data E ecs).client = E.ecsText last := by
  obtain ⟨o,ho,-⟩ := (clientSet_data E ecs h).1 hset
  obtain ⟨last,hlast⟩ := Option.isSome_iff_exists.1
    (List.getLast?_isSome.2 (List.ne_nil_of_mem ho))
  refine ⟨last,hlast,?_⟩
  rw [Pseudoheader.data,(foldl_client h.options .blank).1,hlast]
  rfl

theorem mem_full_of_proper {ecs : Bool} {rs : List (Nat × List UInt8)} {o : EcsOption} :
    (o ∈ rs.filterMap (ecsOf ecs) ∧ o.proper = true) ↔ (o ∈ fullEcs ecs rs ∧ o.proper = true) := by
  simp only [fullEcs,List.mem_filter,proper,Bool.and_eq_true]
  tauto

theorem properClient_iff (E : EdnsLibrary) (ecs : Bool) (h : Pseudoheader) :
    ProperClient E ecs h.options (h.data E ecs) ↔ LastIsProper ecs h.options := by
  unfold ProperClient LastIsProper
  rw [clientSet_data]
  refine forall_congr' fun hex => ?_
  obtain ⟨last,hlast,htext⟩ := client_data ((clientSet_data E ecs h).2 hex)
  have hsize := length_padded (mem_fullEcs (List.mem_of_getLast? hlast)).2
  constructor
  · rintro ⟨o,ho,hproper,hclient⟩
    obtain ⟨ho,-⟩ := mem_full_of_proper.1 ⟨ho,hproper⟩
    refine ⟨o,ho,hproper,?_⟩
    intro last' hlast'
    obtain rfl : last = last' := by simpa [hlast] using hlast'
    rw [htext] at hclient
    have hcomplete : o.address.length = o.family.size := by
      simp only [proper,complete,Bool.and_eq_true,decide_eq_true_eq] at hproper
      exact hproper.1.2
    exact E.inetNtop_injective _ _ _ _ hsize hcomplete hclient
  · rintro ⟨o,ho,hproper,hall⟩
    obtain ⟨ho,-⟩ := mem_full_of_proper.2 ⟨ho,hproper⟩
    obtain ⟨hfamily,hpadded⟩ := hall last (by simp [hlast])
    refine ⟨o,ho,hproper,?_⟩
    rw [htext,ecsText,hfamily,hpadded]

/-- The parser ends without a read outside of a pseudoheader of version 0, and a client set
afterwards is that of a proper ECS option exactly if the last option with a full prefix has the
address of one. -/
theorem edns_client_iff (E : EdnsLibrary) (ecs : Bool) (h : Pseudoheader) (edns : EdnsData)
    (hv : h.version0 = true) :
    ∃ edns', E.parsePseudoheaders ecs (some h.bytes) edns = .done edns' ∧
      (ProperClient E ecs h.options edns' ↔ LastIsProper ecs h.options) := by
  refine ⟨h.data E ecs,?_,properClient_iff E ecs h⟩
  rw [parsePseudoheaders_eq,if_pos hv]

def dottedQuad (a : List UInt8) : List Char :=
  ['.'].intercalate (a.map (fun b => Nat.toDigits 10 b.toNat))

theorem splitOn_dottedQuad {a : List UInt8} (h : a ≠ []) :
    (dottedQuad a).splitOn '.' = a.map (fun b => Nat.toDigits 10 b.toNat) := by
  refine List.splitOn_intercalate '.' (fun l hl hdot => ?_) (by simpa using h)
  obtain ⟨b,-,rfl⟩ := List.mem_map.mp hl
  exact absurd (Nat.isDigit_of_mem_toDigits (by decide) (by decide) hdot) (by decide)

theorem dottedQuad_injective {a a' : List UInt8} (h : a ≠ []) (h' : a' ≠ [])
    (heq : dottedQuad a = dottedQuad a') : a = a' := by
  have hmap := splitOn_dottedQuad h
  rw [heq,splitOn_dottedQuad h'] at hmap
  refine List.map_injective_iff.2 (fun b c hbc => ?_) hmap.symm
  have hn := congrArg (fun ds => Nat.ofDigitChars 10 ds 0) hbc
  simpa [Nat.ofDigitChars_ten_toDigits,UInt8.toNat_inj] using hn

theorem dottedQuad_ne_cons {a : List UInt8} (h : a ≠ []) (text : List Char) :
    dottedQuad a ≠ ':' :: text := by
  obtain ⟨b,bs,rfl⟩ := List.exists_cons_of_ne_nil h
  obtain ⟨rest,hrest⟩ : ∃ rest, dottedQuad (b :: bs) = Nat.toDigits 10 b.toNat ++ rest := by
    cases bs with
    | nil => exact ⟨[],by simp [dottedQuad]⟩
    | cons c cs => exact ⟨_,by simp [dottedQuad,List.intercalate_cons_cons]; rfl⟩
  intro heq
  obtain ⟨d,ds,hds⟩ := List.exists_cons_of_ne_nil (Nat.toDigits_ne_nil (n := b.toNat) (b := 10))
  rw [hrest,hds,List.cons_append] at heq
  have hd := Nat.isDigit_of_mem_toDigits (by decide) (by decide) (hds ▸ List.mem_cons_self ..)
  rw [(List.cons.inj heq).1] at hd
  exact absurd hd (by decide)

def hexValue (b : UInt8) : Option Nat :=
  "0123456789abcdef".toList.findIdx? (fun c => c.toNat = b.toNat)

def scanHex : Nat → List UInt8 → List UInt8
  | 0, _ => []
  | n+1, text =>
    match (text.takeWhile (fun b => (hexValue b).isSome)).filterMap hexValue with
    | [] => []
    | ds => UInt8.ofNat (ds.foldl (fun n d => 16*n+d) 0) ::
      match text.drop ds.length with
      | 58 :: rest => scanHex n rest
      | _ => []

theorem length_scanHex (n : Nat) : ∀ text, (scanHex n text).length ≤ n := by
  induction n with
  | zero => exact fun _ => Nat.le_refl 0
  | succ n ih =>
    intro text
    unfold scanHex
    split
    · exact Nat.zero_le _
    refine Nat.succ_le_succ ?_
    split
    · exact ih _
    · exact Nat.zero_le _

/-- The C library on IPv4 addresses and on MAC addresses in small letters. -/
def EdnsLibrary.plain : EdnsLibrary where
  inetNtop f a := match f with | .inet => dottedQuad a | .inet6 => ':' :: a.map Char.ofUInt8
  printMac mac := [58].intercalate (mac.map (fun b =>
    ((Nat.toDigits 16 (b.toNat+256)).drop 1).map (fun c => UInt8.ofNat c.toNat)))
  scanMac := scanHex 6
  inetNtop_injective := by
    intro f f' a a' h h' heq
    have hne : ∀ {f : AddressFamily} {a : List UInt8}, a.length = f.size → a ≠ [] := by
      rintro f a h rfl
      cases f <;> cases h
    cases f <;> cases f'
    · exact ⟨rfl,dottedQuad_injective (hne h) (hne h') heq⟩
    · exact absurd heq (dottedQuad_ne_cons (hne h) _)
    · exact absurd heq.symm (dottedQuad_ne_cons (hne h') _)
    · refine ⟨rfl,List.map_injective_iff.2 (fun c d hcd => ?_) (List.cons.inj heq).2⟩
      have hnat : (Char.ofUInt8 c).val.toNat = (Char.ofUInt8 d).val.toNat := by rw [hcd]
      exact UInt8.toNat_inj.1 (by simpa [Char.ofUInt8] using hnat)
  scanMac_length := length_scanHex 6

def Pseudoheader.of (rdata : List UInt8) (h : rdata.length < 256) : Pseudoheader where
  bytes := [0,0,41,4,208,0,0,0,0,0,UInt8.ofNat rdata.length] ++ rdata
  nonempty := by simp
  sized _ := by
    refine ⟨rdata.length,?_,by simp; omega⟩
    simp [short]
    omega

def ecsWhole : List UInt8 := [0,8,0,8,0,1,32,0,10,0,0,1]

def ecsEmpty : List UInt8 := [0,8,0,4,0,1,32,0]

def ecsLoopback : List UInt8 := [0,8,0,8,0,1,32,0,127,0,0,1]

theorem edns_client_sample :
    (Pseudoheader.of ecsWhole (by decide)).version0 = true ∧
      ∃ edns', EdnsLibrary.plain.parsePseudoheaders true
          (some (Pseudoheader.of ecsWhole (by decide)).bytes) .blank = .done edns' ∧
        (ProperClient .plain true (Pseudoheader.of ecsWhole (by decide)).options edns' ↔
          LastIsProper true (Pseudoheader.of ecsWhole (by decide)).options) :=
  ⟨by decide,edns_client_iff .plain true _ .blank (by decide)⟩

theorem edns_client_improper :
    ¬ ProperClient .plain true (Pseudoheader.of ecsEmpty (by decide)).options
        ((Pseudoheader.of ecsEmpty (by decide)).data .plain true) ∧
      ¬ ProperClient .plain true (Pseudoheader.of (ecsWhole ++ ecsLoopback) (by decide)).options
        ((Pseudoheader.of (ecsWhole ++ ecsLoopback) (by decide)).data .plain true) := by
  rw [properClient_iff,properClient_iff]
  decide

open EdnsLibrary List

/-- A packet: its pseudoheader, the `dns.EDNS0ECS` it meets, and how often `getEDNS` is called
(never if it is answered before it is registered). -/
structure EdnsPacket where
  pheader : Option Pseudoheader
  ecs : Bool
  calls : Nat

namespace EdnsPacket

variable (p : EdnsPacket)

def parsed : Bool := p.pheader.any Pseudoheader.version0

def options : List (Nat × List UInt8) :=
  match p.pheader with
  | some h => if h.version0 then h.options else []
  | none => []

end EdnsPacket

def getEDNSs : Nat → EdnsData → EdnsData × List EdnsData
  | 0, edns => (edns,[])
  | n+1, edns =>
    let (first,edns') := getEDNS edns
    let (left,rest) := getEDNSs n edns'
    (left,first.toList ++ rest)

def EdnsLibrary.handle (E : EdnsLibrary) (edns : EdnsData) (p : EdnsPacket) :
    EdnsData × List EdnsData :=
  match E.parsePseudoheaders p.ecs (p.pheader.map Pseudoheader.bytes) edns with
  | .done edns' => getEDNSs p.calls edns'
  | _ => (edns,[])

def EdnsLibrary.handleStep (E : EdnsLibrary) (edns : EdnsData) (p : EdnsPacket) : EdnsData :=
  (E.handle edns p).1

def EdnsData.initial : EdnsData := ⟨false,false,false,[],List.replicate 6 0,[],some 0⟩

def OwnData (E : EdnsLibrary) (ecs : Bool) (rs : List (Nat × List UInt8)) (edns : EdnsData) : Prop :=
  (edns.clientSet = true → ∃ o ∈ fullEcs ecs rs, edns.client = E.ecsText o) ∧
    (edns.macSet = true → ∃ mac ∈ rs.filterMap E.macOf, mac.length = 6 ∧ edns.macByte = mac) ∧
    ∀ code ∈ edns.ede, code ∈ rs.filterMap edeOf

instance (E : EdnsLibrary) (ecs : Bool) (rs : List (Nat × List UInt8)) (edns : EdnsData) :
    Decidable (OwnData E ecs rs edns) := by
  unfold OwnData
  infer_instance

/-- Behind a MAC address there is no text of which only some bytes can be read. -/
def WholeMacs (macs : List (List UInt8)) : Prop :=
  macs.Pairwise (fun mac mac' => mac.length = 6 → mac'.length = 6 ∨ mac' = [])

instance (macs : List (List UInt8)) : Decidable (WholeMacs macs) := by
  unfold WholeMacs
  infer_instance

/-- A packet that is not parsed is only handled once the record before it was handed out, and its
MAC addresses are whole. -/
def EdnsLibrary.ownStep (E : EdnsLibrary) (edns : EdnsData) (p : EdnsPacket) : Bool :=
  (p.parsed || !edns.valid || p.calls = 0) && WholeMacs (p.options.filterMap E.macOf)

attribute [local simp] EDNS0_MAC_ADDR_TEXT EDNS0_MAC_ADDR_BYTE

section

variable {E : EdnsLibrary} {ecs : Bool}

theorem applyOption_mac (E : EdnsLibrary) (ecs : Bool) (r : Nat × List UInt8) (edns : EdnsData)
    (hlen : edns.macByte.length = 6) :
    (E.applyOption ecs r.1 r.2 edns).macByte =
        (match E.macOf r with
        | some mac => mac ++ edns.macByte.drop mac.length
        | none => edns.macByte) ∧
      (E.applyOption ecs r.1 r.2 edns).macSet =
        (edns.macSet || (E.macOf r).any (fun mac => mac.length = 6)) := by
  unfold applyOption macOf
  by_cases hecs : r.1 = EDNS0_ECS ∧ ecs ∧ 4 ≤ r.2.length
  · have hcode := hecs.1
    rw [if_pos hecs]
    cases EcsOption.read r.2 with
    | none => simp [hcode,EDNS0_ECS]
    | some o =>
      by_cases hf : o.sourceNetmask = 8*o.family.size <;>
        simp [hcode,EDNS0_ECS,storeClient,hf]
  rw [if_neg hecs]
  by_cases hb : r.1 = EDNS0_MAC_ADDR_BYTE ∧ r.2.length = 6
  · simp [hb,storeMacByte,← hlen]
  by_cases ht : r.1 = EDNS0_MAC_ADDR_TEXT ∧ r.2.length = 17
  · simp [ht,storeMacText]
  · split_ifs <;> simp

theorem macOf_length {r : Nat × List UInt8} {mac : List UInt8} (h : E.macOf r = some mac) :
    mac.length ≤ 6 := by
  unfold macOf at h
  split_ifs at h with h1 h2
  · obtain rfl := Option.some.inj h
    exact Nat.le_of_eq h1.2
  · obtain rfl := Option.some.inj h
    exact E.scanMac_length r.2

theorem foldl_mac (rs : List (Nat × List UInt8)) (hw : WholeMacs (rs.filterMap E.macOf)) :
    let edns := rs.foldl (fun edns r => E.applyOption ecs r.1 r.2 edns) .blank
    edns.macByte.length = 6 ∧
      (edns.macSet = true → ∃ mac ∈ rs.filterMap E.macOf, mac.length = 6 ∧ edns.macByte = mac) ∧
      (edns.macSet = false → ∀ mac ∈ rs.filterMap E.macOf, mac.length ≠ 6) := by
  induction rs using reverseRecOn with
  | nil => simp [EdnsData.blank]
  | append_singleton rs r ih =>
    rw [filterMap_append] at hw
    obtain ⟨hw,-,hlast⟩ := pairwise_append.1 hw
    obtain ⟨hlen,hset,hunset⟩ := ih hw
    simp only [foldl_append,foldl_cons,foldl_nil]
    obtain ⟨hbyte',hset'⟩ := applyOption_mac E ecs r _ hlen
    rw [hbyte',hset']
    generalize rs.foldl (fun edns r => E.applyOption ecs r.1 r.2 edns) .blank = edns at *
    cases hr : E.macOf r with
    | none =>
      simp only [filterMap_append,filterMap_cons,hr,filterMap_nil,append_nil,
        Option.any_none,Bool.or_false]
      exact ⟨hlen,hset,hunset⟩
    | some mac =>
      have hle := macOf_length hr
      simp only [filterMap_append,filterMap_cons,hr,filterMap_nil,Option.any_some]
      refine ⟨by simp; omega,?_,?_⟩
      · intro hs
        by_cases h6 : mac.length = 6
        · refine ⟨mac,by simp,h6,?_⟩
          rw [drop_eq_nil_of_le (by omega),append_nil]
        -- the flag comes from before, so the text behind it gave no bytes at all
        have hs : edns.macSet = true := by simpa [h6] using hs
        obtain ⟨m,hm,hm6,hbytes⟩ := hset hs
        have hnil : mac = [] :=
          (hlast m hm mac (by simp [hr]) hm6).resolve_left h6
        refine ⟨m,mem_append_left _ hm,hm6,?_⟩
        rw [hnil,nil_append,length_nil,drop_zero,hbytes]
      · intro hs
        obtain ⟨hs,h6⟩ := Bool.or_eq_false_iff.1 hs
        intro m hm
        rcases mem_append.1 hm with hm | hm
        · exact hunset hs m hm
        · obtain rfl := mem_singleton.1 hm
          simpa using h6

theorem applyOption_ede (r : Nat × List UInt8) (edns : EdnsData) :
    (E.applyOption ecs r.1 r.2 edns).ede = (edeOf r).or edns.ede := by
  unfold applyOption edeOf
  by_cases he : r.1 = EDNS0_EDE ∧ 2 ≤ r.2.length
  · obtain ⟨code,hcode⟩ := Tlv.short_isSome (b := r.2) (p := 0) (by omega)
    simp [he,hcode,EDNS0_EDE,EDNS0_ECS]
  split_ifs
  · cases EcsOption.read r.2 with
    | none => rfl
    | some o =>
      simp only [storeClient]
      split_ifs <;> rfl
  · rfl
  · rfl
  · rfl

theorem foldl_ede (rs : List (Nat × List UInt8)) :
    ∀ code ∈ (rs.foldl (fun edns r => E.applyOption ecs r.1 r.2 edns) .blank).ede,
      code ∈ rs.filterMap edeOf := by
  induction rs using reverseRecOn with
  | nil => simp [EdnsData.blank]
  | append_singleton rs r ih =>
    intro code hcode
    rw [foldl_append,foldl_cons,foldl_nil,applyOption_ede] at hcode
    rw [filterMap_append,mem_append]
    rcases Option.or_eq_some_iff.1 hcode with hr | ⟨-,hcode⟩
    · exact .inr (by simp [hr])
    · exact .inl (ih code hcode)

theorem ownData_data (h : Pseudoheader) (hw : WholeMacs (h.options.filterMap E.macOf)) :
    OwnData E ecs h.options (h.data E ecs) := by
  refine ⟨?_,(foldl_mac h.options hw).2.1,foldl_ede h.options⟩
  intro hset
  obtain ⟨last,hlast,htext⟩ := client_data hset
  exact ⟨last,mem_of_getLast? hlast,htext⟩

end

theorem getEDNSs_invalid {edns : EdnsData} (h : edns.valid = false) (n : Nat) :
    getEDNSs n edns = (edns,[]) := by
  induction n with
  | zero => rfl
  | succ n ih => simp [getEDNSs,getEDNS,h,ih]

theorem mem_getEDNSs {edns d : EdnsData} {n : Nat} (h : d ∈ (getEDNSs n edns).2) :
    edns.valid = true ∧ n ≠ 0 ∧ d = { edns with valid := false } := by
  cases n with
  | zero => simp [getEDNSs] at h
  | succ n =>
    cases hv : edns.valid with
    | false => simp [getEDNSs_invalid hv] at h
    | true => simpa [getEDNSs,getEDNS,hv,getEDNSs_invalid] using h

theorem handle_eq (E : EdnsLibrary) (edns : EdnsData) (p : EdnsPacket) :
    E.handle edns p = getEDNSs p.calls
      (match p.pheader with
        | some h => if h.version0 then h.data E p.ecs else edns
        | none => edns) := by
  unfold handle
  cases hp : p.pheader with
  | none => rfl
  | some h =>
    rw [Option.map_some,parsePseudoheaders_eq]

theorem OwnData.congr_valid {E : EdnsLibrary} {ecs : Bool} {rs : List (Nat × List UInt8)}
    {edns : EdnsData} (h : OwnData E ecs rs edns) (valid : Bool) :
    OwnData E ecs rs { edns with valid := valid } := h

theorem handle_own {E : EdnsLibrary} {edns d : EdnsData} {p : EdnsPacket}
    (hstep : E.ownStep edns p = true) (hd : d ∈ (E.handle edns p).2) :
    OwnData E p.ecs p.options d := by
  rw [ownStep,Bool.and_eq_true,decide_eq_true_eq] at hstep
  obtain ⟨hparsed,hw⟩ := hstep
  rw [handle_eq] at hd
  obtain ⟨hvalid,hcalls,rfl⟩ := mem_getEDNSs hd
  cases hp : p.pheader with
  | none =>
    rw [hp] at hvalid
    simp [EdnsPacket.parsed,hp,hcalls,hvalid] at hparsed
  | some h =>
    cases hv : h.version0 with
    | false =>
      simp [hp,hv] at hvalid
      simp [EdnsPacket.parsed,hp,hv,hcalls,hvalid] at hparsed
    | true =>
      have hoptions : p.options = h.options := by simp [EdnsPacket.options,hp,hv]
      rw [hoptions] at hw ⊢
      simpa [hv] using (ownData_data h hw).congr_valid false

/-- In every run whose packets meet the condition, what is used for a packet comes from an option
of it. -/
theorem edns_owner_run (E : EdnsLibrary) (ps : List EdnsPacket)
    (hm : Machine.Meets E.handleStep E.ownStep .initial ps = true) :
    ∀ before p after, ps = before ++ p :: after →
      ∀ d ∈ (E.handle (Machine.run E.handleStep .initial before) p).2,
        OwnData E p.ecs p.options d := by
  rintro before p after rfl d hd
  exact handle_own (Machine.Meets.at_event hm) hd

def ownedPackets : List EdnsPacket :=
  [⟨some (.of ecsWhole (by decide)),true,1⟩,⟨none,true,1⟩]

theorem edns_owner_sample :
    Machine.Meets EdnsLibrary.plain.handleStep EdnsLibrary.plain.ownStep .initial ownedPackets =
      true ∧
      ∀ before p after, ownedPackets = before ++ p :: after →
        ∀ d ∈ (EdnsLibrary.plain.handle
            (Machine.run EdnsLibrary.plain.handleStep .initial before) p).2,
          OwnData .plain p.ecs p.options d :=
  ⟨by decide,edns_owner_run .plain ownedPackets (by decide)⟩

def macMixed : List UInt8 :=
  [253,233,0,6,1,2,3,4,5,6,254,49,0,17,97,97,58,98,98] ++ List.replicate 12 0

/-- A query answered before the record is asked for leaves its client to the next, which has no
pseudoheader; two MAC addresses can give one that is in neither. -/
theorem edns_owner_stale :
    (let edns := EdnsLibrary.plain.handleStep .initial ⟨some (.of ecsWhole (by decide)),true,0⟩
      let p : EdnsPacket := ⟨none,true,1⟩
      ∃ d ∈ (EdnsLibrary.plain.handle edns p).2,
        d.clientSet = true ∧ ¬ OwnData .plain p.ecs p.options d) ∧
    (let p : EdnsPacket := ⟨some (.of macMixed (by decide)),true,1⟩
      ∃ d ∈ (EdnsLibrary.plain.handle .initial p).2,
        d.macByte = [170,187,3,4,5,6] ∧ ¬ OwnData .plain p.ecs p.options d) := by
  decide

end Lorentz
