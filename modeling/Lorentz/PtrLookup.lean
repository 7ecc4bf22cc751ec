import Lorentz.DnsNames
import Lorentz.Records

/-!
`ngethostbyname`: the validation of a reply and the loop over its answers, against the format of
RFC 1035.
-/

set_option autoImplicit false

namespace Lorentz

def T_PTR : Nat := 12
def MAXHOSTNAMELEN : Nat := 64

def ntohs (m : List UInt8) (p : Nat) : Nat := (m.getD p 0).toNat*256+(m.getD (p+1) 0).toNat

def validHostnameByte (c : UInt8) : Bool := hostNameByte c || c == 0x2E

/-- `valid_hostname`, with the name it leaves behind. -/
def validHostname (name : List UInt8) : Bool × List UInt8 :=
  let name := name.take MAXHOSTNAMELEN
  (name.all validHostnameByte,name)

/-- The loop over the answers. -/
def readAnswers (buf : List UInt8) : Nat → Nat → Option (Option (List UInt8))
  | 0, _ => some none
  | n+1, reader =>
    if reader ≥ buf.length then some none
    else do
      match ← nameFromDNS buf reader with
      | none => some none
      | some (_,stop) =>
        let resource := reader+stop
        if resource+10 > buf.length then some none
        else if resource+10 ≥ buf.length then some none
        else
          match ← nameFromDNS buf (resource+10) with
          | none => some none
          | some (rdata,stop) =>
            let reader := resource+10+stop
            if ntohs buf resource ≠ T_PTR then readAnswers buf n reader
            else
              let hostn := (nameText rdata).take (MAXDOMAINLEN-1)
              let (valid,hostn) := validHostname hostn
              if hostn ≠ [] ∧ valid then some (some hostn) else readAnswers buf n reader

def lowerByte (c : UInt8) : UInt8 := if 0x41 ≤ c ∧ c ≤ 0x5A then c+0x20 else c

/-- `validate_udp_ptr_response`: where the answers begin. -/
def validateUdpPtrResponse (buf : List UInt8) (id : Nat) (host : List UInt8) :
    Option (Option Nat) := do
  if buf.length < 12 then some none
  else if ntohs buf 0 ≠ id ∨ buf.getD 2 0 &&& 0xF8 ≠ 0x80 ∨ ntohs buf 4 ≠ 1 then some none
  else
    match ← nameFromDNS buf 12 with
    | none => some none
    | some (name,consumed) =>
      let reader := 12+consumed
      if reader+4 > buf.length then some none
      else if (nameText name).map lowerByte = host.map lowerByte ∧ ntohs buf reader = T_PTR ∧
          ntohs buf (reader+2) = 1 then some (some (reader+4))
      else some none

/-- Datagrams are received until one is the answer. -/
def receiveUdp (id : Nat) (host : List UInt8) :
    List (List UInt8) → Option (Option (List UInt8 × Nat))
  | [] => some none
  | buf :: rest => do
    match ← validateUdpPtrResponse (buf.take 4096) id host with
    | some reader => some (some (buf.take 4096,reader))
    | none => receiveUdp id host rest

/-- The message on the stream is taken to repeat the question. -/
def receiveTcp (host : List UInt8) : List (List UInt8) → Option (List UInt8 × Nat)
  | [] => none
  | buf :: _ =>
    if buf.length < 12 ∨ buf.length ≥ 4096 then none
    else some (buf,12+(nameToDNS MAXDOMAINLEN (host ++ [0x2E,0])).length+4)

def receive (tcp : Bool) (id : Nat) (host : List UInt8) (replies : List (List UInt8)) :
    Option (Option (List UInt8 × Nat)) :=
  if tcp then some (receiveTcp host replies) else receiveUdp id host replies

/-- `ngethostbyname` for what is received before the deadline. -/
def ngethostbyname (tcp : Bool) (id : Nat) (host : List UInt8) (replies : List (List UInt8)) :
    Option (Option (List UInt8)) := do
  match ← receive tcp id host replies with
  | none => some none
  | some (buf,reader) =>
    if buf.getD 2 0 &&& 0x02 ≠ 0 then some none
    else readAnswers buf (min (ntohs buf 6) 20) reader

/-- A record of the answer section; the target of a PTR record. -/
structure PtrRecord where
  ownerLength : Nat
  type : Nat
  dataLength : Nat
  target : List (List UInt8)

namespace PtrRecord

variable (r : PtrRecord)

def data (p : Nat) : Nat := p+r.ownerLength+10

def text : List UInt8 := [0x2E].intercalate r.target

/-- A PTR record whose target is a valid host name. -/
def names : Bool := r.type == T_PTR && !r.text.isEmpty && r.text.all validHostnameByte

end PtrRecord

/-- A name as RFC 1035 has it. -/
def IsDnsName (m : List UInt8) (p : Nat) (ls : List (List UInt8)) (n : Nat) : Prop :=
  (wireLabels ls).length ≤ 254 ∧ ∃ k, NameAt (2^14) (fun _ => True) m p ls n k

/-- A name that `nameFromDNS` reads: pointers below 256 and bytes from 1 to 191, of which it takes
no more than 255 where it stands. -/
def ReadableName (m : List UInt8) (p : Nat) (ls : List (List UInt8)) (n : Nat) : Prop :=
  (wireLabels ls).length ≤ 254 ∧ n ≤ 255 ∧ ∃ k ≤ 256, NameAt 256 PlainByte m p ls n k

def RecordsAt (m : List UInt8) : Nat → List PtrRecord → Prop
  | _, [] => True
  | p, r :: rs =>
    (∃ ls, IsDnsName m p ls r.ownerLength) ∧ ntohs m (p+r.ownerLength) = r.type ∧
    ntohs m (p+r.ownerLength+8) = r.dataLength ∧ r.data p+r.dataLength ≤ m.length ∧
    (r.type = T_PTR → IsDnsName m (r.data p) r.target r.dataLength) ∧
    RecordsAt m (r.data p+r.dataLength) rs

/-- A response to the question for the PTR record of `host`. -/
structure PtrResponse (id : Nat) (host : List (List UInt8)) (answers : List PtrRecord)
    (m : List UInt8) : Prop where
  length : m.length ≤ 4096
  id_eq : ntohs m 0 = id
  reply : m.getD 2 0 &&& 0xF8 = 0x80
  whole : m.getD 2 0 &&& 0x02 = 0
  questions : ntohs m 4 = 1
  count : ntohs m 6 = answers.length
  question : wireLabels host ++ [0,0,12,0,1] <+: m.drop 12
  records : RecordsAt m (12+(wireLabels host).length+5) answers

/-- Every record up to the reported one has an owner and data that are readable names, and a PTR
target has at most 64 bytes. -/
def Readable (m : List UInt8) : Nat → List PtrRecord → Prop
  | _, [] => True
  | p, r :: rs =>
    (∃ ls, ReadableName m p ls r.ownerLength) ∧
    (∃ ls, ReadableName m (r.data p) ls r.dataLength ∧
      (r.type = T_PTR → ls = r.target ∧ r.text.length ≤ MAXHOSTNAMELEN)) ∧
    (r.names = false → Readable m (r.data p+r.dataLength) rs)

theorem NameAt.inside {limit p n k : Nat} {ok : UInt8 → Prop} {m : List UInt8}
    {ls : List (List UInt8)} (h : NameAt limit ok m p ls n k) : p < m.length := by
  cases h with
  | root h | label h | pointer h => exact (getElem?_of_drop h).1

variable {m : List UInt8} {p : Nat}

theorem ReadableName.decoded {p n : Nat} {ls : List (List UInt8)} (h : ReadableName m p ls n) :
    p < m.length ∧
      ∃ b, nameFromDNS m p = some (some (b,n)) ∧ nameText b = [0x2E].intercalate ls := by
  obtain ⟨hlen,hown,k,hk,hname⟩ := h
  exact ⟨hname.inside,nameFromDNS_name hname hlen (Nat.lt_succ_of_le hown) hk⟩

theorem readAnswers_eq (rs : List PtrRecord) (p n : Nat) (hm : RecordsAt m p rs)
    (hr : Readable m p (rs.take n)) (hn : n ≤ rs.length) :
    readAnswers m n p = some (((rs.take n).find? PtrRecord.names).map PtrRecord.text) := by
  induction n generalizing p rs with
  | zero => simp [readAnswers]
  | succ n ih =>
    cases rs with
    | nil => simp at hn
    | cons r rs =>
      obtain ⟨-,htype,-,hin,-,hrest⟩ := hm
      obtain ⟨⟨owner,howner⟩,⟨ls,hdata,hptr⟩,hnext⟩ := hr
      obtain ⟨hp,b,hb,-⟩ := howner.decoded
      obtain ⟨hq,d,hd,htext⟩ := hdata.decoded
      have hsame : p+r.ownerLength+10 = r.data p := rfl
      rw [readAnswers,if_neg (by omega),hb]
      simp only [Option.bind_eq_bind,Option.bind_some,hsame]
      rw [if_neg (by omega),if_neg (by omega),hd]
      simp only [Option.bind_some,htype,List.take_succ_cons,List.find?_cons]
      by_cases ht : r.type = T_PTR
      · obtain ⟨rfl,hlen⟩ := hptr ht
        have htake : (nameText d).take (MAXDOMAINLEN-1) = r.text := by
          have hle : MAXHOSTNAMELEN ≤ MAXDOMAINLEN-1 := by decide
          rw [htext]
          exact List.take_of_length_le (hlen.trans hle)
        rw [if_neg (by simpa using ht),htake,validHostname,List.take_of_length_le hlen]
        cases hnames : r.names with
        | true =>
          rw [if_pos (by simpa [PtrRecord.names,ht] using hnames)]
          rfl
        | false =>
          rw [if_neg (by simpa [PtrRecord.names,ht] using hnames)]
          exact ih rs _ hrest (hnext hnames) (by simpa using hn)
      · have hnames : r.names = false := by simp [PtrRecord.names,ht]
        rw [if_pos ht,hnames]
        exact ih rs _ hrest (hnext hnames) (by simpa using hn)

theorem ntohs_of_drop {a b : UInt8} {w : List UInt8} (h : a :: b :: w <+: m.drop p) :
    ntohs m p = a.toNat*256+b.toNat ∧ w <+: m.drop (p+2) := by
  obtain ⟨-,ha,hnext⟩ := getElem?_of_drop h
  obtain ⟨-,hb,hrest⟩ := getElem?_of_drop hnext
  exact ⟨by simp [ntohs,ha,hb],hrest⟩

theorem validate_response {id : Nat} {host : List (List UInt8)} {answers : List PtrRecord}
    {m : List UInt8} (hm : PtrResponse id host answers m) (hhost : ∀ l ∈ host, hostLabel l)
    (hlen : (wireLabels host).length ≤ MAXNAMELEN-2) :
    12+(wireLabels host).length+5 ≤ m.length ∧
    validateUdpPtrResponse m id ([0x2E].intercalate host) =
      some (some (12+(wireLabels host).length+5)) := by
  obtain ⟨post,hpost⟩ := hm.question
  have hsize := congrArg List.length hpost
  simp only [List.length_append,List.length_drop,List.length_cons,List.length_nil] at hsize
  have hin : 12+(wireLabels host).length+5 ≤ m.length := by omega
  -- the question stands behind the header
  have htake : (m.take 12).length = 12 := by simp; omega
  have hat := nameAt_wire (m.take 12) (0 :: 12 :: 0 :: 1 :: post)
    fun l hl => .ofHost (hhost l hl)
  have hwhole : m.take 12 ++ (wireLabels host ++ 0 :: 0 :: 12 :: 0 :: 1 :: post) = m := by
    rw [← List.take_append_drop 12 m,← hpost]
    simp [htake]
  rw [hwhole,htake] at hat
  obtain ⟨b,hb,htext⟩ := nameFromDNS_name hat hlen (by simp only [MAXNAMELEN] at *; omega)
    (Nat.zero_le _)
  have hfixed : [0,12,0,1] <+: m.drop (12+((wireLabels host).length+1)) := by
    rw [← List.drop_drop,← hpost]
    refine ⟨post,?_⟩
    simp [List.drop_append]
  obtain ⟨htype,hrest⟩ := ntohs_of_drop hfixed
  obtain ⟨hclass,-⟩ := ntohs_of_drop hrest
  refine ⟨hin,?_⟩
  rw [validateUdpPtrResponse,if_neg (by omega),
    if_neg (by rw [hm.id_eq,hm.reply,hm.questions]; simp),hb]
  simp only [Option.bind_eq_bind,Option.bind_some]
  rw [if_neg (by omega),if_pos ⟨by rw [htext],htype,hclass⟩]
  rfl

theorem NameAt.isName {p n k : Nat} {ls : List (List UInt8)} (h : NameAt 256 PlainByte m p ls n k)
    (hlen : (wireLabels ls).length ≤ 254) : IsDnsName m p ls n := by
  refine ⟨hlen,k,?_⟩
  clear hlen
  induction h with
  | root h => exact .root h
  | label h hl hok hs ih => exact .label h hl (fun _ _ => trivial) ih
  | pointer h ho hlim hs ih => exact .pointer h ho (Nat.lt_trans hlim (by decide)) ih

theorem nameAt_question (h12 : [1,0x31,0] <+: m.drop 12) (hp : [0xC0,12] <+: m.drop p)
    (hlt : 12 < p) : NameAt 256 PlainByte m p [[0x31]] 2 1 := by
  obtain ⟨rest,hrest⟩ := h12
  have hroot : [0] <+: m.drop 14 := by
    rw [show 14 = 12+2 from rfl,← List.drop_drop,← hrest]
    exact ⟨rest,rfl⟩
  exact .pointer (o := 12) hp hlt (by decide)
    (.label (l := [0x31]) ⟨0 :: rest,hrest⟩ (by decide) (by simp [PlainByte]) (.root hroot))

theorem nameAt_a (h : [1,0x61,0] <+: m.drop p) : NameAt 256 PlainByte m p [[0x61]] 3 0 := by
  obtain ⟨rest,hrest⟩ := h
  have hroot : [0] <+: m.drop (p+2) := ⟨rest,by rw [← List.drop_drop,← hrest]; rfl⟩
  exact .label (l := [0x61]) ⟨0 :: rest,hrest⟩ (by decide) (by simp [PlainByte]) (.root hroot)

end Lorentz
