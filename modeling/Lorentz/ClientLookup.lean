import Lorentz.Edns
import Lorentz.ParseList
import Lorentz.Records
import Lorentz.Library.Best

/-!
The entries of the client table as networks, and the lookup of a client in it, for a server and
for SQLite.
-/

set_option autoImplicit false

namespace Lorentz

def digitValue (c : Char) : Nat :=
  if c.isDigit then c.toNat - '0'.toNat
  else if 'a' ≤ c ∧ c ≤ 'f' then c.toNat - 'a'.toNat + 10
  else c.toNat - 'A'.toNat + 10

def isOctal (c : Char) : Bool := '0' ≤ c ∧ c ≤ '7'

def isHex (c : Char) : Bool := c.isDigit || ('a' ≤ c && c ≤ 'f') || ('A' ≤ c && c ≤ 'F')

def digitsValue (base : Nat) (ds : List Char) : Nat := ds.foldl (fun n c => base*n+digitValue c) 0

/-- A `long` that is stored in an `int`. -/
def storedInt (negative : Bool) (n : Nat) : Int :=
  Int.bmod (if negative then max (-2^63) (-(n : Int)) else min (2^63-1) (n : Int)) (2^32)

/-- `%i` of `sscanf`: blanks, a sign, and a number in base 16, 8 or 10 by how it begins. -/
def scanInt (s : List Char) : Option Int :=
  let s := s.dropWhile isspace
  let negative : Bool := s.head? = some '-'
  let s := if s.head? = some '-' ∨ s.head? = some '+' then s.tail else s
  match s with
  | '0' :: 'x' :: rest => some (storedInt negative (digitsValue 16 (rest.takeWhile isHex)))
  | '0' :: 'X' :: rest => some (storedInt negative (digitsValue 16 (rest.takeWhile isHex)))
  | '0' :: rest => some (storedInt negative (digitsValue 8 (rest.takeWhile isOctal)))
  | _ =>
    let digits := s.takeWhile Char.isDigit
    if digits = [] then none else some (storedInt negative (digitsValue 10 digits))

/-- `inet_pton`: an IPv6 address has a colon, without a double colon at least six; an IPv4 address
has none. -/
structure AddressLibrary where
  inetPton : AddressFamily → List Char → Option (List UInt8)
  inetPton_nil : ∀ f, inetPton f [] = none
  inetPton_colon : ∀ f s a, inetPton f s = some a → (f = .inet6 ↔ ':' ∈ s)
  inetPton_colons : ∀ s a, inetPton .inet6 s = some a → ¬ [':',':'] <:+: s → 6 ≤ s.count ':'

def isMAC (input : List Char) : Bool :=
  input.length = 17 && input.count ':' = 5 && !decide ([':',':'] <:+: input)

def textFamily (s : List Char) : AddressFamily := if ':' ∈ s then .inet6 else .inet

def in6Addr (a : List UInt8) : List UInt8 := a ++ List.replicate (16-a.length) 0

/-- The length after `sscanf` of the address and what follows it: that of the whole address
without a number; without an address `sscanf` does not come to it. -/
def scanCidr (family : AddressFamily) (addrDB rest : List Char) : Int :=
  match addrDB, rest with
  | _ :: _, _ :: length => (scanInt length).getD (8*family.size)
  | _, _ => 8*family.size

namespace AddressLibrary

variable (A : AddressLibrary)

def subnetMatchBits (addrDBcidr addrLorentz : List Char) : Nat :=
  if isMAC addrDBcidr then 0
  else
    let family := textFamily addrDBcidr
    if family ≠ textFamily addrLorentz then 0
    else
      let addrDB := addrDBcidr.takeWhile (· ≠ '/')
      let cidr := scanCidr family addrDB (addrDBcidr.dropWhile (· ≠ '/'))
      if cidr < 0 ∨ (8*family.size : Int) < cidr then 0
      else if addrDB = [] then 0
      else
        match A.inetPton family addrDB, A.inetPton family addrLorentz with
        | some saddrDB, some saddrLorentz =>
          let bitmask := Bits.bitmask 16 cidr.toNat
          if Bits.sameMasked 16 bitmask (in6Addr saddrDB) (in6Addr saddrLorentz) then cidr.toNat
          else 0
        | _, _ => 0

def address (s : List Char) : Option (AddressFamily × List UInt8) :=
  match A.inetPton .inet s with
  | some a => some (.inet,a)
  | none => (A.inetPton .inet6 s).map (fun a => (.inet6,a))

end AddressLibrary

/-- An entry of the client table: a text without a slash (address, MAC address, interface, host
name), or a range with a decimal length. -/
inductive ClientEntry where
  | text (s : List Char) (noSlash : '/' ∉ s)
  | cidr (s length : List Char) (noSlash : '/' ∉ s) (nonempty : length ≠ [])
      (digits : ∀ c ∈ length, c.isDigit = true)

def ClientEntry.ip : ClientEntry → List Char
  | .text s _ => s
  | .cidr s length _ _ _ => s ++ '/' :: length

/-- A network: the first bits of an address. -/
structure Network where
  family : AddressFamily
  address : List UInt8
  length : Nat

def Network.Has (n : Network) (a : AddressFamily × List UInt8) : Prop :=
  n.family = a.1 ∧ Bits.Agree n.length n.address a.2

instance (n : Network) (a : AddressFamily × List UInt8) : Decidable (n.Has a) := by
  unfold Network.Has
  infer_instance

namespace ClientEntry

variable (A : AddressLibrary)

def address : ClientEntry → Option (AddressFamily × List UInt8)
  | .text s _ => A.address s
  | .cidr s _ _ _ _ => A.address s

def length (f : AddressFamily) : ClientEntry → Nat
  | .text _ _ => 8*f.size
  | .cidr _ length _ _ _ => digitsValue 10 length

def scannedLength (f : AddressFamily) : ClientEntry → Int
  | .text _ _ => 8*f.size
  | .cidr _ length _ _ _ => (scanInt length).getD (8*f.size)

def network (e : ClientEntry) : Option Network :=
  match e.address A with
  | some a => if e.length a.1 ≤ 8*a.1.size then some ⟨a.1,a.2,e.length a.1⟩ else none
  | none => none

def bits (e : ClientEntry) (ip : List Char) : Nat :=
  match e.network A, A.address ip with
  | some n, some a => if n.Has a then n.length else 0
  | _, _ => 0

end ClientEntry

/-- `n` is a length in this family, and the first `n` bits are the same. -/
def Covers (f : AddressFamily) (n : Int) (a b : List UInt8) : Prop :=
  1 ≤ n ∧ n ≤ 8*f.size ∧ Bits.Agree n.toNat a b

instance (f : AddressFamily) (n : Int) (a b : List UInt8) : Decidable (Covers f n a b) := by
  unfold Covers
  infer_instance

/-- The scanned length is the decimal number, or neither is that of a network with the address. -/
def ClientEntry.Alike (A : AddressLibrary) (e : ClientEntry) (ip : List Char) : Prop :=
  ∀ a ∈ e.address A, ∀ b ∈ A.address ip, a.1 = b.1 →
    e.scannedLength a.1 = e.length a.1 ∨
      (¬ Covers a.1 (e.scannedLength a.1) a.2 b.2 ∧ ¬ Covers a.1 (e.length a.1) a.2 b.2)

instance (A : AddressLibrary) (e : ClientEntry) (ip : List Char) : Decidable (e.Alike A ip) := by
  unfold ClientEntry.Alike
  infer_instance

def coverBits (f : AddressFamily) (n : Int) (a b : List UInt8) : Nat :=
  if Covers f n a b then n.toNat else 0

theorem coverBits_eq_iff (f : AddressFamily) (n m : Int) (a b : List UInt8) :
    coverBits f n a b = coverBits f m a b ↔
      n = m ∨ (¬ Covers f n a b ∧ ¬ Covers f m a b) := by
  unfold coverBits
  constructor
  · intro heq
    by_cases hn : Covers f n a b <;> by_cases hm : Covers f m a b
    · have hn1 := hn.1
      rw [if_pos hn,if_pos hm] at heq
      exact .inl (by omega)
    · have hn1 := hn.1
      rw [if_pos hn,if_neg hm] at heq
      omega
    · have hm1 := hm.1
      rw [if_neg hn,if_pos hm] at heq
      omega
    · exact .inr ⟨hn,hm⟩
  · rintro (rfl | ⟨hn,hm⟩)
    · rfl
    · rw [if_neg hn,if_neg hm]

section

variable {A : AddressLibrary}

theorem inetPton_family {f : AddressFamily} {s : List Char} {a : List UInt8}
    (h : A.inetPton f s = some a) : f = textFamily s := by
  have hcolon := A.inetPton_colon f s a h
  unfold textFamily
  cases f with
  | inet => rw [if_neg fun hc => by simpa using hcolon.2 hc]
  | inet6 => rw [if_pos (hcolon.1 rfl)]

theorem address_eq (s : List Char) :
    A.address s = (A.inetPton (textFamily s) s).map (fun a => (textFamily s,a)) := by
  unfold AddressLibrary.address
  cases h4 : A.inetPton .inet s with
  | some a =>
    have hf := inetPton_family h4
    rw [← hf,h4]
    rfl
  | none =>
    cases h6 : A.inetPton .inet6 s with
    | some a =>
      have hf := inetPton_family h6
      rw [← hf,h6]
    | none =>
      unfold textFamily
      split_ifs <;> simp [h4,h6]

theorem sameMasked_in6Addr {p : Nat} (h : p ≤ 128) (a b : List UInt8) :
    Bits.sameMasked 16 (Bits.bitmask 16 p) (in6Addr a) (in6Addr b) = true ↔ Bits.Agree p a b := by
  rw [Bits.sameMasked_bitmask h,in6Addr,in6Addr,Bits.agree_append_zeros]

theorem AddressFamily.size_le (f : AddressFamily) : f.size ≤ 16 := by
  cases f <;> decide

variable (e : ClientEntry) (ip : List Char) {s rest : List Char}

theorem inetPton_of_isMAC (h : isMAC (s ++ rest) = true) (f : AddressFamily)
    (hf : f = textFamily (s ++ rest)) : A.inetPton f s = none := by
  simp only [isMAC,Bool.and_eq_true,decide_eq_true_eq,Bool.not_eq_true',decide_eq_false_iff_not] at h
  obtain ⟨⟨-,hcount⟩,hdouble⟩ := h
  have hcolon : ':' ∈ s ++ rest := List.count_pos_iff.1 (by omega)
  rw [textFamily,if_pos hcolon] at hf
  subst hf
  by_contra hne
  obtain ⟨a,ha⟩ := Option.ne_none_iff_exists'.1 hne
  have hsix := A.inetPton_colons s a ha
    (fun hin => hdouble (hin.trans (List.infix_append' [] s rest)))
  rw [List.count_append] at hcount
  omega

theorem subnetMatchBits_eq (hs : '/' ∉ s) (hrest : rest = [] ∨ ∃ length, rest = '/' :: length)
    (hcolon : ':' ∉ rest) (ip : List Char) : A.subnetMatchBits (s ++ rest) ip =
      match A.address s, A.address ip with
      | some a, some b =>
        if a.1 = b.1 then
          coverBits a.1 (scanCidr a.1 s rest) a.2 b.2
        else 0
      | _, _ => 0 := by
  have hpos : ∀ c ∈ s, decide (c ≠ '/') = true := by
    intro c hc
    rw [decide_eq_true_eq]
    rintro rfl
    exact hs hc
  have htake : (s ++ rest).takeWhile (· ≠ '/') = s := by
    rw [List.takeWhile_append_of_pos hpos]
    rcases hrest with rfl | ⟨length,rfl⟩ <;> simp
  have hdrop : (s ++ rest).dropWhile (· ≠ '/') = rest := by
    rw [List.dropWhile_append_of_pos hpos]
    rcases hrest with rfl | ⟨length,rfl⟩ <;> simp
  have hfamily : textFamily (s ++ rest) = textFamily s := by simp [textFamily,hcolon]
  rw [address_eq s,address_eq ip]
  unfold AddressLibrary.subnetMatchBits
  by_cases hmac : isMAC (s ++ rest) = true
  · rw [if_pos hmac,inetPton_of_isMAC hmac (textFamily s) hfamily.symm]
    simp
  rw [if_neg hmac,htake,hdrop,hfamily]
  by_cases hnil : s = []
  · simp [hnil,A.inetPton_nil]
  simp only [if_neg hnil]
  by_cases hfam : textFamily s = textFamily ip
  · rw [← hfam]
    generalize textFamily s = f
    cases hs' : A.inetPton f s with
    | none => simp
    | some a =>
      cases hip : A.inetPton f ip with
      | none => simp
      | some b =>
        have hsize := f.size_le
        simp only [Option.map_some,coverBits,ne_eq,not_true_eq_false,if_false,if_true]
        generalize scanCidr f s rest = cidr
        by_cases hr : cidr < 0 ∨ (8*f.size : Int) < cidr
        · have hout : ¬ Covers f cidr a b := fun hc => by
            have h1 := hc.1
            have h2 := hc.2.1
            omega
          rw [if_pos hr,if_neg hout]
        rw [if_neg hr,if_congr (sameMasked_in6Addr (by omega) a b) rfl rfl]
        by_cases hagree : Bits.Agree cidr.toNat a b
        · -- a length of zero is one that no entry is matched with
          rcases (show cidr = 0 ∨ 1 ≤ cidr by omega) with rfl | hpos
          · simp
          · rw [if_pos hagree,if_pos ⟨hpos,by omega,hagree⟩]
        · rw [if_neg hagree,if_neg fun hc => hagree hc.2.2]
  · cases A.inetPton (textFamily s) s <;> cases A.inetPton (textFamily ip) ip <;> simp [hfam]

theorem isDigit_ne {c : Char} (h : c.isDigit = true) : c ≠ ':' := by
  rintro rfl
  revert h
  decide

theorem subnetMatchBits_entry : A.subnetMatchBits e.ip ip =
      match e.address A, A.address ip with
      | some a, some b => if a.1 = b.1 then coverBits a.1 (e.scannedLength a.1) a.2 b.2 else 0
      | _, _ => 0 := by
  cases e with
  | text s hs =>
    have hcolon : ':' ∉ ([] : List Char) := by simp
    have heq := subnetMatchBits_eq (A := A) hs (.inl rfl) hcolon ip
    rw [List.append_nil] at heq
    have hscan : ∀ f, scanCidr f s [] = 8*f.size := by
      intro f
      cases s <;> rfl
    simp only [hscan] at heq
    exact heq
  | cidr s length hs hne hd =>
    have hcolon : ':' ∉ '/' :: length := by
      intro hc
      rcases List.mem_cons.1 hc with hc | hc
      · cases hc
      · exact isDigit_ne (hd _ hc) rfl
    have heq := subnetMatchBits_eq (A := A) hs (.inr ⟨length,rfl⟩) hcolon ip
    cases s with
    | nil =>
      have hnone : A.address [] = none := by rw [address_eq,A.inetPton_nil,Option.map_none]
      simp only [hnone] at heq
      simp only [ClientEntry.address,hnone]
      exact heq
    | cons c s => exact heq

theorem bits_eq : e.bits A ip =
      match e.address A, A.address ip with
      | some a, some b => if a.1 = b.1 then coverBits a.1 (e.length a.1) a.2 b.2 else 0
      | _, _ => 0 := by
  unfold ClientEntry.bits ClientEntry.network
  cases e.address A with
  | none => rfl
  | some a =>
    cases A.address ip with
    | none => split <;> simp_all
    | some b =>
      dsimp only
      generalize e.length a.1 = n
      unfold coverBits
      by_cases hle : n ≤ 8*a.1.size
      · rw [if_pos hle]
        dsimp only
        by_cases hf : a.1 = b.1
        · rw [if_pos hf]
          by_cases hagree : Bits.Agree n a.2 b.2
          · rw [if_pos ⟨hf,hagree⟩]
            rcases Nat.eq_zero_or_pos n with rfl | hpos
            · simp
            · have hcovers : Covers a.1 n a.2 b.2 := ⟨by omega,by omega,hagree⟩
              rw [if_pos hcovers,Int.toNat_natCast]
          · rw [if_neg fun hc => hagree hc.2]
            exact (if_neg fun hc => hagree hc.2.2).symm
        · rw [if_neg hf]
          exact if_neg fun hc => hf hc.1
      · have hout : ¬ Covers a.1 n a.2 b.2 := fun hc => by
          have h2 := hc.2.1
          omega
        rw [if_neg hle,if_neg hout]
        simp

theorem subnetMatchBits_eq_bits_iff : A.subnetMatchBits e.ip ip = e.bits A ip ↔ e.Alike A ip := by
  rw [subnetMatchBits_entry,bits_eq,ClientEntry.Alike]
  cases e.address A with
  | none => simp
  | some a =>
    cases A.address ip with
    | none => simp
    | some b =>
      by_cases hf : a.1 = b.1
      · simp [hf,coverBits_eq_iff]
      · simp [hf]

end

open AddressLibrary

structure ClientRow where
  id : Int
  ip : Option ClientEntry

/-- What both lookups give; `ids` is a text with commas there. -/
structure ClientMatch where
  count : Nat
  chosenId : Int
  chosenText : List Char
  ids : List Int
  bits : Nat
  deriving DecidableEq

def ClientMatch.none : ClientMatch := ⟨0,-1,[],[],0⟩

def ClientRow.text (row : ClientRow) : List Char := (row.ip.map ClientEntry.ip).getD []

namespace AddressLibrary

variable (A : AddressLibrary)

/-- `subnet_match_bits` of a row, which is 0 without a text. -/
def rowBits (ip : List Char) (row : ClientRow) : Nat :=
  match row.ip with
  | some e => A.subnetMatchBits e.ip ip
  | none => 0

def lookupRow (ip : List Char) (m : ClientMatch) (row : ClientRow) : ClientMatch :=
  let id := columnInt row.id
  let bits := A.rowBits ip row
  if bits ≤ 0 ∨ bits < m.bits then m
  else
    -- a more specific network: forget the ones so far
    let m :=
      if m.bits < bits then { m with bits := bits, count := 0, chosenId := -1, ids := [] } else m
    let m := { m with count := m.count+1 }
    let m :=
      if m.chosenId < id then
        { m with chosenId := id, chosenText := row.text.take (MAXDOMAINLEN-1) }
      else m
    { m with ids := m.ids ++ [id] }

/-- `client_subnet_lookup`; `done` is false if the read of the table ends with an error. -/
def clientSubnetLookup (ip : List Char) (rows : List ClientRow) (done : Bool) : Option ClientMatch :=
  let m := rows.foldl (A.lookupRow ip) .none
  if done then some m else none

def clientQuery (ip : List Char) (rows : List ClientRow) : ClientMatch :=
  match Best.grouped (A.rowBits ip) rows with
  | some (bits,group) =>
    let chosen := ((group.map ClientRow.id).max?).getD 0
    { count := group.length
      chosenId := columnInt chosen
      chosenText := ((group.find? (fun row => row.id = chosen)).map ClientRow.text).getD []
      ids := group.map ClientRow.id
      bits := bits }
  | none => .none

def mostSpecific (ip : List Char) (rows : List ClientRow) : List ClientRow :=
  Best.best (fun row => (row.ip.map (fun e => e.bits A ip)).getD 0) rows

end AddressLibrary

def ClientMatch.Tells (m : ClientMatch) (rows : List ClientRow) : Prop :=
  m.count = rows.length ∧ m.ids = rows.map ClientRow.id ∧
    (rows ≠ [] → m.chosenId ∈ rows.map ClientRow.id ∧ ∀ row ∈ rows, row.id ≤ m.chosenId)

instance (m : ClientMatch) (rows : List ClientRow) : Decidable (m.Tells rows) := by
  unfold ClientMatch.Tells
  have : Decidable (rows = []) := decidable_of_iff (rows.length = 0) List.length_eq_zero_iff
  infer_instance

/-- The ids are `int`s, the highest one is not below -1. -/
def ChosenIds (rows : List ClientRow) : Prop :=
  (∀ row ∈ rows, columnInt row.id = row.id) ∧ (rows = [] ∨ ∃ row ∈ rows, -1 ≤ row.id)

instance (rows : List ClientRow) : Decidable (ChosenIds rows) := by
  unfold ChosenIds
  have : Decidable (rows = []) := decidable_of_iff (rows.length = 0) List.length_eq_zero_iff
  infer_instance

section

variable {A : AddressLibrary} {ip : List Char}

def Sums (s : Nat × List ClientRow) (m : ClientMatch) : Prop :=
  m.bits = s.1 ∧ m.count = s.2.length ∧ m.ids = s.2.map (fun row => columnInt row.id) ∧
    m.chosenId = (s.2.map (fun row => columnInt row.id)).foldl max (-1)

theorem lookupRow_sums {s : Nat × List ClientRow} {m : ClientMatch} (h : Sums s m) (row : ClientRow) :
    Sums (Best.pick (A.rowBits ip) s row) (A.lookupRow ip m row) := by
  obtain ⟨hbits,hcount,hids,hchosen⟩ := h
  have hmax : ∀ c id : Int, (if c < id then id else c) = max c id := by
    intro c id
    split_ifs <;> omega
  unfold Best.pick lookupRow
  rw [hbits]
  dsimp only
  by_cases hskip : A.rowBits ip row ≤ 0 ∨ A.rowBits ip row < s.1
  · rw [if_pos hskip,if_pos hskip]
    exact ⟨hbits,hcount,hids,hchosen⟩
  rw [if_neg hskip,if_neg hskip]
  by_cases hmore : s.1 < A.rowBits ip row
  · rw [if_pos hmore,if_pos hmore]
    refine ⟨by split_ifs <;> rfl,by split_ifs <;> rfl,by split_ifs <;> rfl,?_⟩
    simp only [List.map_cons,List.map_nil,List.foldl_cons,List.foldl_nil,← hmax]
    split_ifs <;> rfl
  rw [if_neg hmore,if_neg hmore]
  refine ⟨by split_ifs <;> exact hbits,by split_ifs <;> simp [hcount],by split_ifs <;> simp [hids],?_⟩
  rw [List.map_append,List.foldl_append,← hchosen]
  simp only [List.map_cons,List.map_nil,List.foldl_cons,List.foldl_nil,← hmax]
  split_ifs <;> rfl

theorem lookup_sums (rows : List ClientRow) (s : Nat × List ClientRow) (m : ClientMatch)
    (h : Sums s m) :
    Sums (rows.foldl (Best.pick (A.rowBits ip)) s) (rows.foldl (A.lookupRow ip) m) := by
  induction rows generalizing s m with
  | nil => exact h
  | cons row rows ih => exact ih _ _ (lookupRow_sums h row)

theorem clientSubnetLookup_sums (A : AddressLibrary) (ip : List Char) (rows : List ClientRow) :
    ∃ m, A.clientSubnetLookup ip rows true = some m ∧
      Sums (Best.top (A.rowBits ip) rows,Best.best (A.rowBits ip) rows) m := by
  refine ⟨_,rfl,?_⟩
  rw [← Best.foldl_pick]
  exact lookup_sums rows _ _ ⟨rfl,rfl,rfl,rfl⟩

theorem clientQuery_eq (rows : List ClientRow) (h : Best.best (A.rowBits ip) rows ≠ []) :
    let m := A.clientQuery ip rows
    m.bits = Best.top (A.rowBits ip) rows ∧ m.count = (Best.best (A.rowBits ip) rows).length ∧
      m.ids = (Best.best (A.rowBits ip) rows).map ClientRow.id ∧
      ∃ id, ((Best.best (A.rowBits ip) rows).map ClientRow.id).max? = some id ∧
        m.chosenId = columnInt id := by
  have htop : Best.top (A.rowBits ip) rows ≠ 0 := fun h0 => h ((Best.best_eq_nil_iff rows).2 h0)
  rw [clientQuery,Best.grouped_eq,if_neg htop]
  obtain ⟨id,hid⟩ := Option.ne_none_iff_exists'.1
    (show ((Best.best (A.rowBits ip) rows).map ClientRow.id).max? ≠ none by simp [h])
  exact ⟨rfl,rfl,rfl,id,hid,by simp [hid]⟩

theorem best_eq_mostSpecific {rows : List ClientRow}
    (h : ∀ row ∈ rows, ∀ e ∈ row.ip, A.subnetMatchBits e.ip ip = e.bits A ip) :
    Best.best (A.rowBits ip) rows = A.mostSpecific ip rows := by
  have hrow : ∀ row ∈ rows, A.rowBits ip row = (row.ip.map (fun e => e.bits A ip)).getD 0 := by
    intro row hrow
    unfold rowBits
    cases hip : row.ip with
    | none => rfl
    | some e => exact h row hrow e hip
  refine List.filter_congr fun row hmem => ?_
  rw [decide_eq_decide,hrow row hmem]
  refine and_congr_right fun _ => forall₂_congr fun other hother => ?_
  rw [hrow other hother]

theorem tells_iff {n : Nat} {rows : List ClientRow} {m : ClientMatch} (h : Sums (n,rows) m) :
    m.Tells rows ↔ ChosenIds rows := by
  obtain ⟨-,hcount,hids,hchosen⟩ := h
  obtain ⟨hmem,hge,hall⟩ := Best.foldl_max_spec (rows.map (fun row => columnInt row.id)) (-1)
  rw [← hchosen] at hmem hge hall
  constructor
  · rintro ⟨-,hids',htop⟩
    rw [hids] at hids'
    refine ⟨fun row hrow => List.map_inj_left.1 hids' row hrow,?_⟩
    by_cases hnil : rows = []
    · exact .inl hnil
    · obtain ⟨row,hrow,hid⟩ := List.mem_map.1 (htop hnil).1
      exact .inr ⟨row,hrow,hid ▸ hge⟩
  rintro ⟨hfix,hsome⟩
  have hsame : rows.map (fun row => columnInt row.id) = rows.map ClientRow.id :=
    List.map_congr_left hfix
  rw [hsame] at hids hmem hall
  refine ⟨hcount,hids,fun hne => ⟨?_,fun row hrow => hall _ (List.mem_map_of_mem hrow)⟩⟩
  rcases hmem with heq | hin
  · -- the start value is the highest id, so it is one of the ids
    obtain ⟨row,hrow,hid⟩ := hsome.resolve_left hne
    have hle := hall _ (List.mem_map_of_mem hrow)
    have : m.chosenId = row.id := by omega
    exact this ▸ List.mem_map_of_mem hrow
  · exact hin

theorem clientQuery_same {rows : List ClientRow} {m : ClientMatch}
    (h : Sums (Best.top (A.rowBits ip) rows,Best.best (A.rowBits ip) rows) m)
    (hids : ChosenIds (Best.best (A.rowBits ip) rows)) :
    (A.clientQuery ip rows).count = m.count ∧ (A.clientQuery ip rows).chosenId = m.chosenId ∧
      (A.clientQuery ip rows).ids = m.ids ∧ (A.clientQuery ip rows).bits = m.bits := by
  have htells := (tells_iff h).2 hids
  by_cases hnil : Best.best (A.rowBits ip) rows = []
  · obtain ⟨hbits,hcount,hids',hchosen⟩ := h
    have htop := (Best.best_eq_nil_iff rows).1 hnil
    rw [hnil] at hcount hids' hchosen
    rw [clientQuery,Best.grouped_eq,if_pos htop,hcount,hids',hchosen,hbits,htop]
    exact ⟨rfl,rfl,rfl,rfl⟩
  obtain ⟨hqbits,hqcount,hqids,id,hmax,hqchosen⟩ := clientQuery_eq rows hnil
  obtain ⟨hmem,hle⟩ := List.max?_eq_some_iff.1 hmax
  obtain ⟨hin,hall⟩ := htells.2.2 hnil
  obtain ⟨row,hrow,rfl⟩ := List.mem_map.1 hmem
  have hid : row.id = m.chosenId := le_antisymm (hall row hrow) (hle _ hin)
  refine ⟨hqcount.trans h.2.1.symm,?_,hqids.trans htells.2.1.symm,hqbits.trans h.1.symm⟩
  rw [hqchosen,hids.1 row hrow,hid]

end

/-- Every entry has the bits it is meant to have, the loop tells the most specific entries, and
the statement gives the same. -/
def MostSpecificWins (A : AddressLibrary) (ip : List Char) (rows : List ClientRow) : Prop :=
  (∀ row ∈ rows, ∀ e ∈ row.ip, A.subnetMatchBits e.ip ip = e.bits A ip) ∧
    ∃ m ∈ A.clientSubnetLookup ip rows true, m.Tells (A.mostSpecific ip rows) ∧
      (A.clientQuery ip rows).count = m.count ∧ (A.clientQuery ip rows).chosenId = m.chosenId ∧
      (A.clientQuery ip rows).ids = m.ids ∧ (A.clientQuery ip rows).bits = m.bits

instance (A : AddressLibrary) (ip : List Char) (rows : List ClientRow) :
    Decidable (MostSpecificWins A ip rows) := by
  unfold MostSpecificWins
  infer_instance

/-- The most specific entry wins exactly if the lengths are read as meant and the ids of the most
specific entries can be held. -/
theorem most_specific_wins_iff (A : AddressLibrary) (ip : List Char) (rows : List ClientRow) :
    MostSpecificWins A ip rows ↔
      (∀ row ∈ rows, ∀ e ∈ row.ip, e.Alike A ip) ∧ ChosenIds (A.mostSpecific ip rows) := by
  unfold MostSpecificWins
  simp only [subnetMatchBits_eq_bits_iff]
  refine and_congr_right fun halike => ?_
  have hbest : Best.best (A.rowBits ip) rows = A.mostSpecific ip rows :=
    best_eq_mostSpecific fun row hrow e he => (subnetMatchBits_eq_bits_iff e ip).2
      (halike row hrow e he)
  obtain ⟨m,hm,hsums⟩ := clientSubnetLookup_sums A ip rows
  constructor
  · rintro ⟨m',hm',htells,-⟩
    obtain rfl := Option.some.inj (hm.symm.trans hm')
    rw [← hbest] at htells ⊢
    exact (tells_iff hsums).1 htells
  · intro hids
    rw [← hbest] at hids ⊢
    exact ⟨m,hm,(tells_iff hsums).2 hids,clientQuery_same hsums hids⟩

def dotted (s : List Char) : Option (List UInt8) :=
  let parts := s.splitOn '.'
  if parts.length = 4 ∧ ∀ part ∈ parts, part ≠ [] ∧ digitsValue 10 part < 256 then
    some (parts.map (fun part => UInt8.ofNat (digitsValue 10 part)))
  else none

def AddressLibrary.plain : AddressLibrary where
  inetPton
    | .inet, s => if ':' ∈ s then none else dotted s
    | .inet6, _ => none
  inetPton_nil f := by cases f <;> decide
  inetPton_colon f s a h := by
    cases f with
    | inet =>
      have hc : ':' ∉ s := fun hc => by simp [hc] at h
      simp [hc]
    | inet6 => simp at h
  inetPton_colons s a h := by simp at h

def paddedRange : ClientEntry :=
  .cidr ['1','0','.','0','.','1','6','.','0'] ['0','2','4'] (by decide) (by decide)
    (List.all_eq_true.mp rfl)

def wideRange : ClientEntry :=
  .cidr ['1','0','.','0','.','0','.','0'] ['8'] (by decide) (by decide) (List.all_eq_true.mp rfl)

/-- 10.0.17.5 is not in 10.0.16.0/24 but in 10.0.16.0/20, as which the length is read; an id below
-1 is not chosen. -/
theorem most_specific_loses :
    ¬ MostSpecificWins .plain ['1','0','.','0','.','1','7','.','5']
      [⟨1,some wideRange⟩,⟨2,some paddedRange⟩] ∧
      ¬ MostSpecificWins .plain ['1','0','.','0','.','1','7','.','5'] [⟨-5,some wideRange⟩] := by
  decide

end Lorentz
