import Mathlib

/-!
Names in DNS messages: `nameFromDNS` with every access to the message and its buffer of 256 bytes
checked, and `nameToDNS`. An access outside and a loop not through are `none`.
-/

set_option autoImplicit false

namespace Lorentz
open List

def MAXNAMELEN : Nat := 256

def putByte (b : List UInt8) (i : Nat) (x : UInt8) : Option (List UInt8) :=
  if i < b.length then some (b.set i x) else none

def nameText (b : List UInt8) : List UInt8 := b.takeWhile (fun c => c ≠ 0)

/-- `strlen`, for which there must be a NUL. -/
def textLength (b : List UInt8) : Option Nat :=
  if 0 ∈ b then some (nameText b).length else none

structure NameScan where
  reader : Nat
  name : List UInt8
  p : Nat := 0
  jumped : Bool := false
  jumps : Nat := 0
  count : Nat := 1

/-- The first loop; `some none` stands for `return NULL`. -/
def copyLabels (buffer : List UInt8) : Nat → NameScan → Option (Option NameScan)
  | 0, _ => none
  | n+1, s =>
    if s.reader < buffer.length then do
      let c ← buffer[s.reader]?
      if c ≠ 0 ∧ s.p < MAXNAMELEN-2 then
        if c ≥ 0xC0 then
          if s.reader+1 ≥ buffer.length then some none
          else do
            let low ← buffer[s.reader+1]?
            let offset := (c.toNat-0xC0)*256+low.toNat
            if offset ≥ MAXNAMELEN then some none
            else if s.jumps+1 > MAXNAMELEN then some none
            else copyLabels buffer n { s with reader := offset, jumped := true, jumps := s.jumps+1 }
        else do
          let name ← putByte s.name s.p c
          copyLabels buffer n { s with
            reader := s.reader+1
            name := name
            p := s.p+1
            count := if s.jumped then s.count else s.count+1 }
      else some (some s)
    else some (some s)

/-- The inner loop of the second pass: `p` bytes behind `i` move to the left. -/
def shiftLabel : Nat → List UInt8 → Nat → Option (List UInt8 × Nat)
  | 0, name, i => some (name,i)
  | p+1, name, i => do
    let c ← name[i+1]?
    let name ← putByte name i c
    shiftLabel p name (i+1)

/-- The second pass, in which each length becomes the dot behind its label. -/
def dotLabels : Nat → List UInt8 → Nat → Option (List UInt8 × Nat)
  | 0, _, _ => none
  | n+1, name, i => do
    let len ← textLength name
    if i < len then
      let p ← name[i]?
      if p ≥ 64 ∨ i+p.toNat ≥ MAXNAMELEN then
        let name ← putByte name i 0
        some (name,i)
      else
        let (name,i) ← shiftLabel p.toNat name i
        let name ← putByte name i 0x2E
        dotLabels n name (i+1)
    else some (name,i)

/-- The buffer with the name and the number of bytes that were consumed. -/
def nameFromDNS (buffer : List UInt8) (reader : Nat) : Option (Option (List UInt8 × Nat)) := do
  match ← copyLabels buffer (2*MAXNAMELEN)
      { reader := reader, name := List.replicate MAXNAMELEN 0 } with
  | none => some none
  | some s =>
    let name ← putByte s.name s.p 0
    let count := if s.jumped then s.count+1 else s.count
    let (name,i) ← dotLabels (MAXNAMELEN+1) name 0
    let name ← putByte name (if i > 0 then i-1 else i) 0
    some (some (name,count))

/-- The loop of `nameToDNS` at `host[i]`, with the bytes written so far. -/
def labelLoop (dnslen : Nat) (host : List UInt8) : Nat → Nat → Nat → List UInt8 → List UInt8
  | 0, _, _, dns => dns
  | n+1, i, lock, dns =>
    if dns.length < dnslen then
      if host[i]? = some 0x2E then
        let label := ((host.drop lock).take (i-lock)).take (dnslen-(dns.length+1))
        labelLoop dnslen host n (i+1) (lock+label.length+1) (dns ++ UInt8.ofNat (i-lock) :: label)
      else labelLoop dnslen host n (i+1) lock dns
    else dns

def nameToDNS (dnslen : Nat) (host : List UInt8) : List UInt8 :=
  labelLoop dnslen host host.length 0 0 [] ++ [0]

theorem putByte_eq {b : List UInt8} {i : Nat} {x : UInt8} (h : i < b.length) :
    putByte b i x = some (b.set i x) := if_pos h

theorem putByte_middle (a : List UInt8) (x y : UInt8) (b : List UInt8) :
    putByte (a ++ y :: b) a.length x = some (a ++ x :: b) := by
  rw [putByte_eq (by simp)]
  simp

variable (labels : List (List UInt8)) (buffer : List UInt8) (n : Nat) {name : List UInt8}
  {i p : Nat}

/-- The first loop stops: each round copies a byte or follows a pointer. -/
theorem copyLabels_stops (s : NameScan) (hn : (MAXNAMELEN-2-s.p)+(MAXNAMELEN-s.jumps) < n)
    (hname : s.name.length = MAXNAMELEN) (hp : s.p ≤ MAXNAMELEN-2) (hj : s.jumps ≤ MAXNAMELEN) :
    ∃ r, copyLabels buffer n s = some r ∧
      ∀ t ∈ r, t.name.length = MAXNAMELEN ∧ t.p ≤ MAXNAMELEN-2 := by
  induction n generalizing s with
  | zero => omega
  | succ n ih =>
    rw [copyLabels]
    by_cases hr : s.reader < buffer.length
    · rw [if_pos hr,getElem?_eq_getElem hr]
      simp only [Option.bind_eq_bind,Option.bind_some]
      generalize buffer[s.reader] = c
      by_cases hc : c ≠ 0 ∧ s.p < MAXNAMELEN-2
      · rw [if_pos hc]
        by_cases hptr : c ≥ 0xC0
        · rw [if_pos hptr]
          by_cases he : s.reader+1 ≥ buffer.length
          · exact ⟨none,if_pos he,by simp⟩
          rw [if_neg he,getElem?_eq_getElem (Nat.lt_of_not_ge he)]
          simp only [Option.bind_some]
          split
          · exact ⟨none,rfl,by simp⟩
          · split
            · exact ⟨none,rfl,by simp⟩
            · next hjump => exact ih _ (by simp only; omega) hname hp (by simp only; omega)
        · have hlt : s.p < s.name.length := by rw [hname]; simp only [MAXNAMELEN] at *; omega
          rw [if_neg hptr,putByte_eq hlt]
          exact ih _ (by simp only; omega) (by simp [hname]) (by simp only; omega) hj
      · rw [if_neg hc]
        exact ⟨some s,rfl,by simp [hname,hp]⟩
    · rw [if_neg hr]
      exact ⟨some s,rfl,by simp [hname,hp]⟩

theorem shiftLabel_eq (p : Nat) (name : List UInt8) (i : Nat) (h : i+p < name.length) :
    shiftLabel p name i =
      some (name.take i ++ ((name.drop (i+1)).take p ++ name.drop (i+p)),i+p) := by
  induction p generalizing name i with
  | zero => simp [shiftLabel]
  | succ p ih =>
    have h1 : i+1 < name.length := by omega
    rw [shiftLabel,getElem?_eq_getElem h1]
    simp only [Option.bind_eq_bind,Option.bind_some]
    rw [putByte_eq (by omega),Option.bind_some,ih _ _ (by simp; omega)]
    have htake : (name.set i name[i+1]).take (i+1) = name.take i ++ [name[i+1]] := by
      rw [take_set,take_succ_eq_append_getElem (by omega),set_append_right _ _ (length_take_le ..)]
      simp [Nat.min_eq_left (by omega : i ≤ name.length)]
    have hdrop (k : Nat) (hk : i < k) : (name.set i name[i+1]).drop k = name.drop k := by
      rw [drop_set_of_lt hk]
    rw [htake,hdrop _ (by omega),hdrop _ (by omega),drop_eq_getElem_cons h1,take_succ_cons]
    simp [Nat.add_comm,Nat.add_left_comm]

def dotLabel (name : List UInt8) (i p : Nat) : List UInt8 :=
  name.take i ++ ((name.drop (i+1)).take p ++ 0x2E :: name.drop (i+p+1))

theorem shiftLabel_dot (p : Nat) (name : List UInt8) (i : Nat) (h : i+p < name.length) :
    (do let (name,i) ← shiftLabel p name i
        let name ← putByte name i 0x2E
        some (name,i+1)) = some (dotLabel name i p,i+p+1) := by
  have hlen : (name.take i ++ (name.drop (i+1)).take p).length = i+p := by simp; omega
  have hput : putByte (name.take i ++ ((name.drop (i+1)).take p ++ name.drop (i+p))) (i+p) 0x2E =
      some (dotLabel name i p) := by
    rw [drop_eq_getElem_cons h,← append_assoc]
    have hmid := putByte_middle (name.take i ++ (name.drop (i+1)).take p) 0x2E name[i+p]
      (name.drop (i+p+1))
    rw [hlen] at hmid
    rw [hmid,dotLabel,append_assoc]
  rw [shiftLabel_eq p name i h]
  simp [hput]

theorem dotLabel_length (h : i+p < name.length) : (dotLabel name i p).length = name.length := by
  simp [dotLabel]
  omega

theorem zero_mem_dotLabel (hz : 0 ∈ name) (hi : i < (nameText name).length) :
    0 ∈ dotLabel name i p := by
  rw [nameText] at hi
  have hsplit := takeWhile_append_dropWhile (p := fun c : UInt8 => c ≠ 0) (l := name)
  have htake : (0 : UInt8) ∉ name.take (i+1) := by
    intro h0
    rw [← hsplit,take_append_of_le_length hi] at h0
    simpa using mem_takeWhile_imp (mem_of_mem_take h0)
  have hdrop : (0 : UInt8) ∈ name.drop (i+1) := by
    rw [← take_append_drop (i+1) name,mem_append] at hz
    exact hz.resolve_left htake
  rw [← take_append_drop p (name.drop (i+1)),mem_append,drop_drop,
    Nat.add_right_comm] at hdrop
  simp only [dotLabel,mem_append,mem_cons]
  rcases hdrop with h | h
  · exact .inr (.inl h)
  · exact .inr (.inr (.inr h))

theorem dotLabels_step (name : List UInt8) (i : Nat) (hz : 0 ∈ name)
    (hi : i < (nameText name).length) (hname : name.length = MAXNAMELEN) {p : UInt8}
    (hp : name[i]? = some p) (hlen : ¬ (p ≥ 64 ∨ i+p.toNat ≥ MAXNAMELEN)) :
    dotLabels (n+1) name i = dotLabels n (dotLabel name i p.toNat) (i+p.toNat+1) := by
  have hshift := shiftLabel_dot p.toNat name i (by omega)
  rw [dotLabels]
  simp only [textLength,if_pos hz,Option.bind_eq_bind,Option.bind_some,if_pos hi,hp,if_neg hlen]
    at hshift ⊢
  cases hs : shiftLabel p.toNat name i with
  | none => simp [hs] at hshift
  | some r =>
    rw [hs,Option.bind_some] at hshift
    cases hq : putByte r.1 r.2 0x2E with
    | none => simp [hq] at hshift
    | some name' =>
      simp only [hq,Option.bind_some,Option.some.injEq,Prod.mk.injEq] at hshift ⊢
      rw [hshift.1,hshift.2]

theorem dotLabels_stops (name : List UInt8) (i : Nat) (hn : MAXNAMELEN-i < n)
    (hname : name.length = MAXNAMELEN) (hz : 0 ∈ name) (hi : i ≤ MAXNAMELEN) :
    ∃ name' j, dotLabels n name i = some (name',j) ∧ name'.length = MAXNAMELEN ∧
      j ≤ MAXNAMELEN := by
  induction n generalizing name i with
  | zero => omega
  | succ n ih =>
    by_cases hlt : i < (nameText name).length
    · have hin : i < name.length := Nat.lt_of_lt_of_le hlt (takeWhile_sublist _).length_le
      by_cases hp : name[i] ≥ 64 ∨ i+name[i].toNat ≥ MAXNAMELEN
      · refine ⟨name.set i 0,i,?_,by simpa using hname,hi⟩
        rw [dotLabels]
        simp only [textLength,if_pos hz,Option.bind_eq_bind,Option.bind_some,if_pos hlt,
          getElem?_eq_getElem hin,if_pos hp,putByte_eq hin]
      have hstep := dotLabels_step n name i hz hlt hname (getElem?_eq_getElem hin) hp
      have hbound : i+name[i].toNat < name.length := by omega
      rw [hstep]
      exact ih _ _ (by omega) (by rw [dotLabel_length hbound,hname]) (zero_mem_dotLabel hz hlt)
        (by omega)
    · refine ⟨name,i,?_,hname,hi⟩
      rw [dotLabels]
      simp only [textLength,if_pos hz,Option.bind_eq_bind,Option.bind_some,if_neg hlt]

theorem nameText_eq {a : List UInt8} (h : 0 ∉ a) (b : List UInt8) : nameText (a ++ 0 :: b) = a := by
  rw [nameText,takeWhile_append_of_pos]
  · simp
  · intro c hc
    simpa using ne_of_mem_of_not_mem hc h

theorem nameFromDNS_stops (reader : Nat) : ∃ r, nameFromDNS buffer reader = some r ∧
      ∀ t ∈ r, t.1.length = MAXNAMELEN ∧ 0 ∈ t.1 := by
  obtain ⟨r,hr,hstop⟩ := copyLabels_stops buffer (2*MAXNAMELEN)
    { reader := reader, name := replicate MAXNAMELEN 0 } (by simp [MAXNAMELEN]) (by simp)
    (Nat.zero_le _) (Nat.zero_le _)
  simp only [nameFromDNS,hr,Option.bind_eq_bind,Option.bind_some]
  cases r with
  | none => exact ⟨none,rfl,by simp⟩
  | some s =>
    obtain ⟨hname,hp⟩ := hstop s rfl
    have hlt : s.p < s.name.length := by rw [hname]; simp only [MAXNAMELEN] at *; omega
    have hz : (0 : UInt8) ∈ s.name.set s.p 0 := mem_set hlt 0
    obtain ⟨name,i,hdot,hlen,hi⟩ := dotLabels_stops (MAXNAMELEN+1) (s.name.set s.p 0) 0 (by omega)
      (by simpa using hname) hz (by omega)
    have hlast : (if i > 0 then i-1 else i) < name.length := by
      split <;> omega
    simp only [putByte_eq hlt,Option.bind_some,hdot,putByte_eq hlast]
    exact ⟨_,rfl,by simp [hlen,mem_set hlast]⟩

def wireLabels (labels : List (List UInt8)) : List UInt8 :=
  labels.flatMap (fun l => UInt8.ofNat l.length :: l)

def dottedLabels (labels : List (List UInt8)) : List UInt8 := labels.flatMap (fun l => l ++ [0x2E])

/-- What `nameFromDNS` takes for a byte of a label. -/
def PlainByte (c : UInt8) : Prop := c ≠ 0 ∧ ¬ c ≥ 0xC0

/-- The name at `p`, its length and the number of its pointers. RFC 1035 has pointers to any
earlier offset below `2^14` and labels of any bytes. -/
inductive NameAt (limit : Nat) (ok : UInt8 → Prop) (m : List UInt8) :
    Nat → List (List UInt8) → Nat → Nat → Prop
  | root {p : Nat} (h : [0] <+: m.drop p) : NameAt limit ok m p [] 1 0
  | label {p n k : Nat} {l : List UInt8} {ls : List (List UInt8)}
      (h : UInt8.ofNat l.length :: l <+: m.drop p) (hl : 1 ≤ l.length ∧ l.length ≤ 63)
      (hok : ∀ c ∈ l, ok c) (hs : NameAt limit ok m (p+(l.length+1)) ls n k) :
      NameAt limit ok m p (l :: ls) (l.length+1+n) k
  | pointer {p n k o : Nat} {ls : List (List UInt8)}
      (h : [UInt8.ofNat (0xC0+o/256),UInt8.ofNat o] <+: m.drop p) (ho : o < p) (hlim : o < limit)
      (hs : NameAt limit ok m o ls n k) : NameAt limit ok m p ls 2 (k+1)

def PlainLabel (l : List UInt8) : Prop := 1 ≤ l.length ∧ l.length ≤ 63 ∧ ∀ c ∈ l, PlainByte c

def hostNameByte (c : UInt8) : Bool :=
  (0x61 ≤ c ∧ c ≤ 0x7A) ∨ (0x41 ≤ c ∧ c ≤ 0x5A) ∨ (0x30 ≤ c ∧ c ≤ 0x39) ∨ c = 0x2D ∨ c = 0x5F

def hostLabel (l : List UInt8) : Bool := 1 ≤ l.length ∧ l.length ≤ 63 ∧ l.all hostNameByte

theorem hostNameByte_bounds {c : UInt8} (h : hostNameByte c) : c ≠ 0 ∧ c ≠ 0x2E ∧ ¬ c ≥ 0xC0 := by
  simp only [hostNameByte,decide_eq_true_eq,UInt8.le_iff_toNat_le,← UInt8.toNat_inj,ne_eq,ge_iff_le]
    at *
  simp at *
  omega

theorem dottedLabels_eq {labels : List (List UInt8)} (h : labels ≠ []) :
    dottedLabels labels = [0x2E].intercalate labels ++ [0x2E] := by
  induction labels with
  | nil => exact absurd rfl h
  | cons l ls ih =>
    cases ls with
    | nil => simp [dottedLabels,intercalate]
    | cons m ms =>
      have := ih (by simp)
      simp only [dottedLabels,flatMap_cons,intercalate,intersperse_cons_cons,
        flatten_cons,append_assoc] at this ⊢
      rw [this]

theorem wireLabels_length : (wireLabels labels).length = (dottedLabels labels).length := by
  induction labels with
  | nil => rfl
  | cons l ls ih =>
    simp only [wireLabels,dottedLabels,flatMap_cons,length_append] at ih ⊢
    simp [ih]

theorem length_le_wireLabels : labels.length ≤ (wireLabels labels).length := by
  induction labels with
  | nil => simp
  | cons l ls ih =>
    simp only [wireLabels,flatMap_cons,length_append,length_cons] at *
    omega

section

variable {labels : List (List UInt8)}

theorem PlainLabel.ofHost {l : List UInt8} (h : hostLabel l) : PlainLabel l := by
  simp only [hostLabel,decide_eq_true_eq,all_eq_true] at h
  refine ⟨h.1,h.2.1,fun c hc => ?_⟩
  have := hostNameByte_bounds (h.2.2 c hc)
  exact ⟨this.1,this.2.2⟩

theorem plainByte_length {n : Nat} (h : 1 ≤ n ∧ n ≤ 63) : PlainByte (UInt8.ofNat n) := by
  simp only [PlainByte,ne_eq,← UInt8.toNat_inj,ge_iff_le,UInt8.le_iff_toNat_le,UInt8.toNat_ofNat']
  simp
  omega

theorem wireLabels_bounds (h : ∀ l ∈ labels, PlainLabel l) :
    ∀ c ∈ wireLabels labels, PlainByte c := by
  intro c hc
  obtain ⟨l,hl,hcl⟩ := mem_flatMap.mp hc
  obtain ⟨hpos,hle,hbytes⟩ := h l hl
  rcases mem_cons.mp hcl with rfl | hcl
  · exact plainByte_length ⟨hpos,hle⟩
  · exact hbytes c hcl

theorem dottedLabels_bounds (h : ∀ l ∈ labels, PlainLabel l) : 0 ∉ dottedLabels labels := by
  intro h0
  obtain ⟨l,hl,h0⟩ := mem_flatMap.mp h0
  rcases mem_append.mp h0 with h0 | h0
  · exact ((h l hl).2.2 0 h0).1 rfl
  · simp at h0

variable {m : List UInt8} (dnslen : Nat)

theorem labelLoop_skip (pre b post : List UInt8) (n lock : Nat) (dns : List UInt8)
    (hdns : dns.length < dnslen) (hb : ∀ c ∈ b, c ≠ 0x2E) :
    labelLoop dnslen (pre ++ b ++ post) (b.length+n) pre.length lock dns =
      labelLoop dnslen (pre ++ b ++ post) n (pre.length+b.length) lock dns := by
  induction b generalizing pre with
  | nil => simp
  | cons c b ih =>
    have hc : (pre ++ c :: b ++ post)[pre.length]? = some c := by simp
    have hne : c ≠ 0x2E := hb c (by simp)
    have hrest := ih (pre ++ [c]) (fun d hd => hb d (by simp [hd]))
    rw [length_cons,Nat.add_right_comm b.length 1 n,labelLoop,if_pos hdns,hc,
      if_neg (by simpa using hne)]
    simpa [Nat.add_comm,Nat.add_left_comm] using hrest

theorem labelLoop_labels (pre : List UInt8) (dns : List UInt8) (h : ∀ l ∈ labels, hostLabel l)
    (hdns : dns.length+(dottedLabels labels).length < dnslen) :
    labelLoop dnslen (pre ++ dottedLabels labels ++ [0]) ((dottedLabels labels).length+1)
        pre.length pre.length dns = dns ++ wireLabels labels := by
  induction labels generalizing pre dns with
  | nil =>
    have hlt : dns.length < dnslen := by omega
    simp [dottedLabels,wireLabels,labelLoop,hlt]
  | cons l ls ih =>
    have hlab := h l (by simp)
    simp only [hostLabel,decide_eq_true_eq,all_eq_true] at hlab
    have hdot : dottedLabels (l :: ls) = l ++ 0x2E :: dottedLabels ls := by simp [dottedLabels]
    have hwire : wireLabels (l :: ls) = UInt8.ofNat l.length :: l ++ wireLabels ls := by
      simp [wireLabels]
    rw [hdot,length_append,length_cons] at hdns
    have hrest := ih (pre ++ l ++ [0x2E]) (dns ++ UInt8.ofNat l.length :: l)
      (fun m hm => h m (by simp [hm])) (by simp; omega)
    have hskip := labelLoop_skip dnslen pre l (0x2E :: dottedLabels ls ++ [0])
      ((dottedLabels ls).length+2) pre.length dns (by omega)
      (fun c hc => (hostNameByte_bounds (hlab.2.2 c hc)).2.1)
    have hhost : pre ++ dottedLabels (l :: ls) ++ [0] = pre ++ l ++
      (0x2E :: dottedLabels ls ++ [0]) := by
      simp [hdot]
    have hfuel : (dottedLabels (l :: ls)).length+1 = l.length+((dottedLabels ls).length+2) := by
      simp [hdot]
      omega
    have hat : (pre ++ l ++ (0x2E :: dottedLabels ls ++ [0]))[pre.length+l.length]? =
        some 0x2E := by
      simp
    have hlabel : (((pre ++ l ++ (0x2E :: dottedLabels ls ++ [0])).drop pre.length).take
        (pre.length+l.length-pre.length)).take (dnslen-(dns.length+1)) = l := by
      rw [append_assoc,drop_left,Nat.add_sub_cancel_left,take_left,
        take_of_length_le (by omega)]
    rw [hhost,hfuel,hskip,labelLoop,if_pos (by omega),if_pos hat]
    rw [hlabel,Nat.add_sub_cancel_left]
    simpa [hwire,Nat.add_assoc] using hrest

theorem nameToDNS_labels (h : ∀ l ∈ labels, hostLabel l)
    (hdns : (dottedLabels labels).length < dnslen) :
    nameToDNS dnslen (dottedLabels labels ++ [0]) = wireLabels labels ++ [0] := by
  have := labelLoop_labels dnslen [] [] h (by simpa using hdns)
  simp only [nil_append,length_nil] at this
  rw [nameToDNS,length_append,length_singleton,this]

theorem getElem?_of_drop {p : Nat} {c : UInt8} {w : List UInt8} (h : c :: w <+: m.drop p) :
    p < m.length ∧ m[p]? = some c ∧ w <+: m.drop (p+1) := by
  obtain ⟨rest,hrest⟩ := h
  have hp : m[p]? = some c := by
    rw [← List.head?_drop,← hrest]
    rfl
  refine ⟨(List.getElem?_eq_some_iff.mp hp).1,hp,rest,?_⟩
  rw [← List.drop_drop,← hrest]
  rfl

theorem nameToDNS_host (hne : labels ≠ []) (h : ∀ l ∈ labels, hostLabel l)
    (hlen : ([0x2E].intercalate labels).length ≤ 253) :
    nameToDNS MAXNAMELEN ([0x2E].intercalate labels ++ [0x2E,0]) = wireLabels labels ++ [0] ∧
      (wireLabels labels).length ≤ MAXNAMELEN-2 := by
  have hdot := dottedLabels_eq hne
  have hdlen := congrArg List.length hdot
  rw [length_append,length_singleton] at hdlen
  simp only [MAXNAMELEN]
  refine ⟨?_,by rw [wireLabels_length]; omega⟩
  rw [← nameToDNS_labels 256 h (by omega),hdot]
  simp

theorem copyLabels_run (m w : List UInt8) (n : Nat) (s : NameScan) (done rest : List UInt8)
    (hw : ∀ c ∈ w, PlainByte c) (hm : w <+: m.drop s.reader) (hname : s.name = done ++ rest)
    (hp : s.p = done.length) (hrest : w.length ≤ rest.length)
    (hdone : done.length+w.length ≤ MAXNAMELEN-2) :
    copyLabels m (w.length+n) s = copyLabels m n { s with
      reader := s.reader+w.length
      name := done ++ w ++ rest.drop w.length
      p := done.length+w.length
      count := if s.jumped then s.count else s.count+w.length } := by
  induction w generalizing s done rest with
  | nil => simp [← hname,← hp]
  | cons c w ih =>
    cases rest with
    | nil => simp at hrest
    | cons x rest =>
      obtain ⟨hc,hptr⟩ := hw c (by simp)
      simp only [length_cons] at hrest hdone
      obtain ⟨hr,hat,hnext⟩ := getElem?_of_drop hm
      have hcopy := ih { s with
          reader := s.reader+1
          name := done ++ c :: rest
          p := s.p+1
          count := if s.jumped then s.count else s.count+1 } (done ++ [c]) rest
        (fun d hd => hw d (by simp [hd])) hnext (by simp) (by simp [hp]) (by omega) (by simp; omega)
      rw [length_cons,Nat.add_right_comm,copyLabels,if_pos hr,hat]
      simp only [Option.bind_eq_bind,Option.bind_some]
      rw [if_pos ⟨hc,by omega⟩,if_neg hptr,hname,hp,putByte_middle,Option.bind_some,← hp,hcopy]
      cases s.jumped <;> simp [hp,Nat.add_assoc,Nat.add_comm 1]

theorem NameAt.plain {limit p n k : Nat} {m : List UInt8}
    (h : NameAt limit PlainByte m p labels n k) :
    ∀ l ∈ labels, PlainLabel l := by
  induction h with
  | root h => simp
  | label h hl hok hs ih => simpa using ⟨⟨hl.1,hl.2,hok⟩,ih⟩
  | pointer h ho hlim hs ih => exact ih

/-- A name whose pointers stay below 256 is copied as a whole: a pointer that the full buffer hides
is not the first one. -/
theorem copyLabels_name {q len k : Nat} (h : NameAt MAXNAMELEN PlainByte m q labels len k) (n : Nat)
    (s : NameScan) (done rest : List UInt8) (hq : s.reader = q) (hname : s.name = done ++ rest)
    (hp : s.p = done.length) (hn : (wireLabels labels).length+k < n)
    (hrest : (wireLabels labels).length ≤ rest.length)
    (hdone : done.length+(wireLabels labels).length ≤ MAXNAMELEN-2)
    (hown : s.jumped = false → done.length+len < MAXNAMELEN)
    (hj : s.jumps+k ≤ MAXNAMELEN) : ∃ t, copyLabels m n s = some (some t) ∧
      t.name = done ++ wireLabels labels ++ rest.drop (wireLabels labels).length ∧
      t.p = done.length+(wireLabels labels).length ∧
      (if t.jumped then t.count+1 else t.count) = if s.jumped then s.count+1 else s.count+len-1 := by
  induction h generalizing n s done rest with
  | root h =>
    subst hq
    obtain ⟨hr,hat,-⟩ := getElem?_of_drop h
    refine ⟨s,?_,by simp [wireLabels,hname],by simp [wireLabels,hp],by simp⟩
    cases n with
    | zero => omega
    | succ n =>
      rw [copyLabels,if_pos hr,hat]
      simp
  | @label p n' k l ls h hl hok hs ih =>
    subst hq
    have hwire : wireLabels (l :: ls) = (UInt8.ofNat l.length :: l) ++ wireLabels ls := by
      simp [wireLabels]
    have hlen : (UInt8.ofNat l.length :: l).length = l.length+1 := rfl
    rw [hwire,length_append,hlen] at hn hrest hdone
    have hw : ∀ c ∈ UInt8.ofNat l.length :: l, PlainByte c := by
      simpa using ⟨plainByte_length hl,hok⟩
    have hrun := copyLabels_run m _ (n-(l.length+1)) s done rest hw h hname hp (by rw [hlen]; omega)
      (by rw [hlen]; omega)
    rw [hlen,Nat.add_sub_cancel' (by omega)] at hrun
    obtain ⟨t,ht,htn,htp,htc⟩ := ih (n-(l.length+1)) { s with
        reader := s.reader+(l.length+1)
        name := done ++ (UInt8.ofNat l.length :: l) ++ rest.drop (l.length+1)
        p := done.length+(l.length+1)
        count := if s.jumped then s.count else s.count+(l.length+1) }
          (done ++ (UInt8.ofNat l.length :: l))
      (rest.drop (l.length+1)) rfl rfl (by simp) (by omega) (by simp; omega)
      (by simp; omega) (fun hs => by have := hown hs; simp; omega) hj
    refine ⟨t,hrun.trans ht,?_,?_,?_⟩
    · rw [htn,hwire]
      simp only [append_assoc,drop_drop,length_append,hlen]
    · rw [htp,hwire]
      simp
      omega
    rw [htc]
    cases s.jumped
    · simp
      omega
    · simp
  | @pointer p n' k o ls h ho hlim hs ih =>
    subst hq
    obtain ⟨hr,hat,hnext⟩ := getElem?_of_drop h
    obtain ⟨hr',hat',-⟩ := getElem?_of_drop hnext
    have ho256 : o < 256 := hlim
    have hhi : UInt8.ofNat (0xC0+o/256) = 0xC0 := by
      rw [Nat.div_eq_of_lt ho256]
      rfl
    have hlo : (UInt8.ofNat o).toNat = o := by
      rw [UInt8.toNat_ofNat']
      omega
    cases n with
    | zero => omega
    | succ n =>
      by_cases hfull : s.p < MAXNAMELEN-2
      case neg =>
        have hjumped : s.jumped = true := by
          by_contra hs
          have := hown (by simpa using hs)
          simp only [MAXNAMELEN] at *
          omega
        have hnil : wireLabels ls = [] := length_eq_zero_iff.mp (by omega)
        refine ⟨s,?_,by simp [hnil,hname],by simp [hnil,hp],by simp [hjumped]⟩
        rw [copyLabels,if_pos hr,hat]
        simp [hfull]
      obtain ⟨t,ht,htn,htp,htc⟩ := ih n { s with reader := o, jumped := true, jumps := s.jumps+1 }
        done rest rfl hname hp (by omega) hrest hdone (by simp) (by simp only; omega)
      refine ⟨t,?_,htn,htp,?_⟩
      · rw [copyLabels,if_pos hr,hat,hhi]
        simp only [Option.bind_eq_bind,Option.bind_some]
        rw [if_pos ⟨by decide,hfull⟩,if_pos (by decide),if_neg (by omega),hat',Option.bind_some,hlo]
        rw [if_neg (by simpa using hlim),if_neg (by omega)]
        simpa using ht
      · rw [htc]
        cases s.jumped <;> simp

theorem dotLabels_wire (n : Nat) (done zeros : List UInt8) (h : ∀ l ∈ labels, PlainLabel l)
    (hn : labels.length < n) (hdone : 0 ∉ done)
    (hname : (done ++ wireLabels labels ++ 0 :: zeros).length = MAXNAMELEN) :
    dotLabels n (done ++ wireLabels labels ++ 0 :: zeros) done.length =
      some (done ++ dottedLabels labels ++ 0 :: zeros,done.length+(dottedLabels labels).length) := by
  induction labels generalizing n done with
  | nil =>
    cases n with
    | zero => omega
    | succ n =>
      have htext := nameText_eq hdone zeros
      rw [dotLabels]
      simp [wireLabels,dottedLabels,textLength,htext]
  | cons l ls ih =>
    cases n with
    | zero => omega
    | succ n =>
      obtain ⟨hpos,hle,hbytes⟩ := h l (by simp)
      have hwire : wireLabels (l :: ls) = UInt8.ofNat l.length :: (l ++ wireLabels ls) := by
        simp [wireLabels]
      have hdot : dottedLabels (l :: ls) = l ++ 0x2E :: dottedLabels ls := by simp [dottedLabels]
      have hlen : (UInt8.ofNat l.length).toNat = l.length := by
        rw [UInt8.toNat_ofNat']
        omega
      have hzero : 0 ∉ done ++ wireLabels (l :: ls) := by
        intro h0
        rcases mem_append.mp h0 with h0 | h0
        · exact hdone h0
        · exact (wireLabels_bounds h 0 h0).1 rfl
      have htext := nameText_eq hzero zeros
      have hstep := dotLabels_step n (done ++ wireLabels (l :: ls) ++ 0 :: zeros) done.length
        (by simp) (by rw [htext,hwire]; simp) hname (p := UInt8.ofNat l.length) (by simp [hwire])
        (by
          rw [hlen,ge_iff_le,UInt8.le_iff_toNat_le,hlen]
          have : done.length+l.length < MAXNAMELEN := by
            rw [← hname,hwire]
            simp only [length_append,length_cons]
            omega
          have h64 : (64 : UInt8).toNat = 64 := rfl
          omega)
      have hmoved : dotLabel (done ++ wireLabels (l :: ls) ++ 0 :: zeros) done.length l.length =
          (done ++ l ++ [0x2E]) ++ wireLabels ls ++ 0 :: zeros := by
        rw [dotLabel,hwire]
        have hd : (done ++ UInt8.ofNat l.length :: (l ++ wireLabels ls) ++ 0 :: zeros).drop
            (done.length+1) = l ++ (wireLabels ls ++ 0 :: zeros) := by
          simp [drop_append]
        rw [Nat.add_right_comm,← drop_drop (i := l.length),hd]
        simp
      have hrest := ih n (done ++ l ++ [0x2E]) (fun m hm => h m (by simp [hm]))
        (by simp at hn; omega)
        (by
          have hl : ∀ m ∈ [l], PlainLabel m := by simpa using h l (by simp)
          have := dottedLabels_bounds hl
          simp only [dottedLabels,flatMap_cons,flatMap_nil,append_nil] at this
          rw [append_assoc,mem_append]
          exact fun h0 => h0.elim hdone this)
        (by rw [← hname,hwire]; simp; omega)
      rw [hstep,hlen,hmoved]
      simpa [hdot,Nat.add_assoc,Nat.add_comm 1] using hrest

theorem nameFromDNS_name {p len k : Nat} (h : NameAt MAXNAMELEN PlainByte m p labels len k)
    (hlen : (wireLabels labels).length ≤ MAXNAMELEN-2) (hown : len < MAXNAMELEN)
    (hk : k ≤ MAXNAMELEN) :
    ∃ b, nameFromDNS m p = some (some (b,len)) ∧ nameText b = [0x2E].intercalate labels := by
  have hzero := dottedLabels_bounds h.plain
  have hcount := length_le_wireLabels labels
  simp only [MAXNAMELEN] at hlen hk
  obtain ⟨t,hcopy,htn,htp,htc⟩ := copyLabels_name h (2*MAXNAMELEN)
    { reader := p, name := replicate MAXNAMELEN 0 } [] (replicate MAXNAMELEN 0) rfl rfl rfl
    (by simp only [MAXNAMELEN]; omega) (by simp only [MAXNAMELEN,length_replicate]; omega)
    (by simpa [MAXNAMELEN] using hlen) (by simpa using hown) (by simpa [MAXNAMELEN] using hk)
  have hzeros : (replicate MAXNAMELEN (0 : UInt8)).drop (wireLabels labels).length =
      0 :: replicate (MAXNAMELEN-(wireLabels labels).length-1) 0 := by
    rw [drop_replicate,← replicate_succ]
    congr 1
    simp only [MAXNAMELEN]
    omega
  generalize replicate (MAXNAMELEN-(wireLabels labels).length-1) (0 : UInt8) = zeros at hzeros
  have hzlen := congrArg List.length hzeros
  simp only [MAXNAMELEN,length_drop,length_replicate,length_cons] at hzlen
  have hdots := dotLabels_wire (MAXNAMELEN+1) [] zeros h.plain (by simp only [MAXNAMELEN]; omega)
    (by simp) (by simp [MAXNAMELEN]; omega)
  simp only [nil_append,length_nil,Nat.zero_add,hzeros] at htn htp hdots
  simp only [nameFromDNS,hcopy,Option.bind_eq_bind,Option.bind_some,htn,htp,putByte_middle,hdots,htc]
  cases hl : labels with
  | nil =>
    refine ⟨0 :: zeros,?_,by simp [nameText]⟩
    simp [dottedLabels,putByte,Nat.add_comm]
  | cons l ls =>
    have hdot : dottedLabels (l :: ls) = _ := dottedLabels_eq (by simp)
    rw [hl,hdot,mem_append,not_or] at hzero
    refine ⟨_,?_,nameText_eq hzero.1 (0 :: zeros)⟩
    have hlast : (if (dottedLabels (l :: ls)).length > 0 then (dottedLabels (l :: ls)).length-1
        else (dottedLabels (l :: ls)).length) = ([0x2E].intercalate (l :: ls)).length := by
      simp [hdot]
    rw [hlast,hdot,append_assoc,singleton_append,putByte_middle]
    simp [Nat.add_comm]

theorem nameAt_wire (pre post : List UInt8) (h : ∀ l ∈ labels, PlainLabel l) :
    NameAt MAXNAMELEN PlainByte (pre ++ (wireLabels labels ++ 0 :: post)) pre.length labels
      ((wireLabels labels).length+1) 0 := by
  induction labels generalizing pre with
  | nil => exact .root (by simp [wireLabels])
  | cons l ls ih =>
    obtain ⟨hpos,hle,hbytes⟩ := h l (by simp)
    have hwire : wireLabels (l :: ls) = (UInt8.ofNat l.length :: l) ++ wireLabels ls := by
      simp [wireLabels]
    have hrest := ih (pre ++ (UInt8.ofNat l.length :: l)) fun m hm => h m (by simp [hm])
    rw [hwire,append_assoc,length_append,Nat.add_assoc]
    refine .label ?_ ⟨hpos,hle⟩ hbytes ?_
    · rw [drop_left]
      exact prefix_append ..
    · simpa using hrest

end

/-- Decoding stops inside the message and its buffer, wherever it begins, and gives back what
`nameToDNS` writes for a host name. -/
theorem dns_name_decoded :
    (∀ (buffer : List UInt8) (reader : Nat), ∃ r, nameFromDNS buffer reader = some r ∧
      ∀ t ∈ r, t.1.length = MAXNAMELEN ∧ 0 ∈ t.1 ∧ (nameText t.1).length < MAXNAMELEN) ∧
    ∀ labels : List (List UInt8), labels ≠ [] → (∀ l ∈ labels, hostLabel l) →
      ([0x2E].intercalate labels).length ≤ 253 →
      ∃ name, nameFromDNS (nameToDNS MAXNAMELEN ([0x2E].intercalate labels ++ [0x2E,0])) 0 =
          some (some (name,
            (nameToDNS MAXNAMELEN ([0x2E].intercalate labels ++ [0x2E,0])).length)) ∧
        nameText name = [0x2E].intercalate labels := by
  constructor
  · intro buffer reader
    obtain ⟨r,hr,hname⟩ := nameFromDNS_stops buffer reader
    refine ⟨r,hr,fun t ht => ?_⟩
    obtain ⟨hlen,hz⟩ := hname t ht
    refine ⟨hlen,hz,?_⟩
    rw [← hlen,nameText]
    refine Nat.lt_of_le_of_ne (takeWhile_sublist _).length_le fun heq => ?_
    have hall := (takeWhile_sublist _).eq_of_length heq
    have := takeWhile_eq_self_iff.mp hall 0 hz
    simp at this
  · intro labels hne hlab hlen
    obtain ⟨henc,hwire⟩ := nameToDNS_host hne hlab hlen
    have hname := nameAt_wire [] [] fun l hl => .ofHost (hlab l hl)
    rw [henc]
    simpa using nameFromDNS_name hname hwire (by simp only [MAXNAMELEN] at *; omega) (Nat.zero_le _)

theorem dns_name_decoded_sample :
    ∃ name, nameFromDNS (nameToDNS MAXNAMELEN [0x61,0x62,0x2E,0x63,0x2E,0]) 0 = some (some (name,6)) ∧
      nameText name = [0x61,0x62,0x2E,0x63] :=
  dns_name_decoded.2 [[0x61,0x62],[0x63]] (by decide) (by decide) (by decide)

end Lorentz
