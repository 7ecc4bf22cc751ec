import Lorentz.Library.Bits

/-!
`deflate_buffer` and `inflate_buffer`, which rewrite one buffer in place, and the two readers of a
tar archive. Every access is checked against the size of the buffer, every difference of sizes
against underflow; a read outside and a loop that is not through are `none`.
-/

set_option autoImplicit false

namespace Lorentz
open List

def GZIP_HEADER_SIZE : Nat := 10
def GZIP_FOOTER_SIZE : Nat := 8

/-- What `miniz` provides; `decode` reads one deflate stream and gives the inflated bytes and how
many it consumed. -/
structure Codec where
  compress : List UInt8 → List UInt8
  decode : List UInt8 → Option (List UInt8 × Nat)
  crc32 : List UInt8 → UInt32

/-- `outside` is an access outside the buffer; the others are the refusals in the order of
their messages. -/
inductive GzipError where
  | outside | notGzip | algorithm | headerCrc | invalidHeader | nameOverrun | nameMissing
  | commentOverrun | commentMissing | emptyOrLarge | uncompress | checksum
  deriving DecidableEq

abbrev Gzip := Except GzipError

def byteAt (b : List UInt8) (i : Nat) : Gzip UInt8 :=
  match b[i]? with
  | some c => .ok c
  | none => .error .outside

def minus (n m : Nat) : Gzip Nat := if m ≤ n then .ok (n-m) else .error .outside

def moveBytes (b : List UInt8) (dst src n : Nat) : Gzip (List UInt8) :=
  if src+n ≤ b.length ∧ dst+n ≤ b.length then
    .ok (b.take dst ++ ((b.drop src).take n ++ b.drop (dst+n)))
  else .error .outside

def storeBytes (b : List UInt8) (dst : Nat) (xs : List UInt8) : Gzip (List UInt8) :=
  if dst+xs.length ≤ b.length then .ok (b.take dst ++ (xs ++ b.drop (dst+xs.length)))
  else .error .outside

def leBytes : Nat → Nat → List UInt8
  | 0, _ => []
  | k+1, n => UInt8.ofNat n :: leBytes k (n/256)

def leNat : List UInt8 → Nat
  | [] => 0
  | c :: cs => c.toNat+256*leNat cs

def readLE (b : List UInt8) : Nat → Nat → Gzip Nat
  | _, 0 => .ok 0
  | p, k+1 => do
    let lo ← byteAt b p
    let hi ← readLE b (p+1) k
    .ok (lo.toNat+256*hi)

def compressBound (n : Nat) : Nat := max (128+n*110/100) (128+n+(n/(31*1024)+1)*5)

def gzipHeader : List UInt8 := [0x1F,0x8B,0x08,0x01,0x00,0x00,0x00,0x00,0x02,0x03]

/-- `junk` is what the memory of the new buffer holds. -/
def deflateBuffer (D : Codec) (now : Nat) (junk s : List UInt8) : Gzip (List UInt8) := do
  let b ← storeBytes junk 0 (D.compress s)
  let size := (D.compress s).length
  let b ← moveBytes b 0 2 size
  let size ← minus size (2+4)
  let b ← moveBytes b GZIP_HEADER_SIZE 0 size
  let b ← storeBytes b 0 gzipHeader
  let size := size+GZIP_HEADER_SIZE
  let b ← storeBytes b 4 (leBytes 4 now)
  let b ← storeBytes b size (leBytes 4 (D.crc32 s).toNat)
  let size := size+4
  let b ← storeBytes b size (leBytes 4 s.length)
  let size := size+4
  .ok (b.take size)

def skipExtra (b : List UInt8) (size : Nat) : Gzip (List UInt8 × Nat) := do
  let flags ← byteAt b 3
  if flags &&& 0x04 ≠ 0 then
    let xlen ← readLE b GZIP_HEADER_SIZE 2
    let extraOffset := GZIP_HEADER_SIZE+2
    if size < extraOffset+xlen+GZIP_FOOTER_SIZE then .error .invalidHeader
    else
      let n ← minus size (extraOffset+xlen)
      let b ← moveBytes b GZIP_HEADER_SIZE (extraOffset+xlen) n
      let size ← minus size (2+xlen)
      .ok (b,size)
  else .ok (b,size)

def textEnd (b : List UInt8) (stop : Nat) : Nat → Nat → Gzip Nat
  | 0, _ => .error .outside
  | n+1, i =>
    if i < stop then do
      let c ← byteAt b i
      if c ≠ 0 then textEnd b stop n (i+1) else .ok i
    else .ok i

def skipText (mask : UInt8) (overrun missing : GzipError) (b : List UInt8) (size : Nat) :
    Gzip (List UInt8 × Nat) := do
  let flags ← byteAt b 3
  if flags &&& mask ≠ 0 then
    let stop ← minus size GZIP_FOOTER_SIZE
    if GZIP_HEADER_SIZE ≥ stop then .error overrun
    else
      let i ← textEnd b stop (size+1) GZIP_HEADER_SIZE
      if i = stop then .error missing
      else
        let n ← minus size (i+1)
        let b ← moveBytes b GZIP_HEADER_SIZE (i+1) n
        let size ← minus size (i+1-GZIP_HEADER_SIZE)
        .ok (b,size)
  else .ok (b,size)

def skipName := skipText 0x08 .nameOverrun .nameMissing
def skipComment := skipText 0x10 .commentOverrun .commentMissing

def mzUncompress2Raw (D : Codec) (raw : List UInt8) (room : Nat) : Option (List UInt8) :=
  if raw.length > 0xFFFFFFFF ∨ room > 0xFFFFFFFF then none
  else
    match D.decode raw with
    | some (out,_) => if out.length ≤ room then some out else none
    | none => none

def inflateBody (D : Codec) (b : List UInt8) (size : Nat) : Gzip (List UInt8) := do
  let at4 ← minus size 4
  let room ← readLE b at4 4
  if room = 0 ∨ room > 0x10000000 then .error .emptyOrLarge
  else
    let n ← minus size GZIP_HEADER_SIZE
    let b ← moveBytes b 0 GZIP_HEADER_SIZE n
    let size := n
    let at8 ← minus size GZIP_FOOTER_SIZE
    let crc ← readLE b at8 4
    let size := at8
    if size > b.length then .error .outside
    else
      match mzUncompress2Raw D (b.take size) room with
      | none => .error .uncompress
      | some out => if crc ≠ (D.crc32 out).toNat then .error .checksum else .ok out

def inflateBuffer (D : Codec) (b : List UInt8) : Gzip (List UInt8) := do
  if b.length < GZIP_HEADER_SIZE+GZIP_FOOTER_SIZE then .error .notGzip
  else
    let id1 ← byteAt b 0
    let id2 ← byteAt b 1
    if id1 ≠ 0x1F ∨ id2 ≠ 0x8B then .error .notGzip
    else
      let cm ← byteAt b 2
      if cm ≠ 0x08 then .error .algorithm
      else
        let flags ← byteAt b 3
        if flags &&& 0x02 ≠ 0 then .error .headerCrc
        else
          let (b,size) ← skipExtra b b.length
          let (b,size) ← skipName b size
          let (b,size) ← skipComment b size
          inflateBody D b size

/-- The header of a member as RFC 1952 has it, without the header CRC. -/
structure GzipHeader where
  flags : UInt8
  times : List UInt8
  extra : List UInt8
  name : List UInt8
  comment : List UInt8

namespace GzipHeader

def fields (h : GzipHeader) : List UInt8 :=
  (if h.flags &&& 0x04 ≠ 0 then leBytes 2 h.extra.length ++ h.extra else []) ++
  ((if h.flags &&& 0x08 ≠ 0 then h.name ++ [0] else []) ++
  (if h.flags &&& 0x10 ≠ 0 then h.comment ++ [0] else []))

def bytes (h : GzipHeader) : List UInt8 := [0x1F,0x8B,0x08,h.flags] ++ h.times ++ h.fields

/-- MTIME, XFL and OS are six bytes, the extra field has a length of two, texts end at their
first NUL and there is no header CRC. -/
def WellFormed (h : GzipHeader) : Prop :=
  h.times.length = 6 ∧ h.extra.length < 2^16 ∧ 0 ∉ h.name ∧ 0 ∉ h.comment ∧ h.flags &&& 0x02 = 0

end GzipHeader

/-- `b` is a gzip member for `out`: the inflation of all the bytes between header and trailer,
with the CRC and length of the trailer. -/
def IsMember (D : Codec) (b out : List UInt8) : Prop :=
  ∃ (h : GzipHeader) (body : List UInt8), h.WellFormed ∧ h.flags &&& 0xE0 = 0 ∧
    b = h.bytes ++ (body ++ (leBytes 4 (D.crc32 out).toNat ++ leBytes 4 out.length)) ∧
    D.decode body = some (out,body.length)

@[simp] theorem leBytes_length (k n : Nat) : (leBytes k n).length = k := by
  induction k generalizing n with
  | zero => rfl
  | succ k ih => simp [leBytes,ih]

theorem leNat_leBytes (k n : Nat) : leNat (leBytes k n) = n%256^k := by
  induction k generalizing n with
  | zero => simp [leBytes,leNat,Nat.mod_one]
  | succ k ih =>
    have hlow : (UInt8.ofNat n).toNat = n%256 := UInt8.toNat_ofNat'
    rw [leBytes,leNat,ih,hlow,Nat.pow_succ',Nat.mod_mul]

theorem leBytes_leNat (xs : List UInt8) : leBytes xs.length (leNat xs) = xs := by
  induction xs with
  | nil => rfl
  | cons c xs ih =>
    have hlow : UInt8.ofNat (c.toNat+256*leNat xs) = c := by
      rw [← UInt8.toNat_inj,UInt8.toNat_ofNat']
      have := c.toNat_lt
      omega
    have hhigh : (c.toNat+256*leNat xs)/256 = leNat xs := by
      have := c.toNat_lt
      omega
    rw [length_cons,leNat,leBytes,hlow,hhigh,ih]

theorem leNat_lt (xs : List UInt8) : leNat xs < 256^xs.length := by
  have := leNat_leBytes xs.length (leNat xs)
  rw [leBytes_leNat] at this
  rw [this]
  exact Nat.mod_lt _ (Nat.pow_pos (by decide))

variable {b raw out body crc isize s : List UInt8} {D : Codec} {h : GzipHeader} {n : Nat}

theorem byteAt_eq {i : Nat} {c : UInt8} (h : b[i]? = some c) : byteAt b i = .ok c := by
  rw [byteAt,h]

theorem readLE_eq (u xs v : List UInt8) :
    readLE (u ++ (xs ++ v)) u.length xs.length = .ok (leNat xs) := by
  induction xs generalizing u with
  | nil => rfl
  | cons c xs ih =>
    have hc : byteAt (u ++ (c :: xs ++ v)) u.length = .ok c := byteAt_eq (by simp)
    have hrest := ih (u ++ [c])
    rw [append_assoc,length_append] at hrest
    rw [length_cons,readLE,hc]
    rw [show u ++ (c :: xs ++ v) = u ++ ([c] ++ (xs ++ v)) by simp]
    simp only [length_singleton] at hrest
    rw [hrest]
    rfl

/-- The buffer starts with the ten bytes `pre` and the rest `r` of the member; what follows does
not matter. -/
structure Held (pre r b : List UInt8) (size : Nat) : Prop where
  pre_length : pre.length = GZIP_HEADER_SIZE
  size_eq : size = GZIP_HEADER_SIZE+r.length
  room : GZIP_FOOTER_SIZE ≤ r.length
  holds : ∃ junk, b = pre ++ (r ++ junk)

section

variable {pre r b : List UInt8} {size : Nat} {flags : UInt8}

theorem Held.flags_eq (h : Held pre r b size) (hf : pre[3]? = some flags) :
    byteAt b 3 = .ok flags := by
  obtain ⟨junk,rfl⟩ := h.holds
  have hlen := h.pre_length
  refine byteAt_eq ?_
  rw [getElem?_append_left (by rw [hlen]; decide),hf]

theorem Held.remove (h : Held pre r b size) {k : Nat} (hk : k+GZIP_FOOTER_SIZE ≤ r.length) :
    minus size (GZIP_HEADER_SIZE+k) = .ok (r.length-k) ∧
    ∃ b', moveBytes b GZIP_HEADER_SIZE (GZIP_HEADER_SIZE+k) (r.length-k) = .ok b' ∧
      minus size k = .ok (size-k) ∧ Held pre (r.drop k) b' (size-k) := by
  obtain ⟨junk,rfl⟩ := h.holds
  obtain ⟨hpre,hsize,hroom⟩ := h
  have hb : (pre ++ (r ++ junk)).length = GZIP_HEADER_SIZE+r.length+junk.length := by
    simp [hpre,Nat.add_assoc]
  refine ⟨?_,_,if_pos ?_,if_pos (by omega),hpre,?_,?_,(pre ++ (r ++ junk)).drop
    (GZIP_HEADER_SIZE+(r.length-k)),?_⟩
  · rw [minus,if_pos (by omega)]
    congr 1
    omega
  · omega
  · simp only [length_drop]
    omega
  · simp only [length_drop]
    omega
  · rw [take_append_of_le_length (by omega),take_of_length_le (by omega),
      ← hpre,← drop_drop,drop_left,drop_append_of_le_length (by omega),
      take_append_of_le_length (by simp),take_of_length_le (by simp)]

theorem skipExtra_held (h : Held pre r b size) (hf : pre[3]? = some flags) :
    skipExtra b size = .error .invalidHeader ∨
    ∃ b' size' x r', skipExtra b size = .ok (b',size') ∧ Held pre r' b' size' ∧ x.length < 2^16 ∧
      r = (if flags &&& 0x04 ≠ 0 then leBytes 2 x.length ++ x else []) ++ r' := by
  rw [skipExtra,h.flags_eq hf]
  simp only [bind,Except.bind]
  by_cases hflag : flags &&& 0x04 ≠ 0
  · obtain ⟨lo,hi,rest,rfl⟩ : ∃ lo hi rest, r = lo :: hi :: rest := by
      match r,h.room with
      | lo :: hi :: rest, _ => exact ⟨lo,hi,rest,rfl⟩
    have hread : readLE b GZIP_HEADER_SIZE 2 = .ok (leNat [lo,hi]) := by
      obtain ⟨junk,rfl⟩ := h.holds
      rw [← h.pre_length]
      exact readLE_eq pre [lo,hi] (rest ++ junk)
    have hx : leNat [lo,hi] < 2^16 := Nat.lt_of_lt_of_eq (leNat_lt [lo,hi]) (by simp)
    generalize hxlen : leNat [lo,hi] = xlen at hread hx
    simp only [if_pos hflag,hread]
    have hsize := h.size_eq
    by_cases hroom : size < GZIP_HEADER_SIZE+2+xlen+GZIP_FOOTER_SIZE
    · exact .inl (if_pos hroom)
    right
    have hk : 2+xlen+GZIP_FOOTER_SIZE ≤ (lo :: hi :: rest).length := by omega
    obtain ⟨hn,b',hmove,hminus,hheld⟩ := h.remove hk
    rw [← Nat.add_assoc] at hn hmove
    have htake : (rest.take xlen).length = xlen := by
      simp only [length_take,length_cons] at hk ⊢
      omega
    have hdrop : (lo :: hi :: rest).drop (2+xlen) = rest.drop xlen := by
      rw [Nat.add_comm 2 xlen]
      rfl
    rw [hdrop] at hheld
    refine ⟨b',size-(2+xlen),rest.take xlen,rest.drop xlen,?_,hheld,?_,?_⟩
    · simp only [if_neg hroom,hn,hmove,hminus]
    · omega
    have hle : leBytes 2 xlen = [lo,hi] := by
      rw [← hxlen]
      exact leBytes_leNat [lo,hi]
    simp only [htake,hle]
    simp
  · exact .inr ⟨b,size,[],r,if_neg hflag,h,by simp,by rw [if_neg hflag]; rfl⟩

theorem textEnd_eq (u t v : List UInt8) {n : Nat} (hn : t.length < n) :
    textEnd (u ++ (t ++ v)) (u.length+t.length) n u.length =
      .ok (u.length+(t.takeWhile (fun c => c ≠ 0)).length) := by
  induction t generalizing u n with
  | nil =>
    cases n with
    | zero => omega
    | succ n => simp [textEnd]
  | cons c t ih =>
    cases n with
    | zero => omega
    | succ n =>
      rw [length_cons] at hn ⊢
      have hc : byteAt (u ++ (c :: t ++ v)) u.length = .ok c := byteAt_eq (by simp)
      rw [textEnd,if_pos (by omega),hc]
      simp only [bind,Except.bind]
      by_cases h0 : c = 0
      · simp [h0]
      have hrest := ih (u ++ [c]) (n := n) (by omega)
      simp only [append_assoc,length_append,length_singleton,
        cons_append,nil_append] at hrest
      rw [if_pos h0,takeWhile_cons_of_pos (by simpa using h0),length_cons,
        cons_append,show u.length+(t.length+1) = u.length+1+t.length by omega,hrest]
      congr 1
      omega

theorem skipText_held (mask : UInt8) (overrun missing : GzipError) (h : Held pre r b size)
    (hf : pre[3]? = some flags) :
    skipText mask overrun missing b size = .error overrun ∨
    skipText mask overrun missing b size = .error missing ∨
    ∃ b' size' t r', skipText mask overrun missing b size = .ok (b',size') ∧
      Held pre r' b' size' ∧ 0 ∉ t ∧ r = (if flags &&& mask ≠ 0 then t ++ [0] else []) ++ r' := by
  rw [skipText,h.flags_eq hf]
  simp only [bind,Except.bind]
  by_cases hflag : flags &&& mask ≠ 0
  · have hsize := h.size_eq
    have hroom := h.room
    have hstop : minus size GZIP_FOOTER_SIZE = .ok (size-GZIP_FOOTER_SIZE) := if_pos (by omega)
    simp only [if_pos hflag,hstop]
    by_cases hover : GZIP_HEADER_SIZE ≥ size-GZIP_FOOTER_SIZE
    · exact .inl (if_pos hover)
    right
    -- the text is looked for in front of the trailer
    obtain ⟨t,last,rfl,hlast⟩ : ∃ t last, r = t ++ last ∧ last.length = GZIP_FOOTER_SIZE :=
      ⟨r.take (r.length-GZIP_FOOTER_SIZE),r.drop (r.length-GZIP_FOOTER_SIZE),
        (take_append_drop ..).symm,by simp only [length_drop]; omega⟩
    have hstop' : size-GZIP_FOOTER_SIZE = pre.length+t.length := by
      rw [hsize,h.pre_length,length_append,hlast]
      omega
    have hend : textEnd b (size-GZIP_FOOTER_SIZE) (size+1) GZIP_HEADER_SIZE =
        .ok (pre.length+(t.takeWhile (fun c => c ≠ 0)).length) := by
      obtain ⟨junk,rfl⟩ := h.holds
      rw [hstop',← h.pre_length,append_assoc t]
      refine textEnd_eq pre t (last ++ junk) ?_
      omega
    have hsplit := takeWhile_append_dropWhile (p := fun c : UInt8 => c ≠ 0) (l := t)
    have htext : (0 : UInt8) ∉ t.takeWhile (fun c => c ≠ 0) := by
      intro h0
      simpa using mem_takeWhile_imp h0
    generalize t.takeWhile (fun c => c ≠ 0) = text at hend hsplit htext
    simp only [if_neg hover,hend]
    cases hd : t.dropWhile (fun c => c ≠ 0) with
    | nil =>
      rw [hd,append_nil] at hsplit
      exact .inl (if_pos (by rw [hstop',hsplit]))
    | cons z rest =>
      have hz : z = 0 := by
        have := head?_dropWhile_not (fun c : UInt8 => c ≠ 0) t
        rw [hd] at this
        simpa using this
      rw [hd,hz] at hsplit
      right
      have hne : ¬ pre.length+text.length = size-GZIP_FOOTER_SIZE := by
        rw [hstop',← hsplit]
        simp
      have hk : text.length+1+GZIP_FOOTER_SIZE ≤ (t ++ last).length := by
        rw [← hsplit]
        simp only [length_append,length_cons]
        omega
      obtain ⟨hn,b',hmove,hminus,hheld⟩ := h.remove hk
      have hpre := h.pre_length
      have hi : GZIP_HEADER_SIZE+(text.length+1) = pre.length+text.length+1 := by omega
      rw [hi] at hn hmove
      have hi' : pre.length+text.length+1-GZIP_HEADER_SIZE = text.length+1 := by omega
      have hdrop : (t ++ last).drop (text.length+1) = rest ++ last := by
        rw [← hsplit]
        simp [drop_append]
      rw [hdrop] at hheld
      refine ⟨b',size-(text.length+1),text,rest ++ last,?_,hheld,htext,?_⟩
      · simp only [if_neg hne,hn,hmove,hi',hminus]
      · rw [← hsplit]
        simp
  · exact .inr (.inr ⟨b,size,[],r,if_neg hflag,h,by simp,by rw [if_neg hflag]; rfl⟩)

theorem inflateBody_held (D : Codec) {body crc isize : List UInt8}
    (h : Held pre (body ++ (crc ++ isize)) b size) (hc : crc.length = 4) (hi : isize.length = 4) :
    inflateBody D b size =
      if leNat isize = 0 ∨ leNat isize > 0x10000000 then .error .emptyOrLarge
      else match mzUncompress2Raw D body (leNat isize) with
        | none => .error .uncompress
        | some out => if leNat crc ≠ (D.crc32 out).toNat then .error .checksum else .ok out := by
  obtain ⟨junk,rfl⟩ := h.holds
  obtain ⟨hpre,hsize,-⟩ := h
  simp only [length_append,hc,hi,GZIP_HEADER_SIZE] at hpre hsize
  have h4 : minus size 4 = .ok (pre ++ (body ++ crc)).length := by
    rw [minus,if_pos (by omega)]
    congr 1
    simp only [length_append]
    omega
  have hread := readLE_eq (pre ++ (body ++ crc)) isize junk
  have hn : minus size GZIP_HEADER_SIZE = .ok (body.length+8) := by
    rw [minus,if_pos (by simp only [GZIP_HEADER_SIZE]; omega)]
    congr 1
    simp only [GZIP_HEADER_SIZE]
    omega
  have hmove : ∃ rest, moveBytes (pre ++ (body ++ (crc ++ isize) ++ junk)) 0 GZIP_HEADER_SIZE
      (body.length+8) = .ok (body ++ (crc ++ rest)) := by
    rw [moveBytes,if_pos (by simp only [GZIP_HEADER_SIZE,length_append]; omega)]
    refine ⟨isize ++ (pre ++ (body ++ (crc ++ isize) ++ junk)).drop (0+(body.length+8)),?_⟩
    have hlen : body.length+8 = (body ++ (crc ++ isize)).length := by simp [hc,hi]
    rw [GZIP_HEADER_SIZE,← hpre,drop_left,take_zero,hlen,take_left]
    simp
  obtain ⟨rest,hmove⟩ := hmove
  have h8 : minus (body.length+8) GZIP_FOOTER_SIZE = .ok body.length := by
    rw [minus,if_pos (by simp only [GZIP_FOOTER_SIZE]; omega)]
    rfl
  have hcrc := readLE_eq body crc rest
  have hfit : ¬ body.length > (body ++ (crc ++ rest)).length := by simp
  have hraw : (body ++ (crc ++ rest)).take body.length = body := take_left
  have hshape : pre ++ (body ++ (crc ++ isize) ++ junk) = pre ++ (body ++ crc) ++
    (isize ++ junk) := by
    simp
  rw [hi] at hread
  rw [hc] at hcrc
  rw [← hshape] at hread
  simp only [inflateBody,bind,Except.bind,h4,hread,hn,hmove,h8,hcrc,if_neg hfit,hraw]

end

theorem mzUncompress2Raw_some {room : Nat} (h : mzUncompress2Raw D raw room = some out) :
    ∃ used, D.decode raw = some (out,used) := by
  rw [mzUncompress2Raw] at h
  split at h
  · cases h
  cases hd : D.decode raw with
  | none => simp [hd] at h
  | some r =>
    rw [hd] at h
    simp only [Option.ite_none_right_eq_some,Option.some.injEq] at h
    exact ⟨r.2,by rw [← h.2]⟩

attribute [local simp] GZIP_HEADER_SIZE

theorem inflateBuffer_cases (D : Codec) (b : List UInt8) :
    (∃ e, e ≠ .outside ∧ inflateBuffer D b = .error e) ∨
    ∃ (h : GzipHeader) (body crc isize out : List UInt8), h.WellFormed ∧
      b = h.bytes ++ (body ++ (crc ++ isize)) ∧ crc.length = 4 ∧ isize.length = 4 ∧
      inflateBuffer D b = .ok out ∧ (∃ used, D.decode body = some (out,used)) ∧
      leNat crc = (D.crc32 out).toNat := by
  by_cases hlen : b.length < GZIP_HEADER_SIZE+GZIP_FOOTER_SIZE
  · exact .inl ⟨.notGzip,by decide,if_pos hlen⟩
  obtain ⟨id1,id2,cm,flags,times,r,rfl,htimes⟩ : ∃ id1 id2 cm flags times r,
      b = [id1,id2,cm,flags] ++ times ++ r ∧ times.length = 6 := by
    match b,hlen with
    | [], hlen | [_], hlen | [_,_], hlen | [_,_,_], hlen => simp [GZIP_FOOTER_SIZE] at hlen
    | id1 :: id2 :: cm :: flags :: rest, hlen =>
      refine ⟨id1,id2,cm,flags,rest.take 6,rest.drop 6,by simp,?_⟩
      simp only [GZIP_HEADER_SIZE,GZIP_FOOTER_SIZE,length_cons,length_take] at hlen ⊢
      omega
  generalize hb : [id1,id2,cm,flags] ++ times ++ r = b at hlen ⊢
  have h0 : byteAt b 0 = .ok id1 := by rw [← hb]; rfl
  have h1 : byteAt b 1 = .ok id2 := by rw [← hb]; rfl
  have h2 : byteAt b 2 = .ok cm := by rw [← hb]; rfl
  have h3 : byteAt b 3 = .ok flags := by rw [← hb]; rfl
  simp only [inflateBuffer,if_neg hlen,bind,Except.bind,h0,h1,h2,h3]
  by_cases hid : id1 ≠ 0x1F ∨ id2 ≠ 0x8B
  · exact .inl ⟨.notGzip,by decide,if_pos hid⟩
  by_cases hcm : cm ≠ 0x08
  · exact .inl ⟨.algorithm,by decide,by simp only [if_neg hid,if_pos hcm]⟩
  by_cases hcrc : flags &&& 0x02 ≠ 0
  · exact .inl ⟨.headerCrc,by decide,by simp only [if_neg hid,if_neg hcm,if_pos hcrc]⟩
  simp only [if_neg hid,if_neg hcm,if_neg hcrc]
  push Not at hid hcm hcrc
  have hpre : ([id1,id2,cm,flags] ++ times).length = GZIP_HEADER_SIZE := by
    simp [htimes]
  have hflags : ([id1,id2,cm,flags] ++ times)[3]? = some flags := rfl
  have hsize : b.length = GZIP_HEADER_SIZE+r.length := by
    rw [← hb,length_append,hpre]
  have hheld : Held ([id1,id2,cm,flags] ++ times) r b b.length :=
    ⟨hpre,hsize,by omega,[],by rw [← hb,append_nil]⟩
  rcases skipExtra_held hheld hflags with hx | ⟨b1,size1,x,r1,hx,hheld1,hxlen,hr⟩
  · exact .inl ⟨.invalidHeader,by decide,by rw [hx]⟩
  simp only [hx]
  rcases skipText_held 0x08 .nameOverrun .nameMissing hheld1 hflags with
    hn | hn | ⟨b2,size2,name,r2,hn,hheld2,hname,hr1⟩
  · exact .inl ⟨.nameOverrun,by decide,by rw [skipName,hn]⟩
  · exact .inl ⟨.nameMissing,by decide,by rw [skipName,hn]⟩
  simp only [skipName,hn]
  rcases skipText_held 0x10 .commentOverrun .commentMissing hheld2 hflags with
    hc | hc | ⟨b3,size3,comment,r3,hc,hheld3,hcomment,hr2⟩
  · exact .inl ⟨.commentOverrun,by decide,by rw [skipComment,hc]⟩
  · exact .inl ⟨.commentMissing,by decide,by rw [skipComment,hc]⟩
  simp only [skipComment,hc]
  -- the trailer is the last eight bytes
  obtain ⟨body,crc,isize,rfl,hc4,hi4⟩ : ∃ body crc isize,
      r3 = body ++ (crc ++ isize) ∧ crc.length = 4 ∧ isize.length = 4 := by
    have hroom := hheld3.room
    rw [GZIP_FOOTER_SIZE] at hroom
    refine ⟨r3.take (r3.length-8),(r3.drop (r3.length-8)).take 4,(r3.drop (r3.length-8)).drop 4,
      by rw [take_append_drop,take_append_drop],?_,?_⟩
    all_goals
      simp only [length_take,length_drop]
      omega
  rw [inflateBody_held D hheld3 hc4 hi4]
  split
  · exact .inl ⟨_,by decide,rfl⟩
  cases hu : mzUncompress2Raw D body (leNat isize) with
  | none => exact .inl ⟨_,by decide,rfl⟩
  | some out =>
    by_cases hsum : leNat crc = (D.crc32 out).toNat
    · right
      refine ⟨⟨flags,times,x,name,comment⟩,body,crc,isize,out,
        ⟨htimes,hxlen,hname,hcomment,hcrc⟩,?_,hc4,hi4,by simp [hsum],mzUncompress2Raw_some hu,hsum⟩
      rw [← hb,hr,hr1,hr2,hid.1,hid.2,hcm]
      simp [GzipHeader.bytes,GzipHeader.fields]
    · exact .inl ⟨.checksum,by decide,by simp [hsum]⟩

def afterExtra (r : List UInt8) : List UInt8 := r.drop (2+leNat (r.take 2))

def afterText (r : List UInt8) : List UInt8 := (r.dropWhile (fun c => c ≠ 0)).drop 1

def afterFields (flags : UInt8) (r : List UInt8) : List UInt8 :=
  let r := if flags &&& 0x04 ≠ 0 then afterExtra r else r
  let r := if flags &&& 0x08 ≠ 0 then afterText r else r
  if flags &&& 0x10 ≠ 0 then afterText r else r

/-- No reserved flag is set, the deflate stream ends at the trailer, and the length in it is that
of the inflation. -/
def exactMember (D : Codec) (b : List UInt8) : Bool :=
  let flags := b.getD 3 0
  let r := afterFields flags (b.drop GZIP_HEADER_SIZE)
  let body := r.take (r.length-GZIP_FOOTER_SIZE)
  flags &&& 0xE0 == 0 &&
  match D.decode body with
  | some (out,used) => used == body.length && r.drop (r.length-4) == leBytes 4 out.length
  | none => false

theorem afterText_eq {t : List UInt8} (h : 0 ∉ t) (r : List UInt8) :
    afterText (t ++ [0] ++ r) = r := by
  rw [afterText,append_assoc,dropWhile_append_of_pos]
  · simp
  · intro c hc
    simpa using ne_of_mem_of_not_mem hc h

theorem afterExtra_eq {x : List UInt8} (h : x.length < 2^16) (r : List UInt8) :
    afterExtra (leBytes 2 x.length ++ x ++ r) = r := by
  have htake : (leBytes 2 x.length ++ x ++ r).take 2 = leBytes 2 x.length := by
    exact take_left' (leBytes_length ..)
  have hnat : leNat (leBytes 2 x.length) = x.length := by
    rw [leNat_leBytes]
    exact Nat.mod_eq_of_lt h
  rw [afterExtra,htake,hnat]
  exact drop_left' (by simp)

theorem afterFields_eq (hw : h.WellFormed) (r : List UInt8) :
    afterFields h.flags (h.fields ++ r) = r := by
  obtain ⟨-,hx,hn,hc,-⟩ := hw
  rw [GzipHeader.fields,afterFields]
  by_cases h4 : h.flags &&& 0x04 = 0 <;> by_cases h8 : h.flags &&& 0x08 = 0 <;>
    by_cases h16 : h.flags &&& 0x10 = 0
  all_goals simp only [h4,h8,h16,ne_eq,not_true_eq_false,not_false_eq_true,if_true,if_false,
    nil_append,append_nil]
  all_goals simp only [append_assoc (_ ++ _) _ r,afterExtra_eq hx,afterText_eq hn,afterText_eq hc]

theorem exactMember_eq (D : Codec) (hw : h.WellFormed) (hc : crc.length = 4)
    (hi : isize.length = 4) :
    exactMember D (h.bytes ++ (body ++ (crc ++ isize))) = true ↔ h.flags &&& 0xE0 = 0 ∧
      ∃ out, D.decode body = some (out,body.length) ∧ isize = leBytes 4 out.length := by
  have hflags : (h.bytes ++ (body ++ (crc ++ isize))).getD 3 0 = h.flags := rfl
  have hdrop : (h.bytes ++ (body ++ (crc ++ isize))).drop GZIP_HEADER_SIZE =
      h.fields ++ (body ++ (crc ++ isize)) := by
    rw [GzipHeader.bytes,append_assoc]
    exact drop_left' (by simp [hw.1])
  have hbody : (body ++ (crc ++ isize)).take ((body ++ (crc ++ isize)).length-GZIP_FOOTER_SIZE) =
      body := take_left' (by simp [hc,hi,GZIP_FOOTER_SIZE])
  have hlast : (body ++ (crc ++ isize)).drop ((body ++ (crc ++ isize)).length-4) = isize := by
    rw [← append_assoc]
    exact drop_left' (by simp [hc,hi])
  simp only [exactMember,hflags,hdrop,afterFields_eq hw,hbody,hlast,Bool.and_eq_true,beq_iff_eq]
  refine and_congr_right fun _ => ?_
  cases D.decode body with
  | none => simp
  | some r => obtain ⟨out,used⟩ := r; simp

theorem isMember_iff (hout : inflateBuffer D b = .ok out) : IsMember D b out ↔ exactMember D b := by
  rcases inflateBuffer_cases D b with ⟨e,he,hb⟩ | ⟨h,body,crc,isize,out',hw,hb,hc,hi,hok,hdec,hsum⟩
  · rw [hb] at hout
    cases hout
  rw [hok] at hout
  cases hout
  constructor
  · rintro ⟨h',body',hw',hres,hb',hdec'⟩
    rw [hb',exactMember_eq D hw' (leBytes_length ..) (leBytes_length ..)]
    exact ⟨hres,out,hdec',rfl⟩
  rw [hb]
  intro hexact
  obtain ⟨hres,out',hdec',hlen⟩ := (exactMember_eq D hw hc hi).mp hexact
  obtain ⟨used,hdec⟩ := hdec
  rw [hdec] at hdec'
  obtain ⟨rfl,rfl⟩ : out = out' ∧ used = body.length := by simpa using hdec'
  refine ⟨h,body,hw,hres,?_,hdec⟩
  have hcrc := leBytes_leNat crc
  rw [hc] at hcrc
  rw [← hlen,← hsum,hcrc]

/-- The compressor on no input and on `A`, which it stores, and the decoder on these and on `A` in
a block with fixed codes. -/
def sampleCodec : Codec where
  compress s := if s = [] then [0x78,0xDA,0x03,0x00,0x00,0x00,0x00,0x01]
    else [0x78,0xDA,0x01,0x01,0x00,0xFE,0xFF,0x41,0x00,0x42,0x00,0x42]
  decode raw := if raw.take 2 = [0x03,0x00] then some ([],2)
    else if raw.take 3 = [0x73,0x04,0x00] then some ([0x41],3)
    else if raw.take 6 = [0x01,0x01,0x00,0xFE,0xFF,0x41] then some ([0x41],6) else none
  crc32 s := if s = [] then 0 else 0xD3D99E8B

/-- `inflate_buffer` stays inside the buffer, and what it accepts is a gzip member for what it
returns exactly if `exactMember` holds. -/
theorem gzip_input_exact (D : Codec) (b : List UInt8) :
    inflateBuffer D b ≠ .error .outside ∧
    ∀ out, inflateBuffer D b = .ok out → (IsMember D b out ↔ exactMember D b) := by
  refine ⟨?_,fun out hout => isMember_iff hout⟩
  rcases inflateBuffer_cases D b with ⟨e,he,hb⟩ | ⟨_,_,_,_,out,_,_,_,_,hok,_⟩
  · rw [hb]
    simpa using he
  · rw [hok]
    simp

theorem gzip_input_exact_sample :
    let b := [0x1F,0x8B,0x08,0x08,0,0,0,0,0x02,0x03,0x61,0x00,0x73,0x04,0x00,
      0x8B,0x9E,0xD9,0xD3,0x01,0,0,0]
    IsMember sampleCodec b [0x41] :=
  ((gzip_input_exact sampleCodec _).2 _ (by decide)).mpr (by decide)

theorem gzip_input_exact_fail :
    let b := [0x1F,0x8B,0x08,0x80,0,0,0,0,0x02,0x03,0x73,0x04,0x00,0xAA,0xBB,
      0x8B,0x9E,0xD9,0xD3,0x05,0,0,0]
    inflateBuffer sampleCodec b = .ok [0x41] ∧ ¬ IsMember sampleCodec b [0x41] := by
  intro b
  have hok : inflateBuffer sampleCodec b = .ok [0x41] := by decide
  refine ⟨hok,fun h => ?_⟩
  have := (isMember_iff hok).mp h
  revert this
  decide

theorem storeBytes_eq (a old q xs : List UInt8) (h : xs.length = old.length) :
    storeBytes (a ++ (old ++ q)) a.length xs = .ok (a ++ (xs ++ q)) := by
  rw [storeBytes,if_pos (by simp [h]),take_left,h,← append_assoc a old q,
    drop_left' (by simp)]

/-- Assumed of the compressor: a zlib stream of at most `compressBound` bytes whose raw part
inflates to the input. -/
def Codec.Compresses (D : Codec) (s : List UInt8) (raw : List UInt8) : Prop :=
  (∃ head tail, D.compress s = head ++ (raw ++ tail) ∧ head.length = 2 ∧ tail.length = 4) ∧
  (D.compress s).length ≤ compressBound s.length ∧ ∃ used, D.decode raw = some (s,used)

theorem split_at {l : List UInt8} (h : n ≤ l.length) : ∃ a b, l = a ++ b ∧ a.length = n :=
  ⟨l.take n,l.drop n,(take_append_drop n l).symm,by simp [h]⟩

theorem deflateBuffer_eq (D : Codec) (now : Nat) (raw : List UInt8) {junk : List UInt8}
    (h : D.Compresses s raw) (hjunk : junk.length = compressBound s.length+14) :
    deflateBuffer D now junk s = .ok ([0x1F,0x8B,0x08,0x01] ++ leBytes 4 now ++ [0x02,0x03] ++
      (raw ++ (leBytes 4 (D.crc32 s).toNat ++ leBytes 4 s.length))) := by
  obtain ⟨⟨head,tail,hcomp,hhead,htail⟩,hbound,-⟩ := h
  have hsize : (D.compress s).length = 2+raw.length+4 := by
    rw [hcomp]
    simp [hhead,htail,Nat.add_assoc]
  obtain ⟨old,free,rfl,hold⟩ := split_at (l := junk) (n := (D.compress s).length) (by omega)
  rw [length_append,hold] at hjunk
  have hstore := storeBytes_eq [] old free (D.compress s) hold.symm
  simp only [nil_append,length_nil] at hstore
  -- the stream moves to the left, and two bytes of the buffer come with it
  obtain ⟨rest,hmove,hrest⟩ : ∃ rest, moveBytes (D.compress s ++ free) 0 2 (D.compress s).length =
      .ok (raw ++ rest) ∧ 18 ≤ rest.length := by
    refine ⟨tail ++ free.take 2 ++ free,?_,by simp [htail]; omega⟩
    rw [moveBytes,if_pos (by simp; omega),Nat.zero_add,drop_left,hsize]
    have hdrop : (D.compress s ++ free).drop 2 = raw ++ (tail ++ free) := by
      rw [hcomp,append_assoc]
      simpa using drop_left' hhead
    have htake : (raw ++ (tail ++ free)).take (2+raw.length+4) = raw ++ (tail ++ free.take 2) := by
      rw [take_append,take_append,take_of_length_le (by omega),
        take_of_length_le (by omega)]
      congr 3
      omega
    rw [hdrop,htake]
    simp
  have hminus : minus (D.compress s).length (2+4) = .ok raw.length := by
    rw [minus,if_pos (by omega),hsize]
    congr 1
    omega
  obtain ⟨start,more,hstart,hten⟩ := split_at (l := raw ++ rest) (n := 10) (by simp; omega)
  obtain ⟨c4,more',hmore,hc4⟩ := split_at (l := (raw ++ rest).drop (10+raw.length)) (n := 4)
    (by simp; omega)
  obtain ⟨i4,last,rfl,hi4⟩ := split_at (l := more') (n := 4) (by
    have := congrArg List.length hmore
    simp at this
    omega)
  have hright : moveBytes (raw ++ rest) 10 0 raw.length =
      .ok (start ++ (raw ++ (c4 ++ (i4 ++ last)))) := by
    rw [moveBytes,if_pos (by simp; omega),drop_zero,take_left,hmore,hstart,
      take_left' hten]
  have hhdr : storeBytes (start ++ (raw ++ (c4 ++ (i4 ++ last)))) 0 gzipHeader =
      .ok (gzipHeader ++ (raw ++ (c4 ++ (i4 ++ last)))) :=
    storeBytes_eq [] start (raw ++ (c4 ++ (i4 ++ last))) gzipHeader hten.symm
  generalize hhead' : [0x1F,0x8B,0x08,0x01] ++ leBytes 4 now ++ [0x02,0x03] = header
  have hlen10 : header.length = 10 := by simp [← hhead']
  have htime : storeBytes (gzipHeader ++ (raw ++ (c4 ++ (i4 ++ last)))) 4 (leBytes 4 now) =
      .ok (header ++ (raw ++ (c4 ++ (i4 ++ last)))) := by
    rw [← hhead']
    simpa [gzipHeader] using storeBytes_eq [0x1F,0x8B,0x08,0x01] [0x00,0x00,0x00,0x00]
      (0x02 :: 0x03 :: (raw ++ (c4 ++ (i4 ++ last)))) (leBytes 4 now) (by simp)
  generalize hsum : leBytes 4 (D.crc32 s).toNat = crc
  have hcrc4 : crc.length = 4 := by simp [← hsum]
  have hcrc : storeBytes (header ++ (raw ++ (c4 ++ (i4 ++ last)))) (raw.length+10) crc =
      .ok (header ++ (raw ++ (crc ++ (i4 ++ last)))) := by
    have := storeBytes_eq (header ++ raw) c4 (i4 ++ last) crc (by rw [hcrc4,hc4])
    rwa [append_assoc,append_assoc,length_append,hlen10,Nat.add_comm] at this
  have hlen : storeBytes (header ++ (raw ++ (crc ++ (i4 ++ last)))) (raw.length+10+4)
      (leBytes 4 s.length) = .ok (header ++ (raw ++ (crc ++ (leBytes 4 s.length ++ last)))) := by
    have := storeBytes_eq (header ++ (raw ++ crc)) i4 last (leBytes 4 s.length) (by simp [hi4])
    simp only [append_assoc,length_append,hlen10,hcrc4] at this
    rwa [show 10+(raw.length+4) = raw.length+10+4 by omega] at this
  have htake : (header ++ (raw ++ (crc ++ (leBytes 4 s.length ++ last)))).take (raw.length+10+4+4) =
      header ++ (raw ++ (crc ++ leBytes 4 s.length)) := by
    have hassoc : header ++ (raw ++ (crc ++ (leBytes 4 s.length ++ last))) =
        header ++ (raw ++ (crc ++ leBytes 4 s.length)) ++ last := by simp
    rw [hassoc]
    refine take_left' ?_
    simp only [length_append,leBytes_length,hlen10,hcrc4]
    omega
  simp only [deflateBuffer,bind,Except.bind,hstore,hmove,hminus,hright,hhdr,htime,
    GZIP_HEADER_SIZE,hsum,hcrc,hlen,htake]

theorem compressBound_le (h : n ≤ 0x10000000) : compressBound n ≤ 0xFFFFFFFF := by
  simp only [compressBound]
  omega

theorem mzUncompress2Raw_eq {used : Nat} (hdec : D.decode raw = some (s,used))
    (hraw : raw.length ≤ 0xFFFFFFFF) (hs : s.length ≤ 0xFFFFFFFF) :
    mzUncompress2Raw D raw s.length = some s := by
  rw [mzUncompress2Raw,if_neg (by omega),hdec]
  simp

theorem inflateBuffer_plain (D : Codec) {times : List UInt8} (ht : times.length = 6)
    (hc : crc.length = 4) (hi : isize.length = 4) :
    inflateBuffer D ([0x1F,0x8B,0x08,0x01] ++ times ++ (body ++ (crc ++ isize))) =
      if leNat isize = 0 ∨ leNat isize > 0x10000000 then .error .emptyOrLarge
      else match mzUncompress2Raw D body (leNat isize) with
        | none => .error .uncompress
        | some out => if leNat crc ≠ (D.crc32 out).toNat then .error .checksum else .ok out := by
  generalize hb : [0x1F,0x8B,0x08,0x01] ++ times ++ (body ++ (crc ++ isize)) = b
  have hlen : b.length = GZIP_HEADER_SIZE+(body ++ (crc ++ isize)).length := by
    rw [← hb]
    simp [ht,Nat.add_comm,Nat.add_left_comm]
  have hroom : GZIP_FOOTER_SIZE ≤ (body ++ (crc ++ isize)).length := by
    simp only [length_append,hc,hi,GZIP_FOOTER_SIZE]
    omega
  have hheld : Held ([0x1F,0x8B,0x08,0x01] ++ times) (body ++ (crc ++ isize)) b b.length :=
    ⟨by simp [ht],hlen,hroom,[],by rw [← hb,append_nil]⟩
  rw [← inflateBody_held D hheld hc hi]
  have h0 : byteAt b 0 = .ok 0x1F := by rw [← hb]; rfl
  have h1 : byteAt b 1 = .ok 0x8B := by rw [← hb]; rfl
  have h2 : byteAt b 2 = .ok 0x08 := by rw [← hb]; rfl
  have h3 : byteAt b 3 = .ok 0x01 := by rw [← hb]; rfl
  have hx : skipExtra b b.length = .ok (b,b.length) := by
    rw [skipExtra,h3]
    rfl
  have hn : skipName b b.length = .ok (b,b.length) := by
    rw [skipName,skipText,h3]
    rfl
  have hm : skipComment b b.length = .ok (b,b.length) := by
    rw [skipComment,skipText,h3]
    rfl
  rw [inflateBuffer,if_neg (by omega),h0,h1,h2,h3]
  simp only [bind,Except.bind,hx,hn,hm]
  rfl

/-- A string of at most 0x10000000 bytes is compressed inside the buffer, and read back exactly if
it is not empty. -/
theorem gzip_round_trip (D : Codec) (now : Nat) (junk s raw : List UInt8)
    (h : D.Compresses s raw) (hjunk : junk.length = compressBound s.length+14)
    (hs : s.length ≤ 0x10000000) :
    ∃ gz, deflateBuffer D now junk s = .ok gz ∧ (inflateBuffer D gz = .ok s ↔ s ≠ []) := by
  refine ⟨_,deflateBuffer_eq D now raw h hjunk,?_⟩
  obtain ⟨⟨head,tail,hcomp,hhead,htail⟩,hbound,used,hdec⟩ := h
  have hraw : raw.length ≤ 0xFFFFFFFF := by
    have := compressBound_le hs
    rw [hcomp] at hbound
    simp only [length_append] at hbound
    omega
  have hsize : leNat (leBytes 4 s.length) = s.length := by
    rw [leNat_leBytes]
    exact Nat.mod_eq_of_lt (by omega)
  have hcrc : leNat (leBytes 4 (D.crc32 s).toNat) = (D.crc32 s).toNat := by
    rw [leNat_leBytes]
    exact Nat.mod_eq_of_lt (D.crc32 s).toNat_lt
  rw [append_assoc [0x1F,0x8B,0x08,0x01],
    inflateBuffer_plain D (by simp) (leBytes_length ..) (leBytes_length ..),hsize]
  by_cases hne : s = []
  · simp [hne]
  · have hpos := length_pos_iff.mpr hne
    rw [if_neg (by omega),mzUncompress2Raw_eq hdec hraw (by omega)]
    simp [hcrc,hne]

theorem gzip_round_trip_sample :
    ∃ gz, deflateBuffer sampleCodec 0 (List.replicate 148 0) [0x41] = .ok gz ∧
      (inflateBuffer sampleCodec gz = .ok [0x41] ↔ ([0x41] : List UInt8) ≠ []) :=
  gzip_round_trip sampleCodec 0 (replicate 148 0) [0x41] [0x01,0x01,0x00,0xFE,0xFF,0x41]
    ⟨⟨[0x78,0xDA],[0x00,0x42,0x00,0x42],rfl,rfl,rfl⟩,by decide,6,rfl⟩
    (by simp [compressBound]) (by decide)

theorem gzip_round_trip_fail :
    ∃ gz, deflateBuffer sampleCodec 0 (List.replicate 147 0) [] = .ok gz ∧
      inflateBuffer sampleCodec gz = .error .emptyOrLarge :=
  ⟨_,deflateBuffer_eq sampleCodec 0 [0x03,0x00]
    ⟨⟨[0x78,0xDA],[0x00,0x00,0x00,0x01],rfl,rfl,rfl⟩,by decide,2,rfl⟩ (by simp [compressBound]),
    by decide⟩

open Tlv

def TAR_SIZE_OFFSET : Nat := 124
def TAR_MAGIC_OFFSET : Nat := 257
def TAR_BLOCK_SIZE : Nat := 512
def TAR_NAME_SIZE : Nat := 100
def TAR_SIZE_SIZE : Nat := 12
def TAR_MAGIC_SIZE : Nat := 5
def SIZE_MAX : Nat := 2^64-1

def MAGIC_CONST : List UInt8 := [0x75,0x73,0x74,0x61,0x72]

structure SizeScan where
  parsed : Nat := 0
  seenDigit : Bool := false
  isTrailing : Bool := false

/-- One byte of a size field; `none` stands for `return false`. -/
def SizeScan.next (s : SizeScan) (c : UInt8) : Option SizeScan :=
  if c = 0x20 then some { s with isTrailing := s.isTrailing || s.seenDigit }
  else if c = 0 then if s.seenDigit then some { s with isTrailing := true } else none
  else if s.isTrailing ∨ c < 0x30 ∨ c > 0x37 then none
  else
    let digit := c.toNat-0x30
    if s.parsed > (SIZE_MAX-digit)/8 then none
    else some { s with parsed := s.parsed*8+digit, seenDigit := true }

def parseTarSize (field : List UInt8) : Option Nat :=
  match field.foldlM SizeScan.next {} with
  | some s => if s.seenDigit then some s.parsed else none
  | none => none

def tarEntrySpan (size : Nat) : Option Nat :=
  if size % TAR_BLOCK_SIZE ≠ 0 then
    if size > SIZE_MAX-TAR_BLOCK_SIZE*2 then none
    else some ((2+size/TAR_BLOCK_SIZE)*TAR_BLOCK_SIZE)
  else
    if size > SIZE_MAX-TAR_BLOCK_SIZE then none
    else some ((1+size/TAR_BLOCK_SIZE)*TAR_BLOCK_SIZE)

/-- What a header says: where it stands, its name, and the size and the span of its entry. -/
structure TarEntry where
  header : Nat
  name : List UInt8
  size : Nat
  span : Nat
  deriving DecidableEq, Repr

/-- The checks of the header at `p` in both loops; `some none` stands for a failed one. -/
def tarHeader (tar : List UInt8) (p : Nat) : Option (Option TarEntry) := do
  let magic ← bytes tar (p+TAR_MAGIC_OFFSET) TAR_MAGIC_SIZE
  let sz ← bytes tar (p+TAR_SIZE_OFFSET) TAR_SIZE_SIZE
  let name ← bytes tar p TAR_NAME_SIZE
  let text := name.takeWhile (fun c => c ≠ 0)
  if magic ≠ MAGIC_CONST then return none
  match parseTarSize sz with
  | none => return none
  | some size =>
    match tarEntrySpan size with
    | none => return none
    | some span =>
      if text.length = TAR_NAME_SIZE then return none
      return some ⟨p,text,size,span⟩

/-- The loop of `find_file_in_tar` from `p` on: the position and the size of the file. -/
def findLoop (tar fileName : List UInt8) : Nat → Nat → Option (Option (Nat × Nat))
  | 0, _ => none
  | n+1, p =>
    if p ≤ tar.length ∧ TAR_BLOCK_SIZE ≤ tar.length-p then
      match tarHeader tar p with
      | none => none
      | some none => some none
      | some (some e) =>
        -- strncmp
        if e.name = fileName.take TAR_NAME_SIZE then
          let payload := p+TAR_BLOCK_SIZE
          if e.size > tar.length-payload then some none else some (some (payload,e.size))
        else if e.span > tar.length-p then some none
        else findLoop tar fileName n (p+e.span)
    else some none

def findFileInTar (tar fileName : List UInt8) : Option (Option (Nat × Nat)) :=
  findLoop tar fileName (tar.length+1) 0

def listLoop (tar : List UInt8) : Nat → Nat → Option (List TarEntry)
  | 0, _ => none
  | n+1, p =>
    if p ≤ tar.length ∧ TAR_BLOCK_SIZE ≤ tar.length-p then
      match tarHeader tar p with
      | none => none
      | some none => some []
      | some (some e) =>
        let payload := p+TAR_BLOCK_SIZE
        if e.size > tar.length-payload then some []
        else if e.span > tar.length-p then some [e]
        else (listLoop tar n (p+e.span)).map (e :: ·)
    else some []

/-- The entries `list_files_in_tar` adds to its array, with name and size. -/
def listFilesInTar (tar : List UInt8) : Option (List TarEntry) := listLoop tar (tar.length+1) 0

section

variable {tar fileName : List UInt8} {p n : Nat} {e : TarEntry}

theorem le_tarEntrySpan {size span : Nat} (h : tarEntrySpan size = some span) :
    size+TAR_BLOCK_SIZE ≤ span := by
  unfold tarEntrySpan at h
  unfold TAR_BLOCK_SIZE at *
  split at h <;> split at h <;> simp only [Option.some.injEq,reduceCtorEq] at h <;> omega

theorem tarHeader_isSome (hp : p+TAR_BLOCK_SIZE ≤ tar.length) : ∃ r, tarHeader tar p = some r := by
  have hmagic := bytes_eq (b := tar) (p := p+TAR_MAGIC_OFFSET) (n := TAR_MAGIC_SIZE)
    (by simp only [TAR_MAGIC_OFFSET,TAR_MAGIC_SIZE,TAR_BLOCK_SIZE] at *; omega)
  have hsize := bytes_eq (b := tar) (p := p+TAR_SIZE_OFFSET) (n := TAR_SIZE_SIZE)
    (by simp only [TAR_SIZE_OFFSET,TAR_SIZE_SIZE,TAR_BLOCK_SIZE] at *; omega)
  have hname := bytes_eq (b := tar) (p := p) (n := TAR_NAME_SIZE)
    (by simp only [TAR_NAME_SIZE,TAR_BLOCK_SIZE] at *; omega)
  unfold tarHeader
  simp only [hmagic,hsize,hname,Option.bind_eq_bind,Option.bind_some]
  repeat' split
  all_goals exact ⟨_,rfl⟩

theorem tarHeader_entry (h : tarHeader tar p = some (some e)) :
    e.header = p ∧ e.name.length < TAR_NAME_SIZE ∧ e.size+TAR_BLOCK_SIZE ≤ e.span := by
  unfold tarHeader at h
  simp only [Option.bind_eq_bind,Option.bind_eq_some_iff] at h
  obtain ⟨magic,_,sz,_,name,hname,h⟩ := h
  split at h
  · cases h
  split at h
  · cases h
  split at h
  · cases h
  rename_i hspan
  split at h
  · cases h
  rename_i hne
  cases h
  refine ⟨rfl,Nat.lt_of_le_of_ne ?_ hne,le_tarEntrySpan hspan⟩
  have hlen : name.length ≤ TAR_NAME_SIZE := by
    unfold bytes at hname
    split at hname
    · cases hname
      exact List.length_take_le _ _
    · cases hname
  exact Nat.le_trans (List.takeWhile_sublist _).length_le hlen

theorem findLoop_entry (hp : p+TAR_BLOCK_SIZE ≤ tar.length) (h : tarHeader tar p = some (some e)) :
    findLoop tar fileName (n+1) p =
      if e.name = fileName then
        if e.size > tar.length-(p+TAR_BLOCK_SIZE) then some none
        else some (some (p+TAR_BLOCK_SIZE,e.size))
      else if e.span > tar.length-p then some none
      else findLoop tar fileName n (p+e.span) := by
  have hlen := (tarHeader_entry h).2.1
  -- a name in a header is too short to be cut
  have hsame : e.name = fileName.take TAR_NAME_SIZE ↔ e.name = fileName := by
    constructor
    · intro he
      rw [he,List.length_take] at hlen
      rw [he,List.take_of_length_le (by omega)]
    · intro he
      rw [he] at hlen
      rw [he,List.take_of_length_le (Nat.le_of_lt hlen)]
  have hblock : p ≤ tar.length ∧ TAR_BLOCK_SIZE ≤ tar.length-p := by omega
  simp only [findLoop,hblock,h,hsame,and_self,if_true]

/-- Both loops walk the same entries: one stops where the other lists the name. A round takes at
least a block, so the rounds are enough. -/
theorem findLoop_eq (n : Nat) : ∀ p ≤ tar.length, tar.length < n+p →
    ∃ files, listLoop tar n p = some files ∧
      (∀ e ∈ files, e.header+TAR_BLOCK_SIZE+e.size ≤ tar.length) ∧
      findLoop tar fileName n p = some ((files.find? (fun e => e.name = fileName)).map
        (fun e => (e.header+TAR_BLOCK_SIZE,e.size))) := by
  induction n with
  | zero =>
    intro p hp hn
    omega
  | succ n ih =>
    intro p hp hn
    by_cases hblock : p ≤ tar.length ∧ TAR_BLOCK_SIZE ≤ tar.length-p
    · have hroom : p+TAR_BLOCK_SIZE ≤ tar.length := by omega
      obtain ⟨r,hr⟩ := tarHeader_isSome hroom
      cases r with
      | none => exact ⟨[],by simp [listLoop,hblock,hr],by simp,by simp [findLoop,hblock,hr]⟩
      | some e =>
        obtain ⟨rfl,hname,hspan⟩ := tarHeader_entry hr
        have hstep : findLoop tar fileName (n+1) e.header = _ := findLoop_entry (by omega) hr
        by_cases hsize : e.size > tar.length-(e.header+TAR_BLOCK_SIZE)
        · -- then the span does not fit either
          have hover : e.span > tar.length-e.header := by omega
          refine ⟨[],by simp [listLoop,hblock,hr,hsize],by simp,?_⟩
          simp [hstep,hsize,hover]
        have hinside : e.header+TAR_BLOCK_SIZE+e.size ≤ tar.length := by omega
        by_cases hover : e.span > tar.length-e.header
        · refine ⟨[e],by simp [listLoop,hblock,hr,hsize,hover],by simpa using hinside,?_⟩
          by_cases hfound : e.name = fileName <;> simp [hstep,hsize,hover,hfound]
        obtain ⟨files,hlist,hall,hfind⟩ := ih (e.header+e.span) (by omega)
          (by unfold TAR_BLOCK_SIZE at hspan; omega)
        refine ⟨e :: files,by simp [listLoop,hblock,hr,hsize,hover,hlist],?_,?_⟩
        · simpa using ⟨hinside,hall⟩
        · by_cases hfound : e.name = fileName <;> simp [hstep,hsize,hover,hfound,hfind]
    · exact ⟨[],by simp [listLoop,hblock],by simp,by simp [findLoop,hblock]⟩

end

/-- Both readers end inside the buffer, and the file found is the first one listed with the name.
-/
theorem tar_file_found (tar fileName : List UInt8) : ∃ files, listFilesInTar tar = some files ∧
    (∀ e ∈ files, e.header+TAR_BLOCK_SIZE+e.size ≤ tar.length) ∧
    findFileInTar tar fileName = some ((files.find? (fun e => e.name = fileName)).map
      (fun e => (e.header+TAR_BLOCK_SIZE,e.size))) :=
  findLoop_eq (tar.length+1) 0 (Nat.zero_le _) (by omega)

end Lorentz
