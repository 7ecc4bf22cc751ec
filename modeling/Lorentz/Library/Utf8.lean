import Mathlib

/-!
Fixed-size character buffers as C code uses them, and texts as bytes: the UTF-8 encoding and
strings in double quotes, which JSON writes and TOML reads.
-/

set_option autoImplicit false

namespace CString

def NUL : Char := Char.ofNat 0

def write (b : List Char) (pos : Nat) (xs : List Char) : Option (List Char) :=
  if pos+xs.length ≤ b.length then some (b.take pos ++ xs ++ b.drop (pos+xs.length)) else none

def memmove (b : List Char) (dst src n : Nat) : Option (List Char) :=
  if src+n ≤ b.length then write b dst ((b.drop src).take n) else none

def text (b : List Char) : List Char := b.takeWhile (fun c => c ≠ NUL)

def strlen (b : List Char) : Option Nat :=
  if NUL ∈ b then some (text b).length else none

/-- The part of a string from the last occurrence of `c` on. -/
def strrchr (c : Char) : List Char → Option (List Char)
  | [] => none
  | x :: r =>
    match strrchr c r with
    | some t => some t
    | none => if x = c then some (x :: r) else none

/-- The buffer holds the string `s` and has `junk` behind its NUL. -/
def Holds (b s junk : List Char) : Prop := NUL ∉ s ∧ b = s ++ NUL :: junk

section

variable {b s junk : List Char}

theorem Holds.text_eq (h : Holds b s junk) : text b = s := by
  obtain ⟨hn,rfl⟩ := h
  have hall : ∀ c ∈ s, decide (c ≠ NUL) = true := by
    intro c hc
    simpa using fun hc' : c = NUL => hn (hc' ▸ hc)
  rw [text,List.takeWhile_append_of_pos hall]
  simp

theorem Holds.strlen_eq (h : Holds b s junk) : strlen b = some s.length := by
  have hb : NUL ∈ b := by simp [h.2]
  rw [strlen,if_pos hb,h.text_eq]

end

attribute [local simp] strrchr

theorem write_append (p old q xs : List Char) (h : xs.length = old.length) :
    write (p ++ old ++ q) p.length xs = some (p ++ xs ++ q) := by
  have hd : (p ++ old ++ q).drop (p.length+xs.length) = q := by
    rw [h,← List.length_append,List.drop_left]
  rw [write,if_pos (by simp [h]),hd]
  simp

theorem write_bind_write (b xs ys : List Char) (pos : Nat)
    (h : pos+xs.length+ys.length ≤ b.length) :
    ((write b pos xs).bind fun b' => write b' (pos+xs.length) ys) = write b pos (xs ++ ys) := by
  have htake : (b.take pos).length = pos := by simp; omega
  have hl : (b.take pos ++ xs ++ b.drop (pos+xs.length)).length = b.length := by
    simp
    omega
  have h₁ : (b.take pos ++ xs ++ b.drop (pos+xs.length)).take (pos+xs.length) =
      b.take pos ++ xs := by
    have hlen : (b.take pos ++ xs).length = pos+xs.length := by rw [List.length_append,htake]
    rw [List.take_append_of_le_length (Nat.le_of_eq hlen.symm)]
    exact List.take_of_length_le (Nat.le_of_eq hlen)
  have h₂ : (b.take pos ++ xs ++ b.drop (pos+xs.length)).drop (pos+xs.length+ys.length) =
      b.drop (pos+xs.length+ys.length) := by
    rw [List.drop_append,List.drop_eq_nil_of_le (by simp; omega),List.nil_append,List.drop_drop]
    congr 1
    simp
    omega
  rw [write,if_pos (by omega),Option.bind_some,write,if_pos (by omega),write,
    if_pos (by simp; omega),h₁,h₂]
  simp [Nat.add_assoc]

theorem memmove_right (p t q gap : List Char) (h : gap.length ≤ q.length) :
    ∃ g : List Char, g.length = gap.length ∧
      memmove (p ++ t ++ q) (p.length+gap.length) p.length t.length =
        some (p ++ g ++ t ++ q.drop gap.length) := by
  refine ⟨(t ++ q).take gap.length,?_,?_⟩
  · simp
    omega
  have hsrc : ((p ++ t ++ q).drop p.length).take t.length = t := by simp
  have hshape : p ++ t ++ q =
      (p ++ (t ++ q).take gap.length) ++ ((t ++ q).drop gap.length).take t.length ++
        q.drop gap.length := by
    have hrest : ((t ++ q).drop gap.length).drop t.length = q.drop gap.length := by
      rw [List.drop_drop,Nat.add_comm,← List.drop_drop,List.drop_left]
    rw [← hrest,List.append_assoc,List.append_assoc,List.take_append_drop,List.append_assoc,
      List.take_append_drop]
  have hlen : (p ++ (t ++ q).take gap.length).length = p.length+gap.length := by
    simp
    omega
  rw [memmove,if_pos (by simp),hsrc]
  conv_lhs => rw [hshape,← hlen]
  rw [write_append _ _ _ _ (by simp; omega)]

theorem Holds.insert {b p t junk comp : List Char} (h : Holds b (p ++ t) junk)
    (hc : NUL ∉ comp) (hlen : comp.length ≤ junk.length) :
    ∃ b₁ b₂ : List Char, memmove b (p.length+comp.length) p.length (t.length+1) = some b₁ ∧
      write b₁ p.length comp = some b₂ ∧
      Holds b₂ (p ++ comp ++ t) (junk.drop comp.length) := by
  obtain ⟨hn,rfl⟩ := h
  obtain ⟨g,hg,hm⟩ := memmove_right p (t ++ [NUL]) junk comp hlen
  have hw := write_append p g (t ++ [NUL] ++ junk.drop comp.length) comp hg.symm
  refine ⟨p ++ g ++ (t ++ [NUL] ++ junk.drop comp.length),
    p ++ comp ++ (t ++ [NUL] ++ junk.drop comp.length),?_,hw,?_,by simp⟩
  · simpa using hm
  · simp only [List.mem_append,not_or] at hn ⊢
    exact ⟨⟨hn.1,hc⟩,hn.2⟩

theorem Holds.append {b s junk : List Char} {c x : Char} (h : Holds b s (x :: junk))
    (hc : c ≠ NUL) :
    ∃ b₁ : List Char, write b s.length [c,NUL] = some b₁ ∧ Holds b₁ (s ++ [c]) junk := by
  obtain ⟨hn,rfl⟩ := h
  refine ⟨s ++ [c,NUL] ++ junk,?_,?_⟩
  · have hw := write_append s [NUL,x] junk [c,NUL] rfl
    simpa using hw
  · refine ⟨?_,by simp⟩
    simp only [List.mem_append,List.mem_singleton,not_or]
    exact ⟨hn,fun hx => hc hx.symm⟩

theorem write_text (b s : List Char) (hn : NUL ∉ s) (h : s.length+1 ≤ b.length) :
    ∃ b' : List Char, write b 0 (s ++ [NUL]) = some b' ∧ text b' = s := by
  have hh : Holds (s ++ NUL :: b.drop (s.length+1)) s (b.drop (s.length+1)) := ⟨hn,rfl⟩
  refine ⟨_,?_,hh.text_eq⟩
  rw [write,if_pos (by simp; omega)]
  simp

theorem strrchr_eq_none (c : Char) (s : List Char) : strrchr c s = none ↔ c ∉ s := by
  induction s with
  | nil => simp
  | cons x r ih =>
    cases hr : strrchr c r with
    | none =>
      have hnot : c ∉ r := ih.mp hr
      by_cases hx : x = c
      · simp [hr,hx]
      · simp [hr,hx,hnot,Ne.symm hx]
    | some t =>
      have hmem : c ∈ r := by
        by_contra hnot
        simp [ih.mpr hnot] at hr
      simp [hr,hmem]

theorem strrchr_eq_some (c : Char) (p t : List Char) (ht : c ∉ t) :
    strrchr c (p ++ c :: t) = some (c :: t) := by
  induction p with
  | nil => simp [(strrchr_eq_none c t).mpr ht]
  | cons x r ih => simp [ih]

theorem exists_last (c : Char) (s : List Char) (h : c ∈ s) :
    ∃ p t : List Char, s = p ++ c :: t ∧ c ∉ t := by
  induction s with
  | nil => simp at h
  | cons x r ih =>
    by_cases hr : c ∈ r
    · obtain ⟨p,t,rfl,ht⟩ := ih hr
      exact ⟨x :: p,t,rfl,ht⟩
    have hx : x = c := by
      rcases List.mem_cons.mp h with hc | hc
      · exact hc.symm
      · exact absurd hc hr
    exact ⟨[],r,by simp [hx],hr⟩

end CString

namespace Utf8

def Scalar (n : Nat) : Prop := n < 0xd800 ∨ 0xdfff < n ∧ n ≤ 0x10ffff

def encode (n : Nat) : List Nat :=
  if n < 0x80 then [n]
  else if n < 0x800 then [0xc0+n/64,0x80+n%64]
  else if n < 0x10000 then [0xe0+n/4096,0x80+n/64%64,0x80+n%64]
  else [0xf0+n/262144,0x80+n/4096%64,0x80+n/64%64,0x80+n%64]

variable {n a b c d : Nat}

theorem encode_two (ha : 0xc2 ≤ a) (ha' : a ≤ 0xdf) (hb : 0x80 ≤ b) (hb' : b ≤ 0xbf) :
    ∃ n, 0x80 ≤ n ∧ Scalar n ∧ encode n = [a,b] := by
  refine ⟨(a-0xc0)*64+(b-0x80),by omega,.inl (by omega),?_⟩
  rw [encode,if_neg (by omega),if_pos (by omega)]
  simp only [List.cons.injEq,and_true]
  omega

theorem encode_three (ha : 0xe0 ≤ a) (ha' : a ≤ 0xef) (hb : 0x80 ≤ b) (hb' : b ≤ 0xbf)
    (hlow : a = 0xe0 → 0xa0 ≤ b) (hhigh : a = 0xed → b ≤ 0x9f) (hc : 0x80 ≤ c) (hc' : c ≤ 0xbf) :
    ∃ n, 0x80 ≤ n ∧ Scalar n ∧ encode n = [a,b,c] := by
  refine ⟨(a-0xe0)*4096+(b-0x80)*64+(c-0x80),by omega,by unfold Scalar; omega,?_⟩
  rw [encode,if_neg (by omega),if_neg (by omega),if_pos (by omega)]
  simp only [List.cons.injEq,and_true]
  omega

theorem encode_four (ha : 0xf0 ≤ a) (ha' : a ≤ 0xf4) (hb : 0x80 ≤ b) (hb' : b ≤ 0xbf)
    (hlow : a = 0xf0 → 0x90 ≤ b) (hhigh : a = 0xf4 → b ≤ 0x8f) (hc : 0x80 ≤ c) (hc' : c ≤ 0xbf)
    (hd : 0x80 ≤ d) (hd' : d ≤ 0xbf) :
    ∃ n, 0x80 ≤ n ∧ Scalar n ∧ encode n = [a,b,c,d] := by
  refine ⟨(a-0xf0)*262144+(b-0x80)*4096+(c-0x80)*64+(d-0x80),by omega,by unfold Scalar; omega,?_⟩
  rw [encode,if_neg (by omega),if_neg (by omega),if_neg (by omega)]
  simp only [List.cons.injEq,and_true]
  omega

theorem encode_cases (h : 0x80 ≤ n) (hs : Scalar n) :
    (∃ a b, encode n = [a,b] ∧ 0xc2 ≤ a ∧ a ≤ 0xdf ∧ 0x80 ≤ b ∧ b ≤ 0xbf) ∨
    (∃ a b c, encode n = [a,b,c] ∧ 0xe0 ≤ a ∧ a ≤ 0xef ∧ 0x80 ≤ b ∧ b ≤ 0xbf ∧
      (a = 0xe0 → 0xa0 ≤ b) ∧ (a = 0xed → b ≤ 0x9f) ∧ 0x80 ≤ c ∧ c ≤ 0xbf) ∨
    ∃ a b c d, encode n = [a,b,c,d] ∧ 0xf0 ≤ a ∧ a ≤ 0xf4 ∧ 0x80 ≤ b ∧ b ≤ 0xbf ∧
      (a = 0xf0 → 0x90 ≤ b) ∧ (a = 0xf4 → b ≤ 0x8f) ∧ 0x80 ≤ c ∧ c ≤ 0xbf ∧
      0x80 ≤ d ∧ d ≤ 0xbf := by
  unfold Scalar at hs
  unfold encode
  rw [if_neg (by omega)]
  by_cases h2 : n < 0x800
  · rw [if_pos h2]
    exact .inl ⟨_,_,rfl,by omega⟩
  rw [if_neg h2]
  by_cases h3 : n < 0x10000
  · rw [if_pos h3]
    exact .inr (.inl ⟨_,_,_,rfl,by omega⟩)
  · rw [if_neg h3]
    exact .inr (.inr ⟨_,_,_,_,rfl,by omega⟩)

theorem high_of_mem_encode (h : 0x80 ≤ n) (hs : Scalar n) : ∀ a ∈ encode n, 0x80 ≤ a ∧ a < 256 := by
  obtain ⟨a,b,he,hb⟩ | ⟨a,b,c,he,hb⟩ | ⟨a,b,c,d,he,hb⟩ := encode_cases h hs
  all_goals
    rw [he]
    simp only [List.mem_cons,List.not_mem_nil,or_false,forall_eq_or_imp,forall_eq]
    omega

end Utf8

namespace BasicString

def escapeChar (c : Char) : List Char :=
  if c = '"' then ['\\','"']
  else if c = '\\' then ['\\','\\']
  else if c = '\x08' then ['\\','b']
  else if c = '\x0c' then ['\\','f']
  else if c = '\n' then ['\\','n']
  else if c = '\r' then ['\\','r']
  else if c = '\t' then ['\\','t']
  else if c.toNat < 32 then
    ['\\','u','0','0',Nat.digitChar (c.toNat/16),Nat.digitChar (c.toNat%16)]
  else [c]

def escape (s : List Char) : List Char := s.flatMap escapeChar

def hexValue (c : Char) : Option Nat :=
  if '0' ≤ c ∧ c ≤ '9' then some (c.toNat - '0'.toNat)
  else if 'a' ≤ c ∧ c ≤ 'f' then some (c.toNat - 'a'.toNat+10)
  else if 'A' ≤ c ∧ c ≤ 'F' then some (c.toNat - 'A'.toNat+10)
  else none

def hexNumber : List Char → Option Nat
  | ds => ds.foldl (fun n d => n.bind (fun n => (hexValue d).map (fun v => n*16+v))) (some 0)

def scalarBytes (n : Nat) : Option (List Char) :=
  if n < 0xd800 ∨ 0xdfff < n ∧ n ≤ 0x10ffff then some ((Utf8.encode n).map Char.ofNat) else none

def shortEscape (c : Char) : Option Char :=
  if c = 'b' then some '\x08'
  else if c = 't' then some '\t'
  else if c = 'n' then some '\n'
  else if c = 'f' then some '\x0c'
  else if c = 'r' then some '\r'
  else if c = '"' then some '"'
  else if c = '\\' then some '\\'
  else none

/-- What may stand for itself: neither quotes nor control characters, but for the tab. -/
def unescaped (c : Char) : Bool :=
  c = '\t' || (32 ≤ c.toNat && c ≠ '"' && c ≠ '\\' && c.toNat ≠ 127)

def prepend (bytes : List Char) (r : List Char × List Char) : List Char × List Char :=
  (bytes ++ r.1,r.2)

def unicodeEscape (n : Nat) (cs : List Char) : Option (List Char × List Char) :=
  if cs.length < n then none
  else ((hexNumber (cs.take n)).bind scalarBytes).map (fun s => (s,cs.drop n))

def readEscape (e : Char) (cs : List Char) : Option (List Char × List Char) :=
  match shortEscape e with
  | some d => some ([d],cs)
  | none =>
    if e = 'u' then unicodeEscape 4 cs else if e = 'U' then unicodeEscape 8 cs else none

def readFuel : Nat → List Char → Option (List Char × List Char)
  | 0, _ => none
  | _+1, [] => none
  | fuel+1, c :: cs =>
    if c = '"' then some ([],cs)
    else if c = '\\' then
      match cs with
      | [] => none
      | e :: cs =>
        match readEscape e cs with
        | none => none
        | some (s,left) => (readFuel fuel left).map (prepend s)
    else if unescaped c then (readFuel fuel cs).map (prepend [c])
    else none

def readBasic (cs : List Char) : Option (List Char × List Char) := readFuel cs.length cs

def DEL : Nat := 127

variable {c : Char} {fuel : Nat} {rest : List Char}

theorem hexValue_digitChar {n : Nat} (h : n < 16) : hexValue (Nat.digitChar n) = some n := by
  decide +revert

theorem readFuel_short {e d : Char} (he : shortEscape e = some d) :
    readFuel (fuel+1) ('\\' :: e :: rest) = (readFuel fuel rest).map (prepend [d]) := by
  simp [readFuel,readEscape,he]

theorem readEscape_control (h : c.toNat < 32) :
    readEscape 'u' ('0' :: '0' :: Nat.digitChar (c.toNat/16) :: Nat.digitChar (c.toNat%16) ::
      rest) = some ([c],rest) := by
  have hhex : hexNumber ['0','0',Nat.digitChar (c.toNat/16),Nat.digitChar (c.toNat%16)] =
      some c.toNat := by
    have h0 : hexValue '0' = some 0 := by decide
    simp only [hexNumber,List.foldl_cons,List.foldl_nil,Option.bind_some,h0,
      hexValue_digitChar (by omega : c.toNat/16 < 16),
      hexValue_digitChar (by omega : c.toNat%16 < 16),Option.map_some,Option.some.injEq]
    omega
  have hbytes : scalarBytes c.toNat = some [c] := by
    rw [scalarBytes,if_pos (by omega),Utf8.encode,if_pos (by omega)]
    simp
  have hu : shortEscape 'u' = none := by decide
  have hlen : ¬ rest.length+1+1+1+1 < 4 := by omega
  simp only [readEscape,hu,if_true,unicodeEscape,List.length_cons,hlen,if_false,List.take_succ_cons,
    List.take_zero,hhex,hbytes,Option.bind_some,Option.map_some,List.drop_succ_cons,List.drop_zero]

theorem readFuel_escapeChar (hc : c.toNat ≠ DEL) :
    readFuel (fuel+1) (escapeChar c ++ rest) = (readFuel fuel rest).map (prepend [c]) := by
  unfold escapeChar
  split
  · rename_i h; subst h; exact readFuel_short rfl
  split
  · rename_i h; subst h; exact readFuel_short rfl
  split
  · rename_i h; subst h; exact readFuel_short rfl
  split
  · rename_i h; subst h; exact readFuel_short rfl
  split
  · rename_i h; subst h; exact readFuel_short rfl
  split
  · rename_i h; subst h; exact readFuel_short rfl
  split
  · rename_i h; subst h; exact readFuel_short rfl
  split
  · rename_i h
    simp [readFuel,readEscape_control h]
  rename_i hq hb _ _ _ _ _ h32
  have h32 : 32 ≤ c.toNat := by omega
  have hu : unescaped c = true := by
    simp only [DEL] at hc
    simp [unescaped,h32,hq,hb,hc]
  simp [readFuel,hq,hb,hu]

theorem readFuel_escapeChar_del (hc : c.toNat = DEL) :
    readFuel fuel (escapeChar c ++ rest) = none := by
  have hdel : c = '\x7f' := Char.ext (UInt32.toNat_inj.mp hc)
  subst hdel
  cases fuel <;> rfl

theorem readFuel_escape {s : List Char} (hs : ∀ c ∈ s, c.toNat ≠ DEL) (rest : List Char)
    (hf : s.length < fuel) : readFuel fuel (escape s ++ '"' :: rest) = some (s,rest) := by
  induction s generalizing fuel with
  | nil =>
    obtain ⟨fuel,rfl⟩ : ∃ n, fuel = n+1 := ⟨fuel-1,by simp only [List.length_nil] at hf; omega⟩
    rfl
  | cons c s ih =>
    simp only [List.length_cons] at hf
    obtain ⟨fuel,rfl⟩ : ∃ n, fuel = n+1 := ⟨fuel-1,by omega⟩
    have happ : escape (c :: s) ++ '"' :: rest = escapeChar c ++ (escape s ++ '"' :: rest) := by
      simp [escape]
    rw [happ,readFuel_escapeChar (hs c (by simp)),
      ih (fun d hd => hs d (List.mem_cons_of_mem c hd)) (by omega)]
    rfl

theorem escapeChar_ne_nil (c : Char) : escapeChar c ≠ [] := by
  unfold escapeChar
  repeat' split
  all_goals simp

theorem length_le_escape (s : List Char) : s.length ≤ (escape s).length := by
  induction s with
  | nil => exact Nat.le_refl _
  | cons c s ih =>
    have hc : 0 < (escapeChar c).length := List.length_pos_iff.mpr (escapeChar_ne_nil c)
    simp only [escape,List.flatMap_cons,List.length_append,List.length_cons] at ih ⊢
    omega

theorem readBasic_escape {s : List Char} (hs : ∀ c ∈ s, c.toNat ≠ DEL) (rest : List Char) :
    readBasic (escape s ++ '"' :: rest) = some (s,rest) := by
  refine readFuel_escape hs rest ?_
  have := length_le_escape s
  simp only [List.length_append,List.length_cons]
  omega

theorem readBasic_escape_del {s : List Char} (hs : ∃ c ∈ s, c.toNat = DEL) (rest : List Char) :
    readBasic (escape s ++ rest) = none := by
  suffices ∀ fuel, readFuel fuel (escape s ++ rest) = none from this _
  intro fuel
  induction s generalizing fuel with
  | nil => simp at hs
  | cons c s ih =>
    have happ : escape (c :: s) ++ rest = escapeChar c ++ (escape s ++ rest) := by
      simp [escape]
    rw [happ]
    by_cases hc : c.toNat = DEL
    · exact readFuel_escapeChar_del hc
    cases fuel with
    | zero => rfl
    | succ fuel =>
      rw [readFuel_escapeChar hc,ih]
      · rfl
      obtain ⟨d,hd,hdel⟩ := hs
      rcases List.mem_cons.mp hd with rfl | hd
      · exact absurd hdel hc
      · exact ⟨d,hd,hdel⟩

end BasicString
