import Lorentz.ParseList
import Lorentz.Library.Split
import Lorentz.Library.Utf8

/-!
`valid_domain` on the memory a domain lies in, against the language of domain names. It is handed
a pointer and a length, so a read behind the domain is possible.
-/

set_option autoImplicit false

namespace Lorentz
open Split Utf8 List

/-- The loop of `valid_domain`: `none` is a read outside the memory, `some none` a refusal, else
the position of the last dot. The first number bounds the rounds. -/
def scanDomain (mem : List Char) (len : Nat) (allowUtf8 : Bool) :
    Nat → Nat → Int → Option (Option Int)
  | 0, _, _ => some none
  | n+1, i, lastDot =>
    if i < len then
      match mem[i]? with
      | none => none
      | some c =>
        if c.toNat > 0x7f then
          if allowUtf8 = false then some none
          else
            let seq := utf8SequenceLen ((mem.drop i).take (len-i))
            if seq = 0 then some none else scanDomain mem len allowUtf8 n (i+seq) lastDot
        else if validDomainChar c = false then some none
        else if c = '.' then
          if (i : Int)-lastDot = 1 then some none
          else if (i : Int)-lastDot > 64 then some none
          else scanDomain mem len allowUtf8 n (i+1) i
        else scanDomain mem len allowUtf8 n (i+1) lastDot
    else some (some lastDot)

/-- `valid_domain`; `none` is a read outside the memory. -/
def validDomainAt (mem : List Char) (len : Nat) (fqdnOnly allowUtf8 : Bool) : Option Bool :=
  if len = 0 ∨ len > 255 then some false
  else
    match scanDomain mem len allowUtf8 (len+1) 0 (-1) with
    | none => none
    | some none => some false
    | some (some lastDot) =>
      if (len : Int)-(lastDot+1) > 63 then some false
      else if lastDot = -1 ∧ fqdnOnly = true then some false
      else
        -- the TLD's first byte, then the last one
        match mem[(lastDot+1).toNat]? with
        | none => none
        | some first =>
          if first = '-' then some false
          else
            match mem[len-1]? with
            | none => none
            | some last => some (last ≠ '-')

def utf8Bytes (n : Nat) : List Char := (encode n).map Char.ofNat

/-- Allowed characters and, where permitted, well-formed UTF-8 sequences. -/
inductive LabelText (allowUtf8 : Bool) : List Char → Prop
  | nil : LabelText allowUtf8 []
  | char {c : Char} {s : List Char} (hc : c.toNat ≤ 0x7f) (hv : validDomainChar c = true)
      (hdot : c ≠ '.') (hs : LabelText allowUtf8 s) : LabelText allowUtf8 (c :: s)
  | utf8 {n : Nat} {s : List Char} (hu : allowUtf8 = true) (hn : 0x80 ≤ n) (hsc : Scalar n)
      (hs : LabelText allowUtf8 s) : LabelText allowUtf8 (utf8Bytes n ++ s)

def GoodLabel (allowUtf8 : Bool) (l : List Char) : Prop :=
  l ≠ [] ∧ l.length ≤ 63 ∧ LabelText allowUtf8 l

/-- A name of 1 to 255 bytes: good labels with dots between, the last without a hyphen at either
end. -/
def DomainName (fqdnOnly allowUtf8 : Bool) (s : List Char) : Prop :=
  1 ≤ s.length ∧ s.length ≤ 255 ∧ (∀ l ∈ s.splitOn '.', GoodLabel allowUtf8 l) ∧
    (∀ l ∈ (s.splitOn '.').getLast?, l.head? ≠ some '-' ∧ l.getLast? ≠ some '-') ∧
    (fqdnOnly = true → 2 ≤ (s.splitOn '.').length)

def AbsoluteName (allowUtf8 : Bool) (s : List Char) : Prop :=
  s.length ≤ 255 ∧ ∃ name, s = name ++ ['.'] ∧ ∀ l ∈ name.splitOn '.', GoodLabel allowUtf8 l

theorem toNat_ofNat_byte {a : Nat} (h : a < 256) : (Char.ofNat a).toNat = a := by
  rw [Char.ofNat,dif_pos (by unfold Nat.isValidChar; omega)]
  simp [Char.ofNatAux,Char.toNat,UInt32.toNat]

theorem high_of_mem_utf8Bytes {n : Nat} (hn : 0x80 ≤ n) (hs : Scalar n) :
    ∀ c ∈ utf8Bytes n, 0x80 ≤ c.toNat := by
  intro c hc
  obtain ⟨a,ha,rfl⟩ := mem_map.mp hc
  have hb := high_of_mem_encode hn hs a ha
  rw [toNat_ofNat_byte hb.2]
  exact hb.1

theorem dot_not_mem_utf8Bytes {n : Nat} (hn : 0x80 ≤ n) (hs : Scalar n) : '.' ∉ utf8Bytes n :=
  fun h => absurd (high_of_mem_utf8Bytes hn hs _ h) (by decide)

theorem exists_cons_utf8Bytes {n : Nat} (hn : 0x80 ≤ n) (hs : Scalar n) :
    ∃ c cs, utf8Bytes n = c :: cs ∧ 0x80 ≤ c.toNat := by
  have hhigh := high_of_mem_utf8Bytes hn hs
  cases h : utf8Bytes n with
  | nil =>
    obtain ⟨a,b,he,-⟩ | ⟨a,b,c,he,-⟩ | ⟨a,b,c,d,he,-⟩ := encode_cases hn hs
    all_goals simp [utf8Bytes,he] at h
  | cons c cs => exact ⟨c,cs,rfl,hhigh c (by simp [h])⟩

theorem utf8SequenceLen_of_utf8Lead {a b len lo hi : Nat} {es : List Nat}
    (hl : utf8Lead a = some (len,lo,hi)) (hb : lo ≤ b ∧ b ≤ hi)
    (hes : ∀ x ∈ es, 0x80 ≤ x ∧ x ≤ 0xbf) (hlen : es.length+2 = len)
    (hbytes : ∀ x ∈ a :: b :: es, x < 256) (s : List Char) :
    utf8SequenceLen ((a :: b :: es).map Char.ofNat ++ s) = len := by
  have hmap : ∀ {l : List Nat}, (∀ x ∈ l, x < 256) → (l.map Char.ofNat).map Char.toNat = l := by
    intro l h
    rw [map_map]
    exact (map_congr_left fun x hx => toNat_ofNat_byte (h x hx)).trans (map_id l)
  have hrest : ((b :: es).map Char.ofNat ++ s).take (len-1) = (b :: es).map Char.ofNat :=
    take_left' (by simp; omega)
  have hall : es.all (fun e => decide (0x80 ≤ e) && decide (e ≤ 0xbf)) = true := by simpa using hes
  rw [map_cons,cons_append,utf8SequenceLen,toNat_ofNat_byte (hbytes a mem_cons_self),hl]
  simp only [hrest,hmap (fun x hx => hbytes x (mem_cons_of_mem _ hx))]
  rw [if_neg (by simp; omega),if_neg (by omega),if_pos hall]

theorem utf8SequenceLen_utf8Bytes {n : Nat} (hn : 0x80 ≤ n) (hs : Scalar n) (s : List Char) :
    utf8SequenceLen (utf8Bytes n ++ s) = (utf8Bytes n).length := by
  have hbytes : ∀ x ∈ encode n, x < 256 := fun x hx => (high_of_mem_encode hn hs x hx).2
  unfold utf8Bytes
  obtain ⟨a,b,he,hr⟩ | ⟨a,b,c,he,hr⟩ | ⟨a,b,c,d,he,hr⟩ := encode_cases hn hs
  all_goals rw [he] at hbytes ⊢
  · have hl : utf8Lead a = some (2,0x80,0xbf) := if_pos (by omega)
    exact utf8SequenceLen_of_utf8Lead hl (by omega) (by simp) rfl hbytes s
  · have hl : utf8Lead a = some (3,_,_) := (if_neg (by omega)).trans (if_pos (by omega))
    exact utf8SequenceLen_of_utf8Lead hl (by split <;> split <;> omega) (by simp; omega) rfl hbytes s
  · have hl : utf8Lead a = some (4,_,_) :=
      (if_neg (by omega)).trans ((if_neg (by omega)).trans (if_pos (by omega)))
    exact utf8SequenceLen_of_utf8Lead hl (by split <;> split <;> omega) (by simp; omega) rfl hbytes s

theorem encode_of_utf8Lead {a b len lo hi : Nat} {es : List Nat}
    (hl : utf8Lead a = some (len,lo,hi)) (hb : lo ≤ b ∧ b ≤ hi)
    (hes : ∀ x ∈ es, 0x80 ≤ x ∧ x ≤ 0xbf) (hlen : es.length+1 = len-1) :
    ∃ n, 0x80 ≤ n ∧ Scalar n ∧ encode n = a :: b :: es := by
  unfold utf8Lead at hl
  split at hl
  · cases hl
    cases es with
    | nil => exact encode_two (by omega) (by omega) hb.1 hb.2
    | cons c es => simp at hlen
  split at hl
  · cases hl
    match es with
    | [] => simp at hlen
    | [c] =>
      have hc := hes c (by simp)
      split at hb <;> split at hb
      all_goals
        exact encode_three (by omega) (by omega) (by omega) (by omega) (by omega) (by omega)
          hc.1 hc.2
    | c :: d :: es => simp at hlen
  split at hl
  · cases hl
    match es with
    | [] => simp at hlen
    | [c] => simp at hlen
    | [c,d] =>
      have hc := hes c (by simp)
      have hd := hes d (by simp)
      split at hb <;> split at hb
      all_goals
        exact encode_four (by omega) (by omega) (by omega) (by omega) (by omega) (by omega)
          hc.1 hc.2 hd.1 hd.2
    | c :: d :: e :: es => simp at hlen
  · cases hl

theorem exists_utf8Bytes {p : List Char} (h : utf8SequenceLen p ≠ 0) :
    ∃ n s, 0x80 ≤ n ∧ Scalar n ∧ p = utf8Bytes n ++ s := by
  have key : ∃ k n, 0x80 ≤ n ∧ Scalar n ∧ (p.take k).map Char.toNat = encode n := by
    cases p with
    | nil => exact absurd rfl h
    | cons c cs =>
      simp only [utf8SequenceLen] at h
      cases hl : utf8Lead c.toNat with
      | none => simp [hl] at h
      | some r =>
        obtain ⟨len,lo,hi⟩ := r
        simp only [hl] at h
        by_cases hshort : (c :: cs).length < len
        · simp only [hshort,if_true] at h
          exact absurd rfl h
        cases ht : (cs.take (len-1)).map Char.toNat with
        | nil => simp [ht] at h
        | cons e es =>
          simp only [ht] at h
          by_cases hr : e < lo ∨ e > hi
          · simp [hr] at h
          by_cases ha : es.all (fun e => decide (0x80 ≤ e) && decide (e ≤ 0xbf)) = true
          case neg => simp [hr,ha] at h
          have hes : ∀ x ∈ es, 0x80 ≤ x ∧ x ≤ 0xbf := by simpa using ha
          have hlen : es.length+1 = len-1 := by
            have := congrArg List.length ht
            simp only [length_map,length_take,length_cons] at this hshort
            omega
          obtain ⟨n,hn,hs,he⟩ := encode_of_utf8Lead (b := e) hl (by omega) hes hlen
          refine ⟨len,n,hn,hs,?_⟩
          obtain ⟨m,rfl⟩ : ∃ m, len = m+1 := ⟨len-1,by omega⟩
          rw [he,take_succ_cons,map_cons,← ht]
          rfl
  obtain ⟨k,n,hn,hs,he⟩ := key
  refine ⟨n,p.drop k,hn,hs,?_⟩
  rw [utf8Bytes,← he,map_map]
  conv_lhs => rw [← take_append_drop k p]
  congr 1
  symm
  rw [map_congr_left (fun c _ => show (Char.ofNat ∘ Char.toNat) c = id c by simp)]
  exact map_id _

section

variable {u d d' : Bool} {k k' n i : Nat} {c : Char} {s l : List Char} {ls : List (List Char)}

theorem labelText_ascii (hc : c.toNat ≤ 0x7f) :
    LabelText u (c :: s) ↔ validDomainChar c = true ∧ c ≠ '.' ∧ LabelText u s := by
  constructor
  · intro h
    generalize ht : c :: s = t at h
    cases h with
    | nil => cases ht
    | char hc' hv hdot hs =>
      cases ht
      exact ⟨hv,hdot,hs⟩
    | @utf8 m t hu hn hsc hs =>
      obtain ⟨e,es,he,hhigh⟩ := exists_cons_utf8Bytes hn hsc
      rw [he,cons_append,List.cons.injEq] at ht
      rw [ht.1] at hc
      omega
  · rintro ⟨hv,hdot,hs⟩
    exact .char hc hv hdot hs

theorem labelText_high (hc : c.toNat > 0x7f) (h : LabelText u (c :: s)) :
    u = true ∧ ∃ n t, 0x80 ≤ n ∧ Scalar n ∧ c :: s = utf8Bytes n ++ t ∧ LabelText u t := by
  generalize ht : c :: s = t at h
  cases h with
  | nil => cases ht
  | char hc' hv hdot hs =>
    cases ht
    omega
  | utf8 hu hn hsc hs => exact ⟨hu,_,_,hn,hsc,rfl,hs⟩

theorem labelText_utf8Bytes (hn : 0x80 ≤ n) (hsc : Scalar n) :
    LabelText true (utf8Bytes n ++ s) ↔ LabelText true s := by
  constructor
  · intro h
    obtain ⟨e,es,he,hhigh⟩ := exists_cons_utf8Bytes hn hsc
    have hlen := utf8SequenceLen_utf8Bytes hn hsc s
    rw [he,cons_append] at h
    obtain ⟨-,m,t,hm,hmsc,heq,ht⟩ := labelText_high (by omega) h
    -- the two readings have the same length
    rw [← cons_append,← he] at heq
    rw [heq,utf8SequenceLen_utf8Bytes hm hmsc t] at hlen
    rw [(append_inj heq hlen.symm).2]
    exact ht
  · exact .utf8 rfl hn hsc

theorem labelText_chars (h : LabelText u s) :
    ∀ c ∈ s, validDomainChar c = true ∨ u = true ∧ 0x80 ≤ c.toNat := by
  induction h with
  | nil => simp
  | char hc hv hdot hs ih => exact forall_mem_cons.mpr ⟨.inl hv,ih⟩
  | utf8 hu hn hsc hs ih =>
    intro c hc
    rcases mem_append.mp hc with hc | hc
    · exact .inr ⟨hu,high_of_mem_utf8Bytes hn hsc c hc⟩
    · exact ih c hc

/-- What the loop finds in the labels it is still to read, `k` bytes behind the last dot. -/
inductive Labels (u : Bool) : Nat → Bool → List (List Char) → Nat → Bool → Prop
  | last {k : Nat} {d : Bool} {l : List Char} (hl : LabelText u l) : Labels u k d [l] (k+l.length) d
  | more {k k' : Nat} {d d' : Bool} {l : List Char} {ls : List (List Char)} (hl : LabelText u l)
      (hpos : 0 < k+l.length) (hle : k+l.length ≤ 63) (hls : Labels u 0 true ls k' d') :
      Labels u k d (l :: ls) k' d'

theorem labels_append {p : List Char} (h : LabelText u (p ++ l) ↔ LabelText u l) :
    Labels u k d ((p ++ l) :: ls) k' d' ↔ Labels u (k+p.length) d (l :: ls) k' d' := by
  have hlen : k+(p ++ l).length = k+p.length+l.length := by
    rw [length_append,Nat.add_assoc]
  constructor
  · intro hls
    cases hls with
    | last hl =>
      rw [hlen]
      exact .last (h.mp hl)
    | more hl hpos hle hls =>
      rw [hlen] at hpos hle
      exact .more (h.mp hl) hpos hle hls
  intro hls
  cases hls with
  | last hl =>
    rw [← hlen]
    exact .last (h.mpr hl)
  | more hl hpos hle hls =>
    rw [← hlen] at hpos hle
    exact .more (h.mpr hl) hpos hle hls

theorem labels_text (h : Labels u k d (l :: ls) k' d') : LabelText u l := by
  cases h with
  | last hl | more hl => exact hl

theorem labels_nil_cons (h : ls ≠ []) :
    Labels u k d ([] :: ls) k' d' ↔ 0 < k ∧ k ≤ 63 ∧ Labels u 0 true ls k' d' := by
  constructor
  · intro hls
    cases hls with
    | last hl => exact absurd rfl h
    | more hl hpos hle hls => exact ⟨hpos,hle,hls⟩
  · rintro ⟨hpos,hle,hls⟩
    exact .more .nil hpos hle hls

theorem scanLabels_nil_iff :
    scanLabels u n [] k d = some (k',d') ↔ Labels u k d (([] : List Char).splitOn '.') k' d' := by
  have hsplit : ([] : List Char).splitOn '.' = [[]] := by simp [splitOn]
  have hscan : scanLabels u n [] k d = some (k,d) := by cases n <;> rfl
  rw [hsplit,hscan]
  constructor
  · intro h
    cases h
    exact .last .nil
  intro h
  cases h with
  | last hl => rfl
  | more hl hpos hle hls => cases hls

theorem scanLabels_iff (hn : s.length ≤ n) :
    scanLabels u n s k d = some (k',d') ↔ Labels u k d (s.splitOn '.') k' d' := by
  induction n generalizing s k d with
  | zero =>
    obtain rfl : s = [] := eq_nil_of_length_eq_zero (by omega)
    exact scanLabels_nil_iff
  | succ n ih =>
    cases s with
    | nil => exact scanLabels_nil_iff
    | cons c cs =>
      obtain ⟨l,ls,hsplit⟩ := exists_splitOn (b := '.') cs
      simp only [length_cons] at hn
      have hcs : cs.length ≤ n := by omega
      unfold scanLabels
      split
      · rename_i hhigh
        have hdot : c ≠ '.' := by
          rintro rfl
          exact absurd hhigh (by decide)
        split
        · rename_i hu
          simp only [false_iff,reduceCtorEq]
          rw [splitOn_cons hdot,hsplit,modifyHead_cons]
          intro h
          rw [(labelText_high hhigh (labels_text h)).1] at hu
          cases hu
        rename_i hu
        obtain rfl : u = true := by simpa using hu
        dsimp only
        split
        · rename_i hseq
          simp only [false_iff,reduceCtorEq]
          rw [splitOn_cons hdot,hsplit,modifyHead_cons]
          intro h
          obtain ⟨-,m,t,hm,hsc,ht,-⟩ := labelText_high hhigh (labels_text h)
          obtain ⟨rest,hrest⟩ := splitOn_front hsplit
          obtain ⟨e,es,he,-⟩ := exists_cons_utf8Bytes hm hsc
          rw [hrest,← cons_append,ht,append_assoc,
            utf8SequenceLen_utf8Bytes hm hsc,he] at hseq
          cases hseq
        rename_i hseq
        obtain ⟨m,t,hm,hsc,ht⟩ := exists_utf8Bytes hseq
        obtain ⟨e,es,he,-⟩ := exists_cons_utf8Bytes hm hsc
        obtain ⟨p,ps,hp⟩ := exists_splitOn (b := '.') t
        have hlen : t.length ≤ n := by
          have := congrArg List.length ht
          simp only [he,length_cons,length_append] at this
          omega
        rw [ht,utf8SequenceLen_utf8Bytes hm hsc,drop_left,ih hlen,
          splitOn_append (dot_not_mem_utf8Bytes hm hsc),hp,modifyHead_cons,
          labels_append (labelText_utf8Bytes hm hsc)]
      · have hc : c.toNat ≤ 0x7f := by omega
        by_cases hdot : c = '.'
        · subst hdot
          rw [if_neg (by decide),if_pos rfl,splitOn_break,labels_nil_cons (by simp [hsplit])]
          split
          · simp only [false_iff,reduceCtorEq]
            omega
          rw [ih hcs]
          constructor
          · exact fun h => ⟨by omega,by omega,h⟩
          · exact fun h => h.2.2
        rw [splitOn_cons hdot,hsplit,modifyHead_cons]
        cases hv : validDomainChar c with
        | false =>
          simp only [if_true,false_iff,reduceCtorEq]
          intro h
          rw [((labelText_ascii hc).mp (labels_text h)).1] at hv
          cases hv
        | true =>
          have htext : LabelText u ([c] ++ l) ↔ LabelText u l := by
            rw [singleton_append,labelText_ascii hc]
            simp [hv,hdot]
          rw [if_neg (by simp),if_neg hdot,ih hcs,hsplit]
          exact (labels_append htext).symm

theorem labels_iff {last : List Char} (h : ls.getLast? = some last) :
    Labels u 0 d ls k' d' ↔ (∀ l ∈ ls, LabelText u l) ∧ (∀ l ∈ ls.dropLast, GoodLabel u l) ∧
      k' = last.length ∧ d' = (d || decide (2 ≤ ls.length)) := by
  induction ls generalizing d with
  | nil => cases h
  | cons l ls ih =>
    cases ls with
    | nil =>
      obtain rfl : l = last := by simpa using h
      constructor
      · intro hls
        cases hls with
        | last hl => simp [hl]
        | more hl hpos hle hls => cases hls
      · simp only [mem_singleton,forall_eq]
        rintro ⟨hl,-,rfl,rfl⟩
        have := Labels.last (k := 0) (d := d) hl
        simpa using this
    | cons m ms =>
      constructor
      · intro hls
        cases hls with
        | more hl hpos hle hls =>
          obtain ⟨htext,hgood,hk,hd⟩ := (ih h).mp hls
          refine ⟨forall_mem_cons.mpr ⟨hl,htext⟩,?_,hk,by simp [hd]⟩
          refine forall_mem_cons.mpr ⟨⟨?_,by omega,hl⟩,hgood⟩
          rintro rfl
          simp at hpos
      · rintro ⟨htext,hgood,hk,hd⟩
        obtain ⟨⟨hne,hle,hl⟩,hgood⟩ := forall_mem_cons.mp hgood
        have hpos : 0 < l.length := length_pos_iff.mpr hne
        refine .more hl (by omega) (by omega) ((ih h).mpr ⟨?_,hgood,hk,by simp [hd]⟩)
        exact (forall_mem_cons.mp htext).2

end

section

variable {u fqdnOnly : Bool} {n i k : Nat} {s rest : List Char}

theorem scanDomain_end {behind : List Char} {lastDot : Int} (hrest : s.drop i = [])
    (hi : i ≤ s.length) (hdot : lastDot = i-k-1) :
    scanDomain (s ++ behind) s.length u (n+1) i lastDot = some (some ((s.length : Int)-k-1)) := by
  have hend : i = s.length := Nat.le_antisymm hi (drop_eq_nil_iff.mp hrest)
  rw [scanDomain,if_neg (by omega),hdot,hend]

theorem scanDomain_eq {behind : List Char} {lastDot : Int} {d : Bool} (hrest : s.drop i = rest)
    (hi : i ≤ s.length) (hn : rest.length ≤ n) (hdot : lastDot = i-k-1) :
    scanDomain (s ++ behind) s.length u (n+1) i lastDot =
      some ((scanLabels u n rest k d).map (fun r => (s.length : Int)-r.1-1)) := by
  induction n generalizing i k lastDot d rest with
  | zero =>
    obtain rfl : rest = [] := eq_nil_of_length_eq_zero (by omega)
    rw [scanDomain_end hrest hi hdot]
    rfl
  | succ n ih =>
    cases rest with
    | nil =>
      rw [scanDomain_end hrest hi hdot]
      rfl
    | cons c cs =>
      have hlen : s.length-i = cs.length+1 := by
        have := congrArg List.length hrest
        simpa only [length_drop,length_cons] using this
      simp only [length_cons] at hn
      have hat : (s ++ behind)[i]? = some c := by
        rw [getElem?_append_left (by omega),← head?_drop,hrest]
        rfl
      have havail : ((s ++ behind).drop i).take (s.length-i) = c :: cs := by
        rw [drop_append_of_le_length hi,hrest,hlen]
        exact take_left' (by simp)
      have hnext : s.drop (i+1) = cs := by
        rw [← drop_drop,hrest]
        rfl
      rw [scanDomain,if_pos (by omega),hat]
      simp only [scanLabels,havail]
      by_cases hhigh : c.toNat > 0x7f
      · simp only [hhigh,if_true]
        by_cases hu : u = false
        · rw [if_pos hu,if_pos hu]
          rfl
        rw [if_neg hu,if_neg hu]
        by_cases hseq : utf8SequenceLen (c :: cs) = 0
        · simp [hseq]
        simp only [hseq,if_false]
        have hle : utf8SequenceLen (c :: cs) ≤ cs.length+1 := by
          obtain ⟨m,t,hm,hsc,ht⟩ := exists_utf8Bytes hseq
          have := congrArg List.length ht
          rw [ht,utf8SequenceLen_utf8Bytes hm hsc]
          simp only [length_cons,length_append] at this
          omega
        refine ih ?_ (by omega) ?_ (by push_cast; omega)
        · rw [← drop_drop,hrest]
        · simp only [length_drop,length_cons]
          omega
      simp only [hhigh,if_false]
      by_cases hv : validDomainChar c = false
      · rw [if_pos hv,if_pos hv]
        rfl
      rw [if_neg hv,if_neg hv]
      by_cases hc : c = '.'
      · rw [if_pos hc,if_pos hc]
        by_cases hk : k = 0
        · rw [if_pos (by omega),if_pos (.inl hk)]
          rfl
        rw [if_neg (by omega)]
        by_cases hk' : k > 63
        · rw [if_pos (by omega),if_pos (.inr hk')]
          rfl
        · rw [if_neg (by omega),if_neg (by omega)]
          exact ih hnext (by omega) (by omega) (by push_cast; omega)
      · rw [if_neg hc,if_neg hc]
        exact ih hnext (by omega) (by omega) (by push_cast; omega)

theorem getElem_last {front last : List Char} (behind : List Char) (hs : s = front ++ last)
    (hne : last ≠ []) :
    (s ++ behind)[s.length-last.length]? = last.head? ∧
      (s ++ behind)[s.length-1]? = last.getLast? := by
  have hpos : 0 < last.length := length_pos_iff.mpr hne
  subst hs
  constructor
  · rw [getElem?_append_left (by simp; omega),getElem?_append_right (by simp),
      head?_eq_getElem?]
    simp
  rw [getElem?_append_left (by simp; omega),getElem?_append_right (by simp; omega),
    getLast?_eq_getElem?]
  congr 1
  simp only [length_append]
  omega

theorem splitOn_name_dot (name : List Char) :
    (name ++ ['.']).splitOn '.' = name.splitOn '.' ++ [[]] := by
  rw [splitOn_append_cons_self]
  simp [splitOn]

theorem absoluteName_iff {last : List Char} (hlast : (s.splitOn '.').getLast? = some last)
    (hlen : 1 ≤ s.length ∧ s.length ≤ 255) (hgood : ∀ l ∈ (s.splitOn '.').dropLast, GoodLabel u l) :
    AbsoluteName u s ↔ last = [] := by
  constructor
  · rintro ⟨-,name,rfl,-⟩
    rw [splitOn_name_dot] at hlast
    simpa using hlast.symm
  rintro rfl
  obtain ⟨-,hs⟩ | ⟨name,rfl⟩ := getLast_splitOn hlast
  · rw [← hs] at hlen
    simp at hlen
  · rw [splitOn_name_dot,dropLast_concat] at hgood
    exact ⟨hlen.2,name,rfl,hgood⟩

theorem length_last {last : List Char} (hlast : (s.splitOn '.').getLast? = some last) :
    last.length ≤ s.length ∧ (last.length = s.length ↔ ¬ 2 ≤ (s.splitOn '.').length) := by
  obtain ⟨hs,rfl⟩ | ⟨front,rfl⟩ := getLast_splitOn hlast
  · simp [hs]
  obtain ⟨p,ps,hp⟩ := exists_splitOn (b := '.') front
  obtain ⟨q,qs,hq⟩ := exists_splitOn (b := '.') last
  rw [splitOn_append_cons_self,hp,hq]
  simp only [length_append,length_cons]
  omega

theorem domainName_iff {last : List Char} (hlast : (s.splitOn '.').getLast? = some last)
    (hlen : 1 ≤ s.length ∧ s.length ≤ 255) (htext : LabelText u last)
    (hgood : ∀ l ∈ (s.splitOn '.').dropLast, GoodLabel u l) :
    DomainName fqdnOnly u s ↔ last ≠ [] ∧ last.length ≤ 63 ∧ last.head? ≠ some '-' ∧
      last.getLast? ≠ some '-' ∧ (fqdnOnly = true → last.length ≠ s.length) := by
  have hshape : s.splitOn '.' = (s.splitOn '.').dropLast ++ [last] := by
    rw [getLast?_eq_some_iff] at hlast
    obtain ⟨front,hf⟩ := hlast
    rw [hf,dropLast_concat]
  have hall : (∀ l ∈ s.splitOn '.', GoodLabel u l) ↔ last ≠ [] ∧ last.length ≤ 63 := by
    rw [hshape]
    simp only [mem_append,mem_singleton]
    constructor
    · intro h
      exact ⟨(h last (.inr rfl)).1,(h last (.inr rfl)).2.1⟩
    · rintro ⟨hne,hle⟩ l (hl | rfl)
      · exact hgood l hl
      · exact ⟨hne,hle,htext⟩
  have hdots := (length_last hlast).2
  simp only [DomainName,hall,hlast,Option.mem_some_iff,forall_eq',Ne,hdots,not_not,hlen.1,hlen.2,
    true_and,and_assoc]

theorem scanDomain_start (s behind : List Char) (u : Bool) :
    scanDomain (s ++ behind) s.length u (s.length+1) 0 (-1) =
      some ((scanLabels u s.length s 0 false).map (fun r => (s.length : Int)-r.1-1)) :=
  scanDomain_eq rfl (by omega) (Nat.le_refl _) (by simp)

theorem exists_lastLabel (s : List Char) : ∃ last, (s.splitOn '.').getLast? = some last := by
  obtain ⟨l,ls,h⟩ := exists_splitOn (b := '.') s
  exact ⟨_,by rw [h]; exact getLast?_cons⟩

theorem validDomain_chars (h : validDomain s fqdnOnly u = true) :
    s ≠ [] ∧ ∀ c ∈ s, validDomainChar c = true ∨ u = true ∧ 0x80 ≤ c.toNat := by
  unfold validDomain at h
  split at h
  · cases h
  rename_i hlen
  split at h
  · cases h
  rename_i hscan
  obtain ⟨last,hlast⟩ := exists_lastLabel s
  have htext := ((labels_iff hlast).mp ((scanLabels_iff (Nat.le_refl _)).mp hscan)).1
  have hs : ['.'].intercalate (s.splitOn '.') = s := intercalate_splitOn '.'
  refine ⟨fun hnil => hlen (.inl hnil),?_⟩
  rw [← hs]
  exact intercalate_chars (.inl rfl) fun l hl => labelText_chars (htext l hl)

theorem validDomainAt_cString (s rest : List Char) (fqdnOnly allowUtf8 : Bool) :
    validDomainAt (s ++ '\x00' :: rest) s.length fqdnOnly allowUtf8 =
      some (validDomain s fqdnOnly allowUtf8) := by
  by_cases hlen : s.length = 0 ∨ s.length > 255
  · rw [validDomainAt,validDomain,if_pos hlen,if_pos (by simpa using hlen)]
  rw [validDomainAt,validDomain,if_neg hlen,if_neg (by simpa using hlen),scanDomain_start]
  cases hres : scanLabels allowUtf8 s.length s 0 false with
  | none => rfl
  | some r =>
    obtain ⟨k,d⟩ := r
    obtain ⟨last,hlast⟩ := exists_lastLabel s
    obtain ⟨-,-,hk,hd⟩ := (labels_iff hlast).mp ((scanLabels_iff (Nat.le_refl _)).mp hres)
    obtain ⟨hle,hdots⟩ := length_last hlast
    have hpos : ((s.length : Int)-k-1+1).toNat = s.length-k := by omega
    have hdot : (s.length : Int)-k-1 = -1 ↔ d = false := by
      rw [hd,Bool.false_or,decide_eq_false_iff_not,← hdots]
      omega
    have hend : (s ++ '\x00' :: rest)[s.length-1]? = s.getLast? := by
      rw [getElem?_append_left (by omega),getLast?_eq_getElem?]
    simp only [Option.map_some,hpos,hdot,hend]
    by_cases hlong : (s.length : Int)-((s.length : Int)-k-1+1) > 63
    · rw [if_pos hlong]
      simp
      omega
    rw [if_neg hlong]
    have hshort : k ≤ 63 := by omega
    by_cases hone : d = false ∧ fqdnOnly = true
    · simp [hone]
    have hfqdn : (d || !fqdnOnly) = true := by
      cases d <;> cases fqdnOnly <;> simp at hone ⊢
    obtain ⟨z,hz⟩ : ∃ z, s.getLast? = some z := by
      cases s with
      | nil => simp at hlen
      | cons c cs => exact ⟨_,getLast?_cons⟩
    obtain ⟨first,hfirst,hsame⟩ : ∃ first, (s ++ '\x00' :: rest)[s.length-k]? = some first ∧
        (first = '-' ↔ s[s.length-k]? = some '-') := by
      by_cases hk0 : k = 0
      · exact ⟨'\x00',by simp [hk0],by simp [hk0]⟩
      · have hlt : s.length-k < s.length := by omega
        refine ⟨s[s.length-k],?_,by simp [hlt]⟩
        rw [getElem?_append_left hlt,getElem?_eq_getElem hlt]
    rw [if_neg hone,hfirst,hz]
    by_cases hhyphen : first = '-'
    · simp [hhyphen,hsame.mp hhyphen]
    · have hno : ¬ s[s.length-k]? = some '-' := fun h => hhyphen (hsame.mpr h)
      simp only [hhyphen,if_false,hfqdn]
      simp [hshort,hno]

/-- Accepted is the language, and nothing behind the domain is read, unless it is absolute: then
the byte behind it decides. -/
theorem valid_domain_language (fqdnOnly allowUtf8 : Bool) (s : List Char) :
    (∀ behind, ∃ b, validDomainAt (s ++ behind) s.length fqdnOnly allowUtf8 = some b ∧
      (b = true ↔ DomainName fqdnOnly allowUtf8 s)) ↔ ¬ AbsoluteName allowUtf8 s := by
  by_cases hlen : s.length = 0 ∨ s.length > 255
  · have hname : ¬ DomainName fqdnOnly allowUtf8 s := fun h => by
      have := h.1
      have := h.2.1
      omega
    have habs : ¬ AbsoluteName allowUtf8 s := by
      rintro ⟨hle,name,rfl,-⟩
      simp only [length_append,length_cons,length_nil] at hlen hle
      omega
    simp only [habs,not_false_iff,iff_true]
    intro behind
    exact ⟨false,by rw [validDomainAt,if_pos hlen],by simp [hname]⟩
  have hscan := fun behind => scanDomain_start s behind allowUtf8
  obtain ⟨last,hlast⟩ := exists_lastLabel s
  have hmem : last ∈ s.splitOn '.' := mem_of_getLast? hlast
  have hlabels : ∀ k d, scanLabels allowUtf8 s.length s 0 false = some (k,d) ↔ _ :=
    fun k d => (scanLabels_iff (Nat.le_refl _)).trans (labels_iff hlast)
  cases hres : scanLabels allowUtf8 s.length s 0 false with
  | none =>
    simp only [hres,Option.map_none] at hscan
    have hbad : ¬ ((∀ l ∈ s.splitOn '.', LabelText allowUtf8 l) ∧
        ∀ l ∈ (s.splitOn '.').dropLast, GoodLabel allowUtf8 l) := by
      intro h
      have := (hlabels _ _).mpr ⟨h.1,h.2,rfl,rfl⟩
      rw [hres] at this
      cases this
    have hname : ¬ DomainName fqdnOnly allowUtf8 s := fun h =>
      hbad ⟨fun l hl => (h.2.2.1 l hl).2.2,fun l hl => h.2.2.1 l (dropLast_subset _ hl)⟩
    have habs : ¬ AbsoluteName allowUtf8 s := by
      rintro ⟨-,name,rfl,hgood⟩
      rw [splitOn_name_dot,dropLast_concat] at hbad
      refine hbad ⟨?_,hgood⟩
      simp only [mem_append,mem_singleton]
      rintro l (hl | rfl)
      · exact (hgood l hl).2.2
      · exact .nil
    simp only [habs,not_false_iff,iff_true]
    intro behind
    exact ⟨false,by rw [validDomainAt,if_neg hlen,hscan],by simp [hname]⟩
  | some r =>
    obtain ⟨k,d⟩ := r
    obtain ⟨htext,hgood,rfl,hd⟩ := (hlabels k d).mp hres
    simp only [hres,Option.map_some] at hscan
    have hlen' : 1 ≤ s.length ∧ s.length ≤ 255 := by omega
    rw [absoluteName_iff hlast hlen' hgood]
    simp only [domainName_iff hlast hlen' (htext last hmem) hgood]
    have hpos : ((s.length : Int)-last.length-1+1).toNat = s.length-last.length := by omega
    by_cases hlong : last.length > 63
    · have hne : last ≠ [] := by
        rintro rfl
        simp at hlong
      simp only [hne,not_false_iff,iff_true]
      intro behind
      refine ⟨false,?_,by simp; omega⟩
      simp only [validDomainAt,hlen,if_false,hscan]
      rw [if_pos (by omega)]
    by_cases hone : last.length = s.length ∧ fqdnOnly = true
    · have hne : last ≠ [] := by
        rintro rfl
        simp only [length_nil] at hone
        omega
      simp only [hne,not_false_iff,iff_true]
      intro behind
      refine ⟨false,?_,by simp [hone]⟩
      simp only [validDomainAt,hlen,if_false,hscan]
      rw [if_neg (by omega),if_pos ⟨by omega,hone.2⟩]
    have hread : ∀ behind, validDomainAt (s ++ behind) s.length fqdnOnly allowUtf8 =
        match (s ++ behind)[s.length-last.length]? with
        | none => none
        | some first =>
          if first = '-' then some false
          else
            match (s ++ behind)[s.length-1]? with
            | none => none
            | some last => some (last ≠ '-') := by
      intro behind
      simp only [validDomainAt,hlen,if_false,hscan]
      rw [if_neg (by omega),if_neg (fun h => hone ⟨by omega,h.2⟩),hpos]
    by_cases hne : last = []
    · -- the byte behind the domain is read
      simp only [hne,not_true_eq_false,iff_false]
      intro h
      obtain ⟨b,hb,-⟩ := h []
      rw [hread,hne] at hb
      simp at hb
    simp only [hne,not_false_iff,iff_true]
    intro behind
    obtain ⟨front,hfront⟩ : ∃ front, s = front ++ last := by
      obtain ⟨-,hs⟩ | ⟨front,hs⟩ := getLast_splitOn hlast
      · exact ⟨[],hs.symm⟩
      · exact ⟨front ++ ['.'],by simpa using hs⟩
    obtain ⟨first,hfirst⟩ : ∃ first, last.head? = some first := by
      cases last with
      | nil => exact absurd rfl hne
      | cons c cs => exact ⟨c,rfl⟩
    obtain ⟨final,hfinal⟩ : ∃ final, last.getLast? = some final := by
      cases last with
      | nil => exact absurd rfl hne
      | cons c cs => exact ⟨_,getLast?_cons⟩
    obtain ⟨hhead,hend⟩ := getElem_last behind hfront hne
    rw [hread,hhead,hend,hfirst,hfinal]
    have hdot : fqdnOnly = true → last.length ≠ s.length := fun h h' => hone ⟨h',h⟩
    by_cases hhyphen : first = '-'
    · exact ⟨false,by simp [hhyphen],by simp [hhyphen]⟩
    refine ⟨decide (final ≠ '-'),by simp [hhyphen],?_⟩
    simp only [decide_eq_true_eq,Ne,Option.some.injEq]
    constructor
    · exact fun h => ⟨hne,by omega,hhyphen,h,hdot⟩
    · exact fun h => h.2.2.2.1

/-- The name "a." is no domain name, and the byte behind it is read: "a." in memory that ends
there, and "a." in front of a NUL, which is accepted. -/
theorem valid_domain_trailing_dot :
    validDomainAt ['a','.'] 2 false false = none ∧
      validDomainAt ['a','.','\x00'] 2 true false = some true ∧
      validDomainAt ['a','.','-'] 2 true false = some false ∧
      ¬ DomainName true false ['a','.'] := by
  refine ⟨by decide,by decide,by decide,?_⟩
  intro h
  exact (h.2.2.1 [] (by decide)).1 rfl

end

end Lorentz
