import Lorentz.Lookup
import Lorentz.Library.Utf8

/-!
The two enumerations of the ABP patterns of a domain: the offsets `in_gravity` walks over, and the
in-place construction of `gen_abp_patterns` for the search API.
-/

set_option autoImplicit false

namespace Lorentz
open CString Suffix List

/-- A list matches a domain if it has for one of the groups the domain or, with ABP entries in
use, the pattern of one of its first 128 suffixes. -/
def listMatches (abpFormat antigravity : Bool) (view : List ViewRow) (groups : List Int)
    (domain : List Char) : Bool :=
  onList view domain groups || (abpFormat &&
    ((suffixes '.' domain).take ABP_MAX_SUFFIXES).any
      (fun s => onList view (abpPattern antigravity s) groups))

theorem genAbpFwd_eq (p : List Char) (pos : Nat) (fwd : List Nat)
    (h : fwd.length ≤ ABP_MAX_SUFFIXES) :
    genAbpFwd p pos fwd =
      fwd ++ (positions '.' pos p).take (ABP_MAX_SUFFIXES-fwd.length) := by
  induction p generalizing pos fwd with
  | nil => simp [genAbpFwd,positions]
  | cons c r ih =>
    by_cases hroom : fwd.length < ABP_MAX_SUFFIXES
    · by_cases hc : c = '.'
      · have hlen : (fwd ++ [pos+1]).length ≤ ABP_MAX_SUFFIXES := by simp; omega
        have hroom' : ABP_MAX_SUFFIXES-fwd.length = (ABP_MAX_SUFFIXES-(fwd.length+1))+1 := by
          omega
        simp only [genAbpFwd,positions,hroom,hc,if_true]
        rw [ih (pos+1) (fwd ++ [pos+1]) hlen,hroom',take_succ_cons]
        simp
      · simp only [genAbpFwd,positions,hroom,hc,if_true,if_false]
        exact ih (pos+1) fwd h
    · have hfull : ABP_MAX_SUFFIXES-fwd.length = 0 := by omega
      simp [genAbpFwd,hroom,hfull]

theorem genAbpFwd_length (p : List Char) : (genAbpFwd p 0 [0]).length ≤ ABP_MAX_SUFFIXES := by
  rw [genAbpFwd_eq p 0 [0] (by decide)]
  simp only [length_append,length_cons,length_nil,length_take]
  have : 1 ≤ ABP_MAX_SUFFIXES := by decide
  omega

variable {g : Gravity} {b junk t dom : List Char} {c : Char}

theorem genAbpOffsets_suffixes (hg : g.abpFormat = true) (domain : List Char) :
    (genAbpOffsets g domain).map (fun s => (domain.drop s.1).take s.2) =
      ((suffixes '.' domain).take ABP_MAX_SUFFIXES).reverse := by
  have hfwd : genAbpFwd domain 0 [0] = (0 :: positions '.' 0 domain).take ABP_MAX_SUFFIXES := by
    rw [genAbpFwd_eq domain 0 [0] (by decide)]
    rfl
  have hmap : (0 :: positions '.' 0 domain).map (fun i => domain.drop i) = suffixes '.' domain := by
    simp [suffixes,map_drop_positions]
  simp only [genAbpOffsets,hg,Bool.not_true,Bool.false_eq_true,if_false,map_map]
  rw [← hmap,hfwd,← map_take,← map_reverse]
  refine map_congr_left fun off _ => ?_
  exact take_of_length_le (by simp)

theorem inGravity_of_available {w : World} (h : Available w g) (antigravity : Bool)
    (domain : List Char) (listID : Int) (c : CheckState) :
    (inGravity w g antigravity domain listID c).1 =
      if (!antigravity || g.hasAntigravity) &&
        listMatches g.abpFormat antigravity (g.gravityView antigravity)
          (c.resolve w g).client.groups domain then .found else .notFound := by
  unfold listMatches
  cases hskip : antigravity && !g.hasAntigravity with
  | true =>
    have hno : (!antigravity || g.hasAntigravity) = false := by simpa using hskip
    simp [inGravity,hskip,hno]
  | false =>
    have hyes : (!antigravity || g.hasAntigravity) = true := by
      cases antigravity <;> simp_all
    simp only [inGravity,hskip,h.opened,prepare_of_available h,Bool.not_true,hyes,Bool.true_and]
    generalize g.gravityView antigravity = view
    by_cases hg : (c.resolve w g).client.groups = []
    · simp [hg,onList_nil_groups]
    have hd := domainInList_of_available h (c.resolve w g).tick view domain
      (c.resolve w g).client.groups listID
    by_cases hon : onList view domain (c.resolve w g).client.groups = true
    · simp [hg,hd,hon]
    cases habp : g.abpFormat with
    | false => simp [hg,hd,hon]
    | true =>
      have hps : (genAbpOffsets g domain).map
          (fun s => abpPattern antigravity ((domain.drop s.1).take s.2)) =
          ((suffixes '.' domain).take ABP_MAX_SUFFIXES).reverse.map (abpPattern antigravity) := by
        rw [← genAbpOffsets_suffixes habp domain,map_map]
        rfl
      simp only [hg,hd,hon,hps,inGravityAbp_of_available h,any_map]
      simp [Function.comp_def]

theorem take_suffixes (domain : List Char) (h : domain.count '.' < ABP_MAX_SUFFIXES) :
    (suffixes '.' domain).take ABP_MAX_SUFFIXES = suffixes '.' domain := by
  refine take_of_length_le ?_
  simp only [suffixes,length_cons,length_behind]
  omega

/-- The pattern of a suffix as `in_gravity` builds it in `char pattern[264]`, with `buf` left over
from before. -/
def buildPattern (antigravity : Bool) (domain : List Char) (off len : Nat) (buf : List Char) :
    Option (List Char) := do
  let intro := abpIntro antigravity
  let b ← write buf 0 intro
  let b ← if off+len ≤ domain.length then write b intro.length ((domain.drop off).take len) else none
  let b ← write b (intro.length+len) ['^']
  write b (intro.length+len+1) [NUL]

/-- One round of the loop of `gen_abp_patterns`: `comp` is put behind the intro and a caret in the
end. -/
def insertComponent (comp abpDomain : List Char) : Option (List Char) := do
  let len ← strlen abpDomain
  let b ← memmove abpDomain (4+comp.length) 4 (len-3)
  let b ← write b 4 comp
  let finalPos ← strlen b
  if 0 < finalPos ∧ b[finalPos-1]? ≠ some '^' then write b finalPos ['^',NUL] else some b

def insertDot (abpDomain : List Char) : Option (List Char) := do
  let len ← strlen abpDomain
  let b ← memmove abpDomain 5 4 len
  write b 4 ['.']

/-- The component `gen_abp_patterns` takes off the end of the name, with its dot. -/
def lastComponent (domainBuf : List Char) : List Char :=
  (strrchr '.' domainBuf).getD domainBuf

def withoutDot (ptr : List Char) : List Char :=
  if ptr.head? = some '.' then ptr.tail else ptr

def genAbpLoop : Nat → List Char → List Char → List (List Char) → Option (List (List Char))
  | 0, _, _, patterns => some patterns
  | N+1, domainBuf, abpDomain, patterns => do
    let ptr := lastComponent domainBuf
    let b ← insertComponent (withoutDot ptr) abpDomain
    let patterns := patterns ++ [text b]
    let truncatePos := domainBuf.length-ptr.length
    if truncatePos < 1 then some patterns
    else
      let b ← insertDot b
      genAbpLoop N (domainBuf.take truncatePos) b patterns

/-- `gen_abp_patterns`: the outer `none` is an access outside a buffer, the inner one NULL without
ABP entries. -/
def genAbpPatterns (g : Gravity) (domain : List Char) : Option (Option (List (List Char))) :=
  if !g.abpFormat then some none
  else
    let domainBuf := domain.take 255
    let abpDomain := "@@||".toList ++ List.replicate 508 NUL
    (genAbpLoop (domainBuf.count '.'+1) domainBuf abpDomain []).map some

def closePattern (s : List Char) : List Char :=
  if s.getLast? = some '^' then s else s ++ ['^']

/-- The strings `gen_abp_patterns` adds, when the text behind the intro is `t`. -/
def abpStrings : Nat → List Char → List Char → List (List Char)
  | 0, _, _ => []
  | N+1, dom, t =>
    let ptr := lastComponent dom
    let p := closePattern ("@@||".toList ++ withoutDot ptr ++ t)
    p :: if dom.length-ptr.length < 1 then []
      else abpStrings N (dom.take (dom.length-ptr.length)) ('.' :: p.drop 4)

theorem getLast?_holds {s : List Char} (h : Holds b s junk) (hs : 0 < s.length) :
    b[s.length-1]? = s.getLast? := by
  rw [h.2,getElem?_append_left (by omega),getLast?_eq_getElem?]

theorem insertComponent_holds {comp : List Char} (h : Holds b ("@@||".toList ++ t) junk)
    (hc : NUL ∉ comp) (hroom : comp.length+(if t = [] then 1 else 0) ≤ junk.length)
    (ht : t = [] ∨ t.getLast? = some '^') :
    ∃ b' junk' : List Char, insertComponent comp b = some b' ∧
      Holds b' (closePattern ("@@||".toList ++ comp ++ t)) junk' ∧
      junk.length ≤ junk'.length+comp.length+(if t = [] then 1 else 0) := by
  obtain ⟨b₁,b₂,hm,hw,hh⟩ := h.insert hc (by split at hroom <;> omega)
  have hm' : memmove b (4+comp.length) 4 (("@@||".toList ++ t).length-3) = some b₁ := by
    exact hm
  have hpos : 0 < ("@@||".toList ++ comp ++ t).length := by simp
  have hlast := getLast?_holds hh hpos
  by_cases hcaret : ("@@||".toList ++ comp ++ t).getLast? = some '^'
  · refine ⟨b₂,junk.drop comp.length,?_,?_,?_⟩
    · simp only [insertComponent,h.strlen_eq,hm',show write b₁ 4 comp = some b₂ from hw,
        hh.strlen_eq,Option.bind_eq_bind,Option.bind_some,hlast,hcaret]
      simp
    · rw [closePattern,if_pos hcaret]
      exact hh
    · simp
      split <;> omega
  have hnil : t = [] := by
    rcases ht with ht | ht
    · exact ht
    · exfalso
      apply hcaret
      rw [getLast?_append_of_ne_nil _ (by rintro rfl; simp at ht),ht]
  have hdrop : ∃ x rest, junk.drop comp.length = x :: rest := by
    cases hd : junk.drop comp.length with
    | nil =>
      have := drop_eq_nil_iff.mp hd
      simp only [hnil,if_true] at hroom
      omega
    | cons x rest => exact ⟨x,rest,rfl⟩
  obtain ⟨x,rest,hd⟩ := hdrop
  rw [hd] at hh
  obtain ⟨b₃,hw₃,hh₃⟩ := hh.append (show ('^' : Char) ≠ NUL by decide)
  refine ⟨b₃,rest,?_,?_,?_⟩
  · simp only [insertComponent,h.strlen_eq,hm',show write b₁ 4 comp = some b₂ from hw,
      hh.strlen_eq,Option.bind_eq_bind,Option.bind_some,hlast]
    rw [if_pos ⟨hpos,hcaret⟩]
    exact hw₃
  · rw [closePattern,if_neg hcaret]
    exact hh₃
  · have hl : (junk.drop comp.length).length = rest.length+1 := by rw [hd]; rfl
    simp only [length_drop] at hl
    simp only [hnil,if_true]
    omega

theorem insertDot_holds (h : Holds b ("@@||".toList ++ t) junk) (hroom : 4 ≤ junk.length) :
    ∃ b' junk' : List Char, insertDot b = some b' ∧
      Holds b' ("@@||".toList ++ '.' :: t) junk' ∧ junk'.length+1 = junk.length := by
  have hlenb := h.strlen_eq
  obtain ⟨hn,hb⟩ := h
  -- the move takes three bytes behind the NUL along
  obtain ⟨g,hg,hm⟩ := memmove_right "@@||".toList (t ++ NUL :: junk.take 3) (junk.drop 3) ['.']
    (by simp; omega)
  have hshape : b = "@@||".toList ++ (t ++ NUL :: junk.take 3) ++ junk.drop 3 := by
    rw [hb]
    simp
  have hlen : (t ++ NUL :: junk.take 3).length = ("@@||".toList ++ t).length := by
    simp
    omega
  have hw := write_append "@@||".toList g
    (t ++ NUL :: junk.take 3 ++ (junk.drop 3).drop 1) ['.'] hg.symm
  refine ⟨"@@||".toList ++ ['.'] ++ (t ++ NUL :: junk.take 3 ++ (junk.drop 3).drop 1),
    junk.take 3 ++ (junk.drop 3).drop 1,?_,⟨?_,by simp⟩,?_⟩
  · have hm' : memmove b 5 4 ("@@||".toList ++ t).length =
        some ("@@||".toList ++ g ++ (t ++ NUL :: junk.take 3) ++ (junk.drop 3).drop 1) := by
      rw [hshape,← hlen]
      exact hm
    simp only [insertDot,hlenb,Option.bind_eq_bind,Option.bind_some,hm']
    rw [← hw]
    simp
  · simp only [mem_append,mem_cons,not_or] at hn ⊢
    exact ⟨hn.1,by decide,hn.2⟩
  · simp
    omega

theorem closePattern_intro (s : List Char) :
    ∃ t : List Char, closePattern ("@@||".toList ++ s) = "@@||".toList ++ t ∧
      t.getLast? = some '^' ∧ t.length ≤ s.length+1 := by
  by_cases h : ("@@||".toList ++ s).getLast? = some '^'
  · refine ⟨s,by rw [closePattern,if_pos h],?_,by omega⟩
    cases hs : s with
    | nil => simp [hs] at h
    | cons x r =>
      rw [hs,getLast?_append_of_ne_nil _ (by simp)] at h
      exact h
  · refine ⟨s ++ ['^'],?_,by simp,by simp⟩
    rw [closePattern,if_neg h,append_assoc]

theorem lastComponent_length (dom : List Char) : (lastComponent dom).length ≤ dom.length := by
  unfold lastComponent
  by_cases h : '.' ∈ dom
  · obtain ⟨p,c,rfl,hc⟩ := exists_last '.' dom h
    simp [strrchr_eq_some '.' p c hc]
  · simp [(strrchr_eq_none '.' dom).mpr h]

theorem withoutDot_length (ptr : List Char) : (withoutDot ptr).length ≤ ptr.length := by
  unfold withoutDot
  split <;> simp

theorem mem_lastComponent (h : c ∈ lastComponent dom) : c ∈ dom := by
  unfold lastComponent at h
  by_cases hd : '.' ∈ dom
  · obtain ⟨p,t,rfl,ht⟩ := exists_last '.' dom hd
    rw [strrchr_eq_some '.' p t ht] at h
    exact mem_append_right p h
  · simpa [(strrchr_eq_none '.' dom).mpr hd] using h

theorem mem_withoutDot {ptr : List Char} (h : c ∈ withoutDot ptr) : c ∈ ptr := by
  unfold withoutDot at h
  split at h
  · exact mem_of_mem_tail h
  · exact h

theorem lastComponent_eq_cons (h : ¬ dom.length-(lastComponent dom).length < 1) :
    lastComponent dom = '.' :: withoutDot (lastComponent dom) := by
  by_cases hd : '.' ∈ dom
  · obtain ⟨p,c,rfl,hc⟩ := exists_last '.' dom hd
    simp [lastComponent,withoutDot,strrchr_eq_some '.' p c hc]
  · simp [lastComponent,(strrchr_eq_none '.' dom).mpr hd] at h

theorem genAbpLoop_eq (N : Nat) (dom b t junk : List Char) (patterns : List (List Char))
    (hb : Holds b ("@@||".toList ++ t) junk) (hn : NUL ∉ dom)
    (ht : t = [] ∨ t.getLast? = some '^')
    (hroom : dom.length+4+(if t = [] then 1 else 0) ≤ junk.length) :
    genAbpLoop N dom b patterns = some (patterns ++ abpStrings N dom t) := by
  induction N generalizing dom b t junk patterns with
  | zero => simp [genAbpLoop,abpStrings]
  | succ N ih =>
    have hptr := lastComponent_length dom
    have hcomp := withoutDot_length (lastComponent dom)
    have hnc : NUL ∉ withoutDot (lastComponent dom) := fun h =>
      hn (mem_lastComponent (mem_withoutDot h))
    obtain ⟨b₁,junk₁,hins,hb₁,hj₁⟩ := insertComponent_holds hb hnc
      (by split at hroom <;> split <;> simp_all <;> omega) ht
    simp only [genAbpLoop,hins,Option.bind_eq_bind,Option.bind_some,abpStrings,hb₁.text_eq]
    by_cases hlast : dom.length-(lastComponent dom).length < 1
    · simp [hlast]
    have hcons := congrArg List.length (lastComponent_eq_cons hlast)
    obtain ⟨t₁,hclose,hcaret,-⟩ :=
      closePattern_intro (withoutDot (lastComponent dom) ++ t)
    rw [← append_assoc] at hclose
    rw [hclose] at hb₁
    obtain ⟨b₂,junk₂,hdot,hb₂,hj₂⟩ := insertDot_holds hb₁ (by split at hroom <;> simp_all <;> omega)
    have hrest : (closePattern ("@@||".toList ++ withoutDot (lastComponent dom) ++ t)).drop 4 =
      t₁ := by
      rw [hclose]
      rfl
    simp only [if_neg hlast,hdot,Option.bind_some,hrest]
    rw [ih (dom.take (dom.length-(lastComponent dom).length)) b₂ ('.' :: t₁) junk₂ _ hb₂
      (fun h => hn (mem_of_mem_take h))
      (.inr (by rw [getLast?_cons_of_ne_nil (by rintro rfl; simp at hcaret)]; exact hcaret))
      (by simp; split at hroom <;> simp_all <;> omega)]
    simp

section

variable {N : Nat} {dom p c t tl : List Char}

theorem lastComponent_of_not_mem (h : '.' ∉ dom) : lastComponent dom = dom := by
  simp [lastComponent,(strrchr_eq_none '.' dom).mpr h]

theorem lastComponent_append (h : '.' ∉ c) : lastComponent (p ++ '.' :: c) = '.' :: c := by
  simp [lastComponent,strrchr_eq_some '.' p c h]

theorem withoutDot_of_not_mem (h : '.' ∉ dom) : withoutDot dom = dom := by
  unfold withoutDot
  cases dom with
  | nil => rfl
  | cons x r =>
    have hx : x ≠ '.' := fun hx => h (by simp [hx])
    simp [hx]

theorem abpStrings_of_not_mem (h : '.' ∉ dom)
    (hcl : closePattern ("@@||".toList ++ dom ++ t) = abpPattern true (dom ++ tl)) :
    abpStrings (N+1) dom t = [abpPattern true (dom ++ tl)] := by
  simp only [abpStrings,lastComponent_of_not_mem h,withoutDot_of_not_mem h,hcl]
  simp

theorem abpStrings_append (h : '.' ∉ c) (hp : p ≠ [])
    (hcl : closePattern ("@@||".toList ++ c ++ t) = abpPattern true (c ++ tl)) :
    abpStrings (N+1) (p ++ '.' :: c) t =
      abpPattern true (c ++ tl) :: abpStrings N p ('.' :: (c ++ tl) ++ ['^']) := by
  have hpos : ¬ (p ++ '.' :: c).length-('.' :: c).length < 1 := by
    simp
    omega
  have htake : (p ++ '.' :: c).take ((p ++ '.' :: c).length-('.' :: c).length) = p := by simp
  have hwd : withoutDot ('.' :: c) = c := rfl
  simp only [abpStrings,lastComponent_append h,hwd,hcl,if_neg hpos,htake]
  rfl

theorem closePattern_caret (a s : List Char) :
    closePattern ("@@||".toList ++ a ++ ('.' :: s ++ ['^'])) = abpPattern true (a ++ '.' :: s) := by
  have hlast : ("@@||".toList ++ a ++ ('.' :: s ++ ['^'])).getLast? = some '^' := by
    rw [getLast?_append_of_ne_nil _ (by simp),getLast?_concat]
  rw [closePattern,if_pos hlast]
  simp [abpPattern,abpIntro]

theorem head?_ne_of_append (h : (p ++ c).head? ≠ some '.') (hp : p ≠ []) : p.head? ≠ some '.' := by
  cases p with
  | nil => exact absurd rfl hp
  | cons x r => simpa using h

theorem ne_nil_of_head? (h : (p ++ '.' :: c).head? ≠ some '.') : p ≠ [] := by
  rintro rfl
  exact h rfl

theorem abpStrings_eq_caret (s : List Char) (hN : dom.count '.' < N)
    (hhead : dom.head? ≠ some '.') :
    abpStrings N dom ('.' :: s ++ ['^']) =
      ((suffixes '.' dom).map (fun a => a ++ '.' :: s)).reverse.map (abpPattern true) := by
  induction N generalizing dom s with
  | zero => omega
  | succ N ih =>
    by_cases hd : '.' ∈ dom
    · obtain ⟨p,c,rfl,hc⟩ := exists_last '.' dom hd
      have hp := ne_nil_of_head? hhead
      have hcount : p.count '.' < N := by
        simp only [count_append,count_cons_self] at hN
        omega
      rw [abpStrings_append hc hp (closePattern_caret c s),ih (c ++ '.' :: s) hcount
        (head?_ne_of_append hhead hp)]
      simp [suffixes,behind_append,behind,behind_eq_nil '.' c hc]
    · rw [abpStrings_of_not_mem hd (closePattern_caret dom s)]
      simp [suffixes,behind_eq_nil '.' dom hd]

theorem closePattern_of_ne (a : List Char) (h : a.getLast? ≠ some '^') :
    closePattern ("@@||".toList ++ a ++ []) = abpPattern true (a ++ []) := by
  have hlast : ("@@||".toList ++ a ++ []).getLast? ≠ some '^' := by
    cases a with
    | nil => decide
    | cons x r =>
      rw [append_nil,getLast?_append_of_ne_nil _ (by simp)]
      exact h
  rw [closePattern,if_neg hlast]
  simp [abpPattern,abpIntro]

theorem abpStrings_eq (hN : dom.count '.' < N) (hhead : dom.head? ≠ some '.')
    (hcaret : dom.getLast? ≠ some '^') :
    abpStrings N dom [] = (suffixes '.' dom).reverse.map (abpPattern true) := by
  cases N with
  | zero => omega
  | succ N =>
    by_cases hd : '.' ∈ dom
    · obtain ⟨p,c,rfl,hc⟩ := exists_last '.' dom hd
      have hp := ne_nil_of_head? hhead
      have hcount : p.count '.' < N := by
        simp only [count_append,count_cons_self] at hN
        omega
      have hlast : c.getLast? ≠ some '^' := by
        rintro hl
        apply hcaret
        rw [getLast?_append_of_ne_nil _ (by simp),
          getLast?_cons_of_ne_nil (by rintro rfl; simp at hl),hl]
      rw [abpStrings_append hc hp (closePattern_of_ne c hlast),
        abpStrings_eq_caret (c ++ []) hcount (head?_ne_of_append hhead hp)]
      simp [suffixes,behind_append,behind,behind_eq_nil '.' c hc]
    · rw [abpStrings_of_not_mem hd (closePattern_of_ne dom hcaret)]
      simp [suffixes,behind_eq_nil '.' dom hd]

end

theorem genAbpPatterns_eq (g : Gravity) (domain : List Char) (hlen : domain.length ≤ 255)
    (hn : NUL ∉ domain) :
    genAbpPatterns g domain =
      some (if g.abpFormat then some (abpStrings (domain.count '.'+1) domain []) else none) := by
  cases hg : g.abpFormat with
  | false => simp [genAbpPatterns,hg]
  | true =>
    have htake : domain.take 255 = domain := take_of_length_le hlen
    have hb : Holds ("@@||".toList ++ replicate 508 NUL) ("@@||".toList ++ [])
        (replicate 507 NUL) := ⟨by decide,rfl⟩
    have hloop := genAbpLoop_eq (domain.count '.'+1) domain _ [] _ [] hb hn (.inl rfl)
      (by simp only [if_true,length_replicate]; omega)
    simp only [genAbpPatterns,hg,htake,Bool.not_true,Bool.false_eq_true,if_false,if_true,hloop]
    simp

theorem mem_genAbpOffsets {domain : List Char} {s : Nat × Nat} (hs : s ∈ genAbpOffsets g domain) :
    s.1+s.2 = domain.length := by
  unfold genAbpOffsets at hs
  split at hs
  · simp at hs
  obtain ⟨off,hoff,rfl⟩ := mem_map.mp hs
  rw [mem_reverse,genAbpFwd_eq domain 0 [0] (by decide)] at hoff
  have hle : off ≤ domain.length := by
    rcases mem_append.mp hoff with h | h
    · simp only [mem_singleton] at h
      omega
    · exact mem_positions_le '.' domain off (mem_of_mem_take h)
  omega

theorem buildPattern_eq (g : Gravity) (antigravity : Bool) (domain buf : List Char)
    (hlen : domain.length ≤ 255) (hn : NUL ∉ domain) (hbuf : buf.length = MAXDOMAINLEN+8)
    (s : Nat × Nat) (hs : s ∈ genAbpOffsets g domain) :
    ∃ b : List Char, buildPattern antigravity domain s.1 s.2 buf = some b ∧
      text b = abpPattern antigravity ((domain.drop s.1).take s.2) := by
  have hsum := mem_genAbpOffsets hs
  have hintro : (abpIntro antigravity).length ≤ 4 := by cases antigravity <;> decide
  have hlen' : ((domain.drop s.1).take s.2).length = s.2 := by
    simp
    omega
  have hmax : MAXDOMAINLEN = 256 := rfl
  have hw : buildPattern antigravity domain s.1 s.2 buf =
      write buf 0 (abpPattern antigravity ((domain.drop s.1).take s.2) ++ [NUL]) := by
    rw [abpPattern,← write_bind_write _ _ _ _ (by simp; omega),
      ← write_bind_write _ _ _ _ (by simp; omega),← write_bind_write _ _ _ _ (by simp; omega)]
    simp only [buildPattern,hsum,le_refl,if_true,Option.bind_eq_bind,length_append,hlen',
      Option.bind_assoc,Nat.zero_add,length_singleton]
  have hpat : NUL ∉ abpPattern antigravity ((domain.drop s.1).take s.2) := by
    have hi : NUL ∉ abpIntro antigravity := by cases antigravity <;> decide
    simp only [abpPattern,mem_append,mem_singleton,not_or]
    exact ⟨⟨hi,fun h => hn (mem_of_mem_drop (mem_of_mem_take h))⟩,by decide⟩
  rw [hw]
  refine write_text buf _ hpat ?_
  simp only [abpPattern,length_append,hlen',length_singleton]
  omega

/-- `in_gravity` finds a name exactly when the flags set at the opening of the database let it look
and the list has the name or the pattern of one of its first 128 suffixes (all of them up to 128
labels), no buffer is overrun, and `gen_abp_patterns` lists the patterns from the last label to the
whole name. -/
theorem abp_matching_exact {w : World} {g : Gravity} (h : Available w g) (c : CheckState)
    (domain : List Char) (hlen : domain.length ≤ 255) (hn : NUL ∉ domain) :
    (∀ (antigravity : Bool) (listID : Int),
      (inGravity w g antigravity domain listID c).1 = .found ↔
        let view := g.gravityView antigravity
        let groups := (c.resolve w g).client.groups
        (antigravity = true → g.hasAntigravity = true) ∧
        (onList view domain groups = true ∨ (g.abpFormat = true ∧
          ∃ s ∈ (suffixes '.' domain).take ABP_MAX_SUFFIXES,
            onList view (abpPattern antigravity s) groups = true))) ∧
    (∀ s : List Char, s ∈ suffixes '.' domain ↔
      s = domain ∨ ∃ p : List Char, domain = p ++ '.' :: s) ∧
    (domain.count '.' < ABP_MAX_SUFFIXES →
      (suffixes '.' domain).take ABP_MAX_SUFFIXES = suffixes '.' domain) ∧
    (genAbpFwd domain 0 [0]).length ≤ ABP_MAX_SUFFIXES ∧
    (∀ (antigravity : Bool) (buf : List Char), buf.length = MAXDOMAINLEN+8 →
      ∀ s ∈ genAbpOffsets g domain, ∃ b : List Char,
        buildPattern antigravity domain s.1 s.2 buf = some b ∧
          text b = abpPattern antigravity ((domain.drop s.1).take s.2)) ∧
    (∃ r, genAbpPatterns g domain = some r) ∧
    (g.abpFormat = true → domain.head? ≠ some '.' → domain.getLast? ≠ some '^' →
      genAbpPatterns g domain =
        some (some ((suffixes '.' domain).reverse.map (abpPattern true)))) := by
  refine ⟨?_,mem_suffixes '.' domain,take_suffixes domain,genAbpFwd_length domain,?_,
    ⟨_,genAbpPatterns_eq g domain hlen hn⟩,?_⟩
  · intro antigravity listID
    rw [inGravity_of_available h antigravity domain listID c,ite_found_eq]
    cases antigravity <;> simp [listMatches]
  · intro antigravity buf hbuf s hs
    exact buildPattern_eq g antigravity domain buf hlen hn hbuf s hs
  · intro hg hhead hcaret
    rw [genAbpPatterns_eq g domain hlen hn,if_pos hg,
      abpStrings_eq (Nat.lt_succ_self _) hhead hcaret]

def abpSample (entry : List Char) : Gravity :=
  Gravity.load World.plain.engine { GravityDb.empty with
    gravity := [(entry,1)], adlist := [⟨1,true,0⟩], adlistByGroup := [(1,0)], abpDomains := true }

def CheckState.sample : CheckState :=
  { client := { ClientsData.wiped with groups := [0], flags := ⟨true,false,false⟩ }
    row := fun _ => false
    cache := DNSCacheData.wiped
    allowed := false
    statics := ⟨.unknown,"",.unknown,none,-1⟩
    tick := 0 }

theorem abp_matching_exact_suffix :
    (inGravity World.plain (abpSample "||b.c^".toList) false "a.b.c".toList (-1)
      CheckState.sample).1 = .found ∧
    genAbpPatterns (abpSample "||b.c^".toList) "a.b.c".toList =
      some (some ["@@||c^".toList,"@@||b.c^".toList,"@@||a.b.c^".toList]) := by
  have h := abp_matching_exact (g := abpSample "||b.c^".toList) (World.plain_available _)
    CheckState.sample "a.b.c".toList (by decide) (by decide)
  refine ⟨(h.1 false (-1)).mpr ⟨by simp,?_⟩,h.2.2.2.2.2.2 rfl (by decide) (by decide)⟩
  exact .inr ⟨rfl,"b.c".toList,by decide,by decide⟩

/-- A name with more suffixes than the offset array holds misses the entry of its last label, one
that ends in a caret gets no caret of its own, and an entry stored after the database was opened
without any is not looked for. -/
theorem abp_matching_incomplete :
    (let domain := List.replicate 128 '.' ++ ['x']
     (inGravity World.plain (abpSample "||x^".toList) false domain (-1)
        CheckState.sample).1 = .notFound ∧
      domain = List.replicate 127 '.' ++ '.' :: ['x'] ∧
      onList (abpSample "||x^".toList).db.vwGravity (abpPattern false ['x']) [0] = true) ∧
    genAbpPatterns (abpSample []) "a^".toList = some (some ["@@||a^".toList]) ∧
    (let db : GravityDb := { GravityDb.empty with
       antigravity := [("a".toList,1)], adlist := [⟨1,true,1⟩], adlistByGroup := [(1,0)] }
     (inGravity World.plain { Gravity.load World.plain.engine .empty with db := db } true
        "a".toList (-1) CheckState.sample).1 = .notFound ∧
      onList db.vwAntigravity "a".toList [0] = true) := by
  decide +kernel

end Lorentz
