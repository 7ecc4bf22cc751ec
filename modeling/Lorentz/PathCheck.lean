import Lorentz.Library.Paths
import Lorentz.Teleporter

/-!
The path check against the components of the paths: what `normalize_path` stores in its buffer,
which configurations `validate_config_paths` accepts, and what `resolve_config_paths` makes of
the others.
-/

set_option autoImplicit false

namespace Lorentz

open Paths List

def writeAt (out : List Char) (i : Nat) (c : Char) : Option (List Char) :=
  if i < out.length then some (out.set i c) else none

def copyAt (out : List Char) (o : Nat) : List Char → Option (List Char)
  | [] => some out
  | c :: seg =>
    match writeAt out o c with
    | none => none
    | some out => copyAt out (o+1) seg

def backOver (out : List Char) : Nat → Nat
  | 0 => 0
  | o+1 => if 1 < o+1 ∧ out[o]? ≠ some '/' then backOver out o else o+1

def storeSeparator (out : List Char) (o : Nat) : Option (List Char × Nat) :=
  if 1 < o then (writeAt out o '/').map (fun out => (out,o+1)) else some (out,o)

/-- The pass of the loop for one segment: the position behind it, or none for `return 0`. -/
def storeSegment (out : List Char) (o : Nat) (seg : List Char) :
    Option (List Char × Option Nat) :=
  if seg = ['.'] then some (out,some o)
  else if seg = ['.','.'] then
    let o := backOver out o
    some (out,some (if 1 < o then o-1 else o))
  else if 1 < o ∧ out.length ≤ o+1 then some (out,none)
  else
    match storeSeparator out o with
    | none => none
    | some (out,o) =>
      if out.length ≤ o+seg.length then some (out,none)
      else (copyAt out o seg).map (fun out => (out,some (o+seg.length)))

def storeSegments (out : List Char) (o : Nat) : List (List Char) → Option (List Char × Option Nat)
  | [] => some (out,some o)
  | seg :: segs =>
    match storeSegment out o seg with
    | none => none
    | some (out,none) => some (out,none)
    | some (out,some o) => storeSegments out o segs

/-- `normalize_path` with the buffer it is given: the buffer afterwards and the returned length.
-/
def normalizeInto (path out : List Char) : Option (List Char × Nat) :=
  if path.head? ≠ some '/' ∨ out.length < 2 then some (out,0)
  else
    match writeAt out 0 '/' with
    | none => none
    | some out =>
      match storeSegments out 1 (pathSegments path) with
      | none => none
      | some (out,none) => some (out,0)
      | some (out,some o) => (writeAt out o '\x00').map (fun out => (out,o))

section

variable {out : List Char} {o : Nat}

theorem take_set_succ (ho : o < out.length) (c : Char) :
    (out.set o c).take (o+1) = out.take o ++ [c] := by
  rw [take_add_one,take_set_of_le (Nat.le_refl o)]
  simp [ho]

theorem take_snoc {q : List Char} {x : Char} (h : out.take (q.length+1) = q ++ [x]) :
    out.take q.length = q ∧ out[q.length]? = some x := by
  constructor
  · have := congrArg (List.take q.length) h
    simpa [take_take] using this
  · have := congrArg (fun l => l[q.length]?) h
    simpa [getElem?_take] using this

theorem writeAt_eq (ho : o < out.length) (c : Char) : writeAt out o c = some (out.set o c) :=
  if_pos ho

theorem copyAt_eq (out : List Char) (o : Nat) (seg : List Char)
    (ho : o+seg.length ≤ out.length) :
    ∃ out', copyAt out o seg = some out' ∧ out'.length = out.length ∧
      out'.take (o+seg.length) = out.take o ++ seg := by
  induction seg generalizing out o with
  | nil => exact ⟨out,rfl,rfl,by simp⟩
  | cons c seg ih =>
    simp only [length_cons] at ho
    have hlt : o < out.length := by omega
    obtain ⟨out',hcopy,hlen,htake⟩ := ih (out.set o c) (o+1) (by simp; omega)
    refine ⟨out',by simp [copyAt,writeAt_eq hlt,hcopy],by simpa using hlen,?_⟩
    rw [take_set_succ hlt] at htake
    rw [length_cons,show o+(seg.length+1) = o+1+seg.length by omega,htake]
    simp

theorem backOver_eq {p c : List Char} (hc : '/' ∉ c)
    (ho : out.take (p ++ '/' :: c).length = p ++ '/' :: c) :
    backOver out (p ++ '/' :: c).length = p.length+1 := by
  induction c using reverseRecOn with
  | nil =>
    have hlast := (take_snoc (q := p) (x := '/') (by simpa using ho)).2
    simp [backOver,hlast]
  | append_singleton c x ih =>
    simp only [mem_append,mem_singleton,not_or] at hc
    have hlen : (p ++ '/' :: (c ++ [x])).length = (p ++ '/' :: c).length+1 := by simp; omega
    rw [hlen] at ho ⊢
    have hsnoc : out.take ((p ++ '/' :: c).length+1) = (p ++ '/' :: c) ++ [x] := ho.trans (by simp)
    obtain ⟨htake,hx⟩ := take_snoc hsnoc
    have hne : out[(p ++ '/' :: c).length]? ≠ some '/' := by
      rw [hx]
      simp [Ne.symm hc.2]
    rw [backOver,if_pos ⟨by simp,hne⟩]
    exact ih hc.1 htake

theorem take_of_begins {a b : List Char} (hb : out.take b.length = b) (h : a <+: b) :
    out.take a.length = a := by
  obtain ⟨z,rfl⟩ := h
  have := congrArg (List.take a.length) hb
  simpa [take_take] using this

end

theorem render_concat (cs : List (List Char)) (seg : List Char) :
    render (cs ++ [seg]) = joined cs ++ '/' :: seg := by
  rw [render_of_ne (by simp),joined_append]
  simp

theorem render_dropLast_begins (cs : List (List Char)) : render cs.dropLast <+: render cs := by
  induction cs using reverseRecOn with
  | nil => exact prefix_rfl
  | append_singleton cs c ih =>
    rw [dropLast_concat,render_concat]
    by_cases h : cs = []
    · subst h
      exact ⟨c,rfl⟩
    · rw [render_of_ne h]
      exact prefix_append _ _

variable {out seg : List Char} {cs : List (List Char)}

section

variable (hc : Clean cs)
include hc

theorem backOver_render (ho : out.take (render cs).length = render cs) :
    (if 1 < backOver out (render cs).length then backOver out (render cs).length-1
      else backOver out (render cs).length) = (render cs.dropLast).length := by
  induction cs using reverseRecOn with
  | nil => simp [backOver]
  | append_singleton cs c ih =>
    have hname := hc c (by simp)
    have hcs : Clean cs := fun x hx => hc x (mem_append_left _ hx)
    rw [render_concat] at ho ⊢
    rw [backOver_eq hname.2.1 ho,dropLast_concat]
    by_cases h : cs = []
    · simp [h]
    · have hpos := one_lt_length_joined hcs h
      rw [render_of_ne h,if_pos (by omega)]
      omega

theorem storeSeparator_eq (ho : out.take (render cs).length = render cs)
    (hroom : (render cs).length+1 < out.length ∨ cs = []) :
    ∃ sep, storeSeparator out (render cs).length = some (sep,(joined cs).length+1) ∧
      sep.length = out.length ∧ sep.take ((joined cs).length+1) = joined cs ++ ['/'] := by
  by_cases h : cs = []
  · subst h
    exact ⟨out,rfl,rfl,ho⟩
  have hj := one_lt_length_joined hc h
  rw [render_of_ne h] at ho hroom ⊢
  have hlt : (joined cs).length < out.length := by
    rcases hroom with hroom | hroom
    · omega
    · exact absurd hroom h
  refine ⟨out.set (joined cs).length '/',?_,by simp,?_⟩
  · simp [storeSeparator,hj,writeAt_eq hlt]
  · rw [take_set_succ hlt,ho]

theorem storeName_eq (hs : IsName seg) (hfit : (render cs).length < out.length)
    (ho : out.take (render cs).length = render cs) : ∃ out', out'.length = out.length ∧
      storeSegment out (render cs).length seg = some (out',
        if (render (cs ++ [seg])).length < out.length
        then some (render (cs ++ [seg])).length else none) ∧
      ((render (cs ++ [seg])).length < out.length →
        out'.take (render (cs ++ [seg])).length = render (cs ++ [seg])) := by
  obtain ⟨hne,hslash,hdot,hdd⟩ := hs
  have hlen : (render (cs ++ [seg])).length = (joined cs).length+1+seg.length := by
    rw [render_concat]
    simp
    omega
  by_cases hroom : (render cs).length+1 < out.length ∨ cs = []
  · obtain ⟨sep,hsep,hseplen,hseptake⟩ := storeSeparator_eq hc ho hroom
    have hno : ¬ (1 < (render cs).length ∧ out.length ≤ (render cs).length+1) := by
      rw [one_lt_length_render hc]
      rintro ⟨hcs,hle⟩
      rcases hroom with h | h
      · omega
      · exact hcs h
    by_cases hp : (render (cs ++ [seg])).length < out.length
    · obtain ⟨out',hcopy,hlen',htake⟩ := copyAt_eq sep ((joined cs).length+1) seg
        (by rw [hlen] at hp; omega)
      refine ⟨out',by rw [hlen',hseplen],?_,fun _ => ?_⟩
      · rw [hlen] at hp ⊢
        simp [storeSegment,hdot,hdd,hno,hsep,hseplen,hcopy,hp,Nat.not_le.2 hp]
      · rw [hlen,htake,hseptake,render_concat]
        simp
    · refine ⟨sep,hseplen,?_,fun h => absurd h hp⟩
      rw [hlen] at hp ⊢
      simp [storeSegment,hdot,hdd,hno,hsep,hseplen,hp,Nat.not_lt.1 hp]
  · rw [not_or] at hroom
    have hlong : ¬ (render (cs ++ [seg])).length < out.length := by
      have h1 := hroom.1
      rw [render_of_ne hroom.2] at h1
      omega
    refine ⟨out,rfl,?_,fun h => absurd h hlong⟩
    have h1 := (one_lt_length_render hc).2 hroom.2
    simp [storeSegment,hdot,hdd,h1,Nat.not_lt.1 hroom.1,hlong]

theorem storeSegment_eq (hs : seg ≠ []) (hslash : '/' ∉ seg)
    (hfit : (render cs).length < out.length) (ho : out.take (render cs).length = render cs) :
    ∃ out', out'.length = out.length ∧
      storeSegment out (render cs).length seg = some (out',
        if (render (push cs seg)).length < out.length
        then some (render (push cs seg)).length else none) ∧
      ((render (push cs seg)).length < out.length →
        out'.take (render (push cs seg)).length = render (push cs seg)) := by
  by_cases hdot : seg = ['.']
  · subst hdot
    exact ⟨out,rfl,by simp [storeSegment,push,hfit],fun _ => by simpa [push] using ho⟩
  by_cases hdd : seg = ['.','.']
  · subst hdd
    have hpre := render_dropLast_begins cs
    have hlt : (render cs.dropLast).length < out.length := lt_of_le_of_lt hpre.length_le hfit
    refine ⟨out,rfl,?_,fun _ => by simpa [push] using take_of_begins ho hpre⟩
    simp [storeSegment,push,hlt,backOver_render hc ho]
  · have hname : IsName seg := ⟨hs,hslash,hdot,hdd⟩
    rw [push_name cs hname]
    exact storeName_eq hc hname hfit ho

end

theorem storeSegments_eq (out : List Char) (cs : List (List Char)) {segs : List (List Char)}
    (hs : ∀ seg ∈ segs, seg ≠ [] ∧ '/' ∉ seg) (hc : Clean cs) (hfit : (render cs).length < out.length)
    (ho : out.take (render cs).length = render cs) :
    ∃ out', out'.length = out.length ∧
      storeSegments out (render cs).length segs = some (out',
        if Within out.length cs segs then some (render (resolve cs segs)).length else none) ∧
      (Within out.length cs segs →
        out'.take (render (resolve cs segs)).length = render (resolve cs segs)) := by
  induction segs generalizing cs out with
  | nil => exact ⟨out,rfl,by simp [storeSegments,within_nil,hfit,resolve],fun _ => ho⟩
  | cons seg segs ih =>
    have hseg := hs seg (mem_cons_self ..)
    have hsegs : ∀ s ∈ segs, s ≠ [] ∧ '/' ∉ s := fun s hm => hs s (mem_cons_of_mem _ hm)
    obtain ⟨mid,hmid,hstore,htake⟩ := storeSegment_eq hc hseg.1 hseg.2 hfit ho
    by_cases hp : (render (push cs seg)).length < out.length
    · obtain ⟨out',hlen,hrest,htake'⟩ := ih mid (push cs seg) hsegs (hc.push hseg.2) (hmid ▸ hp)
        (htake hp)
      rw [hmid] at hlen hrest htake'
      refine ⟨out',hlen,?_,fun hw => htake' ((within_cons ..).1 hw).2⟩
      rw [storeSegments,hstore,if_pos hp]
      simpa [within_cons,hfit,resolve] using hrest
    have hw : ¬ Within out.length cs (seg :: segs) := by
      intro hw
      exact hp (((within_cons ..).1 hw).2 [] (by simp))
    refine ⟨mid,hmid,?_,fun h => absurd h hw⟩
    simp [storeSegments,hstore,hp,hw]

variable {path : List Char}

theorem mem_pathSegments {seg : List Char} (h : seg ∈ pathSegments path) :
    seg ≠ [] ∧ '/' ∉ seg := by
  obtain ⟨hm,hne⟩ := mem_filter.1 h
  exact ⟨by simpa using hne,not_mem_of_mem_splitOn hm⟩

theorem resolve_pathSegments (path : List Char) : resolve [] (pathSegments path) = canonical path :=
  resolve_filter [] _

theorem normalizeInto_eq (hp : path.head? = some '/') (out : List Char) (hout : 2 ≤ out.length) :
    ∃ out', out'.length = out.length ∧
      normalizeInto path out = some (out',
        if Within out.length [] (pathSegments path) then (render (canonical path)).length else 0) ∧
      (Within out.length [] (pathSegments path) →
        out'.take (render (canonical path)).length = render (canonical path) ∧
        out'[(render (canonical path)).length]? = some '\x00') := by
  have hpos : 0 < out.length := by omega
  have hroot : (out.set 0 '/').take 1 = ['/'] := take_set_succ hpos '/'
  obtain ⟨mid,hmid,hstore,htake⟩ := storeSegments_eq (out.set 0 '/') []
    (fun _ (h : _ ∈ pathSegments path) => mem_pathSegments h) clean_nil (by simp; omega)
    (by simpa using hroot)
  rw [resolve_pathSegments,length_set] at *
  rw [render_nil,length_singleton] at hstore
  by_cases hw : Within out.length [] (pathSegments path)
  · have hlt : (render (canonical path)).length < mid.length := by
      rw [hmid,← resolve_pathSegments]
      exact hw.length_lt
    refine ⟨mid.set (render (canonical path)).length '\x00',by simp [hmid],?_,fun _ => ⟨?_,?_⟩⟩
    · simp [normalizeInto,hp,Nat.not_lt.2 hout,writeAt_eq hpos,hstore,hw,writeAt_eq hlt]
    · rw [take_set_of_le (Nat.le_refl _),htake hw]
    · simp [hlt]
  · refine ⟨mid,hmid,?_,fun h => absurd h hw⟩
    simp [normalizeInto,hp,Nat.not_lt.2 hout,writeAt_eq hpos,hstore,hw]

theorem dropSegment_render (hc : Clean cs) : dropSegment (render cs) = render cs.dropLast := by
  induction cs using reverseRecOn with
  | nil => rfl
  | append_singleton cs c ih =>
    have hname := hc c (by simp)
    have hcs : Clean cs := fun x hx => hc x (mem_append_left _ hx)
    have hdrop : (c.reverse ++ '/' :: (joined cs).reverse).dropWhile (fun x => decide (x ≠ '/')) =
        '/' :: (joined cs).reverse := by
      rw [dropWhile_append_of_pos]
      · simp
      intro x hx
      have : x ≠ '/' := by
        rintro rfl
        exact hname.2.1 (by simpa using hx)
      simpa using this
    rw [dropLast_concat,render_concat,dropSegment,reverse_append,reverse_cons,
      append_assoc,singleton_append,hdrop]
    by_cases h : cs = []
    · subst h
      rfl
    · have hj := one_lt_length_joined hcs h
      simp [render_of_ne h,Nat.lt_of_succ_lt hj]

theorem appendSegment_adds : Adds NORMALIZED_PATH_LEN appendSegment := by
  intro cs seg hc hs hslash hfit
  by_cases hdot : seg = ['.']
  · simp [appendSegment,push,hdot,hfit]
  by_cases hdd : seg = ['.','.']
  · subst hdd
    have hlt := lt_of_le_of_lt (render_dropLast_begins cs).length_le hfit
    simp [appendSegment,push,dropSegment_render hc,hlt]
  rw [push_name cs ⟨hs,hslash,hdot,hdd⟩,render_concat,appendSegment,if_neg hdot,if_neg hdd]
  -- the text with the separator behind it
  have hsep : (if 1 < (render cs).length then render cs ++ ['/'] else render cs) =
      joined cs ++ ['/'] := by
    by_cases h : cs = []
    · simp [h]
    · simp [render_of_ne h,one_lt_length_joined hc h]
  have hlen : (joined cs ++ ['/']).length+seg.length = (joined cs ++ '/' :: seg).length := by
    simp
    omega
  by_cases hroom : 1 < (render cs).length ∧ NORMALIZED_PATH_LEN ≤ (render cs).length+1
  · have hcs := (one_lt_length_render hc).1 hroom.1
    have hlong : ¬ (joined cs ++ '/' :: seg).length < NORMALIZED_PATH_LEN := by
      have h := hroom.2
      rw [render_of_ne hcs] at h
      simp
      omega
    rw [if_pos hroom,if_neg hlong]
  · rw [if_neg hroom]
    simp only [hsep,hlen,append_assoc,singleton_append]
    by_cases hlt : (joined cs ++ '/' :: seg).length < NORMALIZED_PATH_LEN
    · rw [if_neg (by omega),if_pos hlt]
    · rw [if_pos (by omega),if_neg hlt]

theorem normalizePath_eq (hp : path.head? = some '/') :
    normalizePath path =
      if Within NORMALIZED_PATH_LEN [] (pathSegments path) then some (render (canonical path))
      else none := by
  have h := appendSegment_adds.foldlM
    (fun _ (hm : _ ∈ pathSegments path) => mem_pathSegments hm) clean_nil (by decide)
  rw [resolve_pathSegments,render_nil] at h
  rw [normalizePath,if_pos hp,h]

theorem normalizePath_refines (hp : path.head? = some '/')
    (hout : out.length = NORMALIZED_PATH_LEN) :
    ∃ out' r, normalizeInto path out = some (out',r) ∧
      normalizePath path = if r = 0 then none else some (out'.take r) := by
  obtain ⟨out',-,hn,htake⟩ := normalizeInto_eq hp out (by rw [hout]; decide)
  refine ⟨out',_,hn,?_⟩
  rw [normalizePath_eq hp,hout]
  rw [hout] at htake
  by_cases hw : Within NORMALIZED_PATH_LEN [] (pathSegments path)
  · have hpos := render_length_pos (canonical path)
    simp only [if_pos hw,if_neg (Nat.ne_of_gt hpos),(htake hw).1]
  · simp only [if_neg hw,if_true]

theorem begins_of_take {a b : List Char} (ht : a.take b.length = b)
    (hn : a[b.length]? = some '/') : Begins b a := by
  refine ⟨a.drop b.length,?_,.inr ?_⟩
  · conv_lhs => rw [← take_append_drop b.length a,ht]
  · rw [head?_drop,hn]

theorem pathsOverlap_iff (a b : List Char) :
    pathsOverlap a b = true ↔ Begins a b ∨ Begins b a := by
  simp only [pathsOverlap,Bool.and_eq_true,decide_eq_true_eq,Bool.or_eq_true]
  constructor
  · rintro ⟨ht,(hl | hn) | hn⟩
    · rw [hl,min_self,← hl,List.take_length,hl,List.take_length] at ht
      exact .inl ⟨[],by simp [ht],.inl rfl⟩
    · have hlt : b.length < a.length := (List.getElem?_eq_some_iff.1 hn).1
      rw [min_eq_right (by omega),List.take_length] at ht
      exact .inr (begins_of_take ht hn)
    · have hlt : a.length < b.length := (List.getElem?_eq_some_iff.1 hn).1
      rw [min_eq_left (by omega),List.take_length] at ht
      exact .inl (begins_of_take ht.symm hn)
  rintro (⟨z,rfl,hz⟩ | ⟨z,rfl,hz⟩)
  · refine ⟨by simp,?_⟩
    rcases hz with rfl | hz
    · simp
    · exact .inr (by simpa [List.head?_eq_getElem?,List.getElem?_append] using hz)
  · refine ⟨by simp,.inl ?_⟩
    rcases hz with rfl | hz
    · simp
    · exact .inr (by simpa [List.head?_eq_getElem?,List.getElem?_append] using hz)

theorem pathsOverlap_render {ds : List (List Char)} (hc : Clean cs) (hd : Clean ds) (h : cs ≠ []) :
    pathsOverlap (render cs) (render ds) = true ↔ ds ≠ [] ∧ ¬ Apart cs ds := by
  rw [pathsOverlap_iff,render_of_ne h]
  by_cases hds : ds = []
  · subst hds
    refine iff_of_false ?_ (by simp)
    rintro (⟨z,hz,-⟩ | hb)
    · have hlen := congrArg List.length hz
      have hj := one_lt_length_joined hc h
      simp at hlen
      omega
    · exact not_begins_root hc h hb
  · rw [render_of_ne hds,begins_joined hc hd,begins_joined hd hc,Apart]
    tauto

theorem render_CONFIG_DIR : render (canonical CONFIG_DIR) = CONFIG_DIR := by decide

theorem canonical_CONFIG_DIR_ne : canonical CONFIG_DIR ≠ [] := by decide

namespace Configuration

variable (c : Configuration)

def webroot : List Char := c.text .webserverPathsWebroot

structure Separate : Prop where
  absolute : c.webroot.head? = some '/'
  component : canonical c.webroot ≠ []
  configDir : Apart (canonical c.webroot) (canonical CONFIG_DIR)
  files : ∀ i ∈ writtenFiles, (c.text i).head? = some '/' →
    Apart (canonical c.webroot) (canonical (c.text i))

structure SeparateBelow : Prop where
  absolute : c.webroot.head? = some '/'
  component : canonical c.webroot ≠ []
  configDir : Apart (canonical c.webroot) (canonical CONFIG_DIR)
  files : ∀ i ∈ writtenFiles, (c.text i).head? = some '/' → canonical (c.text i) ≠ [] →
    Apart (canonical c.webroot) (canonical (c.text i))

def Roomy : Prop :=
  Within NORMALIZED_PATH_LEN [] (pathSegments c.webroot) ∧
    ∀ i ∈ writtenFiles, (c.text i).head? = some '/' →
      Within NORMALIZED_PATH_LEN [] (pathSegments (c.text i))

def RootFree : Prop :=
  ∀ i ∈ writtenFiles, (c.text i).head? = some '/' → canonical (c.text i) ≠ []

instance : Decidable c.Roomy := by
  unfold Roomy
  infer_instance

instance : Decidable c.RootFree := by
  unfold RootFree
  infer_instance

variable {c}

theorem separate_iff : c.Separate ↔ c.SeparateBelow ∧ c.RootFree := by
  constructor
  · intro h
    refine ⟨⟨h.absolute,h.component,h.configDir,fun i hi ha _ => h.files i hi ha⟩,?_⟩
    intro i hi ha hroot
    have hap := h.files i hi ha
    rw [hroot] at hap
    exact hap.2 nil_prefix
  · rintro ⟨h,hr⟩
    exact ⟨h.absolute,h.component,h.configDir,fun i hi ha => h.files i hi ha (hr i hi ha)⟩

end Configuration

theorem normalWebroot_iff {norm : List Char} (hp : path.head? = some '/') :
    normalWebroot path = some norm ↔
      Within NORMALIZED_PATH_LEN [] (pathSegments path) ∧ canonical path ≠ [] ∧
        Apart (canonical path) (canonical CONFIG_DIR) ∧ norm = render (canonical path) := by
  have hclean := clean_canonical path
  by_cases hw : Within NORMALIZED_PATH_LEN [] (pathSegments path)
  · by_cases hne : canonical path = []
    · simp [normalWebroot,normalizePath_eq hp,hw,hne]
    have hlen : (render (canonical path)).length ≠ 1 :=
      Nat.ne_of_gt ((one_lt_length_render hclean).2 hne)
    have hov := pathsOverlap_render hclean (clean_canonical CONFIG_DIR) hne
    rw [render_CONFIG_DIR] at hov
    simp only [canonical_CONFIG_DIR_ne,ne_eq,not_false_eq_true,true_and] at hov
    by_cases hap : Apart (canonical path) (canonical CONFIG_DIR)
    · simp [normalWebroot,normalizePath_eq hp,hw,hne,hlen,hov,hap,eq_comm]
    · simp [normalWebroot,normalizePath_eq hp,hw,hne,hlen,hov,hap]
  · simp [normalWebroot,normalizePath_eq hp,hw]

theorem conflicts_eq_false (hc : Clean cs) (h : cs ≠ []) :
    conflicts (render cs) path = false ↔
      (path.head? = some '/' → Within NORMALIZED_PATH_LEN [] (pathSegments path) ∧
        (canonical path ≠ [] → Apart cs (canonical path))) := by
  by_cases hp : path.head? = some '/'
  · have hov := pathsOverlap_render hc (clean_canonical path) h
    by_cases hw : Within NORMALIZED_PATH_LEN [] (pathSegments path)
    · rw [← Bool.not_eq_true]
      simp only [conflicts,hp,normalizePath_eq hp,hw,if_true,decide_true,Bool.true_and,hov]
      tauto
    · simp [conflicts,hp,normalizePath_eq hp,hw]
  · simp [conflicts,hp]

theorem validateConfigPaths_iff (c : Configuration) :
    validateConfigPaths c = none ↔ c.SeparateBelow ∧ c.Roomy := by
  by_cases hp : c.webroot.head? = some '/'
  · have hp' : (c.text .webserverPathsWebroot).head? = some '/' := hp
    have hclean := clean_canonical c.webroot
    constructor
    · intro h
      simp only [validateConfigPaths,hp',ne_eq,not_true_eq_false,if_false] at h
      split at h
      · cases h
      rename_i hnorm
      obtain ⟨hw,hne,hap,rfl⟩ := (normalWebroot_iff hp).1 hnorm
      simp only [Option.map_eq_none_iff,find?_eq_none,Bool.not_eq_true] at h
      have hfiles := fun i hi => (conflicts_eq_false hclean hne).1 (h i hi)
      exact ⟨⟨hp,hne,hap,fun i hi ha => (hfiles i hi ha).2⟩,hw,
        fun i hi ha => (hfiles i hi ha).1⟩
    rintro ⟨h,hw,hroom⟩
    have hnorm : normalWebroot (c.text .webserverPathsWebroot) = some _ :=
      (normalWebroot_iff hp).2 ⟨hw,h.component,h.configDir,rfl⟩
    simp only [validateConfigPaths,hp',ne_eq,not_true_eq_false,if_false,hnorm,
      Option.map_eq_none_iff,find?_eq_none,Bool.not_eq_true]
    intro i hi
    exact (conflicts_eq_false hclean h.component).2
      (fun ha => ⟨hroom i hi ha,h.files i hi ha⟩)
  · refine iff_of_false ?_ (fun h => hp h.1.absolute)
    have hp' : (c.text .webserverPathsWebroot).head? ≠ some '/' := hp
    simp [validateConfigPaths,hp']

/-- The canonical component list is stored if it fits, and failure is reported otherwise. -/
def StoresCanonical (path out : List Char) : Prop :=
  ∃ out' r, normalizeInto path out = some (out',r) ∧
    if (render (canonical path)).length < out.length then
      r = (render (canonical path)).length ∧ out'.take r = render (canonical path) ∧
        out'[r]? = some '\x00'
    else r = 0

def StoredAgain (path out : List Char) : Prop :=
  ∀ out' r, normalizeInto path out = some (out',r) → r ≠ 0 →
    ∀ buf, buf.length = out.length →
      ∃ buf', normalizeInto (out'.take r) buf = some (buf',r) ∧ buf'.take r = out'.take r

theorem normalizeInto_ne_none (path out : List Char) : normalizeInto path out ≠ none := by
  by_cases h : path.head? ≠ some '/' ∨ out.length < 2
  · rw [normalizeInto,if_pos h]
    exact Option.some_ne_none _
  · simp only [not_or,ne_eq,not_not,Nat.not_lt] at h
    obtain ⟨out',-,hn,-⟩ := normalizeInto_eq h.1 out h.2
    simp [hn]

theorem within_render {n : Nat} {cs : List (List Char)} (hc : Clean cs)
    (h : (render cs).length < n) : Within n [] (pathSegments (render cs)) := by
  have hsegs : pathSegments (render cs) = cs := by
    have hne : cs.filter (fun seg => decide (seg ≠ [])) = cs :=
      filter_eq_self.2 (fun c hm => by simpa using (hc c hm).1)
    rw [pathSegments,splitOn_render hc]
    by_cases hcs : cs = []
    · simp [hcs]
    · simpa [hcs] using hne
  rw [hsegs]
  exact within_of_clean clean_nil hc h

theorem storedAgain {out : List Char} (hp : path.head? = some '/') (hout : 2 ≤ out.length) :
    StoredAgain path out := by
  intro out' r hn hr buf hbuf
  obtain ⟨o,-,hn',htake⟩ := normalizeInto_eq hp out hout
  rw [hn',Option.some.injEq,Prod.mk.injEq] at hn
  obtain ⟨rfl,rfl⟩ := hn
  by_cases hw : Within out.length [] (pathSegments path)
  · have hclean := clean_canonical path
    have hlt : (render (canonical path)).length < buf.length := by
      rw [hbuf,← resolve_pathSegments]
      exact hw.length_lt
    simp only [if_pos hw,(htake hw).1]
    obtain ⟨buf',-,hagain,htake'⟩ := normalizeInto_eq (render_head (canonical path)) buf
      (hbuf ▸ hout)
    rw [canonical_render hclean,if_pos (within_render hclean hlt)] at hagain
    rw [canonical_render hclean] at htake'
    exact ⟨buf',hagain,(htake' (within_render hclean hlt)).1⟩
  · simp [hw] at hr

theorem storesCanonical_iff {out : List Char} (hp : path.head? = some '/') (hout : 2 ≤ out.length) :
    StoresCanonical path out ↔
      ((render (canonical path)).length < out.length →
        Within out.length [] (pathSegments path)) := by
  obtain ⟨out',-,hn,htake⟩ := normalizeInto_eq hp out hout
  have hpos := render_length_pos (canonical path)
  simp only [StoresCanonical,hn,Option.some.injEq,Prod.mk.injEq]
  constructor
  · rintro ⟨o,r,⟨rfl,rfl⟩,h⟩ hlt
    rw [if_pos hlt] at h
    by_contra hw
    rw [if_neg hw] at h
    omega
  intro h
  refine ⟨out',_,⟨rfl,rfl⟩,?_⟩
  by_cases hlt : (render (canonical path)).length < out.length
  · rw [if_pos hlt]
    simpa [h hlt] using htake (h hlt)
  have hw : ¬ Within out.length [] (pathSegments path) := by
    intro hw
    rw [← resolve_pathSegments] at hlt
    exact hlt hw.length_lt
  simp [hlt,hw]

/-- No write leaves the buffer and what is stored is stored again as it is; it is the canonical
list unless a longer one is met on the way, and the check of a configuration is the rule on
components unless a path is too long or a file is the root. -/
theorem path_check_exact_iff (path out : List Char) (c : Configuration) :
    normalizeInto path out ≠ none ∧
      (path.head? = some '/' → 2 ≤ out.length →
        StoredAgain path out ∧
          (StoresCanonical path out ↔
            ((render (canonical path)).length < out.length →
              Within out.length [] (pathSegments path)))) ∧
      (path.head? = some '/' → out.length = NORMALIZED_PATH_LEN →
        ∃ out' r, normalizeInto path out = some (out',r) ∧
          normalizePath path = if r = 0 then none else some (out'.take r)) ∧
      ((validateConfigPaths c = none ↔ c.Separate) ↔
        (c.SeparateBelow → (c.Roomy ↔ c.RootFree))) := by
  refine ⟨normalizeInto_ne_none path out,fun hp hout => ⟨storedAgain hp hout,
    storesCanonical_iff hp hout⟩,fun hp hout => normalizePath_refines hp hout,?_⟩
  rw [validateConfigPaths_iff,Configuration.separate_iff]
  tauto

theorem path_check_exact_sample :
    StoresCanonical "/a/../b".toList "........".toList ∧
      (validateConfigPaths .initial = none ↔ Configuration.initial.Separate) := by
  obtain ⟨-,hpath,-,hconf⟩ := path_check_exact_iff "/a/../b".toList "........".toList .initial
  constructor
  · exact (hpath (by decide) (by decide)).2.2 (fun _ => by decide)
  · have hroom : Configuration.initial.Roomy := by decide
    have hfree : Configuration.initial.RootFree := by decide
    exact hconf.2 (fun _ => iff_of_true hroom hfree)

def rootFile : Configuration := Configuration.initial.set .filesGravityTmp (.text ['/'])

def longDetour : List Char := '/' :: (List.replicate 4095 'a' ++ ['/','.','.'])

def longFile : Configuration :=
  Configuration.initial.set .filesPcap (.text ('/' :: List.replicate 4096 'a'))

theorem path_check_inexact :
    (validateConfigPaths rootFile = none ∧ ¬ rootFile.Separate) ∧
      (canonical longDetour = [] ∧
        ¬ StoresCanonical longDetour (List.replicate NORMALIZED_PATH_LEN ' ')) ∧
      longFile.Separate ∧ validateConfigPaths longFile ≠ none := by
  refine ⟨⟨by decide +kernel,fun h => ?_⟩,⟨by decide +kernel,?_⟩,?_,by decide +kernel⟩
  · have hap := h.files .filesGravityTmp (by decide) (by decide)
    revert hap
    decide +kernel
  · rw [storesCanonical_iff (by decide +kernel) (by decide +kernel)]
    decide +kernel
  · exact ⟨by decide +kernel,by decide +kernel,by decide +kernel,by decide +kernel⟩

open Paths

namespace Configuration

variable (c : Configuration)

def Clashes (path : List Char) : Prop :=
  path.head? = some '/' ∧
    (¬ Within NORMALIZED_PATH_LEN [] (pathSegments path) ∨
      (canonical path ≠ [] ∧ ¬ Apart (canonical c.webroot) (canonical path)))

instance (path : List Char) : Decidable (c.Clashes path) := by
  unfold Clashes
  infer_instance

def Repairable : Prop := ∀ i ∈ writtenFiles, c.Clashes (c.text i) → ¬ c.Clashes i.dflt.toText

instance : Decidable c.Repairable := by
  unfold Repairable
  infer_instance

def clashes : Nat := writtenFiles.countP (fun i => c.Clashes (c.text i))

variable {c} {i : Item}

theorem clashes_congr {c' : Configuration} (h : c'.webroot = c.webroot) (path : List Char) :
    c'.Clashes path ↔ c.Clashes path := by
  unfold Clashes
  rw [h]

theorem validateConfigPaths_of_webroot {wnorm : List Char}
    (hw : normalWebroot c.webroot = some wnorm) :
    validateConfigPaths c = none ↔ ∀ i ∈ writtenFiles, ¬ c.Clashes (c.text i) := by
  have hp := absolute_of_normalWebroot hw
  obtain ⟨hroom,hne,hap,-⟩ := (normalWebroot_iff hp).1 hw
  rw [validateConfigPaths_iff]
  constructor
  · rintro ⟨hs,hr⟩ i hi ⟨ha,hcl⟩
    rcases hcl with hcl | ⟨hne',hcl⟩
    · exact hcl (hr.2 i hi ha)
    · exact hcl (hs.files i hi ha hne')
  intro h
  refine ⟨⟨hp,hne,hap,fun i hi ha hne' => ?_⟩,hroom,fun i hi ha => ?_⟩
  · by_contra hcl
    exact h i hi ⟨ha,.inr ⟨hne',hcl⟩⟩
  · by_contra hcl
    exact h i hi ⟨ha,.inl hcl⟩

theorem clashes_of_offender {wnorm err : List Char} (hw : normalWebroot c.webroot = some wnorm)
    (h : validateConfigPaths c = some (i,err)) : i ∈ writtenFiles ∧ c.Clashes (c.text i) := by
  have hp := absolute_of_normalWebroot hw
  have hp' : (c.text .webserverPathsWebroot).head? = some '/' := hp
  have hw' : normalWebroot (c.text .webserverPathsWebroot) = some wnorm := hw
  simp only [validateConfigPaths,hp',hw',ne_eq,not_true_eq_false,if_false,
    Option.map_eq_some_iff,Prod.mk.injEq] at h
  obtain ⟨j,hj,rfl,-⟩ := h
  obtain ⟨-,hne,-,rfl⟩ := (normalWebroot_iff hp).1 hw
  refine ⟨List.mem_of_find?_eq_some hj,?_⟩
  by_contra hcl
  have hfound := List.find?_some hj
  rw [(conflicts_eq_false (clean_canonical _) hne).2] at hfound
  · cases hfound
  intro ha
  constructor
  · by_contra hroom
    exact hcl ⟨ha,.inl hroom⟩
  · intro hne'
    by_contra hap
    exact hcl ⟨ha,.inr ⟨hne',hap⟩⟩

theorem text_resetDefault (c : Configuration) (i j : Item) :
    (c.resetDefault i).text j = if j = i then i.dflt.toText else c.text j := by
  rw [text,resetDefault,set_value]
  split_ifs <;> rfl

theorem webroot_resetDefault (hi : i ∈ writtenFiles) : (c.resetDefault i).webroot = c.webroot := by
  have hne : Item.webserverPathsWebroot ≠ i := by
    rintro rfl
    revert hi
    decide
  rw [webroot,text_resetDefault,if_neg hne,webroot]

theorem clashes_resetDefault (hi : i ∈ writtenFiles) (hd : ¬ c.Clashes i.dflt.toText) (j : Item) :
    (c.resetDefault i).Clashes ((c.resetDefault i).text j) ↔ j ≠ i ∧ c.Clashes (c.text j) := by
  rw [clashes_congr (webroot_resetDefault hi),text_resetDefault]
  by_cases hj : j = i
  · simp [hj,hd]
  · simp [hj]

theorem Repairable.resetDefault (h : c.Repairable) (hi : i ∈ writtenFiles)
    (hd : ¬ c.Clashes i.dflt.toText) : (c.resetDefault i).Repairable := by
  intro j hj hcl
  rw [clashes_congr (webroot_resetDefault hi)]
  exact h j hj ((clashes_resetDefault hi hd j).1 hcl).2

theorem clashes_resetDefault_lt (hi : i ∈ writtenFiles) (hcl : c.Clashes (c.text i))
    (hd : ¬ c.Clashes i.dflt.toText) : (c.resetDefault i).clashes < c.clashes := by
  have hfun (j : Item) : decide ((c.resetDefault i).Clashes ((c.resetDefault i).text j)) =
      (decide (j ≠ i) && decide (c.Clashes (c.text j))) := by
    rw [← Bool.decide_and,decide_eq_decide]
    exact clashes_resetDefault hi hd j
  simp only [clashes,hfun,List.countP_eq_length_filter]
  rw [← List.filter_filter]
  refine List.length_filter_lt_length_iff_exists.2 ⟨i,?_,by simp⟩
  exact List.mem_filter.2 ⟨hi,by simpa using hcl⟩

theorem resolveConfigPaths_accepted {wnorm : List Char} (n : Nat)
    (hw : normalWebroot c.webroot = some wnorm) (h : c.Repairable) (hn : c.clashes ≤ n) :
    validateConfigPaths (resolveConfigPaths n c) = none := by
  induction n generalizing c with
  | zero =>
    rw [resolveConfigPaths,validateConfigPaths_of_webroot hw]
    intro i hi hcl
    have hpos : 0 < c.clashes := List.countP_pos_iff.2 ⟨i,hi,by simpa using hcl⟩
    omega
  | succ n ih =>
    rw [resolveConfigPaths]
    split
    · assumption
    rename_i offender err ho
    obtain ⟨hi,hcl⟩ := clashes_of_offender hw ho
    have hd := h offender hi hcl
    have hlt := clashes_resetDefault_lt hi hcl hd
    exact ih (by rw [webroot_resetDefault hi,hw]) (h.resetDefault hi hd) (by omega)

theorem resolveConfigPaths_refused {wnorm : List Char} (n : Nat)
    (hw : normalWebroot c.webroot = some wnorm) (hi : i ∈ writtenFiles)
    (hcl : c.Clashes (c.text i)) (hd : c.Clashes i.dflt.toText) :
    validateConfigPaths (resolveConfigPaths n c) ≠ none := by
  have hroot : (resolveConfigPaths n c).webroot = c.webroot := by
    rw [webroot,text,resolveConfigPaths_webroot n (by rw [← webroot,hw]; rfl),webroot,text]
  have hw' : normalWebroot (resolveConfigPaths n c).webroot = some wnorm := by rw [hroot,hw]
  rw [Ne,validateConfigPaths_of_webroot hw']
  intro hno
  apply hno i hi
  rw [clashes_congr hroot,text]
  rcases resolveConfigPaths_value_or n c i with hv | hv
  · rw [hv]
    exact hcl
  · rw [hv]
    exact hd

end Configuration

/-- Once every item is valid on its own, the passes lead to accepted paths exactly if no file in
conflict has a default in conflict. -/
theorem resolve_config_paths_iff (P : Platform) (c : Configuration)
    (hvalid : ∀ i, P.check i (c.value i) = none) :
    validateConfigPaths (resolveConfigPaths (writtenFiles.length+1) c) = none ↔ c.Repairable := by
  obtain ⟨wnorm,hw⟩ := Option.isSome_iff_exists.1 (normalWebroot_of_check (hvalid _))
  constructor
  · intro h i hi hcl hd
    exact Configuration.resolveConfigPaths_refused _ hw hi hcl hd h
  · intro h
    refine Configuration.resolveConfigPaths_accepted _ hw h ?_
    exact le_trans List.countP_le_length (Nat.le_succ _)

def logBelowRoot : Configuration :=
  (Configuration.initial.set .webserverPathsWebroot (.text "/srv".toList)).set .filesLogWebserver
    (.text "/srv/web.log".toList)

theorem resolve_config_paths_sample :
    validateConfigPaths logBelowRoot ≠ none ∧
      validateConfigPaths (resolveConfigPaths (writtenFiles.length+1) logBelowRoot) = none := by
  refine ⟨by decide,(resolve_config_paths_iff .plain _ ?_).2 (by decide)⟩
  have hall : ∀ i ∈ Item.all, Platform.plain.check i (logBelowRoot.value i) = none := by
    decide +kernel
  exact fun i => hall i (Item.mem_all i)

def logsServed : Toml :=
  .table [("webserver".toList,.table [("paths".toList,
    .table [("webroot".toList,.str "/var/log".toList)])])]

def logsServedConfig : Configuration :=
  Platform.plain.readDocument none ⟨logsServed,[],fun _ => none,false,false⟩ .initial

theorem resolve_config_paths_fails :
    (∀ i ∈ Item.all, Platform.plain.check i (logsServedConfig.value i) = none) ∧
      validateConfigPaths (resolveConfigPaths (writtenFiles.length+1) logsServedConfig) ≠ none := by
  constructor <;> decide +kernel

end Lorentz
