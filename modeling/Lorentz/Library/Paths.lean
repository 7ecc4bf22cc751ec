import Lorentz.Library.Split

/-!
Absolute paths as lists of components, once `.` and `..` are resolved.
-/

set_option autoImplicit false

namespace Paths

def IsName (c : List Char) : Prop := c ≠ [] ∧ '/' ∉ c ∧ c ≠ ['.'] ∧ c ≠ ['.','.']

instance (c : List Char) : Decidable (IsName c) := by
  unfold IsName
  infer_instance

def Clean (cs : List (List Char)) : Prop := ∀ c ∈ cs, IsName c

def joined (cs : List (List Char)) : List Char := cs.flatMap (fun c => '/' :: c)

def render (cs : List (List Char)) : List Char := if cs = [] then ['/'] else joined cs

/-- An empty segment and `.` change nothing, `..` removes the component before it. -/
def push (cs : List (List Char)) (seg : List Char) : List (List Char) :=
  if seg = [] ∨ seg = ['.'] then cs else if seg = ['.','.'] then cs.dropLast else cs ++ [seg]

def resolve (cs segs : List (List Char)) : List (List Char) := segs.foldl push cs

def canonical (path : List Char) : List (List Char) := resolve [] (path.splitOn '/')

def Apart (cs ds : List (List Char)) : Prop := ¬ cs <+: ds ∧ ¬ ds <+: cs

instance (cs ds : List (List Char)) : Decidable (Apart cs ds) := by
  unfold Apart
  infer_instance

/-- On the way through the segments the text always stays shorter than `n`. -/
def Within (n : Nat) (cs segs : List (List Char)) : Prop :=
  ∀ l ∈ segs.inits, (render (resolve cs l)).length < n

instance (n : Nat) (cs segs : List (List Char)) : Decidable (Within n cs segs) := by
  unfold Within
  infer_instance

theorem clean_nil : Clean [] := by simp [Clean]

variable {cs : List (List Char)} {n : Nat}

theorem Clean.dropLast (h : Clean cs) : Clean cs.dropLast :=
  fun c hc => h c (List.dropLast_subset cs hc)

variable {seg path : List Char} {segs ds : List (List Char)}

theorem Clean.concat (h : Clean cs) (hs : IsName seg) : Clean (cs ++ [seg]) := by
  intro c hc
  rcases List.mem_append.1 hc with hc | hc
  · exact h c hc
  · rwa [List.mem_singleton.1 hc]

theorem Clean.push (h : Clean cs) (hs : '/' ∉ seg) : Clean (push cs seg) := by
  unfold Paths.push
  split_ifs with hd hdd
  · exact h
  · exact h.dropLast
  · rw [not_or] at hd
    exact h.concat ⟨hd.1,hs,hd.2,hdd⟩

theorem Clean.resolve (hs : ∀ seg ∈ segs, '/' ∉ seg) :
    ∀ {cs : List (List Char)}, Clean cs → Clean (resolve cs segs) := by
  induction segs with
  | nil => exact id
  | cons seg segs ih =>
    intro cs h
    have hseg := hs seg (List.mem_cons_self ..)
    exact ih (fun s hm => hs s (List.mem_cons_of_mem _ hm)) (h.push hseg)

@[simp] theorem push_name (cs : List (List Char)) (hs : IsName seg) :
    push cs seg = cs ++ [seg] := by
  simp [push,hs.1,hs.2.2.1,hs.2.2.2]

theorem resolve_clean (cs : List (List Char)) (hd : Clean ds) : resolve cs ds = cs ++ ds := by
  induction ds generalizing cs with
  | nil => simp [resolve]
  | cons d ds ih =>
    have hds : Clean ds := fun c hc => hd c (List.mem_cons_of_mem _ hc)
    have hname := hd d (List.mem_cons_self ..)
    rw [resolve,List.foldl_cons,push_name cs hname]
    exact (ih (cs ++ [d]) hds).trans (by simp)

theorem resolve_filter (cs segs : List (List Char)) :
    resolve cs (segs.filter (fun seg => seg ≠ [])) = resolve cs segs := by
  induction segs generalizing cs with
  | nil => rfl
  | cons seg segs ih =>
    by_cases hs : seg = []
    · subst hs
      simpa [resolve,push] using ih cs
    · simpa [resolve,hs] using ih (push cs seg)

@[simp] theorem joined_nil : joined [] = [] := rfl

@[simp] theorem joined_cons (c : List Char) (cs : List (List Char)) :
    joined (c :: cs) = '/' :: (c ++ joined cs) := rfl

theorem joined_append (cs ds : List (List Char)) : joined (cs ++ ds) = joined cs ++ joined ds :=
  List.flatMap_append

theorem joined_head (cs : List (List Char)) : joined cs = [] ∨ (joined cs).head? = some '/' := by
  cases cs with
  | nil => exact .inl rfl
  | cons c cs => exact .inr rfl

@[simp] theorem render_nil : render [] = ['/'] := rfl

theorem render_of_ne (h : cs ≠ []) : render cs = joined cs := if_neg h

@[simp] theorem render_head (cs : List (List Char)) : (render cs).head? = some '/' := by
  cases cs <;> simp [render]

theorem render_length_pos (cs : List (List Char)) : 0 < (render cs).length := by
  have h := render_head cs
  cases hr : render cs with
  | nil => simp [hr] at h
  | cons c s => simp

theorem one_lt_length_joined (hc : Clean cs) (h : cs ≠ []) : 1 < (joined cs).length := by
  cases cs with
  | nil => exact absurd rfl h
  | cons c cs =>
    have hlen := List.length_pos_of_ne_nil (hc c (List.mem_cons_self ..)).1
    simp
    omega

theorem one_lt_length_render (hc : Clean cs) : 1 < (render cs).length ↔ cs ≠ [] := by
  by_cases h : cs = []
  · simp [h]
  · simp [render_of_ne h,h,one_lt_length_joined hc h]

theorem joined_eq_intercalate (cs : List (List Char)) :
    joined cs = ['/'].intercalate ([] :: cs) := by
  induction cs with
  | nil => rfl
  | cons c cs ih =>
    rw [joined_cons,ih]
    cases cs <;> simp [List.intercalate]

theorem splitOn_render (hc : Clean cs) :
    (render cs).splitOn '/' = if cs = [] then [[],[]] else [] :: cs := by
  by_cases h : cs = []
  · subst h
    rfl
  rw [render_of_ne h,if_neg h,joined_eq_intercalate]
  refine List.splitOn_intercalate '/' ?_ (List.cons_ne_nil _ _)
  intro l hl
  rcases List.mem_cons.1 hl with rfl | hl
  · exact List.not_mem_nil
  · exact (hc l hl).2.1

theorem canonical_render (hc : Clean cs) : canonical (render cs) = cs := by
  rw [canonical,splitOn_render hc]
  by_cases h : cs = []
  · subst h
    rfl
  · rw [if_neg h]
    exact resolve_clean [] hc

theorem not_mem_of_mem_splitOnP {p : Char → Bool} (h : seg ∈ path.splitOnP p) :
    ∀ c ∈ seg, p c = false := by
  induction path generalizing seg with
  | nil =>
    rw [List.splitOnP_nil,List.mem_singleton] at h
    simp [h]
  | cons c path ih =>
    rw [List.splitOnP_cons_eq_if_modifyHead] at h
    split_ifs at h with hp
    · rcases List.mem_cons.1 h with rfl | h
      · simp
      · exact ih h
    cases hs : path.splitOnP p with
    | nil => exact absurd hs (List.splitOnP_ne_nil p path)
    | cons first rest =>
      rw [hs] at h ih
      rcases List.mem_cons.1 h with rfl | h
      · intro d hd
        rcases List.mem_cons.1 hd with rfl | hd
        · simpa using hp
        · exact ih (List.mem_cons_self ..) d hd
      · exact ih (List.mem_cons_of_mem _ h)

theorem not_mem_of_mem_splitOn (h : seg ∈ path.splitOn '/') : '/' ∉ seg := by
  intro hm
  simpa using not_mem_of_mem_splitOnP h '/' hm

theorem clean_canonical (path : List Char) : Clean (canonical path) :=
  clean_nil.resolve (fun _ h => not_mem_of_mem_splitOn h)

def Begins (a b : List Char) : Prop := ∃ z, b = a ++ z ∧ (z = [] ∨ z.head? = some '/')

theorem takeWhile_component {c z : List Char} (hc : '/' ∉ c) (hz : z = [] ∨ z.head? = some '/') :
    (c ++ z).takeWhile (fun x => x ≠ '/') = c := by
  induction c with
  | nil =>
    cases z with
    | nil => rfl
    | cons d z =>
      have hd : d = '/' := by simpa using hz
      simp [hd]
  | cons d c ih =>
    simp only [List.mem_cons,not_or] at hc
    simp [Ne.symm hc.1]
    simpa using ih hc.2

theorem begins_joined {cs : List (List Char)} (hc : Clean cs) (hd : Clean ds) :
    Begins (joined cs) (joined ds) ↔ cs <+: ds := by
  induction cs generalizing ds with
  | nil =>
    exact iff_of_true ⟨joined ds,rfl,joined_head ds⟩ ⟨ds,rfl⟩
  | cons c cs ih =>
    have hcs : Clean cs := fun x hx => hc x (List.mem_cons_of_mem _ hx)
    have hname := hc c (List.mem_cons_self ..)
    cases ds with
    | nil =>
      refine iff_of_false ?_ (by simp)
      rintro ⟨z,hz,-⟩
      simp at hz
    | cons d ds =>
      have hds : Clean ds := fun x hx => hd x (List.mem_cons_of_mem _ hx)
      have hname' := hd d (List.mem_cons_self ..)
      rw [List.cons_prefix_cons,← ih hcs hds]
      constructor
      · rintro ⟨z,hz,hend⟩
        have heq : d ++ joined ds = c ++ (joined cs ++ z) := by simpa using hz
        have htail : joined cs ++ z = [] ∨ (joined cs ++ z).head? = some '/' := by
          rcases joined_head cs with hj | hj
          · simpa [hj] using hend
          · exact .inr (by simp [List.head?_append,hj])
        have hcd : c = d := by
          rw [← takeWhile_component hname'.2.1 (joined_head ds),heq,
            takeWhile_component hname.2.1 htail]
        subst hcd
        exact ⟨rfl,z,List.append_cancel_left heq,hend⟩
      · rintro ⟨rfl,z,hz,hend⟩
        exact ⟨z,by simp [hz],hend⟩

theorem not_begins_root (hc : Clean cs) (h : cs ≠ []) : ¬ Begins ['/'] (joined cs) := by
  rintro ⟨z,hz,hend⟩
  cases cs with
  | nil => exact h rfl
  | cons c cs =>
    have hname := hc c (List.mem_cons_self ..)
    have heq : c ++ joined cs = z := by simpa using hz
    cases c with
    | nil => exact hname.1 rfl
    | cons d c =>
      subst heq
      have hd : d = '/' := by simpa using hend
      exact hname.2.1 (by simp [hd])

theorem within_nil (n : Nat) (cs : List (List Char)) :
    Within n cs [] ↔ (render cs).length < n := by
  simp [Within,resolve]

theorem within_cons (n : Nat) (cs : List (List Char)) (seg : List Char) (segs : List (List Char)) :
    Within n cs (seg :: segs) ↔ (render cs).length < n ∧ Within n (push cs seg) segs := by
  simp [Within,resolve]

theorem Within.length_lt {cs : List (List Char)} (h : Within n cs segs) :
    (render (resolve cs segs)).length < n :=
  h segs (by simp)

theorem within_of_clean {cs : List (List Char)} (hc : Clean cs) (hd : Clean ds)
    (h : (render (cs ++ ds)).length < n) : Within n cs ds := by
  induction ds generalizing cs with
  | nil => simpa [within_nil] using h
  | cons d ds ih =>
    have hds : Clean ds := fun c hm => hd c (List.mem_cons_of_mem _ hm)
    have hname := hd d (List.mem_cons_self ..)
    rw [within_cons,push_name cs hname]
    refine ⟨?_,ih (hc.concat hname) hds (by simpa using h)⟩
    refine lt_of_le_of_lt ?_ h
    by_cases hcs : cs = []
    · subst hcs
      exact render_length_pos _
    · rw [render_of_ne hcs,render_of_ne (by simp [hcs]),joined_append]
      simp

def Adds (n : Nat) (step : List Char → List Char → Option (List Char)) : Prop :=
  ∀ cs seg, Clean cs → seg ≠ [] → '/' ∉ seg → (render cs).length < n →
    step (render cs) seg =
      if (render (push cs seg)).length < n then some (render (push cs seg)) else none

theorem Adds.foldlM {step : List Char → List Char → Option (List Char)} (h : Adds n step)
    (hs : ∀ seg ∈ segs, seg ≠ [] ∧ '/' ∉ seg) {cs : List (List Char)} (hc : Clean cs)
    (hn : (render cs).length < n) : segs.foldlM step (render cs) =
      if Within n cs segs then some (render (resolve cs segs)) else none := by
  induction segs generalizing cs with
  | nil => simp [within_nil,hn,resolve]
  | cons seg segs ih =>
    have hseg := hs seg (List.mem_cons_self ..)
    have hsegs : ∀ s ∈ segs, s ≠ [] ∧ '/' ∉ s := fun s hm => hs s (List.mem_cons_of_mem _ hm)
    rw [List.foldlM_cons,h cs seg hc hseg.1 hseg.2 hn]
    by_cases hp : (render (push cs seg)).length < n
    · rw [if_pos hp]
      refine (ih hsegs (hc.push hseg.2) hp).trans ?_
      simp [within_cons,hn,resolve]
    have hw : ¬ Within n (push cs seg) segs := by
      intro hw
      exact hp (hw [] (by simp))
    simp [hp,within_cons,hw]

end Paths
