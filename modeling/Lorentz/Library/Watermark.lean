import Mathlib

/-!
Copying the rows above the highest key of the destination: a row passed over while a higher one is
copied is never looked at again.
-/

set_option autoImplicit false

namespace Watermark

variable {α : Type} (key : α → Int)

/-- The highest key of a table, `-1` if it is empty. -/
def high (dst : List α) : Int := ((dst.map key).max?).getD (-1)

def pending (src dst : List α) : List α := src.filter (fun r => high key dst < key r)

def fresh (p : α → Bool) (src dst : List α) : List α := (pending key src dst).filter p

def Copies (p : α → Bool) (src dst dst' : List α) : Prop := dst'.Perm (dst ++ fresh key p src dst)

structure Synced (src dst : List α) : Prop where
  srcKeys : (src.map key).Nodup
  dstKeys : (dst.map key).Nodup
  below : ∀ r ∈ src, key r ≤ high key dst → r ∈ dst

def Lost (src dst : List α) : Prop := ∃ r ∈ src, key r ≤ high key dst ∧ r ∉ dst

def Ordered (p : α → Bool) (rows : List α) : Prop :=
  ∀ r ∈ rows, ∀ r' ∈ rows, key r < key r' → p r' = true → p r = true

instance (p : α → Bool) (rows : List α) : Decidable (Ordered key p rows) :=
  inferInstanceAs (Decidable (∀ r ∈ rows, ∀ r' ∈ rows, key r < key r' → p r' = true → p r = true))

variable {p : α → Bool} {src dst dst' : List α} {r : α}

theorem le_high (h : r ∈ dst) : key r ≤ high key dst := by
  have hmem : key r ∈ dst.map key := List.mem_map_of_mem h
  obtain ⟨m,hm⟩ : ∃ m, (dst.map key).max? = some m :=
    Option.isSome_iff_exists.1 (List.isSome_max?_of_mem hmem)
  rw [high,hm]
  exact (List.max?_eq_some_iff.1 hm).2 _ hmem

theorem exists_high (h : dst ≠ []) : ∃ r ∈ dst, key r = high key dst := by
  obtain ⟨m,hm⟩ : ∃ m, (dst.map key).max? = some m := by
    rw [← Option.isSome_iff_exists]
    obtain ⟨r,hr⟩ := List.exists_mem_of_ne_nil dst h
    exact List.isSome_max?_of_mem (List.mem_map_of_mem hr)
  obtain ⟨r,hr,he⟩ := List.mem_map.1 (List.max?_eq_some_iff.1 hm).1
  exact ⟨r,hr,by rw [high,hm,he]; rfl⟩

theorem high_eq_of_perm (h : dst.Perm dst') : high key dst = high key dst' := by
  cases dst with
  | nil => rw [h.nil_eq]
  | cons x dst =>
    have hne : dst' ≠ [] := fun he => by
      rw [he] at h
      exact List.cons_ne_nil x dst h.eq_nil
    obtain ⟨r,hr,hk⟩ := exists_high key (List.cons_ne_nil x dst)
    obtain ⟨r',hr',hk'⟩ := exists_high key hne
    have h₁ := le_high key (h.mem_iff.1 hr)
    have h₂ := le_high key (h.mem_iff.2 hr')
    omega

variable {key}

theorem mem_pending : r ∈ pending key src dst ↔ r ∈ src ∧ high key dst < key r := by
  simp [pending]

theorem mem_fresh : r ∈ fresh key p src dst ↔ r ∈ pending key src dst ∧ p r = true :=
  List.mem_filter

namespace Copies

theorem mem_dst (h : Copies key p src dst dst') :
    r ∈ dst' ↔ r ∈ dst ∨ r ∈ fresh key p src dst := by
  rw [List.Perm.mem_iff h,List.mem_append]

theorem perm {dst₁ dst₁' : List α} (h : Copies key p src dst dst')
    (h₁ : Copies key p src dst₁ dst₁') (hd : dst.Perm dst₁) : dst'.Perm dst₁' := by
  have hf : fresh key p src dst = fresh key p src dst₁ := by
    simp only [fresh,pending,high_eq_of_perm key hd]
  refine List.Perm.trans h (List.Perm.trans ?_ (List.Perm.symm h₁))
  rw [hf]
  exact hd.append_right _

section

variable (h : Copies key p src dst dst')
include h

theorem high_le (hd : dst ≠ []) : high key dst ≤ high key dst' := by
  obtain ⟨r,hr,hk⟩ := exists_high key hd
  rw [← hk]
  exact le_high key (h.mem_dst.2 (.inl hr))

theorem high_le_of {m : Int} (hs : ∀ x ∈ src, key x ≤ m) (hd : high key dst ≤ m) :
    high key dst' ≤ m := by
  by_cases hd' : dst' = []
  · have hnil := List.Perm.nil_eq (hd' ▸ h)
    rw [(List.append_eq_nil_iff.1 hnil.symm).1] at hd
    rwa [hd']
  obtain ⟨r,hr,hk⟩ := exists_high key hd'
  rw [← hk]
  rcases h.mem_dst.1 hr with hold | hnew
  · exact (le_high key hold).trans hd
  · exact hs r (mem_pending.1 (mem_fresh.1 hnew).1).1

theorem dstKeys (hs : (src.map key).Nodup) (hd : (dst.map key).Nodup) : (dst'.map key).Nodup := by
  have hperm : (dst'.map key).Perm (dst.map key ++ (fresh key p src dst).map key) := by
    rw [← List.map_append]
    exact List.Perm.map key h
  rw [hperm.nodup_iff,List.nodup_append']
  have hsub : (fresh key p src dst).Sublist src := List.filter_sublist.trans List.filter_sublist
  refine ⟨hd,hs.sublist (hsub.map key),?_⟩
  intro k hk hk'
  obtain ⟨r,hr,rfl⟩ := List.mem_map.1 hk
  obtain ⟨r',hr',he⟩ := List.mem_map.1 hk'
  have h₁ := le_high key hr
  have h₂ := (mem_pending.1 (mem_fresh.1 hr').1).2
  omega

theorem lost (hl : Lost key src dst) : Lost key src dst' := by
  obtain ⟨r,hr,hk,hn⟩ := hl
  have hnew : r ∉ dst' := by
    rw [h.mem_dst]
    rintro (hmem | hmem)
    · exact hn hmem
    · have := (mem_pending.1 (mem_fresh.1 hmem).1).2
      omega
  by_cases hd : dst = []
  · by_cases hd' : dst' = []
    · exact ⟨r,hr,by rw [hd'] ; rw [hd] at hk ; exact hk,hnew⟩
    obtain ⟨r',hr',hk'⟩ := exists_high key hd'
    have hmem := (h.mem_dst.1 hr').resolve_left (by simp [hd])
    have := (mem_pending.1 (mem_fresh.1 hmem).1).2
    exact ⟨r,hr,by omega,hnew⟩
  · exact ⟨r,hr,hk.trans (h.high_le hd),hnew⟩

theorem synced (hs : Synced key src dst) (ho : Ordered key p (pending key src dst)) :
    Synced key src dst' where
  srcKeys := hs.srcKeys
  dstKeys := h.dstKeys hs.srcKeys hs.dstKeys
  below r hr hk := by
    rw [h.mem_dst]
    by_cases hlow : key r ≤ high key dst
    · exact .inl (hs.below r hr hlow)
    have hp : r ∈ pending key src dst := mem_pending.2 ⟨hr,not_le.1 hlow⟩
    by_cases hd' : dst' = []
    · have hd : dst = [] := by
        have hnil := List.Perm.nil_eq (hd' ▸ h)
        exact (List.append_eq_nil_iff.1 hnil.symm).1
      rw [hd'] at hk
      rw [hd] at hlow
      exact absurd hk hlow
    obtain ⟨r',hr',hk'⟩ := exists_high key hd'
    rcases h.mem_dst.1 hr' with hold | hnew
    · have := le_high key hold
      omega
    obtain ⟨hp',ht⟩ := mem_fresh.1 hnew
    rcases lt_or_eq_of_le (hk'.symm ▸ hk) with hlt | heq
    · exact .inr (mem_fresh.2 ⟨hp,ho r hp r' hp' hlt ht⟩)
    · have : r = r' := List.inj_on_of_nodup_map hs.srcKeys hr (mem_pending.1 hp').1 heq
      exact .inr (this ▸ hnew)

theorem of_mem_pending (hr : r ∈ pending key src dst) (hmem : r ∈ dst') : p r = true := by
  rcases h.mem_dst.1 hmem with hold | hnew
  · have h₁ := le_high key hold
    have h₂ := (mem_pending.1 hr).2
    omega
  · exact (mem_fresh.1 hnew).2

theorem lost_of_not_ordered (ho : ¬ Ordered key p (pending key src dst)) : Lost key src dst' := by
  simp only [Ordered,not_forall] at ho
  obtain ⟨r,hr,r',hr',hlt,hp',hp⟩ := ho
  have hcopied : r' ∈ dst' := h.mem_dst.2 (.inr (mem_fresh.2 ⟨hr',hp'⟩))
  refine ⟨r,(mem_pending.1 hr).1,hlt.le.trans (le_high key hcopied),?_⟩
  exact fun hmem => hp (h.of_mem_pending hr hmem)

theorem complete (hs : Synced key src dst) (hp : ∀ x ∈ pending key src dst, p x = true)
    (hr : r ∈ src) : r ∈ dst' := by
  rw [h.mem_dst]
  by_cases hlow : key r ≤ high key dst
  · exact .inl (hs.below r hr hlow)
  · have hpending : r ∈ pending key src dst := mem_pending.2 ⟨hr,not_le.1 hlow⟩
    exact .inr (mem_fresh.2 ⟨hpending,hp r hpending⟩)

end

end Copies

theorem Synced.insert (h : Synced key src dst) (hs : ∀ x ∈ src, key x < key r)
    (hd : high key dst < key r) : Synced key (src ++ [r]) dst where
  srcKeys := by
    rw [List.map_append,List.nodup_append']
    refine ⟨h.srcKeys,List.nodup_singleton _,?_⟩
    intro k hk hk'
    obtain ⟨x,hx,rfl⟩ := List.mem_map.1 hk
    have := hs x hx
    simp only [List.map_cons,List.map_nil,List.mem_singleton] at hk'
    omega
  dstKeys := h.dstKeys
  below x hx hk := by
    rcases List.mem_append.1 hx with hold | hnew
    · exact h.below x hold hk
    · rw [List.mem_singleton] at hnew
      subst hnew
      omega

theorem Lost.insert (h : Lost key src dst) : Lost key (src ++ [r]) dst := by
  obtain ⟨x,hx,hk,hn⟩ := h
  exact ⟨x,List.mem_append_left _ hx,hk,hn⟩

end Watermark
