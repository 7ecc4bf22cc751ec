import Lorentz.Library.Split
import Lorentz.Library.Monitor

/-!
`db_uri_display`, against how the client library reads a URI, and the pool of idle PostgreSQL
connections. What the server answers is part of a call.
-/

set_option autoImplicit false

namespace Lorentz
open Search List

def dbUriIsRemote (uri : List Char) : Bool :=
  "postgresql://".toList.isPrefixOf uri || "postgres://".toList.isPrefixOf uri

def displaySize : Nat := 512

/-- What is printed into the buffer: the URI with the password of its user part masked. -/
def printedUri (uri : List Char) : List Char :=
  let schemeEnd := match strstr "://".toList uri with
    | some i => i+3
    | none => 0
  let rest := uri.drop schemeEnd
  match strchr '@' rest,strchr ':' rest with
  | some atSign,some colon =>
    if colon < atSign ∧ (strchr '/' rest).all (fun slash => atSign < slash) then
      uri.take (schemeEnd+colon) ++ ":***".toList ++ rest.drop atSign
    else uri
  | _,_ => uri

def passwordName : List Char := "password=".toList

def maskParameter (buf : List Char) : List Char :=
  match strstr passwordName buf with
  | none => buf
  | some i =>
    let pw := i+9
    buf.take pw ++ "***".toList ++ (buf.drop pw).dropWhile (fun c => c ≠ '&')

theorem passwordName_at : '@' ∉ passwordName := by decide

def dbUriDisplay (uri : List Char) : List Char :=
  if dbUriIsRemote uri then maskParameter ((printedUri uri).take (displaySize-1)) else uri

inductive Scheme where
  | postgresql
  | postgres
  deriving DecidableEq

def Scheme.name : Scheme → List Char
  | .postgresql => "postgresql://".toList
  | .postgres => "postgres://".toList

def NoUserPart (rest : List Char) : Prop := '@' ∉ rest.takeWhile (fun c => c ≠ '/')

instance decidableNoUserPart (rest : List Char) : Decidable (NoUserPart rest) :=
  inferInstanceAs (Decidable (¬ _))

@[simp] theorem noUserPart_cons {c : Char} {s : List Char} :
    NoUserPart (c :: s) ↔ c = '/' ∨ c ≠ '@' ∧ NoUserPart s := by
  by_cases h : c = '/'
  · simp [NoUserPart,h]
  · simp [NoUserPart,h,eq_comm]

theorem noUserPart_append {s t : List Char} :
    NoUserPart (s ++ t) ↔ NoUserPart s ∧ ('/' ∈ s ∨ NoUserPart t) := by
  induction s with
  | nil => simp [NoUserPart]
  | cons c s ih =>
    simp only [cons_append,noUserPart_cons,ih,mem_cons]
    by_cases h : c = '/'
    · simp [h]
    · simp [h,Ne.symm h,and_assoc]

theorem noUserPart_of_not_mem {s : List Char} (h : '@' ∉ s) : NoUserPart s :=
  fun hm => h (takeWhile_subset _ hm)

structure UserPlace where
  scheme : Scheme
  user : List Char
  rest : List Char
  huser : ':' ∉ user ∧ '@' ∉ user ∧ '/' ∉ user

def UserPlace.uri (p : UserPlace) (pw : List Char) : List Char :=
  p.scheme.name ++ (p.user ++ ':' :: pw ++ '@' :: p.rest)

/-- A URI with the place of a parameter named password. `host` is all in front of the
parameters, `userPart` the user part with its password. -/
structure ParameterPlace where
  scheme : Scheme
  userPart : Option (List Char)
  host : List Char
  before : List (List Char)
  after : List (List Char)
  huser : ∀ u ∈ userPart, '@' ∉ u ∧ '/' ∉ u
  hnone : userPart = none → NoUserPart (host ++ ['?'] ++ before.flatMap (fun q => q ++ ['&']))
  hhost : '?' ∉ host
  hparams : ∀ p ∈ before ++ after, '&' ∉ p

namespace ParameterPlace

variable (p : ParameterPlace)

def start : List Char :=
  p.host ++ '?' :: p.before.flatMap (fun q => q ++ ['&']) ++ passwordName

def later : List Char := p.after.flatMap (fun q => '&' :: q)

def uri (pw : List Char) : List Char :=
  p.scheme.name ++ (p.userPart.elim [] (fun u => u ++ ['@']) ++ (p.start ++ pw ++ p.later))

def Takes (pw : List Char) : Prop :=
  '&' ∉ pw ∧ (p.userPart = none → NoUserPart (p.start ++ pw ++ p.later))

end ParameterPlace

inductive PasswordPlace where
  | user (p : UserPlace)
  | parameter (p : ParameterPlace)

namespace PasswordPlace

def uri : PasswordPlace → List Char → List Char
  | .user p, pw => p.uri pw
  | .parameter p, pw => p.uri pw

def Takes : PasswordPlace → List Char → Prop
  | .user _, pw => '@' ∉ pw ∧ '/' ∉ pw
  | .parameter p, pw => p.Takes pw

end PasswordPlace

inductive LengthClass where
  | fits
  | cut
  deriving DecidableEq

def lengthClass (uri : List Char) : LengthClass :=
  if (printedUri uri).length < displaySize then .fits else .cut

def maskUser (u : List Char) : List Char :=
  match strchr ':' u with
  | none => u
  | some i => u.take i ++ ":***".toList

variable (sch : Scheme) (t : List Char)

theorem dbUriIsRemote_scheme : dbUriIsRemote (sch.name ++ t) = true := by
  simp only [dbUriIsRemote,Bool.or_eq_true,List.isPrefixOf_iff_prefix]
  cases sch with
  | postgresql => exact .inl (prefix_append _ t)
  | postgres => exact .inr (prefix_append _ t)

theorem strstr_scheme : strstr "://".toList (sch.name ++ t) = some (sch.name.length-3) := by
  have h : strstr "://".toList sch.name = some (sch.name.length-3) := by cases sch <;> decide
  exact strstr_append h t

theorem three_le_scheme : 3 ≤ sch.name.length := by cases sch <;> decide

theorem printedUri_user {u : List Char} (hu : '@' ∉ u ∧ '/' ∉ u) (rest : List Char) :
    printedUri (sch.name ++ (u ++ '@' :: rest)) = sch.name ++ (maskUser u ++ '@' :: rest) := by
  have hlen := three_le_scheme sch
  have hslash : ((strchr '/' (u ++ '@' :: rest)).all (fun slash => u.length < slash)) = true := by
    rw [strchr_append_of_not_mem hu.2,strchr]
    cases h : rest.findIdx? (· = '/') with
    | none => simp [findIdx?_cons,h]
    | some i =>
      simp [findIdx?_cons,h]
  rw [printedUri,strstr_scheme]
  simp only [Nat.sub_add_cancel hlen,drop_left,strchr_append hu.1]
  cases hc : strchr ':' u with
  | some i =>
    rw [strchr_append_of_eq_some hc]
    simp only
    rw [if_pos ⟨strchr_lt hc,hslash⟩,maskUser,hc,take_append,take_of_length_le (by omega)]
    simp [take_append_of_le_length (Nat.le_of_lt (strchr_lt hc))]
  | none =>
    rw [strchr_append_of_not_mem (strchr_eq_none.mp hc),maskUser,hc]
    cases hr : strchr ':' ('@' :: rest) with
    | none => rfl
    | some i =>
      simp only [Option.map_some]
      rw [if_neg (by omega)]

theorem printedUri_noUserPart {rest : List Char} (h : NoUserPart rest) :
    printedUri (sch.name ++ rest) = sch.name ++ rest := by
  have hlen := three_le_scheme sch
  rw [printedUri,strstr_scheme]
  simp only [Nat.sub_add_cancel hlen,drop_left]
  cases ha : strchr '@' rest with
  | none => rfl
  | some a =>
    cases hc : strchr ':' rest with
    | none => rfl
    | some colon =>
      simp only
      rw [if_neg]
      rintro ⟨-,hslash⟩
      -- the slash that ends what has no '@' stands in front of the one found
      unfold NoUserPart at h
      have hsplit := takeWhile_append_dropWhile (p := fun c => decide (c ≠ '/')) (l := rest)
      have hno : '/' ∉ rest.takeWhile (fun c => decide (c ≠ '/')) := fun hm => by
        simpa using all_eq_true.mp all_takeWhile _ hm
      generalize rest.takeWhile (fun c => decide (c ≠ '/')) = front at h hsplit hno
      cases ht : rest.dropWhile (fun c => decide (c ≠ '/')) with
      | nil =>
        rw [ht,append_nil] at hsplit
        rw [← hsplit,strchr_eq_none.mpr h] at ha
        cases ha
      | cons c t =>
        have hc : c = '/' := by
          have := head?_dropWhile_not (fun c => decide (c ≠ '/')) rest
          rw [ht] at this
          simpa using this
        rw [ht,hc] at hsplit
        rw [← hsplit,strchr_append hno] at hslash
        rw [← hsplit,strchr_append_of_not_mem h] at ha
        obtain ⟨j,-,rfl⟩ := Option.map_eq_some_iff.mp ha
        simp only [Option.all_some,decide_eq_true_eq] at hslash
        omega

namespace ParameterPlace

variable (p : ParameterPlace) {v w : List Char}

def front : List Char :=
  p.scheme.name ++ (p.userPart.elim [] (fun u => maskUser u ++ ['@']) ++ p.start)

theorem printedUri_uri (hv : p.Takes v) : printedUri (p.uri v) = p.front ++ (v ++ p.later) := by
  obtain ⟨-,hv⟩ := hv
  unfold uri front
  cases hu : p.userPart with
  | none =>
    simp only [Option.elim_none,nil_append]
    rw [printedUri_noUserPart _ (hv hu)]
    simp
  | some u =>
    simp only [Option.elim_some]
    rw [append_assoc,singleton_append,printedUri_user _ (p.huser u hu)]
    simp

/-- The first "password=" of what is printed has no ampersand between it and the password. -/
def Covered : Prop := ∀ i ∈ strstr passwordName p.front, '&' ∉ p.front.drop (i+9)

/-- Only a slash in the password keeps what follows it from being read as a user part. -/
def NeedsSlash : Prop := p.userPart = none ∧ ¬ NoUserPart (p.start ++ p.later)

instance decidableNeedsSlash : Decidable p.NeedsSlash := inferInstanceAs (Decidable (_ ∧ _))

def least : Nat := if p.NeedsSlash then 1 else 0

theorem display_uri (hv : p.Takes v) :
    dbUriDisplay (p.uri v) = maskParameter ((p.front ++ (v ++ p.later)).take 511) := by
  have hremote : dbUriIsRemote (p.uri v) = true := dbUriIsRemote_scheme _ _
  rw [dbUriDisplay,if_pos hremote,p.printedUri_uri hv]
  rfl

theorem exists_name : ∃ i, strstr passwordName p.front = some i := by
  have := exists_strstr (p.scheme.name ++ (p.userPart.elim [] (fun u => maskUser u ++ ['@']) ++
    (p.host ++ '?' :: p.before.flatMap (fun q => q ++ ['&'])))) passwordName
  simpa only [front,start,append_assoc] using this

theorem display_eq (hB : p.front.length ≤ 511) {i : Nat} (hi : strstr passwordName p.front = some i)
    (hv : p.Takes v) :
    dbUriDisplay (p.uri v) = p.front.take (i+9) ++ "***".toList ++
      (p.front.drop (i+9) ++ (v ++ p.later).take (511-p.front.length)).dropWhile
        (fun c => c ≠ '&') := by
  have hle : i+9 ≤ p.front.length := strstr_le hi
  rw [p.display_uri hv,take_append,take_of_length_le hB,maskParameter,
    strstr_append hi]
  simp only
  rw [take_append_of_le_length hle,drop_append_of_le_length hle]

theorem later_eq : p.later = [] ∨ ∃ t, p.later = '&' :: t := by
  unfold later
  cases p.after with
  | nil => exact .inl rfl
  | cons q qs => exact .inr ⟨_,rfl⟩

theorem dropWhile_later (hv : '&' ∉ v) (n : Nat) :
    ((v ++ p.later).take n).dropWhile (fun c => c ≠ '&') = p.later.take (n-v.length) := by
  have hdrop : (v.take n).dropWhile (fun c => decide (c ≠ '&')) = [] := by
    rw [dropWhile_eq_nil_iff]
    intro c hc
    have : c ≠ '&' := fun h => hv (h ▸ mem_of_mem_take hc)
    simpa using this
  rw [take_append,dropWhile_append,hdrop]
  obtain h | ⟨t,h⟩ := p.later_eq
  · simp [h]
  rw [h]
  cases n-v.length with
  | zero => rfl
  | succ m => simp

theorem display_covered (hB : p.front.length ≤ 511) {i : Nat}
    (hi : strstr passwordName p.front = some i) (hc : p.Covered) (hv : p.Takes v) :
    dbUriDisplay (p.uri v) = p.front.take (i+9) ++ "***".toList ++
      p.later.take (511-p.front.length-v.length) := by
  have hno : (p.front.drop (i+9)).dropWhile (fun c => decide (c ≠ '&')) = [] := by
    rw [dropWhile_eq_nil_iff]
    intro c hm
    have : c ≠ '&' := fun h => hc i hi (h ▸ hm)
    simpa using this
  rw [p.display_eq hB hi hv,dropWhile_append,hno]
  simp only [isEmpty_nil,if_true]
  rw [p.dropWhile_later hv.1]

theorem display_shown (hB : p.front.length ≤ 511) {i : Nat}
    (hi : strstr passwordName p.front = some i) (hc : ¬ p.Covered) :
    ∃ shown, ∀ v, p.Takes v →
      dbUriDisplay (p.uri v) = shown ++ (v ++ p.later).take (511-p.front.length) := by
  have hm : '&' ∈ p.front.drop (i+9) := by
    by_contra h
    refine hc fun j hj => ?_
    rw [hi] at hj
    cases hj
    exact h
  have hne : (p.front.drop (i+9)).dropWhile (fun c => decide (c ≠ '&')) ≠ [] := by
    rw [Ne,dropWhile_eq_nil_iff]
    intro h
    simpa using h '&' hm
  refine ⟨p.front.take (i+9) ++ "***".toList ++
    (p.front.drop (i+9)).dropWhile (fun c => decide (c ≠ '&')),fun v hv => ?_⟩
  rw [p.display_eq hB hi hv,dropWhile_append,if_neg (by simpa using hne)]
  simp

theorem noUserPart_start (hu : p.userPart = none) : NoUserPart p.start := by
  have h := noUserPart_append.mpr ⟨p.hnone hu,.inr (noUserPart_of_not_mem passwordName_at)⟩
  simpa [start] using h

theorem takes_iff : p.Takes v ↔ '&' ∉ v ∧ (p.userPart = none →
    '/' ∈ p.start ∨ NoUserPart v ∧ ('/' ∈ v ∨ NoUserPart p.later)) := by
  by_cases hu : p.userPart = none
  · simp [Takes,hu,noUserPart_append,p.noUserPart_start hu]
  · simp [Takes,hu]

theorem needsSlash_iff :
    p.NeedsSlash ↔ p.userPart = none ∧ '/' ∉ p.start ∧ ¬ NoUserPart p.later := by
  by_cases hu : p.userPart = none
  · simp [NeedsSlash,hu,noUserPart_append,p.noUserPart_start hu]
  · simp [NeedsSlash,hu]

theorem slash_mem (hs : p.NeedsSlash) (hv : p.Takes v) : '/' ∈ v := by
  obtain ⟨hu,hstart,hlater⟩ := p.needsSlash_iff.mp hs
  obtain h | ⟨-,h | h⟩ := (p.takes_iff.mp hv).2 hu
  · exact absurd h hstart
  · exact h
  · exact absurd h hlater

theorem least_le (hv : p.Takes v) : p.least ≤ v.length := by
  unfold least
  split
  · rename_i hs
    exact length_pos_of_mem (p.slash_mem hs hv)
  · omega

theorem eq_of_length_least (hv : p.Takes v) (hw : p.Takes w) (hvl : v.length = p.least)
    (hwl : w.length = p.least) : v = w := by
  unfold least at hvl hwl
  split at hvl
  · rename_i hs
    rw [if_pos hs] at hwl
    obtain ⟨c,rfl⟩ := length_eq_one_iff.mp hvl
    obtain ⟨d,rfl⟩ := length_eq_one_iff.mp hwl
    have hc := p.slash_mem hs hv
    have hd := p.slash_mem hs hw
    simp only [mem_singleton] at hc hd
    rw [← hc,← hd]
  · rename_i hs
    rw [if_neg hs] at hwl
    rw [eq_nil_of_length_eq_zero hvl,eq_nil_of_length_eq_zero hwl]

theorem takes_of_slashes (hamp : '&' ∉ v) (hat : '@' ∉ v) (hslash : p.least = 1 → '/' ∈ v) :
    p.Takes v := by
  refine p.takes_iff.mpr ⟨hamp,fun hu => ?_⟩
  by_cases hs : p.NeedsSlash
  · exact .inr ⟨noUserPart_of_not_mem hat,.inl (hslash (by rw [least,if_pos hs]))⟩
  have := p.needsSlash_iff.not.mp hs
  simp only [hu,true_and,not_and,not_not] at this
  by_cases h : '/' ∈ p.start
  · exact .inl h
  · exact .inr ⟨noUserPart_of_not_mem hat,.inr (this h)⟩

theorem takes_replicate {n : Nat} (h : p.least ≤ n) : p.Takes (replicate n '/') := by
  refine p.takes_of_slashes ?_ ?_ fun h1 => ?_
  · simp
  · simp
  · simp only [mem_replicate,and_true]
    omega

theorem takes_cons {c : Char} {n : Nat} (hc : c ≠ '&' ∧ c ≠ '@') (h : p.least ≤ n) :
    p.Takes (c :: replicate n '/') := by
  refine p.takes_of_slashes ?_ ?_ fun h1 => ?_
  · simp [hc.1.symm]
  · simp [hc.2.symm]
  · simp only [mem_cons,mem_replicate,and_true]
    omega

def Hidden : LengthClass → Prop
  | .fits => p.Covered ∨ 511 ≤ p.front.length+p.later.length+p.least
  | .cut => 511 ≤ p.front.length ∨
      p.Covered ∧ (p.later.length ≤ 1 ∨ 511 ≤ p.front.length+p.least)

theorem lengthClass_uri (hv : p.Takes v) :
    lengthClass (p.uri v) =
      if p.front.length+v.length+p.later.length ≤ 511 then .fits else .cut := by
  rw [lengthClass,p.printedUri_uri hv]
  simp only [length_append,displaySize]
  congr 1
  exact propext (by omega)

theorem display_ne (hB : p.front.length < 511) (hc : ¬ p.Covered) {n : Nat} (hn : p.least ≤ n) :
    dbUriDisplay (p.uri ('x' :: replicate n '/')) ≠
      dbUriDisplay (p.uri ('y' :: replicate n '/')) := by
  obtain ⟨i,hi⟩ := p.exists_name
  obtain ⟨shown,h⟩ := p.display_shown (by omega) hi hc
  rw [h _ (p.takes_cons (by decide) hn),h _ (p.takes_cons (by decide) hn)]
  obtain ⟨m,hm⟩ : ∃ m, 511-p.front.length = m+1 := ⟨510-p.front.length,by omega⟩
  rw [hm]
  simp

theorem display_fits :
    (∀ v w, p.Takes v → p.Takes w → lengthClass (p.uri v) = .fits →
      lengthClass (p.uri w) = .fits → dbUriDisplay (p.uri v) = dbUriDisplay (p.uri w)) ↔
      p.Hidden .fits := by
  constructor
  · intro h
    by_contra hhid
    simp only [Hidden,not_or,not_le] at hhid
    obtain ⟨hc,hroom⟩ := hhid
    have hx := p.takes_cons (c := 'x') (by decide) (Nat.le_refl p.least)
    have hy := p.takes_cons (c := 'y') (by decide) (Nat.le_refl p.least)
    refine p.display_ne (by omega) hc (Nat.le_refl _) (h _ _ hx hy ?_ ?_)
    · rw [p.lengthClass_uri hx,if_pos (by simp; omega)]
    · rw [p.lengthClass_uri hy,if_pos (by simp; omega)]
  intro hhid v w hv hw hvc hwc
  rw [p.lengthClass_uri hv] at hvc
  rw [p.lengthClass_uri hw] at hwc
  have hvl : p.front.length+v.length+p.later.length ≤ 511 := by
    by_contra hn
    simp [hn] at hvc
  have hwl : p.front.length+w.length+p.later.length ≤ 511 := by
    by_contra hn
    simp [hn] at hwc
  obtain hc | hroom := hhid
  · obtain ⟨i,hi⟩ := p.exists_name
    have hvt : p.later.take (511-p.front.length-v.length) = p.later :=
      take_of_length_le (by omega)
    have hwt : p.later.take (511-p.front.length-w.length) = p.later :=
      take_of_length_le (by omega)
    rw [p.display_covered (by omega) hi hc hv,p.display_covered (by omega) hi hc hw,hvt,hwt]
  · have hv' := p.least_le hv
    have hw' := p.least_le hw
    rw [p.eq_of_length_least hv hw (by omega) (by omega)]

theorem display_cut :
    (∀ v w, p.Takes v → p.Takes w → lengthClass (p.uri v) = .cut →
      lengthClass (p.uri w) = .cut → dbUriDisplay (p.uri v) = dbUriDisplay (p.uri w)) ↔
      p.Hidden .cut := by
  obtain ⟨i,hi⟩ := p.exists_name
  constructor
  · intro h
    by_contra hhid
    simp only [Hidden,not_or,not_le,not_and] at hhid
    obtain ⟨hB,hcov⟩ := hhid
    by_cases hc : p.Covered
    · -- one password leaves room for an ampersand, the other for nothing
      obtain ⟨hlater,hroom⟩ := hcov hc
      have hv := p.takes_replicate (n := 510-p.front.length) (by omega)
      have hw := p.takes_replicate (n := 511-p.front.length) (by omega)
      have heq := h _ _ hv hw
        (by rw [p.lengthClass_uri hv,if_neg (by rw [length_replicate]; omega)])
        (by rw [p.lengthClass_uri hw,if_neg (by rw [length_replicate]; omega)])
      rw [p.display_covered (by omega) hi hc hv,p.display_covered (by omega) hi hc hw] at heq
      have hlen := congrArg List.length heq
      simp only [length_append,length_take,length_replicate] at hlen
      omega
    · have hle : p.least ≤ 512 := by
        unfold least
        split <;> omega
      have hx := p.takes_cons (c := 'x') (by decide) hle
      have hy := p.takes_cons (c := 'y') (by decide) hle
      refine p.display_ne (by omega) hc hle (h _ _ hx hy ?_ ?_)
      · rw [p.lengthClass_uri hx,if_neg (by rw [length_cons,length_replicate]; omega)]
      · rw [p.lengthClass_uri hy,if_neg (by rw [length_cons,length_replicate]; omega)]
  intro hhid v w hv hw hvc hwc
  rw [p.lengthClass_uri hv] at hvc
  rw [p.lengthClass_uri hw] at hwc
  have hvl : ¬ p.front.length+v.length+p.later.length ≤ 511 := fun hn => by simp [hn] at hvc
  have hwl : ¬ p.front.length+w.length+p.later.length ≤ 511 := fun hn => by simp [hn] at hwc
  by_cases hB : 511 ≤ p.front.length
  · rw [p.display_uri hv,p.display_uri hw,take_append_of_le_length hB,
      take_append_of_le_length hB]
  obtain hB' | ⟨hc,hrest⟩ := hhid
  · exact absurd hB' hB
  have hv' := p.least_le hv
  have hw' := p.least_le hw
  have hvz : 511-p.front.length-v.length = 0 := by omega
  have hwz : 511-p.front.length-w.length = 0 := by omega
  rw [p.display_covered (by omega) hi hc hv,p.display_covered (by omega) hi hc hw,hvz,hwz]

end ParameterPlace

theorem UserPlace.display_uri (p : UserPlace) {v : List Char} (hv : '@' ∉ v ∧ '/' ∉ v) :
    dbUriDisplay (p.uri v) = maskParameter
      ((p.scheme.name ++ (p.user ++ ":***".toList ++ '@' :: p.rest)).take 511) := by
  have hremote : dbUriIsRemote (p.uri v) = true := dbUriIsRemote_scheme _ _
  have hu : '@' ∉ p.user ++ ':' :: v ∧ '/' ∉ p.user ++ ':' :: v := by
    simp [p.huser,hv]
  have hmask : maskUser (p.user ++ ':' :: v) = p.user ++ ":***".toList := by
    rw [maskUser,strchr_append p.huser.1]
    simp
  rw [dbUriDisplay,if_pos hremote,uri,printedUri_user _ hu,hmask]
  rfl

def PasswordPlace.Hidden : PasswordPlace → LengthClass → Prop
  | .user _,_ => True
  | .parameter p,c => p.Hidden c

/-- The display does not depend on the password. -/
theorem uri_display_password (place : PasswordPlace) (c : LengthClass) :
    (∀ v w, place.Takes v → place.Takes w → lengthClass (place.uri v) = c →
      lengthClass (place.uri w) = c → dbUriDisplay (place.uri v) = dbUriDisplay (place.uri w)) ↔
      place.Hidden c := by
  cases place with
  | user p =>
    simp only [PasswordPlace.Hidden,iff_true]
    intro v w hv hw _ _
    exact (p.display_uri hv).trans (p.display_uri hw).symm
  | parameter p =>
    cases c with
    | fits => exact p.display_fits
    | cut => exact p.display_cut

def sslPlace : ParameterPlace where
  scheme := .postgresql
  userPart := some ['u']
  host := "h/db".toList
  before := ["sslpassword=k".toList]
  after := []
  huser := by simp
  hnone := by simp
  hhost := by decide
  hparams := by
    simp only [List.append_nil,List.mem_singleton,forall_eq]
    decide

theorem uri_display_sslpassword :
    sslPlace.uri "a".toList = "postgresql://u@h/db?sslpassword=k&password=a".toList ∧
      sslPlace.Takes "a".toList ∧ sslPlace.Takes "b".toList ∧
      lengthClass (sslPlace.uri "a".toList) = .fits ∧
      lengthClass (sslPlace.uri "b".toList) = .fits ∧
      dbUriDisplay (sslPlace.uri "a".toList) =
        "postgresql://u@h/db?sslpassword=***&password=a".toList ∧
      dbUriDisplay (sslPlace.uri "b".toList) =
        "postgresql://u@h/db?sslpassword=***&password=b".toList := by
  refine ⟨by decide,⟨by decide,by simp [sslPlace]⟩,⟨by decide,by simp [sslPlace]⟩,?_⟩
  decide

open Machine

structure PoolEntry where
  pg : Nat
  uri : List Char
  idleSince : Nat
  deriving DecidableEq

/-- The pool, most recently used first, its settings and counters, and the clock. -/
structure ConnectionPool where
  entries : List PoolEntry := []
  poolMax : Nat := 0
  poolIdleSeconds : Nat := 300
  count : Nat := 0
  hits : Nat := 0
  misses : Nat := 0
  dropped : Nat := 0
  now : Nat := 0
  deriving DecidableEq

inductive TransactionStatus where
  | idle
  | active
  | inTrans
  | inError
  | unknown
  deriving DecidableEq

/-- A connection that is closed: what `PQstatus` and `PQtransactionStatus` say, the latter also
behind a `ROLLBACK`, and whether there is memory for an entry. -/
structure Closing where
  pg : Nat
  uri : Option (List Char)
  statusOk : Bool
  status : TransactionStatus
  rolledBack : TransactionStatus
  memory : Bool
  deriving DecidableEq

namespace ConnectionPool

variable (s : ConnectionPool)

/-- Idle for more than `pool_idle_seconds`, which are not 0. -/
def tooLong (e : PoolEntry) : Bool :=
  decide (s.poolIdleSeconds > 0) && decide (s.now-e.idleSince > s.poolIdleSeconds)

/-- The entries that `pool_trim` leaves, of which `kept` stand in front. -/
def trimFrom (kept : Nat) : List PoolEntry → List PoolEntry
  | [] => []
  | e :: es => if kept ≥ s.poolMax || s.tooLong e then [] else e :: trimFrom (kept+1) es

def poolTrim : ConnectionPool :=
  let left := s.trimFrom 0 s.entries
  let doomed := s.entries.length-left.length
  {s with entries := left,count := s.count-doomed,dropped := s.dropped+doomed}

def configurePool (maxIdle idleSeconds : Nat) : ConnectionPool :=
  poolTrim {s with poolMax := maxIdle,poolIdleSeconds := idleSeconds}

def poolDrain : ConnectionPool :=
  {s with entries := [],dropped := s.dropped+s.count,count := 0}

/-- The loop of `pool_get`, `usable` being what the server says to a connection. The first number
bounds the rounds. -/
def poolGetLoop (uri : List Char) (usable : Nat → Bool) :
    Nat → ConnectionPool → Option PoolEntry × ConnectionPool
  | 0, s => (none,s)
  | n+1, s =>
    match s.entries.find? (fun e => e.uri = uri) with
    | none => (none,if s.poolMax > 0 then {s with misses := s.misses+1} else s)
    | some e =>
      let s := {s with entries := s.entries.eraseP (fun e => e.uri = uri),count := s.count-1}
      if usable e.pg then (some e,{s with hits := s.hits+1})
      else poolGetLoop uri usable n {s with dropped := s.dropped+1}

def poolGet (uri : List Char) (usable : Nat → Bool) : Option PoolEntry × ConnectionPool :=
  poolGetLoop uri usable (s.entries.length+1) s

def takes (c : Closing) : Bool :=
  let status := if c.status = .inTrans ∨ c.status = .inError then c.rolledBack else c.status
  s.poolMax ≠ 0 && c.uri.isSome && c.statusOk && status = .idle && c.memory

def poolPut (c : Closing) : ConnectionPool :=
  match s.takes c,c.uri with
  | true,some uri =>
    poolTrim {s with entries := ⟨c.pg,uri,s.now⟩ :: s.entries,count := s.count+1}
  | _,_ => s

end ConnectionPool

inductive PoolCall where
  | open (uri : List Char) (usable : Nat → Bool)
  | close (c : Closing)
  | configure (maxIdle idleSeconds : Nat)
  | drain
  | wait (seconds : Nat)

namespace ConnectionPool

def call (s : ConnectionPool) : PoolCall → Option PoolEntry × ConnectionPool
  | .open uri usable => s.poolGet uri usable
  | .close c => (none,s.poolPut c)
  | .configure maxIdle idleSeconds => (none,s.configurePool maxIdle idleSeconds)
  | .drain => (none,s.poolDrain)
  | .wait seconds => (none,{s with now := s.now+seconds})

def step (s : ConnectionPool) (c : PoolCall) : ConnectionPool := (s.call c).2

/-- Nothing that was idle for too long is handed out, and none such is left behind a call. -/
def Fresh (s : ConnectionPool) (c : PoolCall) : Prop :=
  (∀ e ∈ (s.call c).1, s.tooLong e = false) ∧
    ((∃ seconds, c = .wait seconds) ∨ ∀ e ∈ (s.step c).entries, (s.step c).tooLong e = false)

def trimmed (s : ConnectionPool) : PoolCall → Bool
  | .open _ _ => s.entries.all (fun e => !s.tooLong e)
  | .close c => s.takes c || s.entries.all (fun e => !s.tooLong e)
  | _ => true

variable {s : ConnectionPool} {uri : List Char} {usable : Nat → Bool}

theorem tooLong_of_mem_trimFrom {kept : Nat} {es : List PoolEntry} :
    ∀ e ∈ s.trimFrom kept es, s.tooLong e = false := by
  induction es generalizing kept with
  | nil => simp [trimFrom]
  | cons e es ih =>
    unfold trimFrom
    split
    · simp
    rename_i h
    simp only [Bool.or_eq_true,decide_eq_true_eq,not_or,Bool.not_eq_true] at h
    simp only [List.mem_cons,forall_eq_or_imp]
    exact ⟨h.2,ih⟩

theorem tooLong_of_mem_poolTrim : ∀ e ∈ s.poolTrim.entries, s.poolTrim.tooLong e = false :=
  fun e he => tooLong_of_mem_trimFrom (s := s) e he

/-- What `pool_get` hands out was in the pool, and what it leaves, too. -/
structure GetsFrom (s : ConnectionPool) (uri : List Char) (usable : Nat → Bool)
    (r : Option PoolEntry × ConnectionPool) : Prop where
  handed : ∀ e ∈ r.1, e ∈ s.entries ∧ e.uri = uri ∧ usable e.pg = true
  left : r.2.entries.Sublist s.entries
  now : r.2.now = s.now
  idle : r.2.poolIdleSeconds = s.poolIdleSeconds
  counted : s.count = s.entries.length → r.2.count = r.2.entries.length

theorem poolGetLoop_getsFrom (uri : List Char) (usable : Nat → Bool) (n : Nat) :
    GetsFrom s uri usable (poolGetLoop uri usable n s) := by
  induction n generalizing s with
  | zero => exact ⟨by simp [poolGetLoop],.refl _,rfl,rfl,id⟩
  | succ n ih =>
    unfold poolGetLoop
    split
    · split <;> exact ⟨by simp,.refl _,rfl,rfl,id⟩
    rename_i e he
    have hmem := List.mem_of_find?_eq_some he
    have huri : e.uri = uri := by simpa using List.find?_some he
    have hlen := List.length_eraseP_of_mem (p := fun e => decide (e.uri = uri)) hmem (by simp [huri])
    split
    · rename_i hu
      refine ⟨?_,List.eraseP_sublist,rfl,rfl,fun h => ?_⟩
      · rintro x hx
        cases hx
        exact ⟨hmem,huri,hu⟩
      · simp only [hlen,h]
    · obtain ⟨hhanded,hleft,hnow,hidle,hcount⟩ := ih (s := {s with
        entries := s.entries.eraseP (fun e => e.uri = uri),count := s.count-1,
        dropped := s.dropped+1})
      refine ⟨fun x hx => ?_,hleft.trans List.eraseP_sublist,hnow,hidle,fun h => ?_⟩
      · obtain ⟨hx,h⟩ := hhanded x hx
        exact ⟨List.eraseP_subset hx,h⟩
      · exact hcount (by simp only [hlen,h])

theorem fresh_of_trimmed {c : PoolCall} (h : s.trimmed c = true) : s.Fresh c := by
  cases c with
  | «open» uri usable =>
    have hall : ∀ e ∈ s.entries, s.tooLong e = false := by simpa [trimmed] using h
    obtain ⟨hhanded,hleft,hnow,hidle,-⟩ :=
      poolGetLoop_getsFrom (s := s) uri usable (s.entries.length+1)
    refine ⟨fun e he => hall e (hhanded e he).1,.inr fun e he => ?_⟩
    have := hall e (hleft.subset he)
    simpa only [tooLong,step,call,poolGet,hnow,hidle] using this
  | close c =>
    refine ⟨by simp [call],.inr ?_⟩
    cases ht : s.takes c with
    | true =>
      obtain ⟨uri,huri⟩ : ∃ uri, c.uri = some uri := by
        simp only [takes,Bool.and_eq_true] at ht
        exact Option.isSome_iff_exists.mp ht.1.1.1.2
      simp only [step,call,poolPut,ht,huri]
      exact tooLong_of_mem_poolTrim
    | false =>
      have hall : ∀ e ∈ s.entries, s.tooLong e = false := by simpa [trimmed,ht] using h
      simpa only [step,call,poolPut,ht] using hall
  | configure maxIdle idleSeconds =>
    refine ⟨by simp [call],.inr ?_⟩
    exact tooLong_of_mem_poolTrim
  | drain => exact ⟨by simp [call],.inr (by simp [step,call,poolDrain])⟩
  | wait seconds => exact ⟨by simp [call],.inl ⟨seconds,rfl⟩⟩

/-- The pool is ordered by age and counted, and each connection taken was handed out, dropped or is
still there. -/
structure Sound (taken : Nat) (s : ConnectionPool) : Prop where
  ages : s.entries.Pairwise (fun e f => f.idleSince ≤ e.idleSince)
  past : ∀ e ∈ s.entries, e.idleSince ≤ s.now
  counted : s.count = s.entries.length
  settled : s.hits+s.dropped+s.count = taken

theorem tooLong_older {e f : PoolEntry} (he : s.tooLong e = true)
    (hf : f.idleSince ≤ e.idleSince) : s.tooLong f = true := by
  simp only [tooLong,Bool.and_eq_true,decide_eq_true_eq] at he ⊢
  omega

/-- Everything behind an entry is older: the cut at the first that is too old drops no other. -/
theorem trimFrom_eq_filter (kept : Nat) {es : List PoolEntry}
    (h : es.Pairwise (fun e f => f.idleSince ≤ e.idleSince)) :
    s.trimFrom kept es = (es.take (s.poolMax-kept)).filter (fun e => !s.tooLong e) := by
  induction es generalizing kept with
  | nil => simp [trimFrom]
  | cons e es ih =>
    obtain ⟨holder,hes⟩ := List.pairwise_cons.mp h
    unfold trimFrom
    by_cases hfull : kept ≥ s.poolMax
    · simp [hfull]
    obtain ⟨n,hn⟩ : ∃ n, s.poolMax-kept = n+1 := ⟨s.poolMax-kept-1,by omega⟩
    rw [hn,List.take_succ_cons]
    by_cases hlong : s.tooLong e = true
    · have hall : ∀ f ∈ es.take n, s.tooLong f = true :=
        fun f hf => tooLong_older hlong (holder f (List.mem_of_mem_take hf))
      simpa [hlong] using hall
    · have hn' : s.poolMax-(kept+1) = n := by omega
      simp [hfull,hlong,ih (kept+1) hes,hn']

variable {n : Nat}

theorem Sound.poolTrim (h : s.Sound n) :
    s.poolTrim.Sound n ∧ s.poolTrim.entries.length ≤ s.poolMax := by
  obtain ⟨hages,hpast,hcount,hn⟩ := h
  have hcut := trimFrom_eq_filter (s := s) 0 hages
  have hsub : (s.trimFrom 0 s.entries).Sublist (s.entries.take s.poolMax) :=
    hcut ▸ List.filter_sublist
  have hle := hsub.length_le
  rw [List.length_take] at hle
  have hall := hsub.trans (List.take_sublist ..)
  refine ⟨⟨hages.sublist hall,fun e he => hpast e (hall.subset he),?_,?_⟩,
    hle.trans (Nat.min_le_left ..)⟩ <;>
  · simp only [ConnectionPool.poolTrim]
    omega

theorem poolGetLoop_settled (rounds : Nat) (h : s.count = s.entries.length) :
    let r := (poolGetLoop uri usable rounds s).2
    r.poolMax = s.poolMax ∧ r.hits+r.dropped+r.count = s.hits+s.dropped+s.count := by
  induction rounds generalizing s with
  | zero => exact ⟨rfl,rfl⟩
  | succ rounds ih =>
    simp only [poolGetLoop]
    split
    · split <;> exact ⟨rfl,rfl⟩
    rename_i e he
    have hmem := List.mem_of_find?_eq_some he
    have hpos := List.length_pos_of_mem hmem
    have hlen := List.length_eraseP_of_mem hmem (List.find?_some he)
    split
    · exact ⟨rfl,by simp only; omega⟩
    · exact (ih (hlen ▸ h ▸ rfl)).imp_right fun hs => hs.trans (by simp only; omega)

def accepts (s : ConnectionPool) : PoolCall → Nat
  | .close c => (s.takes c).toNat
  | _ => 0

def accepted : ConnectionPool → List PoolCall → Nat
  | _, [] => 0
  | s, c :: cs => s.accepts c+accepted (s.step c) cs

theorem Sound.step (h : s.Sound n) (hroom : s.entries.length ≤ s.poolMax) (c : PoolCall) :
    (s.step c).Sound (n+s.accepts c) ∧ (s.step c).entries.length ≤ (s.step c).poolMax := by
  cases c with
  | «open» uri usable =>
    have hg := poolGetLoop_getsFrom (s := s) uri usable (s.entries.length+1)
    obtain ⟨hm,hs⟩ := poolGetLoop_settled (s.entries.length+1) h.counted
    exact ⟨⟨h.ages.sublist hg.left,fun e he => hg.now ▸ h.past e (hg.left.subset he),
      hg.counted h.counted,hs.trans h.settled⟩,hg.left.length_le.trans (hm ▸ hroom)⟩
  | close c =>
    cases ht : s.takes c with
    | false => simpa [ConnectionPool.step,call,poolPut,accepts,ht] using ⟨h,hroom⟩
    | true =>
      obtain ⟨uri,huri⟩ : ∃ uri, c.uri = some uri := by
        simp only [takes,Bool.and_eq_true] at ht
        exact Option.isSome_iff_exists.mp ht.1.1.1.2
      simp only [ConnectionPool.step,call,poolPut,accepts,ht,huri]
      refine Sound.poolTrim ⟨List.pairwise_cons.mpr ⟨h.past,h.ages⟩,?_,?_,?_⟩
      · simpa using h.past
      · simp [h.counted]
      · simp [← h.settled,Nat.add_assoc]
  | configure maxIdle idleSeconds => exact Sound.poolTrim ⟨h.ages,h.past,h.counted,h.settled⟩
  | drain => exact ⟨⟨.nil,nofun,rfl,(Nat.add_assoc ..).symm.trans h.settled⟩,Nat.zero_le _⟩
  | wait seconds =>
    exact ⟨⟨h.ages,fun e he => Nat.le_add_right_of_le (h.past e he),h.counted,h.settled⟩,hroom⟩

theorem sound_run (cs : List PoolCall) (h : s.Sound n) (hroom : s.entries.length ≤ s.poolMax) :
    (run step s cs).Sound (n+s.accepted cs) ∧
      (run step s cs).entries.length ≤ (run step s cs).poolMax := by
  induction cs generalizing s n with
  | nil => exact ⟨h,hroom⟩
  | cons c cs ih =>
    obtain ⟨hs,hroom⟩ := h.step hroom c
    rw [accepted,← Nat.add_assoc]
    exact ih hs hroom

/-- For calls made one at a time, by a clock that does not go back, the numbers of connections
handed out, dropped and idle add up to the number accepted, and a trim drops just those too old or
too many. -/
theorem pool_accounts_for_connections (cs : List PoolCall) (maxIdle idleSeconds : Nat) :
    let s := run step {} cs
    s.count = s.entries.length ∧ s.entries.length ≤ s.poolMax ∧
      s.hits+s.dropped+s.count = accepted {} cs ∧
      (s.configurePool maxIdle idleSeconds).entries = (s.entries.take maxIdle).filter
        (fun e => !tooLong {s with poolIdleSeconds := idleSeconds} e) := by
  intro s
  obtain ⟨hs,hroom⟩ : s.Sound (0+accepted {} cs) ∧ _ :=
    sound_run cs ⟨.nil,by simp,rfl,rfl⟩ (Nat.zero_le _)
  refine ⟨hs.counted,hroom,hs.settled.trans (Nat.zero_add _),?_⟩
  exact trimFrom_eq_filter (s := {s with poolMax := maxIdle,poolIdleSeconds := idleSeconds}) 0
    hs.ages

/-- In a run that finds nothing too old where it does not trim, no call leaves or hands out what
was idle for too long. -/
theorem pool_idle_run (s : ConnectionPool) (before after : List PoolCall) (c : PoolCall)
    (h : Meets step trimmed s (before ++ c :: after) = true) : (run step s before).Fresh c :=
  fresh_of_trimmed (Meets.at_event h)

def onePooled (waited : Nat) : List PoolCall :=
  [.configure 2 300,.close ⟨7,some ['a'],true,.idle,.idle,true⟩,.wait waited]

theorem pool_idle_run_taken :
    ((run step {} (onePooled 300)).call (.open ['a'] fun _ => true)).1 = some ⟨7,['a'],0⟩ ∧
      (run step {} (onePooled 300)).Fresh (.open ['a'] fun _ => true) :=
  ⟨by decide,pool_idle_run {} (onePooled 300) [] _ (by decide)⟩

/-- A second too late, the connection is handed out, and it stays in the pool when one for another
URI is opened. -/
theorem pool_idle_expired :
    let s := run step {} (onePooled 301)
    (s.call (.open ['a'] fun _ => true)).1 = some ⟨7,['a'],0⟩ ∧
      (s.step (.open ['b'] fun _ => true)).entries = [⟨7,['a'],0⟩] ∧
      s.tooLong ⟨7,['a'],0⟩ = true := by
  decide

end ConnectionPool

end Lorentz
