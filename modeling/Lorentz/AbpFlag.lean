import Lorentz.ListReplacement

/-!
`gravity_update_run` step by step, with lists being enabled and disabled in between, and how the
engine notices it: the updater writes a new time, the poller remembers it.
-/

set_option autoImplicit false

namespace Lorentz

/-- `updated` is the database's value and `lastUpdated` the one the poller remembers, `-1` at
first; `finish` is what an updater is about to write, `poll` what was read and not yet compared.
-/
structure Notice where
  updated : Int
  lastUpdated : Int
  finish : Option Int
  poll : Option Int
  polls : Nat
  reports : Nat
  deriving DecidableEq, Repr

inductive NoticeEvent where
  | readPrevious (now : Int)
  | writeUpdated (okay : Bool)
  | readUpdated
  | compare
  deriving DecidableEq, Repr

/-- The time `finish` wants to write: it has to move on, whatever the clock says. -/
def finishTime (now previous : Int) : Int := if previous ≥ now then previous+1 else now

namespace Notice

/-- The part of `gravity_updated` that holds `last_updated_lock`. -/
def compareWith (s : Notice) (updated : Int) : Notice :=
  if s.lastUpdated = -1 then { s with lastUpdated := updated }
  else if s.lastUpdated < updated then
    { s with lastUpdated := updated, reports := s.reports+1 }
  else s

def step (s : Notice) : NoticeEvent → Notice
  | .readPrevious now =>
    if s.finish.isSome then s else { s with finish := some (finishTime now s.lastUpdated) }
  | .writeUpdated okay =>
    match s.finish with
    | none => s
    | some v => { s with updated := if okay then v else s.updated, finish := none }
  | .readUpdated => if s.poll.isSome then s else { s with poll := some s.updated }
  | .compare =>
    match s.poll with
    | none => s
    | some u => { s.compareWith u with poll := none, polls := s.polls+1 }

def run (s : Notice) (es : List NoticeEvent) : Notice := es.foldl step s

/-- An updater reads the remembered time once there is one, and the poller remembers no new one
until it writes its own. -/
def undisturbed (s : Notice) : NoticeEvent → Bool
  | .readPrevious _ => s.lastUpdated ≠ -1
  | .writeUpdated okay => okay
  | .readUpdated => true
  | .compare => s.finish.isNone || s.poll.all (· ≤ s.lastUpdated)

def allUndisturbed : Notice → List NoticeEvent → Bool
  | _, [] => true
  | s, e :: es => s.undisturbed e && allUndisturbed (s.step e) es

theorem allUndisturbed_append (s : Notice) (es es' : List NoticeEvent) :
    allUndisturbed s (es ++ es') = (allUndisturbed s es && allUndisturbed (s.run es) es') := by
  induction es generalizing s with
  | nil => rfl
  | cons e es ih => simp [allUndisturbed,run,ih,Bool.and_assoc]

theorem lt_finishTime (now previous : Int) : previous < finishTime now previous := by
  unfold finishTime
  split <;> omega

def Ahead (s : Notice) : Prop :=
  ∀ v, s.finish = some v → s.lastUpdated ≠ -1 ∧ s.lastUpdated < v

/-- Since a run ended after `r` reports and `p` polls, a change was reported, or the next poll
that begins will do so: at most the poll under way has ended. -/
structure Due (r p : Nat) (s : Notice) : Prop where
  reports : r ≤ s.reports
  polls : s.polls ≤ p+1
  first : s.lastUpdated ≠ -1
  ahead : s.lastUpdated < s.updated
  fresh : s.polls = p+1 → ∀ u, s.poll = some u → s.lastUpdated < u

variable {s : Notice} {r p : Nat}

theorem Ahead.step (h : s.Ahead) (e : NoticeEvent) (hu : s.undisturbed e = true) :
    (s.step e).Ahead := by
  cases e with
  | readPrevious now =>
    simp only [Notice.step]
    split
    · exact h
    · rintro v ⟨⟩
      exact ⟨by simpa [undisturbed] using hu,lt_finishTime now s.lastUpdated⟩
  | writeUpdated okay =>
    simp only [Notice.step]
    split
    · exact h
    · simp [Ahead]
  | readUpdated =>
    simp only [Notice.step]
    split <;> exact h
  | compare =>
    simp only [Notice.step]
    split
    · exact h
    rename_i u hpoll
    intro v hv
    have hf : s.finish = some v := by
      simp only [compareWith] at hv
      split at hv
      · exact hv
      split at hv <;> exact hv
    obtain ⟨h₁,h₂⟩ := h v hf
    have hle : u ≤ s.lastUpdated := by simpa [undisturbed,hf,hpoll] using hu
    have hsame : s.compareWith u = s := by
      rw [compareWith,if_neg h₁,if_neg (by omega)]
    rw [hsame]
    exact ⟨h₁,h₂⟩

theorem Due.step (h : s.Due r p) (ha : s.Ahead) (e : NoticeEvent)
    (hu : s.undisturbed e = true) : r < (s.step e).reports ∨ (s.step e).Due r p := by
  obtain ⟨h₁,h₂,h₃,h₄,h₅⟩ := h
  cases e with
  | readPrevious now =>
    simp only [Notice.step]
    split <;> exact .inr ⟨h₁,h₂,h₃,h₄,h₅⟩
  | writeUpdated okay =>
    obtain rfl : okay = true := hu
    simp only [Notice.step]
    split
    · exact .inr ⟨h₁,h₂,h₃,h₄,h₅⟩
    · rename_i v hv
      exact .inr ⟨h₁,h₂,h₃,(ha v hv).2,h₅⟩
  | readUpdated =>
    simp only [Notice.step]
    split
    · exact .inr ⟨h₁,h₂,h₃,h₄,h₅⟩
    · refine .inr ⟨h₁,h₂,h₃,h₄,?_⟩
      rintro _ u ⟨⟩
      exact h₄
  | compare =>
    simp only [Notice.step]
    split
    · exact .inr ⟨h₁,h₂,h₃,h₄,h₅⟩
    rename_i u hpoll
    by_cases hlt : s.lastUpdated < u
    · left
      simp only [compareWith,if_neg h₃,if_pos hlt]
      omega
    -- only the poll that was under way when the run ended can have read too early
    have hp : s.polls ≠ p+1 := fun hp => hlt (h₅ hp u hpoll)
    right
    simp only [compareWith,if_neg h₃,if_neg hlt]
    exact ⟨h₁,by simp only; omega,h₃,h₄,by simp⟩

theorem reports_le_step (s : Notice) (e : NoticeEvent) : s.reports ≤ (s.step e).reports := by
  cases e with
  | readPrevious now | writeUpdated okay | readUpdated => simp only [Notice.step]; split <;> simp
  | compare =>
    simp only [Notice.step]
    split
    · simp
    simp only [compareWith]
    split
    · simp
    split <;> simp

theorem reports_le_run (s : Notice) (es : List NoticeEvent) : s.reports ≤ (s.run es).reports := by
  induction es generalizing s with
  | nil => exact Nat.le_refl _
  | cons e es ih => exact Nat.le_trans (reports_le_step s e) (ih (s.step e))

theorem Ahead.run (h : s.Ahead) (es : List NoticeEvent) (hu : allUndisturbed s es = true) :
    (s.run es).Ahead := by
  induction es generalizing s with
  | nil => exact h
  | cons e es ih =>
    simp only [allUndisturbed,Bool.and_eq_true] at hu
    exact ih (h.step e hu.1) hu.2

theorem Due.run (h : s.Due r p) (ha : s.Ahead) (es : List NoticeEvent)
    (hu : allUndisturbed s es = true) : r < (s.run es).reports ∨ (s.run es).Due r p := by
  induction es generalizing s with
  | nil => exact .inr h
  | cons e es ih =>
    simp only [allUndisturbed,Bool.and_eq_true] at hu
    rcases h.step ha e hu.1 with hr | hd
    · exact .inl (Nat.lt_of_lt_of_le hr (reports_le_run (s.step e) es))
    · exact ih hd (ha.step e hu.1) hu.2

/-- After an update a change is reported once two more polls have ended, the second of which has
begun after it. -/
theorem update_is_noticed (s : Notice) (es es' : List NoticeEvent) (h : s.finish = none)
    (hf : (s.run es).finish.isSome = true)
    (hu : allUndisturbed s (es ++ .writeUpdated true :: es') = true)
    (hp : ((s.run es).step (.writeUpdated true)).polls+2 ≤
      (((s.run es).step (.writeUpdated true)).run es').polls) :
    ((s.run es).step (.writeUpdated true)).reports <
      (((s.run es).step (.writeUpdated true)).run es').reports := by
  rw [allUndisturbed_append,allUndisturbed,Bool.and_eq_true,Bool.and_eq_true] at hu
  obtain ⟨hu₁,hu₂,hu₃⟩ := hu
  have ha : (s.run es).Ahead := Ahead.run (by simp [Ahead,h]) es hu₁
  obtain ⟨v,hv⟩ := Option.isSome_iff_exists.1 hf
  obtain ⟨hfirst,hlt⟩ := ha v hv
  have hdue : ((s.run es).step (.writeUpdated true)).Due
      ((s.run es).step (.writeUpdated true)).reports
      ((s.run es).step (.writeUpdated true)).polls := by
    simp only [Notice.step,hv,if_true]
    exact ⟨Nat.le_refl _,by simp,hfirst,hlt,by simp⟩
  rcases hdue.run (ha.step _ hu₂) es' hu₃ with hr | hd
  · exact hr
  · have := hd.polls
    omega

def sample : Notice := ⟨50,50,none,none,0,0⟩

theorem update_is_noticed_sample :
    sample.reports = 0 ∧ 0 < (sample.run [.readPrevious 100,.writeUpdated true,.readUpdated,.compare,
      .readUpdated,.compare]).reports :=
  ⟨rfl,update_is_noticed sample [.readPrevious 100] [.readUpdated,.compare,.readUpdated,.compare]
    rfl rfl rfl (by decide)⟩

theorem reports_run_polls (h₁ : s.lastUpdated ≠ -1) (h₂ : s.updated ≤ s.lastUpdated)
    (h₃ : ∀ u, s.poll = some u → u ≤ s.lastUpdated) (es : List NoticeEvent)
    (hes : ∀ e ∈ es, e = .readUpdated ∨ e = .compare) : (s.run es).reports = s.reports := by
  induction es generalizing s with
  | nil => rfl
  | cons e es ih =>
    have hes' : ∀ e ∈ es, e = .readUpdated ∨ e = .compare :=
      fun e he => hes e (List.mem_cons_of_mem _ he)
    rcases hes e List.mem_cons_self with rfl | rfl
    · cases hp : s.poll with
      | some u => simpa [run,Notice.step,hp] using ih h₁ h₂ h₃ hes'
      | none =>
        have hread : s.step .readUpdated = { s with poll := some s.updated } := by
          simp [Notice.step,hp]
        change ((s.step .readUpdated).run es).reports = s.reports
        rw [hread]
        exact ih h₁ h₂ (by rintro u ⟨⟩; exact h₂) hes'
    cases hp : s.poll with
    | none => simpa [run,Notice.step,hp] using ih h₁ h₂ h₃ hes'
    | some u =>
      have hcompare : s.step .compare = { s with poll := none, polls := s.polls+1 } := by
        have hle := h₃ u hp
        simp only [Notice.step,hp,compareWith]
        rw [if_neg h₁,if_neg (by omega)]
      change ((s.step .compare).run es).reports = s.reports
      rw [hcompare]
      exact ih h₁ h₂ (by simp) hes'

/-- Two updates in one second: the poller remembers the time of the first while the second, which
read the time before, writes the same again, and no poll reports a change. -/
theorem second_update_unnoticed :
    (sample.run [.readPrevious 100,.writeUpdated true,.readPrevious 100,.readUpdated,.compare,
      .writeUpdated true]).reports = 1 ∧
    ∀ es : List NoticeEvent, (∀ e ∈ es, e = .readUpdated ∨ e = .compare) →
      ((sample.run [.readPrevious 100,.writeUpdated true,.readPrevious 100,.readUpdated,.compare,
        .writeUpdated true]).run es).reports = 1 :=
  ⟨by decide,fun es hes => reports_run_polls (by decide) (by decide) (by decide) es hes⟩

end Notice

open Transaction ListsDb List

inductive Info where
  | gravityCount (n : Int)
  | antigravityCount (n : Int)
  | abpDomains (abp : Bool)
  | updated (time : Int)
  deriving DecidableEq, Repr

def ListsDb.setInfo (d : ListsDb) : Info → ListsDb
  | .gravityCount n => { d with gravityCount := n }
  | .antigravityCount n => { d with antigravityCount := n }
  | .abpDomains abp => { d with db := { d.db with abpDomains := abp } }
  | .updated time => { d with updated := time }

def ListsDb.isEnabled (d : ListsDb) (id : Int) : Bool :=
  d.db.adlist.any (fun a => a.id = id && a.enabled)

/-- `COUNT(DISTINCT g.domain)` over the rows of enabled lists. -/
def ListsDb.countDomains (d : ListsDb) (allow : Bool) : Int :=
  (((d.rows allow).filter (fun r => d.isEnabled r.2)).map Prod.fst).dedup.length

/-- `SELECT COUNT(*) FROM adlist WHERE enabled = 1 AND abp_entries > 0`. -/
def ListsDb.countAbpLists (d : ListsDb) : Int :=
  (d.db.adlist.countP (fun a => a.enabled && 0 < (d.numbers a.id).abpEntries) : Nat)

def Adlist.switch (id : Int) (enabled : Bool) (a : Adlist) : Adlist :=
  if a.id = id then { a with enabled := enabled } else a

/-- The update of the column `enabled` that a request to the API makes. -/
def ListsDb.setEnabled (d : ListsDb) (id : Int) (enabled : Bool) : ListsDb :=
  { d with db := { d.db with adlist := d.db.adlist.map (Adlist.switch id enabled) } }

/-- Where a run is. `stored` are the lists it has updated. -/
inductive RunPhase where
  | idle
  | updating (left : List (Int × Bool)) (lists : Nat) (stored : List Int)
  | finishing (writes : List Info) (stored : List Int)
  deriving DecidableEq, Repr

def RunPhase.stored : RunPhase → List Int
  | .idle => []
  | .updating _ _ stored => stored
  | .finishing _ stored => stored

structure UpdateRun where
  lists : ListsDb
  phase : RunPhase

/-- `begin` reads the enabled lists, as far as memory allows; `stop` is a shutdown; the answers of
`finish` are those of its three queries. -/
inductive RunEvent where
  | begin (readable : Int → Bool)
  | update (download : Download) (now : Int) (answers : Nat → Bool)
  | stop
  | finish (gravity antigravity abp : Bool) (now previous : Int)
  | setInfo (okay : Bool)
  | setEnabled (id : Int) (enabled : Bool)

namespace UpdateRun

variable (env : ListEnv)

def readLists (d : ListsDb) (readable : Int → Bool) : List (Int × Bool) :=
  ((d.db.adlist.filter (fun a => a.enabled && readable a.id)).map
    (fun a => (a.id,decide (a.type = 1)))).insertionSort (fun a b => a.1 ≤ b.1)

/-- The values `finish` is going to write; a query that fails counts as zero. -/
def finishInfo (d : ListsDb) (gravity antigravity abp : Bool) (now previous : Int) : List Info :=
  [.gravityCount (if gravity then d.countDomains false else 0),
    .antigravityCount (if antigravity then d.countDomains true else 0),
    .abpDomains (abp && 0 < d.countAbpLists),.updated (finishTime now previous)]

def step (s : UpdateRun) : RunEvent → UpdateRun
  | .begin readable =>
    match s.phase with
    | .idle =>
      let left := readLists s.lists readable
      { s with phase := .updating left left.length [] }
    | _ => s
  | .update download now answers =>
    match s.phase with
    | .updating ((id,allow) :: left) lists stored =>
      match updateList env allow id download now ⟨s.lists,none,answers,0⟩ with
      | (true,_,c) => ⟨c.committed,.updating left lists (id :: stored)⟩
      | (false,_,c) => ⟨c.committed,.updating left lists stored⟩
    | _ => s
  | .stop =>
    match s.phase with
    | .updating _ _ _ => { s with phase := .idle }
    | _ => s
  | .finish gravity antigravity abp now previous =>
    match s.phase with
    | .updating [] lists stored =>
      if 0 < stored.length ∨ lists = 0 then
        { s with phase :=
            .finishing (finishInfo s.lists gravity antigravity abp now previous) stored }
      else { s with phase := .idle }
    | _ => s
  | .setInfo okay =>
    match s.phase with
    | .finishing (w :: writes) stored =>
      ⟨if okay then s.lists.setInfo w else s.lists,
        if writes = [] then .idle else .finishing writes stored⟩
    | _ => s
  | .setEnabled id enabled => { s with lists := s.lists.setEnabled id enabled }

def run (s : UpdateRun) (es : List RunEvent) : UpdateRun := es.foldl (step env) s

end UpdateRun

def ListsDb.hasAbpRow (d : ListsDb) (id : Int) : Bool :=
  (d.domainsOf false id).any (isAbp false) || (d.domainsOf true id).any (isAbp true)

def RunPhase.abpPending : RunPhase → Bool
  | .finishing writes _ => writes.contains (.abpDomains true) || writes.contains (.abpDomains false)
  | _ => false

/-- A run is not stopped once it has updated a list, the patterns of a list fit an `int`,
`abp_domains` can be computed and written, and no list with patterns is enabled while it is unset
or about to be written. -/
def UpdateRun.safe (env : ListEnv) (s : UpdateRun) : RunEvent → Bool
  | .begin _ => true
  | .update download _ _ =>
    match download,s.phase with
    | .done stream,.updating ((_,allow) :: _) _ _ =>
      ((env.parser allow).handedOver stream).2.2.countP (isAbp allow) < 2^31
    | _,_ => true
  | .stop => s.phase.stored = [] || s.lists.db.abpDomains
  | .finish _ _ abp _ _ => abp
  | .setInfo okay =>
    match s.phase with
    | .finishing (.abpDomains _ :: _) _ => okay
    | _ => true
  | .setEnabled id enabled =>
    !enabled || s.lists.isEnabled id || !s.lists.hasAbpRow id ||
      (s.lists.db.abpDomains && !s.phase.abpPending)

def UpdateRun.allSafe (env : ListEnv) : UpdateRun → List RunEvent → Bool
  | _, [] => true
  | s, e :: es => s.safe env e && allSafe env (s.step env e) es

/-- What the numbers of a list say about its rows, which are in the table of its type. -/
structure ListsDb.Counted (d : ListsDb) : Prop where
  ids : (d.db.adlist.map Adlist.id).Nodup
  placed : ∀ a ∈ d.db.adlist, ∀ other, other ≠ decide (a.type = 1) → d.domainsOf other a.id = []
  counted : ∀ a ∈ d.db.adlist, d.hasAbpRow a.id = true → 0 < (d.numbers a.id).abpEntries

/-- Every enabled list with patterns is consulted, or one of `stored`. -/
def ListsDb.Consulted (d : ListsDb) (abp : Bool) (stored : List Int) : Prop :=
  ∀ a ∈ d.db.adlist, a.enabled = true → d.hasAbpRow a.id = true → abp = true ∨ a.id ∈ stored

namespace ListsDb

variable {d : ListsDb} {id : Int}

theorem eq_of_id (h : (d.db.adlist.map Adlist.id).Nodup) {a b : Adlist} (ha : a ∈ d.db.adlist)
    (hb : b ∈ d.db.adlist) (he : a.id = b.id) : a = b :=
  inj_on_of_nodup_map h ha hb he

theorem mem_setEnabled {enabled : Bool} {a' : Adlist}
    (h : a' ∈ (d.setEnabled id enabled).db.adlist) :
    ∃ a ∈ d.db.adlist, a.id = a'.id ∧ a.type = a'.type ∧
      (a'.enabled = true → a.enabled = true ∨ (enabled = true ∧ a.id = id)) := by
  obtain ⟨a,ha,rfl⟩ := mem_map.1 h
  refine ⟨a,ha,?_⟩
  unfold Adlist.switch
  split
  · rename_i hid
    exact ⟨rfl,rfl,fun he => .inr ⟨he,hid⟩⟩
  · exact ⟨rfl,rfl,.inl⟩

theorem ids_setEnabled (enabled : Bool) :
    (d.setEnabled id enabled).db.adlist.map Adlist.id = d.db.adlist.map Adlist.id := by
  simp only [setEnabled,map_map]
  refine map_congr_left fun a _ => ?_
  simp only [Function.comp,Adlist.switch]
  split <;> rfl

theorem Counted.setEnabled (h : d.Counted) (enabled : Bool) :
    (d.setEnabled id enabled).Counted where
  ids := by
    rw [ids_setEnabled]
    exact h.ids
  placed a' ha' other ho := by
    obtain ⟨a,ha,hid,htype,-⟩ := mem_setEnabled ha'
    rw [← hid]
    exact h.placed a ha other (htype ▸ ho)
  counted a' ha' hrow := by
    obtain ⟨a,ha,hid,-⟩ := mem_setEnabled ha'
    rw [← hid] at hrow ⊢
    exact h.counted a ha hrow

theorem Counted.countAbpLists_pos (h : d.Counted) {a : Adlist} (ha : a ∈ d.db.adlist)
    (he : a.enabled = true) (hrow : d.hasAbpRow a.id = true) : 0 < d.countAbpLists := by
  have hpos : 0 < d.db.adlist.countP (fun a => a.enabled && 0 < (d.numbers a.id).abpEntries) := by
    refine countP_pos_iff.2 ⟨a,ha,?_⟩
    simpa [he] using h.counted a ha hrow
  exact Int.natCast_pos.2 hpos

theorem Counted.setStatus (h : d.Counted) (status : Int) :
    (d.setNumbers id (fun n => { n with status := status })).Counted where
  ids := h.ids
  placed := h.placed
  counted a ha hrow := by
    have habp : ((d.setNumbers id (fun n => { n with status := status })).numbers a.id).abpEntries =
        (d.numbers a.id).abpEntries := by
      by_cases hid : a.id = id <;> simp [setNumbers,hid]
    rw [habp]
    exact h.counted a ha hrow

/-- What a successful `update_list` makes of the database. -/
def replaced (d : ListsDb) (allow : Bool) (id : Int) (xs : List (List Char)) (n : ListNumbers) :
    ListsDb :=
  ((d.clearList allow id).insertRows allow id xs).setNumbers id (fun _ => n)

section

variable {allow : Bool} {xs : List (List Char)} {n : ListNumbers}

@[simp]
theorem adlist_replaced : (d.replaced allow id xs n).db.adlist = d.db.adlist := by
  simp [replaced,setNumbers,insertRows,clearList]

@[simp]
theorem abpDomains_replaced : (d.replaced allow id xs n).db.abpDomains = d.db.abpDomains := by
  simp [replaced,setNumbers,insertRows,clearList]

theorem domainsOf_replaced_other {other : Bool} {id' : Int} (h : other ≠ allow ∨ id' ≠ id) :
    (d.replaced allow id xs n).domainsOf other id' = d.domainsOf other id' :=
  d.domainsOf_other allow id h xs

theorem hasAbpRow_replaced_ne {id' : Int} (h : id' ≠ id) :
    (d.replaced allow id xs n).hasAbpRow id' = d.hasAbpRow id' := by
  simp only [hasAbpRow,domainsOf_replaced_other (.inr h)]

theorem hasAbpRow_replaced (h : d.domainsOf (!allow) id = []) :
    (d.replaced allow id xs n).hasAbpRow id = xs.any (isAbp allow) := by
  have hnew : (d.replaced allow id xs n).domainsOf allow id = xs := d.domainsOf_replaced allow id xs
  have hother : (d.replaced allow id xs n).domainsOf (!allow) id = [] := by
    rw [domainsOf_replaced_other (.inl (by cases allow <;> decide)),h]
  cases allow with
  | false =>
    rw [hasAbpRow,hnew,show (d.replaced false id xs n).domainsOf true id = [] from hother]
    simp
  | true =>
    rw [hasAbpRow,hnew,show (d.replaced true id xs n).domainsOf false id = [] from hother]
    simp

theorem Counted.replaced (h : d.Counted) {a : Adlist} (ha : a ∈ d.db.adlist)
    (hn : xs.any (isAbp (decide (a.type = 1))) = true → 0 < n.abpEntries) :
    (d.replaced (decide (a.type = 1)) a.id xs n).Counted where
  ids := by
    rw [adlist_replaced]
    exact h.ids
  placed b hb other ho := by
    rw [adlist_replaced] at hb
    rw [domainsOf_replaced_other,h.placed b hb other ho]
    by_cases hid : b.id = a.id
    · exact .inl (eq_of_id h.ids hb ha hid ▸ ho)
    · exact .inr hid
  counted b hb hrow := by
    rw [adlist_replaced] at hb
    by_cases hid : b.id = a.id
    · have hempty : d.domainsOf (!decide (a.type = 1)) a.id = [] :=
        h.placed a ha _ (by cases decide (a.type = 1) <;> decide)
      rw [hid,hasAbpRow_replaced hempty] at hrow
      simpa [ListsDb.replaced,setNumbers,hid] using hn hrow
    · rw [hasAbpRow_replaced_ne hid] at hrow
      simpa [ListsDb.replaced,setNumbers,insertRows,clearList,hid] using h.counted b hb hrow

end

end ListsDb

theorem ListParser.abpEntries_pos {p : ListParser} {stream : List Char} {st : ParseStats}
    {xs : List (List Char)} {now : Int} (h : p.handedOver stream = (true,st,xs))
    (hlt : xs.countP (isAbp p.antigravity) < 2^31) (hx : xs.any (isAbp p.antigravity) = true) :
    0 < (st.numbers now).abpEntries := by
  have hpos : 0 < xs.countP (isAbp p.antigravity) := countP_pos_iff.2 (any_eq_true.1 hx)
  change 0 < cInt st.abp
  rw [p.handedOver_abp h,cInt_ofNat hlt]
  exact Int.natCast_pos.2 hpos

theorem updateList_cases {env : ListEnv} {allow : Bool} {id : Int} {download : Download}
    {now : Int} {d : ListsDb} {answers : Nat → Bool} {ok : Bool} {st : ParseStats}
    {c : Conn ListsDb} (h : updateList env allow id download now ⟨d,none,answers,0⟩ = (ok,st,c)) :
    (ok = true ∧ ∃ stream xs, download = .done stream ∧
      (env.parser allow).handedOver stream = (true,st,xs) ∧
      c.committed = d.replaced allow id xs (st.numbers now)) ∨
    (ok = false ∧ ∃ status, c.committed =
      d.setNumbers id (fun n => { n with status := status })) := by
  cases ok with
  | false => exact .inr ⟨rfl,(updateList_false rfl h).2⟩
  | true =>
    cases download with
    | noTempFile | failed => cases h
    | done stream =>
      simp only [updateList] at h
      split at h
      · rename_i hstore
        cases h
        obtain ⟨-,xs,hparsed,hnew⟩ := storeList_true hstore
        exact .inl ⟨rfl,stream,xs,rfl,hparsed,hnew⟩
      · cases h

namespace UpdateRun

variable {env : ListEnv} {s : UpdateRun}

/-- While values wait to be written, that of `abp_domains` is right: the waiting one, or else the
one in the table. -/
structure Inv (s : UpdateRun) : Prop where
  tables : s.lists.Counted
  left : ∀ left n stored, s.phase = .updating left n stored → ∀ x ∈ left,
    ∃ a ∈ s.lists.db.adlist, a.id = x.1 ∧ decide (a.type = 1) = x.2
  consulted : s.lists.Consulted s.lists.db.abpDomains s.phase.stored
  waiting : ∀ writes stored, s.phase = .finishing writes stored →
    ∀ b, .abpDomains b ∈ writes → s.lists.Consulted b []
  written : ∀ writes stored, s.phase = .finishing writes stored →
    (∀ b, .abpDomains b ∉ writes) → s.lists.Consulted s.lists.db.abpDomains []

theorem not_mem_of_abpPending {writes : List Info} {stored : List Int}
    (h : (RunPhase.finishing writes stored).abpPending = false) (b : Bool) :
    .abpDomains b ∉ writes := by
  simp only [RunPhase.abpPending,Bool.or_eq_false_iff,contains_eq_mem,
    decide_eq_false_iff_not] at h
  cases b with
  | false => exact h.2
  | true => exact h.1

section

variable (h : s.Inv)
include h

theorem Inv.begin (readable : Int → Bool) : (s.step env (.begin readable)).Inv := by
  simp only [step]
  split
  · rename_i hphase
    refine ⟨h.tables,?_,?_,nofun,nofun⟩
    · rintro left n stored ⟨⟩ x hx
      rw [readLists,mem_insertionSort,mem_map] at hx
      obtain ⟨a,ha,rfl⟩ := hx
      exact ⟨a,mem_of_mem_filter ha,rfl,rfl⟩
    · have := h.consulted
      rwa [hphase] at this
  · exact h

theorem Inv.update {download : Download} {now : Int} {answers : Nat → Bool}
    (hs : s.safe env (.update download now answers) = true) :
    (s.step env (.update download now answers)).Inv := by
  obtain ⟨d,phase⟩ := s
  cases phase with
  | idle | finishing writes stored => exact h
  | updating left n stored =>
    cases left with
    | nil => exact h
    | cons x left =>
      obtain ⟨id,allow⟩ := x
      obtain ⟨a,ha,rfl,rfl⟩ := h.left _ _ _ rfl (id,allow) mem_cons_self
      have hleft : ∀ x ∈ left, ∃ a ∈ d.db.adlist, a.id = x.1 ∧ decide (a.type = 1) = x.2 :=
        fun x hx => h.left _ _ _ rfl x (mem_cons_of_mem _ hx)
      obtain ⟨ok,st,c,hu⟩ : ∃ ok st c, updateList env (decide (a.type = 1)) a.id download now
          ⟨d,none,answers,0⟩ = (ok,st,c) := ⟨_,_,_,rfl⟩
      simp only [step,hu]
      rcases updateList_cases hu with ⟨rfl,stream,xs,rfl,hparsed,hc⟩ | ⟨rfl,status,hc⟩
      · have hlt : xs.countP (isAbp (decide (a.type = 1))) < 2^31 := by
          simpa [safe,hparsed] using hs
        dsimp only
        rw [hc]
        refine ⟨h.tables.replaced ha fun hx => ListParser.abpEntries_pos hparsed hlt hx,?_,?_,
          nofun,nofun⟩
        · rintro _ _ _ ⟨⟩
          simpa using hleft
        intro b hb he hrow
        rw [adlist_replaced] at hb
        rw [abpDomains_replaced]
        by_cases hid : b.id = a.id
        · exact .inr (hid ▸ mem_cons_self)
        · rw [hasAbpRow_replaced_ne hid] at hrow
          exact (h.consulted b hb he hrow).imp_right (mem_cons_of_mem _)
      · dsimp only
        rw [hc]
        refine ⟨h.tables.setStatus status,?_,h.consulted,nofun,nofun⟩
        rintro _ _ _ ⟨⟩
        exact hleft

theorem Inv.stop (hs : s.safe env .stop = true) : (s.step env .stop).Inv := by
  simp only [step]
  split
  · refine ⟨h.tables,nofun,fun a ha he hrow => ?_,nofun,nofun⟩
    rcases h.consulted a ha he hrow with habp | hstored
    · exact .inl habp
    simp only [safe,Bool.or_eq_true,decide_eq_true_eq] at hs
    rcases hs with hnil | habp
    · rw [hnil] at hstored
      cases hstored
    · exact .inl habp
  · exact h

theorem Inv.finish {gravity antigravity abp : Bool} {now previous : Int}
    (hs : s.safe env (.finish gravity antigravity abp now previous) = true) :
    (s.step env (.finish gravity antigravity abp now previous)).Inv := by
  obtain ⟨d,phase⟩ := s
  have habp : abp = true := hs
  cases phase with
  | idle | finishing writes stored => exact h
  | updating left n stored =>
    cases left with
    | cons x left => exact h
    | nil =>
      simp only [step]
      split
      · refine ⟨h.tables,nofun,h.consulted,?_,?_⟩
        · rintro _ _ ⟨⟩ b hb a ha he hrow
          have hpos := h.tables.countAbpLists_pos ha he hrow
          simp only [finishInfo,habp,hpos,decide_true,Bool.and_true,mem_cons,
            Info.abpDomains.injEq,reduceCtorEq,not_mem_nil,or_false,false_or] at hb
          exact .inl hb
        · rintro _ _ ⟨⟩ hnone
          exact absurd (by simp [finishInfo]) (hnone (abp && 0 < d.countAbpLists))
      rename_i hnone
      have hnil : stored = [] := by
        rw [not_or,Nat.not_lt,Nat.le_zero,length_eq_zero_iff] at hnone
        exact hnone.1
      refine ⟨h.tables,nofun,?_,nofun,nofun⟩
      have := h.consulted
      simp only [RunPhase.stored,hnil] at this
      exact this

theorem Inv.setInfo {okay : Bool} (hs : s.safe env (.setInfo okay) = true) :
    (s.step env (.setInfo okay)).Inv := by
  obtain ⟨d,phase⟩ := s
  rcases phase with _ | ⟨left,n,stored⟩ | ⟨_ | ⟨w,writes⟩,stored⟩
  · exact h
  · exact h
  · exact h
  simp only [step]
  have htail : ∀ b, Info.abpDomains b ∈ writes → d.Consulted b [] :=
    fun b hb => h.waiting _ _ rfl b (mem_cons_of_mem _ hb)
  -- what is left to show: the new value covers what no waiting one does
  have hnext : ∀ d' : ListsDb, d'.Counted → d'.Consulted d'.db.abpDomains stored →
      (∀ b, Info.abpDomains b ∈ writes → d'.Consulted b []) →
      ((∀ b, Info.abpDomains b ∉ writes) → d'.Consulted d'.db.abpDomains []) →
      (UpdateRun.mk d' (if writes = [] then .idle else .finishing writes stored)).Inv := by
    intro d' ht hc hw hn
    split
    · rename_i hnil
      exact ⟨ht,nofun,hn (by simp [hnil]),nofun,nofun⟩
    refine ⟨ht,nofun,hc,?_,?_⟩
    · rintro _ _ ⟨⟩
      exact hw
    · rintro _ _ ⟨⟩
      exact hn
  have hother : (∀ b, w ≠ .abpDomains b) → (∀ b, Info.abpDomains b ∉ writes) →
      d.Consulted d.db.abpDomains [] := by
    intro hw hn
    refine h.written _ _ rfl fun b hb => ?_
    rcases mem_cons.1 hb with heq | hmem
    · exact hw b heq.symm
    · exact hn b hmem
  cases w with
  | abpDomains b =>
    have hokay : okay = true := hs
    have hb : d.Consulted b [] := h.waiting _ _ rfl b mem_cons_self
    rw [if_pos hokay]
    exact hnext _ ⟨h.tables.ids,h.tables.placed,h.tables.counted⟩
      (fun a ha he hrow => (hb a ha he hrow).imp_right nofun) htail fun _ => hb
  | gravityCount n | antigravityCount n | updated time =>
    cases okay <;> exact hnext _ ⟨h.tables.ids,h.tables.placed,h.tables.counted⟩ h.consulted htail
      (hother nofun)

end

theorem consulted_setEnabled {d : ListsDb} {id : Int} {enabled abp : Bool} {stored : List Int}
    (hd : d.Counted) (h : d.Consulted abp stored)
    (hs : enabled = true → d.isEnabled id = false → d.hasAbpRow id = true → abp = true) :
    (d.setEnabled id enabled).Consulted abp stored := by
  intro a' ha' he hrow
  obtain ⟨a,ha,hid,-,hen⟩ := mem_setEnabled ha'
  rw [← hid] at hrow ⊢
  by_cases hea : a.enabled = true
  · exact h a ha hea hrow
  obtain ⟨rfl,rfl⟩ := (hen he).resolve_left hea
  refine .inl (hs rfl ?_ hrow)
  rw [isEnabled,any_eq_false]
  intro b hb hbe
  simp only [Bool.and_eq_true,decide_eq_true_eq] at hbe
  exact hea (eq_of_id hd.ids hb ha hbe.1 ▸ hbe.2)

theorem Inv.setEnabled (h : s.Inv) {id : Int} {enabled : Bool}
    (hs : s.safe env (.setEnabled id enabled) = true) :
    (s.step env (.setEnabled id enabled)).Inv := by
  have hnew : enabled = true → s.lists.isEnabled id = false → s.lists.hasAbpRow id = true →
      s.lists.db.abpDomains = true ∧ s.phase.abpPending = false := by
    rintro rfl hne hrow
    simpa [safe,hne,hrow] using hs
  refine ⟨h.tables.setEnabled enabled,?_,?_,?_,?_⟩
  · intro left n stored hphase x hx
    obtain ⟨a,ha,hid,htype⟩ := h.left left n stored hphase x hx
    refine ⟨a.switch id enabled,mem_map.2 ⟨a,ha,rfl⟩,?_⟩
    unfold Adlist.switch
    split <;> exact ⟨hid,htype⟩
  · exact consulted_setEnabled h.tables h.consulted fun he hne hrow => (hnew he hne hrow).1
  · intro writes stored hphase b hb
    refine consulted_setEnabled h.tables (h.waiting writes stored hphase b hb) fun he hne hrow => ?_
    have hnot := (hnew he hne hrow).2
    rw [show s.phase = _ from hphase] at hnot
    exact absurd hb (not_mem_of_abpPending hnot b)
  · intro writes stored hphase hnone
    exact consulted_setEnabled h.tables (h.written writes stored hphase hnone)
      fun he hne hrow => (hnew he hne hrow).1

theorem Inv.step (h : s.Inv) (e : RunEvent) (hs : s.safe env e = true) : (s.step env e).Inv := by
  cases e with
  | begin readable => exact h.begin readable
  | update download now answers => exact h.update hs
  | stop => exact h.stop hs
  | finish gravity antigravity abp now previous => exact h.finish hs
  | setInfo okay => exact h.setInfo hs
  | setEnabled id enabled => exact h.setEnabled hs

theorem Inv.run (h : s.Inv) (es : List RunEvent) (hs : s.allSafe env es = true) :
    (s.run env es).Inv := by
  induction es generalizing s with
  | nil => exact h
  | cons e es ih =>
    rw [allSafe,Bool.and_eq_true] at hs
    exact ih (h.step e hs.1) hs.2

def newList : ListsDb :=
  ⟨⟨[],[],[⟨1,true,0⟩],[],[],[],[],[],[],false⟩,fun _ => ⟨0,0,0,0,0⟩,0,0,0⟩

def noAddress : ListEnv := ⟨fun _ => false,fun _ => false,fun _ => true⟩

def download : List RunEvent :=
  [.begin (fun _ => true),.update (.done "||c.de^\n".toList) 9 (fun _ => true)]

end UpdateRun

end Lorentz
