import Lorentz.AbpPatterns
import Lorentz.System

/-!
The order of the blocking rules, while the lists can be read.
-/

set_option autoImplicit false

namespace Lorentz
open Function CheckState Suffix

structure ListAnswers where
  denied : Bool
  antigravity : Bool
  gravity : Bool
  regex : Bool
  deriving DecidableEq, Repr

def ListAnswers.status (a : ListAnswers) : Option QueryStatus :=
  if a.denied then some .denylist
  else if a.antigravity then none
  else if a.gravity then some .gravity
  else if a.regex then some .regex
  else none

/-- The list has the name for one of the groups, or the pattern of one of its suffixes. -/
def OnList (antigravity : Bool) (view : List ViewRow) (groups : List Int) (domain : List Char) :
    Prop :=
  onList view domain groups = true ∨
    ∃ s ∈ suffixes '.' domain, onList view (abpPattern antigravity s) groups = true

instance (antigravity : Bool) (view : List ViewRow) (groups : List Int) (domain : List Char) :
    Decidable (OnList antigravity view groups domain) :=
  inferInstanceAs (Decidable (_ ∨ _))

/-- An entry that one of the groups has is a filter that matches the name. -/
def RegexListed (e : Engine) (view : List ViewRow) (groups : List Int) (type : QueryType)
    (domain : List Char) : Prop :=
  ∃ v ∈ view, v.domain ≠ [] ∧ (∃ u ∈ view, u.id = v.id ∧ u.inGroups groups = true) ∧
    (e.compileRegex v.domain).available = true ∧
    ((e.compileRegex v.domain).queryType = 0 ∨
      (e.compileRegex v.domain).queryType.testBit type.index = true) ∧
    e.regexec (e.compileRegex v.domain).string domain ≠ (e.compileRegex v.domain).inverted

instance (e : Engine) (view : List ViewRow) (groups : List Int) (type : QueryType)
    (domain : List Char) : Decidable (RegexListed e view groups type domain) :=
  inferInstanceAs (Decidable (∃ v ∈ view, _))

def SpecialName (cfg : Config) (type : QueryType) (domain : List Char) : Prop :=
  cfg.mozillaCanary = true ∧ domain = "use-application-dns.net".toList ∧ (type = .a ∨ type = .aaaa) ∨
  cfg.iCloudPrivateRelay = true ∧
    (domain = "mask.icloud.com".toList ∨ domain = "mask-h2.icloud.com".toList) ∨
  cfg.designatedResolver = true ∧
    (domain = "resolver.arpa".toList ∨ ".resolver.arpa".toList <:+ domain)

instance (cfg : Config) (type : QueryType) (domain : List Char) :
    Decidable (SpecialName cfg type domain) :=
  inferInstanceAs (Decidable (_ ∨ _))

def GravityDb.listAnswers (e : Engine) (db : GravityDb) (groups : List Int) (type : QueryType)
    (domain : List Char) : ListAnswers where
  denied := onList db.vwDenylist domain groups
  antigravity := OnList true db.vwAntigravity groups domain
  gravity := OnList false db.vwGravity groups domain
  regex := RegexListed e db.vwRegexDenylist groups type domain

/-- What the flags of the last opening leave out is empty, and the compiled filters are those of
the lists. -/
structure Gravity.Current (e : Engine) (g : Gravity) : Prop where
  allowlist : g.hasExactAllowlist = false → g.db.vwAllowlist = []
  denylist : g.hasExactDenylist = false → g.db.vwDenylist = []
  antigravity : g.hasAntigravity = false → g.db.vwAntigravity = []
  abp : g.abpFormat = false → ∀ antigravity, ∀ r ∈ g.gravityView antigravity, ∀ s,
    r.domain ≠ abpPattern antigravity s
  denyRegex : g.denyRegex = readRegexTable e g.db.vwRegexDenylist
  allowRegex : g.allowRegex = readRegexTable e g.db.vwRegexAllowlist

/-- The answers the lookups give for the groups and the regex row in `c`. -/
def Gravity.listAnswers (w : World) (g : Gravity) (c : CheckState) (domain : List Char) :
    ListAnswers where
  denied := onList g.db.vwDenylist domain c.client.groups
  antigravity := listMatches g.abpFormat true g.db.vwAntigravity c.client.groups domain
  gravity := listMatches g.abpFormat false g.db.vwGravity c.client.groups domain
  regex := (matchRegex w.engine g .deny c.row c.cache.queryType domain).isSome

section

variable {w : World} {g : Gravity}

variable (c : CheckState)

theorem CheckState.resolve_foundGroup : (c.resolve w g).client.flags.foundGroup = true := by
  unfold resolve
  split
  · assumption
  · rfl

theorem CheckState.resolve_of_found {c : CheckState} (h : c.client.flags.foundGroup = true) :
    c.resolve w g = c := by
  simp [resolve,h]

theorem CheckState.resolve_cache : (c.resolve w g).cache = c.cache := by
  unfold resolve
  split <;> rfl

theorem CheckState.resolve_allowed : (c.resolve w g).allowed = c.allowed := by
  unfold resolve
  split <;> rfl

/-- Lookups went on from `c` to `c'`: groups and row of the client are those `c` has or would be
resolved to. -/
structure CheckState.Looked (w : World) (g : Gravity) (c c' : CheckState) : Prop where
  client : (c'.resolve w g).client = (c.resolve w g).client
  row : (c'.resolve w g).row = (c.resolve w g).row
  type : c'.cache.queryType = c.cache.queryType
  allowed : c'.allowed = c.allowed

theorem CheckState.Looked.refl : c.Looked w g c := ⟨rfl,rfl,rfl,rfl⟩

theorem CheckState.Looked.trans {c c' c'' : CheckState} (h : c.Looked w g c')
    (k : c'.Looked w g c'') : c.Looked w g c'' :=
  ⟨k.client.trans h.client,k.row.trans h.row,k.type.trans h.type,k.allowed.trans h.allowed⟩

theorem CheckState.Looked.of_resolved {c c' : CheckState}
    (hclient : c'.client = (c.resolve w g).client) (hrow : c'.row = (c.resolve w g).row)
    (htype : c'.cache.queryType = c.cache.queryType) (hallowed : c'.allowed = c.allowed) :
    c.Looked w g c' := by
  have hf : c'.client.flags.foundGroup = true := by
    rw [hclient]
    exact c.resolve_foundGroup
  refine ⟨?_,?_,htype,hallowed⟩ <;> rw [resolve_of_found hf] <;> assumption

theorem CheckState.Looked.congr {c c' c'' : CheckState} (h : c.Looked w g c')
    (hclient : c''.client = c'.client) (hrow : c''.row = c'.row)
    (htype : c''.cache.queryType = c'.cache.queryType) (hallowed : c''.allowed = c'.allowed) :
    c.Looked w g c'' := by
  refine ⟨?_,?_,htype.trans h.type,hallowed.trans h.allowed⟩
  · rw [← h.client]
    unfold resolve
    rw [hclient]
    split
    · exact hclient
    · rfl
  · rw [← h.row]
    unfold resolve
    rw [hclient]
    split
    · exact hrow
    · rfl

theorem CheckState.looked_resolve (listID : Int) (tick : Nat) : c.Looked w g { c.resolve w g with
      cache := { (c.resolve w g).cache with listID := listID }, tick := tick } := by
  have htype : (c.resolve w g).cache.queryType = c.cache.queryType := by rw [c.resolve_cache]
  exact .of_resolved rfl rfl htype c.resolve_allowed

theorem Gravity.listAnswers_looked {c c' : CheckState} (h : c.Looked w g c') (domain : List Char) :
    g.listAnswers w (c'.resolve w g) domain = g.listAnswers w (c.resolve w g) domain := by
  unfold Gravity.listAnswers
  rw [h.client,h.row,resolve_cache,resolve_cache,h.type]

theorem inExactList_looked (h : Available w g) (present : Bool) (view : List ViewRow)
    (domain : List Char) (c : CheckState) :
    c.Looked w g (inExactList w g present view domain c).2 := by
  cases present with
  | false =>
    exact .refl c
  | true =>
    simp only [inExactList,h.opened,prepare_of_available h,Bool.not_true,Bool.false_eq_true,if_false]
    split
    · exact c.looked_resolve (c.resolve w g).cache.listID (c.resolve w g).tick
    · exact c.looked_resolve _ _

theorem inGravity_looked (h : Available w g) (antigravity : Bool) (domain : List Char)
    (listID : Int) (c : CheckState) :
    c.Looked w g (inGravity w g antigravity domain listID c).2.2 ∧
      (antigravity = false →
        (inGravity w g antigravity domain listID c).2.2.client.flags.foundGroup = true) := by
  unfold inGravity
  split
  · rename_i hskip
    exact ⟨.refl c,fun ha => by simp [ha] at hskip⟩
  simp only [h.opened,prepare_of_available h,Bool.not_true,Bool.false_eq_true,if_false]
  have hlook := fun tick => c.looked_resolve (w := w) (g := g) (c.resolve w g).cache.listID tick
  have hf := c.resolve_foundGroup (w := w) (g := g)
  repeat' split
  all_goals exact ⟨hlook _,fun _ => hf⟩

theorem checkRegex_eq (domain : List Char) (v : Verdict) (c : CheckState) :
    (checkRegex w g domain v c).1 =
      ⟨(matchRegex w.engine g .deny c.row c.cache.queryType domain).isSome,
        if (matchRegex w.engine g .deny c.row c.cache.queryType domain).isSome then .regex
        else v.status,v.dbOkay⟩ ∧
    c.Looked w g (checkRegex w g domain v c).2 := by
  unfold checkRegex inRegex
  cases matchRegex w.engine g .deny c.row c.cache.queryType domain with
  | none => exact ⟨rfl,.refl c⟩
  | some r => exact ⟨rfl,(Looked.refl c).congr rfl rfl rfl rfl⟩

theorem checkDomainBlocked_eq (h : Available w g) (hl : g.Current w.engine) (cfg : Config)
    (domain : List Char) (v : Verdict) (c : CheckState) (hc : c.allowed = false)
    {a : ListAnswers} (ha : g.listAnswers w (c.resolve w g) domain = a) :
    (checkDomainBlocked w g cfg domain v c).1 =
      ⟨a.status.isSome,a.status.getD v.status,v.dbOkay⟩ ∧
    (checkDomainBlocked w g cfg domain v c).2.allowed = (!a.denied && a.antigravity) ∧
    ((checkDomainBlocked w g cfg domain v c).2.allowed = false →
      c.Looked w g (checkDomainBlocked w g cfg domain v c).2) := by
  have hdeny : (inDenylist w g domain c).1 = if a.denied then .found else .notFound := by
    rw [← ha]
    exact inExactList_of_available h _ _ hl.denylist domain c
  have hlook₁ : c.Looked w g (inDenylist w g domain c).2 := inExactList_looked h _ _ domain c
  have hanti := inGravity_of_available h true domain (-1) (inDenylist w g domain c).2
  obtain ⟨hlook₂,_⟩ := inGravity_looked h true domain (-1) (inDenylist w g domain c).2
  unfold checkDomainBlocked
  simp only [hc,Bool.false_eq_true,if_false]
  generalize inDenylist w g domain c = deny at *
  generalize inGravity w g true domain (-1) deny.2 = anti at *
  have hgrav := inGravity_of_available h false domain anti.2.1 anti.2.2
  obtain ⟨hlook₃,hfound⟩ := inGravity_looked h false domain anti.2.1 anti.2.2
  generalize inGravity w g false domain anti.2.1 anti.2.2 = grav at *
  have hall := (hlook₁.trans hlook₂).trans hlook₃
  have hanti' : anti.1 = if a.antigravity then .found else .notFound := by
    rw [hanti,hlook₁.client,← ha]
    cases hn : g.hasAntigravity with
    | false => simp [Gravity.listAnswers,listMatches,onList,hl.antigravity hn]
    | true => rfl
  have hgrav' : grav.1 = if a.gravity then .found else .notFound := by
    rw [hgrav,(hlook₁.trans hlook₂).client,← ha]
    rfl
  obtain ⟨hregex,hlook₄⟩ := checkRegex_eq (w := w) (g := g) domain v grav.2.2
  -- the regex row was rebuilt by the lookup in gravity at the latest
  have hmatch : (matchRegex w.engine g .deny grav.2.2.row grav.2.2.cache.queryType domain).isSome =
      a.regex := by
    have hres := resolve_of_found (w := w) (g := g) (hfound rfl)
    rw [← ha,← Gravity.listAnswers_looked hall,hres]
    rfl
  rw [hmatch] at hregex
  obtain ⟨denied,antigravity,gravity,regex⟩ := a
  cases denied with
  | true =>
    rw [if_pos (by simpa using hdeny)]
    exact ⟨rfl,hlook₁.allowed.trans hc,fun _ => hlook₁.congr rfl rfl rfl rfl⟩
  | false =>
    rw [if_neg (by simp [hdeny])]
    cases antigravity with
    | true =>
      rw [if_pos (by simpa using hanti')]
      exact ⟨rfl,rfl,by simp⟩
    | false =>
      rw [if_neg (by simp [hanti'])]
      cases gravity with
      | true =>
        rw [if_pos (by simpa using hgrav')]
        exact ⟨rfl,hall.allowed.trans hc,fun _ => hall.congr rfl rfl rfl rfl⟩
      | false =>
        rw [if_neg (by simp [hgrav']),if_neg (by simp [hdeny,hanti',hgrav'])]
        have hlook := hall.trans hlook₄
        refine ⟨?_,hlook.allowed.trans hc,fun _ => hlook⟩
        rw [hregex]
        cases regex <;> rfl

theorem specialDomain_isSome (cfg : Config) (type : QueryType) (domain : List Char)
    (st st' : Statics) :
    (specialDomain cfg type domain st).isSome = (specialDomain cfg type domain st').isSome := by
  unfold specialDomain
  repeat' split
  all_goals rfl

end

structure Rules where
  allowlist : Bool
  allowRegex : Bool
  special : Bool
  whole : ListAnswers
  esni : Option ListAnswers
  deriving DecidableEq, Repr

def ListAnswers.Applies (a : ListAnswers) : Prop :=
  a.denied = true ∨ a.antigravity = false ∧ (a.gravity = true ∨ a.regex = true)

def Rules.Blocks (r : Rules) : Prop :=
  ¬ (r.allowlist = true ∨ r.allowRegex = true) ∧
    (r.special = true ∨ r.whole.Applies ∨
      r.whole.antigravity = false ∧ ∃ a, r.esni = some a ∧ a.Applies)

def Rules.status (r : Rules) : Option QueryStatus :=
  if r.allowlist || r.allowRegex then none
  else if r.special then some .specialDomain
  else r.whole.status.or (if r.whole.antigravity then none else r.esni.bind ListAnswers.status)

theorem ListAnswers.status_isSome (a : ListAnswers) : a.status.isSome = true ↔ a.Applies := by
  obtain ⟨denied,antigravity,gravity,regex⟩ := a
  cases denied <;> cases antigravity <;> cases gravity <;> cases regex <;>
    simp [ListAnswers.status,ListAnswers.Applies]

theorem Rules.status_isSome (r : Rules) : r.status.isSome = true ↔ r.Blocks := by
  obtain ⟨allowlist,allowRegex,special,whole,esni⟩ := r
  have hesni : (esni.bind ListAnswers.status).isSome = true ↔ ∃ a, esni = some a ∧ a.Applies := by
    cases esni with
    | none => simp
    | some a => simp [ListAnswers.status_isSome]
  unfold Rules.status Rules.Blocks
  rw [← hesni,← ListAnswers.status_isSome]
  cases allowlist <;> cases allowRegex <;> cases special <;> cases whole.antigravity <;>
    cases whole.status <;> simp

/-- The rules for a client with these groups. -/
def GravityDb.rules (e : Engine) (db : GravityDb) (cfg : Config) (groups : List Int)
    (type : QueryType) (domain : List Char) : Rules where
  allowlist := onList db.vwAllowlist domain groups
  allowRegex := RegexListed e db.vwRegexAllowlist groups type domain
  special := SpecialName cfg type domain
  whole := db.listAnswers e groups type domain
  esni := (if cfg.blockESNI then esniName domain else none).map (db.listAnswers e groups type)

/-- What the lookups answer for the groups in `c`, with `allowRow` the row of the regex table the
allow filters are matched by. -/
def Gravity.lookups (w : World) (g : Gravity) (cfg : Config) (type : QueryType)
    (allowRow : Nat → Bool) (c : CheckState) (domain : List Char) : Rules where
  allowlist := onList g.db.vwAllowlist domain c.client.groups
  allowRegex := (matchRegex w.engine g .allow allowRow c.cache.queryType domain).isSome
  special := (specialDomain cfg type domain c.statics).isSome
  whole := g.listAnswers w c domain
  esni := (if cfg.blockESNI then esniName domain else none).map (g.listAnswers w c)

/-- The row for the allow filters: the lookup in the exact allowlist would rebuild it, but is left
out without such a list. -/
def CheckState.allowRow (w : World) (g : Gravity) (c : CheckState) : Nat → Bool :=
  if g.hasExactAllowlist then (c.resolve w g).row else c.row

section

variable {w : World} {g : Gravity}

theorem checkEsni_eq (h : Available w g) (hl : g.Current w.engine) (cfg : Config) (domain : List Char)
    (c : CheckState) (hc : c.allowed = false) :
    (checkEsni w g cfg domain (checkDomainBlocked w g cfg domain ⟨false,.unknown,true⟩ c)).1 =
      (let a := g.listAnswers w (c.resolve w g) domain
       let esni := (if cfg.blockESNI then esniName domain else none).map
         (g.listAnswers w (c.resolve w g))
       let st := a.status.or (if a.antigravity then none else esni.bind ListAnswers.status)
       ⟨st.isSome,st.getD .unknown,true⟩) := by
  obtain ⟨hv,ha,hlook⟩ := checkDomainBlocked_eq h hl cfg domain ⟨false,.unknown,true⟩ c hc rfl
  generalize checkDomainBlocked w g cfg domain ⟨false,.unknown,true⟩ c = r at *
  generalize g.listAnswers w (c.resolve w g) domain = a at *
  have hblocked : r.1.blocked = a.status.isSome := by rw [hv]
  unfold checkEsni
  dsimp only
  cases hst : a.status with
  | some st =>
    rw [hst] at hv hblocked
    simp [hv]
  | none =>
    rw [hst] at hv hblocked
    cases hanti : a.antigravity with
    | true =>
      have hdenied : a.denied = false := by
        cases hd : a.denied
        · rfl
        · simp [ListAnswers.status,hd] at hst
      simp [ha,hanti,hdenied,hv]
    | false =>
      have hallowed : r.2.allowed = false := by simp [ha,hanti]
      cases hname : (if cfg.blockESNI then esniName domain else none) with
      | none =>
        have hnone : (if cfg.blockESNI && !r.2.allowed && !r.1.blocked then esniName domain
            else none) = none := by simpa [hallowed,hblocked] using hname
        rw [hnone]
        simpa using hv
      | some d =>
        have hsome : (if cfg.blockESNI && !r.2.allowed && !r.1.blocked then esniName domain
            else none) = some d := by simpa [hallowed,hblocked] using hname
        obtain ⟨hv',_,_⟩ := checkDomainBlocked_eq h hl cfg d r.1 r.2 hallowed
          (Gravity.listAnswers_looked (hlook hallowed) d)
        simp only [hsome,Option.map_some,Option.bind_some,Option.none_or,Bool.false_eq_true,if_false]
        have hstatus : r.1.status = .unknown := by rw [hv]; rfl
        have hokay : r.1.dbOkay = true := by rw [hv]
        rw [hstatus,hokay] at hv'
        split <;> rw [hv']

theorem inAllowlist_row (h : Available w g) (domain : List Char) (c : CheckState) :
    (inAllowlist w g domain c).2.row = c.allowRow w g := by
  unfold inAllowlist inExactList allowRow
  cases g.hasExactAllowlist with
  | false => rfl
  | true =>
    simp only [h.opened,prepare_of_available h,Bool.not_true,Bool.false_eq_true,if_false,if_true]
    split <;> rfl

theorem inRegex_of_false {type : RegexType} {domain : List Char} {c : CheckState}
    (h : (inRegex w g type domain c).1 = false) : (inRegex w g type domain c).2 = c := by
  unfold inRegex at h ⊢
  split at h
  · cases h
  · rfl

theorem checkLists_eq (h : Available w g) (hl : g.Current w.engine) (cfg : Config) (type : QueryType)
    (domain : List Char) (c : CheckState) (hc : c.allowed = false) :
    (checkLists w g cfg type domain c).1 =
      (let st := (g.lookups w cfg type (c.allowRow w g) (c.resolve w g) domain).status
       ⟨st.isSome,st.getD .unknown,true⟩) := by
  have hallow : (inAllowlist w g domain c).1 = _ :=
    inExactList_of_available h _ _ hl.allowlist domain c
  have hlook : c.Looked w g (inAllowlist w g domain c).2 := inExactList_looked h _ _ domain c
  have hrow : (inAllowlist w g domain c).2.row = c.allowRow w g := inAllowlist_row h domain c
  unfold checkLists
  generalize inAllowlist w g domain c = allow at *
  have hmatch : (inRegex w g .allow domain { allow.2 with allowed := false }).1 =
      (matchRegex w.engine g .allow (c.allowRow w g) (c.resolve w g).cache.queryType
        domain).isSome := by
    rw [c.resolve_cache,← hlook.type,← hrow]
    unfold inRegex
    cases matchRegex w.engine g .allow allow.2.row allow.2.cache.queryType domain <;> rfl
  unfold Gravity.lookups Rules.status
  dsimp only
  by_cases hon : onList g.db.vwAllowlist domain (c.resolve w g).client.groups = true
  · simp [hallow,hon,checkDomainBlocked,checkEsni]
  rw [if_neg hon] at hallow
  have hnot : decide (allow.1 = .found) = false := by simp [hallow]
  rw [hnot]
  simp only [Bool.false_eq_true,if_false,hon,Bool.false_or]
  cases hm : (matchRegex w.engine g .allow (c.allowRow w g) (c.resolve w g).cache.queryType
      domain).isSome with
  | true =>
    rw [hm] at hmatch
    simp [hmatch,checkDomainBlocked,checkEsni]
  | false =>
    rw [hm] at hmatch
    rw [inRegex_of_false hmatch,hmatch]
    have hlook' : c.Looked w g { allow.2 with allowed := false } :=
      hlook.congr rfl rfl rfl (by rw [hlook.allowed,hc])
    have hspecial := specialDomain_isSome cfg type domain (c.resolve w g).statics allow.2.statics
    have hesni := checkEsni_eq h hl cfg domain { allow.2 with allowed := false } rfl
    simp only [Gravity.listAnswers_looked hlook',
      funext (Gravity.listAnswers_looked hlook')] at hesni
    cases hsp : specialDomain cfg type domain allow.2.statics with
    | some st =>
      rw [hsp] at hspecial
      simp [hspecial]
    | none =>
      rw [hsp] at hspecial
      simp only [hspecial,Option.isSome_none,Bool.false_eq_true,if_false]
      split <;> exact hesni

end

section

variable (s : Store) (p : Nat)

theorem Store.querySetStatus_status (st : QueryStatus) :
    ((s.querySetStatus p st false).q.mem p).status = st := by
  unfold Store.querySetStatus
  dsimp only
  split
  · rename_i hsame
    exact hsame.1
  · simp [QueryStore.setStatus]

theorem Store.markChanged_status : ((s.markChanged p).q.mem p).status = (s.q.mem p).status := by
  simp [Store.markChanged,Store.modifyQuery,QueryStore.setQuery]

theorem Store.queryBlocked_status (domainID clientID : Option Nat) (st : QueryStatus)
    (h : isBlocked (s.q.mem p).status = false) :
    ((s.queryBlocked p domainID clientID st).q.mem p).status = st := by
  unfold Store.queryBlocked
  rw [if_neg (by simp [h]),Store.markChanged_status,Store.querySetStatus_status]

end

theorem Gravity.lookups_congr {w : World} {g : Gravity} {c c' : CheckState}
    (h : c.Looked w g c') (hrow : c'.row = c.row) (cfg : Config) (type : QueryType)
    (domain : List Char) :
    g.lookups w cfg type (c'.allowRow w g) (c'.resolve w g) domain =
      g.lookups w cfg type (c.allowRow w g) (c.resolve w g) domain := by
  have hallow : c'.allowRow w g = c.allowRow w g := by
    unfold allowRow
    rw [h.row,hrow]
  unfold Gravity.lookups
  rw [hallow,h.client,resolve_cache,resolve_cache,h.type,
    specialDomain_isSome cfg type domain _ (c.resolve w g).statics,
    funext (Gravity.listAnswers_looked h)]

section

variable {w : World} {g : Gravity} {groups : List Int}

theorem listMatches_eq {abpFormat antigravity : Bool} (view : List ViewRow) {domain : List Char}
    (habp : abpFormat = false → ∀ r ∈ view, ∀ s, r.domain ≠ abpPattern antigravity s)
    (hlabels : domain.count '.' < ABP_MAX_SUFFIXES) :
    listMatches abpFormat antigravity view groups domain =
      decide (OnList antigravity view groups domain) := by
  rw [Bool.eq_iff_iff,decide_eq_true_eq,listMatches,take_suffixes domain hlabels]
  cases abpFormat with
  | true => simp [OnList]
  | false =>
    have hnone : ∀ s, onList view (abpPattern antigravity s) groups = false := by
      intro s
      rw [onList,List.any_eq_false]
      intro r hr
      simp [habp rfl r hr s]
    simp [OnList,hnone]

theorem mem_readRegexTable {e : Engine} {view : List ViewRow} {r : RegexData} :
    r ∈ readRegexTable e view ↔
      ∃ v ∈ view, v.domain ≠ [] ∧ { e.compileRegex v.domain with databaseID := v.id } = r := by
  simp only [readRegexTable,List.mem_map,List.mem_filter,List.mem_dedup]
  constructor
  · rintro ⟨-,⟨⟨v,hv,rfl⟩,hne⟩,hr⟩
    exact ⟨v,hv,by simpa using hne,hr⟩
  · rintro ⟨v,hv,hne,hr⟩
    exact ⟨_,⟨⟨v,hv,rfl⟩,by simpa using hne⟩,hr⟩

def GravityDb.regexView (db : GravityDb) : RegexType → List ViewRow
  | .deny => db.vwRegexDenylist
  | .allow => db.vwRegexAllowlist

theorem Gravity.regexRow_regexID {type : RegexType} {i : Nat} {r : RegexData}
    (hr : (g.filters type)[i]? = some r) : g.regexRow groups (g.regexID type i) =
      (g.db.regexView type).any (fun v => v.id = r.databaseID && v.inGroups groups) := by
  obtain ⟨hi,-⟩ := List.getElem?_eq_some_iff.mp hr
  cases type with
  | deny =>
    rw [Gravity.regexRow,if_pos (show g.regexID .deny i < g.denyRegex.length from hi)]
    exact congrArg (Option.any _) hr
  | allow =>
    rw [Gravity.regexRow,if_neg (by simp [Gravity.regexID]),Gravity.regexID,Nat.add_sub_cancel]
    exact congrArg (Option.any _) hr

theorem RegexData.hits_iff {e : Engine} {r : RegexData} {enabled : Bool} {t : QueryType}
    {input : List Char} : r.hits e enabled t input = true ↔
      enabled = true ∧ r.available = true ∧ (r.queryType = 0 ∨ r.queryType.testBit t.index = true) ∧
        e.regexec r.string input ≠ r.inverted := by
  simp only [RegexData.hits,RegexData.typeMatches,Bool.and_eq_true,Bool.or_eq_true,decide_eq_true_eq,
    bne_iff_ne]
  tauto

/-- With the row of the groups, the filters found are the listed ones. -/
theorem matchRegex_isSome (hl : g.Current w.engine) (type : RegexType) {row : Nat → Bool}
    (hrow : ∀ i, row (g.regexID type i) = g.regexRow groups (g.regexID type i)) (t : QueryType)
    (domain : List Char) : (matchRegex w.engine g type row t domain).isSome =
      decide (RegexListed w.engine (g.db.regexView type) groups t domain) := by
  have hf : g.filters type = readRegexTable w.engine (g.db.regexView type) := by
    cases type
    · exact hl.denyRegex
    · exact hl.allowRegex
  have hfind : (matchRegex w.engine g type row t domain).isSome = true ↔
      ∃ r ∈ g.filters type, r.hits w.engine
        ((g.db.regexView type).any (fun v => v.id = r.databaseID && v.inGroups groups)) t domain := by
    simp only [matchRegex,Option.isSome_map,List.find?_isSome,Prod.exists,
      List.mem_zipIdx_iff_getElem?,
      hrow]
    constructor
    · rintro ⟨r,i,hr,hhit⟩
      exact ⟨r,List.mem_of_getElem? hr,by rwa [Gravity.regexRow_regexID hr] at hhit⟩
    · rintro ⟨r,hr,hhit⟩
      obtain ⟨i,hi⟩ := List.mem_iff_getElem?.mp hr
      exact ⟨r,i,hi,by rwa [Gravity.regexRow_regexID hi]⟩
  rw [Bool.eq_iff_iff,decide_eq_true_eq,hfind,hf]
  simp only [mem_readRegexTable,RegexListed,RegexData.hits_iff,List.any_eq_true,Bool.and_eq_true,
    decide_eq_true_eq]
  constructor
  · rintro ⟨-,⟨v,hv,hne,rfl⟩,hhit⟩
    exact ⟨v,hv,hne,hhit⟩
  · rintro ⟨v,hv,hne,hhit⟩
    exact ⟨_,⟨v,hv,hne,rfl⟩,hhit⟩

theorem specialDomain_eq (cfg : Config) (type : QueryType) (domain : List Char) (st : Statics) :
    (specialDomain cfg type domain st).isSome = decide (SpecialName cfg type domain) := by
  have hdot : '.' :: "resolver.arpa".toList = ".resolver.arpa".toList := rfl
  have hzone : inZone "resolver.arpa".toList domain = true ↔
      domain = "resolver.arpa".toList ∨ ".resolver.arpa".toList <:+ domain := by
    rw [inZone,hdot,Bool.or_eq_true,decide_eq_true_eq,List.isSuffixOf_iff_suffix]
  rw [Bool.eq_iff_iff,decide_eq_true_eq,SpecialName,← hzone]
  unfold specialDomain
  simp only [Bool.and_eq_true,Bool.or_eq_true,decide_eq_true_eq,and_assoc]
  split_ifs with hcanary hrelay hresolver
  · exact iff_of_true rfl (.inl hcanary)
  · exact iff_of_true rfl (.inr (.inl hrelay))
  · exact iff_of_true rfl (.inr (.inr hresolver))
  · refine iff_of_false (by simp) ?_
    rintro (h | h | h)
    exacts [hcanary h,hrelay h,hresolver h]

/-- The row a client is matched by where it is not rebuilt is that of its groups: all of it with
its groups resolved, that of the allow filters also without an exact allowlist. -/
def CheckState.RowKept (w : World) (g : Gravity) (c : CheckState) : Prop :=
  ∀ i, c.client.flags.foundGroup = true ∨ g.hasExactAllowlist = false ∧ g.denyRegex.length ≤ i →
    c.row i = g.regexRow (c.resolve w g).client.groups i

theorem CheckState.RowKept.resolved {c : CheckState} (h : c.RowKept w g) (i : Nat) :
    (c.resolve w g).row i = g.regexRow (c.resolve w g).client.groups i := by
  cases hf : c.client.flags.foundGroup with
  | true =>
    have hrow := h i (.inl hf)
    rw [resolve_of_found hf] at hrow ⊢
    exact hrow
  | false => simp [resolve,hf]

theorem CheckState.RowKept.allow {c : CheckState} (h : c.RowKept w g) (i : Nat) :
    c.allowRow w g (g.regexID .allow i) =
      g.regexRow (c.resolve w g).client.groups (g.regexID .allow i) := by
  unfold allowRow
  split
  · exact h.resolved _
  · rename_i hex
    exact h _ (.inr ⟨by simpa using hex,by simp [Gravity.regexID]⟩)

theorem Gravity.lookups_eq (hl : g.Current w.engine) {c : CheckState} (hrow : c.RowKept w g)
    (cfg : Config) {type : QueryType} (htype : c.cache.queryType = type) {domain : List Char}
    (hlabels : domain.count '.' < ABP_MAX_SUFFIXES) :
    g.lookups w cfg type (c.allowRow w g) (c.resolve w g) domain =
      g.db.rules w.engine cfg (c.resolve w g).client.groups type domain := by
  have hanswers : ∀ d : List Char, d.count '.' < ABP_MAX_SUFFIXES →
      g.listAnswers w (c.resolve w g) d =
        g.db.listAnswers w.engine (c.resolve w g).client.groups type d := by
    intro d hd
    have hdeny := matchRegex_isSome hl .deny (fun i => hrow.resolved _) type d
    unfold Gravity.listAnswers GravityDb.listAnswers
    rw [resolve_cache,htype,hdeny,
      listMatches_eq g.db.vwAntigravity (fun ha => hl.abp ha true) hd,
      listMatches_eq g.db.vwGravity (fun ha => hl.abp ha false) hd]
    rfl
  have hesni : ∀ d, esniName domain = some d → d.count '.' < ABP_MAX_SUFFIXES := by
    intro d hd
    unfold esniName at hd
    split at hd
    · cases hd
      exact (List.Sublist.count_le '.' (List.drop_sublist 6 domain)).trans_lt hlabels
    · cases hd
  have hallow := matchRegex_isSome hl .allow hrow.allow type domain
  unfold Gravity.lookups GravityDb.rules
  rw [resolve_cache,htype,hallow,specialDomain_eq,hanswers domain hlabels]
  congr 1
  split
  · cases hname : esniName domain with
    | none => rfl
    | some d => exact congrArg some (hanswers d (hesni d hname))
  · rfl

end

theorem Store.checkRules_eq {w : World} (s : Store) (h : Available w s.gravity)
    (hl : s.gravity.Current w.engine) (domain : List Char) {p clientID domainID cacheID : Nat}
    (hallowed : (s.q.mem p).flags.allowed = false) {rules : Rules}
    (hrules : s.gravity.lookups w s.config (s.q.mem p).type
      ((s.loadCheck p clientID cacheID).allowRow w s.gravity)
      ((s.loadCheck p clientID cacheID).resolve w s.gravity) domain = rules) :
    (s.checkRules w domain p clientID domainID cacheID).1 = rules.status.isSome ∧
      (isBlocked (s.q.mem p).status = false →
        ((s.checkRules w domain p clientID domainID cacheID).2.q.mem p).status =
          rules.status.getD (s.q.mem p).status) := by
  have hlists := checkLists_eq h hl s.config (s.q.mem p).type domain
    (s.loadCheck p clientID cacheID) hallowed
  rw [hrules] at hlists
  unfold Store.checkRules
  generalize checkLists w s.gravity s.config (s.q.mem p).type domain
    (s.loadCheck p clientID cacheID) = r at *
  have hkeep : ((s.storeCheck p clientID cacheID r.2).q.mem p).status = (s.q.mem p).status := by
    simp [Store.storeCheck,QueryStore.setQuery]
  cases hst : rules.status with
  | none =>
    rw [hst] at hlists
    simp [hlists,hkeep]
  | some st =>
    rw [hst] at hlists
    simp only [hlists,Option.isSome_some,if_true,Option.getD_some]
    exact ⟨trivial,fun hstatus => Store.queryBlocked_status _ p _ _ st (hkeep ▸ hstatus)⟩

def denylistSample : Store :=
  (System.initial Config.default World.plain { GravityDb.empty with
    domainlist := [⟨1,1,"ads.example".toList,true⟩], domainlistByGroup := [(1,0)] }).store

end Lorentz
