import Lorentz.LinkingTables

/-!
The reference counts of the tables. While nothing is collected, records are only ever
added, and every operation says by how much it changes each count.
-/

set_option autoImplicit false

namespace Lorentz
open Function

/-- What a query can refer to; a domain by the query for it and by those in whose CNAME chain it
was blocked. -/
inductive Ref where
  | client (i : Nat)
  | domain (i : Nat)
  | upstream (i : Nat)
  | cache (i : Nat)
  | cname (i : Nat)
  deriving DecidableEq, Repr

def QueriesData.refers (x : QueriesData) : Ref → Bool
  | .client i => x.clientID = i
  | .domain i => x.domainID = i
  | .upstream i => x.flags.upstreamCounted && x.upstreamID = some i
  | .cache i => x.cacheID = some i
  | .cname i => x.cnameDomainID = some i

namespace QueriesData

variable (x : QueriesData) (i : Nat)

@[simp] theorem refers_client : x.refers (.client i) = true ↔ x.clientID = i := by
  simp [refers]

@[simp] theorem refers_domain : x.refers (.domain i) = true ↔ x.domainID = i := by
  simp [refers]

@[simp] theorem refers_upstream : x.refers (.upstream i) = true ↔
    x.flags.upstreamCounted = true ∧ x.upstreamID = some i := by
  simp [refers]

@[simp] theorem refers_cache : x.refers (.cache i) = true ↔ x.cacheID = some i := by
  simp [refers]

@[simp] theorem refers_cname : x.refers (.cname i) = true ↔
    x.cnameDomainID = some i := by
  simp [refers]

end QueriesData

def Ref.one (r : Ref) : Ref → Int := fun r' => if r' = r then 1 else 0

namespace Tables

variable (t : Tables)

def count : Ref → Int
  | .client i => (t.clients i).count
  | .domain i => (t.domains i).count
  | .upstream i => (t.upstreams i).count
  | .cache i => (t.cache i).refcount
  | .cname i => (t.domains i).cnameRefcount

def has : Ref → Bool
  | .client i => i < t.numClients
  | .domain i | .cname i => i < t.numDomains
  | .upstream i => i < t.numUpstreams
  | .cache i => i < t.dnsCacheSize

def ordinary : Ref → Bool
  | .client i => !(t.clients i).flags.aliasclient
  | _ => true

/-- The tables between two operations, as long as no record has been given back. -/
structure Sound : Prop where
  recycled : t.clientsRecycle = [] ∧ t.domainsRecycle = [] ∧ t.cacheRecycle = []
  clientsLookup : ∀ i ∈ t.clientsLookup, i < t.numClients
  domainsLookup : ∀ i ∈ t.domainsLookup, i < t.numDomains
  cacheLookup : ∀ i ∈ t.cacheLookup, i < t.dnsCacheSize
  upstreams : ∀ i < t.numUpstreams, (t.upstreams i).magic = true
  managed : ∀ i < t.numClients, (t.clients i).flags.aliasclient = false →
    ∀ a, (t.clients i).aliasclientID = some a →
      a < t.numClients ∧ (t.clients a).flags.aliasclient = true
  unused : ∀ r, t.has r = false → t.count r = 0 ∧ t.ordinary r = true
  remembered : ∀ k, isCname (t.cache k).blockingStatus = false

structure Step (t t' : Tables) (δ : Ref → Int) : Prop where
  sound : t'.Sound
  has : ∀ r, t.has r = true → t'.has r = true
  ordinary : ∀ r, t'.ordinary r = t.ordinary r
  count : ∀ r, t.ordinary r = true → t'.count r = t.count r+δ r

variable {t} {t' t'' : Tables} {δ ε : Ref → Int}

theorem Sound.step_refl (h : t.Sound) : t.Step t 0 :=
  ⟨h,fun _ hr => hr,fun _ => rfl,fun r _ => (add_zero (t.count r)).symm⟩

theorem Step.trans (h : t.Step t' δ) (k : t'.Step t'' ε) : t.Step t'' (δ+ε) := by
  refine ⟨k.sound,fun r hr => k.has r (h.has r hr),fun r => (k.ordinary r).trans (h.ordinary r),?_⟩
  intro r hr
  rw [k.count r (by rw [h.ordinary r,hr]),h.count r hr,Pi.add_apply,add_assoc]

theorem Step.congr (h : t.Step t' δ) (hδ : ∀ r, t.ordinary r = true → δ r = ε r) : t.Step t' ε := by
  refine ⟨h.sound,h.has,h.ordinary,?_⟩
  intro r hr
  rw [h.count r hr,hδ r hr]

theorem Step.then (h : t.Step t' 0) (k : t'.Step t'' ε) : t.Step t'' ε :=
  (h.trans k).congr fun r _ => by simp

theorem Step.before (h : t.Step t' δ) (k : t'.Step t'' 0) : t.Step t'' δ :=
  (h.trans k).congr fun r _ => by simp

end Tables

def ClientsData.tie (c : ClientsData) : Option Nat × Bool := (c.aliasclientID,c.flags.aliasclient)

theorem getClientGroupids_account (w : World) (db : GravityDb) (c : ClientsData) :
    (getClientGroupids w db c).tie = c.tie ∧ (getClientGroupids w db c).count = c.count := by
  have hhw : (clientHwaddr w c).2.tie = c.tie ∧ (clientHwaddr w c).2.count = c.count := by
    unfold clientHwaddr
    split
    · exact ⟨rfl,rfl⟩
    split
    · exact ⟨rfl,rfl⟩
    · split
      · split <;> exact ⟨rfl,rfl⟩
      · exact ⟨rfl,rfl⟩
  have hm : (chosenMatch w db c).2.tie = c.tie ∧ (chosenMatch w db c).2.count = c.count := by
    unfold chosenMatch
    split
    · exact ⟨rfl,rfl⟩
    by_cases hn : w.macNames = true
    · simp only [hn,if_true]
      exact hhw
    · simp only [hn]
      exact ⟨rfl,rfl⟩
  exact hm

theorem reloadPerClientRegex_account (w : World) (g : Gravity) (c : ClientsData) :
    (reloadPerClientRegex w g c).1.tie = c.tie ∧ (reloadPerClientRegex w g c).1.count = c.count := by
  unfold reloadPerClientRegex
  split
  · exact ⟨rfl,rfl⟩
  split
  · exact ⟨rfl,rfl⟩
  · split
    · exact ⟨rfl,rfl⟩
    · exact getClientGroupids_account w g.db c

attribute [local simp] Tables.count Ref.one ClientsData.addCount

namespace Tables

variable {t : Tables}

section

/-- The slots in use, and where they are found. -/
def slots (t : Tables) : (Nat × Nat × Nat × Nat) × (List Nat × List Nat × List Nat) ×
    List Nat × List Nat × List Nat :=
  ((t.numClients,t.numDomains,t.numUpstreams,t.dnsCacheSize),
    (t.clientsRecycle,t.domainsRecycle,t.cacheRecycle),
    t.clientsLookup,t.domainsLookup,t.cacheLookup)

theorem Sound.write {t' : Tables} {δ : Ref → Int} (h : t.Sound)
    (hclients : ∀ i, (t'.clients i).tie = (t.clients i).tie)
    (hcount : ∀ r, t'.count r = t.count r+δ r) (hδ : ∀ r, t.has r = false → δ r = 0)
    (hslots : t'.slots = t.slots)
    (hup : ∀ i, (t.upstreams i).magic = true → (t'.upstreams i).magic = true)
    (hcache : ∀ k, isCname (t'.cache k).blockingStatus = false) : t.Step t' δ := by
  simp only [slots,Prod.mk.injEq] at hslots
  obtain ⟨⟨hnc,hnd,hnu,hnk⟩,⟨hrc,hrd,hrk⟩,hlc,hld,hlk⟩ := hslots
  have hflag : ∀ i, (t'.clients i).flags.aliasclient = (t.clients i).flags.aliasclient :=
    fun i => congrArg Prod.snd (hclients i)
  have hmanaged : ∀ i, (t'.clients i).aliasclientID = (t.clients i).aliasclientID :=
    fun i => congrArg Prod.fst (hclients i)
  have hord : ∀ r, t'.ordinary r = t.ordinary r := by
    intro r
    cases r <;> simp [ordinary,hflag]
  have hhas : ∀ r, t'.has r = t.has r := by
    intro r
    cases r <;> simp [Tables.has,hnc,hnd,hnu,hnk]
  refine ⟨⟨?_,?_,?_,?_,?_,?_,?_,hcache⟩,fun r hr => by rw [hhas,hr],hord,fun r _ => hcount r⟩
  · rw [hrc,hrd,hrk]
    exact h.recycled
  · rw [hlc,hnc]
    exact h.clientsLookup
  · rw [hld,hnd]
    exact h.domainsLookup
  · rw [hlk,hnk]
    exact h.cacheLookup
  · rw [hnu]
    exact fun i hi => hup i (h.upstreams i hi)
  · simp only [hnc,hflag,hmanaged]
    exact h.managed
  · intro r hr
    rw [hhas] at hr
    rw [hcount,hord,hδ r hr,add_zero]
    exact h.unused r hr

theorem Sound.frame {t' : Tables} (h : t.Sound) (hclients : t'.clients = t.clients)
    (hdomains : t'.domains = t.domains) (hupstreams : t'.upstreams = t.upstreams)
    (hcache : t'.cache = t.cache) (hslots : t'.slots = t.slots) : t.Step t' 0 := by
  refine h.write (fun i => by rw [hclients]) (fun r => ?_) (fun _ _ => rfl) hslots
    (fun i hi => by rw [hupstreams,hi]) fun k => ?_
  · cases r <;> simp [count,hclients,hdomains,hupstreams,hcache]
  · rw [hcache]
    exact h.remembered k

theorem Sound.modifySlot (h : t.Sound) (i : Nat) (f : OverTimeData → OverTimeData) :
    t.Step (t.modifySlot i f) 0 :=
  h.frame rfl rfl rfl rfl rfl

theorem Sound.setRow (h : t.Sound) (rows : Nat → Nat → Bool) :
    t.Step { t with regexRow := rows } 0 :=
  h.frame rfl rfl rfl rfl rfl

theorem change_unused {r k : Ref} {n : Int} (hr : t.has r = false) (h : t.has k = true ∨ n = 0) :
    (if r = k then n else 0) = 0 := by
  split
  · rename_i he
    rw [he] at hr
    exact h.resolve_left (by simp [hr])
  · rfl

attribute [local simp] Tables.setClient

theorem Sound.setClient (h : t.Sound) {i : Nat} {c : ClientsData}
    (ht : c.tie = (t.clients i).tie) (hi : i < t.numClients ∨ c.count = (t.clients i).count) :
    t.Step (t.setClient i c)
      (fun r => if r = .client i then c.count-(t.clients i).count else 0) := by
  refine h.write (fun j => ?_) (fun r => ?_) (fun r hr => ?_) rfl (fun _ hj => hj) h.remembered
  · by_cases hj : j = i <;> simp [hj,ht]
  · cases r with
    | client j => by_cases hj : j = i <;> simp [hj]
    | _ => simp
  · exact change_unused hr (hi.imp (by simp [Tables.has]) (by omega))

theorem Sound.setDomain (h : t.Sound) {i : Nat} {d : DomainsData}
    (hi : i < t.numDomains ∨ d.count = (t.domains i).count ∧
      d.cnameRefcount = (t.domains i).cnameRefcount) :
    t.Step (t.setDomain i d)
      (fun r => if r = .domain i then d.count-(t.domains i).count
        else if r = .cname i then d.cnameRefcount-(t.domains i).cnameRefcount else 0) := by
  refine h.write (fun _ => rfl) (fun r => ?_) (fun r hr => ?_) rfl (fun _ hj => hj) h.remembered
  · cases r with
    | domain j | cname j => by_cases hj : j = i <;> simp [Tables.setDomain,hj]
    | _ => simp [Tables.setDomain]
  rw [change_unused hr (hi.imp (by simp [Tables.has]) (by omega))]
  have := change_unused (n := d.count-(t.domains i).count) (k := .domain i) hr
    (hi.imp (by simp [Tables.has]) (by omega))
  split <;> simp_all

attribute [local simp] Tables.setUpstream

theorem Sound.setUpstream (h : t.Sound) {i : Nat} {u : UpstreamsData} (hm : u.magic = true)
    (hi : i < t.numUpstreams) :
    t.Step (t.setUpstream i u)
      (fun r => if r = .upstream i then u.count-(t.upstreams i).count else 0) := by
  refine h.write (fun _ => rfl) (fun r => ?_) (fun r hr => ?_) rfl (fun j hj => ?_) h.remembered
  · cases r with
    | upstream j => by_cases hj : j = i <;> simp [hj]
    | _ => simp
  · exact change_unused hr (.inl (by simp [Tables.has,hi]))
  · by_cases hji : j = i
    · simp [hji,hm]
    · simpa [hji] using hj

attribute [local simp] Tables.setCache

theorem Sound.setCache (h : t.Sound) {k : Nat} {d : DNSCacheData}
    (hb : isCname d.blockingStatus = false)
    (hk : k < t.dnsCacheSize ∨ d.refcount = (t.cache k).refcount) :
    t.Step (t.setCache k d)
      (fun r => if r = .cache k then d.refcount-(t.cache k).refcount else 0) := by
  refine h.write (fun _ => rfl) (fun r => ?_) (fun r hr => ?_) rfl (fun _ hj => hj) fun j => ?_
  · cases r with
    | cache j => by_cases hj : j = k <;> simp [hj]
    | _ => simp
  · exact change_unused hr (hk.imp (by simp [Tables.has]) (by omega))
  · by_cases hj : j = k
    · simp [hj,hb]
    · simpa [hj] using h.remembered j

end

theorem Sound.setClient_same (h : t.Sound) {i : Nat} {c : ClientsData}
    (ht : c.tie = (t.clients i).tie) (hc : c.count = (t.clients i).count) :
    t.Step (t.setClient i c) 0 :=
  (h.setClient ht (.inr hc)).congr fun r _ => by simp [hc]

theorem Sound.setDomain_same (h : t.Sound) {i : Nat} {d : DomainsData}
    (hc : d.count = (t.domains i).count) (hn : d.cnameRefcount = (t.domains i).cnameRefcount) :
    t.Step (t.setDomain i d) 0 :=
  (h.setDomain (.inr ⟨hc,hn⟩)).congr fun r _ => by simp [hc,hn]

theorem Sound.setCache_same (h : t.Sound) {k : Nat} {d : DNSCacheData}
    (hb : isCname d.blockingStatus = false) (hr : d.refcount = (t.cache k).refcount) :
    t.Step (t.setCache k d) 0 :=
  (h.setCache hb (.inr hr)).congr fun r _ => by simp [hr]

theorem Sound.create {t' : Tables} {δ : Ref → Int} (h : t.Sound) (hclients : t'.clients = t.clients)
    (hnum : t'.numClients = t.numClients) (hlook : t'.clientsLookup = t.clientsLookup)
    (hcount : ∀ r, t'.count r = t.count r+δ r) (hδ : ∀ r, t'.has r = false → δ r = 0)
    (hhas : ∀ r, t.has r = true → t'.has r = true)
    (hrecycled : t'.clientsRecycle = [] ∧ t'.domainsRecycle = [] ∧ t'.cacheRecycle = [])
    (hdomains : ∀ i ∈ t'.domainsLookup, i < t'.numDomains)
    (hcaches : ∀ i ∈ t'.cacheLookup, i < t'.dnsCacheSize)
    (hup : ∀ i < t'.numUpstreams, (t'.upstreams i).magic = true)
    (hcache : ∀ k, isCname (t'.cache k).blockingStatus = false) : t.Step t' δ := by
  have hord : ∀ r, t'.ordinary r = t.ordinary r := by
    intro r
    cases r <;> simp [ordinary,hclients]
  refine ⟨⟨hrecycled,?_,hdomains,hcaches,hup,?_,fun r hr => ?_,hcache⟩,hhas,hord,
    fun r _ => hcount r⟩
  · rw [hlook,hnum]
    exact h.clientsLookup
  · rw [hclients,hnum]
    exact h.managed
  have hr' : t.has r = false := by
    by_contra hne
    rw [hhas r (by simpa using hne)] at hr
    cases hr
  rw [hcount,hδ r hr,add_zero,hord]
  exact h.unused r hr'

theorem mem_find {l : List Nat} {p : Nat → Bool} {i n : Nat} (h : l.find? p = some i)
    (hl : ∀ j ∈ l, j < n) : i < n ∧ p i = true :=
  ⟨hl i (List.mem_of_find?_eq_some h),List.find?_some h⟩

theorem lookup_cons {l : List Nat} {n : Nat} (h : ∀ i ∈ l, i < n) : ∀ i ∈ n :: l, i < n+1 := by
  intro i hi
  obtain rfl | hi := List.mem_cons.mp hi
  · omega
  · exact Nat.lt_succ_of_lt (h i hi)

theorem Sound.findDomainID (h : t.Sound) (domain : List Char) (count : Bool) :
    let r := t.findDomainID domain count
    t.Step r.2 (if count then Ref.one (.domain r.1) else 0) ∧ r.1 < r.2.numDomains ∧
      (r.2.domains r.1).magic = true := by
  unfold Tables.findDomainID
  cases hf : t.domainsLookup.find?
      (fun i => (t.getDomain i).any (fun d => d.domain = domain)) with
  | some id =>
    obtain ⟨hlt,hany⟩ := mem_find hf h.domainsLookup
    have hm : (t.domains id).magic = true := by
      by_contra hne
      simp [Tables.getDomain,hne] at hany
    cases count with
    | false => exact ⟨h.step_refl,hlt,hm⟩
    | true =>
      simp only [if_true,Tables.modifyDomain,Tables.getDomain,hm]
      refine ⟨(h.setDomain (.inl hlt)).congr fun r _ => ?_,hlt,by simp [Tables.setDomain]⟩
      cases r <;> simp
  | none =>
    simp only [h.recycled.2.1,getNextFreeID]
    have hnew := fun r hr => (h.unused r hr).1
    have hzero := hnew (.domain t.numDomains) (by simp [Tables.has])
    simp only [Tables.count] at hzero
    refine ⟨h.create rfl rfl rfl (fun r => ?_) (fun r hr => ?_) (fun r hr => ?_)
      ⟨h.recycled.1,rfl,h.recycled.2.2⟩ (lookup_cons h.domainsLookup) h.cacheLookup h.upstreams
      h.remembered,by simp,?_⟩
    · cases r with
      | domain j =>
        by_cases hj : j = t.numDomains
        · cases count <;> simp [newDomain,hj,hzero]
        · cases count <;> simp [hj]
      | cname j =>
        by_cases hj : j = t.numDomains <;> cases count <;>
          simp [newDomain,hj]
      | _ => cases count <;> simp
    · cases count with
      | false => rfl
      | true =>
        refine if_neg ?_
        rintro rfl
        simp [Tables.has] at hr
    · cases r <;> simp [Tables.has] at hr ⊢ <;> omega
    · simp [newDomain]

theorem Sound.findCacheID (h : t.Sound) (domainID clientID : Nat) (type : QueryType) :
    ∃ k, (t.findCacheID domainID clientID type true).1 = some k ∧
      t.Step (t.findCacheID domainID clientID type true).2 0 ∧
      k < (t.findCacheID domainID clientID type true).2.dnsCacheSize ∧
      ((t.findCacheID domainID clientID type true).2.cache k).magic = true := by
  unfold Tables.findCacheID
  simp only
  split
  · rename_i id hf
    obtain ⟨hlt,hany⟩ := mem_find hf h.cacheLookup
    refine ⟨id,rfl,h.step_refl,hlt,?_⟩
    by_contra hne
    simp [Tables.getDNSCache,hne] at hany
  simp only [h.recycled.2.2,getNextFreeID,Bool.not_true,Bool.false_eq_true,if_false]
  refine ⟨t.dnsCacheSize,rfl,h.create rfl rfl rfl (fun r => ?_) (fun _ _ => rfl)
    (fun r hr => ?_) ⟨h.recycled.1,h.recycled.2.1,rfl⟩ h.domainsLookup (lookup_cons h.cacheLookup)
    h.upstreams ?_,by simp,by simp [newCache]⟩
  · cases r with
    | cache j => by_cases hj : j = t.dnsCacheSize <;> simp [newCache,hj]
    | _ => simp
  · cases r <;> simp [Tables.has] at hr ⊢ <;> omega
  · intro k
    by_cases hk : k = t.dnsCacheSize
    · simp [hk,newCache,isCname]
    · simpa [hk] using h.remembered k

theorem Sound.findUpstreamID (h : t.Sound) (ip : List Char) (port : Nat) :
    let r := t.findUpstreamID ip port
    t.Step r.2 0 ∧ r.1 < r.2.numUpstreams := by
  unfold Tables.findUpstreamID
  cases hf : t.scanUpstream ip port with
  | some id =>
    refine ⟨h.step_refl,?_⟩
    exact (mem_find hf fun j hj => List.mem_range.mp hj).1
  | none =>
    refine ⟨h.create rfl rfl rfl (fun r => ?_) (fun _ _ => rfl) (fun r hr => ?_) h.recycled
      h.domainsLookup h.cacheLookup (fun i hi => ?_) h.remembered,by simp⟩
    · cases r with
      | upstream j => by_cases hj : j = t.numUpstreams <;> simp [hj]
      | _ => simp
    · cases r <;> simp [Tables.has] at hr ⊢ <;> omega
    · by_cases hj : i = t.numUpstreams
      · simp [hj]
      · have := h.upstreams i (by simp only at hi; omega)
        simpa [hj] using this

theorem Sound.modifyClient (h : t.Sound) {a : Nat} {f : ClientsData → ClientsData}
    (ht : ∀ c, (f c).tie = c.tie) (hc : (∀ c, (f c).count = c.count) ∨
      a < t.numClients ∧ (t.clients a).flags.aliasclient = true) : t.Step (t.modifyClient a f) 0 := by
  unfold Tables.modifyClient Tables.getClient
  by_cases hm : (t.clients a).magic = true
  · simp only [hm,if_true]
    obtain hc | ⟨ha,hf⟩ := hc
    · exact h.setClient_same (ht _) (hc _)
    · refine (h.setClient (ht _) (.inl ha)).congr fun r hr => if_neg ?_
      rintro rfl
      simp [Tables.ordinary,hf] at hr
  · simp only [hm]
    exact h.step_refl

theorem Sound.changeClientcount (h : t.Sound) {i : Nat} {total : Int}
    (hi : i < t.numClients ∨ total = 0) (blocked : Int) (slot : Option Nat) (n : Int) :
    t.Step (t.changeClientcount i total blocked slot n)
      (fun r => if r = .client i then total else 0) := by
  unfold Tables.changeClientcount
  extract_lets c a b
  have hown : t.Step a (fun r => if r = .client i then total else 0) := by
    refine (h.setClient (c := c.addCount total blocked slot n) rfl
      (hi.imp_right fun hz => ?_)).congr fun r _ => ?_
    · simp [c,hz]
    · simp [c]
  have hv : t.Step b (fun r => if r = .client i then total else 0) := by
    cases slot with
    | none => exact hown
    | some j => exact hown.before (hown.sound.modifySlot j _)
  split
  · exact hv
  rename_i hflag
  split
  · exact hv
  rename_i k ha
  refine hv.before (hv.sound.modifyClient (fun _ => rfl) ?_)
  obtain hi | hz := hi
  · obtain ⟨hlt,hfa⟩ := h.managed i hi (by simpa using hflag) k ha
    have hlt' := hv.has (.client k) (by simp [Tables.has,hlt])
    have hfa' := hv.ordinary (.client k)
    simp only [Tables.has,decide_eq_true_eq] at hlt'
    simp only [Tables.ordinary,hfa,Bool.not_eq_eq_eq_not,Bool.not_not] at hfa'
    exact .inr ⟨hlt',hfa'⟩
  · exact .inl fun c => by simp [hz]

theorem Sound.changeClientcount_zero (h : t.Sound) (i : Nat) (blocked : Int) (slot : Option Nat)
    (n : Int) : t.Step (t.changeClientcount i 0 blocked slot n) 0 :=
  (h.changeClientcount (.inr rfl) blocked slot n).congr fun r _ => by simp

theorem foldl_tie {f : ClientsData → Nat → ClientsData} (hf : ∀ c i, (f c i).tie = c.tie)
    (l : List Nat) (c : ClientsData) : (l.foldl f c).tie = c.tie := by
  induction l generalizing c with
  | nil => rfl
  | cons i l ih => rw [List.foldl_cons,ih,hf]

theorem Sound.recomputeAliasclient (h : t.Sound) {a : Nat} (ha : a < t.numClients)
    (hf : (t.clients a).flags.aliasclient = true) : t.Step (t.recomputeAliasclient a) 0 := by
  refine h.modifyClient (fun c => ?_) (.inr ⟨ha,hf⟩)
  refine foldl_tie (fun c i => ?_) _ _
  dsimp only
  split <;> rfl

theorem Sound.createClient (h : t.Sound) {c : ClientsData} (rows : Nat → Nat → Bool)
    (hcount : c.count = 1) (hflag : c.flags.aliasclient = false)
    (hm : ∀ a, c.aliasclientID = some a →
      a < t.numClients ∧ (t.clients a).flags.aliasclient = true) :
    t.Step { t with
      clients := update t.clients t.numClients c
      clientsLookup := t.numClients :: t.clientsLookup
      clientsRecycle := []
      numClients := t.numClients+1
      regexRow := rows } (Ref.one (.client t.numClients)) := by
  have hnew := h.unused (.client t.numClients) (by simp [Tables.has])
  simp only [count,ordinary,Bool.not_eq_eq_eq_not,Bool.not_true] at hnew
  have hother : ∀ i, i < t.numClients → update t.clients t.numClients c i = t.clients i :=
    fun i hi => update_of_ne (by omega) _ _
  refine ⟨⟨⟨rfl,h.recycled.2⟩,lookup_cons h.clientsLookup,h.domainsLookup,h.cacheLookup,
    h.upstreams,?_,?_,h.remembered⟩,?_,?_,?_⟩
  · intro i hi hf a ha
    dsimp only at hi hf ha
    have halias : a < t.numClients ∧ (t.clients a).flags.aliasclient = true := by
      by_cases hin : i = t.numClients
      · subst hin
        rw [update_self] at ha
        exact hm a ha
      · rw [hother i (by omega)] at hf ha
        exact h.managed i (by omega) hf a ha
    simp only
    rw [hother a halias.1]
    exact ⟨by omega,halias.2⟩
  · intro r hr
    have hold : t.has r = false := by
      cases r <;> simp [Tables.has] at hr ⊢ <;> omega
    cases r with
    | client i =>
      simp only [Tables.has,decide_eq_false_iff_not] at hr
      have hi : i ≠ t.numClients := by omega
      simpa [count,ordinary,hi] using h.unused _ hold
    | _ => exact h.unused _ hold
  · intro r hr
    cases r <;> simp [Tables.has] at hr ⊢ <;> omega
  · intro r
    cases r with
    | client i => by_cases hi : i = t.numClients <;> simp [ordinary,hi,hflag,hnew.2]
    | _ => rfl
  · intro r _
    cases r with
    | client i => by_cases hi : i = t.numClients <;> simp [count,hi,hcount,hnew.1]
    | _ => simp [count]

theorem Sound.findClientID (h : t.Sound) (w : World) (g : Gravity) {managedBy : Option Nat}
    (hm : ∀ a, managedBy = some a → a < t.numClients ∧ (t.clients a).flags.aliasclient = true)
    (ip : List Char) (now : ℚ) :
    let r := t.findClientID w g managedBy ip now
    t.Step r.2 (Ref.one (.client r.1)) ∧ r.1 < r.2.numClients := by
  unfold Tables.findClientID
  cases hf : t.clientsLookup.find? (fun i => (t.getClient i).any (fun c => c.ip = ip)) with
  | some id =>
    have hlt := (mem_find hf h.clientsLookup).1
    have hstep := h.changeClientcount (.inl hlt : id < t.numClients ∨ (1 : Int) = 0) 0 none 0
    have hlt' := hstep.has (.client id) (by simp [Tables.has,hlt])
    exact ⟨hstep,by simpa [Tables.has] using hlt'⟩
  | none =>
    obtain ⟨htie,hcount⟩ := reloadPerClientRegex_account w g (newClient t.numClients ip now)
    have hstep := h.createClient
      (c := { (reloadPerClientRegex w g (newClient t.numClients ip now)).1 with
        aliasclientID := managedBy })
      (update t.regexRow t.numClients
        (reloadPerClientRegex w g (newClient t.numClients ip now)).2)
      hcount (congrArg Prod.snd htie) hm
    simp only [h.recycled.1,getNextFreeID]
    cases managedBy with
    | none => exact ⟨hstep,by simp⟩
    | some a =>
      obtain ⟨hlt,hfa⟩ := hm a rfl
      have hlt' := hstep.has (.client a) (by simp [Tables.has,hlt])
      have hfa' := hstep.ordinary (.client a)
      have halias := hstep.sound.recomputeAliasclient (by simpa [Tables.has] using hlt')
        (by simpa [Tables.ordinary,hfa] using hfa')
      have hnum := halias.has (.client t.numClients) (by simp [Tables.has])
      exact ⟨hstep.before halias,by simpa [Tables.has] using hnum⟩

end Tables

end Lorentz
