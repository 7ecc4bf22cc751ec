import Lorentz.Arrivals
import Lorentz.Layout

/-!
The store after the import of the history. It is consistent exactly if the loop could
fill all the slots that were reserved for it.
-/

set_option autoImplicit false

namespace Lorentz
open Function Counting References QueryStore Store QueriesData Tables

/-- The store while `filled` of the `reserved` slots in front have been written. -/
structure Store.Holding (s : Store) (filled reserved : Nat) : Prop where
  offset : s.q.offset = 0
  room : s.q.queries < s.q.queriesMax
  fill : filled ≤ reserved
  reserve : reserved ≤ s.q.queries
  used : ∀ i, (s.q.mem i).magic = true ↔ i < filled ∨ reserved ≤ i ∧ i < s.q.queries
  blank : ∀ i, (s.q.mem i).magic = false → (s.q.mem i).flags.upstreamCounted = false
  tallied : s.q.Tallied s.q.initialised
  sound : s.t.Sound
  balanced : Balanced QueriesData.refers s.t.ordinary s.t.count s.q.initialised
  has : ∀ x ∈ s.q.initialised, ∀ r, x.refers r = true → s.t.has r = true

section

variable {s s' : Store} {filled reserved : Nat}

theorem QueryStore.ensureSize_front {q : QueryStore} (ho : q.offset = 0)
    (hroom : q.queries < q.queriesMax) {pagesize : Nat} (hp : 0 < pagesize) :
    ∃ m, q.ensureSize pagesize = { q with queriesMax := m } ∧ q.queries+1 < m := by
  unfold ensureSize
  by_cases hfull : q.queries ≥ q.queriesMax-1
  · refine ⟨q.queriesMax+pagesize,?_,by omega⟩
    simp [ho,hfull]
  · refine ⟨q.queriesMax,?_,by omega⟩
    rw [if_neg (by omega)]

namespace Store.Holding

variable (h : s.Holding filled reserved)
include h

theorem lock (hf : s.Fits) :
    s.lockShm.Holding filled reserved ∧ s.lockShm.q.queries+1 < s.lockShm.q.queriesMax ∧
      s.lockShm.q.queriesMax < uintMod ∧ s.lockShm.q.queries = s.q.queries := by
  obtain ⟨m,hm,hroom⟩ := ensureSize_front h.offset h.room s.config.pagesizePos
  have hfits : s.lockShm.q.queriesMax < uintMod := hf
  have hlock : s.lockShm = { s with q := { s.q with queriesMax := m } } := by
    unfold lockShm
    rw [hm]
  rw [hlock] at hfits ⊢
  refine ⟨⟨h.offset,?_,h.fill,h.reserve,h.used,h.blank,?_,h.sound,h.balanced,h.has⟩,hroom,hfits,rfl⟩
  · dsimp only
    omega
  · exact ⟨h.tallied.status,h.tallied.reply,h.tallied.type⟩

theorem getQuery (hr : s.q.queriesMax < uintMod) {i : Nat} (hi : i ≤ s.q.queriesMax)
    (checkMagic : Bool) : s.q.getQuery i checkMagic =
      if checkMagic && !(s.q.mem i).magic then none else some i := by
  have hmod : i % uintMod = i := Nat.mod_eq_of_lt (by omega)
  have hle : ¬ i > s.q.queriesMax := by omega
  simp [QueryStore.getQuery,h.offset,hmod,hle]

theorem lt_queries {p : Nat} (hm : (s.q.mem p).magic = true) : p < s.q.queries := by
  have hfill := h.fill
  have hreserve := h.reserve
  have := (h.used p).mp hm
  omega

theorem unwritten (hlt : filled < reserved) : (s.q.mem filled).magic = false := by
  by_contra hne
  have := (h.used filled).mp (by simpa using hne)
  omega

theorem blank_update {p : Nat} {x : QueriesData} (hx : x.magic = true) (i : Nat)
    (hi : (update s.q.mem p x i).magic = false) :
    (update s.q.mem p x i).flags.upstreamCounted = false := by
  by_cases hip : i = p
  · subst hip
    rw [update_self,hx] at hi
    cases hi
  · rw [update_of_ne hip] at hi ⊢
    exact h.blank i hi

theorem tables (hq : s'.q = s.q) (ht : s.t.Step s'.t 0) :
    s'.Holding filled reserved := by
  obtain ⟨ho,hroom,hfill,hreserve,hused,hblank,htallied,-,hbalanced,hhas⟩ := h
  rw [← hq] at ho hroom hreserve hused hblank htallied hbalanced hhas
  refine ⟨ho,hroom,hfill,hreserve,hused,hblank,htallied,ht.sound,?_,?_⟩
  · rw [funext ht.ordinary]
    exact hbalanced.congr fun r hr => by rw [ht.count r hr]; simp
  · intro x hx r hr
    exact ht.has r (hhas x hx r hr)

theorem write {x : QueriesData} {filled' : Nat}
    (hroom : s'.q.queries < s'.q.queriesMax) (ho : s'.q.offset = 0) (hfilled : filled' ≤ reserved)
    (hreserved : reserved ≤ s'.q.queries)
    (hused : ∀ i, (s'.q.mem i).magic = true ↔ i < filled' ∨ reserved ≤ i ∧ i < s'.q.queries)
    {p : Nat} (hmem : s'.q.mem = update s.q.mem p x) (hx : x.magic = true)
    (hp : s'.q.initialised.Perm (x :: s.q.initialised))
    (htally : s'.q.Tallied (x :: s.q.initialised)) (ht : s.t.Step s'.t (credit refers x))
    (hhas : ∀ r, x.refers r = true → s'.t.has r = true) : s'.Holding filled' reserved := by
  refine ⟨ho,hroom,hfilled,hreserved,hused,?_,htally.perm hp.symm,ht.sound,?_,?_⟩
  · rw [hmem]
    exact h.blank_update hx
  · rw [funext ht.ordinary]
    exact (h.balanced.cons fun r hr => ht.count r hr).perm hp.symm
  · intro y hy r hr
    obtain rfl | hy := List.mem_cons.mp (hp.mem_iff.mp hy)
    · exact hhas r hr
    · exact ht.has r (h.has y hy r hr)

theorem append (hroom : s.q.queries+1 < s.q.queriesMax)
    (hrange : s.q.queriesMax < uintMod) {x : QueriesData} (hm : x.magic = true)
    (hq : s'.q = s.q.append (s.q.queries+s.q.offset) x) (ht : s.t.Step s'.t (credit refers x))
    (hhas : ∀ r, x.refers r = true → s'.t.has r = true) : s'.Holding filled reserved := by
  have hmod : (s.q.queries+1) % uintMod = s.q.queries+1 := Nat.mod_eq_of_lt (by omega)
  have hqueries : s'.q.queries = s.q.queries+1 := by rw [hq]; exact hmod
  have hmem : s'.q.mem = update s.q.mem (s.q.queries+s.q.offset) x := by rw [hq]; rfl
  have hreserved := h.reserve
  have hlen := s.q.length_initialised_le
  have hrange' : s.q.queriesMax < 4294967296 := hrange
  refine h.write ?_ ?_ h.fill ?_ (fun i => ?_) hmem hm
    (initialised_append hm hqueries (by rw [hq]; rfl) hmem)
    (h.tallied.cons (by omega) (by rw [hq]; rfl) (by rw [hq]; rfl) (by rw [hq]; rfl)) ht hhas
  · rw [hqueries,hq]
    exact hroom
  · rw [hq]
    exact h.offset
  · omega
  rw [hmem,h.offset,hqueries]
  by_cases hi : i = s.q.queries
  · subst hi
    simp [hm]
    omega
  · rw [Nat.add_zero,update_of_ne hi,h.used]
    omega

theorem works (hrange : s.q.queriesMax < uintMod) {p : Nat}
    (hm : (s.q.mem p).magic = true) (ht : Touches p s.q s'.q) (hw : Works p s s') :
    s'.Holding filled reserved := by
  have hr := Touches.reworks ht
  obtain ⟨x,hx,hmem⟩ := hr.query
  have hroom := h.room
  have hrange' : s.q.queriesMax < 4294967296 := hrange
  have hp := h.lt_queries hm
  have hslot : p+s.q.offset = p := by rw [h.offset,Nat.add_zero]
  have hx' : s'.q.mem p = x := by rw [hmem,update_self]
  have hold : s.q.initialised.Perm (s.q.mem p :: s.q.others p) := by
    have := initialised_perm hp (by rw [hslot]; exact hm)
    rwa [hslot] at this
  have hnew : s'.q.initialised.Perm (s'.q.mem p :: s.q.others p) := by
    rw [hx']
    exact initialised_update hp (hx.magic.trans hm) hr.queries hr.offset
      (by rw [hslot]; exact hmem)
  have hlen := length_others_lt hp
  refine ⟨hr.offset.trans h.offset,?_,h.fill,?_,fun i => ?_,?_,?_,hw.tables.sound,?_,?_⟩
  · rw [hr.queries,hr.queriesMax]
    exact h.room
  · rw [hr.queries]
    exact h.reserve
  · rw [hr.queries,hmem,← h.used i]
    by_cases hi : i = p
    · subst hi
      rw [update_self,hx.magic]
    · rw [update_of_ne hi]
  · rw [hmem]
    exact h.blank_update (hx.magic.trans hm)
  · exact (hr.tallied _ (by omega) (h.tallied.perm hold)).perm hnew.symm
  · rw [funext hw.tables.ordinary]
    exact ((h.balanced.perm hold).replace fun r hr => hw.tables.count r hr).perm hnew.symm
  · intro y hy r hyr
    obtain rfl | hy := List.mem_cons.mp (hnew.mem_iff.mp hy)
    · exact hw.tables.has r (h.has _ (hold.mem_iff.mpr List.mem_cons_self) r (hw.refers r hyr))
    · exact hw.tables.has r (h.has y (hold.mem_iff.mpr (List.mem_cons_of_mem _ hy)) r hyr)

end Store.Holding

end

section

variable {s : Store} {filled reserved : Nat}

theorem Store.Holding.ready (h : s.Holding filled reserved) {p : Nat}
    (hm : (s.q.mem p).magic = true) : s.Ready p := by
  refine ⟨h.sound,h.has _ ?_⟩
  refine List.mem_filter.mpr ⟨List.mem_map.mpr ⟨p,List.mem_range.mpr (h.lt_queries hm),?_⟩,hm⟩
  rw [h.offset,Nat.add_zero]

theorem Store.registerQuery_cases (w : World) (pk : Packet) :
    (∃ b st, s.registerQuery w pk = (.finished b,{ s with statics := st })) ∨
      s.registerQuery w pk = s.lockShm.registerLocked w pk := by
  unfold registerQuery
  split
  · exact .inl ⟨_,_,rfl⟩
  dsimp only
  split
  · exact .inl ⟨_,s.statics,rfl⟩
  · exact .inr rfl

inductive Store.Held (s : Store) (filled reserved : Nat) : Registered × Store → Prop where
  | finished {b : Bool} {s' : Store} (h : s'.Holding filled reserved)
      (hc : s'.config = s.config) : Store.Held s filled reserved (.finished b,s')
  | query {c d p : Nat} {s' : Store} (h : s'.Holding filled reserved)
      (hr : s'.q.queriesMax < uintMod) (hm : (s'.q.mem p).magic = true)
      (hc : s'.config = s.config) : Store.Held s filled reserved (.query c d p,s')

section

variable (h : s.Holding filled reserved)
include h

theorem Store.Holding.registerQuery (hf : s.Fits) (w : World) (pk : Packet)
    (hm : ∀ a, pk.managedBy = some a → a < s.t.numClients ∧
      (s.t.clients a).flags.aliasclient = true) :
    s.Held filled reserved (s.registerQuery w pk) := by
  obtain ⟨b,st,hr⟩ | hr := s.registerQuery_cases w pk
  · rw [hr]
    exact .finished (h.tables rfl h.sound.step_refl) rfl
  obtain ⟨hl,hroom,hrange,_⟩ := h.lock hf
  have hnext : s.lockShm.q.getQuery s.lockShm.q.queries false =
      some (s.lockShm.q.queries+s.lockShm.q.offset) := by
    rw [hl.getQuery hrange (by omega),hl.offset]
    rfl
  have hreg := s.lockShm.registers_registerLocked w pk hl.sound hnext hm
  rw [hr]
  generalize s.lockShm.registerLocked w pk = r at hreg
  cases hreg with
  | finished hq ht hc => exact .finished (hl.tables hq ht) hc
  | query hx hq ht hhas hc =>
    refine .query (hl.append hroom hrange hx hq ht hhas) ?_ ?_ hc
    · rw [hq]
      exact hrange
    · rw [hq]
      simp [QueryStore.append,hx]

theorem Store.Holding.decideQuery (hr : s.q.queriesMax < uintMod) {p : Nat}
    (hm : (s.q.mem p).magic = true) (w : World) (pk : Packet) (clientID domainID : Nat) :
    (s.decideQuery w pk (some p) clientID domainID).2.Holding filled reserved ∧
      (s.decideQuery w pk (some p) clientID domainID).2.config = s.config := by
  have hw := (h.ready hm).decideQuery w pk clientID domainID
  exact ⟨h.works hr hm (s.touches_decideQuery w p pk clientID domainID) hw,hw.config⟩

theorem Store.Holding.newQuery (hf : s.Fits) (w : World) (pk : Packet)
    (hm : ∀ a, pk.managedBy = some a → a < s.t.numClients ∧
      (s.t.clients a).flags.aliasclient = true) :
    (s.newQuery w pk).2.Holding filled reserved ∧ (s.newQuery w pk).2.config = s.config := by
  have hreg := h.registerQuery hf w pk hm
  unfold Store.newQuery
  generalize s.registerQuery w pk = r at hreg
  cases hreg with
  | finished h' hc => exact ⟨h',hc⟩
  | query h' hr hp hc =>
    obtain ⟨hd,hdc⟩ := h'.decideQuery hr hp w pk _ _
    exact ⟨hd,hdc.trans hc⟩

theorem Store.Holding.resumeQuery (hf : s.Fits) (w : World) (pk : Packet) (clientID domainID : Nat)
    (hwaddr : Option (List Nat)) :
    (s.resumeQuery w pk clientID domainID hwaddr).2.Holding filled reserved ∧
      (s.resumeQuery w pk clientID domainID hwaddr).2.config = s.config := by
  obtain ⟨hl,_,hrange,_⟩ := h.lock hf
  unfold Store.resumeQuery
  extract_lets a client client' b id
  have hb : b.Holding filled reserved ∧ b.q = s.lockShm.q ∧ b.config = s.config := by
    unfold b
    split
    · refine ⟨hl.tables rfl (hl.sound.setClient_same ?_ ?_),rfl,rfl⟩
      · cases hwaddr <;> rfl
      · cases hwaddr <;> rfl
    · exact ⟨hl,rfl,rfl⟩
  obtain ⟨hb,hq,hc⟩ := hb
  cases hp : (b.q.findQueryID id).bind (fun i => b.q.getQuery i true) with
  | none => exact ⟨hb,hc⟩
  | some p =>
    have hm : (b.q.mem p).magic = true := by
      obtain ⟨i,_,hi⟩ := Option.bind_eq_some_iff.mp hp
      unfold QueryStore.getQuery at hi
      simp only [Bool.true_and] at hi
      split at hi
      · cases hi
      split at hi
      · cases hi
      · rename_i hmagic
        cases hi
        simpa using hmagic
    obtain ⟨hd,hdc⟩ := hb.decideQuery (by rw [hq]; exact hrange) hm w pk clientID domainID
    exact ⟨hd,hdc.trans hc⟩

end

end

attribute [local simp] Tables.has QueryStore.setQuery

section

theorem Tables.aliasclientOf_some {t : Tables} {managedBy : Option Nat} {a : Nat}
    (h : t.aliasclientOf managedBy = some a) :
    a < t.numClients ∧ (t.clients a).flags.aliasclient = true := by
  obtain ⟨_,hp⟩ := Option.filter_eq_some_iff.mp h
  simp only [Bool.and_eq_true,decide_eq_true_eq] at hp
  obtain ⟨hlt,hany⟩ := hp
  unfold getClient at hany
  split at hany
  · exact ⟨hlt,by simpa using hany⟩
  · simp at hany

theorem Tables.Sound.importQuery {t : Tables} (h : t.Sound) (w : World) (g : Gravity)
    (managedBy : Option Nat) (r : HistoryRow) (q : HistoryQuery) :
    let i := t.importQuery w g managedBy r q
    t.Step i.2 (Ref.one (.domain i.1.1)+Ref.one (.client i.1.2)) ∧
      i.2.has (.domain i.1.1) = true ∧ i.2.has (.client i.1.2) = true := by
  unfold Tables.importQuery
  extract_lets timeidx d c c₀ a b d₀ i
  obtain ⟨hd,hdlt,_⟩ := h.findDomainID q.domain true
  obtain ⟨hc,hclt⟩ := hd.sound.findClientID w g
    (fun a (ha : d.2.aliasclientOf managedBy = some a) => Tables.aliasclientOf_some ha)
    q.client r.timestamp
  have ha : c.2.Step a 0 := hc.sound.setClient_same rfl rfl
  have hb : c.2.Step b 0 := ha.then (ha.sound.changeClientcount_zero c.1 0 (some timeidx) 1)
  have hlast : c.2.Step i.2 0 := hb.then (hb.sound.setDomain_same rfl rfl)
  refine ⟨hd.trans (hc.before hlast),?_,?_⟩
  · exact hlast.has _ (hc.has _ (by simpa using hdlt))
  · exact hlast.has _ (by simpa using hclt)

/-- What the parts of the import that follow the status leave alone in a query. -/
structure QueriesData.Amended (x y : QueriesData) : Prop where
  magic : y.magic = x.magic
  status : y.status = x.status
  reply : y.reply = x.reply
  type : y.type = x.type
  upstreamID : y.upstreamID = x.upstreamID

structure Store.Amends (p : Nat) (s s' : Store) : Prop where
  query : ∃ y, s'.q = s.q.setQuery p y ∧ (s.q.mem p).Amended y
  tables : s.t.Step s'.t (fun r =>
    credit QueriesData.refers (s'.q.mem p) r-credit QueriesData.refers (s.q.mem p) r)
  ready : s'.Ready p
  config : s'.config = s.config

variable {s s' : Store} {p : Nat}

theorem Store.Ready.amends_refl (h : s.Ready p) : Amends p s s := by
  refine ⟨⟨s.q.mem p,by simp [setQuery],⟨rfl,rfl,rfl,rfl,rfl⟩⟩,?_,h,rfl⟩
  exact h.sound.step_refl.congr fun r _ => by simp

theorem Store.Ready.amend {y : QueriesData} {t : Tables} {n : Ref} (h : s.Ready p)
    (hy : (s.q.mem p).Amended y) (ht : s.t.Step t (Ref.one n)) (hn : t.has n = true)
    (hr : ∀ r, y.refers r = true ↔ (s.q.mem p).refers r = true ∨ r = n)
    (hold : (s.q.mem p).refers n = false) :
    Store.Amends p s (({ s with t := t } : Store).modifyQuery p (fun _ => y)) := by
  have hmem : ((({ s with t := t } : Store).modifyQuery p (fun _ => y)).q.mem p) = y := by
    simp [Store.modifyQuery]
  refine ⟨⟨y,rfl,hy⟩,?_,⟨ht.sound,fun r hyr => ?_⟩,rfl⟩
  · rw [hmem]
    refine ht.congr fun r _ => ?_
    by_cases hrn : r = n
    · subst hrn
      have hyr := (hr r).mpr (.inr rfl)
      simp [credit,Ref.one,hyr,hold]
    have hyr : y.refers r = (s.q.mem p).refers r := by
      rw [Bool.eq_iff_iff,hr r]
      simp [hrn]
    simp [credit,Ref.one,hyr,hrn]
  · rw [hmem] at hyr
    obtain hx | rfl := (hr r).mp hyr
    · exact ht.has r (h.has r hx)
    · exact hn

theorem Store.Ready.importCname (h : s.Ready p) (hc : (s.q.mem p).cnameDomainID = none)
    (timestamp : ℚ) (text : List Char) : Store.Amends p s (s.importCname p timestamp text) := by
  obtain ⟨hd,hlt,hm⟩ := h.sound.findDomainID text false
  unfold Store.importCname
  generalize s.t.findDomainID text false = d at *
  have hcount := hd.sound.countCname hlt hm (f := fun x => { x with
    lastQuery := timestamp, cnameRefcount := x.cnameRefcount+1 }) (fun _ => rfl) fun _ => rfl
  refine h.amend (n := .cname d.1) (y := { s.q.mem p with cnameDomainID := some d.1 })
    ⟨rfl,rfl,rfl,rfl,rfl⟩ (hd.then hcount) ?_ (fun r => ?_) (by simp [QueriesData.refers,hc])
  · exact hcount.has _ (by simpa using hlt)
  cases r with
  | cname j =>
    simp [hc]
    exact eq_comm
  | _ => simp

theorem Store.Ready.importListID (h : s.Ready p) (hk : (s.q.mem p).cacheID = none)
    (listID : Int) : Store.Amends p s (s.importListID p listID) := by
  obtain ⟨k,hfst,hfind,hlt,hm⟩ := h.sound.findCacheID (s.q.mem p).domainID (s.q.mem p).clientID
    (s.q.mem p).type
  have hcount := hfind.sound.countCache hlt hm (f := fun x => { x with
    refcount := x.refcount+1, listID := listID }) (fun _ => rfl) fun _ => rfl
  unfold Store.importListID
  simp only [hfst]
  refine h.amend (n := .cache k) (y := { s.q.mem p with cacheID := some k })
    ⟨rfl,rfl,rfl,rfl,rfl⟩ (hfind.then hcount) ?_ (fun r => ?_) (by simp [QueriesData.refers,hk])
  · exact hcount.has _ (by simpa using hlt)
  cases r with
  | cache j =>
    simp [hk]
    exact eq_comm
  | _ => simp

theorem Store.Ready.importInfo (h : s.Ready p) (hk : (s.q.mem p).cacheID = none)
    (hc : (s.q.mem p).cnameDomainID = none) (r : HistoryRow) (status : QueryStatus) :
    Store.Amends p s (s.importInfo p r status) := by
  unfold Store.importInfo
  split
  · exact h.amends_refl
  split
  · exact h.amends_refl
  · split
    · exact h.importCname hc _ _
    · exact h.importListID hk _

theorem Store.importInfo_flags (s : Store) (p : Nat) (r : HistoryRow) (status : QueryStatus) :
    ((s.importInfo p r status).q.mem p).flags = (s.q.mem p).flags := by
  unfold importInfo
  split
  · rfl
  split
  · rfl
  · split
    · simp [importCname,modifyQuery,setQuery]
    · simp [importListID,modifyQuery,setQuery]

section

variable (h : s.Ready p)
include h

theorem Store.Ready.countUpstream (hu : ∀ u, (s.q.mem p).upstreamID = some u → u < s.t.numUpstreams)
    (hf : (s.q.mem p).flags.upstreamCounted = false) (timestamp : ℚ) :
    Store.Amends p s (s.countUpstream p timestamp) := by
  unfold Store.countUpstream
  split
  · exact h.amends_refl
  rename_i u hup
  have hlt := hu u hup
  have hm := h.sound.upstreams u hlt
  have hcount : s.t.Step (s.t.setUpstream u { s.t.upstreams u with
      lastQuery := timestamp, count := (s.t.upstreams u).count+1 }) (Ref.one (.upstream u)) := by
    refine (h.sound.setUpstream (u := { s.t.upstreams u with
      lastQuery := timestamp, count := (s.t.upstreams u).count+1 }) hm hlt).congr fun r _ => ?_
    simp [Ref.one]
  have hget : s.t.getUpstream u = some (s.t.upstreams u) := by
    simp [Tables.getUpstream,hm]
  simp only [hget]
  refine h.amend (n := .upstream u) (y := { s.q.mem p with
    flags := { (s.q.mem p).flags with upstreamCounted := true } })
    ⟨rfl,rfl,rfl,rfl,rfl⟩ hcount ?_ (fun r => ?_) (by simp [QueriesData.refers,hf])
  · exact hcount.has _ (by simpa using hlt)
  cases r with
  | upstream j =>
    simp [hf,hup]
    exact eq_comm
  | _ => simp

theorem Store.Ready.countBlocked_amends (domainID clientID : Option Nat) :
    Amends p s (s.countBlocked p domainID clientID) := by
  have hw := h.countBlocked domainID clientID
  exact ⟨⟨_,rfl,⟨rfl,rfl,rfl,rfl,rfl⟩⟩,hw.tables,hw.ready h,hw.config⟩

theorem Store.Ready.initStatus (st : QueryStatus) :
    (s.querySetStatus p st true).q = s.q.setStatus p st true ∧
      s.t.Step (s.querySetStatus p st true).t 0 ∧
      (s.querySetStatus p st true).config = s.config := by
  unfold Store.querySetStatus
  simp only [Bool.true_eq_false,and_false,if_false,if_true]
  exact ⟨trivial,h.sound.modifySlot _ _,trivial⟩

theorem Store.Ready.importStatus (hu : ∀ u, (s.q.mem p).upstreamID = some u → u < s.t.numUpstreams)
    (hf : (s.q.mem p).flags.upstreamCounted = false) (r : HistoryRow) (st : QueryStatus) :
    ∃ y, (s.q.mem p).Amended { y with status := (s.q.mem p).status } ∧ y.status = st ∧
      (s.importStatus p r st).q = (s.q.setStatus p st true).setQuery p y ∧
      s.t.Step (s.importStatus p r st).t (fun r =>
        credit QueriesData.refers y r-credit QueriesData.refers (s.q.mem p) r) ∧
      (∀ n, y.refers n = true → (s.importStatus p r st).t.has n = true) ∧
      (s.importStatus p r st).config = s.config := by
  obtain ⟨hq,ht,hc⟩ := h.initStatus st
  have hmem : ((s.querySetStatus p st true).q.mem p) = { s.q.mem p with status := st } := by
    rw [hq]
    simp [QueryStore.setStatus]
  have hrefers : ((s.querySetStatus p st true).q.mem p).refers = (s.q.mem p).refers := by
    rw [hmem]
    exact QueriesData.refers_congr rfl rfl rfl rfl rfl rfl
  have hready : (s.querySetStatus p st true).Ready p := by
    refine ⟨ht.sound,fun n hn => ht.has n (h.has n ?_)⟩
    rw [← hrefers]
    exact hn
  -- whichever case follows, it amends the query
  have hall : ∀ s', Store.Amends p (s.querySetStatus p st true) s' →
      ∃ y, (s.q.mem p).Amended { y with status := (s.q.mem p).status } ∧ y.status = st ∧
        s'.q = (s.q.setStatus p st true).setQuery p y ∧
        s.t.Step s'.t (fun r =>
          credit QueriesData.refers y r-credit QueriesData.refers (s.q.mem p) r) ∧
        (∀ n, y.refers n = true → s'.t.has n = true) ∧ s'.config = s.config := by
    intro s' ha
    obtain ⟨y,hy,hamended⟩ := ha.query
    have hy' : s'.q.mem p = y := by rw [hy]; simp
    rw [hmem] at hamended
    refine ⟨y,⟨hamended.magic,rfl,hamended.reply,hamended.type,hamended.upstreamID⟩,
      hamended.status,?_,?_,fun n hn => ha.ready.has n ?_,ha.config.trans hc⟩
    · rw [hy,hq]
    · refine (ht.then ha.tables).congr fun n _ => ?_
      rw [hy']
      simp [credit,hrefers]
    · rw [hy']
      exact hn
  unfold Store.importStatus
  extract_lets a
  split
  · exact hall _ (hready.countBlocked_amends _ _)
  split
  · refine hall _ (hready.countUpstream (fun u hup => ?_) ?_ _)
    · rw [hmem] at hup
      have := ht.has (.upstream u) (by simpa using hu u hup)
      simpa using this
    · rw [hmem]
      exact hf
  · exact hall _ hready.amends_refl

end

theorem importedQuery_refers {old : QueriesData} (hf : old.flags.upstreamCounted = false)
    (r : HistoryRow) (q : HistoryQuery) (id domainID clientID : Nat) (upstreamID : Option Nat)
    (n : Ref) : (importedQuery old r q id domainID clientID upstreamID).refers n = true ↔
      n = .domain domainID ∨ n = .client clientID := by
  cases n <;> simp [importedQuery,hf] <;> exact eq_comm

theorem credit_importedQuery {old : QueriesData} (hf : old.flags.upstreamCounted = false)
    (r : HistoryRow) (q : HistoryQuery) (id domainID clientID : Nat) (upstreamID : Option Nat) :
    credit refers (importedQuery old r q id domainID clientID upstreamID) =
      Ref.one (.domain domainID)+Ref.one (.client clientID) := by
  funext n
  simp only [credit,importedQuery_refers hf,Pi.add_apply,Ref.one]
  cases n <;> simp

theorem Store.Holding.importRow {filled reserved : Nat} (h : s.Holding filled reserved)
    (hrange : s.q.queriesMax < uintMod) (hlt : filled < reserved) (w : World)
    (managedBy : Option Nat) (r : HistoryRow) (q : HistoryQuery) {upstreamID : Option Nat}
    (hup : ∀ u, upstreamID = some u → u < s.t.numUpstreams) :
    (s.importRow w managedBy r q upstreamID filled).Holding (filled+1) reserved ∧
      (s.importRow w managedBy r q upstreamID filled).config = s.config := by
  have hroom := h.room
  have hreserve := h.reserve
  have hrange' : s.q.queriesMax < 4294967296 := hrange
  have hget : s.q.getQuery filled false = some filled := h.getQuery hrange (by omega) false
  have hunused := h.unwritten hlt
  have hblank := h.blank filled hunused
  obtain ⟨hi,hdom,hcl⟩ := h.sound.importQuery w s.gravity managedBy r q
  unfold Store.importRow
  simp only [hget]
  generalize s.t.importQuery w s.gravity managedBy r q = i at hi hdom hcl ⊢
  generalize hx : importedQuery (s.q.mem filled) r q s.q.queries i.1.1 i.1.2 upstreamID = x
  have hxr : ∀ n, x.refers n = true ↔ n = .domain i.1.1 ∨ n = .client i.1.2 := by
    rw [← hx]
    exact importedQuery_refers hblank r q _ _ _ _
  have hcredit : credit QueriesData.refers x = Ref.one (.domain i.1.1)+Ref.one (.client i.1.2) := by
    rw [← hx]
    exact credit_importedQuery hblank r q _ _ _ _
  -- the record with its client and its domain
  generalize ha : ({ s with q := s.q.importQuery filled x, t := i.2 } : Store) = a
  have hamem : a.q.mem filled = x := by
    rw [← ha]
    simp [QueryStore.importQuery]
  have hready : a.Ready filled := by
    subst ha
    refine ⟨hi.sound,fun n hn => ?_⟩
    rw [hamem] at hn
    obtain rfl | rfl := (hxr n).mp hn
    · exact hdom
    · exact hcl
  have hinfo : Store.Amends filled a (a.importInfo filled r q.status) := by
    refine hready.importInfo ?_ ?_ r q.status
    · rw [hamem,← hx]
      rfl
    · rw [hamem,← hx]
      rfl
  have hflags := a.importInfo_flags filled r q.status
  -- the additional information
  generalize a.importInfo filled r q.status = b at hinfo hflags
  obtain ⟨y,hbq,hy⟩ := hinfo.query
  have hbmem : b.q.mem filled = y := by
    rw [hbq]
    simp
  rw [hamem] at hy hflags
  have hsteps : s.t.Step b.t (credit QueriesData.refers y) := by
    have hat : s.t.Step a.t (credit QueriesData.refers x) := by
      rw [hcredit,← ha]
      exact hi
    refine (hat.trans hinfo.tables).congr fun n _ => ?_
    simp [hamem,hbmem]
  have hupstream : ∀ u, (b.q.mem filled).upstreamID = some u → u < b.t.numUpstreams := by
    intro u hu
    rw [hbmem,hy.upstreamID,← hx] at hu
    have hhas := hsteps.has (.upstream u) (by simpa using hup u hu)
    simpa using hhas
  have hcounted : (b.q.mem filled).flags.upstreamCounted = false := by
    rw [hflags,← hx]
    exact hblank
  -- the status
  obtain ⟨z,hz,hzs,hzq,hzt,hzh,hzc⟩ :=
    hinfo.ready.importStatus hupstream hcounted r q.status
  generalize b.importStatus filled r q.status = c at hzq hzt hzh hzc
  rw [hbmem] at hz hzt
  have hzx : z.magic = true ∧ z.reply = x.reply ∧ z.type = x.type := by
    refine ⟨?_,hz.reply.trans hy.reply,hz.type.trans hy.type⟩
    rw [show z.magic = y.magic from hz.magic,hy.magic,← hx]
    rfl
  have hcq : c.q = { s.q with
      mem := update s.q.mem filled z
      status := increment s.q.status z.status
      reply := increment s.q.reply z.reply
      querytype := increment s.q.querytype z.type } := by
    rw [hzq,hbq,← ha,hzs,hzx.2.1,hzx.2.2]
    simp [QueryStore.setStatus,QueryStore.importQuery]
  have hslot : filled+s.q.offset = filled := by rw [h.offset,Nat.add_zero]
  have hperm : c.q.initialised.Perm (z :: s.q.initialised) := by
    have hold := QueryStore.initialised_unwritten (q := s.q) (i := filled) (by omega)
      (by rw [hslot]; exact hunused)
    have hnew := QueryStore.initialised_update (q := s.q) (i := filled) (x := z) (by omega)
      hzx.1 (show c.q.queries = s.q.queries by rw [hcq]) (show c.q.offset = s.q.offset by rw [hcq])
      (by rw [hcq,hslot])
    exact hnew.trans (hold.symm.cons z)
  have hlen := QueryStore.length_others_lt (q := s.q) (i := filled) (by omega)
  have hlen' : s.q.initialised.length = (s.q.others filled).length :=
    (QueryStore.initialised_unwritten (by omega) (by rw [hslot]; exact hunused)).length_eq
  refine ⟨h.write ?_ ?_ (by omega) ?_ (fun j => ?_) (show c.q.mem = _ by rw [hcq]) hzx.1 hperm
    (h.tallied.cons (by omega) (by rw [hcq]) (by rw [hcq]) (by rw [hcq])) ?_ hzh,?_⟩
  · rw [hcq]
    exact hroom
  · rw [hcq]
    exact h.offset
  · rw [hcq]
    exact hreserve
  · rw [hcq]
    dsimp only
    by_cases hj : j = filled
    · subst hj
      simp [hzx.1]
    · rw [update_of_ne hj,h.used]
      omega
  · refine (hsteps.trans hzt).congr fun n _ => ?_
    simp
  · rw [hzc,hinfo.config,← ha]

end

section

/-- Tables in which nothing has been counted, with no clients but alias-clients. -/
structure Tables.Unused (t : Tables) : Prop where
  sound : t.Sound
  heads : ∀ i < t.numClients, (t.clients i).flags.aliasclient = true
  zero : ∀ r, t.count r = 0

theorem Tables.unused_empty : Tables.empty.Unused := by
  refine ⟨⟨⟨rfl,rfl,rfl⟩,?_,?_,?_,?_,?_,fun r _ => ?_,fun _ => rfl⟩,?_,fun r => ?_⟩
  · intro i hi
    cases hi
  · intro i hi
    cases hi
  · intro i hi
    cases hi
  · intro i hi
    cases hi
  · intro i hi
    cases hi
  · cases r <;> exact ⟨rfl,rfl⟩
  · intro i hi
    cases hi
  · cases r <;> rfl

attribute [local simp] Tables.setClient

theorem Tables.Unused.setClient {t : Tables} (h : t.Unused) {id : Nat} {c : ClientsData}
    (hid : id < t.numClients) (hflag : c.flags.aliasclient = true) (hzero : c.count = 0) :
    (t.setClient id c).Unused := by
  have halias : ∀ i < t.numClients, ((t.setClient id c).clients i).flags.aliasclient = true := by
    intro i hi
    by_cases hi' : i = id
    · simp [hi',hflag]
    · simpa [hi'] using h.heads i hi
  have hcount : ∀ r, (t.setClient id c).count r = 0 := by
    intro r
    have hr := h.zero r
    cases r with
    | client i => by_cases hi : i = id <;> simp_all [Tables.count]
    | _ => exact hr
  refine ⟨⟨h.sound.recycled,h.sound.clientsLookup,h.sound.domainsLookup,h.sound.cacheLookup,
    h.sound.upstreams,?_,fun r hr => ⟨hcount r,?_⟩,h.sound.remembered⟩,halias,hcount⟩
  · intro i hi hfl
    rw [halias i hi] at hfl
    cases hfl
  cases r with
  | client i =>
    have hi : ¬ i < t.numClients := of_decide_eq_false hr
    have hne : i ≠ id := by omega
    have hord := (h.sound.unused (.client i) (by simpa using hi)).2
    simpa [Tables.ordinary,hne] using hord
  | _ => rfl

theorem Tables.Unused.createClient {t : Tables} (h : t.Unused) {c : ClientsData}
    (hflag : c.flags.aliasclient = true) (hzero : c.count = 0) :
    ({ t with
      clients := update t.clients t.numClients c
      clientsLookup := t.numClients :: t.clientsLookup
      clientsRecycle := []
      numClients := t.numClients+1 } : Tables).Unused := by
  have halias : ∀ i < t.numClients+1,
      (update t.clients t.numClients c i).flags.aliasclient = true := by
    intro i hi
    by_cases hi' : i = t.numClients
    · rw [hi',update_self]
      exact hflag
    · rw [update_of_ne hi']
      exact h.heads i (by omega)
  have hcount : ∀ r, ({ t with
      clients := update t.clients t.numClients c
      clientsLookup := t.numClients :: t.clientsLookup
      clientsRecycle := []
      numClients := t.numClients+1 } : Tables).count r = 0 := by
    intro r
    have hr := h.zero r
    cases r with
    | client i => by_cases hi : i = t.numClients <;> simp_all [count]
    | _ => exact hr
  refine ⟨⟨⟨rfl,h.sound.recycled.2⟩,lookup_cons h.sound.clientsLookup,
    h.sound.domainsLookup,h.sound.cacheLookup,h.sound.upstreams,?_,fun r hr => ⟨hcount r,?_⟩,
    h.sound.remembered⟩,halias,hcount⟩
  · intro i hi hfl
    rw [halias i hi] at hfl
    cases hfl
  cases r with
  | client i =>
    have hi : ¬ i < t.numClients+1 := by simpa using hr
    have hne : i ≠ t.numClients := by omega
    have hord := (h.sound.unused (.client i) (by simp; omega)).2
    simpa [ordinary,hne] using hord
  | _ => rfl

theorem Tables.Unused.importAliasclient {t : Tables} (h : t.Unused) (now : ℚ)
    (row : Nat × List Char) : (t.importAliasclient now row).Unused := by
  unfold Tables.importAliasclient
  simp only [h.sound.recycled.1,getNextFreeID]
  split
  · rename_i hf
    exact h.setClient (Tables.mem_find hf h.sound.clientsLookup).1 rfl rfl
  · exact h.createClient rfl rfl

theorem Tables.unused_importAliasclients (now : ℚ) (rows : List (Nat × List Char)) :
    (importAliasclients now rows).Unused := by
  have hall : ∀ t : Tables, t.Unused →
      (rows.foldl (fun t row => t.importAliasclient now row) t).Unused := by
    induction rows with
    | nil => exact fun _ h => h
    | cons row rows ih => exact fun t h => ih _ (h.importAliasclient now row)
  exact hall _ unused_empty

theorem getOptimalObjectSize_ge {pagesize minsize : Nat} (hp : 0 < pagesize)
    (hlt : pagesize < 4294967296) (hm : minsize < 2^31) (objsize : Nat) :
    minsize ≤ SharedMemory.getOptimalObjectSize pagesize objsize minsize := by
  unfold SharedMemory.getOptimalObjectSize
  rw [SharedMemory.gcd_eq]
  extract_lets optsize
  have hpos : 0 < optsize :=
    Nat.div_pos (Nat.gcd_le_left _ hp) (Nat.gcd_pos_of_pos_left _ hp)
  have hle : optsize ≤ pagesize := Nat.div_le_self _ _
  split
  · have hmem := (SharedMemory.isLeast_multiplier (m := minsize) hpos).1.1
    have hmul : SharedMemory.multiplier optsize minsize*optsize ≤ minsize+optsize := by
      have hdiv := Nat.div_mul_le_self minsize optsize
      unfold SharedMemory.multiplier
      split <;> rw [Nat.add_mul] <;> omega
    rwa [Nat.mod_eq_of_lt (by omega)]
  · omega

theorem Store.holding_open {s : Store} (hmem : ∀ i, s.q.mem i = .wiped) (ho : s.q.offset = 0)
    (hroom : s.q.queries < s.q.queriesMax) (hs : s.q.status = fun _ => 0)
    (hr : s.q.reply = fun _ => 0) (hty : s.q.querytype = fun _ => 0) (ht : s.t.Unused) :
    s.Holding 0 s.q.queries := by
  have hi : s.q.initialised = [] := by
    unfold initialised QueryStore.live
    simp [hmem,wiped]
  refine ⟨ho,hroom,Nat.zero_le _,Nat.le_refl _,fun i => ?_,fun i _ => ?_,?_,ht.sound,?_,?_⟩
  · rw [hmem]
    simp [wiped]
  · rw [hmem]
    rfl
  · rw [hi]
    refine ⟨?_,?_,?_⟩
    · rw [hs]
      exact Counts.nil
    · rw [hr]
      exact Counts.nil
    · rw [hty]
      exact Counts.nil
  · rw [hi]
    exact fun r _ => ht.zero r
  · rw [hi]
    intro x hx
    cases hx

theorem Store.holding_countQueriesOnDisk {s : Store} (hq : s.q = .empty s.config.pagesize)
    (ht : s.t.Unused) (objsize : Nat) {answer : Int} (hint : answer < 2^31) :
    (s.countQueriesOnDisk objsize answer).2.Holding 0 (s.countQueriesOnDisk objsize answer).1 ∧
      (s.countQueriesOnDisk objsize answer).2.config = s.config := by
  have hp := s.config.pagesizePos
  unfold countQueriesOnDisk
  by_cases hneg : answer < 0
  · rw [if_pos hneg]
    have hopen : s.Holding 0 s.q.queries := by
      refine holding_open (fun _ => ?_) ?_ ?_ ?_ ?_ ?_ ht <;> rw [hq]
      · rfl
      · rfl
      · exact hp
      · rfl
      · rfl
      · rfl
    rw [show s.q.queries = 0 by rw [hq]; rfl] at hopen
    exact ⟨hopen,rfl⟩
  obtain ⟨m,hm,hroom⟩ := ensureSize_front (q := .empty s.config.pagesize) rfl hp hp
  have hge := getOptimalObjectSize_ge hp s.config.pagesizeLt
    (show answer.toNat < 2^31 by omega) objsize
  have hlock : s.lockShm.q = { QueryStore.empty s.config.pagesize with queriesMax := m } := by
    unfold lockShm
    rw [hq]
    exact hm
  rw [if_neg hneg]
  refine ⟨?_,rfl⟩
  dsimp only
  rw [hlock]
  refine holding_open (fun _ => rfl) rfl ?_ rfl rfl rfl ht
  show answer.toNat < m+if answer.toNat = 1 then s.config.pagesize else
    SharedMemory.getOptimalObjectSize s.config.pagesize objsize answer.toNat
  split <;> omega

theorem ImportSetup.start_holding (u : ImportSetup) :
    u.start.store.Holding 0 u.start.counted ∧ u.start.store.config = u.config :=
  holding_countQueriesOnDisk rfl (unused_importAliasclients u.now u.aliasclients)
    u.objsize u.answerLt

end

def importableRows (ignoreLocalhost : Bool) (rows : List HistoryRow) : Nat :=
  rows.countP (fun r => r.importable ignoreLocalhost)

structure HistoryImport.Inv (u : ImportSetup) (s : HistoryImport) : Prop where
  config : s.store.config = u.config
  counted : s.counted = u.start.counted
  holding : s.store.Holding (min s.imported s.counted) s.counted
  reading : s.phase = .reading → s.imported ≤ s.counted ∧
    s.imported+importableRows u.config.ignoreLocalhost s.rows =
      importableRows u.config.ignoreLocalhost u.rows
  finished : s.phase = .finished → min s.imported s.counted =
    min (importableRows u.config.ignoreLocalhost u.rows) s.counted

section

variable {u : ImportSetup} {s : HistoryImport}

theorem HistoryImport.Inv.arrive (h : s.Inv u) {store : Store}
    (hs : store.Holding (min s.imported s.counted) s.counted ∧ store.config = s.store.config) :
    ({ s with store := store } : HistoryImport).Inv u :=
  ⟨hs.2.trans h.config,h.counted,hs.1,h.reading,h.finished⟩

theorem Tables.Sound.importUpstream {t : Tables} (h : t.Sound) (forward : Option (List Char)) :
    t.Step (t.importUpstream forward).2 0 ∧
      ∀ u, (t.importUpstream forward).1 = some u → u < (t.importUpstream forward).2.numUpstreams := by
  unfold Tables.importUpstream
  split
  · exact ⟨h.step_refl,fun u hu => by cases hu⟩
  · exact ⟨h.step_refl,fun u hu => by cases hu⟩
  obtain ⟨hstep,hlt⟩ := h.findUpstreamID (scanUpstreamText _).1 (scanUpstreamText _).2
  refine ⟨hstep,fun u hu => ?_⟩
  cases hu
  exact hlt

theorem HistoryImport.Inv.storeRow (h : s.Inv u) (hf : s.store.Fits) (hp : s.phase = .reading)
    (w : World) (managedBy : Option Nat) {r : HistoryRow} {q : HistoryQuery}
    {rest : List HistoryRow} (hrows : s.rows = r :: rest)
    (hq : r.check u.config.ignoreLocalhost = some q) :
    (s.storeRow w managedBy r q rest).Inv u := by
  obtain ⟨hle,hsum⟩ := h.reading hp
  obtain ⟨hl,_,hrange,_⟩ := h.holding.lock hf
  obtain ⟨hup,hlt⟩ := hl.sound.importUpstream r.forward
  have hheld : ({ s.store.lockShm with t := (s.store.lockShm.t.importUpstream r.forward).2 } :
      Store).Holding (min s.imported s.counted) s.counted := hl.tables rfl hup
  have hconfig : s.store.lockShm.config = u.config := h.config
  unfold HistoryImport.storeRow
  extract_lets a v store
  rw [hrows] at hsum
  split
  · rename_i hneg
    have hskip : r.importable u.config.ignoreLocalhost = false := by
      simp [HistoryRow.importable,hneg]
    refine ⟨hconfig,h.counted,hheld,fun _ => ⟨hle,?_⟩,fun hfin => ?_⟩
    · simpa [importableRows,hskip] using hsum
    · rw [hp] at hfin
      cases hfin
  rename_i hneg
  have htake : r.importable u.config.ignoreLocalhost = true := by
    simp [HistoryRow.importable,hneg,hq]
  have hcons : importableRows u.config.ignoreLocalhost (r :: rest) =
      importableRows u.config.ignoreLocalhost rest+1 := by
    simp [importableRows,htake]
  split
  · refine ⟨hconfig,h.counted,?_,fun hr => (by cases hr),fun _ => ?_⟩
    · rw [show min (s.imported+1) s.counted = min s.imported s.counted by omega]
      exact hheld
    · show min (s.imported+1) s.counted = min _ s.counted
      omega
  have hmin : min s.imported s.counted = s.imported := by omega
  rw [hmin] at hheld
  obtain ⟨hrow,hrc⟩ := hheld.importRow hrange (by omega) w managedBy r q hlt
  refine ⟨hrc.trans hconfig,h.counted,?_,fun _ => ⟨?_,?_⟩,fun hfin => ?_⟩
  · rw [show min (s.imported+1) s.counted = s.imported+1 by omega]
    exact hrow
  · show s.imported+1 ≤ s.counted
    omega
  · show s.imported+1+importableRows _ rest = _
    omega
  · rw [hp] at hfin
    cases hfin

theorem HistoryImport.Inv.next (h : s.Inv u) (hf : s.store.Fits) (hp : s.phase = .reading)
    (w : World) (managedBy : Option Nat) : (s.next w managedBy).Inv u := by
  obtain ⟨hle,hsum⟩ := h.reading hp
  unfold HistoryImport.next
  split
  · rename_i hrows
    refine ⟨h.config,h.counted,h.holding,fun hr => (by cases hr),fun _ => ?_⟩
    rw [hrows] at hsum
    rw [← hsum]
    rfl
  rename_i r rest hrows
  rw [h.config]
  split
  · rename_i hq
    have hskip : r.importable u.config.ignoreLocalhost = false := by
      simp [HistoryRow.importable,hq]
    refine ⟨h.config,h.counted,h.holding,fun _ => ⟨hle,?_⟩,fun hfin => ?_⟩
    · rw [hrows] at hsum
      simpa [importableRows,hskip] using hsum
    · rw [hp] at hfin
      cases hfin
  · rename_i hq
    exact h.storeRow hf hp w managedBy hrows hq

theorem HistoryImport.Inv.step (h : s.Inv u) (hf : s.store.Fits) (e : ImportEvent) :
    (s.step e).Inv u := by
  have hm : ∀ (pk : Packet) (a : Nat), (s.packet pk).managedBy = some a →
      a < s.store.t.numClients ∧ (s.store.t.clients a).flags.aliasclient = true :=
    fun pk a ha => aliasclientOf_some ha
  cases e with
  | next w managedBy =>
    simp only [HistoryImport.step]
    split
    · rename_i hp
      exact h.next hf hp w managedBy
    · exact h
  | newQuery w pk => exact h.arrive (h.holding.newQuery hf w (s.packet pk) (hm pk))
  | registerQuery w pk =>
    refine h.arrive ?_
    have hreg := h.holding.registerQuery hf w (s.packet pk) (hm pk)
    generalize s.store.registerQuery w (s.packet pk) = r at hreg
    cases hreg with
    | finished hs hc | query hs _ _ hc => exact ⟨hs,hc⟩
  | resumeQuery w pk clientID domainID hwaddr =>
    exact h.arrive (h.holding.resumeQuery hf w pk clientID domainID hwaddr)
  | stop =>
    simp only [HistoryImport.step]
    split
    · exact ⟨h.config,h.counted,h.holding,fun hr => (by cases hr),fun hr => (by cases hr)⟩
    · exact h

theorem ImportSetup.start_inv (u : ImportSetup) : u.start.Inv u := by
  obtain ⟨hs,hc⟩ := u.start_holding
  refine ⟨hc,rfl,?_,fun _ => ⟨Nat.zero_le _,Nat.zero_add _⟩,fun hr => (by cases hr)⟩
  exact hs

def HistoryImport.fitsRun (s : HistoryImport) : List ImportEvent → Bool
  | [] => decide s.store.Fits
  | e :: events => decide s.store.Fits && (s.step e).fitsRun events

theorem HistoryImport.Inv.run (h : s.Inv u) (events : List ImportEvent)
    (hf : s.fitsRun events = true) : (s.run events).Inv u ∧ (s.run events).store.Fits := by
  induction events generalizing s with
  | nil => exact ⟨h,of_decide_eq_true hf⟩
  | cons e events ih =>
    simp only [HistoryImport.fitsRun,Bool.and_eq_true,decide_eq_true_eq] at hf
    exact ih (h.step hf.1 e) hf.2

end

/-- What a store is expected to be while nothing is in progress. -/
structure Store.Consistent (s : Store) : Prop where
  initialised : ∀ i < s.q.queries, (s.q.getQuery i true).isSome = true
  status : (QueryStatus.all.map (fun st => (s.q.status st).toNat)).sum = s.q.queries
  reply : (ReplyType.all.map (fun r => (s.q.reply r).toNat)).sum = s.q.queries
  type : (QueryType.all.map (fun t => (s.q.querytype t).toNat)).sum = s.q.queries
  references : ∀ r, s.t.ordinary r = true →
    s.t.count r = s.q.live.countP (fun x => x.refers r)

namespace Store

variable {s : Store} {filled reserved : Nat}

theorem Fits.queriesMax (hf : s.Fits) : s.q.queriesMax < uintMod := by
  have hle : s.q.queriesMax ≤ s.lockShm.q.queriesMax := by
    unfold Store.lockShm
    obtain ⟨_,hq⟩ | ⟨q₀,h₀,hq⟩ := s.q.ensureSize_cases s.config.pagesize
    · exact le_of_eq (congrArg QueryStore.queriesMax hq).symm
    have hmax : q₀.queriesMax = s.q.queriesMax := by
      obtain ⟨h₀,_⟩ | h₀ := h₀
      · rw [h₀]
      · rw [h₀]
        rfl
    obtain ⟨_,hq⟩ | hq := hq
    · exact le_of_eq ((congrArg QueryStore.queriesMax hq).trans hmax).symm
    · rw [hq,hmax]
      exact Nat.le_add_right _ _
  exact Nat.lt_of_le_of_lt hle hf

theorem Holding.consistent (h : s.Holding reserved reserved)
    (hr : s.q.queriesMax < uintMod) : s.Consistent := by
  have hroom := h.room
  have hmagic : ∀ i < s.q.queries, (s.q.mem i).magic = true := by
    intro i hi
    exact (h.used i).mpr (by omega)
  have hall : s.q.initialised = s.q.live := by
    refine List.filter_eq_self.mpr fun x hx => ?_
    obtain ⟨i,hi,rfl⟩ := List.mem_map.mp hx
    rw [h.offset]
    exact hmagic i (List.mem_range.mp hi)
  obtain ⟨hs,hrep,ht⟩ := h.tallied
  have hlen : s.q.initialised.length = s.q.queries := by rw [hall,s.q.length_live]
  refine ⟨fun i hi => ?_,?_,?_,?_,fun r ho => ?_⟩
  · rw [h.getQuery hr (by omega),hmagic i hi]
    rfl
  · rw [hs.sum _ QueryStatus.mem_all QueryStatus.nodup_all,hlen]
  · rw [hrep.sum _ ReplyType.mem_all ReplyType.nodup_all,hlen]
  · rw [ht.sum _ QueryType.mem_all QueryType.nodup_all,hlen]
  · rw [h.balanced r ho,hall]

theorem Holding.not_consistent (h : s.Holding filled reserved)
    (hr : s.q.queriesMax < uintMod) (hlt : filled < reserved) : ¬ s.Consistent := by
  intro hc
  have hroom := h.room
  have hreserve := h.reserve
  have hunused := h.unwritten hlt
  have hsome := hc.initialised filled (by omega)
  rw [h.getQuery hr (by omega),hunused] at hsome
  cases hsome

end Store

/-- Whatever queries arrive meanwhile, the import leaves a consistent store exactly if it found at
least as many rows as were counted before. -/
theorem import_leaves_consistent_store (u : ImportSetup) (events : List ImportEvent)
    (hf : u.start.fitsRun events = true) (hdone : (u.start.run events).phase = .finished) :
    (u.start.run events).store.Consistent ↔
      u.start.counted ≤ importableRows u.config.ignoreLocalhost u.rows := by
  obtain ⟨hinv,hfits⟩ := u.start_inv.run events hf
  have hmin := hinv.finished hdone
  have hheld := hinv.holding
  rw [hmin,hinv.counted] at hheld
  constructor
  · intro hc
    by_contra hlt
    exact hheld.not_consistent hfits.queriesMax (by omega) hc
  intro hle
  rw [show min (importableRows u.config.ignoreLocalhost u.rows) u.start.counted =
    u.start.counted by omega] at hheld
  exact hheld.consistent hfits.queriesMax

def HistoryRow.of (client domain : String) (status : Int) (timestamp : ℚ) : HistoryRow :=
  ⟨timestamp,1,status,some domain.toList,some client.toList,some "8.8.8.8#53".toList,none,4,
    some 0,0⟩

def importSample (rows : List HistoryRow) (h : (rows.length : Int) < 2^31) : ImportSetup where
  config := { Config.default with ignoreLocalhost := true, rateLimitCount := 0 }
  gravity := .load World.plain.engine .empty
  statics := .initial
  aliasclients := [(7,"phones".toList)]
  now := 1600000000
  objsize := 96
  answer := rows.length
  answerLt := h
  rows := rows

def importSampleEvents : List ImportEvent :=
  [.next .plain (some 0),.newQuery .plain (.of "10.0.0.2" "example.com" 1 1600000100),
   .next .plain none,.next .plain none]

theorem import_leaves_consistent_store_sample :
    ((importSample [.of "10.0.0.2" "example.com" 2 1600000000,
      .of "10.0.0.3" "example.org" 1 1600000050] (by decide)).start.run
        importSampleEvents).store.Consistent :=
  (import_leaves_consistent_store _ importSampleEvents (by decide +kernel)
    (by decide +kernel)).mpr (by decide +kernel)

/-- A stored query of the host itself is skipped, but its slot stays reserved. -/
theorem skipped_row_leaves_a_gap :
    let s := (importSample [.of "127.0.0.1" "example.com" 2 1600000000] (by decide)).start.run
      [.next .plain none,.next .plain none]
    s.phase = .finished ∧ s.store.q.queries = 1 ∧ s.store.q.status .forwarded = 0 ∧
      ¬ s.store.Consistent := by
  refine ⟨by decide,by decide,by decide,fun h => ?_⟩
  have hsome := h.initialised 0 (by decide)
  revert hsome
  decide

end Lorentz
