import Lorentz.LinkingTables

/-!
What the rows of the in-memory database show, as long as the marks in the shared memory and the
cache of `addinfo_by_id` name the right rows.
-/

set_option autoImplicit false

namespace Lorentz
open Function Tables Intern

structure View where
  timestamp : ℚ
  type : Nat
  status : QueryStatus
  domain : Option (List Char)
  client : Option (List Char × List Char)
  forward : Option (List Char)
  additionalInfo : Option Addinfo
  reply : ReplyType
  response : Option ℚ
  dnssec : DnssecStatus
  listID : Option Int
  ede : Int
  deriving DecidableEq, Repr

def Links.view (k : Links) (r : Row) : View where
  timestamp := r.timestamp
  type := r.type
  status := r.status
  domain := k.domains.content r.domain
  client := k.clients.content r.client
  forward := k.forwards.content (r.forward.getD 0)
  additionalInfo := k.addinfos.content (r.additionalInfo.getD 0)
  reply := r.reply
  response := r.response
  dnssec := r.dnssec
  listID := r.listID
  ede := r.ede

def Tables.forwardOf (t : Tables) (x : QueriesData) : Option (List Char) :=
  (x.upstreamID.bind t.getUpstream).bind UpstreamsData.text

def Tables.additionalInfoOf (t : Tables) (x : QueriesData) : Option Addinfo :=
  if isCname x.status then some (.cnameDomain (t.getCNAMEDomainString x))
  else (t.listID x).map .listID

def Tables.viewOf (t : Tables) (x : QueriesData) : View where
  timestamp := x.timestamp
  type := if x.type ≠ .other then x.type.index else x.qtype+100
  status := x.status
  domain := (t.getDomain x.domainID).map (fun _ => t.getDomainString x)
  client := (t.getClient x.clientID).map (fun _ => t.getClientStrings x)
  forward := t.forwardOf x
  additionalInfo := t.additionalInfoOf x
  reply := x.reply
  response := if x.flags.responseCalculated then some x.response else none
  dnssec := x.dnssec
  listID := t.listID x
  ede := x.ede

/-- The tables without what they remember of the linking tables. -/
def Tables.unlinked (t : Tables) : Tables :=
  { t with
    domains := fun i => { t.domains i with inDatabase := false, dbID := 0 }
    clients := fun i => { t.clients i with inDatabase := false, dbID := 0 }
    upstreams := fun i => { t.upstreams i with inDatabase := false, dbID := 0 } }

abbrev Tables.Relinked (t t' : Tables) : Prop := t'.unlinked = t.unlinked

namespace Tables

variable {t t' : Tables}

theorem getDomain_unlinked (t : Tables) (i : Nat) : t.unlinked.getDomain i =
    (t.getDomain i).map (fun d => { d with inDatabase := false, dbID := 0 }) := by
  unfold Tables.getDomain unlinked
  split <;> rfl

theorem getClient_unlinked (t : Tables) (i : Nat) : t.unlinked.getClient i =
    (t.getClient i).map (fun c => { c with inDatabase := false, dbID := 0 }) := by
  unfold Tables.getClient unlinked
  split <;> rfl

theorem getUpstream_unlinked (t : Tables) (i : Nat) : t.unlinked.getUpstream i =
    (t.getUpstream i).map (fun u => { u with inDatabase := false, dbID := 0 }) := by
  unfold Tables.getUpstream unlinked
  split <;> rfl

theorem domainText_unlinked (t : Tables) (level : PrivacyLevel) (i : Nat) :
    t.unlinked.domainText level i = t.domainText level i := by
  unfold Tables.domainText
  rw [getDomain_unlinked]
  cases t.getDomain i <;> simp

theorem cnameText_unlinked (t : Tables) (level : PrivacyLevel) (c : Option Nat) :
    t.unlinked.cnameText level c = t.cnameText level c := by
  cases c with
  | none => rfl
  | some c => exact t.domainText_unlinked level c

theorem clientText_unlinked (t : Tables) (level : PrivacyLevel) (i : Nat) :
    t.unlinked.clientText level i = t.clientText level i := by
  unfold Tables.clientText
  rw [getClient_unlinked]
  cases t.getClient i <;> simp

theorem listID_unlinked (t : Tables) (x : QueriesData) : t.unlinked.listID x = t.listID x := by
  have hfind : (t.unlinked.findCacheID x.domainID x.clientID x.type false).1 =
      (t.findCacheID x.domainID x.clientID x.type false).1 := by
    unfold Tables.findCacheID
    rw [show t.unlinked.getDNSCache = t.getDNSCache from rfl,
      show t.unlinked.cacheLookup = t.cacheLookup from rfl]
    simp only [Bool.not_false,if_true]
    split <;> rfl
  unfold Tables.listID
  rw [hfind]
  rfl

theorem viewOf_unlinked (t : Tables) (x : QueriesData) : t.unlinked.viewOf x = t.viewOf x := by
  have hcname : t.unlinked.getCNAMEDomainString x = t.getCNAMEDomainString x :=
    t.cnameText_unlinked _ _
  have hforward : t.unlinked.forwardOf x = t.forwardOf x := by
    unfold Tables.forwardOf
    cases x.upstreamID with
    | none => rfl
    | some i =>
      simp only [Option.bind_some,getUpstream_unlinked]
      cases t.getUpstream i <;> rfl
  unfold Tables.viewOf Tables.additionalInfoOf Tables.getDomainString Tables.getClientStrings
  rw [getDomain_unlinked,getClient_unlinked,domainText_unlinked,clientText_unlinked,hcname,hforward,
    listID_unlinked]
  simp [Function.comp_def]

theorem Relinked.viewOf (h : t.Relinked t') (x : QueriesData) : t'.viewOf x = t.viewOf x := by
  rw [← viewOf_unlinked t',h,viewOf_unlinked]

end Tables

structure Links.Extends (k k' : Links) : Prop where
  domains : k.domains.Extends k'.domains
  clients : k.clients.Extends k'.clients
  forwards : k.forwards.Extends k'.forwards
  addinfos : k.addinfos.Extends k'.addinfos

theorem Links.Extends.refl (k : Links) : k.Extends k :=
  ⟨Intern.Extends.refl _,Intern.Extends.refl _,Intern.Extends.refl _,Intern.Extends.refl _⟩

theorem Links.Extends.trans {k k' k'' : Links} (h : k.Extends k') (h' : k'.Extends k'') :
    k.Extends k'' :=
  ⟨h.domains.trans h'.domains,h.clients.trans h'.clients,h.forwards.trans h'.forwards,
    h.addinfos.trans h'.addinfos⟩

/-- The marks in the shared memory and the cache of `addinfo_by_id` name rows with the texts that
queries of this privacy level show, as far as `xs` need them. -/
structure Linking.Linked (level : PrivacyLevel) (xs : List QueriesData) (s : Linking) : Prop where
  domain : ∀ x ∈ xs, ∀ d ∈ s.t.getDomain x.domainID, d.inDatabase = true →
    s.links.domains.content d.dbID = some (s.t.domainText level x.domainID)
  client : ∀ x ∈ xs, ∀ c ∈ s.t.getClient x.clientID, c.inDatabase = true →
    s.links.clients.content c.dbID = some (s.t.clientText level x.clientID)
  forward : ∀ x ∈ xs, ∀ u ∈ x.upstreamID.bind s.t.getUpstream, u.inDatabase = true →
    s.links.forwards.content u.dbID = u.text
  unlinked : ∀ x ∈ xs, ∀ u ∈ x.upstreamID.bind s.t.getUpstream,
    u.inDatabase = false ∨ u.text = none → u.dbID = 0
  cname : ∀ x ∈ xs, ∀ k < ADDINFO_CACHE_SLOTS, (s.addinfoIDs k).2 ≠ 0 →
    (s.addinfoIDs k).1 = addinfoPack .cnameDomain (keyOf x.cnameDomainID) →
    s.links.addinfos.content (s.addinfoIDs k).2 =
      some (.cnameDomain (s.t.cnameText level x.cnameDomainID))
  list : ∀ k < ADDINFO_CACHE_SLOTS, (s.addinfoIDs k).2 ≠ 0 → (s.addinfoIDs k).1 % 4 = 2 →
    s.links.addinfos.content (s.addinfoIDs k).2 = some (.listID ((s.addinfoIDs k).1/4))

/-- From `s` to `s'` rows were added and remembered, and all statements succeeded. -/
structure Linking.Step (level : PrivacyLevel) (xs : List QueriesData) (s s' : Linking) : Prop where
  relinked : s.t.Relinked s'.t
  links : s.links.Extends s'.links
  linked : s'.Linked level xs
  budget : s'.budget = none

section

variable {level : PrivacyLevel} {xs : List QueriesData} {s s' s'' : Linking}

theorem Linking.Step.trans (h : s.Step level xs s') (k : s'.Step level xs s'') :
    s.Step level xs s'' :=
  ⟨Eq.trans k.relinked h.relinked,h.links.trans k.links,k.linked,k.budget⟩

theorem Linking.Linked.step (h : s.Linked level xs) (hb : s.budget = none) : s.Step level xs s :=
  ⟨rfl,Links.Extends.refl _,h,hb⟩

theorem Linking.Linked.extend (h : s.Linked level xs) (hr : s.t.Relinked s'.t)
    (hk : s.links.Extends s'.links)
    (hd : ∀ i d, s'.t.getDomain i = some d → s.t.getDomain i = some d ∨
      s'.links.domains.content d.dbID = some (s.t.domainText level i))
    (hc : ∀ i c, s'.t.getClient i = some c → s.t.getClient i = some c ∨
      s'.links.clients.content c.dbID = some (s.t.clientText level i))
    (hu : ∀ i u, s'.t.getUpstream i = some u → s.t.getUpstream i = some u ∨
      u.inDatabase = true ∧ s'.links.forwards.Names u.dbID u.text)
    (ha : ∀ k, s'.addinfoIDs k = s.addinfoIDs k ∨
      (∃ c, s'.addinfoIDs k = (addinfoPack .cnameDomain (keyOf c),(s'.addinfoIDs k).2) ∧
        s'.links.addinfos.content (s'.addinfoIDs k).2 =
          some (.cnameDomain (s.t.cnameText level c))) ∨
      ∃ id, s'.addinfoIDs k = (addinfoPack .listID id,(s'.addinfoIDs k).2) ∧
        s'.links.addinfos.content (s'.addinfoIDs k).2 = some (.listID id)) :
    s'.Linked level xs := by
  have hforward : ∀ (x : QueriesData) u, x.upstreamID.bind s'.t.getUpstream = some u →
      x.upstreamID.bind s.t.getUpstream = some u ∨
        u.inDatabase = true ∧ s'.links.forwards.Names u.dbID u.text := by
    intro x u hx
    cases hid : x.upstreamID with
    | none => simp [hid] at hx
    | some i => exact hu i u (by simpa [hid] using hx)
  refine ⟨?_,?_,?_,?_,?_,?_⟩
  · intro x hx d hi hin
    rw [← domainText_unlinked s'.t,hr,domainText_unlinked]
    rcases hd _ d hi with hold | hnew
    · exact hk.domains _ _ (h.domain x hx d hold hin)
    · exact hnew
  · intro x hx c hi hin
    rw [← clientText_unlinked s'.t,hr,clientText_unlinked]
    rcases hc _ c hi with hold | hnew
    · exact hk.clients _ _ (h.client x hx c hold hin)
    · exact hnew
  · intro x hx u hi hin
    rcases hforward x u hi with hold | hnew
    · have hcontent := h.forward x hx u hold hin
      cases htext : u.text with
      | none =>
        rw [h.unlinked x hx u hold (.inr htext)]
        exact content_zero _
      | some text => exact hk.forwards _ _ (htext ▸ hcontent)
    · exact hnew.2.content_eq
  · intro x hx u hi hin
    rcases hforward x u hi with hold | ⟨hin',hnames⟩
    · exact h.unlinked x hx u hold hin
    rcases hin with hin | hin
    · rw [hin'] at hin
      cases hin
    · rw [hin] at hnames
      exact hnames
  · intro x hx k hlt hne hkey
    rw [← cnameText_unlinked s'.t,hr,cnameText_unlinked]
    rcases ha k with hold | ⟨c,hnew,hcontent⟩ | ⟨id,hnew,_⟩
    · rw [hold] at hne hkey ⊢
      exact hk.addinfos _ _ (h.cname x hx k hlt hne hkey)
    · rw [hnew] at hkey
      have hcc : c = x.cnameDomainID := by
        simp only [addinfoPack] at hkey
        cases c <;> cases hx : x.cnameDomainID <;> simp [keyOf,hx] at hkey ⊢ <;> omega
      rw [hcontent,hcc]
    · rw [hnew] at hkey
      simp only [addinfoPack,AddinfoType.value] at hkey
      omega
  · intro k hlt hne hkey
    rcases ha k with hold | ⟨c,hnew,_⟩ | ⟨id,hnew,hcontent⟩
    · rw [hold] at hne hkey ⊢
      exact hk.addinfos _ _ (h.list k hlt hne hkey)
    · rw [hnew] at hkey
      simp only [addinfoPack,AddinfoType.value] at hkey
      omega
    have hid : (s'.addinfoIDs k).1/4 = id := by
      rw [hnew]
      simp only [addinfoPack,AddinfoType.value]
      omega
    rw [hcontent,hid]

theorem Linking.insertOrIgnore_ok (hb : s.budget = none) {α : Type} [DecidableEq α]
    (table : Intern α) (a : α) (old : Nat) :
    s.insertOrIgnore table a old = some (s,table.link a) := by
  have hexec : s.exec = some s := by simp [Linking.exec,hb]
  simp [Linking.insertOrIgnore,hexec]

variable {t : Tables} {i : Nat} {u : UpstreamsData} (c : AddinfoCache) (packed : Int)
  {d : DomainsData} {α : Type}

variable {a : α} {f : Nat → α} {x : QueriesData} {r : Row} {v : View} {k : Links}

theorem access_eq {magic : α → Bool} {i : Nat}
    (h : (if magic (f i) then some (f i) else none) = some a) : f i = a := by
  split at h
  · exact Option.some.inj h
  · cases h

theorem access_of_update (magic : α → Bool) {i j : Nat} {x : α}
    (h : (if magic (update f i a j) then some (update f i a j) else none) = some x) :
    (if magic (f j) then some (f j) else none) = some x ∨ j = i ∧ x = a := by
  by_cases hj : j = i
  · subst hj
    exact .inr ⟨rfl,by rw [← access_eq h,update_self]⟩
  · rw [update_of_ne hj] at h
    exact .inl h

theorem comp_update {β : Type} (g : α → β) (f : Nat → α) (i : Nat) (h : g a = g (f i)) :
    (fun j => g (update f i a j)) = fun j => g (f j) := by
  funext j
  by_cases hj : j = i
  · subst hj
    rw [update_self,h]
  · rw [update_of_ne hj]

theorem Tables.relinked_setDomain (h : t.getDomain i = some d) (b : Bool) (n : Nat) :
    t.Relinked (t.setDomain i { d with inDatabase := b, dbID := n }) := by
  obtain rfl := access_eq h
  refine congrArg (fun f => { t.unlinked with domains := f })
    (comp_update (fun d : DomainsData => { d with inDatabase := false, dbID := 0 }) t.domains i ?_)
  rfl

theorem Tables.relinked_setClient {c : ClientsData} (h : t.getClient i = some c) (b : Bool)
    (n : Nat) : t.Relinked (t.setClient i { c with inDatabase := b, dbID := n }) := by
  obtain rfl := access_eq h
  refine congrArg (fun f => { t.unlinked with clients := f })
    (comp_update (fun c : ClientsData => { c with inDatabase := false, dbID := 0 }) t.clients i ?_)
  rfl

theorem Tables.relinked_setUpstream (h : t.getUpstream i = some u) (b : Bool) (n : Nat) :
    t.Relinked (t.setUpstream i { u with inDatabase := b, dbID := n }) := by
  obtain rfl := access_eq h
  refine congrArg (fun f => { t.unlinked with upstreams := f })
    (comp_update (fun u : UpstreamsData => { u with inDatabase := false, dbID := 0 }) t.upstreams i
      ?_)
  rfl

section

variable (h : s.Linked level xs)
include h

theorem Linking.linkDomain_step (hb : s.budget = none) (hmem : x ∈ xs) (hx : x.privacylevel = level) :
    ∃ s' id, s.linkDomain x = (s',some id) ∧ s.Step level xs s' ∧
      s'.links.domains.Names id ((s.t.getDomain x.domainID).map
        (fun _ => s.t.getDomainString x)) := by
  unfold Linking.linkDomain
  cases hd : s.t.getDomain x.domainID with
  | none => exact ⟨s,0,rfl,h.step hb,rfl⟩
  | some d =>
    have htext : s.t.getDomainString x = s.t.domainText level x.domainID := by
      rw [← hx]
      rfl
    cases hin : d.inDatabase with
    | true =>
      refine ⟨s,d.dbID,by simp [hin],h.step hb,?_⟩
      simp only [Option.map_some,Intern.Names,htext]
      exact h.domain x hmem d hd hin
    | false =>
      have hlink := s.links.domains.content_link (s.t.getDomainString x)
      have hk : s.links.Extends { s.links with
          domains := (s.links.domains.link (s.t.getDomainString x)).2 } :=
        ⟨extends_link _ _,Extends.refl _,Extends.refl _,Extends.refl _⟩
      have hr := relinked_setDomain hd true
        (s.links.domains.link (s.t.getDomainString x)).1
      simp only [hin,Bool.false_eq_true,if_false,Linking.insertOrIgnore_ok hb]
      refine ⟨_,_,rfl,⟨hr,hk,?_,hb⟩,hlink⟩
      refine h.extend hr hk (fun i d' hi => ?_) (fun _ _ hi => .inl hi) (fun _ _ hi => .inl hi)
        (fun _ => .inl rfl)
      obtain hold | ⟨rfl,rfl⟩ := access_of_update DomainsData.magic hi
      · exact .inl hold
      · exact .inr (htext ▸ hlink)

theorem Linking.linkClient_step (hb : s.budget = none) (hmem : x ∈ xs) (hx : x.privacylevel = level) :
    ∃ s' id, s.linkClient x = (s',some id) ∧ s.Step level xs s' ∧
      s'.links.clients.Names id
        ((s.t.getClient x.clientID).map (fun _ => s.t.getClientStrings x)) := by
  unfold Linking.linkClient
  cases hc : s.t.getClient x.clientID with
  | none => exact ⟨s,0,rfl,h.step hb,rfl⟩
  | some c =>
    have htext : s.t.getClientStrings x = s.t.clientText level x.clientID := by
      rw [← hx]
      rfl
    cases hin : c.inDatabase with
    | true =>
      refine ⟨s,c.dbID,by simp [hin],h.step hb,?_⟩
      simp only [Option.map_some,Intern.Names,htext]
      exact h.client x hmem c hc hin
    | false =>
      have hlink := s.links.clients.content_link (s.t.getClientStrings x)
      have hk : s.links.Extends { s.links with
          clients := (s.links.clients.link (s.t.getClientStrings x)).2 } :=
        ⟨Extends.refl _,extends_link _ _,Extends.refl _,Extends.refl _⟩
      have hr := relinked_setClient hc true
        (s.links.clients.link (s.t.getClientStrings x)).1
      simp only [hin,Bool.false_eq_true,if_false,Linking.insertOrIgnore_ok hb]
      refine ⟨_,_,rfl,⟨hr,hk,?_,hb⟩,hlink⟩
      refine h.extend hr hk (fun _ _ hi => .inl hi) (fun i c' hi => ?_) (fun _ _ hi => .inl hi)
        (fun _ => .inl rfl)
      obtain hold | ⟨rfl,rfl⟩ := access_of_update ClientsData.magic hi
      · exact .inl hold
      · exact .inr (htext ▸ hlink)

theorem Linking.Linked.setUpstream {i n : Nat} {u : UpstreamsData} (hu : s.t.getUpstream i = some u)
    {forwards : Intern (List Char)} (hk : s.links.forwards.Extends forwards)
    (hn : forwards.Names n u.text) (hb : s.budget = none) : s.Step level xs { s with
      links := { s.links with forwards := forwards }
      t := s.t.setUpstream i { u with inDatabase := true, dbID := n } } := by
  have hr := relinked_setUpstream hu true n
  have hk' : s.links.Extends { s.links with forwards := forwards } :=
    ⟨Extends.refl _,Extends.refl _,hk,Extends.refl _⟩
  refine ⟨hr,hk',?_,hb⟩
  refine h.extend hr hk' (fun _ _ hi => .inl hi) (fun _ _ hi => .inl hi) (fun j u' hj => ?_)
    (fun _ => .inl rfl)
  obtain hold | ⟨rfl,rfl⟩ := access_of_update UpstreamsData.magic hj
  · exact .inl hold
  · exact .inr ⟨rfl,hn⟩

theorem Linking.linkForward_step (hb : s.budget = none) (hmem : x ∈ xs) :
    ∃ s' o, s.linkForward x = (s',some o) ∧ s.Step level xs s' ∧
      s'.links.forwards.Names (o.getD 0) (s.t.forwardOf x) := by
  have hforward := h.forward x hmem
  have hunlinked := h.unlinked x hmem
  unfold Linking.linkForward forwardOf
  cases hid : x.upstreamID with
  | none => exact ⟨s,none,rfl,h.step hb,rfl⟩
  | some i =>
    rw [hid] at hforward hunlinked
    simp only [Option.bind_some] at hforward hunlinked ⊢
    cases hu : s.t.getUpstream i with
    | none => exact ⟨s,none,rfl,h.step hb,rfl⟩
    | some u =>
      simp only [Option.bind_some]
      cases hin : u.inDatabase with
      | true =>
        refine ⟨s,some u.dbID,by simp,h.step hb,?_⟩
        cases htext : u.text with
        | none => exact hunlinked u hu (.inr htext)
        | some text =>
          have hcontent := hforward u hu hin
          rw [htext] at hcontent
          exact hcontent
      | false =>
        cases htext : u.text with
        | none =>
          have hzero := hunlinked u hu (.inl hin)
          refine ⟨_,_,rfl,h.setUpstream hu (Extends.refl _) ?_ hb,hzero⟩
          rw [htext]
          exact hzero
        | some text =>
          simp only [Linking.insertOrIgnore_ok hb]
          have hlink := s.links.forwards.content_link text
          refine ⟨_,_,rfl,h.setUpstream hu (extends_link _ _) ?_ hb,hlink⟩
          rw [htext]
          exact hlink

end

theorem AddinfoCache.lookupFrom_ne_zero (n : Nat) :
    ∀ i < ADDINFO_CACHE_SLOTS, c.lookupFrom packed n i ≠ 0 →
      ∃ k < ADDINFO_CACHE_SLOTS, c k = (packed,c.lookupFrom packed n i) := by
  induction n with
  | zero =>
    intro i _ hne
    exact absurd rfl hne
  | succ n ih =>
    intro i hi hne
    unfold AddinfoCache.lookupFrom at hne ⊢
    split at hne
    · exact absurd rfl hne
    rename_i hz
    rw [if_neg hz]
    split at hne
    · rename_i hkey
      rw [if_pos hkey]
      exact ⟨i,hi,by rw [← hkey]⟩
    · rename_i hkey
      rw [if_neg hkey]
      exact ih _ (Nat.mod_lt _ (by decide)) hne

theorem AddinfoCache.slot_lt : AddinfoCache.slot packed < ADDINFO_CACHE_SLOTS := by
  unfold AddinfoCache.slot ADDINFO_CACHE_SLOTS
  omega

theorem AddinfoCache.storeFrom_cases (dbID n : Nat) :
    ∀ i k, c.storeFrom packed dbID n i k = c k ∨ c.storeFrom packed dbID n i k = (packed,dbID) := by
  induction n with
  | zero =>
    intro i k
    exact .inl rfl
  | succ n ih =>
    intro i k
    unfold AddinfoCache.storeFrom
    split
    · by_cases hk : k = i
      · subst hk
        exact .inr (update_self _ _ _)
      · exact .inl (update_of_ne hk _ _)
    · exact ih _ k

theorem Linking.linkAddinfo_step (h : s.Linked level xs) (hb : s.budget = none) {type : AddinfoType}
    {key : Int} {info : Addinfo}
    (hinfo : (∃ x ∈ xs, type = .cnameDomain ∧ key = keyOf x.cnameDomainID ∧
      info = .cnameDomain (s.t.cnameText level x.cnameDomainID)) ∨
      type = .listID ∧ info = .listID key) :
    ∃ s' id, s.linkAddinfo type key info = (s',some id) ∧ s.Step level xs s' ∧
      s'.links.addinfos.content id = some info := by
  unfold Linking.linkAddinfo
  simp only
  split
  · rename_i hne
    obtain ⟨k,hlt,hk⟩ := s.addinfoIDs.lookupFrom_ne_zero _ 8 _ (AddinfoCache.slot_lt _) hne
    refine ⟨s,_,rfl,h.step hb,?_⟩
    have hval : (s.addinfoIDs k).2 = s.addinfoIDs.lookupAddinfoID type key := by rw [hk]; rfl
    have hkey : (s.addinfoIDs k).1 = addinfoPack type key := by rw [hk]
    rw [← hval] at hne ⊢
    rcases hinfo with ⟨x,hx,rfl,rfl,rfl⟩ | ⟨rfl,rfl⟩
    · exact h.cname x hx k hlt hne hkey
    have hcontent := h.list k hlt hne (by
      rw [hkey]
      simp only [addinfoPack,AddinfoType.value]
      omega)
    have hdiv : (s.addinfoIDs k).1/4 = key := by
      rw [hkey]
      simp only [addinfoPack,AddinfoType.value]
      omega
    rwa [hdiv] at hcontent
  simp only [Linking.insertOrIgnore_ok hb]
  have hlink := s.links.addinfos.content_link info
  have hk : s.links.Extends { s.links with addinfos := (s.links.addinfos.link info).2 } :=
    ⟨Extends.refl _,Extends.refl _,Extends.refl _,extends_link _ _⟩
  refine ⟨_,_,rfl,⟨rfl,hk,?_,hb⟩,hlink⟩
  refine h.extend rfl hk (fun _ _ hi => .inl hi) (fun _ _ hi => .inl hi)
    (fun _ _ hi => .inl hi) ?_
  intro k
  rcases s.addinfoIDs.storeFrom_cases (addinfoPack type key) (s.links.addinfos.link info).1 8
    (AddinfoCache.slot (addinfoPack type key)) k with hsame | hnew
  · exact .inl hsame
  right
  have hnew' : s.addinfoIDs.storeAddinfoID type key (s.links.addinfos.link info).1 k =
    (addinfoPack type key,(s.links.addinfos.link info).1) := hnew
  dsimp only
  rw [hnew']
  rcases hinfo with ⟨x,_,rfl,rfl,rfl⟩ | ⟨rfl,rfl⟩
  · exact .inl ⟨x.cnameDomainID,rfl,hlink⟩
  · exact .inr ⟨key,rfl,hlink⟩

theorem Linking.linkInfo_step (h : s.Linked level xs) (hb : s.budget = none) (hmem : x ∈ xs)
    (hx : x.privacylevel = level) : ∃ s' o, s.linkInfo x = (s',some o) ∧ s.Step level xs s' ∧
      o ≠ some 0 ∧ s'.links.addinfos.Names (o.getD 0) (s.t.additionalInfoOf x) := by
  have hpos {t : Intern Addinfo} {id info} (h : t.content id = some info) : some id ≠ some 0 := by
    rintro ⟨⟩
    rw [content_zero] at h
    cases h
  unfold Linking.linkInfo additionalInfoOf
  cases isCname x.status with
  | true =>
    obtain ⟨s',id,hlink,hstep,hcontent⟩ :=
      Linking.linkAddinfo_step h hb (.inl ⟨x,hmem,rfl,rfl,rfl⟩)
    have htext : s.t.getCNAMEDomainString x = s.t.cnameText level x.cnameDomainID := by
      rw [← hx]
      rfl
    refine ⟨s',some id,?_,hstep,hpos hcontent,?_⟩
    · simp only [if_true,htext,hlink]
      rfl
    · simp only [if_true,htext]
      exact hcontent
  | false =>
    cases s.t.listID x with
    | none => exact ⟨s,none,rfl,h.step hb,nofun,rfl⟩
    | some id =>
      obtain ⟨s',aid,hlink,hstep,hcontent⟩ := Linking.linkAddinfo_step h hb (.inr ⟨rfl,rfl⟩)
      exact ⟨s',some aid,by simp only [hlink]; rfl,hstep,hpos hcontent,hcontent⟩

structure Row.Shows (k : Links) (r : Row) (v : View) : Prop where
  fields : r.timestamp = v.timestamp ∧ r.type = v.type ∧ r.status = v.status ∧ r.reply = v.reply ∧
    r.response = v.response ∧ r.dnssec = v.dnssec ∧ r.listID = v.listID ∧ r.ede = v.ede
  domain : k.domains.Names r.domain v.domain
  client : k.clients.Names r.client v.client
  forward : k.forwards.Names (r.forward.getD 0) v.forward
  additionalInfo : k.addinfos.Names (r.additionalInfo.getD 0) v.additionalInfo

theorem Row.Shows.view (h : r.Shows k v) : k.view r = v := by
  obtain ⟨⟨h₁,h₂,h₃,h₄,h₅,h₆,h₇,h₈⟩,hd,hc,hf,ha⟩ := h
  unfold Links.view
  rw [hd.content_eq,hc.content_eq,hf.content_eq,ha.content_eq,h₁,h₂,h₃,h₄,h₅,h₆,h₇,h₈]

theorem Row.Shows.extends {k' : Links} (h : r.Shows k v) (hk : k.Extends k') : r.Shows k' v :=
  ⟨h.fields,h.domain.extends hk.domains,h.client.extends hk.clients,h.forward.extends hk.forwards,
    h.additionalInfo.extends hk.addinfos⟩

theorem Linking.linkQuery_step (h : s.Linked level xs) (hb : s.budget = none) (hmem : x ∈ xs)
    (hx : x.privacylevel = level) : ∃ s' row, s.linkQuery x = (s',some row) ∧ s.Step level xs s' ∧
      row.Shows s'.links (s.t.viewOf x) := by
  obtain ⟨s₁,domain,h₁,step₁,hdomain⟩ := s.linkDomain_step h hb hmem hx
  obtain ⟨s₂,client,h₂,step₂,hclient⟩ := s₁.linkClient_step step₁.linked step₁.budget hmem hx
  obtain ⟨s₃,forward,h₃,step₃,hforward⟩ := s₂.linkForward_step step₂.linked step₂.budget hmem
  obtain ⟨s₄,info,h₄,step₄,hne,hinfo⟩ := s₃.linkInfo_step step₃.linked step₃.budget hmem hx
  have r₁ := step₁.relinked.viewOf x
  have r₂ := (step₁.trans step₂).relinked.viewOf x
  have step₁₃ := (step₁.trans step₂).trans step₃
  have r₃ := step₁₃.relinked.viewOf x
  have r₄ := (step₁₃.trans step₄).relinked.viewOf x
  refine ⟨s₄,_,by simp only [Linking.linkQuery,h₁,h₂,h₃,h₄]; rfl,step₁₃.trans step₄,?_⟩
  refine ⟨⟨rfl,rfl,rfl,rfl,rfl,rfl,?_,rfl⟩,?_,?_,?_,?_⟩
  · simp only [hne,decide_false,Bool.and_false,Bool.false_eq_true,if_false]
    exact congrArg View.listID r₄
  · exact ((hdomain.extends step₂.links.domains).extends step₃.links.domains).extends
      step₄.links.domains
  · have hv : (s₁.t.getClient x.clientID).map (fun _ => s₁.t.getClientStrings x) =
      (s.t.viewOf x).client := congrArg View.client r₁
    rw [hv] at hclient
    exact (hclient.extends step₃.links.clients).extends step₄.links.clients
  · have hv : s₂.t.forwardOf x = (s.t.viewOf x).forward := congrArg View.forward r₂
    rw [hv] at hforward
    exact hforward.extends step₄.links.forwards
  · have hv : s₃.t.additionalInfoOf x = (s.t.viewOf x).additionalInfo :=
      congrArg View.additionalInfo r₃
    rw [hv] at hinfo
    have hfilter : info.filter (0 < ·) = info := by
      cases info with
      | none => rfl
      | some id =>
        have hid : id ≠ 0 := by simpa using hne
        exact Option.filter_some_pos (decide_eq_true (Nat.pos_of_ne_zero hid))
    exact hfilter.symm ▸ hinfo

end

end Lorentz
