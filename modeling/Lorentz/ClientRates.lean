import Lorentz.ClientRecords
import Lorentz.System
import Lorentz.Library.Monitor

/-!
The rate limit of the clients: counting in `_Lorentz_new_query`, `reset_rate_limiting`, and
`runGC`, which may wipe a record in between.
-/

set_option autoImplicit false

namespace Lorentz
open Function Tables ClientsData Store

def ClientsData.resetRate (c : ClientsData) (limit : Nat) : ClientsData :=
  { c with
    flags := { c.flags with rateLimited := c.flags.rateLimited && decide (c.rateLimit > limit) }
    rateLimit := 0 }

def Tables.resetRateLimiting (t : Tables) (limit : Nat) : Tables :=
  { t with
    clients := fun i =>
      let c := t.clients i
      if i < t.numClients && c.magic then c.resetRate limit else c }

/-- `reset_rate_limiting`, with the lock its caller takes. -/
def Store.resetRateLimiting (s : Store) : Store :=
  let s := s.lockShm
  { s with t := s.t.resetRateLimiting s.config.rateLimitCount }

def Store.refuses (s : Store) (w : World) (pk : Packet) : Bool :=
  match s.registerQuery w pk with
  | (.finished true,s) => s.statics.blockingreason = "Rate-limiting"
  | _ => false

/-- The system with the number of queries of each address not refused since the last
`reset_rate_limiting`. -/
structure Throttle where
  system : System
  processed : List Char → Nat

inductive ThrottleEvent where
  | newQuery (w : World) (pk : Packet)
  | registerQuery (w : World) (pk : Packet)
  | resumeQuery (w : World) (pk : Packet) (clientID domainID : Nat) (hwaddr : Option (List Nat))
  | gcStart (now : Int)
  | gcFinish (clock : ℚ)
  | gcFlush (now : Int) (clock : ℚ)
  | resetRateLimiting

namespace Throttle

def initial (cfg : Config) (w : World) (db : GravityDb) : Throttle :=
  ⟨.initial cfg w db,fun _ => 0⟩

def count (s : Throttle) (w : World) (pk : Packet) : List Char → Nat :=
  let client := pk.client s.system.store.config
  if client.2 || s.system.store.refuses w pk then s.processed
  else update s.processed client.1 (s.processed client.1+1)

def step (s : Throttle) : ThrottleEvent → Throttle
  | .newQuery w pk => ⟨s.system.step (.newQuery w pk),s.count w pk⟩
  | .registerQuery w pk => ⟨s.system.step (.registerQuery w pk),s.count w pk⟩
  | .resumeQuery w pk clientID domainID hwaddr =>
    { s with system := s.system.step (.resumeQuery w pk clientID domainID hwaddr) }
  | .gcStart now => { s with system := s.system.step (.gcStart now) }
  | .gcFinish clock => { s with system := s.system.step (.gcFinish clock) }
  | .gcFlush now clock => { s with system := s.system.step (.gcFlush now clock) }
  | .resetRateLimiting =>
    ⟨{ s.system with store := s.system.store.resetRateLimiting },fun _ => 0⟩

end Throttle

/-- The query gets to the rate limit: not for the engine's own name, nor one from localhost that
is left alone. -/
def Packet.checked (pk : Packet) (cfg : Config) : Bool :=
  let ip := (pk.client cfg).1
  !(pk.type ≠ .none && pk.localName) &&
    !(cfg.ignoreLocalhost && (ip = "127.0.0.1".toList || ip = "::1".toList))

def Tables.spares (t : Tables) : Bool :=
  t.clientsLookup.all (fun i =>
    let c := t.clients i
    !c.idle || (c.rateLimit = 0 && !c.flags.rateLimited))

/-- The queries get to the rate limit, and no client counted or refused since the last
`reset_rate_limiting` is dropped. -/
def Throttle.allowed (s : Throttle) : ThrottleEvent → Bool
  | .newQuery _ pk | .registerQuery _ pk =>
    (pk.client s.system.store.config).2 || pk.checked s.system.store.config
  | .gcFinish _ => s.system.gc.isNone || s.system.store.t.spares
  | .gcFlush now _ =>
    let store := s.system.store.lockShm
    (store.gcRemove (gcMintime store.config now true)).1.t.spares
  | .resumeQuery _ _ _ _ _ | .gcStart _ | .resetRateLimiting => true

structure Tables.Within (t : Tables) (limit : Nat) (processed : List Char → Nat) : Prop where
  listed : t.Listed
  known : ∀ i ip, t.clientKey i = some ip → processed ip ≤ limit ∧
    ((t.clients i).flags.rateLimited = false →
      processed ip ≤ (t.clients i).rateLimit ∧ (t.clients i).rateLimit ≤ limit)
  unknown : ∀ ip, (∀ i, t.clientKey i ≠ some ip) → processed ip = 0

section

variable {t t' : Tables} {limit i : Nat} {processed : List Char → Nat} {ip : List Char}

theorem Tables.Within.le (h : t.Within limit processed) (ip : List Char) :
    processed ip ≤ limit := by
  by_cases hk : ∃ i, t.clientKey i = some ip
  · obtain ⟨i,hi⟩ := hk
    exact (h.known i ip hi).1
  · rw [h.unknown ip fun i hi => hk ⟨i,hi⟩]
    exact Nat.zero_le limit

theorem Tables.Within.same (h : t.Within limit processed) (hs : t.SameClients t') :
    t'.Within limit processed := by
  refine ⟨hs.listed h.listed,fun i ip hi => ?_,fun ip hno => h.unknown ip fun i hi => hno i ?_⟩
  · rw [hs.clientKey] at hi
    rw [hs.rateLimited,hs.rateLimit]
    exact h.known i ip hi
  · rwa [hs.clientKey]

theorem ClientsData.limitRate_within (c : ClientsData) (h0 : 0 < limit)
    (hmax : limit+1 < uintMod) (internal : Bool) {n : Nat} (hn : n ≤ limit)
    (hc : c.flags.rateLimited = false → n ≤ c.rateLimit ∧ c.rateLimit ≤ limit) :
    let l := c.limitRate limit internal
    let n' := if internal || l.1 then n else n+1
    n' ≤ limit ∧ (l.2.flags.rateLimited = false → n' ≤ l.2.rateLimit ∧ l.2.rateLimit ≤ limit) := by
  cases internal with
  | true => simpa [limitRate] using ⟨hn,hc⟩
  | false =>
    cases hf : c.flags.rateLimited with
    | true => simpa [limitRate,h0,hf] using hn
    | false =>
      obtain ⟨hle,hlim⟩ := hc hf
      have hmod : (c.rateLimit+1) % uintMod = c.rateLimit+1 := Nat.mod_eq_of_lt (by omega)
      by_cases hover : c.rateLimit+1 > limit
      · simpa [limitRate,h0,hf,hmod,hover] using hn
      have hl : c.limitRate limit false = (false,{ c with rateLimit := c.rateLimit+1 }) := by
        simp [limitRate,h0,hf,hmod,hover]
      simp only [hl,Bool.or_self,Bool.false_eq_true,if_false]
      exact ⟨by omega,fun _ => ⟨by omega,by omega⟩⟩

theorem ClientsData.limitRate_owner (c : ClientsData) (limit : Nat) (internal : Bool) :
    (c.limitRate limit internal).2.magic = c.magic ∧ (c.limitRate limit internal).2.ip = c.ip := by
  unfold limitRate
  extract_lets counted rate
  split <;> exact ⟨rfl,rfl⟩

theorem Tables.Within.write {processed' : List Char → Nat} {c : ClientsData} (hl : t.Listed)
    (hi : t.clientKey i = some ip) (hm : c.magic = (t.clients i).magic)
    (hip : c.ip = (t.clients i).ip)
    (hknown : ∀ j a, a ≠ ip → t.clientKey j = some a → processed a ≤ limit ∧
      ((t.clients j).flags.rateLimited = false →
        processed a ≤ (t.clients j).rateLimit ∧ (t.clients j).rateLimit ≤ limit))
    (hunknown : ∀ a, a ≠ ip → (∀ j, t.clientKey j ≠ some a) → processed a = 0)
    (hp : ∀ a, a ≠ ip → processed' a = processed a)
    (hc : processed' ip ≤ limit ∧
      (c.flags.rateLimited = false → processed' ip ≤ c.rateLimit ∧ c.rateLimit ≤ limit)) :
    (t.setClient i c).Within limit processed' := by
  have hkey := clientKey_setClient hm hip
  refine ⟨hl.setClient hm hip,fun j a hj => ?_,fun a hno => ?_⟩
  · rw [hkey] at hj
    by_cases ha : a = ip
    · have hji := hl.inj j i ip (ha ▸ hj) hi
      simpa [setClient,ha,hji] using hc
    have hji : j ≠ i := by
      rintro rfl
      exact ha (Option.some.inj (hj.symm.trans hi))
    rw [hp a ha]
    simpa [setClient,hji] using hknown j a ha hj
  · have ha : a ≠ ip := fun ha => hno i (by rw [hkey,ha,hi])
    rw [hp a ha]
    exact hunknown a ha fun j hj => hno j (by rw [hkey,hj])

theorem Tables.Within.limitRate {f : Nat × Tables} (h : t.Within limit processed)
    (hf : t.Finds ip f) (h0 : 0 < limit) (hmax : limit+1 < uintMod) (internal : Bool) :
    let l := (f.2.clients f.1).limitRate limit internal
    (f.2.setClient f.1 l.2).Within limit
      (if internal || l.1 then processed else update processed ip (processed ip+1)) := by
  intro l
  have hother : ∀ a, a ≠ ip → (if internal || l.1 then processed
      else update processed ip (processed ip+1)) a = processed a := by
    intro a ha
    split <;> simp [ha]
  have hself : (if internal || l.1 then processed else update processed ip (processed ip+1)) ip =
      if internal || l.1 then processed ip else processed ip+1 := by
    split <;> simp
  obtain ⟨hm,hip⟩ := (f.2.clients f.1).limitRate_owner limit internal
  cases hf with
  | @known i hkey =>
    have hs := (SameClients.refl t).changeClientcount i 1 0 none 0
    have hw := h.same hs
    rw [← hs.clientKey] at hkey
    refine Within.write hw.listed hkey hm hip
      (fun j a _ hj => hw.known j a hj) (fun a _ hno => hw.unknown a hno) hother ?_
    obtain ⟨hn,hc⟩ := hw.known i ip hkey
    rw [hself]
    exact limitRate_within _ h0 hmax internal hn hc
  | @made i t' hno hl hunused hi hlabel =>
    have hmagic : (t'.clients i).magic = true := congrArg Prod.fst hi
    have haddr : (t'.clients i).ip = ip := congrArg (fun l => l.2.1) hi
    have hrate : (t'.clients i).rateLimit = 0 := congrArg (fun l => l.2.2.2.1) hi
    have hkeys : ∀ j, j ≠ i → t'.clientKey j = t.clientKey j := by
      intro j hj
      have hm := congrArg Prod.fst (hlabel j hj)
      have ha := congrArg (fun l => l.2.1) (hlabel j hj)
      simp only [label] at hm ha
      simp only [clientKey,hm,ha]
    have hkey : t'.clientKey i = some ip := clientKey_eq_some.mpr ⟨hmagic,haddr⟩
    refine Within.write hl hkey hm hip (fun j a ha hj => ?_)
      (fun a ha hnone => h.unknown a fun j hj => ?_) hother ?_
    · have hji : j ≠ i := by
        rintro rfl
        exact ha (Option.some.inj (hj.symm.trans hkey))
      rw [hkeys j hji] at hj
      have hr := congrArg (fun l => l.2.2.2.1) (hlabel j hji)
      have hfl := congrArg (fun l => l.2.2.2.2) (hlabel j hji)
      simp only [label] at hr hfl
      rw [hr,hfl]
      exact h.known j a hj
    · by_cases hji : j = i
      · rw [hji,hunused] at hj
        cases hj
      · exact hnone j (by rw [hkeys j hji,hj])
    · rw [hself]
      have hzero := h.unknown ip hno
      refine limitRate_within _ h0 hmax internal (by omega) fun _ => ?_
      rw [hrate]
      omega

section

variable (h : t.Within limit processed)
include h

theorem Tables.Within.reset : (t.resetRateLimiting limit).Within limit (fun _ => 0) := by
  have hclient : ∀ i, ((t.resetRateLimiting limit).clients i).magic = (t.clients i).magic ∧
      ((t.resetRateLimiting limit).clients i).ip = (t.clients i).ip := by
    intro i
    simp only [resetRateLimiting]
    split <;> exact ⟨rfl,rfl⟩
  have hkey : ∀ i, (t.resetRateLimiting limit).clientKey i = t.clientKey i := by
    intro i
    simp only [clientKey,(hclient i).1,(hclient i).2]
  refine ⟨h.listed.congr hkey,fun i ip hi => ⟨Nat.zero_le limit,fun _ => ⟨Nat.zero_le _,?_⟩⟩,
    fun _ _ => rfl⟩
  rw [hkey] at hi
  have hlt : i < t.numClients := h.listed.below i ((h.listed.listed i).mpr (by simp [hi]))
  have hm := (clientKey_eq_some.mp hi).1
  simp [resetRateLimiting,hlt,hm,resetRate]

theorem Tables.Within.recycleClients (hs : t.spares = true) :
    t.recycleClients.Within limit processed := by
  obtain ⟨hl,hc⟩ := h.listed.recycleClients
  have hkey : ∀ i ip, t.recycleClients.clientKey i = some ip →
      t.recycleClients.clients i = t.clients i ∧ t.clientKey i = some ip := by
    intro i ip hi
    rw [clientKey_eq_some] at hi ⊢
    obtain heq | ⟨_,hw⟩ := hc i
    · exact ⟨heq,by rwa [heq] at hi⟩
    · rw [hw] at hi
      simp [wiped] at hi
  refine ⟨hl,fun i ip hi => ?_,fun ip hno => ?_⟩
  · obtain ⟨heq,hold⟩ := hkey i ip hi
    rw [heq]
    exact h.known i ip hold
  by_cases hold : ∃ i, t.clientKey i = some ip
  · obtain ⟨i,hi⟩ := hold
    -- the client had the address and was dropped, so it was not counted
    obtain heq | ⟨hidle,_⟩ := hc i
    · refine absurd ?_ (hno i)
      rw [clientKey_eq_some] at hi ⊢
      rwa [heq]
    have hm := (h.listed.listed i).mpr (by simp [hi])
    have hsp := List.all_eq_true.mp hs i hm
    simp only [hidle,Bool.not_true,Bool.false_or,Bool.and_eq_true,decide_eq_true_eq,
      Bool.not_eq_true'] at hsp
    have hle := ((h.known i ip hi).2 hsp.2).1
    omega
  · exact h.unknown ip fun i hi => hold ⟨i,hi⟩

theorem Tables.Within.finish (hs : t.spares = true) (clock : ℚ) (mintime : Int) :
    ((((t.recycleClients).recycleDomains clock).recycleCache
      ).moveOverTimeMemory mintime).Within limit processed :=
  (h.recycleClients hs).same
    ((((SameClients.refl _).recycleDomains clock).recycleCache).moveOverTimeMemory mintime)

end

end

section

variable {s : Store} {limit : Nat} {processed : List Char → Nat} (w : World) (pk : Packet)

def Store.finds (s : Store) (w : World) (pk : Packet) : Nat × Tables :=
  s.t.findClientID w s.gravity pk.managedBy (pk.client s.config).1 pk.timestamp

def Store.limits (s : Store) (w : World) (pk : Packet) : Bool × ClientsData :=
  ((s.finds w pk).2.clients (s.finds w pk).1).limitRate s.config.rateLimitCount
    (pk.client s.config).2

theorem Store.registerLocked_holds : (s.registerLocked w pk).2.Holds
    ((s.finds w pk).2.setClient (s.finds w pk).1 (s.limits w pk).2) s.config := by
  unfold registerLocked
  extract_lets internal c limited t
  have hback := (SameClients.refl t).changeClientcount c.1 (-1) 0 none 0
  split
  · exact ⟨hback,rfl⟩
  split
  · exact ⟨hback,rfl⟩
  · have ht : ({ s with t := t } : Store).Holds t s.config := ⟨.refl t,rfl⟩
    exact ht.recordQuery w pk c.1 internal

theorem Store.recordQuery_ne (clientID : Nat) (internal : Bool) :
    (s.recordQuery w pk clientID internal).1 ≠ .finished true := by
  unfold recordQuery
  split <;> simp

theorem Packet.checked_iff (cfg : Config) : pk.checked cfg = true ↔
    ¬ (pk.type ≠ .none ∧ pk.localName = true) ∧
      ¬ (cfg.ignoreLocalhost = true ∧
        ((pk.client cfg).1 = "127.0.0.1".toList ∨ (pk.client cfg).1 = "::1".toList)) := by
  simp only [Packet.checked,Bool.and_eq_true,Bool.not_eq_true',Bool.eq_false_iff,Bool.or_eq_true,
    decide_eq_true_eq,ne_eq]

theorem Store.refuses_of_checked (h : pk.checked s.config = true) :
    s.registerQuery w pk = s.lockShm.registerLocked w pk ∧
      s.refuses w pk = (s.lockShm.limits w pk).1 := by
  obtain ⟨hname,hlocal⟩ := (pk.checked_iff s.config).mp h
  have hreg : s.registerQuery w pk = s.lockShm.registerLocked w pk := by
    unfold registerQuery
    rw [if_neg hname]
    exact if_neg hlocal
  refine ⟨hreg,?_⟩
  unfold refuses
  rw [hreg]
  unfold registerLocked
  extract_lets internal c limited t
  have hl : (s.lockShm.limits w pk).1 = limited.1 := rfl
  rw [hl]
  cases limited.1 with
  | true => simp
  | false =>
    simp only [Bool.false_eq_true,if_false]
    split
    · rename_i heq
      split at heq
      · cases heq
      · exact absurd (congrArg Prod.fst heq) (recordQuery_ne w pk _ _)
    · rfl

theorem Store.registerQuery_unchecked (h : pk.checked s.config = false) :
    (s.registerQuery w pk).2.t = s.t ∧ (s.registerQuery w pk).2.config = s.config ∧
      s.refuses w pk = false := by
  unfold refuses registerQuery
  by_cases hname : pk.type ≠ .none ∧ pk.localName = true
  · rw [if_pos hname]
    refine ⟨rfl,rfl,?_⟩
    unfold Statics.localReply
    by_cases htype : pk.type = .a ∨ pk.type = .aaaa ∨ pk.type = .any
    · simp [htype]
    · simp [htype]
  · rw [if_neg hname]
    by_cases hlocal : s.config.ignoreLocalhost = true ∧
        ((pk.client s.config).1 = "127.0.0.1".toList ∨ (pk.client s.config).1 = "::1".toList)
    · rw [if_pos hlocal]
      exact ⟨rfl,rfl,rfl⟩
    · rw [(pk.checked_iff s.config).mpr ⟨hname,hlocal⟩] at h
      cases h

theorem Store.newQuery_holds : (s.newQuery w pk).2.Holds (s.registerQuery w pk).2.t
    (s.registerQuery w pk).2.config := by
  unfold newQuery
  cases hr : s.registerQuery w pk with
  | mk r s' =>
    have hs : s'.Holds s'.t s'.config := ⟨.refl s'.t,rfl⟩
    cases r with
    | finished answered => exact hs
    | query clientID domainID slot => exact hs.decideQuery w pk (some slot) clientID domainID

theorem Store.registerQuery_within (h : s.t.Within s.config.rateLimitCount processed)
    (h0 : 0 < s.config.rateLimitCount) (hmax : s.config.rateLimitCount+1 < uintMod)
    (ha : ((pk.client s.config).2 || pk.checked s.config) = true) :
    (s.registerQuery w pk).2.t.Within s.config.rateLimitCount
      (if (pk.client s.config).2 || s.refuses w pk then processed
        else update processed (pk.client s.config).1 (processed (pk.client s.config).1+1)) ∧
      (s.registerQuery w pk).2.config = s.config := by
  cases hc : pk.checked s.config with
  | true =>
    obtain ⟨hreg,href⟩ := s.refuses_of_checked w pk hc
    have hlock : s.lockShm.t.Within s.config.rateLimitCount processed := h
    have hfinds := hlock.listed.findClientID w s.gravity pk.managedBy (pk.client s.config).1
      pk.timestamp
    have hheld := s.lockShm.registerLocked_holds w pk
    rw [hreg,href]
    exact ⟨(hlock.limitRate hfinds h0 hmax (pk.client s.config).2).same hheld.clients,hheld.config⟩
  | false =>
    obtain ⟨ht,hcfg,_⟩ := s.registerQuery_unchecked w pk hc
    rw [hc,Bool.or_false] at ha
    rw [ht,hcfg,ha]
    exact ⟨h,rfl⟩

end

section

variable {t t' : Tables}

structure Tables.SameCounts (t t' : Tables) : Prop where
  count : ∀ i, (t'.clients i).count = (t.clients i).count
  blockedcount : ∀ i, (t'.clients i).blockedcount = (t.clients i).blockedcount
  clientOverTime : ∀ i, (t'.clients i).overTime = (t.clients i).overTime
  overTime : t'.overTime = t.overTime

def ClientsData.manager (c : ClientsData) : Option Nat :=
  if c.flags.aliasclient then none else c.aliasclientID

/-- What a call of `change_clientcount` without a time slot adds to the client `j`. -/
def Tables.share (t : Tables) (i : Nat) (total : Int) (j : Nat) : Int :=
  (if j = i then total else 0)+
    if (t.clients i).manager = some j ∧ (t.clients j).magic = true then total else 0

theorem Tables.changeClientcount_client (t : Tables) (i : Nat) (total : Int) (j : Nat) :
    (t.changeClientcount i total 0 none 0).clients j =
      { t.clients j with count := (t.clients j).count+t.share i total j } := by
  have hset : ∀ k, ((t.setClient i ((t.clients i).addCount total 0 none 0)).clients k) =
      { t.clients k with count := (t.clients k).count+(if k = i then total else 0) } := by
    intro k
    by_cases hk : k = i
    · simp [setClient,addCount,hk]
    · simp [setClient,hk]
  unfold changeClientcount
  unfold share manager
  by_cases ha : (t.clients i).flags.aliasclient = true
  · simp [ha,hset]
  simp only [ha]
  cases hm : (t.clients i).aliasclientID with
  | none => simp [hset]
  | some a =>
    simp only [Bool.false_eq_true,if_false,modifyClient,getClient,hset]
    by_cases hma : (t.clients a).magic = true
    · simp only [hma,if_true]
      by_cases hj : j = a
      · subst hj
        simp [setClient,addCount,hma,Int.add_assoc]
      · simpa [setClient,hj,Ne.symm hj] using hset j
    simp only [hma]
    by_cases hj : j = a
    · subst hj
      simp [hset,hma]
    · simp [hset,Ne.symm hj]

theorem Tables.changeClientcount_overTime (t : Tables) (i : Nat) (total : Int) :
    (t.changeClientcount i total 0 none 0).overTime = t.overTime := by
  unfold changeClientcount
  dsimp only
  split
  · rfl
  split
  · rfl
  · unfold modifyClient
    split <;> rfl

theorem ClientsData.limitRate_eq (c : ClientsData) (limit : Nat) (internal : Bool) :
    ∃ rate limited, (c.limitRate limit internal).2 =
      { c with rateLimit := rate, flags := { c.flags with rateLimited := limited } } := by
  unfold limitRate
  extract_lets counted rate
  split
  · exact ⟨_,_,rfl⟩
  · exact ⟨rate,c.flags.rateLimited,rfl⟩

theorem Tables.sameCounts_refused (t : Tables) (i limit : Nat) (internal : Bool) :
    let u := t.changeClientcount i 1 0 none 0
    t.SameCounts ((u.setClient i ((u.clients i).limitRate limit internal).2).changeClientcount
      i (-1) 0 none 0) := by
  intro u
  obtain ⟨rate,limited,heq⟩ := (u.clients i).limitRate_eq limit internal
  rw [heq]
  have hu : ∀ j, u.clients j = { t.clients j with count := (t.clients j).count+t.share i 1 j } :=
    t.changeClientcount_client i 1
  generalize hv : u.setClient i { u.clients i with
    rateLimit := rate, flags := { (u.clients i).flags with rateLimited := limited } } = v
  have hclient : ∀ j, (v.clients j).count = (u.clients j).count ∧
      (v.clients j).blockedcount = (u.clients j).blockedcount ∧
      (v.clients j).overTime = (u.clients j).overTime ∧
      (v.clients j).magic = (u.clients j).magic ∧
      (v.clients j).manager = (u.clients j).manager := by
    intro j
    rw [← hv]
    by_cases hj : j = i
    · subst hj
      simp [setClient,manager]
    · simp [setClient,hj]
  have hback : ∀ j, v.share i (-1) j = -t.share i 1 j := by
    intro j
    have hm : (v.clients j).magic = (t.clients j).magic := by rw [(hclient j).2.2.2.1,hu]
    have hman : (v.clients i).manager = (t.clients i).manager := by
      rw [(hclient i).2.2.2.2,hu]
      rfl
    simp only [share,hm,hman]
    split <;> split <;> rfl
  refine ⟨fun j => ?_,fun j => ?_,fun j => ?_,?_⟩
  · rw [changeClientcount_client,hback]
    simp only [(hclient j).1,hu]
    omega
  · rw [changeClientcount_client]
    simp only [(hclient j).2.1,hu]
  · rw [changeClientcount_client]
    simp only [(hclient j).2.2.1,hu]
  · rw [changeClientcount_overTime,← hv]
    exact t.changeClientcount_overTime i 1

theorem ClientsData.limitRate_new {c : ClientsData} {limit : Nat} (h0 : 0 < limit)
    (hr : c.rateLimit = 0) (hf : c.flags.rateLimited = false) (internal : Bool) :
    (c.limitRate limit internal).1 = false := by
  have hmod : 1 % uintMod = 1 := by decide
  cases internal with
  | true => simp [limitRate,hf]
  | false => simp [limitRate,hr,hf,hmod,h0,Nat.ne_of_gt h0]

theorem Store.refuses_sameCounts {s : Store} (hl : s.t.Listed)
    (h0 : 0 < s.config.rateLimitCount) (w : World) (pk : Packet) (hr : s.refuses w pk = true) :
    s.t.SameCounts (s.registerQuery w pk).2.t := by
  cases hc : pk.checked s.config with
  | false =>
    rw [(s.registerQuery_unchecked w pk hc).2.2] at hr
    cases hr
  | true =>
    obtain ⟨hreg,href⟩ := s.refuses_of_checked w pk hc
    rw [href] at hr
    have hfinds := hl.findClientID w s.gravity pk.managedBy (pk.client s.config).1 pk.timestamp
    have htables : (s.lockShm.registerLocked w pk).2.t = (((s.lockShm.finds w pk).2.setClient
        (s.lockShm.finds w pk).1 (s.lockShm.limits w pk).2).changeClientcount
          (s.lockShm.finds w pk).1 (-1) 0 none 0) := by
      unfold registerLocked
      extract_lets internal c limited t
      have hlim : limited.1 = true := hr
      rw [if_pos hlim]
      rfl
    rw [hreg,htables]
    unfold limits at hr ⊢
    have hfind : s.lockShm.finds w pk = s.t.findClientID w s.gravity pk.managedBy
      (pk.client s.config).1 pk.timestamp := rfl
    rw [hfind] at hr ⊢
    generalize s.t.findClientID w s.gravity pk.managedBy (pk.client s.config).1 pk.timestamp = f at *
    cases hfinds with
    | known hkey => exact s.t.sameCounts_refused _ _ _
    | made _ _ _ hi _ =>
      have hnew := limitRate_new h0 (congrArg (fun l => l.2.2.2.1) hi)
        (congrArg (fun l => l.2.2.2.2) hi) (pk.client s.config).2
      exact absurd (hnew.symm.trans hr) Bool.false_ne_true

end

namespace Throttle

/-- The configuration stays, and what was processed is within the limit. -/
structure Inv (cfg : Config) (s : Throttle) : Prop where
  config : s.system.store.config = cfg
  within : s.system.store.t.Within cfg.rateLimitCount s.processed

variable {cfg : Config} {s : Throttle}

theorem Inv.query (h : s.Inv cfg) (h0 : 0 < cfg.rateLimitCount)
    (hmax : cfg.rateLimitCount+1 < uintMod) (w : World) (pk : Packet)
    (ha : ((pk.client s.system.store.config).2 || pk.checked s.system.store.config) = true) :
    (s.system.store.registerQuery w pk).2.t.Within cfg.rateLimitCount (s.count w pk) ∧
      (s.system.store.registerQuery w pk).2.config = cfg := by
  obtain ⟨rfl,hw⟩ := h
  exact s.system.store.registerQuery_within w pk hw h0 hmax ha

theorem inv_step (h0 : 0 < cfg.rateLimitCount) (hmax : cfg.rateLimitCount+1 < uintMod)
    (s : Throttle) (e : ThrottleEvent) (ha : s.allowed e = true) (h : s.Inv cfg) :
    (s.step e).Inv cfg := by
  have hstore : s.system.store.lockShm.Holds s.system.store.t cfg := ⟨.refl _,h.config⟩
  cases e with
  | newQuery w pk =>
    obtain ⟨hw,hcfg⟩ := h.query h0 hmax w pk ha
    have hn := s.system.store.newQuery_holds w pk
    exact ⟨hn.config.trans hcfg,hw.same hn.clients⟩
  | registerQuery w pk =>
    obtain ⟨hw,hcfg⟩ := h.query h0 hmax w pk ha
    exact ⟨hcfg,hw⟩
  | resumeQuery w pk clientID domainID hwaddr =>
    have hs : s.system.store.Holds s.system.store.t cfg := ⟨.refl _,h.config⟩
    have hr := hs.resumeQuery w pk clientID domainID hwaddr
    exact ⟨hr.config,h.within.same hr.clients⟩
  | gcStart now =>
    cases hg : s.system.gc with
    | some g => simpa [step,System.step,hg] using h
    | none =>
      have hr := hstore.gcRemove (gcMintime s.system.store.lockShm.config now false)
      simp only [step,System.step,hg]
      exact ⟨hr.config,h.within.same hr.clients⟩
  | gcFinish clock =>
    cases hg : s.system.gc with
    | none => simpa [step,System.step,hg] using h
    | some g =>
      have hs : s.system.store.t.spares = true := by simpa [allowed,hg] using ha
      simp only [step,System.step,hg]
      exact ⟨h.config,h.within.finish hs clock g.mintime⟩
  | gcFlush now clock =>
    have hr := hstore.gcRemove (gcMintime s.system.store.lockShm.config now true)
    simp only [allowed] at ha
    simp only [step,System.step,handle,runGC]
    generalize s.system.store.lockShm.gcRemove _ = r at *
    exact ⟨hr.config,(h.within.same hr.clients).finish ha clock _⟩
  | resetRateLimiting =>
    refine ⟨h.config,?_⟩
    have hreset := h.within.reset
    rw [← h.config] at hreset ⊢
    exact hreset

theorem inv_initial (cfg : Config) (w : World) (db : GravityDb) : (initial cfg w db).Inv cfg :=
  ⟨rfl,listed_empty,fun _ _ hi => by simp [initial,System.initial,clientKey,
    Tables.empty,wiped] at hi,fun _ _ => rfl⟩

/-- With a limit `N`, at most `N` queries of an address are processed between two
`reset_rate_limiting`, and a refused one leaves the counters alone. -/
theorem rate_limit_run (cfg : Config) (w : World) (db : GravityDb)
    (h0 : 0 < cfg.rateLimitCount) (hmax : cfg.rateLimitCount+1 < uintMod)
    (events : List ThrottleEvent)
    (hm : Machine.Meets step allowed (initial cfg w db) events = true) :
    (∀ ip, (Machine.run step (initial cfg w db) events).processed ip ≤ cfg.rateLimitCount) ∧
      ∀ w' pk, (Machine.run step (initial cfg w db) events).system.store.refuses w' pk = true →
        (Machine.run step (initial cfg w db) events).system.store.t.SameCounts
          ((Machine.run step (initial cfg w db) events).system.store.registerQuery w' pk).2.t := by
  have hinv : (Machine.run step (initial cfg w db) events).Inv cfg :=
    Machine.Meets.keeps (inv_step h0 hmax) (inv_initial cfg w db) hm
  refine ⟨hinv.within.le,fun w' pk hr => ?_⟩
  refine refuses_sameCounts hinv.within.listed ?_ w' pk hr
  rw [hinv.config]
  exact h0

def askingRun : List ThrottleEvent :=
  let ask (id : Int) (now : ℚ) : ThrottleEvent :=
    .newQuery .plain (.of "10.0.0.2" "example.com" id now)
  [ask 1 1000,ask 2 1001,ask 3 1002,.resetRateLimiting,.gcStart 1070,.gcFinish 1070,ask 4 1080]

theorem rate_limit_two : (∀ ip, (Machine.run step (initial { Config.default with
      rateLimitCount := 2 } .plain .empty) askingRun).processed ip ≤ 2) ∧
    ∀ w pk, (Machine.run step (initial { Config.default with rateLimitCount := 2 }
        .plain .empty) askingRun).system.store.refuses w pk = true →
      (Machine.run step (initial { Config.default with rateLimitCount := 2 }
        .plain .empty) askingRun).system.store.t.SameCounts
          ((Machine.run step (initial { Config.default with rateLimitCount := 2 }
            .plain .empty) askingRun).system.store.registerQuery w pk).2.t :=
  rate_limit_run { Config.default with rateLimitCount := 2 } .plain .empty (by decide) (by decide)
    askingRun (by decide)

def flushedRun : List ThrottleEvent :=
  [.newQuery .plain (.of "10.0.0.2" "example.com" 1 1000),.gcFlush 1001 1001,
    .newQuery .plain (.of "10.0.0.2" "example.com" 2 1002)]

/-- The record of the client is wiped with its counter, so a second query gets through a
limit of one. -/
theorem rate_limit_forgotten : (Machine.run step (initial { Config.default with
    rateLimitCount := 1 } .plain .empty) flushedRun).processed "10.0.0.2".toList = 2 := by
  decide +kernel

end Throttle

end Lorentz
