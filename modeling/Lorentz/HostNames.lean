import Lorentz.ClientRates

/-!
The host names of the clients. `resolveClients` copies an address under the lock, asks for the
name without it and takes it again to store the name.
-/

set_option autoImplicit false

namespace Lorentz
open Tables ClientsData

inductive RefreshHostnames where
  | all
  | ipv4Only
  | unknown
  | none
  deriving DecidableEq, Repr

structure ResolverSettings where
  resolveIPv4 : Bool
  resolveIPv6 : Bool
  networkNames : Bool
  refreshNames : RefreshHostnames
  dbInterval : Nat
  deriving DecidableEq, Repr

def ResolverSettings.default : ResolverSettings := ⟨true,true,true,.ipv4Only,60⟩

def isIPv6 (ipaddr : List Char) : Bool := ipaddr.contains ':'

def resolveThisName (cfg : ResolverSettings) (ipaddr : List Char) : Bool :=
  if !cfg.resolveIPv4 && !isIPv6 ipaddr then false
  else if !cfg.resolveIPv6 && isIPv6 ipaddr then false
  else true

/-- What comes back for an address: success and name of a lookup, over UDP also whether it was
truncated; `network` is the name the network table has. -/
structure Answers where
  udpSocket : Bool
  udp : Bool × List Char
  truncated : Bool
  tcpSocket : Bool
  tcp : Bool × List Char
  network : Option (List Char)
  deriving DecidableEq, Repr

def Answers.of (name : String) : Answers :=
  ⟨true,(true,name.toList),false,true,(false,[]),none⟩

inductive ResolveResult where
  | ok (newname : List Char)
  | noName
  | noSocket
  deriving DecidableEq, Repr

/-- `resolveAndAddHostname`. The old name is used for its place in the string table only. -/
def resolveAndAddHostname (cfg : ResolverSettings) (ipaddr : List Char) (answers : Answers) :
    ResolveResult :=
  if !resolveThisName cfg ipaddr then .ok []
  else if !answers.udpSocket then .noSocket
  else
    let r := answers.udp
    let r := if !r.1 && answers.truncated && answers.tcpSocket then answers.tcp else r
    let newname := if !r.1 && cfg.networkNames then answers.network.getD r.2 else r.2
    if newname = [] then .noName else .ok newname

/-- The arguments of `resolveClients` and what it reads at its start. -/
structure SweepPlan where
  onlynew : Bool
  forceRefreshing : Bool
  now : ℚ
  clientscount : Nat

/-- The reasons to leave a client out. The record has no flag for new clients here, so it
is an argument. -/
def SweepPlan.skips (plan : SweepPlan) (cfg : ResolverSettings) (newflag : Bool)
    (c : ClientsData) : Bool :=
  let ipv6 := isIPv6 c.ip
  let due := c.firstSeen+2*cfg.dbInterval ≤ plan.now
  (!plan.forceRefreshing && !plan.onlynew && c.lastQuery < plan.now-2*60*60) ||
    (!plan.forceRefreshing && plan.onlynew && !newflag) ||
    (plan.onlynew && newflag && ipv6 && !due) ||
    (!plan.onlynew && !(newflag && ipv6 && due) &&
      (cfg.refreshNames = .none || (cfg.refreshNames = .ipv4Only && ipv6) ||
        (cfg.refreshNames = .unknown && c.name ≠ [])))

/-- Where the resolver thread is: before the first lock for a client, resolving the copied
address, or before the second lock. -/
inductive Sweep where
  | idle
  | visiting (plan : SweepPlan) (clientID : Nat)
  | resolving (plan : SweepPlan) (clientID : Nat) (ipaddr : List Char)
  | storing (plan : SweepPlan) (clientID : Nat) (ipaddr : List Char) (res : ResolveResult)

def Sweep.held : Sweep → Option Nat
  | .resolving _ clientID _ | .storing _ clientID _ _ => some clientID
  | .idle | .visiting _ _ => none

/-- The system with its resolver thread, and every name resolved so far with its address. -/
structure Naming where
  system : System
  settings : ResolverSettings
  sweep : Sweep
  resolved : List (List Char × List Char)

inductive NamingEvent where
  | newQuery (w : World) (pk : Packet)
  | registerQuery (w : World) (pk : Packet)
  | resumeQuery (w : World) (pk : Packet) (clientID domainID : Nat) (hwaddr : Option (List Nat))
  | gcStart (now : Int)
  | gcFinish (clock : ℚ)
  | gcFlush (now : Int) (clock : ℚ)
  | resolveClients (onlynew forceRefreshing : Bool) (now : ℚ)
  | visit (newflag : Bool)
  | resolve (answers : Answers)
  | storeName

namespace Naming

def initial (cfg : Config) (settings : ResolverSettings) (w : World) (db : GravityDb) : Naming :=
  ⟨.initial cfg w db,settings,.idle,[]⟩

def other (s : Naming) (e : Event) : Naming := { s with system := s.system.step e }

/-- The first section of a round of `resolveClients`. -/
def visitClient (s : Naming) (newflag : Bool) : Naming :=
  match s.sweep with
  | .visiting plan clientID =>
    if clientID < plan.clientscount then
      let store := s.system.store.lockShm
      let next : Sweep := match store.t.getClient clientID with
        | none => .visiting plan (clientID+1)
        | some c =>
          if c.flags.aliasclient || plan.skips s.settings newflag c then
            .visiting plan (clientID+1)
          else .resolving plan clientID c.ip
      { s with system := { s.system with store := store }, sweep := next }
    else { s with sweep := .idle }
  | _ => s

def resolveAddress (s : Naming) (answers : Answers) : Naming :=
  match s.sweep with
  | .resolving plan clientID ipaddr =>
    match resolveAndAddHostname s.settings ipaddr answers with
    | .ok newname =>
      { s with
        sweep := .storing plan clientID ipaddr (.ok newname)
        resolved := (ipaddr,newname) :: s.resolved }
    | .noName => { s with sweep := .storing plan clientID ipaddr .noName }
    | .noSocket => { s with sweep := .idle }
  | _ => s

def storeHostname (s : Naming) : Naming :=
  match s.sweep with
  | .storing plan clientID _ res =>
    let store := match res with
      | .ok newname => s.system.store.resolveClient clientID newname
      | .noName | .noSocket => s.system.store.lockShm
    { s with
      system := { s.system with store := store }
      sweep := .visiting plan (clientID+1) }
  | _ => s

def step (s : Naming) : NamingEvent → Naming
  | .newQuery w pk => s.other (.newQuery w pk)
  | .registerQuery w pk => s.other (.registerQuery w pk)
  | .resumeQuery w pk clientID domainID hwaddr =>
    s.other (.resumeQuery w pk clientID domainID hwaddr)
  | .gcStart now => s.other (.gcStart now)
  | .gcFinish clock => s.other (.gcFinish clock)
  | .gcFlush now clock => s.other (.gcFlush now clock)
  | .resolveClients onlynew forceRefreshing now =>
    match s.sweep with
    | .idle =>
      let store := s.system.store.lockShm
      { s with
        system := { s.system with store := store }
        sweep := .visiting ⟨onlynew,forceRefreshing,now,store.t.numClients⟩ 0 }
    | _ => s
  | .visit newflag => s.visitClient newflag
  | .resolve answers => s.resolveAddress answers
  | .storeName => s.storeHostname

/-- The garbage collector does not drop the client whose slot the resolver holds: it has a
query left. -/
def keepsHeld (s : Naming) (t : Tables) : Bool :=
  s.sweep.held.all (fun clientID => !(t.clients clientID).idle)

def allowed (s : Naming) : NamingEvent → Bool
  | .gcFinish _ => s.system.gc.isNone || s.keepsHeld s.system.store.t
  | .gcFlush now _ =>
    let store := s.system.store.lockShm
    s.keepsHeld (store.gcRemove (gcMintime store.config now true)).1.t
  | _ => true

end Naming

def ClientsData.title (c : ClientsData) : Bool × List Char × List Char := (c.magic,c.ip,c.name)

/-- The clients keep their slots and names; a slot that was free may hold a client without a name.
-/
structure Tables.Names (t t' : Tables) : Prop where
  listed : t'.Listed
  title : ∀ i, (t'.clients i).title = (t.clients i).title ∨
    t.clientKey i = none ∧ (t'.clients i).name = []

section

variable {t t' t'' : Tables} {s : Store}

theorem Tables.SameClients.title (h : t.SameClients t') (i : Nat) :
    (t'.clients i).title = (t.clients i).title := by
  simp only [ClientsData.title,h.magic,h.ip,h.name]

theorem Tables.Names.same (h : t.Names t') (hs : t'.SameClients t'') : t.Names t'' :=
  ⟨hs.listed h.listed,fun i => by rw [hs.title,hs.name]; exact h.title i⟩

theorem Tables.Names.refl (h : t.Listed) : t.Names t := ⟨h,fun _ => .inl rfl⟩

theorem Tables.Finds.names {ip : List Char} {f : Nat × Tables} (h : t.Listed)
    (hf : t.Finds ip f) : t.Names f.2 := by
  cases hf with
  | @known i hkey =>
    have hs := (SameClients.refl t).changeClientcount i 1 0 none 0
    exact (Names.refl h).same hs
  | @made i t' hno hl hunused hi hother =>
    refine ⟨hl,fun j => ?_⟩
    by_cases hj : j = i
    · rw [hj]
      exact .inr ⟨hunused,congrArg (fun l => l.2.2.1) hi⟩
    · have hlabel := hother j hj
      exact .inl (congrArg (fun l => (l.1,l.2.1,l.2.2.1)) hlabel)

theorem Tables.Names.setClient (h : t.Names t') {i : Nat} {c : ClientsData}
    (hc : c.title = (t'.clients i).title) : t.Names (t'.setClient i c) := by
  have hm : c.magic = (t'.clients i).magic := congrArg Prod.fst hc
  have hip : c.ip = (t'.clients i).ip := congrArg (fun l => l.2.1) hc
  have hname : c.name = (t'.clients i).name := congrArg (fun l => l.2.2) hc
  refine ⟨h.listed.setClient hm hip,fun j => ?_⟩
  by_cases hj : j = i
  · simpa [Tables.setClient,hj,hc,hname] using h.title i
  · simpa [Tables.setClient,hj] using h.title j

theorem Store.registerQuery_names (h : s.t.Listed) (w : World) (pk : Packet) :
    s.t.Names (s.registerQuery w pk).2.t := by
  cases hc : pk.checked s.config with
  | false =>
    rw [(s.registerQuery_unchecked w pk hc).1]
    exact .refl h
  | true =>
    rw [(s.refuses_of_checked w pk hc).1]
    have hfinds : s.t.Names (s.lockShm.finds w pk).2 :=
      (h.findClientID w s.gravity pk.managedBy (pk.client s.config).1 pk.timestamp).names h
    have hlimits : (s.lockShm.limits w pk).2.title =
        ((s.lockShm.finds w pk).2.clients (s.lockShm.finds w pk).1).title := by
      obtain ⟨rate,limited,heq⟩ := ((s.lockShm.finds w pk).2.clients
        (s.lockShm.finds w pk).1).limitRate_eq s.lockShm.config.rateLimitCount
          (pk.client s.lockShm.config).2
      unfold Store.limits
      rw [heq]
      rfl
    exact (hfinds.setClient hlimits).same (s.lockShm.registerLocked_holds w pk).clients

theorem Store.newQuery_names (h : s.t.Listed) (w : World) (pk : Packet) :
    s.t.Names (s.newQuery w pk).2.t :=
  (s.registerQuery_names h w pk).same (s.newQuery_holds w pk).clients

theorem ClientsData.noteName_title (c : ClientsData) (name : List Char) :
    (c.noteName name).title = (c.magic,c.ip,name) := by
  unfold noteName
  split
  · rename_i hn
    rw [← hn]
    rfl
  · rfl

end

/-- A held slot has the client whose address was copied, and a name to be stored was resolved for
it. -/
def Sweep.Right (t : Tables) (resolved : List (List Char × List Char)) : Sweep → Prop
  | .idle | .visiting _ _ => True
  | .resolving _ k ip => t.clientKey k = some ip
  | .storing _ k ip res => t.clientKey k = some ip ∧ ∀ name, res = .ok name → (ip,name) ∈ resolved

def Tables.Named (t : Tables) (resolved : List (List Char × List Char)) : Prop :=
  ∀ i ip, t.clientKey i = some ip →
    (t.clients i).name = [] ∨ (ip,(t.clients i).name) ∈ resolved

theorem Sweep.Right.congr {t t' : Tables} {resolved : List (List Char × List Char)} {sweep : Sweep}
    (h : sweep.Right t resolved)
    (hheld : ∀ k, sweep.held = some k → t.clientKey k ≠ none → t'.clientKey k = t.clientKey k) :
    sweep.Right t' resolved := by
  cases sweep with
  | idle => trivial
  | visiting plan k => trivial
  | resolving plan k ip =>
    have hk : t.clientKey k = some ip := h
    exact (hheld k rfl (by simp [hk])).trans hk
  | storing plan k ip res =>
    obtain ⟨hk,hname⟩ := h
    exact ⟨(hheld k rfl (by simp [hk])).trans hk,hname⟩

namespace Naming

structure Inv (s : Naming) : Prop where
  listed : s.system.store.t.Listed
  names : s.system.store.t.Named s.resolved
  sweep : s.sweep.Right s.system.store.t s.resolved

variable {s : Naming}

section

variable (h : s.Inv)
include h

theorem Inv.named {system : System} (hn : s.system.store.t.Names system.store.t) :
    ({ s with system := system } : Naming).Inv := by
  have hkey : ∀ i, (system.store.t.clients i).title = (s.system.store.t.clients i).title →
      system.store.t.clientKey i = s.system.store.t.clientKey i := by
    intro i ht
    have hm := congrArg Prod.fst ht
    have hip := congrArg (fun l => l.2.1) ht
    simp only [title] at hm hip
    simp only [clientKey,hm,hip]
  refine ⟨hn.listed,fun i ip hi => ?_,h.sweep.congr fun k _ hk => ?_⟩
  · obtain ht | ⟨_,hname⟩ := hn.title i
    · have hname : (system.store.t.clients i).name = (s.system.store.t.clients i).name :=
        congrArg (fun l => l.2.2) ht
      rw [hkey i ht] at hi
      rw [hname]
      exact h.names i ip hi
    · exact .inl hname
  · obtain ht | ⟨hnone,_⟩ := hn.title k
    · exact hkey k ht
    · exact absurd hnone hk

theorem Inv.recycled {system : System} {t : Tables} (hs : s.system.store.t.SameClients t)
    (hk : s.keepsHeld t = true) (hend : t.recycleClients.SameClients system.store.t) :
    ({ s with system := system } : Naming).Inv := by
  obtain ⟨hl,hc⟩ := (hs.listed h.listed).recycleClients
  refine ⟨hend.listed hl,fun i ip hi => ?_,h.sweep.congr fun k hheld _ => ?_⟩
  · rw [hend.clientKey] at hi
    obtain heq | ⟨_,hw⟩ := hc i
    · have hold : s.system.store.t.clientKey i = some ip := by
        rw [← hs.clientKey,← hi]
        simp only [clientKey,heq]
      rw [hend.name,heq,hs.name]
      exact h.names i ip hold
    · simp [clientKey,hw,wiped] at hi
  · obtain heq | ⟨hidle,_⟩ := hc k
    · rw [hend.clientKey,← hs.clientKey]
      simp only [clientKey,heq]
    · simp [keepsHeld,hheld,hidle] at hk

theorem Inv.visit (newflag : Bool) : (s.visitClient newflag).Inv := by
  unfold visitClient
  split
  · rename_i clientID hs
    split
    · refine ⟨h.listed,h.names,?_⟩
      dsimp only
      cases hc : s.system.store.lockShm.t.getClient clientID with
      | none => trivial
      | some c =>
        dsimp only
        split
        · trivial
        unfold getClient at hc
        split at hc
        · rename_i hm
          cases hc
          exact clientKey_eq_some.mpr ⟨hm,rfl⟩
        · cases hc
    · exact ⟨h.listed,h.names,trivial⟩
  · exact h

theorem Inv.resolve (answers : Answers) : (s.resolveAddress answers).Inv := by
  unfold resolveAddress
  split
  · rename_i hs
    have hk := h.sweep
    rw [hs] at hk
    split
    · refine ⟨h.listed,fun i ip hi => ?_,hk,fun name hname => ?_⟩
      · exact (h.names i ip hi).imp_right fun hm => List.mem_cons_of_mem _ hm
      · cases hname
        exact List.mem_cons_self ..
    · exact ⟨h.listed,h.names,hk,fun _ hname => by cases hname⟩
    · exact ⟨h.listed,h.names,trivial⟩
  · exact h

theorem Inv.store : s.storeHostname.Inv := by
  unfold storeHostname
  split
  · rename_i clientID ipaddr res hs
    have hright := h.sweep
    rw [hs] at hright
    obtain ⟨hk,hname⟩ := hright
    cases res with
    | noName | noSocket => exact ⟨h.listed,h.names,trivial⟩
    | ok newname =>
      have htitle := (s.system.store.t.clients clientID).noteName_title newname
      have hm : ((s.system.store.t.clients clientID).noteName newname).magic =
        (s.system.store.t.clients clientID).magic := congrArg Prod.fst htitle
      have hip : ((s.system.store.t.clients clientID).noteName newname).ip =
        (s.system.store.t.clients clientID).ip := congrArg (fun l => l.2.1) htitle
      have hnew : ((s.system.store.t.clients clientID).noteName newname).name = newname :=
        congrArg (fun l => l.2.2) htitle
      have hstore : (s.system.store.resolveClient clientID newname).t =
          s.system.store.t.setClient clientID
            ((s.system.store.t.clients clientID).noteName newname) := by
        have hget : s.system.store.t.getClient clientID =
            some (s.system.store.t.clients clientID) :=
          if_pos (clientKey_eq_some.mp hk).1
        simp only [Store.resolveClient,Store.lockShm,modifyClient,hget]
      refine ⟨?_,fun i ip hi => ?_,trivial⟩
      · rw [hstore]
        exact h.listed.setClient hm hip
      rw [hstore] at hi ⊢
      rw [clientKey_setClient hm hip] at hi
      by_cases hic : i = clientID
      · rw [hic,hk] at hi
        cases hi
        simpa [setClient,hic,hnew] using .inr (hname newname rfl)
      · simpa [setClient,hic] using h.names i ip hi
  · exact h

end

theorem inv_step (s : Naming) (e : NamingEvent) (ha : s.allowed e = true) (h : s.Inv) :
    (s.step e).Inv := by
  have hstore : s.system.store.lockShm.Holds s.system.store.t s.system.store.config := ⟨.refl _,rfl⟩
  have hsame : ∀ {system : System}, s.system.store.t.SameClients system.store.t →
      ({ s with system := system } : Naming).Inv :=
    fun hs => h.named ((Names.refl h.listed).same hs)
  cases e with
  | newQuery w pk => exact h.named (s.system.store.newQuery_names h.listed w pk)
  | registerQuery w pk => exact h.named (s.system.store.registerQuery_names h.listed w pk)
  | resumeQuery w pk clientID domainID hwaddr =>
    have hs : s.system.store.Holds s.system.store.t s.system.store.config := ⟨.refl _,rfl⟩
    exact hsame (hs.resumeQuery w pk clientID domainID hwaddr).clients
  | gcStart now =>
    refine hsame ?_
    cases hg : s.system.gc with
    | some g =>
      simp only [System.step,hg]
      exact .refl _
    | none =>
      simp only [System.step,hg]
      exact (hstore.gcRemove (gcMintime s.system.store.lockShm.config now false)).clients
  | gcFinish clock =>
    cases hg : s.system.gc with
    | none =>
      refine hsame ?_
      simp only [System.step,hg]
      exact .refl _
    | some g =>
      have hk : s.keepsHeld s.system.store.t = true := by simpa [allowed,hg] using ha
      refine h.recycled (.refl _) hk ?_
      simp only [System.step,hg]
      exact (((SameClients.refl _).recycleDomains clock).recycleCache).moveOverTimeMemory _
  | gcFlush now clock =>
    have hr := hstore.gcRemove (gcMintime s.system.store.lockShm.config now true)
    simp only [allowed] at ha
    simp only [step,other,System.step,Store.handle,Store.runGC]
    generalize s.system.store.lockShm.gcRemove _ = r at *
    refine h.recycled hr.clients ha ?_
    exact (((SameClients.refl _).recycleDomains clock).recycleCache).moveOverTimeMemory _
  | resolveClients onlynew forceRefreshing now =>
    simp only [step]
    split
    · exact ⟨h.listed,h.names,trivial⟩
    · exact h
  | visit newflag => exact h.visit newflag
  | resolve answers => exact h.resolve answers
  | storeName => exact h.store

theorem inv_initial (cfg : Config) (settings : ResolverSettings) (w : World) (db : GravityDb) :
    (initial cfg settings w db).Inv :=
  ⟨listed_empty,fun _ _ hi => by simp [initial,System.initial,clientKey,
    Tables.empty,wiped] at hi,trivial⟩

theorem clientHostname_of_named {t : Tables} {resolved : List (List Char × List Char)}
    (h : t.Named resolved) (w : World) {i : Nat} {ip name : List Char}
    (hi : t.clientKey i = some ip) (hn : clientHostname w (t.clients i) = some name) :
    (∃ full, (ip,full) ∈ resolved ∧ name = full.take (MAXDOMAINLEN-1)) ∨
      w.network.getNameFromIP ip = some name := by
  unfold clientHostname at hn
  split at hn
  · rename_i hne
    cases hn
    exact .inl ⟨_,(h i ip hi).resolve_left hne,rfl⟩
  right
  rw [(clientKey_eq_some.mp hi).2] at hn
  cases hnet : w.network.getNameFromIP ip with
  | none => simp [hnet] at hn
  | some n =>
    rw [hnet] at hn
    dsimp only at hn
    split at hn
    · cases hn
    · exact hn

/-- In every state reached, the name of a client was resolved for its address, and so is the one
its groups are looked up with. -/
theorem host_names_run (cfg : Config) (settings : ResolverSettings) (w : World) (db : GravityDb)
    (events : List NamingEvent)
    (hm : Machine.Meets step allowed (initial cfg settings w db) events = true) :
    (Machine.run step (initial cfg settings w db) events).system.store.t.Named
        (Machine.run step (initial cfg settings w db) events).resolved ∧
      ∀ (w' : World) (i : Nat) (ip name : List Char),
        (Machine.run step (initial cfg settings w db) events).system.store.t.clientKey i =
          some ip →
        clientHostname w' ((Machine.run step (initial cfg settings w db)
          events).system.store.t.clients i) = some name →
        (∃ full, (ip,full) ∈ (Machine.run step (initial cfg settings w db) events).resolved ∧
            name = full.take (MAXDOMAINLEN-1)) ∨
          w'.network.getNameFromIP ip = some name := by
  have hinv : (Machine.run step (initial cfg settings w db) events).Inv :=
    Machine.Meets.keeps inv_step (inv_initial cfg settings w db) hm
  exact ⟨hinv.names,fun w' _ _ _ hi hn => clientHostname_of_named hinv.names w' hi hn⟩

def namedRun : List NamingEvent :=
  [.newQuery .plain (.of "10.0.0.2" "example.com" 1 1000),.resolveClients true false 1001,
    .visit true,.resolve (.of "laptop"),.gcStart 1001,.gcFinish 1001,.storeName,
    .gcFlush 1002 1002,.newQuery .plain (.of "10.0.0.3" "example.com" 2 1003)]

theorem host_names_two : (Machine.run step (initial Config.default .default .plain .empty)
      namedRun).system.store.t.Named
        (Machine.run step (initial Config.default .default .plain .empty) namedRun).resolved ∧
    ∀ (w : World) (i : Nat) (ip name : List Char),
      (Machine.run step (initial Config.default .default .plain .empty)
        namedRun).system.store.t.clientKey i = some ip →
      clientHostname w ((Machine.run step (initial Config.default .default .plain .empty)
        namedRun).system.store.t.clients i) = some name →
      (∃ full, (ip,full) ∈ (Machine.run step (initial Config.default .default .plain .empty)
          namedRun).resolved ∧ name = full.take (MAXDOMAINLEN-1)) ∨
        w.network.getNameFromIP ip = some name :=
  host_names_run Config.default .default .plain .empty namedRun (by decide)

/-- The logs are flushed while the address of the first client is resolved, and the second takes
its slot before the name is stored. -/
def migratingRun : List NamingEvent :=
  [.newQuery .plain (.of "10.0.0.2" "example.com" 1 1000),.resolveClients true false 1001,
    .visit true,.gcFlush 1002 1002,.newQuery .plain (.of "10.0.0.3" "example.com" 2 1003),
    .resolve (.of "laptop"),.storeName]

theorem host_name_migrates : ¬ (Machine.run step (initial Config.default .default .plain
    .empty) migratingRun).system.store.t.Named
      (Machine.run step (initial Config.default .default .plain .empty) migratingRun).resolved := by
  intro h
  have hname := h 0 "10.0.0.3".toList (by decide +kernel)
  revert hname
  decide +kernel

end Naming

end Lorentz
