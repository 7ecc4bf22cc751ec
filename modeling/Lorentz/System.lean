import Lorentz.QueryArray

/-!
The engine as a system: the hooks of dnsmasq, the garbage collector with the moment in
which it has released the lock, and the reload of the lists, in any order.
-/

set_option autoImplicit false

namespace Lorentz

structure GcRun where
  removed : Nat
  mintime : Int
  deriving DecidableEq, Repr

structure System where
  store : Store
  gc : Option GcRun

/-- What can happen between two moments at which nobody holds the lock; `_query_set_status`,
`query_blocked` and `_query_set_reply` stand for the hooks that call them on a query they have
found. -/
inductive Event where
  | newQuery (w : World) (pk : Packet)
  | registerQuery (w : World) (pk : Packet)
  | resumeQuery (w : World) (pk : Packet) (clientID domainID : Nat) (hwaddr : Option (List Nat))
  | querySetStatus (id : Int) (newStatus : QueryStatus)
  | queryBlocked (id : Int) (newStatus : QueryStatus)
  | querySetReply (id : Int) (flags : ReplyFlags) (reply : ReplyType) (rcode : Option Nat) (now : ℚ)
  | queryInProgress (id : Int)
  | multipleReplies (id firstID : Int)
  | forwarded (ip : List Char) (port : Nat) (id : Int) (now : ℚ)
  | cname (w : World) (dst : List Char) (id : Int) (now : ℚ)
  | ensureSize
  | reload (w : World) (db : GravityDb)
  | setBlockingstatus (enabled : Bool)
  | makeAnswer (question : Bool)
  | resolveClient (clientID : Nat) (name : List Char)
  | parseNeighbor (clientID : Nat) (hwaddr : List Nat)
  | gcStart (now : Int)
  | gcFinish (clock : ℚ)
  | gcFlush (now : Int) (clock : ℚ)

/-- The effect of an event on the shared memory, for all but the sections of a
non-flushing `runGC`. -/
def Store.handle (s : Store) : Event → Store
  | .newQuery w pk => (s.newQuery w pk).2
  | .registerQuery w pk => (s.registerQuery w pk).2
  | .resumeQuery w pk clientID domainID hwaddr => (s.resumeQuery w pk clientID domainID hwaddr).2
  | .querySetStatus id newStatus =>
    s.atQuery id (fun s p => s.querySetStatus p newStatus false)
  | .queryBlocked id newStatus =>
    s.atQuery id (fun s p =>
      s.queryBlocked p (some (s.q.mem p).domainID) (some (s.q.mem p).clientID) newStatus)
  | .querySetReply id flags reply rcode now =>
    s.atQuery id (fun s p => s.querySetReply p flags reply rcode now)
  | .queryInProgress id => s.queryInProgress id
  | .multipleReplies id firstID => (s.multipleReplies id firstID).1
  | .forwarded ip port id now => s.forwarded ip port id now
  | .cname w dst id now => s.cname w dst id now
  | .ensureSize => s.lockShm
  | .reload w db => s.reloadAllDomainlists w db
  | .setBlockingstatus enabled => { s with config := s.config.setBlockingstatus enabled }
  | .makeAnswer question => { s with statics := s.statics.makeAnswer question }
  | .resolveClient clientID name => s.resolveClient clientID name
  | .parseNeighbor clientID hwaddr => s.parseNeighbor clientID hwaddr
  | .gcFlush now clock => s.lockShm.runGC now true clock
  | .gcStart _ | .gcFinish _ => s

/-- One event. The non-flushing runs of the garbage collector are those of one
thread. -/
def System.step (s : System) : Event → System
  | .gcStart now =>
    match s.gc with
    | some _ => s
    | none =>
      let store := s.store.lockShm
      let mintime := gcMintime store.config now false
      let r := store.gcRemove mintime
      ⟨r.1,some ⟨r.2,mintime⟩⟩
  | .gcFinish clock =>
    match s.gc with
    | some g => ⟨s.store.lockShm.gcFinish g.removed g.mintime clock,none⟩
    | none => s
  | e => ⟨s.store.handle e,s.gc⟩

/-- The shared memory can hold the query array; `lock_shm` ends the process otherwise. -/
def Store.Fits (s : Store) : Prop := s.lockShm.q.queriesMax < uintMod

instance (s : Store) : Decidable s.Fits := inferInstanceAs (Decidable (_ < _))

def QueryStore.empty (pagesize : Nat) : QueryStore where
  mem := fun _ => .wiped
  queries := 0
  offset := 0
  queriesMax := pagesize
  removed := 0
  status := fun _ => 0
  reply := fun _ => 0
  querytype := fun _ => 0
  idMap := fun _ => (0,0)

def System.initial (cfg : Config) (w : World) (db : GravityDb) : System :=
  ⟨⟨.empty cfg.pagesize,.empty,.load w.engine db,.initial,cfg⟩,none⟩

def System.run (s : System) (events : List Event) : System := events.foldl System.step s

section

variable (w : World) (s : Store)

def Event.query (s : Store) : Event → Option Nat
  | .resumeQuery _ pk _ _ _ => s.lockShm.q.findQueryID (if pk.id < 0 then -pk.id else pk.id)
  | .querySetStatus id _ | .queryBlocked id _ | .querySetReply id _ _ _ _ | .queryInProgress id
  | .multipleReplies id _ | .forwarded _ _ id _ | .cname _ _ id _ => s.lockShm.q.findQueryID id
  | _ => none

def Event.isFlush : Event → Bool
  | .gcFlush _ _ => true
  | _ => false

/-- What an event outside the garbage collector does to the query array: nothing
beyond the lock, or it changes the one query it works on, or it appends one and goes
on with that. -/
inductive QueryStore.Effect (q : QueryStore) (query : Option Nat) : QueryStore → Prop where
  | same : QueryStore.Effect q query q
  | touched {q' : QueryStore} (i : Nat) (hi : query = some i) (hlive : i < q.queries)
      (ht : QueryStore.Touches (i+q.offset) q q') : QueryStore.Effect q query q'
  | appended {q' : QueryStore} (x : QueriesData) (hm : x.magic = true) (hd : x.db = none)
      (hi : x.flags.imported = false)
      (ht : QueryStore.Touches (q.queries+q.offset) (q.append (q.queries+q.offset) x) q') :
      QueryStore.Effect q query q'

variable {s}

theorem Store.atQuery_effect (hv : s.lockShm.q.Valid) (id : Int) (body : Store → Nat → Store)
    (hb : ∀ (s : Store) (p : Nat), QueryStore.Touches p s.q (body s p).q) :
    s.lockShm.q.Effect (s.lockShm.q.findQueryID id) (s.atQuery id body).q := by
  unfold atQuery
  simp only
  cases hf : s.lockShm.q.findQueryID id with
  | none => exact .same
  | some i =>
    have hi := hv.findQueryID_lt hf
    simp only [Option.bind_some,hv.getQuery_eq hi]
    exact .touched i rfl hi (hb _ _)

theorem Store.multipleReplies_effect (hv : s.lockShm.q.Valid) (id firstID : Int) :
    (s.multipleReplies id firstID).1 = s ∨
      s.lockShm.q.Effect (s.lockShm.q.findQueryID id) (s.multipleReplies id firstID).1.q := by
  unfold multipleReplies
  split
  · exact .inl rfl
  right
  simp only
  cases hf : s.lockShm.q.findQueryID id with
  | none => exact .same
  | some i =>
    have hi := hv.findQueryID_lt hf
    simp only
    split
    · exact .same
    rw [hv.getQuery_eq hi]
    split
    · rename_i src p _ hp
      cases hp
      exact .touched i rfl hi (touches_copyReply _ _ src)
    · exact .same

theorem Store.noteIdentity_q (pk : Packet) (clientID : Nat) (internal : Bool) :
    (s.noteIdentity w pk clientID internal).q = s.q := by
  have hface : (if internal = true then s else s.noteInterface w clientID pk.iface).q = s.q := by
    unfold noteInterface
    split
    · rfl
    simp only
    split
    · rfl
    · split
      · rfl
      · split <;> rfl
  unfold noteIdentity
  simp only
  split <;> exact hface

theorem Store.recordQuery_effect {q : QueryStore} (hq : s.q = q) (hv : q.Valid) (pk : Packet)
    (clientID : Nat) (internal : Bool) :
    ∃ x c d, x.magic = true ∧ x.db = none ∧ x.flags.imported = false ∧
      x.timestamp = pk.timestamp ∧
      (s.recordQuery w pk clientID internal).1 = .query c d (q.queries+q.offset) ∧
      (s.recordQuery w pk clientID internal).2.q = q.append (q.queries+q.offset) x := by
  subst hq
  unfold recordQuery
  rw [hv.getQuery_next]
  exact ⟨newQueriesData pk s.config clientID (s.t.countQuery pk clientID).1.1
    (s.t.countQuery pk clientID).1.2,_,_,rfl,rfl,rfl,rfl,rfl,noteIdentity_q w _ _ _⟩

theorem Store.registerLocked_effect (hv : s.q.Valid) (pk : Packet) :
    ((s.registerLocked w pk).2.q = s.q ∧ ∃ b, (s.registerLocked w pk).1 = .finished b) ∨
      ∃ x c d, x.magic = true ∧ x.db = none ∧ x.flags.imported = false ∧
        x.timestamp = pk.timestamp ∧
        (s.registerLocked w pk).1 = .query c d (s.q.queries+s.q.offset) ∧
        (s.registerLocked w pk).2.q = s.q.append (s.q.queries+s.q.offset) x := by
  unfold registerLocked
  dsimp only
  split
  · exact .inl ⟨rfl,_,rfl⟩
  split
  · exact .inl ⟨rfl,_,rfl⟩
  · right
    refine recordQuery_effect w ?_ hv pk _ _
    rfl

theorem Store.registerQuery_effect (pk : Packet) :
    ((s.registerQuery w pk).2.q = s.q ∧ ∃ b, (s.registerQuery w pk).1 = .finished b) ∨
      s.registerQuery w pk = s.lockShm.registerLocked w pk := by
  unfold registerQuery
  split
  · exact .inl ⟨rfl,_,rfl⟩
  dsimp only
  split
  · exact .inl ⟨rfl,_,rfl⟩
  · exact .inr rfl

section

variable (hv : s.lockShm.q.Valid)
include hv

theorem Store.registerQuery_event (pk : Packet) : (s.registerQuery w pk).2.q = s.q ∨
      s.lockShm.q.Effect none (s.registerQuery w pk).2.q := by
  obtain ⟨hq,_⟩ | hr := s.registerQuery_effect w pk
  · exact .inl hq
  rw [hr]
  obtain ⟨hq,_⟩ | ⟨x,c,d,hm,hd,hi,_,_,hq⟩ := s.lockShm.registerLocked_effect w hv pk
  · rw [hq]
    exact .inr .same
  · rw [hq]
    exact .inr (.appended x hm hd hi .refl)

theorem Store.newQuery_event (pk : Packet) :
    (s.newQuery w pk).2.q = s.q ∨ s.lockShm.q.Effect none (s.newQuery w pk).2.q := by
  obtain ⟨hq,b,hb⟩ | hr := s.registerQuery_effect w pk
  · left
    unfold newQuery
    rw [← hq]
    cases h : s.registerQuery w pk with
    | mk r s' =>
      rw [h] at hb
      cases hb
      rfl
  right
  unfold newQuery
  rw [hr]
  obtain ⟨hq,b,hb⟩ | ⟨x,c,d,hm,hd,hi,_,hreg,hq⟩ := s.lockShm.registerLocked_effect w hv pk
  · cases h : s.lockShm.registerLocked w pk with
    | mk r s' =>
      rw [h] at hb hq
      cases hb
      rw [hq]
      exact .same
  · cases h : s.lockShm.registerLocked w pk with
    | mk r s' =>
      rw [h] at hreg hq
      cases hreg
      refine .appended x hm hd hi ?_
      rw [← hq]
      exact s'.touches_decideQuery w _ pk c d

theorem Store.resumeQuery_event (pk : Packet) (clientID domainID : Nat) (hwaddr : Option (List Nat)) :
    s.lockShm.q.Effect (s.lockShm.q.findQueryID (if pk.id < 0 then -pk.id else pk.id))
      (s.resumeQuery w pk clientID domainID hwaddr).2.q := by
  unfold resumeQuery
  dsimp only
  generalize hs : (if (s.lockShm.t.clients clientID).magic = true then
    ({ s.lockShm with t := _ } : Store) else s.lockShm) = s'
  have hq : s'.q = s.lockShm.q := by
    rw [← hs]
    split <;> rfl
  rw [← hq] at hv ⊢
  cases hf : s'.q.findQueryID (if pk.id < 0 then -pk.id else pk.id) with
  | none => exact .same
  | some i =>
    have hi := hv.findQueryID_lt hf
    simp only [Option.bind_some,hv.getQuery_eq hi]
    exact .touched i rfl hi (s'.touches_decideQuery w _ pk clientID domainID)

theorem Store.handle_effect (e : Event) (hgc : e.isFlush = false) :
    (s.handle e).q = s.q ∨ s.lockShm.q.Effect (e.query s) (s.handle e).q := by
  cases e with
  | newQuery w pk => exact s.newQuery_event w hv pk
  | registerQuery w pk => exact s.registerQuery_event w hv pk
  | resumeQuery w pk clientID domainID hwaddr =>
    exact .inr (s.resumeQuery_event w hv pk clientID domainID hwaddr)
  | querySetStatus id newStatus =>
    exact .inr (s.atQuery_effect hv id _ fun s p => s.touches_querySetStatus p newStatus)
  | queryBlocked id newStatus =>
    exact .inr (s.atQuery_effect hv id _ fun s p => s.touches_queryBlocked p _ _ newStatus)
  | querySetReply id flags reply rcode now =>
    exact .inr (s.atQuery_effect hv id _ fun s p => s.touches_querySetReply p flags reply rcode now)
  | queryInProgress id =>
    refine .inr (s.atQuery_effect hv id _ fun s p => ?_)
    exact .trans (s.touches_querySetStatus p .inProgress) (touches_markChanged _ p)
  | multipleReplies id firstID =>
    obtain hs | heff := s.multipleReplies_effect hv id firstID
    · exact .inl (congrArg Store.q hs)
    · exact .inr heff
  | forwarded ip port id now =>
    exact .inr (s.atQuery_effect hv id _ fun s p => s.touches_forwardQuery p ip port now)
  | cname w dst id now =>
    by_cases hdeep : s.config.cnameDeepInspect = true
    · right
      simp only [handle,cname,hdeep,Bool.not_true,Bool.false_eq_true,if_false]
      exact s.atQuery_effect hv id _ fun s p => s.touches_inspectCname w p dst now
    · left
      simp [handle,cname,hdeep]
  | ensureSize | reload w db => exact .inr .same
  | setBlockingstatus enabled | makeAnswer question => exact .inl rfl
  | resolveClient clientID name | parseNeighbor clientID hwaddr => exact .inr .same
  | gcStart now | gcFinish clock => exact .inl rfl
  | gcFlush now clock => simp [Event.isFlush] at hgc

end

end

end Lorentz
