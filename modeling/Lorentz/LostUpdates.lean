import Lorentz.ConfigEdit
import Lorentz.ConfigFile

/-!
Concurrent requests on the configuration: each copies it, edits and validates the copy, replaces
the running one and writes the file, in interleaved steps.
-/

set_option autoImplicit false

namespace Lorentz

/-- How far a request is. `version` is the one of the configuration it copied. -/
inductive EditPhase where
  | arrived
  | copied (version : Nat) (copy : Configuration)
  | edited (version : Nat) (s : Edited)
  | replaced
  | done
  | refused (e : ApiError)

structure ConfigCall where
  request : ConfigRequest
  phase : EditPhase

inductive Change where
  | request (call : Nat) (r : ConfigRequest)
  | write

/-- `version` counts the changes of the running configuration and `history` lists them; the code
looks at neither. -/
structure Desk where
  running : Configuration
  version : Nat
  file : Option TomlFile
  calls : List ConfigCall
  history : List Change

/-- A request comes in, or the next step of one is made; `header` has the time for a file. -/
inductive DeskEvent where
  | arrive (r : ConfigRequest)
  | advance (call : Nat) (header : List Char)

namespace Desk

variable (P : Platform) (d : Desk)

def start (c : Configuration) (file : Option TomlFile) : Desk := ⟨c.setDebugFlags,0,file,[],[]⟩

def note (ch : Change) : Desk := { d with history := d.history ++ [ch] }

def setPhase (n : Nat) (r : ConfigRequest) (p : EditPhase) : Desk :=
  { d with calls := d.calls.set n ⟨r,p⟩ }

def replace (s : Edited) : Desk :=
  { d with running := s.conf.setDebugFlags, version := d.version+1 }

def write (header : List Char) : Desk :=
  let w := writeLorentztoml header d.running d.file
  { d with
    running := w.1
    file := w.2
    version := if w.1.value .dnsHosts = d.running.value .dnsHosts then d.version else d.version+1 }

def advance (n : Nat) (header : List Char) (call : ConfigCall) : Desk :=
  match call.phase with
  | .arrived =>
    match call.request.precheck d.running with
    | some e => d.setPhase n call.request (.refused e)
    | none => d.setPhase n call.request (.copied d.version d.running)
  | .copied version copy =>
    match P.edit call.request d.running copy with
    | .error e => d.setPhase n call.request (.refused e)
    | .ok s =>
      if s.changed then d.setPhase n call.request (.edited version s)
      else (d.note (.request n call.request)).setPhase n call.request .done
  | .edited _ s => ((d.replace s).note (.request n call.request)).setPhase n call.request .replaced
  | .replaced => ((d.write header).note .write).setPhase n call.request .done
  | .done | .refused _ => d

def step : DeskEvent → Desk
  | .arrive r => { d with calls := d.calls ++ [⟨r,.arrived⟩] }
  | .advance n header =>
    match d.calls[n]? with
    | some call => d.advance P n header call
    | none => d

/-- Nobody has changed the running configuration since the request copied it, when it edits
its copy and when it replaces. -/
def undisturbed : DeskEvent → Bool
  | .arrive _ => true
  | .advance n _ =>
    match d.calls[n]? with
    | some ⟨_,.copied version _⟩ | some ⟨_,.edited version _⟩ => version = d.version
    | _ => true

end Desk

def Change.serial (P : Platform) (c : Configuration) : Change → Option Configuration
  | .request _ r =>
    match P.edit r c c with
    | .error _ => none
    | .ok s => some (if s.changed then s.conf.setDebugFlags else c)
  | .write => some (writeLorentztoml [] c none).1

def serialRun (P : Platform) (c : Configuration) (h : List Change) : Option Configuration :=
  h.foldlM (Change.serial P) c

def Change.alters (i : Item) : Change → Bool
  | .request _ r => r.alters i
  | .write => false

def Change.call : Change → Option Nat
  | .request n _ => some n
  | .write => none

def EditPhase.accepted : EditPhase → Bool
  | .replaced | .done => true
  | _ => false

/-- The running configuration is what the accepted requests make of the first one in turn. What no
later one touches is as it was, in particular what a request has set; only the hosts may be
written otherwise. -/
structure Desk.NothingLost (P : Platform) (c : Configuration) (d : Desk) : Prop where
  serial : serialRun P c d.history = some d.running
  accepted : ∀ n r, Change.request n r ∈ d.history ↔
    ∃ p, d.calls[n]? = some ⟨r,p⟩ ∧ p.accepted = true
  once : (d.history.filterMap Change.call).Nodup
  kept : ∀ h h' c', d.history = h ++ h' → serialRun P c h = some c' →
    ∀ i, (∀ ch ∈ h', ch.alters i = false) → i ≠ .dnsHosts → d.running.value i = c'.value i
  hosts : ∀ h h' c', d.history = h ++ h' → serialRun P c h = some c' →
    (∀ ch ∈ h', ch.alters .dnsHosts = false) →
      ∃ n, d.running.strings .dnsHosts = (List.map sanitizeEntry)^[n] (c'.strings .dnsHosts)
  value : ∀ h h' n payload i elem, d.history = h ++ .request n (.patch payload) :: h' →
    ((ConfigRequest.patch payload).body.getD .null).getPath i.path = some elem →
    i.plain = true → i ≠ .dnsHosts → (∀ ch ∈ h', ch.alters i = false) →
      P.jsonValue i.type elem = .ok (d.running.value i)

section

variable {P : Platform} {c c' : Configuration} {ch : Change} {h h' : List Change}

theorem writeLorentztoml_running (header : List Char) (c : Configuration) (file : Option TomlFile) :
    (writeLorentztoml header c file).1 =
      if c.bool .miscReadOnly then c else c.sanitizeDnsHosts := by
  unfold writeLorentztoml
  split_ifs <;> rfl

theorem written_synced (header : List Char) (file : Option TomlFile) (hs : c.Synced) :
    (writeLorentztoml header c file).1.Synced := by
  rw [writeLorentztoml_running]
  split
  · exact hs
  · exact hs.set (by decide) (by decide) _

theorem Change.serial_synced (hs : c.Synced) (hc : ch.serial P c = some c') : c'.Synced := by
  cases ch with
  | request n r =>
    simp only [serial] at hc
    split at hc
    · cases hc
    cases hc
    split
    · exact Configuration.synced_setDebugFlags _
    · exact hs
  | write =>
    cases hc
    exact written_synced _ _ hs

theorem Change.serial_value (hs : c.Synced) (hc : ch.serial P c = some c') {i : Item}
    (hi : ch.alters i = false) (hne : i ≠ .dnsHosts) : c'.value i = c.value i := by
  cases ch with
  | request n r =>
    simp only [alters,ConfigRequest.alters,Bool.or_eq_false_iff] at hi
    simp only [serial] at hc
    split at hc
    · cases hc
    rename_i s he
    cases hc
    have hk := Platform.edit_keeps he
    split
    · by_cases hd : i = .debugAll
      · subst hd
        -- no debug item is touched, so that `debug.all` comes out as it was
        have hall : s.conf.allDebugSet = c.allDebugSet := by
          apply Configuration.allDebugSet_congr
          intro j hj
          apply hk.value
          have hall := hi.2
          simp only [decide_true,Bool.true_and,List.any_eq_false] at hall
          simpa [hj] using hall j (Item.mem_all j)
        rw [Configuration.setDebugFlags,Configuration.set_value_self,hall]
        exact hs.symm
      · rw [Configuration.setDebugFlags_value_of_ne _ hd]
        exact hk.value i hi.1
    · rfl
  | write =>
    cases hc
    rw [writeLorentztoml_running]
    split
    · rfl
    · exact c.set_value_of_ne hne _

theorem Change.serial_hosts (hc : ch.serial P c = some c') (hi : ch.alters .dnsHosts = false) :
    ∃ n, c'.strings .dnsHosts = (List.map sanitizeEntry)^[n] (c.strings .dnsHosts) := by
  cases ch with
  | request n r =>
    refine ⟨0,?_⟩
    simp only [alters,ConfigRequest.alters,Bool.or_eq_false_iff] at hi
    simp only [serial] at hc
    split at hc
    · cases hc
    rename_i he
    cases hc
    split
    · rw [Configuration.strings,Configuration.setDebugFlags_value_of_ne _ (by decide),
        (Platform.edit_keeps he).value _ hi.1]
      rfl
    · rfl
  | write =>
    cases hc
    rw [writeLorentztoml_running]
    split
    · exact ⟨0,rfl⟩
    · exact ⟨1,by simp [Configuration.sanitizeDnsHosts,Configuration.strings,ConfVal.toStrings]⟩

theorem serialRun_cons : serialRun P c (ch :: h) =
    (ch.serial P c).bind (fun c => serialRun P c h) := rfl

theorem serialRun_append :
    serialRun P c (h ++ h') = (serialRun P c h).bind (fun c => serialRun P c h') := by
  induction h generalizing c with
  | nil => rfl
  | cons ch h ih =>
    rw [List.cons_append,serialRun_cons,serialRun_cons]
    cases ch.serial P c with
    | none => rfl
    | some c₁ => exact ih

theorem serialRun_synced (hs : c.Synced) (hr : serialRun P c h = some c') : c'.Synced := by
  induction h generalizing c with
  | nil =>
    cases hr
    exact hs
  | cons ch h ih =>
    rw [serialRun_cons,Option.bind_eq_some_iff] at hr
    obtain ⟨c₁,hc,hr⟩ := hr
    exact ih (Change.serial_synced hs hc) hr

theorem serialRun_value (hs : c.Synced) (hr : serialRun P c h = some c') {i : Item}
    (hi : ∀ ch ∈ h, ch.alters i = false) (hne : i ≠ .dnsHosts) : c'.value i = c.value i := by
  induction h generalizing c with
  | nil =>
    cases hr
    rfl
  | cons ch h ih =>
    rw [serialRun_cons,Option.bind_eq_some_iff] at hr
    obtain ⟨c₁,hc,hr⟩ := hr
    rw [ih (Change.serial_synced hs hc) hr (fun ch hch => hi ch (by simp [hch])),
      Change.serial_value hs hc (hi ch (by simp)) hne]

theorem serialRun_hosts (hr : serialRun P c h = some c')
    (hi : ∀ ch ∈ h, ch.alters .dnsHosts = false) :
    ∃ n, c'.strings .dnsHosts = (List.map sanitizeEntry)^[n] (c.strings .dnsHosts) := by
  induction h generalizing c with
  | nil =>
    cases hr
    exact ⟨0,rfl⟩
  | cons ch h ih =>
    rw [serialRun_cons,Option.bind_eq_some_iff] at hr
    obtain ⟨c₁,hc,hr⟩ := hr
    obtain ⟨n,hn⟩ := ih hr (fun ch hch => hi ch (by simp [hch]))
    obtain ⟨m,hm⟩ := Change.serial_hosts hc (hi ch (by simp))
    exact ⟨n+m,by rw [hn,hm,Function.iterate_add_apply]⟩

theorem Change.serial_patch {n : Nat} {payload : Except (Option (List Char)) Json} {i : Item}
    {elem : Json} (hi : i.plain = true)
    (he : ((ConfigRequest.patch payload).body.getD .null).getPath i.path = some elem)
    (hc : (Change.request n (.patch payload)).serial P c = some c') :
    P.jsonValue i.type elem = .ok (c'.value i) := by
  simp only [serial] at hc
  split at hc
  · cases hc
  rename_i hs
  cases hc
  obtain ⟨hv,hsame⟩ := Platform.edit_patch hi he hs
  split
  · have hd : i ≠ .debugAll := by
      rintro rfl
      exact absurd hi (by decide)
    rw [Configuration.setDebugFlags_value_of_ne _ hd]
    exact hv
  · rename_i hch
    rw [← hsame (by simpa using hch)]
    exact hv

end

def Listed (calls : List ConfigCall) (h : List Change) : Prop :=
  ∀ n r, Change.request n r ∈ h ↔ ∃ p, calls[n]? = some ⟨r,p⟩ ∧ p.accepted = true

def EditPhase.Stands (P : Platform) (r : ConfigRequest) (running : Configuration) (version : Nat) :
    EditPhase → Prop
  | .copied v copy => v ≤ version ∧ (v = version → copy = running)
  | .edited v s => v ≤ version ∧ (v = version → P.edit r running running = .ok s ∧ s.changed = true)
  | _ => True

structure Desk.Inv (P : Platform) (c : Configuration) (d : Desk) : Prop where
  serial : serialRun P c d.history = some d.running
  listed : Listed d.calls d.history
  once : (d.history.filterMap Change.call).Nodup
  stands : ∀ (n : Nat) (r : ConfigRequest) (p : EditPhase), d.calls[n]? = some ⟨r,p⟩ →
    p.Stands P r d.running d.version

section

variable {P : Platform} {c : Configuration} {d : Desk} {n : Nat} {r : ConfigRequest}
  {p p' : EditPhase} {calls : List ConfigCall} {h : List Change}

theorem getElem?_set_call {m : Nat} {x y : ConfigCall} (hx : calls[n]? = some x) :
    (calls.set n y)[m]? = if m = n then some y else calls[m]? := by
  have hlt : n < calls.length := (List.getElem?_eq_some_iff.1 hx).1
  by_cases hm : n = m
  · subst hm
    simp [hlt]
  · simp [hm,Ne.symm hm]

section

variable (hl : Listed calls h)
include hl

theorem Listed.set (hn : calls[n]? = some ⟨r,p⟩) (hp : p'.accepted = p.accepted) :
    Listed (calls.set n ⟨r,p'⟩) h := by
  intro m q
  rw [hl m q,getElem?_set_call hn]
  by_cases hm : m = n
  · subst hm
    simp [hn,hp]
  · simp [hm]

theorem Listed.add (hn : calls[n]? = some ⟨r,p⟩) (hp : p'.accepted = true) :
    Listed (calls.set n ⟨r,p'⟩) (h ++ [.request n r]) := by
  intro m q
  rw [List.mem_append,hl m q,getElem?_set_call hn]
  by_cases hm : m = n
  · subst hm
    constructor
    · rintro (⟨p₁,hp₁,-⟩ | hq)
      · rw [hn] at hp₁
        simp only [Option.some.injEq,ConfigCall.mk.injEq] at hp₁
        exact ⟨p',by simp [hp₁.1],hp⟩
      · simp only [List.mem_singleton,Change.request.injEq,true_and] at hq
        exact ⟨p',by simp [hq],hp⟩
    · rintro ⟨p₁,hp₁,-⟩
      simp at hp₁
      exact .inr (by simp [hp₁.1])
  · simp [hm]

theorem Listed.write : Listed calls (h ++ [.write]) := by
  intro m q
  rw [List.mem_append,hl m q]
  simp

theorem Listed.arrive (q : ConfigRequest) : Listed (calls ++ [⟨q,.arrived⟩]) h := by
  intro m r
  rw [hl m r,List.getElem?_append]
  split
  · rfl
  · have hnone : calls[m]? = none := List.getElem?_eq_none (by omega)
    simp only [hnone,List.getElem?_singleton]
    split <;> simp [EditPhase.accepted]

theorem Listed.once (hn : calls[n]? = some ⟨r,p⟩) (hp : p.accepted = false)
    (ho : (h.filterMap Change.call).Nodup) :
    ((h ++ [Change.request n r]).filterMap Change.call).Nodup := by
  rw [List.filterMap_append,List.nodup_append]
  refine ⟨ho,by simp [Change.call],?_⟩
  intro a ha b hb hab
  simp only [List.filterMap_cons,List.filterMap_nil,Change.call,List.mem_singleton] at hb
  subst hb hab
  obtain ⟨ch,hch,hcall⟩ := List.mem_filterMap.1 ha
  cases ch with
  | request m q =>
    cases hcall
    obtain ⟨p₁,hp₁,hacc⟩ := (hl a q).1 hch
    rw [hn] at hp₁
    simp only [Option.some.injEq,ConfigCall.mk.injEq] at hp₁
    rw [← hp₁.2,hp] at hacc
    cases hacc
  | write => cases hcall

end

theorem EditPhase.Stands.later {running running' : Configuration} {v v' : Nat}
    (hs : p.Stands P r running v) (hv : v < v') : p.Stands P r running' v' := by
  cases p with
  | copied w copy | edited w s => exact ⟨by have := hs.1; omega,fun hw => by have := hs.1; omega⟩
  | arrived => trivial
  | replaced => trivial
  | done => trivial
  | refused e => trivial

theorem Desk.Inv.setPhase (hd : d.Inv P c) (hn : d.calls[n]? = some ⟨r,p⟩)
    (hp : p'.accepted = p.accepted) (hs : p'.Stands P r d.running d.version) :
    (d.setPhase n r p').Inv P c where
  serial := hd.serial
  listed := hd.listed.set hn hp
  once := hd.once
  stands m q p₁ hm := by
    simp only [Desk.setPhase,getElem?_set_call hn] at hm
    split at hm
    · cases hm
      exact hs
    · exact hd.stands m q p₁ hm

theorem Desk.Inv.accept {d' : Desk} (hd : d.Inv P c) (hn : d.calls[n]? = some ⟨r,p⟩)
    (hacc : p.accepted = false) (hp : p'.accepted = true) (hcalls : d'.calls = d.calls)
    (hh : d'.history = d.history)
    (hc : (Change.request n r).serial P d.running = some d'.running)
    (hstands : ∀ (m : Nat) (q : ConfigRequest) (p : EditPhase), d.calls[m]? = some ⟨q,p⟩ →
      p.Stands P q d'.running d'.version)
    (hs : p'.Stands P r d'.running d'.version) :
    ((d'.note (.request n r)).setPhase n r p').Inv P c where
  serial := by
    simp only [Desk.setPhase,Desk.note,hh,serialRun_append,hd.serial,Option.bind_some]
    rw [serialRun_cons,hc]
    rfl
  listed := by
    simp only [Desk.setPhase,Desk.note,hh,hcalls]
    exact hd.listed.add hn hp
  once := by
    simp only [Desk.setPhase,Desk.note,hh]
    exact hd.listed.once hn hacc hd.once
  stands m q p₁ hm := by
    simp only [Desk.setPhase,Desk.note,hcalls,getElem?_set_call hn] at hm
    split at hm
    · cases hm
      exact hs
    · exact hstands m q p₁ hm

theorem written_eq (header : List Char) (c : Configuration) (file : Option TomlFile)
    (h : (writeLorentztoml header c file).1.value .dnsHosts = c.value .dnsHosts) :
    (writeLorentztoml header c file).1 = c := by
  rw [writeLorentztoml_running] at h ⊢
  split
  · rfl
  rename_i hro
  rw [if_neg hro] at h
  rw [Configuration.sanitizeDnsHosts,Configuration.set_value_self] at h
  rw [Configuration.sanitizeDnsHosts,Configuration.set,h,Function.update_eq_self]

section

variable (hd : d.Inv P c)
include hd

theorem Desk.Inv.write (header : List Char) : ((d.write header).note .write).Inv P c where
  serial := by
    simp only [Desk.note,Desk.write,serialRun_append,hd.serial,Option.bind_some]
    rw [serialRun_cons,Change.serial,writeLorentztoml_running,writeLorentztoml_running]
    rfl
  listed := hd.listed.write
  once := by
    have hw : [Change.write].filterMap Change.call = [] := rfl
    simpa [Desk.note,Desk.write,hw] using hd.once
  stands m q p₁ hm := by
    have hst := hd.stands m q p₁ hm
    simp only [Desk.note,Desk.write]
    split
    · rename_i hsame
      rw [written_eq header d.running d.file hsame]
      exact hst
    · exact hst.later (by omega)

theorem Desk.Inv.advance (header : List Char) (hn : d.calls[n]? = some ⟨r,p⟩)
    (hu : d.undisturbed (.advance n header) = true) : (d.advance P n header ⟨r,p⟩).Inv P c := by
  have hst := hd.stands n r p hn
  cases p with
  | arrived =>
    simp only [Desk.advance]
    split
    · exact hd.setPhase hn rfl trivial
    · exact hd.setPhase hn rfl ⟨le_refl _,fun _ => rfl⟩
  | copied v copy =>
    have hv : v = d.version := by simpa [Desk.undisturbed,hn] using hu
    subst hv
    obtain rfl := hst.2 rfl
    simp only [Desk.advance]
    split
    · exact hd.setPhase hn rfl trivial
    rename_i hs
    split
    · rename_i hch
      exact hd.setPhase hn rfl ⟨le_refl _,fun _ => ⟨hs,hch⟩⟩
    · rename_i hch
      refine hd.accept hn rfl rfl rfl rfl ?_ hd.stands trivial
      simp [Change.serial,hs,hch]
  | edited v s =>
    have hv : v = d.version := by simpa [Desk.undisturbed,hn] using hu
    subst hv
    obtain ⟨hs,hch⟩ := hst.2 rfl
    refine hd.accept hn rfl rfl rfl rfl ?_ ?_ trivial
    · simp [Change.serial,hs,hch,Desk.replace]
    · exact fun m q p₁ hm => (hd.stands m q p₁ hm).later (Nat.lt_succ_self _)
  | replaced => exact (hd.write header).setPhase hn rfl trivial
  | done | refused e => exact hd

theorem Desk.Inv.step (e : DeskEvent) (hu : d.undisturbed e = true) : (d.step P e).Inv P c := by
  cases e with
  | arrive q =>
    refine ⟨hd.serial,hd.listed.arrive q,hd.once,fun m r p hm => ?_⟩
    simp only [Desk.step,List.getElem?_append] at hm
    split at hm
    · exact hd.stands m r p hm
    rw [List.getElem?_singleton] at hm
    split at hm
    · cases hm
      trivial
    · cases hm
  | advance n header =>
    simp only [Desk.step]
    split
    · rename_i hn
      exact hd.advance header hn hu
    · exact hd

theorem Desk.Inv.nothingLost (hc : c.Synced) : d.NothingLost P c where
  serial := hd.serial
  accepted := hd.listed
  once := hd.once
  kept h h' c' hh hr i hi hne := by
    have hrun := hd.serial
    rw [hh,serialRun_append,hr] at hrun
    exact serialRun_value (serialRun_synced hc hr) hrun hi hne
  hosts h h' c' hh hr hi := by
    have hrun := hd.serial
    rw [hh,serialRun_append,hr] at hrun
    exact serialRun_hosts hrun hi
  value h h' n payload i elem hh he hp hne hi := by
    have hrun := hd.serial
    rw [hh,serialRun_append,Option.bind_eq_some_iff] at hrun
    obtain ⟨c₁,hr,hrun⟩ := hrun
    rw [serialRun_cons,Option.bind_eq_some_iff] at hrun
    obtain ⟨c₂,hch,hrun⟩ := hrun
    have hs₂ := Change.serial_synced (serialRun_synced hc hr) hch
    rw [serialRun_value hs₂ hrun hi hne]
    exact Change.serial_patch hp he hch

end

end

/-- In every run in which the running configuration is not changed between the copy of a request
and its replacing, no accepted change is lost. -/
theorem Desk.accepted_changes_not_lost (P : Platform) (c : Configuration) (file : Option TomlFile)
    (es : List DeskEvent) (hm : Machine.Meets (Desk.step P) Desk.undisturbed
      (Desk.start c file) es = true) :
    (Machine.run (Desk.step P) (Desk.start c file) es).NothingLost P c.setDebugFlags := by
  have hstart : (Desk.start c file).Inv P c.setDebugFlags :=
    ⟨rfl,by intro n r; simp [Desk.start],by simp [Desk.start],
      by intro n r p h; simp [Desk.start] at h⟩
  have hstep : ∀ (d : Desk) (e : DeskEvent), d.undisturbed e = true →
      d.Inv P c.setDebugFlags → (d.step P e).Inv P c.setDebugFlags :=
    fun d e hu hd => hd.step e hu
  have hrun := Machine.Meets.keeps hstep hstart hm
  exact hrun.nothingLost (Configuration.synced_setDebugFlags c)

def patchPassword : ConfigRequest :=
  .patch (.ok (.nest ["config","webserver","api","password"] (.str ['n','e','w'])))

def patchBlockTTL : ConfigRequest := .patch (.ok (.nest ["config","dns","blockTTL"] (.num 5)))

def oneAfterTheOther : List DeskEvent :=
  [.arrive patchPassword,.advance 0 [],.advance 0 [],.advance 0 [],.arrive patchBlockTTL,
    .advance 0 [],.advance 1 [],.advance 1 [],.advance 1 [],.advance 1 []]

theorem Desk.accepted_changes_not_lost_sample :
    Machine.Meets (Desk.step .plain) Desk.undisturbed (Desk.start .initial none) oneAfterTheOther =
      true ∧
    (Machine.run (Desk.step .plain) (Desk.start .initial none) oneAfterTheOther).NothingLost
      .plain Configuration.initial.setDebugFlags := by
  have hm : Machine.Meets (Desk.step .plain) Desk.undisturbed (Desk.start .initial none)
      oneAfterTheOther = true := by decide +kernel
  exact ⟨hm,Desk.accepted_changes_not_lost .plain .initial none oneAfterTheOther hm⟩

def bothAtOnce : List DeskEvent :=
  [.arrive patchPassword,.arrive patchBlockTTL,.advance 0 [],.advance 1 [],.advance 0 [],
    .advance 0 [],.advance 0 [],.advance 1 [],.advance 1 [],.advance 1 []]

/-- Both are accepted, and the one that is not about the password takes it back. -/
theorem Desk.password_change_lost :
    (Machine.run (Desk.step .plain) (Desk.start .initial none) bothAtOnce).calls.map
      (fun call => call.phase.accepted) = [true,true] ∧
    patchPassword.alters .webserverApiPwhash = true ∧
    patchBlockTTL.alters .webserverApiPwhash = false ∧
    (Machine.run (Desk.step .plain) (Desk.start .initial none) (bothAtOnce.take 7)).running.text
      .webserverApiPwhash = sampleHashing.createPassword (some ()) "new".toList ∧
    (Machine.run (Desk.step .plain) (Desk.start .initial none) bothAtOnce).running.text
      .webserverApiPwhash = [] := by
  decide

end Lorentz
