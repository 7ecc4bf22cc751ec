import Lorentz.Export

/-!
Which rows reach the long-term database: periodic exports skip the last seconds, a final one
ends the run, and no statement fails.
-/

set_option autoImplicit false

namespace Lorentz
open Watermark List

def CopyAnswers.okay : CopyAnswers := ⟨true,true,fun _ => true,true⟩

def ExportAnswers.okay (remote : Bool) : ExportAnswers :=
  if remote then
    .server ⟨false,true,true,.okay,⟨true,true,true⟩,fun _ => .okay,true⟩
  else .file ⟨false,true,true,true,0,⟨true,true,true⟩,fun _ => true,true,true⟩

theorem CopyAnswers.okay_succeeds (n : Nat) : CopyAnswers.okay.succeeds n = true := by
  simp [okay,succeeds]

section

variable {α : Type} {dst rows : List (Int × α)}

theorem copyRows_okay (h : ((dst ++ rows).map Prod.fst).Nodup) (n changed : Nat) :
    copyRows .okay n rows changed dst = some (changed+rows.length,dst ++ rows) := by
  induction rows generalizing n changed dst with
  | nil => simp [copyRows,CopyAnswers.okay]
  | cons r rows ih =>
    have hnew : (dst.map Prod.fst).contains r.1 = false := by
      rw [contains_eq_mem,decide_eq_false_iff_not]
      rw [map_append,map_cons,nodup_middle,nodup_cons] at h
      exact fun hmem => h.1 (mem_append_left _ hmem)
    have hrest : (((dst ++ [r]) ++ rows).map Prod.fst).Nodup := by
      rwa [append_assoc,singleton_append]
    have hrow : CopyAnswers.okay.rows n = true := rfl
    simp only [copyRows,hnew,Bool.false_eq_true,if_false]
    rw [if_pos hrow,ih hrest,append_assoc,singleton_append,length_cons]
    congr 2
    omega

theorem copyNewRows_copies {p : Int × α → Bool} {src : List (Int × α)}
    (hs : (src.map Prod.fst).Nodup) (hd : (dst.map Prod.fst).Nodup) :
    ∃ dst', copyNewRows .okay p src dst = some ((fresh Prod.fst p src dst).length,dst') ∧
      Copies Prod.fst p src dst dst' := by
  let rows := (fresh Prod.fst p src dst).insertionSort (fun r r' => r.1 ≤ r'.1)
  have hperm : rows.Perm (fresh Prod.fst p src dst) := perm_insertionSort _ _
  have hcopies : Copies Prod.fst p src dst (dst ++ rows) := hperm.append_left dst
  refine ⟨dst ++ rows,?_,hcopies⟩
  have := copyRows_okay (hcopies.dstKeys hs hd) 0 0
  rw [Nat.zero_add,hperm.length_eq] at this
  exact this

end

namespace Exporter

variable (s : Exporter)

theorem queries_storeCounters (a : CounterAnswers) (n : UInt64) (p : Pending) (d : LongTerm) :
    (storeCounters a n p d).2.queries = d.queries := by
  unfold storeCounters attempt
  cases a.timestamp <;> cases a.total <;> cases a.blocked <;> rfl

theorem export_copies (remote : Bool) (now : ℚ) (final : Bool)
    (hm : (s.mem.queries.map Prod.fst).Nodup) (hd : (s.disk.queries.map Prod.fst).Nodup) :
    (s.exportQueriesToDisk (.okay remote) true now final).2.mem = s.mem ∧
      Copies Prod.fst (isBefore (exportTime now final)) s.mem.queries s.disk.queries
        (s.exportQueriesToDisk (.okay remote) true now final).2.disk.queries := by
  cases remote with
  | false =>
    refine ⟨rfl,?_⟩
    change Copies _ _ _ _ (s.linksToFile _ (s.storeToFile _ (exportTime now final)).2).queries
    rw [linksToFile_keeps LongTerm.queries (fun _ _ _ => rfl) s _ (fun _ _ => rfl)]
    unfold storeToFile
    dsimp only
    split <;> exact List.Perm.refl _
  | true =>
    obtain ⟨rows,hcopy,hcopies⟩ := copyNewRows_copies (p := isBefore (exportTime now final)) hm hd
    have hstore : ∃ r, s.storeToServer ⟨false,true,true,.okay,⟨true,true,true⟩,
        fun _ => .okay,true⟩ (exportTime now final) =
          some ((s.newQueries (exportTime now final)).length,r) ∧ r.2.queries = rows := by
      unfold storeToServer
      rw [hcopy]
      dsimp only
      split
      · refine ⟨_,rfl,?_⟩
        exact queries_storeCounters _ _ _ _
      · exact ⟨_,rfl,rfl⟩
    obtain ⟨⟨p,d⟩,hs,hrows⟩ := hstore
    have hlinks : (linksToServer ⟨false,true,true,.okay,⟨true,true,true⟩,fun _ => .okay,true⟩
        s.mem.links Subtable.all d).isSome = true := by
      rw [linksToServer_isSome _ _ (by decide),all_eq_true]
      exact fun t _ => CopyAnswers.okay_succeeds _
    obtain ⟨d',hd'⟩ := Option.isSome_iff_exists.1 hlinks
    have hend : s.exportQueriesToDisk (.okay true) true now final =
        (.done true,⟨s.mem,d',p⟩) := by
      simp only [exportQueriesToDisk,ExportAnswers.okay,if_true,exportToServer,Bool.not_true,
        Bool.or_self,Bool.false_eq_true,if_false,hs,hd']
    rw [hend]
    refine ⟨rfl,?_⟩
    have hkeep : d'.queries = d.queries :=
      linksToServer_keeps LongTerm.queries (fun _ _ _ => rfl) hd'
    rw [hkeep,hrows]
    exact hcopies

end Exporter

structure ExportRun where
  x : Exporter
  maxid : Int

/-- The id of an inserted row is above all others by `gap`. -/
inductive TableEvent where
  | insert (gap : Nat) (row : Row)
  | periodic (now : ℚ)

namespace ExportRun

variable (remote : Bool) (s : ExportRun)

def mem : List (Int × Row) := s.x.mem.queries

def disk : List (Int × Row) := s.x.disk.queries

def insert (gap : Nat) (row : Row) : ExportRun :=
  let id := s.maxid+1+gap
  ⟨{ s.x with mem := { s.x.mem with queries := s.mem ++ [(id,row)] } },id⟩

def exported (now : ℚ) (final : Bool) : ExportRun :=
  { s with x := (s.x.exportQueriesToDisk (.okay remote) true now final).2 }

def step : TableEvent → ExportRun
  | .insert gap row => s.insert gap row
  | .periodic now => s.exported remote now false

def finish (now : ℚ) (es : List TableEvent) : ExportRun :=
  (es.foldl (step remote) s).exported remote now true

def waiting : List (Int × Row) := Watermark.pending Prod.fst s.mem s.disk

/-- A periodic export passes no row over for one with a higher id, and at the end all
waiting rows are older than the current time. -/
def Orderly (now : ℚ) : ExportRun → List TableEvent → Prop
  | s, [] => ∀ r ∈ s.waiting, isBefore now r = true
  | s, .insert gap row :: es => Orderly now (s.insert gap row) es
  | s, .periodic t :: es =>
    Ordered Prod.fst (isBefore (exportTime t false)) s.waiting ∧
      Orderly now (s.exported remote t false) es

/-- Both tables have different ids, none above `maxid`. -/
structure Numbered (s : ExportRun) : Prop where
  memKeys : (s.mem.map Prod.fst).Nodup
  diskKeys : (s.disk.map Prod.fst).Nodup
  memBound : ∀ r ∈ s.mem, r.1 ≤ s.maxid
  diskBound : high Prod.fst s.disk ≤ s.maxid

variable {remote s} {now : ℚ} {final : Bool}

section

variable (h : s.Numbered)
include h

theorem Numbered.copies (remote : Bool) (now : ℚ) (final : Bool) :
    (s.exported remote now final).mem = s.mem ∧
      Copies Prod.fst (isBefore (exportTime now final)) s.mem s.disk
        (s.exported remote now final).disk := by
  obtain ⟨hmem,hcopies⟩ := s.x.export_copies remote now final h.memKeys h.diskKeys
  exact ⟨congrArg MemDb.queries hmem,hcopies⟩

theorem Numbered.exported : (s.exported remote now final).Numbered := by
  obtain ⟨hmem,hcopies⟩ := h.copies remote now final
  refine ⟨?_,hcopies.dstKeys h.memKeys h.diskKeys,?_,hcopies.high_le_of h.memBound h.diskBound⟩
  · rw [hmem]
    exact h.memKeys
  · rw [hmem]
    exact h.memBound

theorem Numbered.insert (gap : Nat) (row : Row) : (s.insert gap row).Numbered where
  memKeys := by
    change ((s.mem ++ [(s.maxid+1+gap,row)]).map Prod.fst).Nodup
    rw [map_append,nodup_append']
    refine ⟨h.memKeys,nodup_singleton _,?_⟩
    intro k hk hk'
    obtain ⟨r,hr,rfl⟩ := mem_map.1 hk
    have := h.memBound r hr
    simp only [map_cons,map_nil,mem_singleton] at hk'
    omega
  diskKeys := h.diskKeys
  memBound r hr := by
    change r.1 ≤ s.maxid+1+gap
    rcases mem_append.1 hr with hold | hnew
    · have := h.memBound r hold
      omega
    · rw [mem_singleton] at hnew
      rw [hnew]
  diskBound := by
    have := h.diskBound
    change high Prod.fst s.disk ≤ s.maxid+1+gap
    omega

theorem Numbered.step (e : TableEvent) : (s.step remote e).Numbered := by
  cases e with
  | insert gap row => exact h.insert gap row
  | periodic now => exact h.exported

theorem Numbered.run (es : List TableEvent) : (es.foldl (ExportRun.step remote) s).Numbered := by
  induction es generalizing s with
  | nil => exact h
  | cons e es ih => exact ih (h.step e)

theorem lost_run (es : List TableEvent) (hl : Lost Prod.fst s.mem s.disk) :
    Lost Prod.fst (s.finish remote now es).mem (s.finish remote now es).disk := by
  induction es generalizing s with
  | nil =>
    obtain ⟨hmem,hcopies⟩ := h.copies remote now true
    rw [show (s.finish remote now []).mem = s.mem from hmem]
    exact hcopies.lost hl
  | cons e es ih =>
    refine ih (h.step e) ?_
    cases e with
    | insert gap row => exact hl.insert
    | periodic t =>
      obtain ⟨hmem,hcopies⟩ := h.copies remote t false
      rw [show (s.step remote (.periodic t)).mem = s.mem from hmem]
      exact hcopies.lost hl

end

def Complete (s : ExportRun) : Prop := ∀ r ∈ s.mem, r ∈ s.disk

theorem complete_iff (h : s.Numbered) (hs : Synced Prod.fst s.mem s.disk) (es : List TableEvent) :
    (s.finish remote now es).Complete ↔ Orderly remote now s es := by
  have htime : exportTime now true = now := by simp [exportTime]
  induction es generalizing s with
  | nil =>
    obtain ⟨hmem,hcopies⟩ := h.copies remote now true
    rw [htime] at hcopies
    have hfinish : (s.finish remote now []).Complete ↔
        ∀ r ∈ s.mem, r ∈ (s.exported remote now true).disk := by
      unfold Complete
      rw [show (s.finish remote now []).mem = s.mem from hmem]
      exact Iff.rfl
    rw [hfinish]
    exact ⟨fun hc r hr => hcopies.of_mem_pending hr (hc r (mem_pending.1 hr).1),
      fun ho r hr => hcopies.complete hs ho hr⟩
  | cons e es ih =>
    cases e with
    | insert gap row =>
      refine ih (h.insert gap row) (hs.insert (fun r hr => ?_) ?_)
      · have := h.memBound r hr
        omega
      · have := h.diskBound
        omega
    | periodic t =>
      obtain ⟨hmem,hcopies⟩ := h.copies remote t false
      by_cases ho : Ordered Prod.fst (isBefore (exportTime t false)) s.waiting
      · have hnext : Synced Prod.fst (s.exported remote t false).mem
          (s.exported remote t false).disk := by
          rw [hmem]
          exact hcopies.synced hs ho
        rw [Orderly,and_iff_right ho]
        exact ih h.exported hnext
      refine iff_of_false (fun hc => ?_) (fun hn => ho hn.1)
      have hlost : Lost Prod.fst (s.exported remote t false).mem
        (s.exported remote t false).disk := by
        rw [hmem]
        exact hcopies.lost_of_not_ordered ho
      obtain ⟨r,hr,-,hn⟩ := lost_run h.exported es hlost
      exact hn (hc r hr)

theorem perm_run {s' : ExportRun} (h : s.Numbered) (h' : s'.Numbered) (hm : s.mem = s'.mem)
    (hi : s.maxid = s'.maxid) (hp : s.disk.Perm s'.disk) (es : List TableEvent) :
    (s.finish false now es).mem = (s'.finish true now es).mem ∧
      (s.finish false now es).disk.Perm (s'.finish true now es).disk := by
  have hexport : ∀ {s s' : ExportRun}, s.Numbered → s'.Numbered → s.mem = s'.mem →
      s.disk.Perm s'.disk → ∀ t final,
      (s.exported false t final).mem = (s'.exported true t final).mem ∧
        (s.exported false t final).disk.Perm (s'.exported true t final).disk := by
    intro s s' h h' hm hp t final
    obtain ⟨hmem,hcopies⟩ := h.copies false t final
    obtain ⟨hmem',hcopies'⟩ := h'.copies true t final
    rw [← hm] at hcopies'
    exact ⟨hmem.trans (hm.trans hmem'.symm),hcopies.perm hcopies' hp⟩
  induction es generalizing s s' with
  | nil => exact hexport h h' hm hp now true
  | cons e es ih =>
    cases e with
    | insert gap row =>
      refine ih (h.insert gap row) (h'.insert gap row) ?_ ?_ hp
      · change s.mem ++ [(s.maxid+1+gap,row)] = s'.mem ++ [(s'.maxid+1+gap,row)]
        rw [hm,hi]
      · change s.maxid+1+gap = s'.maxid+1+gap
        rw [hi]
    | periodic t =>
      obtain ⟨hmem,hperm⟩ := hexport h h' hm hp t false
      exact ih h.exported h'.exported hmem hi hperm

theorem count_eq_one_iff (h : s.Numbered) :
    (∀ r ∈ s.mem, s.disk.count r = 1) ↔ s.Complete := by
  refine forall₂_congr fun r _ => ⟨fun hc => count_pos_iff.1 (by omega),fun hmem => ?_⟩
  exact count_eq_one_of_mem (Nodup.of_map _ h.diskKeys) hmem

/-- Every row is exported exactly once if and only if the run is orderly, and the variants
do the same. -/
theorem rows_exported_once (s : ExportRun) (h : s.Numbered) (hs : Synced Prod.fst s.mem s.disk)
    (now : ℚ) (es : List TableEvent) :
    (∀ remote, (∀ r ∈ (s.finish remote now es).mem, (s.finish remote now es).disk.count r = 1) ↔
      Orderly remote now s es) ∧
      (s.finish false now es).disk.Perm (s.finish true now es).disk := by
  refine ⟨fun remote => ?_,(perm_run h h rfl rfl (List.Perm.refl _) es).2⟩
  have hend : (s.finish remote now es).Numbered := (h.run es).exported
  rw [count_eq_one_iff hend]
  exact complete_iff h hs es

def empty : ExportRun := ⟨⟨⟨[],.empty,[]⟩,⟨[],fun _ => [],[],0,0,0⟩,⟨0,0,0,0⟩⟩,-1⟩

def rowAt (timestamp : ℚ) : Row :=
  ⟨timestamp,1,.forwarded,1,1,none,none,.unknown,none,.unknown,none,0⟩

theorem rows_exported_once_sample :
    let s := empty.finish true 300 [.insert 0 (rowAt 100),.insert 3 (rowAt 200),.periodic 210]
    s.mem.length = 2 ∧ ∀ r ∈ s.mem, s.disk.count r = 1 := by
  intro s
  have hnumbered : empty.Numbered := ⟨by decide,by decide,by decide,by decide⟩
  have hsynced : Synced Prod.fst empty.mem empty.disk := ⟨by decide,by decide,by decide⟩
  refine ⟨by decide +kernel,((rows_exported_once empty hnumbered hsynced 300 _).1 true).2 ?_⟩
  simp only [Orderly]
  decide +kernel

def clockSetBack : List TableEvent := [.insert 0 (rowAt 1000),.insert 0 (rowAt 500),.periodic 540]

/-- The periodic export stores the second of two queries, and no later one looks at the first; nor
has the final export a query of the current moment. -/
theorem row_never_exported :
    (∀ remote, (0,rowAt 1000) ∈ (empty.finish remote 2000 clockSetBack).mem ∧
      (0,rowAt 1000) ∉ (empty.finish remote 2000 clockSetBack).disk) ∧
      ∀ remote, (0,rowAt 100) ∈ (empty.finish remote 100 [.insert 0 (rowAt 100)]).mem ∧
        (0,rowAt 100) ∉ (empty.finish remote 100 [.insert 0 (rowAt 100)]).disk := by
  decide +kernel

end ExportRun

end Lorentz
