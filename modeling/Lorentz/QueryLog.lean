import Lorentz.Library.Monitor

/-!
The query log of the API, page by page: `api_queries` over a table that grows, and a client that
asks for the pages behind the first with the cursor it was given.
-/

set_option autoImplicit false

namespace Lorentz
open List

def API_QUERIES_MAX_ROWS : Nat := 10000

/-- What a request asks for: joins and conditions, the two configured lists of exclusions, and
whether any of them is there. -/
structure LogFilter (α : Type) where
  matching : α → Bool
  excludedDomain : α → Bool
  excludedClient : α → Bool
  filtering : Bool

def LogFilter.keeps {α : Type} (f : LogFilter α) (r : α) : Bool :=
  f.matching r && !f.excludedDomain r && !f.excludedClient r

structure PageState (α : Type) where
  added : List α
  recordsCounted : Nat
  regexSkipped : Nat
  skipTheRest : Bool

section

variable {α : Type}

def PageState.excluded (s : PageState α) : PageState α :=
  { s with
    recordsCounted := (2^32-1+s.recordsCounted) % 2^32
    regexSkipped := (s.regexSkipped+1) % 2^32 }

def PageState.counted (s : PageState α) : PageState α :=
  { s with recordsCounted := (s.recordsCounted+1) % 2^32 }

def pageLoop (f : LogFilter α) (length start : Nat) : List α → PageState α → PageState α
  | [], s => s
  | r :: rows, s =>
    let s := s.counted
    if f.excludedDomain r then pageLoop f length start rows s.excluded
    else if f.excludedClient r then pageLoop f length start rows s.excluded
    else if s.skipTheRest then pageLoop f length start rows s
    else if 0 < length ∧ length ≤ s.added.length then
      if f.filtering then pageLoop f length start rows { s with skipTheRest := true } else s
    else if 0 < start ∧ s.recordsCounted ≤ start then pageLoop f length start rows s
    else if 0 < length ∧ length ≤ s.added.length then pageLoop f length start rows s
    else if length ≤ s.added.length then
      if f.filtering then pageLoop f length start rows { s with skipTheRest := true } else s
    else pageLoop f length start rows { s with added := s.added ++ [r] }

/-- The length of a page: a number that is no `int` is not read, and the default stays. -/
def pageLength (length : Nat) : Nat :=
  let length := if length < 2^31 then length else 100
  if length ≤ 0 ∨ API_QUERIES_MAX_ROWS < length then API_QUERIES_MAX_ROWS else length

/-- A start that is no `unsigned int` is not read. -/
def pageStart (start : Nat) : Nat := if start < 2^32 then start else 0

def unsignedLong (n : Int) : Int := if n < 0 then n+2^64 else n

/-- The rows `api_queries` sends in the default order, or nothing for a refused cursor; the table
is ordered by id, and `maximum` is the highest level of privacy. -/
def apiQueries (key : α → Nat) (f : LogFilter α) (maximum : Bool) (largest : Int) (table : List α)
    (length start : Nat) (cursor : Option Int) : Option (List α) :=
  if maximum then some []
  else
    let read (rows : List α) : List α :=
      (pageLoop f (pageLength length) (pageStart start) rows ⟨[],0,0,false⟩).added
    match cursor with
    | none => some (read (table.filter f.matching).reverse)
    | some c =>
      if unsignedLong c ≤ unsignedLong largest then
        some (read (table.filter (fun r => f.matching r && (key r : Int) ≤ c)).reverse)
      else none

section

variable {f : LogFilter α} {length start : Nat} (hl : 0 < length)
include hl

theorem pageLoop_full (rows : List α) (s : PageState α) (hfull : s.added.length = length) :
    (pageLoop f length start rows s).added = s.added := by
  induction rows generalizing s with
  | nil => rfl
  | cons r rows ih =>
    have hge : 0 < length ∧ length ≤ s.counted.added.length := ⟨hl,Nat.le_of_eq hfull.symm⟩
    have hcounted : (pageLoop f length start rows s.counted).added = s.added := ih s.counted hfull
    have hexcluded : (pageLoop f length start rows s.counted.excluded).added = s.added :=
      ih s.counted.excluded hfull
    unfold pageLoop
    dsimp only
    rw [if_pos hge]
    split_ifs
    · exact hexcluded
    · exact hexcluded
    · exact hcounted
    · exact ih { s.counted with skipTheRest := true } hfull
    · rfl

/-- A page that is not full has taken every row it counted behind `start`. -/
theorem pageLoop_added (hsum : start+length < 2^32) (rows : List α) (s : PageState α)
    (hskip : s.skipTheRest = false) (hlt : s.added.length < length)
    (hle : s.recordsCounted ≤ start+s.added.length) :
    (pageLoop f length start rows s).added = s.added ++
      ((rows.filter (fun r => !f.excludedDomain r && !f.excludedClient r)).drop
        (start-s.recordsCounted)).take (length-s.added.length) := by
  induction rows generalizing s with
  | nil => simp [pageLoop]
  | cons r rows ih =>
    have hcounted : s.counted = { s with recordsCounted := s.recordsCounted+1 } := by
      rw [PageState.counted,Nat.mod_eq_of_lt (by omega)]
    have hback : s.counted.excluded.recordsCounted = s.recordsCounted := by
      rw [hcounted,PageState.excluded]
      dsimp only
      omega
    have hexcluded := ih s.counted.excluded hskip hlt (hback ▸ hle)
    rw [hback] at hexcluded
    unfold pageLoop
    dsimp only
    by_cases hd : f.excludedDomain r = true
    · rw [if_pos hd,hexcluded]
      simp [hd,PageState.excluded,PageState.counted]
    by_cases hc : f.excludedClient r = true
    · rw [if_neg hd,if_pos hc,hexcluded]
      simp [hc,PageState.excluded,PageState.counted]
    have hkept : (r :: rows).filter (fun r => !f.excludedDomain r && !f.excludedClient r) =
        r :: rows.filter (fun r => !f.excludedDomain r && !f.excludedClient r) := by simp [hd,hc]
    have hroom : ¬ length ≤ s.added.length := Nat.not_le_of_lt hlt
    rw [if_neg hd,if_neg hc,hkept,hcounted]
    simp only [hskip,hroom,and_false,if_false,Bool.false_eq_true]
    by_cases hstart : 0 < start ∧ s.recordsCounted+1 ≤ start
    · obtain ⟨k,hk⟩ : ∃ k, start-s.recordsCounted = k+1 := ⟨start-s.recordsCounted-1,by omega⟩
      have hk' : start-(s.recordsCounted+1) = k := by omega
      have hih := ih { s with recordsCounted := s.recordsCounted+1 } hskip hlt (by dsimp only; omega)
      simp only [hskip] at hih
      rw [if_pos hstart,hih,hk',hk,drop_succ_cons]
    obtain ⟨k,hk⟩ : ∃ k, length-s.added.length = k+1 := ⟨length-s.added.length-1,by omega⟩
    have h0 : start-s.recordsCounted = 0 := by omega
    rw [if_neg hstart,h0,hk,drop_zero,take_succ_cons]
    have hlength : (s.added ++ [r]).length = s.added.length+1 := by simp
    by_cases hlast : s.added.length+1 = length
    · obtain rfl : k = 0 := by omega
      rw [pageLoop_full hl rows _ (hlength.trans hlast),take_zero]
    have hih := ih { s with recordsCounted := s.recordsCounted+1, added := s.added ++ [r] } hskip
      (by rw [hlength]; omega) (by rw [hlength]; dsimp only; omega)
    have h0' : start-(s.recordsCounted+1) = 0 := by omega
    have hk' : length-(s.added ++ [r]).length = k := by omega
    simp only [hskip] at hih
    rw [hih,h0',hk',drop_zero,append_assoc,singleton_append]

end

def newest (f : LogFilter α) (table : List α) : List α := (table.filter f.keeps).reverse

theorem pageLength_pos (length : Nat) : 0 < pageLength length := by
  unfold pageLength API_QUERIES_MAX_ROWS
  dsimp only
  split_ifs <;> omega

theorem pageLength_of_le {length : Nat} (h : 1 ≤ length) (h' : length ≤ API_QUERIES_MAX_ROWS) :
    pageLength length = length := by
  unfold API_QUERIES_MAX_ROWS at h'
  unfold pageLength API_QUERIES_MAX_ROWS
  dsimp only
  split_ifs <;> omega

theorem page_eq (f : LogFilter α) (p : α → Bool) (table : List α) {length start : Nat}
    (hsum : start+pageLength length < 2^32) :
    (pageLoop f (pageLength length) start
        (table.filter (fun r => f.matching r && p r)).reverse ⟨[],0,0,false⟩).added =
      (((newest f table).filter p).drop start).take (pageLength length) := by
  have hread := pageLoop_added (f := f) (pageLength_pos length) hsum
    (table.filter (fun r => f.matching r && p r)).reverse ⟨[],0,0,false⟩ rfl (pageLength_pos length)
    (Nat.zero_le _)
  have hrows : (table.filter (fun r => f.matching r && p r)).reverse.filter
      (fun r => !f.excludedDomain r && !f.excludedClient r) = (newest f table).filter p := by
    rw [newest,filter_reverse,filter_reverse,filter_filter,filter_filter]
    congr 2
    funext r
    simp only [LogFilter.keeps]
    cases f.matching r <;> cases p r <;> cases f.excludedDomain r <;> cases f.excludedClient r <;> rfl
  rw [hrows] at hread
  exact hread

variable {key : α → Nat} {f : LogFilter α} {largest : Int} {table : List α} {length : Nat}

theorem apiQueries_first (h : 1 ≤ length) (h' : length ≤ API_QUERIES_MAX_ROWS) :
    apiQueries key f false largest table length 0 none = some ((newest f table).take length) := by
  have hlt : 0+pageLength length < 2^32 := by
    rw [Nat.zero_add,pageLength_of_le h h']
    exact Nat.lt_of_le_of_lt h' (by decide)
  have hpage := page_eq f (fun _ => true) table hlt
  have hall : (newest f table).filter (fun _ => true) = newest f table := by simp
  simp only [Bool.and_true,hall,drop_zero,pageLength_of_le h h'] at hpage
  simp [apiQueries,pageStart,pageLength_of_le h h',hpage]

theorem apiQueries_next (h : 1 ≤ length) (h' : length ≤ API_QUERIES_MAX_ROWS) {start : Nat}
    (hstart : start+length < 2^32) {c : Int} (hc : c < 0 ∨ c ≤ largest) :
    (apiQueries key f false largest table length start (some c)).getD [] =
      (((newest f table).filter (fun r => (key r : Int) ≤ c)).drop start).take length := by
  have hpage := page_eq f (fun r => (key r : Int) ≤ c) table
    ((pageLength_of_le h h').symm ▸ hstart)
  rw [pageLength_of_le h h'] at hpage
  by_cases haccept : unsignedLong c ≤ unsignedLong largest
  · have hpos : pageStart start = start := if_pos (Nat.lt_of_le_of_lt (Nat.le_add_right ..) hstart)
    simp [apiQueries,haccept,hpos,pageLength_of_le h h',hpage]
  -- only a negative cursor is refused, and no row has an id below it
  have hneg : c < 0 := by
    unfold unsignedLong at haccept
    split_ifs at haccept <;> omega
  have hnone : (newest f table).filter (fun r => (key r : Int) ≤ c) = [] := by
    rw [filter_eq_nil_iff]
    intro r _
    simp
    omega
  simp [apiQueries,haccept,hnone]

end

/-- The table, its largest id as it is known, and what a client has got; `present` are the rows of
the log at the first page. -/
structure Paging (α : Type) where
  table : List α
  maxid : Int
  present : Option (List α)
  cursor : Option Int
  pages : List (List α)

/-- Rows are added and their ids made known; the first page is read, its cursor taken afterwards,
and the pages behind it are asked for. -/
inductive PagingEvent (α : Type) where
  | added (r : α)
  | published (id : Int)
  | first
  | finish
  | next

section

variable {α : Type} (key : α → Nat) (f : LogFilter α) (maximum : Bool) (length : Nat)

def Paging.step (s : Paging α) : PagingEvent α → Paging α
  | .added r =>
    if ∀ x ∈ s.table, key x < key r then { s with table := s.table ++ [r] } else s
  | .published id => { s with maxid := max s.maxid id }
  | .first =>
    match s.present with
    | none =>
      { s with
        present := some (newest f s.table),
        pages := [(apiQueries key f maximum s.maxid s.table length 0 none).getD []] }
    | some _ => s
  | .finish =>
    match s.present, s.cursor with
    | some _, none => { s with cursor := some s.maxid }
    | _, _ => s
  | .next =>
    match s.cursor with
    | some c =>
      let start := s.pages.length*length
      { s with
        pages := s.pages ++
          [(apiQueries key f maximum s.maxid s.table length start (some c)).getD []] }
    | none => s

def Paging.initial : Paging α := ⟨[],-1,none,none,[]⟩

/-- The pages have every row of the log once, the newest first, once all are asked for, and
no row twice before. -/
def Paging.Complete (s : Paging α) : Prop :=
  ∀ rows ∈ s.present, s.pages.flatten.Pairwise (fun r r' => key r' < key r) ∧
    (rows.length ≤ s.pages.length*length → s.pages.flatten = rows)

variable {key f maximum length}

/-- With the right cursor: the log of the first page is what is below the cursor, and the pages
are its beginning. -/
structure Paging.Inv (key : α → Nat) (f : LogFilter α) (length : Nat) (s : Paging α) : Prop where
  ascending : s.table.Pairwise (fun r r' => key r < key r')
  unread : s.present = none → s.cursor = none
  behind : ∀ rows ∈ s.present, ∃ new, newest f s.table = new ++ rows
  below : ∀ rows ∈ s.present, ∀ c ∈ s.cursor,
    (c < 0 ∨ c ≤ s.maxid) ∧ (newest f s.table).filter (fun r => (key r : Int) ≤ c) = rows
  got : ∀ rows ∈ s.present, s.pages.flatten = rows.take (s.pages.length*length)

theorem newest_append (f : LogFilter α) (table : List α) (r : α) :
    newest f (table ++ [r]) = if f.keeps r then r :: newest f table else newest f table := by
  simp only [newest,filter_append,reverse_append]
  cases h : f.keeps r <;> simp [h]

theorem newest_descending {table : List α} (h : table.Pairwise (fun r r' => key r < key r'))
    (f : LogFilter α) : (newest f table).Pairwise (fun r r' => key r' < key r) := by
  rw [newest,pairwise_reverse]
  exact h.filter _

attribute [local simp] Paging.step

namespace Paging.Inv

variable {s : Paging α}

variable (h : s.Inv key f length)
include h

theorem added {r : α} (hc : ∀ c ∈ s.cursor, f.keeps r = true → c < (key r : Int)) :
    (s.step key f maximum length (.added r)).Inv key f length := by
  unfold Paging.step
  dsimp only
  split_ifs with hnew
  · refine ⟨?_,h.unread,?_,?_,h.got⟩
    · rw [pairwise_append]
      exact ⟨h.ascending,pairwise_singleton ..,fun x hx y hy => mem_singleton.1 hy ▸ hnew x hx⟩
    · intro rows hrows
      obtain ⟨new,hnew⟩ := h.behind rows hrows
      rw [newest_append]
      split_ifs
      · exact ⟨r :: new,by rw [hnew,cons_append]⟩
      · exact ⟨new,hnew⟩
    intro rows hrows c hcur
    obtain ⟨hle,hbelow⟩ := h.below rows hrows c hcur
    refine ⟨hle,?_⟩
    rw [newest_append]
    split_ifs with hk
    · have habove : ¬ (key r : Int) ≤ c := by
        have hlt := hc c hcur hk
        omega
      rwa [filter_cons_of_neg (by simpa using habove)]
    · exact hbelow
  · exact h

theorem published (id : Int) : (s.step key f maximum length (.published id)).Inv key f length := by
  refine ⟨h.ascending,h.unread,h.behind,?_,h.got⟩
  intro rows hrows c hcur
  obtain ⟨hle,hbelow⟩ := h.below rows hrows c hcur
  refine ⟨?_,hbelow⟩
  dsimp only [Paging.step]
  omega

theorem first (hl : 1 ≤ length) (hm : length ≤ API_QUERIES_MAX_ROWS) :
    (s.step key f false length .first).Inv key f length := by
  cases hp : s.present with
  | some rows =>
    have hstep : s.step key f false length .first = s := by simp [hp]
    rwa [hstep]
  | none =>
    have hcursor := h.unread hp
    have hstep : s.step key f false length .first =
        { s with present := some (newest f s.table), pages := [(newest f s.table).take length] } := by
      simp [hp,apiQueries_first hl hm]
    rw [hstep]
    refine ⟨h.ascending,(fun hn => nomatch hn),?_,?_,?_⟩
    · intro rows hrows
      obtain rfl := Option.some.inj hrows
      exact ⟨[],rfl⟩
    · intro rows _ c hc
      rw [hcursor] at hc
      cases hc
    · intro rows hrows
      obtain rfl := Option.some.inj hrows
      simp

theorem finish
    (hc : s.cursor = none → ∀ rows ∈ s.present, ∀ r ∈ newest f s.table, (key r : Int) ≤ s.maxid ↔
      r ∈ rows) :
    (s.step key f maximum length .finish).Inv key f length := by
  cases hp : s.present with
  | none =>
    have hstep : s.step key f maximum length .finish = s := by simp [hp]
    rwa [hstep]
  | some rows =>
    cases hcur : s.cursor with
    | some c =>
      have hstep : s.step key f maximum length .finish = s := by simp [hp,hcur]
      rwa [hstep]
    | none =>
      have hstep : s.step key f maximum length .finish = { s with cursor := some s.maxid } := by
        simp [hp,hcur]
      rw [hstep]
      refine ⟨h.ascending,?_,h.behind,?_,h.got⟩
      · intro hn
        rw [hp] at hn
        cases hn
      intro rows' hrows' c hc'
      obtain rfl := Option.some.inj hc'
      obtain rfl : rows = rows' := Option.some.inj (hp.symm.trans hrows')
      refine ⟨.inr (Int.le_refl _),?_⟩
      obtain ⟨new,hnew⟩ := h.behind rows hp
      have hdesc := newest_descending h.ascending f
      have hiff := hc hcur rows hp
      rw [hnew] at hdesc hiff ⊢
      -- the rows that came since are not among those of the first page
      have habove : new.filter (fun r => decide ((key r : Int) ≤ s.maxid)) = [] := by
        rw [filter_eq_nil_iff]
        intro r hr hle
        have hin := (hiff r (mem_append_left _ hr)).1 (by simpa using hle)
        exact Nat.lt_irrefl _ ((pairwise_append.1 hdesc).2.2 r hr r hin)
      have hall : rows.filter (fun r => decide ((key r : Int) ≤ s.maxid)) = rows := by
        rw [filter_eq_self]
        intro r hr
        simpa using (hiff r (mem_append_right _ hr)).2 hr
      rw [filter_append,habove,hall,nil_append]

theorem next (hl : 1 ≤ length) (hm : length ≤ API_QUERIES_MAX_ROWS)
    (hstart : (s.pages.length+1)*length < 2^32) :
    (s.step key f false length .next).Inv key f length := by
  cases hcur : s.cursor with
  | none =>
    have hstep : s.step key f false length .next = s := by simp [hcur]
    rwa [hstep]
  | some c =>
    have hstep : s.step key f false length .next =
        { s with
          pages := s.pages ++ [(apiQueries key f false s.maxid s.table length
            (s.pages.length*length) (some c)).getD []] } := by
      simp [hcur]
    rw [hstep]
    refine ⟨h.ascending,h.unread,h.behind,?_,?_⟩
    · intro rows hrows c' hc'
      exact h.below rows hrows c' hc'
    intro rows hrows
    obtain ⟨hle,hbelow⟩ := h.below rows hrows c hcur
    rw [Nat.add_mul,Nat.one_mul] at hstart
    rw [apiQueries_next hl hm hstart hle,hbelow,flatten_append,h.got rows hrows,
      length_append,length_singleton,Nat.add_mul,Nat.one_mul,take_add]
    simp

theorem complete : s.Complete key length := by
  intro rows hrows
  rw [h.got rows hrows]
  obtain ⟨new,hnew⟩ := h.behind rows hrows
  have hdesc := newest_descending h.ascending f
  rw [hnew] at hdesc
  exact ⟨(pairwise_append.1 hdesc).2.1.sublist (take_sublist ..),take_of_length_le⟩

end Paging.Inv

section

variable [DecidableEq α]

instance (key : α → Nat) (length : Nat) (s : Paging α) : Decidable (s.Complete key length) := by
  unfold Paging.Complete
  infer_instance

/-- The page length is served, the rows of the log below the cursor are those of the first page,
and none comes below it later. -/
def Paging.steady (key : α → Nat) (f : LogFilter α) (maximum : Bool) (length : Nat)
    (s : Paging α) (e : PagingEvent α) : Bool :=
  !maximum && 1 ≤ length && length ≤ API_QUERIES_MAX_ROWS &&
    match e with
    | .added r => s.cursor.all (fun c => !f.keeps r || c < (key r : Int))
    | .finish =>
      s.cursor.isSome || s.present.all (fun rows =>
        (newest f s.table).all (fun r => ((key r : Int) ≤ s.maxid) = (r ∈ rows)))
    | .next => (s.pages.length+1)*length < 2^32
    | _ => true

theorem steady_step (s : Paging α) (e : PagingEvent α)
    (hs : s.steady key f maximum length e = true) (h : s.Inv key f length) :
    (s.step key f maximum length e).Inv key f length := by
  simp only [Paging.steady,Bool.and_eq_true,Bool.not_eq_true',decide_eq_true_eq] at hs
  obtain ⟨⟨⟨rfl,hl⟩,hm⟩,he⟩ := hs
  cases e with
  | added r =>
    refine h.added fun c hc hk => ?_
    rw [Option.mem_def] at hc
    simpa [hc,hk] using he
  | published id => exact h.published id
  | first => exact h.first hl hm
  | finish =>
    refine h.finish fun hn rows hrows r hr => ?_
    rw [Option.mem_def] at hrows
    simp only [hn,hrows,Option.isSome_none,Bool.false_or,Option.all_some,all_eq_true,
      decide_eq_true_eq,eq_iff_iff] at he
    exact he r hr
  | next => exact h.next hl hm (by simpa using he)

end

end

/-- In every run whose steps all meet the condition, the pages are complete. -/
theorem query_log_complete {α : Type} [DecidableEq α] (key : α → Nat) (f : LogFilter α)
    (maximum : Bool) (length : Nat) (es : List (PagingEvent α))
    (hm : Machine.Meets (Paging.step key f maximum length) (Paging.steady key f maximum length)
      .initial es = true) :
    (Machine.run (Paging.step key f maximum length) .initial es).Complete key length := by
  have hinit : (Paging.initial : Paging α).Inv key f length :=
    ⟨Pairwise.nil,fun _ => rfl,(fun _ h => nomatch h),(fun _ h => nomatch h),(fun _ h => nomatch h)⟩
  exact (Machine.Meets.keeps steady_step hinit hm).complete

def LogFilter.all : LogFilter Nat := ⟨fun _ => true,fun _ => false,fun _ => false,false⟩

def steadyPaging : List (PagingEvent Nat) :=
  [.added 1,.added 2,.added 3,.published 3,.first,.finish,.added 4,.published 4,.next]

theorem query_log_complete_sample :
    Machine.Meets (Paging.step id .all false 2) (Paging.steady id .all false 2) .initial
        steadyPaging = true ∧
      (Machine.run (Paging.step id .all false 2) .initial steadyPaging).Complete id 2 :=
  ⟨by decide,query_log_complete id .all false 2 steadyPaging (by decide)⟩

def shiftedPaging : List (PagingEvent Nat) :=
  [.added 1,.added 2,.published 2,.first,.added 3,.published 3,.finish,.next]

def earlyPaging : List (PagingEvent Nat) :=
  [.added 1,.added 2,.published 2,.added 3,.first,.finish,.next,.next]

/-- In the first run a row is sent twice, in the second one a row is left out. -/
theorem query_log_incomplete :
    (Machine.run (Paging.step id .all false 1) .initial shiftedPaging).pages = [[2],[2]] ∧
      ¬ (Machine.run (Paging.step id .all false 1) .initial shiftedPaging).Complete id 1 ∧
      (Machine.run (Paging.step id .all false 1) .initial earlyPaging).present = some [3,2,1] ∧
      (Machine.run (Paging.step id .all false 1) .initial earlyPaging).pages = [[3],[1],[]] ∧
      ¬ (Machine.run (Paging.step id .all false 1) .initial earlyPaging).Complete id 1 := by
  decide

end Lorentz
