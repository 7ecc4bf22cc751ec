import Lorentz.SqlTranslation

/-!
`pgVmprintf`: a value of `%Q`, of `%q` between single quotes or of `%w` between double quotes is
one token, and the tokens around it do not depend on it.
-/

set_option autoImplicit false

namespace Lorentz.Translation

open Quoting SqlLexer

/-- An argument: `const char *`, an integer, or something else that only `snprintf` reads. -/
inductive Arg where
  | text (s : Option (List Char))
  | int (n : Int)
  | other (bits : Nat)
  deriving DecidableEq

def Arg.asText : Arg → Option (Option (List Char))
  | .text s => some s
  | _ => none

def Arg.asInt : Arg → Option Int
  | .int n => some n
  | _ => none

def Arg.asOther : Arg → Option Nat
  | .other bits => some bits
  | _ => none

def sbEscaped (quote : Char) : List Char → List Char
  | [] => []
  | c :: cs => (if c = quote then [quote] else []) ++ c :: sbEscaped quote cs

/-- What is read of a directive. No conversion stands for the end of the format. -/
structure Directive where
  spec : List Char
  length : List Char
  conv : Option Char
  rest : List Char
  args : List Arg

/-- The characters of a kind, as long as there is room for them in `spec`. -/
def takeUpTo (n : Nat) (p : Char → Bool) (cs : List Char) : List Char := (cs.take n).takeWhile p

def star (spec p : List Char) (args : List Arg) : Option (List Char × List Char × List Arg) :=
  match p with
  | '*' :: p =>
    match args with
    | .int n :: args => some (spec ++ (toString n).toList,p,args)
    | _ => none
  | _ => some (spec,p,args)

def digits (spec p : List Char) : List Char × List Char :=
  let ds := takeUpTo (24-spec.length) Char.isDigit p
  (spec ++ ds,p.drop ds.length)

def width (spec p : List Char) (args : List Arg) : Option (List Char × List Char × List Arg) :=
  (star spec p args).map (fun r => ((digits r.1 r.2.1).1,(digits r.1 r.2.1).2,r.2.2))

def precision (spec p : List Char) (args : List Arg) :
    Option (List Char × List Char × List Arg) :=
  match p with
  | '.' :: p => width (spec ++ ['.']) p args
  | _ => some (spec,p,args)

/-- Behind `%`: flags, width, precision, length and conversion. -/
def directive (p : List Char) (args : List Arg) : Option Directive :=
  let flags := takeUpTo 23 (· ∈ ['-','+',' ','#','0']) p
  match width ('%' :: flags) (p.drop flags.length) args with
  | none => none
  | some (spec,p,args) =>
    match precision spec p args with
    | none => none
    | some (spec,p,args) =>
      let length := takeUpTo 2 (· ∈ ['h','l','L','z','j','t']) p
      let p := p.drop length.length
      some { spec, length, conv := p.head?, rest := p.tail, args }

/-- The text of `%q`, `%Q` and `%w`. -/
def escapedText (conv : Char) : Option (List Char) → List Char
  | none => if conv = 'Q' then "NULL".toList else "(NULL)".toList
  | some s =>
    if conv = 'Q' then '\'' :: sbEscaped '\'' s ++ ['\'']
    else sbEscaped (if conv = 'q' then '\'' else '"') s

/-- Prints the next argument. One of another type than the conversion has is undefined. -/
def vaArg {β : Type} (get : Arg → Option β) (print : β → Option (List Char)) :
    List Arg → Option (List Char × List Arg)
  | [] => none
  | a :: args => ((get a).bind print).map (·,args)

section

-- with one conversion; no result is an error
variable (snprintf : List Char → Arg → Option (List Char))

def printNumber (spec : List Char) (arg : Arg) : Option (List Char) :=
  (snprintf spec arg).filter (fun s => s.length < 512)

def convert (d : Directive) (conv : Char) : Option (List Char × List Arg) :=
  if conv = '%' then some (['%'],d.args)
  else if conv ∈ ['q','Q','w'] then
    vaArg Arg.asText (fun arg => some (escapedText conv arg)) d.args
  else if conv = 's' then
    vaArg Arg.asText
      (fun arg => snprintf (d.spec ++ ['s']) (.text (some (arg.getD "(null)".toList)))) d.args
  else if conv ∈ ['d','i','u','x','X','o','c'] then
    vaArg Arg.asInt
      (fun n => printNumber snprintf (d.spec ++ d.length ++ [conv]) (.int n)) d.args
  else if conv ∈ ['f','F','e','E','g','G','p'] then
    vaArg Arg.asOther (fun bits => printNumber snprintf (d.spec ++ [conv]) (.other bits)) d.args
  else some (d.spec ++ [conv],d.args)

def vmNext (args : List Arg) (c : Char) (cs : List Char) :
    Option (List Char × List Arg × List Char) :=
  if c ≠ '%' then some ([c],args,cs)
  else match directive cs args with
    | none => none
    | some d =>
      match d.conv with
      | none => some ([],d.args,[])
      | some conv => (convert snprintf d conv).map (fun r => (r.1,r.2,d.rest))

theorem length_digits (spec p : List Char) : (digits spec p).2.length ≤ p.length := by
  simp [digits]

theorem length_width {spec p : List Char} {args : List Arg} {r : List Char × List Char × List Arg}
    (h : width spec p args = some r) : r.2.1.length ≤ p.length := by
  obtain ⟨⟨spec',p',args'⟩,hstar,rfl⟩ := Option.map_eq_some_iff.mp h
  have hp : p'.length ≤ p.length := by
    unfold star at hstar
    split at hstar
    · split at hstar
      · cases hstar
        simp
      · cases hstar
    · cases hstar
      exact Nat.le_refl _
  exact (length_digits spec' p').trans hp

theorem length_precision {spec p : List Char} {args : List Arg}
    {r : List Char × List Char × List Arg} (h : precision spec p args = some r) :
    r.2.1.length ≤ p.length := by
  unfold precision at h
  split at h
  · have := length_width h
    simp only [List.length_cons]
    omega
  · cases h
    exact Nat.le_refl _

theorem length_directive {p : List Char} {args : List Arg} {d : Directive}
    (h : directive p args = some d) : d.rest.length ≤ p.length := by
  unfold directive at h
  simp only at h
  split at h
  · cases h
  rename_i hw
  split at h
  · cases h
  rename_i hp
  cases h
  have h₁ := length_width hw
  have h₂ := length_precision hp
  simp only [List.length_drop,List.length_tail] at h₁ h₂ ⊢
  omega

def vmScanner : Scanner (List Arg) Char (List Char) where
  next := vmNext snprintf
  next_le args c cs t args' left h := by
    unfold vmNext at h
    split at h
    · cases h
      exact Nat.le_refl _
    split at h
    · cases h
    rename_i hd
    split at h
    · cases h
      exact Nat.zero_le _
    · obtain ⟨r,-,heq⟩ := Option.map_eq_some_iff.mp h
      cases heq
      exact length_directive hd

def pgVmprintf (fmt : List Char) (args : List Arg) : Option (List Char) :=
  ((vmScanner snprintf).run args fmt).map (fun r => r.1.flatten)

end

section

variable {snprintf : List Char → Arg → Option (List Char)} {args args' : List Arg}

variable {spec p : List Char} {spec' p' : List Char} (more : List Arg)

theorem star_append (h : star spec p args = some (spec',p',args')) :
    star spec p (args ++ more) = some (spec',p',args' ++ more) := by
  unfold star at h ⊢
  split at h
  · split at h
    · cases h
      rfl
    · cases h
  · cases h
    simp_all

theorem width_append (h : width spec p args = some (spec',p',args')) :
    width spec p (args ++ more) = some (spec',p',args' ++ more) := by
  obtain ⟨⟨spec₁,p₁,args₁⟩,hstar,heq⟩ := Option.map_eq_some_iff.mp h
  rw [width,star_append more hstar]
  cases heq
  rfl

theorem precision_append (h : precision spec p args = some (spec',p',args')) :
    precision spec p (args ++ more) = some (spec',p',args' ++ more) := by
  unfold precision at h ⊢
  split at h
  · exact width_append more h
  · cases h
    simp_all

theorem directive_append {p : List Char} {d : Directive} (more : List Arg)
    (h : directive p args = some d) :
    directive p (args ++ more) = some { d with args := d.args ++ more } := by
  unfold directive at h ⊢
  simp only at h ⊢
  split at h
  · cases h
  rename_i hw
  rw [width_append more hw]
  split at h
  · cases h
  rename_i hp
  rw [precision_append more hp]
  cases h
  rfl

theorem vaArg_append {β : Type} {get : Arg → Option β} {print : β → Option (List Char)}
    {t : List Char} (more : List Arg) (h : vaArg get print args = some (t,args')) :
    vaArg get print (args ++ more) = some (t,args' ++ more) := by
  cases args with
  | nil => cases h
  | cons a args =>
    obtain ⟨s,hs,heq⟩ := Option.map_eq_some_iff.mp h
    cases heq
    rw [List.cons_append,vaArg,hs]
    rfl

theorem convert_append {d : Directive} {conv : Char} {t : List Char} (more : List Arg)
    (h : convert snprintf d conv = some (t,args')) :
    convert snprintf { d with args := d.args ++ more } conv = some (t,args' ++ more) := by
  unfold convert at h ⊢
  split at h
  · cases h
    rw [if_pos ‹_›]
  rw [if_neg ‹_›]
  split at h
  · rw [if_pos ‹_›]
    exact vaArg_append more h
  rw [if_neg ‹_›]
  split at h
  · rw [if_pos ‹_›]
    exact vaArg_append more h
  rw [if_neg ‹_›]
  split at h
  · rw [if_pos ‹_›]
    exact vaArg_append more h
  rw [if_neg ‹_›]
  split at h
  · rw [if_pos ‹_›]
    exact vaArg_append more h
  rw [if_neg ‹_›]
  cases h
  rfl

theorem vmNext_append {c : Char} {cs t left : List Char} (more : List Arg)
    (h : vmNext snprintf args c cs = some (t,args',left)) :
    vmNext snprintf (args ++ more) c cs = some (t,args' ++ more,left) := by
  unfold vmNext at h ⊢
  split at h
  · cases h
    rw [if_pos ‹_›]
  rw [if_neg ‹_›]
  split at h
  · cases h
  rename_i hd
  rw [directive_append more hd]
  simp only
  split at h
  · cases h
    rfl
  obtain ⟨⟨t',args₁⟩,hc,heq⟩ := Option.map_eq_some_iff.mp h
  cases heq
  rw [convert_append more hc]
  rfl

theorem reaches_append {fmt left : List Char} {ts : List (List Char)} (more : List Arg)
    (h : (vmScanner snprintf).Reaches args fmt ts args' left) :
    (vmScanner snprintf).Reaches (args ++ more) fmt ts (args' ++ more) left := by
  induction h with
  | here args cs => exact .here _ cs
  | step hnext _ ih => exact .step (vmNext_append more hnext) ih

end

theorem sbEscaped_eq_doubled (quote : Char) (s : List Char) :
    sbEscaped quote s = doubled quote s := by
  induction s with
  | nil => rfl
  | cons c cs ih =>
    by_cases hc : c = quote <;> simp [sbEscaped,doubled,hc,ih]

inductive Escape where
  | q | Q | w

namespace Escape

def conv : Escape → Char
  | q => 'q'
  | Q => 'Q'
  | w => 'w'

def quote : Escape → Char
  | w => '"'
  | _ => '\''

def around : Escape → List Char
  | q => ['\'']
  | Q => []
  | w => ['"']

theorem quote_cases (e : Escape) : e.quote = '\'' ∨ e.quote = '"' := by
  cases e <;> simp [quote]

theorem around_escapedText (e : Escape) (s : List Char) :
    e.around ++ escapedText e.conv (some s) ++ e.around = quotedText e.quote s := by
  cases e <;> simp [around,escapedText,conv,quote,quotedText,sbEscaped_eq_doubled]

end Escape

section

variable {snprintf : List Char → Arg → Option (List Char)} {fmt p rest : List Char}
variable {args₁ args₂ stars : List Arg} {chunks : List (List Char)} {spec length : List Char}

theorem pgVmprintf_escaped (e : Escape)
    (hreach : (vmScanner snprintf).Reaches args₁ fmt chunks stars ('%' :: p))
    (hdir : directive p stars = some ⟨spec,length,some e.conv,rest,[]⟩) (s : List Char) :
    pgVmprintf snprintf fmt (args₁ ++ .text (some s) :: args₂) =
      (pgVmprintf snprintf rest args₂).map
        (fun post => chunks.flatten ++ escapedText e.conv (some s) ++ post) := by
  have hconv : convert snprintf ⟨spec,length,some e.conv,rest,.text (some s) :: args₂⟩ e.conv =
      some (escapedText e.conv (some s),args₂) := by
    cases e <;> simp [convert,Escape.conv,vaArg,Arg.asText]
  have hnext : (vmScanner snprintf).next (stars ++ .text (some s) :: args₂) '%' p =
      some (escapedText e.conv (some s),args₂,rest) := by
    have hd := directive_append (.text (some s) :: args₂) hdir
    simp only [vmScanner,vmNext,ne_eq,not_true_eq_false,if_false,hd,List.nil_append,hconv,
      Option.map_some]
  rw [pgVmprintf,(reaches_append (.text (some s) :: args₂) hreach).run_eq,Scanner.run_cons hnext,
    pgVmprintf]
  cases (vmScanner snprintf).run args₂ rest with
  | none => rfl
  | some r => simp

end

theorem length_takeQuoted (c : Char) (cs : List Char) :
    (takeQuoted c cs).2.length ≤ cs.length := by
  fun_induction takeQuoted c cs <;> simp_all <;> omega

theorem length_takeBlockComment (cs : List Char) :
    (takeBlockComment cs).2.length ≤ cs.length := by
  fun_induction takeBlockComment cs <;> simp_all <;> omega

theorem length_takeDollarQuoted (tag cs : List Char) :
    (takeDollarQuoted tag cs).2.length ≤ cs.length := by
  fun_induction takeDollarQuoted tag cs with
  | case1 => exact Nat.le_refl _
  | case2 c cs h => simp
  | case3 c cs h ih =>
    simp only [List.length_cons]
    omega

theorem length_pass (prev : Option Char) (c : Char) (cs : List Char) (sc : Scan) :
    (pass prev c cs sc).left.length ≤ cs.length := by
  unfold pass
  split
  · exact length_takeQuoted c cs
  split
  · rename_i h
    have hc : (decide (c ≠ '\n')) = true := by rw [h.1]; rfl
    simp only [Scan.copied,List.dropWhile_cons,hc,if_true]
    exact List.length_dropWhile_le _ cs
  split
  · have := length_takeBlockComment cs.tail
    simp only [List.length_tail] at this
    simp only [Scan.copied]
    omega
  split
  · simp only
    split
    · exact List.length_dropWhile_le _ cs
    split
    · rename_i left hl
      have hle := List.length_dropWhile_le isNameChar cs
      rw [hl,List.length_cons] at hle
      have := length_takeDollarQuoted (c :: cs.takeWhile isNameChar ++ ['$']) left
      simp only [Scan.copied] at this ⊢
      omega
    · exact Nat.le_refl _
  split
  · exact List.length_dropWhile_le _ cs
  split
  · exact List.length_dropWhile_le _ cs
  split
  · rename_i h
    have hc : isWordChar c = true := by
      have := isNameChar_of_isNameStart h
      simp only [isNameChar,Bool.or_eq_true] at this
      rcases this with this | this <;> simp [isWordChar,this]
    simp only [List.dropWhile_cons,hc,if_true]
    exact List.length_dropWhile_le _ cs
  · exact Nat.le_refl _

/-- The passes of `scanSql`; the state is the character in front and that of the scan. -/
def sqlScanner : Scanner (Option Char × Scan) Char (List Char) where
  next s c cs :=
    let r := pass s.1 c cs s.2
    some (r.taken,(r.taken.getLast?,r.scan),r.left)
  next_le s c cs t s' left h := by
    cases h
    exact length_pass s.1 c cs s.2

theorem scanSql_eq_run {fuel : Nat} {prev : Option Char} {cs : List Char} {sc : Scan}
    (h : cs.length ≤ fuel) :
    (sqlScanner.run (prev,sc) cs).map (fun r => r.2.2) = some (scanSql fuel prev cs sc) := by
  induction fuel generalizing prev cs sc with
  | zero =>
    cases cs with
    | nil => rfl
    | cons c cs => cases h
  | succ fuel ih =>
    cases cs with
    | nil => rfl
    | cons c cs =>
      have hle := length_pass prev c cs sc
      simp only [List.length_cons] at h
      rw [Scanner.run_cons (rfl : sqlScanner.next (prev,sc) c cs = some (_,_,_)),Option.map_map,
        scanSql]
      exact ih (hle.trans (by omega))

theorem sqlScanner_quotedText {q : Char} (hq : q = '\'' ∨ q = '"') (value : List Char)
    {rest : List Char} (h : rest.head? ≠ some q) (prev : Option Char) (sc : Scan) :
    sqlScanner.Reaches (prev,sc) (quotedText q value ++ rest) [quotedText q value]
      (some q,sc.copy (quotedText q value)) rest := by
  have htext : quotedText q value ++ rest = q :: (doubled q value ++ q :: rest) := by
    simp [quotedText]
  have hlast : (quotedText q value).getLast? = some q := List.getLast?_concat
  rw [htext]
  refine .step ?_ (.here _ rest)
  simp only [sqlScanner,pass_quoted hq h,Scan.copied,hlast]

section

variable {snprintf : List Char → Arg → Option (List Char)} {fmt p rest pre post : List Char}
variable {args₁ args₂ stars : List Arg} {chunks : List (List Char)} {spec length : List Char}
variable {ts : List Lexeme} {taken : List (List Char)} {prev : Option Char} {sc : Scan}

/-- The scanner takes `ts` from the text in front, and gets to a quote that follows it. -/
def StopsAtQuote {σ τ : Type} (m : Scanner σ Char τ) (quote : Char) (s : σ) (pre : List Char)
    (ts : List τ) (s' : σ) : Prop :=
  ∀ r : List Char, r.head? = some quote → m.Reaches s (pre ++ r) ts s' r

theorem run_around_token {σ τ : Type} {m : Scanner σ Char τ} {quote : Char} {s s₁ s₂ : σ}
    {ts : List τ} {t : τ} {value : List Char} (hpre : StopsAtQuote m quote s pre ts s₁)
    (hvalue : m.Reaches s₁ (quotedText quote value ++ post) [t] s₂ post) :
    m.run s (pre ++ quotedText quote value ++ post) =
      (m.run s₂ post).map (fun r => (ts ++ t :: r.1,r.2)) := by
  have hhead : (quotedText quote value ++ post).head? = some quote := rfl
  rw [List.append_assoc,(hpre _ hhead).run_eq,hvalue.run_eq,Option.map_map]
  rfl

theorem escaped_value_one_token (e : Escape)
    (hreach : (vmScanner snprintf).Reaches args₁ fmt chunks stars ('%' :: p))
    (hdir : directive p stars = some ⟨spec,length,some e.conv,rest,[]⟩)
    (hpre : chunks.flatten = pre ++ e.around)
    (hpost : pgVmprintf snprintf rest args₂ = some (e.around ++ post))
    (hnext : Ends e.quote post)
    (hsql : StopsAtQuote sqlLexer e.quote () pre ts ())
    (hscan : StopsAtQuote sqlScanner e.quote (none,{}) pre taken (prev,sc)) :
    ∀ s : List Char,
      pgVmprintf snprintf fmt (args₁ ++ .text (some s) :: args₂) =
        some (pre ++ quotedText e.quote s ++ post) ∧
      sqlLexer.run () (pre ++ quotedText e.quote s ++ post) =
        (sqlLexer.run () post).map (fun r => (ts ++ quotedToken e.quote s :: r.1,r.2)) ∧
      sqlScanner.run (none,{}) (pre ++ quotedText e.quote s ++ post) =
        (sqlScanner.run (some e.quote,sc.copy (quotedText e.quote s)) post).map
          (fun r => (taken ++ quotedText e.quote s :: r.1,r.2)) ∧
      scanSql (pre ++ quotedText e.quote s ++ post).length none
          (pre ++ quotedText e.quote s ++ post) {} =
        scanSql post.length (some e.quote) post (sc.copy (quotedText e.quote s)) := by
  intro s
  have htokens := run_around_token hscan (sqlScanner_quotedText e.quote_cases s hnext.1 prev sc)
  refine ⟨?_,?_,htokens,?_⟩
  · rw [pgVmprintf_escaped e hreach hdir,hpost,hpre,← e.around_escapedText s]
    simp
  · exact run_around_token hsql (reaches_quotedText e.quote_cases s hnext)
  · rw [← Option.some.injEq,← scanSql_eq_run (Nat.le_refl _),← scanSql_eq_run (Nat.le_refl _),
      htokens,Option.map_map]
    rfl

/-- The format `a=%Q;` and a value with a quote, a comment and a placeholder in it. -/
theorem escaped_value_one_token_hostile :
    pgVmprintf (fun _ _ => none) "a=%Q;".toList [.text (some "'--?".toList)] =
      some "a='''--?';".toList ∧
    sqlLexer.run () "a='''--?';".toList =
      some ([.word ['a'],.symbol '=',.literal "'--?".toList,.symbol ';'],()) := by
  have hreach : (vmScanner (fun _ _ => none)).Reaches [] "a=%Q;".toList [['a'],['=']] []
      "%Q;".toList := .step rfl (.step rfl (.here [] _))
  have hpost : pgVmprintf (fun _ _ => none) [';'] [] = some (Escape.Q.around ++ [';']) := rfl
  have hsql : StopsAtQuote sqlLexer Escape.Q.quote () ['a','='] [.word ['a'],.symbol '='] () :=
    fun r _ => .step rfl (.step rfl (.here () r))
  have hscan : StopsAtQuote sqlScanner Escape.Q.quote (none,{}) ['a','='] [['a'],['=']]
      (some '=',{ out := ['a','='] }) := fun r _ => .step rfl (.step rfl (.here _ r))
  have h := escaped_value_one_token .Q hreach rfl rfl hpost (by decide) hsql hscan "'--?".toList
  exact ⟨h.1,h.2.1⟩

end

end Lorentz.Translation
