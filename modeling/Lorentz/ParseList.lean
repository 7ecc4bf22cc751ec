import Lorentz.Library.Feed

/-!
`gravity_parse_stream`: the lines of a list, their tokens, and what is handed over as a domain
or a pattern. A byte is a character.
-/

set_option autoImplicit false

namespace Lorentz
open Feed

def MAX_INVALID_DOMAINS : Nat := 5

def falsePositives : List (List Char) :=
  ["localhost".toList,"localhost.localdomain".toList,"local".toList,"broadcasthost".toList,
    "localhost".toList,"ip6-localhost".toList,"ip6-loopback".toList,"lo0 localhost".toList,
    "ip6-localnet".toList,"ip6-mcastprefix".toList,"ip6-allnodes".toList,"ip6-allrouters".toList,
    "ip6-allhosts".toList]

def validDomainChar (c : Char) : Bool :=
  c.isAlphanum || c = '-' || c = '.' || c = '_'

/-- The lead byte of a UTF-8 sequence: its length and the range of the byte behind it. -/
def utf8Lead (c : Nat) : Option (Nat × Nat × Nat) :=
  if 0xc2 ≤ c ∧ c ≤ 0xdf then some (2,0x80,0xbf)
  else if 0xe0 ≤ c ∧ c ≤ 0xef then
    some (3,if c = 0xe0 then 0xa0 else 0x80,if c = 0xed then 0x9f else 0xbf)
  else if 0xf0 ≤ c ∧ c ≤ 0xf4 then
    some (4,if c = 0xf0 then 0x90 else 0x80,if c = 0xf4 then 0x8f else 0xbf)
  else none

def utf8SequenceLen (p : List Char) : Nat :=
  match p with
  | [] => 0
  | c :: cs =>
    match utf8Lead c.toNat with
    | none => 0
    | some (len,lo,hi) =>
      if p.length < len then 0
      else
        match (cs.take (len-1)).map Char.toNat with
        | [] => 0
        | d :: ds =>
          if d < lo ∨ d > hi then 0
          else if ds.all (fun e => 0x80 ≤ e && e ≤ 0xbf) then len
          else 0

/-- The loop of `valid_domain`, with the length of its label and whether it has passed a dot; the
first argument bounds the rounds. -/
def scanLabels (allowUtf8 : Bool) : Nat → List Char → Nat → Bool → Option (Nat × Bool)
  | _, [], label, dot => some (label,dot)
  | 0, _ :: _, _, _ => none
  | n+1, c :: cs, label, dot =>
    if c.toNat > 0x7f then
      if allowUtf8 = false then none
      else
        let seq := utf8SequenceLen (c :: cs)
        if seq = 0 then none else scanLabels allowUtf8 n ((c :: cs).drop seq) (label+seq) dot
    else if validDomainChar c = false then none
    else if c = '.' then
      if label = 0 ∨ label > 63 then none else scanLabels allowUtf8 n cs 0 true
    else scanLabels allowUtf8 n cs (label+1) dot

def validDomain (domain : List Char) (fqdnOnly allowUtf8 : Bool) : Bool :=
  if domain = [] ∨ domain.length > 255 then false
  else
    match scanLabels allowUtf8 domain.length domain 0 false with
    | none => false
    | some (label,dot) =>
      label ≤ 63 && (dot || !fqdnOnly) &&
        domain[domain.length-label]? ≠ some '-' && domain.getLast? ≠ some '-'

def abpIntro (antigravity : Bool) : List Char :=
  if antigravity then "@@||".toList else "||".toList

def validAbpDomain (line : List Char) (antigravity : Bool) : Bool :=
  (abpIntro antigravity).length+1 ≤ line.length && (abpIntro antigravity).isPrefixOf line &&
    line.getLast? = some '^' &&
      validDomain (line.drop (abpIntro antigravity).length).dropLast false false

def isAbp (antigravity : Bool) (row : List Char) : Bool := (abpIntro antigravity).isPrefixOf row

theorem not_isAbp_of_validDomain {domain : List Char} {fqdnOnly : Bool}
    (h : validDomain domain fqdnOnly false = true) (antigravity : Bool) :
    isAbp antigravity domain = false := by
  cases domain with
  | nil => cases antigravity <;> rfl
  | cons c cs =>
    have hchar : c ≠ '|' ∧ c ≠ '@' := by
      constructor <;> rintro rfl <;> simp [validDomain,scanLabels,validDomainChar] at h
    cases antigravity with
    | false => simp [isAbp,abpIntro,List.isPrefixOf,hchar.1.symm]
    | true => simp [isAbp,abpIntro,List.isPrefixOf,hchar.2.symm]

def isFalsePositive (line : List Char) : Bool := falsePositives.contains line

def isspace (c : Char) : Bool :=
  c = ' ' || c = '\t' || c = '\n' || c = '\x0b' || c = '\x0c' || c = '\r'

def getlines : List Char → List (List Char)
  | [] => []
  | c :: cs =>
    if c = '\n' then [c] :: getlines cs
    else
      match getlines cs with
      | [] => [[c]]
      | line :: lines => (c :: line) :: lines

def byteOrderMark : List Char := [Char.ofNat 0xEF,Char.ofNat 0xBB,Char.ofNat 0xBF]

def dropByteOrderMark : List (List Char) → List (List Char)
  | [] => []
  | line :: lines => (if byteOrderMark.isPrefixOf line then line.drop 3 else line) :: lines

def dropTrailing (c : Char) (line : List Char) : List Char :=
  if line.getLast? = some c then line.dropLast else line

def trimLine (line : List Char) : List Char :=
  let line := dropTrailing '\n' line
  let line := dropTrailing '\r' line
  (line.reverse.dropWhile isspace).reverse

def isComment (line : List Char) : Bool :=
  match line with
  | [] => false
  | c :: _ => c = '!' || c = '#' || c = ';' || c = '['

def cText (line : List Char) : List Char := line.takeWhile (fun c => c ≠ Char.ofNat 0)

def isSelector (line : List Char) : Bool :=
  match (cText line).dropWhile (fun c => c ≠ '#') with
  | _ :: c :: _ => (c = '#' || c = '$' || c = '@' || c = '?' || c = '%') && line.head? ≠ some '#'
  | _ => false

def cleanLine (line : List Char) : List Char :=
  let line := trimLine line
  if isComment line || isSelector line then []
  else (cText line).takeWhile (fun c => c ≠ '#')

def tokens (line : List Char) : List (List Char) :=
  (line.splitOnP (fun c => c = ' ' || c = '\t')).filter (fun t => !t.isEmpty)

structure ParseStats where
  exact : UInt32
  abp : UInt32
  invalid : UInt32
  sample : List (List Char)
  oom : Bool
  deriving DecidableEq, Repr

def ParseStats.zero : ParseStats := ⟨0,0,0,[],false⟩

/-- `struct gravity_parser` without its callback; `inetPton` recognises the addresses of a family,
`sampleFits` says whether there is memory for a further sample. -/
structure ListParser where
  antigravity : Bool
  printInvalid : Bool
  inetPton4 : List Char → Bool
  inetPton6 : List Char → Bool
  sampleFits : Nat → Bool

namespace ListParser

variable (p : ListParser)

def isAddress (token : List Char) : Bool :=
  (token.head?.any (fun c => '0' ≤ c && c ≤ '9') && p.inetPton4 token) ||
    ((token.take 5).contains ':' && p.inetPton6 token)

def marker : Char := if p.antigravity then '@' else '|'

def invalidToken (token : List Char) (st : ParseStats) : Bool × ParseStats :=
  if isFalsePositive token then (true,st)
  else if p.printInvalid then (true,{ st with invalid := st.invalid+1 })
  else if st.sample.length < MAX_INVALID_DOMAINS ∧
      st.sample.all (fun s =>
        s.take (min token.length s.length) ≠ token.take (min token.length s.length)) then
    if p.sampleFits st.sample.length then
      (true,{ st with sample := st.sample ++ [token], invalid := st.invalid+1 })
    else (false,{ st with oom := true })
  else (true,{ st with invalid := st.invalid+1 })

def normalize (token : List Char) : List Char := (dropTrailing '.' token).map Char.toLower

def parseToken (first : Option Char) : Producer (List Char) (List Char) ParseStats :=
  fun _ add token (st,b) =>
    if p.isAddress token then (true,st,b)
    else
      let token := normalize token
      if token = [] then (true,st,b)
      else if first ≠ some p.marker ∧ validDomain token true false then
        match add token b with
        | (true,b) => (true,{ st with exact := st.exact+1 },b)
        | (false,b) => (false,st,b)
      else if token.head? = some p.marker ∧ validAbpDomain token p.antigravity then
        match add token b with
        | (true,b) => (true,{ st with abp := st.abp+1 },b)
        | (false,b) => (false,st,b)
      else
        let r := p.invalidToken token st
        (r.1,r.2,b)

def parseLine : Producer (List Char) (List Char) ParseStats :=
  fun β add line => (p.parseToken (cleanLine line).head?).each β add (tokens (cleanLine line))

/-- `gravity_parse_stream`: `false` stands for the return value -1. -/
def gravityParseStream : Producer (List Char) (List Char) ParseStats :=
  fun β add stream (_,b) =>
    p.parseLine.each β add (dropByteOrderMark (getlines stream)) (.zero,b)

def handedOver (stream : List Char) : Bool × ParseStats × List (List Char) :=
  p.gravityParseStream (List (List Char)) collect stream (.zero,[])

theorem parseToken_forwards (first : Option Char) : Forwards (p.parseToken first) := by
  intro β add token s s' b b' h
  unfold parseToken at h
  dsimp only at h
  -- a branch that hands nothing over, and one that hands over the token
  have hnone : ∀ t : ParseStats, (true,t,b) = (true,s',b') → (∀ acc : List (List Char),
      p.parseToken first _ collect token (s,acc) = (true,t,acc)) →
      ∃ xs, (∀ acc, p.parseToken first _ collect token (s,acc) = (true,s',acc ++ xs)) ∧
        feed add xs b = (true,b') := by
    rintro t ⟨⟩ ht
    exact ⟨[],by simpa using ht,rfl⟩
  have hone : ∀ (t : ParseStats) (d : List Char),
      (match add d b with
        | (true,b) => (true,t,b)
        | (false,b) => (false,s,b)) = (true,s',b') → (∀ acc : List (List Char),
      p.parseToken first _ collect token (s,acc) = (true,t,acc ++ [d])) →
      ∃ xs, (∀ acc, p.parseToken first _ collect token (s,acc) = (true,s',acc ++ xs)) ∧
        feed add xs b = (true,b') := by
    intro t d hd ht
    split at hd
    · rename_i hadd
      cases hd
      exact ⟨[d],ht,feed_singleton hadd⟩
    · cases hd
  split at h
  · rename_i ha
    exact hnone s h fun acc => by simp [parseToken,ha]
  rename_i ha
  split at h
  · rename_i he
    exact hnone s h fun acc => by simp [parseToken,ha,he]
  rename_i he
  split at h
  · rename_i hv
    exact hone _ _ h fun acc => by simp [parseToken,ha,he,hv,collect]
  rename_i hv
  split at h
  · rename_i hw
    exact hone _ _ h fun acc => by simp only [parseToken,ha,he,hv,hw,collect]; rfl
  rename_i hw
  have hr : (p.invalidToken (normalize token) s).1 = true := by
    simpa using congrArg Prod.fst h
  refine hnone (p.invalidToken (normalize token) s).2 ?_ fun acc => ?_
  · rw [← h,hr]
  · simp only [parseToken,ha,he,hv,hw,hr]
    rfl

theorem parseLine_forwards : Forwards p.parseLine := by
  intro β add line s s' b b' h
  exact (p.parseToken_forwards (cleanLine line).head?).each β add
    (tokens (cleanLine line)) s s' b b' h

theorem gravityParseStream_feeds {β : Type} {add : List Char → β → Bool × β} {stream : List Char}
    {s st : ParseStats} {b b' : β}
    (h : p.gravityParseStream β add stream (s,b) = (true,st,b')) :
    (p.handedOver stream).1 = true ∧ (p.handedOver stream).2.1 = st ∧
      feed add (p.handedOver stream).2.2 b = (true,b') := by
  obtain ⟨xs,hc,hf⟩ := p.parseLine_forwards.each β add _ _ _ _ _ h
  have hh : p.handedOver stream = (true,st,xs) := hc []
  rw [hh]
  exact ⟨rfl,rfl,hf⟩

theorem parseToken_keeps (first : Option Char) : Keeps (p.parseToken first) := by
  intro β add I hI token s b hb
  have hadd : ∀ (t : ParseStats) (d : List Char),
      I (match add d b with
        | (true,b) => (true,t,b)
        | (false,b) => (false,s,b)).2.2 := by
    intro t d
    have hd := hI d b hb
    split <;> rename_i he <;> rw [he] at hd <;> exact hd
  simp only [parseToken]
  split
  · exact hb
  split
  · exact hb
  split
  · exact hadd _ _
  split
  · exact hadd _ _
  · exact hb

theorem gravityParseStream_keeps : Keeps p.gravityParseStream := by
  intro β add I hI stream _ b hb
  have hline : Keeps p.parseLine := fun β add I hI line =>
    (p.parseToken_keeps (cleanLine line).head?).each β add I hI (tokens (cleanLine line))
  exact hline.each β add I hI _ .zero b hb

theorem handedOver_abp {stream : List Char} {st : ParseStats} {xs : List (List Char)}
    (h : p.handedOver stream = (true,st,xs)) :
    st.abp = UInt32.ofNat (xs.countP (isAbp p.antigravity)) := by
  let R : ParseStats × List (List Char) → Prop :=
    fun s => s.1.abp = UInt32.ofNat (s.2.countP (isAbp p.antigravity))
  have htoken : ∀ first token s s', R s →
      p.parseToken first _ collect token s = (true,s') → R s' := by
    rintro first token ⟨st,acc⟩ s' hs ht
    simp only [parseToken,collect] at ht
    split at ht
    · cases ht
      exact hs
    split at ht
    · cases ht
      exact hs
    split at ht
    · rename_i hv
      cases ht
      simpa [R,not_isAbp_of_validDomain hv.2] using hs
    split at ht
    · rename_i hv
      have habp : isAbp p.antigravity (normalize token) = true := by
        have := hv.2
        simp only [validAbpDomain,Bool.and_eq_true] at this
        exact this.1.1.2
      cases ht
      change st.abp+1 = _
      rw [show st.abp = _ from hs,List.countP_append,List.countP_singleton,habp]
      exact (UInt32.ofNat_add _ 1).symm
    · have hsame : (p.invalidToken (normalize token) st).2.abp = st.abp := by
        unfold invalidToken
        repeat' split
        all_goals rfl
      have hs' := congrArg Prod.snd ht
      cases hs'
      exact hsame.trans hs
  exact feed_preserves (fun line s s' hs hl => feed_preserves (htoken _) hs hl)
    (show R (.zero,[]) from rfl) h

end ListParser

end Lorentz
