import Lorentz.Users

/-!
The rate limit, `verify_password` with its upgrade of legacy hashes, `verify_login` and
`user_authenticate`. A check may write one of the hashes it reads.
-/

set_option autoImplicit false

namespace Lorentz

inductive PasswordResult where
  | incorrect | correct | appCorrect | cliCorrect | noPasswordSet | rateLimited
  deriving DecidableEq, Repr

def MAX_PASSWORD_ATTEMPTS_PER_SECOND : Nat := 3

/-- The static variables `last_password_attempt` and `num_password_attempts`, which is an
`unsigned int`. -/
structure Limiter where
  lastPasswordAttempt : Int
  numPasswordAttempts : Nat
  deriving DecidableEq, Repr

namespace Limiter

variable (l : Limiter)

def counts (rateLimiting : Bool) (now : Int) : Bool :=
  rateLimiting && 0 < l.lastPasswordAttempt && l.lastPasswordAttempt = now

def count : Limiter := { l with numPasswordAttempts := (l.numPasswordAttempts+1) % 2^32 }

def restart (now : Int) : Limiter := ⟨now,1⟩

def giveBack : Limiter := { l with numPasswordAttempts := (l.numPasswordAttempts+2^32-1) % 2^32 }

/-- `verify_password` under `rate_limit_lock`, with two readings of the clock: whether the attempt
may go on. -/
def passes (rateLimiting : Bool) (t0 t1 : Int) : Bool × Limiter :=
  if l.counts rateLimiting t0 then
    (l.count.numPasswordAttempts ≤ MAX_PASSWORD_ATTEMPTS_PER_SECOND,l.count)
  else (true,restart t1)

variable {l}

theorem count_eq (h : l.numPasswordAttempts+1 < 2^32) :
    l.count = ⟨l.lastPasswordAttempt,l.numPasswordAttempts+1⟩ := by
  rw [count,Nat.mod_eq_of_lt h]

theorem giveBack_eq (h0 : 0 < l.numPasswordAttempts) (h : l.numPasswordAttempts < 2^32) :
    l.giveBack = ⟨l.lastPasswordAttempt,l.numPasswordAttempts-1⟩ := by
  have hmod : (l.numPasswordAttempts+2^32-1) % 2^32 = l.numPasswordAttempts-1 := by omega
  rw [giveBack,hmod]

end Limiter

/-- The hash functions, for salts in `σ` and digests in `η`. Balloon hashes of one salt
are taken to be without collisions. -/
structure Hashing (σ η : Type) where
  doubleSha256Password : List Char → List Char
  balloon : σ → List Char → η
  phcString : σ → η → List Char
  parsePHCString : List Char → Option (σ × η)
  parse_phcString : ∀ salt hash, parsePHCString (phcString salt hash) = some (salt,hash)
  phcString_head : ∀ salt hash, (phcString salt hash).head? = some '$'
  balloon_injective : ∀ salt, Function.Injective (balloon salt)

def legacyHash (pwhash : List Char) : Bool := pwhash.head? ≠ some '$'

namespace Hashing

variable {σ η : Type} (H : Hashing σ η)

def createPassword (salt : Option σ) (password : List Char) : List Char :=
  match salt with
  | none => []
  | some salt => H.phcString salt (H.balloon salt password)

def verifies [DecidableEq η] (pwhash password : List Char) : Bool :=
  if legacyHash pwhash then pwhash = H.doubleSha256Password password
  else
    match H.parsePHCString pwhash with
    | none => false
    | some (salt,hash) => hash = H.balloon salt password

theorem legacyHash_phcString (salt : σ) (hash : η) : legacyHash (H.phcString salt hash) = false := by
  simp [legacyHash,H.phcString_head]

theorem createPassword_ne {salt : Option σ} (h : salt.isSome = true) (p : List Char) :
    H.createPassword salt p ≠ [] := by
  obtain ⟨salt,rfl⟩ := Option.isSome_iff_exists.1 h
  intro he
  have hhead := H.phcString_head salt (H.balloon salt p)
  simp only [createPassword] at he
  simp [he] at hhead

theorem verifies_createPassword [DecidableEq η] (salt : σ) (password p : List Char) :
    H.verifies (H.createPassword (some salt) password) p = true ↔ p = password := by
  simp only [verifies,createPassword,legacyHash_phcString,H.parse_phcString,Bool.false_eq_true,
    if_false,decide_eq_true_eq]
  exact ⟨fun h => (H.balloon_injective salt h).symm,fun h => by rw [h]⟩

end Hashing

/-- The answers to one `verify_password`: two readings of the clock, and a salt unless there is no
randomness. -/
structure CheckEnv (σ : Type) where
  t0 : Int
  t1 : Int
  salt : Option σ
  deriving DecidableEq, Repr

/-- The stored credentials and the rate limit. `cliPassword` is `none` also if the CLI
password is switched off. -/
structure Credentials where
  limiter : Limiter
  cliPassword : Option (List Char)
  pwhash : List Char
  appPwhash : List Char
  table : UserTable

section

variable {σ η : Type} [DecidableEq η] (H : Hashing σ η)

/-- A legacy hash that fits is upgraded, and the new hash always goes to the web
password. -/
def verifyPassword (password pwhash : List Char) (rateLimiting : Bool) (e : CheckEnv σ)
    (c : Credentials) : PasswordResult × Credentials :=
  if pwhash = [] then (.noPasswordSet,c)
  else if password = [] then (.incorrect,c)
  else
    match c.limiter.passes rateLimiting e.t0 e.t1 with
    | (false,l) => (.rateLimited,{ c with limiter := l })
    | (true,l) =>
      if H.verifies pwhash password then
        (.correct,
          { c with
            limiter := l.giveBack
            pwhash := if legacyHash pwhash then H.createPassword e.salt password else c.pwhash })
      else (.incorrect,{ c with limiter := l })

def verifyLogin (password : List Char) (e e' : CheckEnv σ) (c : Credentials) :
    PasswordResult × Credentials :=
  if c.cliPassword = some password then (.cliCorrect,c)
  else
    match verifyPassword H password c.pwhash true e c with
    | (.incorrect,c) =>
      if c.appPwhash = [] then (.incorrect,c)
      else
        match verifyPassword H password c.appPwhash true e' c with
        | (.correct,c) => (.appCorrect,c)
        | (_,c) => (.incorrect,c)
    | r => r

/-- What the lookup of an account and the note of the login meet. -/
structure AccountEnv where
  opened : Bool
  noted : Option Int
  deriving DecidableEq, Repr

def Credentials.known (c : Credentials) (username : List Char) (opened : Bool) : Option UserRow :=
  if opened then
    ((userNormalizeUsername username).bind c.table.byName).filter (fun r => (readUser r).enabled)
  else none

/-- `UPDATE users SET last_login = ? WHERE id = ?`. -/
def Credentials.noteLogin (c : Credentials) (id : Int) : Option Int → Credentials
  | none => c
  | some now =>
    { c with table := (c.table.update id (fun r => { r with lastLogin := some now })).getD c.table }

/-- The hash a password is compared with when there is no such account. -/
def Hashing.unknownUser (dummy : Option σ) : List Char :=
  H.createPassword dummy "lorentz-no-such-user".toList

/-- `authenticate` with `record` set. `dummy` is the salt of the hash that is checked if
there is no such account. -/
def userAuthenticate (dummy : Option σ) (username password : List Char) (a : AccountEnv)
    (e : CheckEnv σ) (c : Credentials) : PasswordResult × Credentials :=
  match c.known username a.opened with
  | none =>
    match verifyPassword H password (H.unknownUser dummy) true e c with
    | (.rateLimited,c) => (.rateLimited,c)
    | (_,c) => (.incorrect,c)
  | some r =>
    match verifyPassword H password r.pwhash true e c with
    | (.correct,c) => (.correct,c.noteLogin r.id a.noted)
    | r => r

end

inductive StoredHash where
  | web
  | app
  | account (id : Int)
  deriving DecidableEq, Repr

def Credentials.hashAt (c : Credentials) : StoredHash → Option (List Char)
  | .web => some c.pwhash
  | .app => some c.appPwhash
  | .account id => (c.table.rows.find? (fun r => r.id = id)).map (·.pwhash)

inductive PasswordCheck (σ : Type) where
  | password (submitted : List Char) (place : StoredHash) (rateLimiting : Bool) (e : CheckEnv σ)
  | login (submitted : List Char) (e e' : CheckEnv σ)
  | authenticate (dummy : Option σ) (username submitted : List Char) (a : AccountEnv)
      (e : CheckEnv σ)

namespace PasswordCheck

variable {σ η : Type}

def submitted : PasswordCheck σ → List Char
  | .password submitted _ _ _ => submitted
  | .login submitted _ _ => submitted
  | .authenticate _ _ submitted _ _ => submitted

def LooksAt (c : Credentials) : PasswordCheck σ → StoredHash → Prop
  | .password _ place _ _, h => h = place
  | .login _ _ _, h => h = .web ∨ h = .app
  | .authenticate _ username _ a _, h => ∃ r, c.known username a.opened = some r ∧ h = .account r.id

variable [DecidableEq η] (H : Hashing σ η)

def run (c : Credentials) : PasswordCheck σ → Credentials
  | .password submitted place rateLimiting e =>
    match c.hashAt place with
    | none => c
    | some h => (verifyPassword H submitted h rateLimiting e c).2
  | .login submitted e e' => (verifyLogin H submitted e e' c).2
  | .authenticate dummy username submitted a e =>
    (userAuthenticate H dummy username submitted a e c).2

/-- Every stored hash is what it was, or was checked successfully and now verifies exactly the
submitted password. -/
def Spares (k : PasswordCheck σ) (c : Credentials) : Prop :=
  ∀ place h, c.hashAt place = some h → ∃ h', (k.run H c).hashAt place = some h' ∧
    (h' = h ∨ (k.LooksAt c place ∧ H.verifies h k.submitted = true ∧
      ∀ p, H.verifies h' p = true ↔ p = k.submitted))

end PasswordCheck

section

variable {σ η : Type} [DecidableEq η] (H : Hashing σ η)

def upgrades (password pwhash : List Char) (rateLimiting : Bool) (e : CheckEnv σ)
    (l : Limiter) : Bool :=
  pwhash ≠ [] && password ≠ [] && (l.passes rateLimiting e.t0 e.t1).1 && legacyHash pwhash &&
    H.verifies pwhash password

/-- If the call finds a legacy hash to fit, it is that of the web password and there is
randomness, or the new hash is that of the web password already. -/
def CallSpares (password : List Char) (place : StoredHash) (pwhash : List Char)
    (rateLimiting : Bool) (e : CheckEnv σ) (c : Credentials) : Prop :=
  upgrades H password pwhash rateLimiting e c.limiter = true →
    (place = .web ∧ e.salt.isSome = true) ∨ H.createPassword e.salt password = c.pwhash

/-- Every call of `verify_password` that the check makes spares the other hashes. -/
def PasswordCheck.CallsSpare (c : Credentials) : PasswordCheck σ → Prop
  | .password submitted place rateLimiting e =>
    ∀ h, c.hashAt place = some h → CallSpares H submitted place h rateLimiting e c
  | .login submitted e e' =>
    c.cliPassword ≠ some submitted → submitted ≠ [] →
      CallSpares H submitted .web c.pwhash true e c ∧
      -- the app password is looked at only if the other one is set and wrong
      (c.pwhash ≠ [] → (c.limiter.passes true e.t0 e.t1).1 = true →
        H.verifies c.pwhash submitted = false → CallSpares H submitted .app c.appPwhash true e'
          { c with limiter := (c.limiter.passes true e.t0 e.t1).2 })
  | .authenticate _ username submitted a e =>
    ∀ r, c.known username a.opened = some r →
      CallSpares H submitted (.account r.id) r.pwhash true e c

variable (password pwhash : List Char) (rateLimiting : Bool) (e : CheckEnv σ) (c : Credentials)

theorem verifyPassword_hashes :
    (verifyPassword H password pwhash rateLimiting e c).2.appPwhash = c.appPwhash ∧
    (verifyPassword H password pwhash rateLimiting e c).2.table = c.table ∧
    (verifyPassword H password pwhash rateLimiting e c).2.pwhash =
      if upgrades H password pwhash rateLimiting e c.limiter then H.createPassword e.salt password
      else c.pwhash := by
  by_cases h1 : pwhash = []
  · simp [verifyPassword,upgrades,h1]
  by_cases h2 : password = []
  · simp [verifyPassword,upgrades,h1,h2]
  rcases hl : c.limiter.passes rateLimiting e.t0 e.t1 with ⟨ok,l⟩
  cases ok with
  | false => simp [verifyPassword,upgrades,h1,h2,hl]
  | true => by_cases hv : H.verifies pwhash password = true <;>
      simp [verifyPassword,upgrades,h1,h2,hl,hv]

/-- A wrong password changes nothing but the rate limit. -/
theorem verifyPassword_incorrect_iff (hp : password ≠ []) (c' : Credentials) :
    verifyPassword H password pwhash rateLimiting e c = (.incorrect,c') ↔
      pwhash ≠ [] ∧ (c.limiter.passes rateLimiting e.t0 e.t1).1 = true ∧
        H.verifies pwhash password = false ∧
        c' = { c with limiter := (c.limiter.passes rateLimiting e.t0 e.t1).2 } := by
  by_cases h1 : pwhash = []
  · simp [verifyPassword,h1]
  rcases hl : c.limiter.passes rateLimiting e.t0 e.t1 with ⟨ok,l⟩
  cases ok with
  | false => simp [verifyPassword,h1,hp,hl]
  | true =>
    by_cases hv : H.verifies pwhash password = true
    · simp [verifyPassword,h1,hp,hl,hv]
    · simp [verifyPassword,h1,hp,hl,hv,eq_comm]

theorem callSpares_iff (place : StoredHash) (web : Prop)
    (hweb : web ↔ place = .web ∧ H.verifies c.pwhash password = true)
    (hplace : place = .web → pwhash = c.pwhash) :
    ((verifyPassword H password pwhash rateLimiting e c).2.pwhash = c.pwhash ∨
        (web ∧ ∀ p, H.verifies (verifyPassword H password pwhash rateLimiting e c).2.pwhash p = true ↔
          p = password)) ↔
      CallSpares H password place pwhash rateLimiting e c := by
  rw [(verifyPassword_hashes H password pwhash rateLimiting e c).2.2,CallSpares]
  by_cases hup : upgrades H password pwhash rateLimiting e c.limiter = true
  · simp only [hup,if_true,true_implies]
    simp only [upgrades,Bool.and_eq_true,decide_eq_true_eq] at hup
    obtain ⟨⟨⟨⟨hne,-⟩,-⟩,hlegacy⟩,hfits⟩ := hup
    constructor
    · rintro (h | ⟨hw,hexact⟩)
      · exact .inr h
      refine .inl ⟨(hweb.1 hw).1,?_⟩
      cases hsalt : e.salt with
      | some salt => rfl
      | none =>
        -- the empty hash would have to be the legacy hash that fitted
        have hself := (hexact password).2 rfl
        simp only [hsalt,Hashing.createPassword,Hashing.verifies,legacyHash,List.head?_nil,
          ne_eq,reduceCtorEq,not_false_eq_true,decide_true,if_true,decide_eq_true_eq] at hself
        simp only [Hashing.verifies,hlegacy,if_true,decide_eq_true_eq] at hfits
        exact absurd (hfits.trans hself.symm) hne
    · rintro (⟨hp,hsalt⟩ | h)
      · obtain ⟨salt,hsalt⟩ := Option.isSome_iff_exists.1 hsalt
        rw [hplace hp] at hfits
        rw [hsalt]
        exact .inr ⟨hweb.2 ⟨hp,hfits⟩,H.verifies_createPassword salt password⟩
      · exact .inl h
  · simp [hup]

end

theorem Credentials.hashAt_congr {c c' : Credentials} (happ : c'.appPwhash = c.appPwhash)
    (htable : c'.table = c.table) {place : StoredHash} (h : place ≠ .web) :
    c'.hashAt place = c.hashAt place := by
  cases place with
  | web => exact absurd rfl h
  | app => simp [hashAt,happ]
  | account id => simp [hashAt,htable]

theorem Credentials.hashAt_noteLogin (c : Credentials) (id : Int) (noted : Option Int)
    (place : StoredHash) : (c.noteLogin id noted).hashAt place = c.hashAt place := by
  cases noted with
  | none => rfl
  | some now =>
    cases place with
    | web | app => rfl
    | account id' =>
      simp only [noteLogin,hashAt]
      cases hu : c.table.update id (fun r => { r with lastLogin := some now }) with
      | none => rfl
      | some t =>
        rw [Option.getD_some,UserTable.update_rows hu,UserTable.change,List.find?_map,Option.map_map]
        have hid : ((fun r : UserRow => decide (r.id = id')) ∘ fun r =>
            if r.id = id then { r with lastLogin := some now, id := r.id } else r) =
            fun r => decide (r.id = id') := by
          funext r
          simp only [Function.comp_apply]
          split <;> rfl
        rw [hid]
        refine congrFun (congrArg _ (funext fun r => ?_)) _
        simp only [Function.comp_apply]
        split <;> rfl

namespace PasswordCheck

variable {σ η : Type} [DecidableEq η] {H : Hashing σ η} {k : PasswordCheck σ} {c : Credentials}

theorem spares_iff_web (h : ∀ place, place ≠ .web → (k.run H c).hashAt place = c.hashAt place) :
    k.Spares H c ↔ ((k.run H c).pwhash = c.pwhash ∨
      ((k.LooksAt c .web ∧ H.verifies c.pwhash k.submitted = true) ∧
        ∀ p, H.verifies (k.run H c).pwhash p = true ↔ p = k.submitted)) := by
  constructor
  · intro hs
    obtain ⟨h',hh',hor⟩ := hs .web _ rfl
    obtain rfl : (k.run H c).pwhash = h' := by simpa [Credentials.hashAt] using hh'
    rw [and_assoc]
    exact hor
  intro hor place hash hplace
  by_cases hw : place = .web
  · subst hw
    obtain rfl : c.pwhash = hash := by simpa [Credentials.hashAt] using hplace
    refine ⟨_,rfl,?_⟩
    rw [and_assoc] at hor
    exact hor
  · exact ⟨hash,by rw [h place hw]; exact hplace,.inl rfl⟩

variable (H) (c)

theorem password_spares_iff (submitted : List Char) (place : StoredHash) (rateLimiting : Bool)
    (e : CheckEnv σ) :
    (password submitted place rateLimiting e).Spares H c ↔
      (password submitted place rateLimiting e).CallsSpare H c := by
  cases hplace : c.hashAt place with
  | none =>
    have hrun : (password submitted place rateLimiting e).run H c = c := by simp [run,hplace]
    rw [spares_iff_web (by simp [hrun]),hrun]
    simp [CallsSpare,hplace]
  | some h =>
    have hrun : (password submitted place rateLimiting e).run H c =
        (verifyPassword H submitted h rateLimiting e c).2 := by simp [run,hplace]
    obtain ⟨happ,htable,-⟩ := verifyPassword_hashes H submitted h rateLimiting e c
    rw [spares_iff_web (fun p hp => by rw [hrun]; exact Credentials.hashAt_congr happ htable hp),hrun]
    rw [show (password submitted place rateLimiting e).submitted = submitted from rfl]
    rw [callSpares_iff H submitted h rateLimiting e c place _]
    · simp [CallsSpare,hplace]
    · simp only [LooksAt,eq_comm]
    · rintro rfl
      simpa [Credentials.hashAt] using hplace.symm

theorem login_spares_iff (submitted : List Char) (e e' : CheckEnv σ) :
    (login submitted e e').Spares H c ↔ (login submitted e e').CallsSpare H c := by
  by_cases hcli : c.cliPassword = some submitted
  · have hrun : (login submitted e e').run H c = c := by simp [run,verifyLogin,hcli]
    rw [spares_iff_web (by simp [hrun]),hrun]
    simp [CallsSpare,hcli]
  by_cases hp : submitted = []
  · subst hp
    have hrun : (login [] e e').run H c = c := by
      simp only [run,verifyLogin,hcli,if_false,verifyPassword]
      split_ifs <;> simp_all
    rw [spares_iff_web (by simp [hrun]),hrun]
    simp [CallsSpare]
  obtain ⟨happ,htable,hpwhash⟩ := verifyPassword_hashes H submitted c.pwhash true e c
  rcases hr : verifyPassword H submitted c.pwhash true e c with ⟨r,c'⟩
  rw [hr] at happ htable hpwhash
  by_cases hinc : r = .incorrect
  · subst hinc
    obtain ⟨hset,hpass,hwrong,hc'⟩ := (verifyPassword_incorrect_iff H _ _ _ e c hp c').1 hr
    have hup : upgrades H submitted c.pwhash true e c.limiter = false := by simp [upgrades,hwrong]
    have hrun : (login submitted e e').run H c =
        (verifyPassword H submitted c.appPwhash true e' c').2 := by
      simp only [run,verifyLogin,hcli,hr,if_false]
      by_cases ha : c'.appPwhash = []
      · simp [ha,← happ,verifyPassword]
      · rw [if_neg ha,happ]
        split <;> simp_all
    obtain ⟨happ',htable',-⟩ := verifyPassword_hashes H submitted c.appPwhash true e' c'
    rw [spares_iff_web (fun p hp => by
      rw [hrun]
      exact Credentials.hashAt_congr (happ'.trans happ) (htable'.trans htable) hp),hrun]
    have hpw : c'.pwhash = c.pwhash := by simpa [hup] using hpwhash
    have hcalls : (login submitted e e').CallsSpare H c ↔
        CallSpares H submitted .app c.appPwhash true e' c' := by
      simp [CallsSpare,hcli,hp,hset,hpass,hwrong,hc',CallSpares,hup]
    rw [hcalls,← hpw]
    rw [← callSpares_iff H submitted c.appPwhash true e' c' .app False (by simp) (by simp)]
    simp only [false_and,or_false]
    constructor
    · rintro (h | ⟨⟨-,hfits⟩,-⟩)
      · exact h
      · rw [hpw] at hfits
        exact absurd (hwrong.symm.trans hfits) (by simp)
    · exact fun h => .inl h
  · have hrun : (login submitted e e').run H c = c' := by
      simp only [run,verifyLogin,hcli,hr,if_false]
      split <;> simp_all
    rw [spares_iff_web (fun p hp => by rw [hrun]; exact Credentials.hashAt_congr happ htable hp),hrun]
    have hcalls : (login submitted e e').CallsSpare H c ↔
        CallSpares H submitted .web c.pwhash true e c := by
      simp only [CallsSpare,hcli,hp,not_false_eq_true,ne_eq,true_implies,and_iff_left_iff_imp]
      intro _ hset hpass hwrong
      have := (verifyPassword_incorrect_iff H submitted _ _ e c hp _).2 ⟨hset,hpass,hwrong,rfl⟩
      exact absurd (congrArg Prod.fst (hr.symm.trans this)) hinc
    rw [hcalls,← callSpares_iff H submitted c.pwhash true e c .web
      (H.verifies c.pwhash submitted = true) (by simp) (fun _ => rfl),hr]
    simp [LooksAt,PasswordCheck.submitted]

theorem authenticate_spares_iff (dummy : Option σ) (username submitted : List Char)
    (a : AccountEnv) (e : CheckEnv σ) :
    (authenticate dummy username submitted a e).Spares H c ↔
      (authenticate dummy username submitted a e).CallsSpare H c := by
  cases hk : c.known username a.opened with
  | none =>
    have hdummy : upgrades H submitted (H.unknownUser dummy) true e c.limiter = false := by
      cases dummy with
      | none => simp [upgrades,Hashing.unknownUser,Hashing.createPassword]
      | some salt =>
        simp [upgrades,Hashing.unknownUser,Hashing.createPassword,Hashing.legacyHash_phcString]
    have hrun : (authenticate dummy username submitted a e).run H c =
        (verifyPassword H submitted (H.unknownUser dummy) true e c).2 := by
      simp only [run,userAuthenticate,hk]
      split <;> simp_all
    obtain ⟨happ,htable,hpwhash⟩ := verifyPassword_hashes H submitted (H.unknownUser dummy) true e c
    rw [spares_iff_web (fun p hp => by rw [hrun]; exact Credentials.hashAt_congr happ htable hp),hrun,
      hpwhash,hdummy]
    simp [CallsSpare,hk]
  | some r =>
    obtain ⟨happ,htable,-⟩ := verifyPassword_hashes H submitted r.pwhash true e c
    have hrun : ∀ place, ((authenticate dummy username submitted a e).run H c).hashAt place =
        (verifyPassword H submitted r.pwhash true e c).2.hashAt place := by
      intro place
      simp only [run,userAuthenticate,hk]
      split
      · rename_i hc
        rw [hc,Credentials.hashAt_noteLogin]
      · rfl
    have hweb : ((authenticate dummy username submitted a e).run H c).pwhash =
        (verifyPassword H submitted r.pwhash true e c).2.pwhash := Option.some.inj (hrun .web)
    rw [spares_iff_web (fun p hp => by rw [hrun]; exact Credentials.hashAt_congr happ htable hp),hweb]
    rw [show (authenticate dummy username submitted a e).submitted = submitted from rfl]
    rw [callSpares_iff H submitted r.pwhash true e c (.account r.id) _ (by simp [LooksAt]) (by simp)]
    simp [CallsSpare,hk]

/-- A check leaves the other credentials alone exactly if each of its calls does. -/
theorem spares_iff_callsSpare (k : PasswordCheck σ) : k.Spares H c ↔ k.CallsSpare H c := by
  cases k with
  | password submitted place rateLimiting e => exact password_spares_iff H c submitted place _ e
  | login submitted e e' => exact login_spares_iff H c submitted e e'
  | authenticate dummy username submitted a e =>
    exact authenticate_spares_iff H c dummy username submitted a e

end PasswordCheck

/-- Digests of one salt; those of other passwords are not worked out. -/
def sampleDigest (password : List Char) : List Char :=
  if password = "web".toList then "vzR1atvS1M2WNIYJOB4ra+HVZ1TDgqLN0vxryFd4xOQ=".toList
  else if password = "app".toList then "iOIGvDRDRB3SeYshhv8s8WBljuCxDFzaMAVm10tsU20=".toList
  else if password = "new".toList then "/UZ0GgP1ofJwzqkJl6bTCxg6nKa/73Ol0Bt9Px3Dzqk=".toList
  else if password = "old".toList then "b5qiOYR1dZKjfbwtVw54oo96dLu/8MpvpG6LCDmeagc=".toList
  else '$' :: password

def samplePHC : List Char := "$BALLOON-SHA256$v=1$s=1024,t=32$MDEyMzQ1Njc4OWFiY2RlZg==$".toList

theorem sampleDigest_injective : Function.Injective sampleDigest := by
  intro p q h
  unfold sampleDigest at h
  split_ifs at h <;> simp_all

def sampleHashing : Hashing Unit (List Char) where
  doubleSha256Password password :=
    if password = "web".toList then
      "576058219bcfb696421d75314396ae4c90ab8932d2dcecb0770329644865b547".toList
    else if password = "app".toList then
      "b941637e6bac4d3ee85acb3f4473d493d32cb7cdf4f40b6cad8f27b36bcda32a".toList
    else []
  balloon _ := sampleDigest
  phcString _ hash := samplePHC ++ hash
  parsePHCString pwhash :=
    if samplePHC.isPrefixOf pwhash then some ((),pwhash.drop samplePHC.length) else none
  parse_phcString _ hash := by simp
  phcString_head _ _ := rfl
  balloon_injective _ := sampleDigest_injective

def mixedCredentials : Credentials where
  limiter := ⟨0,0⟩
  cliPassword := none
  pwhash := sampleHashing.createPassword (some ()) "web".toList
  appPwhash := sampleHashing.doubleSha256Password "app".toList
  table := .empty

/-- A login with the app password replaces the web password by it; without randomness, a login
with a legacy web password removes it. -/
theorem login_overwrites_web_password :
    ¬ (PasswordCheck.login "app".toList ⟨7,7,some ()⟩ ⟨7,7,some ()⟩).Spares sampleHashing
        mixedCredentials ∧
    ¬ (PasswordCheck.login "web".toList ⟨7,7,none⟩ ⟨7,7,none⟩).Spares sampleHashing
        { mixedCredentials with pwhash := sampleHashing.doubleSha256Password "web".toList } := by
  constructor
  · intro h
    obtain ⟨h',hh',hor⟩ := h .web _ rfl
    obtain rfl : h' = sampleHashing.createPassword (some ()) "app".toList :=
      (Option.some.inj hh').symm.trans (by decide)
    rcases hor with hor | ⟨-,hfits,-⟩
    · exact absurd hor (by decide)
    · exact absurd hfits (by decide)
  · intro h
    obtain ⟨h',hh',hor⟩ := h .web _ rfl
    obtain rfl : h' = [] := (Option.some.inj hh').symm.trans (by decide)
    rcases hor with hor | ⟨-,-,hexact⟩
    · exact absurd hor (by decide)
    · exact absurd ((hexact "web".toList).2 rfl) (by decide)

end Lorentz
