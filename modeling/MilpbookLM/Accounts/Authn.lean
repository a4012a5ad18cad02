/-
The use cases of signing in: registering, logging in and out, rotating a session, creating the
first administrator; and, beside them, disabling an account. `Behaves` says which of their
calls come after which answers (`Request.behaves`).
-/
import MilpbookLM.Accounts.IdentityStore

namespace MilpbookLM.Accounts

open Table Interleave

/-! ## The use cases -/

/-- `EMAIL_RE.fullmatch`. -/
def isEmail (t : Text) : Bool :=
  let plain (c : Char) : Bool := c ≠ '@' && !isSpace c
  let localPart := t.takeWhile (· ≠ '@')
  match t.dropWhile (· ≠ '@') with
  | [] => false
  | _ :: domain =>
    !localPart.isEmpty && localPart.all plain && domain.all plain && (domain.drop 1).dropLast.contains '.'

def minPasswordLength : Nat := 8
def minAdminPasswordLength : Nat := 12

def registrationError (message : String) : AccountError := .raised "RegistrationError" message

/-- What a new account has to be. -/
def checkAccount (email displayName password : Text) (minLength : Nat) (tooShort : String) : Except AccountError Unit :=
  if !isEmail email then .error (registrationError "email is invalid")
  else if (strip displayName).isEmpty then .error (registrationError "display name is required")
  else if password.length < minLength then .error (registrationError tooShort)
  else .ok ()

structure LoginOutcome where
  succeeded : Bool
  session : Option IssuedSession := none
  userId : Option Uuid := none
  failure : Option String := none

def loginFailed : LoginOutcome := { succeeded := false, failure := some "invalid_credentials" }

section UseCases

variable (lib : Library)

/-- `email.strip().lower()`. -/
def Library.email (email : Text) : Text := lib.lower (strip email)

/-- `RegisterUser`; `salt` is what the hasher draws. -/
def registerUser (salt : Nat) (email displayName password : Text) : IdentityProgram Uuid := do
  let email := lib.email email
  match checkAccount email displayName password minPasswordLength "password is too short" with
  | .error e => throw e
  | .ok () =>
    let found : Option User ← (IdentityCall.getByEmail email).perform
    if found.isSome then throw (registrationError "email is already registered")
    let user : User ← (IdentityCall.create email (strip displayName) (lib.hash salt password) false).perform
    return user.id

/-- `LoginUser`. -/
def loginUser (sessionTtl : Time) (email password : Text) : IdentityProgram LoginOutcome := do
  let record : Option UserRecord ← (IdentityCall.getRecord (lib.email email)).perform
  match record with
  | none => return loginFailed
  | some record =>
    if !record.user.enabled then return loginFailed
    if !lib.verify record.passwordHash password then return loginFailed
    let session : IssuedSession ← (IdentityCall.issue record.user.id sessionTtl).perform
    return { succeeded := true, session := some session, userId := some record.user.id }

/-- `RotateSession`. -/
def rotateSession (sessionTtl : Time) (oldToken : Text) : IdentityProgram (Option IssuedSession) := do
  let now : Time ← (IdentityCall.custody .now).perform
  let resolved : Option (Uuid × Uuid) ← (IdentityCall.authenticate oldToken now).perform
  match resolved with
  | none => return none
  | some (oldSessionId, _) =>
    let issued : IssuedSession ← (IdentityCall.rotate oldSessionId sessionTtl).perform
    return some issued

/-- `LogoutUser`. -/
def logoutUser (token : Text) : IdentityProgram Bool := do
  let now : Time ← (IdentityCall.custody .now).perform
  let resolved : Option (Uuid × Uuid) ← (IdentityCall.authenticate token now).perform
  match resolved with
  | none => return false
  | some (sessionId, _) =>
    (IdentityCall.revoke sessionId).perform
    return true

/-- `BootstrapAdmin`. -/
def bootstrapAdmin (salt : Nat) (email displayName password : Text) : IdentityProgram Uuid := do
  let count : Nat ← IdentityCall.count.perform
  if count ≠ 0 then throw (.raised "BootstrapError" "installation already bootstrapped")
  let email := lib.email email
  match checkAccount email displayName password minAdminPasswordLength "administrator password is too short" with
  | .error e => throw e
  | .ok () =>
    let user : User ← (IdentityCall.create email (strip displayName) (lib.hash salt password) true).perform
    return user.id

end UseCases

/-- What somebody asks for. -/
inductive IdentityRequest
  | register (salt : Nat) (email displayName password : Text)
  | login (sessionTtl : Time) (email password : Text)
  | rotate (sessionTtl : Time) (oldToken : Text)
  | logout (token : Text)
  | bootstrap (salt : Nat) (email displayName password : Text)
  | disable (actorId userId : Uuid)

def IdentityRequest.program (lib : Library) : IdentityRequest → IdentityProgram Unit
  | .register salt email displayName password => discard (registerUser lib salt email displayName password)
  | .login sessionTtl email password => discard (loginUser lib sessionTtl email password)
  | .rotate sessionTtl oldToken => discard (rotateSession sessionTtl oldToken)
  | .logout token => discard (logoutUser token)
  | .bootstrap salt email displayName password => discard (bootstrapAdmin lib salt email displayName password)
  | .disable actorId userId => discard (disableAccount actorId userId).onIdentity

/-- Every party with its request, made once or again and again. -/
def signIn {P : Type} (lib : Library) (requests : P → IdentityRequest) :
    Machine P IdentityCall IdentityAnswer AccountError IdentityWorld IdentityEnv Unit :=
  ⟨IdentityCall.exec lib, fun p _ => ((requests p).program lib).run⟩

/-! ## Which call comes after which answer -/

abbrev IdentityTrace := List (Σ c, IdentityAnswer c)

/-- An administrator is created after a count of none, a session inserted after a check of the account or of the
session it replaces, and the sessions of an account revoked once it is disabled. -/
def IdentityCall.Follows (t : IdentityTrace) : IdentityCall → Prop
  | .create _ _ _ true => ∃ t', t = ⟨.count, .ok (0 : Nat)⟩ :: t'
  | .issue userId _ =>
    ∃ email record t', t = ⟨.getRecord email, .ok (some record)⟩ :: t' ∧ record.user.id = userId ∧ record.user.enabled = true
  | .rotate sessionId _ => ∃ token now userId t', t = ⟨.authenticate token now, .ok (some (sessionId, userId))⟩ :: t'
  | .custody (.revokeAllForUser userId) => ⟨.custody (.updateStatus userId .disabled), .ok ()⟩ ∈ t
  | .custody (.updateStatus _ status) => status = .disabled
  | _ => True

/-- The call made an administrator. -/
def createsAdmin : (c : IdentityCall) → IdentityAnswer c → Bool
  | .create _ _ _ true, .ok _ => true
  | _, _ => false

def IdentityCall.createsAs (installationAdmin : Bool) : IdentityCall → Bool
  | .create _ _ _ admin => admin = installationAdmin
  | _ => false

/-- The calls that a request may make. -/
def IdentityRequest.Makes (c : IdentityCall) : IdentityRequest → Prop
  | .bootstrap .. => c = .count ∨ c.createsAs true = true
  | _ => True

/-- How a request ends: a bootstrap without an error if it has just made an administrator, and a disablement without
one when it has revoked the sessions. -/
def IdentityRequest.Over (outcome : Except AccountError Unit) (t : IdentityTrace) : IdentityRequest → Prop
  | .bootstrap .. => ∀ c answer t', t = ⟨c, answer⟩ :: t' → createsAdmin c answer = outcome.isOk
  | .disable _ userId => outcome = .ok () → t = [] ∨ ∃ n, ⟨.custody (.revokeAllForUser userId), .ok n⟩ ∈ t
  | _ => True

section Behaviour

variable {lib : Library} {request : IdentityRequest} {t : IdentityTrace} {α : Type}

abbrev IdentityProgram.Along (x : IdentityProgram α) (request : IdentityRequest)
    (Q : Except AccountError α → IdentityTrace → Prop) (t : IdentityTrace) : Prop :=
  Prog.Along (fun _ _ => True) (fun t c => c.Follows t ∧ request.Makes c) x.run Q t

/-- A call that may come, and what comes after its answers. -/
theorem along_call {c : IdentityCall} {f : IdentityResult c → IdentityProgram α}
    {Q : Except AccountError α → IdentityTrace → Prop} (hfollows : c.Follows t) (hmakes : request.Makes c)
    (hok : ∀ b, (f b).Along request Q (⟨c, .ok b⟩ :: t)) (herr : ∀ e, Q (.error e) (⟨c, .error e⟩ :: t)) :
    IdentityProgram.Along (c.perform >>= f) request Q t := by
  refine Prog.Along.seq ⟨⟨hfollows, hmakes⟩, fun r _ => ?_⟩
  cases r with
  | ok b => exact hok b
  | error e => exact herr e

theorem registerUser_along {salt : Nat} {email displayName password : Text} :
    (registerUser lib salt email displayName password).Along (.register salt email displayName password)
      (fun _ _ => True) t := by
  simp only [registerUser]
  split
  · trivial
  · refine along_call trivial trivial (fun (found : Option User) => ?_) fun _ => trivial
    show IdentityProgram.Along (if found.isSome then _ else _) _ _ _
    split
    · trivial
    · exact along_call trivial trivial (fun _ => trivial) fun _ => trivial

theorem loginUser_along {ttl : Time} {email password : Text} :
    (loginUser lib ttl email password).Along (.login ttl email password) (fun _ _ => True) t := by
  refine along_call trivial trivial (fun (record : Option UserRecord) => ?_) fun _ => trivial
  cases record with
  | none => trivial
  | some record =>
    show IdentityProgram.Along (if !record.user.enabled then _ else _) _ _ _
    split
    · trivial
    · next henabled =>
      show IdentityProgram.Along (if !lib.verify record.passwordHash password then _ else _) _ _ _
      split
      · trivial
      · exact along_call ⟨_, record, t, rfl, rfl, by simpa using henabled⟩ trivial (fun _ => trivial) fun _ => trivial

theorem rotateSession_along {ttl : Time} {token : Text} :
    (rotateSession ttl token).Along (.rotate ttl token) (fun _ _ => True) t := by
  refine along_call trivial trivial (fun now => ?_) fun _ => trivial
  refine along_call trivial trivial (fun (resolved : Option (Uuid × Uuid)) => ?_) fun _ => trivial
  match resolved with
  | none => trivial
  | some (sessionId, userId) =>
    exact along_call ⟨token, now, userId, _, rfl⟩ trivial (fun _ => trivial) fun _ => trivial

theorem logoutUser_along {token : Text} : (logoutUser token).Along (.logout token) (fun _ _ => True) t := by
  refine along_call trivial trivial (fun now => ?_) fun _ => trivial
  refine along_call trivial trivial (fun (resolved : Option (Uuid × Uuid)) => ?_) fun _ => trivial
  match resolved with
  | none => trivial
  | some (sessionId, userId) => exact along_call trivial trivial (fun _ => trivial) fun _ => trivial

theorem bootstrapAdmin_along {salt : Nat} {email displayName password : Text} :
    (bootstrapAdmin lib salt email displayName password).Along (.bootstrap salt email displayName password)
      (fun outcome t => ∀ c answer t', t = ⟨c, answer⟩ :: t' → createsAdmin c answer = outcome.isOk) t := by
  refine along_call trivial (.inl rfl) (fun (count : Nat) => ?_) ?_
  · show IdentityProgram.Along (if count ≠ 0 then _ else _) _ _ _
    split
    · rintro c answer t' ⟨⟩
      rfl
    · next hcount =>
      obtain rfl := not_not.1 hcount
      dsimp only
      split
      · rintro c answer t' ⟨⟩
        rfl
      · refine along_call ⟨t, rfl⟩ (.inr rfl) (fun user => ?_) ?_
        · rintro c answer t' ⟨⟩
          rfl
        · rintro e c answer t' ⟨⟩
          rfl
  · rintro e c answer t' ⟨⟩
    rfl

/-- The rules for a program of custody, after the calls `t`. -/
abbrev CustodyProgram.Ensures {α : Type} (t : IdentityTrace) (x : CustodyProgram α)
    (R : α → List (Σ c, CustodyAnswer c) → Prop) (s : List (Σ c, CustodyAnswer c)) : Prop :=
  Prog.Ensures (fun _ _ => True) (fun s c => IdentityCall.Follows (s.map (Prog.sent .custody) ++ t) (.custody c)) x R s

variable {s : List (Σ c, CustodyAnswer c)}

theorem bystander_ensures {x : CustodyProgram α} (h : Prog.Only CustodyCall.Bystander x.run) :
    x.Ensures t (fun _ _ => True) s := by
  refine (h.along fun s' c _ hc => ?_).mono fun _ _ _ _ _ => trivial
  cases c with
  | updateStatus | revokeAllForUser => cases hc
  | _ => trivial

theorem call_ensures (c : CustodyCall) (h : IdentityCall.Follows (s.map (Prog.sent .custody) ++ t) (.custody c)) :
    c.perform.Ensures t (fun b s' => s' = ⟨c, .ok b⟩ :: s) s := by
  refine ⟨h, ?_⟩
  rintro _ - b rfl
  rfl

theorem setStatus_ensures {u : Uuid} :
    (setStatus u .disabled).Ensures t (fun _ s' => ⟨.updateStatus u .disabled, .ok ()⟩ ∈ s') s := by
  refine (call_ensures (.updateStatus u .disabled) rfl).bind fun _ s' _ hs' => ?_
  refine (call_ensures (.getUser u) trivial).bind fun (updated : Option User) s'' hs'' _ => ?_
  cases updated with
  | none => exact Prog.ensures_throw
  | some updated => exact Prog.ensures_pure (hs''.subset (hs' ▸ List.mem_cons_self))

theorem disableAccount_ensures {actorId u : Uuid} :
    (disableAccount actorId u).Ensures t (fun _ s' => ∃ n, ⟨.revokeAllForUser u, .ok n⟩ ∈ s') s := by
  refine (bystander_ensures requireAdmin_bystander).bind fun actor s₁ _ _ => ?_
  refine (call_ensures (.getUser u) trivial).bind fun (user : Option User) s₂ _ _ => ?_
  cases user with
  | none => exact Prog.ensures_throw
  | some user =>
    refine Prog.ensures_ite (fun _ => Prog.ensures_throw) fun _ => setStatus_ensures.bind fun _ s₃ _ hupdated => ?_
    have hfollows : IdentityCall.Follows (s₃.map (Prog.sent .custody) ++ t) (.custody (.revokeAllForUser u)) :=
      List.mem_append_left _ (List.mem_map_of_mem hupdated)
    refine (call_ensures (.revokeAllForUser u) hfollows).bind fun revoked s₄ _ hs₄ => ?_
    refine Prog.Ensures.mono (R := fun _ _ => True) ?_ fun _ s₅ hs _ => ⟨revoked, hs.subset (hs₄ ▸ List.mem_cons_self)⟩
    refine bystander_ensures (Prog.Only.bind ⟨trivial, fun _ => trivial⟩ fun _ => ?_)
    refine Prog.Only.bind ⟨trivial, fun _ => trivial⟩ fun _ => Prog.Only.bind lockSoleOwned_bystander fun _ => ?_
    exact Prog.Only.bind ⟨trivial, fun _ => trivial⟩ fun _ => Prog.only_pure _

theorem disableAccount_along {actorId u : Uuid} :
    (disableAccount actorId u).onIdentity.Along (.disable actorId u)
      (fun outcome t' => outcome.isOk = true → ∃ n, ⟨.custody (.revokeAllForUser u), .ok n⟩ ∈ t') t := by
  refine @Prog.Along.through _ _ _ IdentityAnswer IdentityCall.custody _ _ _ _ [] t ?_
  refine ((@disableAccount_ensures t [] actorId u).imp fun _ _ h => ⟨h, trivial⟩).mono fun outcome s' h hok => ?_
  cases outcome with
  | error e => cases hok
  | ok outcome =>
    obtain ⟨n, hn⟩ := h outcome rfl
    exact ⟨n, List.mem_append_left _ (List.mem_map_of_mem hn)⟩

/-- **Every request keeps to the order of its calls.** -/
theorem request_along : (request.program lib).Along request request.Over t := by
  cases request with
  | register => exact Prog.Along.map (registerUser_along.mono fun _ _ _ => trivial)
  | login => exact Prog.Along.map (loginUser_along.mono fun _ _ _ => trivial)
  | rotate => exact Prog.Along.map (rotateSession_along.mono fun _ _ _ => trivial)
  | logout => exact Prog.Along.map (logoutUser_along.mono fun _ _ _ => trivial)
  | bootstrap =>
    refine Prog.Along.map (bootstrapAdmin_along.mono fun outcome t' h c answer t'' ht' => ?_)
    rw [h c answer t'' ht']
    cases outcome <;> rfl
  | disable =>
    refine Prog.Along.map (disableAccount_along.mono fun outcome t' h hok => ?_)
    cases outcome with
    | error e => cases hok
    | ok => exact .inr (h rfl)

/-- **What the requests reach**: runs whose calls keep to that order. -/
theorem signIn_along {P : Type} [DecidableEq P] {requests : P → IdentityRequest} {init : IdentityWorld → Prop}
    {cond : P → IdentityCall → IdentityEnv → Run P IdentityCall IdentityAnswer IdentityWorld → Prop}
    {pool : Pool P IdentityCall IdentityAnswer AccountError IdentityWorld} (h : (signIn lib requests).Reach init cond pool) :
    Runs (IdentityCall.exec lib) init
      (fun p c env r => cond p c env r ∧ c.Follows (own p r.trace) ∧ (requests p).Makes c) pool.run ∧
      ∀ p, (pool.procs p).Along (fun _ _ => True) (fun t c => c.Follows t ∧ (requests p).Makes c) (requests p).Over
        (own p pool.run.trace) := by
  refine Machine.runs_along (fun _ _ _ _ _ _ _ => trivial) (fun p => ?_) (fun _ _ _ _ => request_along) h
  cases requests p with
  | bootstrap => exact fun _ _ _ => nofun
  | disable => exact fun _ => .inl rfl
  | _ => trivial

end Behaviour

/-- A library for texts in ASCII; nobody looks into its hashes. -/
def asciiLibrary : Library where
  lower t := t.map Char.toLower
  repr t := "'" ++ String.ofList t ++ "'"
  hash salt password := (toString salt).toList ++ '$' :: password
  verify passwordHash password := (passwordHash.dropWhile (· ≠ '$')).drop 1 = password
  keyedTokenHash token := '#' :: token

end MilpbookLM.Accounts
