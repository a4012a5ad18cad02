/-
The tables of sign-in: what an account signs in with, and the sessions, beside the tables of
custody. A call is one method of a store, which is one transaction.
-/
import MilpbookLM.Accounts.Custody
import MilpbookLM.Base.Text

namespace MilpbookLM.Accounts

open Table Interleave

/-! ## Rows -/

/-- The columns of the table of accounts that only signing in reads. -/
structure LoginRow where
  userId : Uuid
  email : Text
  displayName : Text
  passwordHash : Text

structure SessionRow where
  id : Uuid
  userId : Uuid
  tokenHash : Text
  expiresAt : Time
  revokedAt : Option Time := none

structure IdentityWorld where
  custody : CustodyWorld := {}
  logins : List LoginRow := []
  sessions : List SessionRow := []

structure IssuedSession where
  sessionId : Uuid
  token : Text
  createdAt : Time
  expiresAt : Time

structure UserRecord where
  user : User
  passwordHash : Text

/-- What the interpreter and the hashers bring along. -/
structure Library where
  /-- `str.lower`. -/
  lower : Text → Text
  /-- `repr` of a text. -/
  repr : Text → String
  /-- The hash of a password with the salt that was drawn. -/
  hash : Nat → Text → Text
  verify : Text → Text → Bool
  /-- `keyed_token_hash` under the installation's key. -/
  keyedTokenHash : Text → Text

def adminGrantAction : String := "installation_admin.granted"

/-! ## Statements -/

inductive IdentityCall
  | custody (c : CustodyCall)
  | count
  | getByEmail (email : Text)
  | getRecord (email : Text)
  | create (email displayName passwordHash : Text) (installationAdmin : Bool)
  | issue (userId : Uuid) (ttl : Time)
  | authenticate (token : Text) (now : Time)
  | rotate (oldSessionId : Uuid) (ttl : Time)
  | revoke (sessionId : Uuid)

def IdentityResult : IdentityCall → Type
  | .custody c => CustodyResult c
  | .count => Nat
  | .getByEmail _ => Option User
  | .getRecord _ => Option UserRecord
  | .create .. => User
  | .issue .. | .rotate .. => IssuedSession
  | .authenticate .. => Option (Uuid × Uuid)
  | .revoke _ => Unit

abbrev IdentityAnswer (c : IdentityCall) : Type := Except AccountError (IdentityResult c)

/-- The clock and the ids of new rows, the token that is drawn, and the id of an audited grant. -/
structure IdentityEnv where
  custody : CustodyEnv := {}
  token : Text := []
  grantId : Uuid := 0

namespace IdentityWorld

variable (w : IdentityWorld)

def login? (email : Text) : Option LoginRow := w.logins.find? (·.email = email)

def session? (sessionId : Uuid) : Option SessionRow := lookup (fun s : SessionRow => s.id) w.sessions sessionId

def getByEmail (email : Text) : Option User := (w.login? email).bind fun l => w.custody.user? l.userId

def getRecord (email : Text) : Option UserRecord :=
  (w.login? email).bind fun l => (w.custody.user? l.userId).map fun user => ⟨user, l.passwordHash⟩

/-- The rows of an account, and of its grant. -/
def create (lib : Library) (email displayName passwordHash : Text) (installationAdmin : Bool) (env : IdentityEnv) :
    Except AccountError User × IdentityWorld :=
  let user : User := { id := env.custody.newId, installationAdmin }
  if (w.login? email).isSome || (w.custody.user? user.id).isSome then
    (.error (.raised "ValueError" ("email " ++ lib.repr email ++ " is already registered")), w)
  else
    let custody := { w.custody with users := w.custody.users ++ [user] }
    let grant : AuditEvent :=
      ⟨env.grantId, env.custody.now, some user.id, adminGrantAction, "user", user.id, [("via", "bootstrap")]⟩
    (.ok user, { w with
      custody := if installationAdmin then custody.record grant else custody
      logins := w.logins ++ [⟨user.id, email, displayName, passwordHash⟩] })

/-- A row of the sessions; the id and the hash of its token are unique, and its account is there. -/
def insertSession (lib : Library) (userId : Uuid) (ttl : Time) (env : IdentityEnv) :
    Except AccountError IssuedSession × IdentityWorld :=
  if (w.session? env.custody.newId).isSome || w.sessions.any (·.tokenHash = lib.keyedTokenHash env.token) ||
      (w.custody.user? userId).isNone then
    (.error (.raised "IntegrityError" "sessions"), w)
  else
    (.ok ⟨env.custody.newId, env.token, env.custody.now, env.custody.now + ttl⟩, { w with
      sessions := w.sessions ++ [⟨env.custody.newId, userId, lib.keyedTokenHash env.token, env.custody.now + ttl, none⟩] })

/-- The sessions that `p` selects, where they are live, are revoked. -/
def revokeWhere (p : SessionRow → Bool) (now : Time) : IdentityWorld :=
  { w with sessions := update (fun s => p s && s.revokedAt.isNone) (fun s => { s with revokedAt := some now }) w.sessions }

def authenticate (lib : Library) (token : Text) (now : Time) : Option (Uuid × Uuid) :=
  match w.sessions.find? (·.tokenHash = lib.keyedTokenHash token) with
  | none => none
  | some s => if s.revokedAt.isSome || s.expiresAt ≤ now then none else some (s.id, s.userId)

def rotate (lib : Library) (oldSessionId : Uuid) (ttl : Time) (env : IdentityEnv) :
    Except AccountError IssuedSession × IdentityWorld :=
  match w.session? oldSessionId with
  | none => (.error (.raised "NoResultFound" "sessions"), w)
  | some old =>
    match w.insertSession lib old.userId ttl env with
    | (.error e, w) => (.error e, w)
    | (.ok issued, w) => (.ok issued, w.revokeWhere (·.id = oldSessionId) env.custody.now)

end IdentityWorld

/-- The user whose sessions a call of custody revokes. -/
def CustodyCall.revokes : CustodyCall → Option Uuid
  | .revokeAllForUser userId => some userId
  | _ => none

def IdentityCall.exec (lib : Library) : Exec IdentityCall IdentityAnswer IdentityWorld IdentityEnv
  | .custody c, env, w =>
    let revoked : SessionRow → Bool := fun s => c.revokes = some s.userId
    let outcome := CustodyCall.exec c
      { env.custody with revoked := w.sessions.countP fun s => revoked s && s.revokedAt.isNone } w.custody
    (outcome.1, { w with custody := outcome.2 }.revokeWhere revoked env.custody.now)
  | .count, _, w => (.ok w.custody.users.length, w)
  | .getByEmail email, _, w => (.ok (w.getByEmail email), w)
  | .getRecord email, _, w => (.ok (w.getRecord email), w)
  | .create email displayName passwordHash installationAdmin, env, w =>
    w.create lib email displayName passwordHash installationAdmin env
  | .issue userId ttl, env, w => w.insertSession lib userId ttl env
  | .authenticate token now, _, w => (.ok (w.authenticate lib token now), w)
  | .rotate oldSessionId ttl, env, w => w.rotate lib oldSessionId ttl env
  | .revoke sessionId, env, w => (.ok (), w.revokeWhere (·.id = sessionId) env.custody.now)

abbrev IdentityProgram (α : Type) := ExceptT AccountError (Prog IdentityCall IdentityAnswer) α

def IdentityCall.perform (c : IdentityCall) : IdentityProgram (IdentityResult c) := ExceptT.mk (Prog.perform c)

/-- A use case of custody, on these tables. -/
def CustodyProgram.onIdentity {α : Type} (x : CustodyProgram α) : IdentityProgram α :=
  ExceptT.mk (@Prog.through _ _ _ IdentityAnswer .custody x.run)

/-! ## What a call does to the accounts -/

/-- Of the calls of custody, only an update of a status touches them. -/
theorem custody_users {c : CustodyCall} {env : CustodyEnv} {w : CustodyWorld} :
    (∃ userId status, c = .updateStatus userId status ∧ (w.user? userId).isSome = true ∧
      (c.exec env w).2 = w.updateStatus userId status) ∨ (c.exec env w).2.users = w.users := by
  cases c with
  | updateStatus userId status =>
    simp only [CustodyCall.exec]
    split
    · exact .inr rfl
    · next h => exact .inl ⟨userId, status, rfl, by simpa [Option.isSome_iff_ne_none] using h, rfl⟩
  | saveCustody => exact .inr (by simp only [CustodyCall.exec]; split <;> rfl)
  | insertOwner => exact .inr (by simp only [CustodyCall.exec]; split <;> (try split) <;> rfl)
  | deleteOwner _ _ unlock =>
    refine .inr ?_
    simp only [CustodyCall.exec]
    split
    · rfl
    · cases unlock <;> rfl
  | _ => exact .inr rfl

namespace IdentityWorld

variable {lib : Library} {w : IdentityWorld} {env : IdentityEnv}

/-- An account that is inserted comes after the others. -/
theorem create_cases {email displayName passwordHash : Text} {installationAdmin : Bool} :
    (∃ e, w.create lib email displayName passwordHash installationAdmin env = (.error e, w)) ∨
      (w.login? email).isSome = false ∧ ∃ user w', w.create lib email displayName passwordHash installationAdmin env = (.ok user, w') ∧
        w'.custody.users = w.custody.users ++ [user] ∧ w'.sessions = w.sessions := by
  simp only [create]
  split
  · exact .inl ⟨_, rfl⟩
  · next h =>
    simp only [Bool.or_eq_true, not_or, Bool.not_eq_true] at h
    refine .inr ⟨h.1, _, _, rfl, ?_, rfl⟩
    cases installationAdmin <;> rfl

/-- Only `create` inserts one. -/
theorem insertSession_custody {userId : Uuid} {ttl : Time} : (w.insertSession lib userId ttl env).2.custody = w.custody := by
  simp only [insertSession]
  split <;> rfl

theorem rotate_custody {sessionId : Uuid} {ttl : Time} : (w.rotate lib sessionId ttl env).2.custody = w.custody := by
  simp only [rotate]
  split
  · rfl
  · next old _ =>
    have h := @insertSession_custody lib w env old.userId ttl
    split
    · next h' => rw [h'] at h; exact h
    · next h' => rw [h'] at h; exact h

end IdentityWorld

/-- What a call leaves of the accounts. -/
theorem users_exec {lib : Library} {c : IdentityCall} {env : IdentityEnv} {w : IdentityWorld} :
    (∃ email displayName passwordHash admin, c = .create email displayName passwordHash admin) ∨
      (∃ userId status, c = .custody (.updateStatus userId status) ∧ (w.custody.user? userId).isSome = true ∧
        (c.exec lib env w).2.custody = w.custody.updateStatus userId status) ∨
      (c.exec lib env w).2.custody.users = w.custody.users := by
  cases c with
  | create email displayName passwordHash admin => exact .inl ⟨_, _, _, _, rfl⟩
  | custody c =>
    refine .inr ((custody_users).imp ?_ id)
    rintro ⟨userId, status, rfl, hsome, h⟩
    exact ⟨userId, status, rfl, hsome, h⟩
  | issue => exact .inr (.inr (by rw [IdentityCall.exec, IdentityWorld.insertSession_custody]))
  | rotate => exact .inr (.inr (by rw [IdentityCall.exec, IdentityWorld.rotate_custody]))
  | _ => exact .inr (.inr rfl)

end MilpbookLM.Accounts
