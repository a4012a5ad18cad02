/-
The tables of accounts, notebooks, memberships and audited events, and the statements that
the custody use cases make of them: one call is one statement, or the statements of one
transaction whose effects no other can tell apart. The phase of a notebook is not stored:
it is made of a column and of the latest custody event.
-/
import MilpbookLM.Accounts.Ownership
import MilpbookLM.Lib.Serial
import MilpbookLM.Lib.Table

namespace MilpbookLM.Accounts

open Table Interleave

/-! ## Rows -/

structure NotebookRow where
  id : Uuid
  custodyState : CustodyState := .none
  ownerUserId : Option Uuid := none

structure MembershipRow where
  id : Uuid
  notebookId : Uuid
  userId : Uuid
  role : MembershipRole
  grantedByUserId : Option Uuid := none

structure AuditEvent where
  id : Uuid
  createdAt : Time
  actorUserId : Option Uuid
  action : String
  subjectKind : String
  subjectId : Uuid
  details : List (String × String) := []

structure CustodyWorld where
  users : List User := []
  notebooks : List NotebookRow := []
  memberships : List MembershipRow := []
  auditEvents : List AuditEvent := []

/-- What the custody use cases raise, or the stores do. -/
inductive AccountError
  | accountNotFound (message : String)
  | custodyNotFound (message : String)
  | permissionDenied (message : String)
  | custody (error : CustodyError)
  | finalOwnerRemovalBlocked (message : String)
  | concurrency (message : String)
  | raised (name text : String)

/-! ## The phase of a notebook -/

/-- `_COLUMN_FOR_PHASE`. -/
def columnForPhase : CustodyPhase → CustodyState
  | .none => .none
  | .locked | .scheduledDeletion => .lockedAdminCustody

/-- `_CUSTODY_ACTIONS`. -/
def custodyActions : List String := ["custody.locked", "custody.transferred", "custody.scheduled_deletion"]

def unknownActor : Uuid := 0

/-- An event of the notebook's custody. -/
def AuditEvent.ofCustody (notebookId : Uuid) (event : AuditEvent) : Bool :=
  event.subjectKind = "notebook" && event.subjectId = notebookId && custodyActions.contains event.action

/-- The order of `created_at`, then of `id`. -/
def AuditEvent.before (event event' : AuditEvent) : Bool :=
  event.createdAt < event'.createdAt || event.createdAt = event'.createdAt && event.id < event'.id

/-- The first row in the descending order. -/
def latest : List AuditEvent → Option AuditEvent
  | [] => none
  | event :: events =>
    match latest events with
    | some event' => if event'.before event then some event else some event'
    | none => some event

/-- `_custody_record`. -/
def custodyRecord (notebookId : Uuid) (column : CustodyState) (latest : Option AuditEvent) : CustodyRecord :=
  match column, latest with
  | .lockedAdminCustody, some latest =>
    let phase := if latest.action = "custody.scheduled_deletion" then CustodyPhase.scheduledDeletion else .locked
    { notebookId
      phase
      lockedReason :=
        if phase = .scheduledDeletion then latest.details.lookup "scheduled_for"
        else some ((latest.details.lookup "reason").getD "admin_custody")
      events := [⟨notebookId, latest.action, latest.actorUserId.getD unknownActor, latest.createdAt, latest.details⟩] }
  | _, _ => { notebookId }

namespace CustodyWorld

variable (w : CustodyWorld)

def user? (userId : Uuid) : Option User := lookup (fun u : User => u.id) w.users userId

def notebook? (notebookId : Uuid) : Option NotebookRow := lookup (fun n : NotebookRow => n.id) w.notebooks notebookId

/-- The memberships of the notebook. -/
def members (notebookId : Uuid) : List NotebookMembership :=
  (w.memberships.filter (·.notebookId = notebookId)).map fun m => ⟨m.userId, m.role⟩

def member? (notebookId userId : Uuid) : Option MembershipRow :=
  w.memberships.find? fun m => m.notebookId = notebookId && m.userId = userId

/-- The users with an owner membership of the notebook. -/
def owners (notebookId : Uuid) : List Uuid := NotebookOwnership.ownerIds { memberships := w.members notebookId }

/-- The latest custody event of the notebook. -/
def custodyEvent? (notebookId : Uuid) : Option AuditEvent := latest (w.auditEvents.filter (·.ofCustody notebookId))

/-- `sole_owned_notebook_ids`. -/
def soleOwnedNotebookIds (userId : Uuid) : List Uuid :=
  (w.memberships.filter fun m =>
    m.userId = userId && m.role = .owner && (w.owners m.notebookId).length = 1).map (·.notebookId)

end CustodyWorld

/-! ## Statements -/

inductive CustodyCall
  | getUser (userId : Uuid)
  | updateStatus (userId : Uuid) (status : UserStatus)
  | revokeAllForUser (userId : Uuid)
  | now
  | soleOwnedNotebookIds (userId : Uuid)
  | selectNotebook (notebookId : Uuid)
  | selectMemberships (notebookId : Uuid)
  | selectCustodyEvent (notebookId : Uuid)
  | saveCustody (notebookId : Uuid) (phase : CustodyPhase)
  | selectMember (notebookId userId : Uuid)
  | updateOwner (membershipId notebookId userId grantedBy : Uuid)
  | insertOwner (notebookId userId grantedBy : Uuid)
  | removeMember (notebookId userId : Uuid)
  | record (actorId : Uuid) (action subjectKind : String) (subjectId : Uuid) (details : List (String × String))
  /-- What `remove_final_owner` reads in its snapshot: the number of owners, whether the user is one, and the column. -/
  | countOwners (notebookId userId : Uuid)
  /-- What it writes. -/
  | deleteOwner (notebookId userId : Uuid) (unlock : Bool)

def CustodyResult : CustodyCall → Type
  | .getUser _ => Option User
  | .revokeAllForUser _ => Nat
  | .now => Time
  | .soleOwnedNotebookIds _ => List Uuid
  | .selectNotebook _ => Option NotebookRow
  | .selectMemberships _ => List NotebookMembership
  | .selectCustodyEvent _ => Option AuditEvent
  | .selectMember .. => Option Uuid
  | .countOwners .. => Nat × Bool × Option CustodyState
  | .updateStatus .. | .saveCustody .. | .updateOwner .. | .insertOwner .. | .removeMember .. | .record .. | .deleteOwner .. => Unit

abbrev CustodyAnswer (c : CustodyCall) : Type := Except AccountError (CustodyResult c)

/-- The clock, a fresh id, how many sessions were live, and whether a serializable transaction is aborted. -/
structure CustodyEnv where
  now : Time := 0
  newId : Uuid := 0
  revoked : Nat := 0
  aborted : Bool := false

namespace CustodyWorld

variable (w : CustodyWorld)

def updateStatus (userId : Uuid) (status : UserStatus) : CustodyWorld :=
  { w with users := update (·.id = userId) (fun u : User => { u with status }) w.users }

def saveColumn (notebookId : Uuid) (custodyState : CustodyState) : CustodyWorld :=
  { w with notebooks := update (·.id = notebookId) (fun n : NotebookRow => { n with custodyState }) w.notebooks }

def pointTo (notebookId userId : Uuid) (w : CustodyWorld) : CustodyWorld :=
  { w with notebooks := update (·.id = notebookId) (fun n : NotebookRow => { n with ownerUserId := some userId }) w.notebooks }

def updateOwner (membershipId notebookId userId grantedBy : Uuid) : CustodyWorld :=
  pointTo notebookId userId { w with
    memberships := update (·.id = membershipId)
      (fun m : MembershipRow => { m with role := .owner, grantedByUserId := some grantedBy }) w.memberships }

def insertOwner (newId notebookId userId grantedBy : Uuid) : CustodyWorld :=
  pointTo notebookId userId { w with memberships := w.memberships ++ [⟨newId, notebookId, userId, .owner, some grantedBy⟩] }

def removeMember (notebookId userId : Uuid) : CustodyWorld :=
  { w with
    memberships := w.memberships.filter fun m => !(m.notebookId = notebookId && m.userId = userId)
    notebooks := update (fun n : NotebookRow => n.id = notebookId && n.ownerUserId = some userId)
      (fun n : NotebookRow => { n with ownerUserId := none }) w.notebooks }

def deleteOwner (notebookId userId : Uuid) : CustodyWorld :=
  { w with
    memberships := w.memberships.filter fun m => !(m.notebookId = notebookId && m.userId = userId && m.role = .owner) }

def record (event : AuditEvent) : CustodyWorld := { w with auditEvents := w.auditEvents ++ [event] }

end CustodyWorld

def CustodyCall.exec : Exec CustodyCall CustodyAnswer CustodyWorld CustodyEnv
  | .getUser userId, _, w => (.ok (w.user? userId), w)
  | .updateStatus userId status, _, w =>
    if (w.user? userId).isNone then (.error (.raised "ValueError" ("unknown user " ++ userId.str)), w)
    else (.ok (), w.updateStatus userId status)
  | .revokeAllForUser _, env, w => (.ok env.revoked, w)
  | .now, env, w => (.ok env.now, w)
  | .soleOwnedNotebookIds userId, _, w => (.ok (w.soleOwnedNotebookIds userId), w)
  | .selectNotebook notebookId, _, w => (.ok (w.notebook? notebookId), w)
  | .selectMemberships notebookId, _, w => (.ok (w.members notebookId), w)
  | .selectCustodyEvent notebookId, _, w => (.ok (w.custodyEvent? notebookId), w)
  | .saveCustody notebookId phase, _, w =>
    if (w.notebook? notebookId).isNone then (.error (.raised "ValueError" ("unknown notebook " ++ notebookId.str)), w)
    else (.ok (), w.saveColumn notebookId (columnForPhase phase))
  | .selectMember notebookId userId, _, w => (.ok ((w.member? notebookId userId).map (·.id)), w)
  | .updateOwner membershipId notebookId userId grantedBy, _, w =>
    (.ok (), w.updateOwner membershipId notebookId userId grantedBy)
  | .insertOwner notebookId userId grantedBy, env, w =>
    if (w.notebook? notebookId).isNone || (w.user? userId).isNone || (w.user? grantedBy).isNone then
      (.error (.raised "IntegrityError" "notebook_memberships_fkey"), w)
    else if (w.member? notebookId userId).isSome then
      (.error (.raised "IntegrityError" "uq_notebook_memberships_notebook_user"), w)
    else (.ok (), w.insertOwner env.newId notebookId userId grantedBy)
  | .removeMember notebookId userId, _, w => (.ok (), w.removeMember notebookId userId)
  | .record actorId action subjectKind subjectId details, env, w =>
    (.ok (), w.record ⟨env.newId, env.now, some actorId, action, subjectKind, subjectId, details⟩)
  | .countOwners notebookId userId, _, w =>
    (.ok ((w.owners notebookId).length, (w.owners notebookId).contains userId, (w.notebook? notebookId).map (·.custodyState)), w)
  | .deleteOwner notebookId userId unlock, env, w =>
    if env.aborted then (.error (.raised "SerializationFailure" "could not serialize access"), w)
    else (.ok (), (if unlock then w.saveColumn notebookId .none else w).deleteOwner notebookId userId)

/-! ## Reading a notebook's custody -/

abbrev CustodyProgram (α : Type) := ExceptT AccountError (Prog CustodyCall CustodyAnswer) α

def CustodyCall.perform (c : CustodyCall) : CustodyProgram (CustodyResult c) := ExceptT.mk (Prog.perform c)

/-- `load_ownership`. -/
def loadOwnership (notebookId : Uuid) : CustodyProgram (Option (NotebookOwnership × CustodyRecord)) := do
  let notebook : Option NotebookRow ← (CustodyCall.selectNotebook notebookId).perform
  match notebook with
  | none => return none
  | some notebook =>
    let memberships : List NotebookMembership ← (CustodyCall.selectMemberships notebookId).perform
    let custody : Option AuditEvent ← (CustodyCall.selectCustodyEvent notebookId).perform
    return some (⟨memberships, notebook.custodyState, notebook.ownerUserId⟩,
      custodyRecord notebookId notebook.custodyState custody)

/-- `add_owner_membership`. -/
def addOwnerMembership (notebookId userId grantedBy : Uuid) : CustodyProgram Unit := do
  let existing : Option Uuid ← (CustodyCall.selectMember notebookId userId).perform
  match existing with
  | some membershipId => (CustodyCall.updateOwner membershipId notebookId userId grantedBy).perform
  | none => (CustodyCall.insertOwner notebookId userId grantedBy).perform

/-- `remove_final_owner`. -/
def removeFinalOwner (notebookId userId : Uuid) : CustodyProgram Unit := do
  let (owners, isOwner, custody) : Nat × Bool × Option CustodyState ← (CustodyCall.countOwners notebookId userId).perform
  if !isOwner then
    throw (.concurrency ("user " ++ userId.str ++ " is not an owner of notebook " ++ notebookId.str))
  if owners = 1 then
    if custody ≠ some .lockedAdminCustody then
      throw (.finalOwnerRemovalBlocked
        ("notebook " ++ notebookId.str ++ " has a single owner and no locked administrative custody"))
  (CustodyCall.deleteOwner notebookId userId (owners = 1)).perform

/-- `set_status`. -/
def setStatus (userId : Uuid) (status : UserStatus) : CustodyProgram User := do
  (CustodyCall.updateStatus userId status).perform
  let updated : Option User ← (CustodyCall.getUser userId).perform
  match updated with
  | none => throw (.raised "ValueError" ("user " ++ userId.str ++ " disappeared after status update"))
  | some updated => return updated

end MilpbookLM.Accounts
