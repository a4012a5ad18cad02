/-
The use cases of administrative custody: disabling an account and locking what it alone
owns, transferring a locked notebook, scheduling its deletion, and the check before an
account is deleted.
-/
import MilpbookLM.Accounts.CustodyStore

namespace MilpbookLM.Accounts

open Interleave

/-- `_require_admin`. -/
def requireAdmin (actorId : Uuid) : CustodyProgram User := do
  let actor : Option User ← (CustodyCall.getUser actorId).perform
  match actor with
  | none => throw (.accountNotFound ("actor " ++ actorId.str ++ " is unknown"))
  | some actor =>
    if !actor.installationAdmin then throw (.permissionDenied "installation administrator required")
    return actor

def ofDomain {α : Type} : Except CustodyError α → CustodyProgram α
  | .ok a => return a
  | .error e => throw (.custody e)

structure DisableAccountOutcome where
  userId : Uuid
  revokedSessions : Nat
  lockedNotebookIds : List Uuid

/-- The loop of `DisableAccount`; `locked` as far as it came. -/
def lockSoleOwned (actor : User) (at_ : Time) : List Uuid → List Uuid → CustodyProgram (List Uuid)
  | [], locked => return locked
  | notebookId :: notebookIds, locked => do
    let loaded ← loadOwnership notebookId
    match loaded with
    | none => lockSoleOwned actor at_ notebookIds locked
    | some (_, record) =>
      if record.phase ≠ .none then lockSoleOwned actor at_ notebookIds locked
      else
        let lockedRecord ← ofDomain (lockCustody record actor.id "sole_owner_disabled" at_)
        (CustodyCall.saveCustody notebookId lockedRecord.phase).perform
        (CustodyCall.record actor.id "custody.locked" "notebook" notebookId [("reason", "sole_owner_disabled")]).perform
        lockSoleOwned actor at_ notebookIds (locked ++ [notebookId])

/-- `DisableAccount`. -/
def disableAccount (actorId userId : Uuid) : CustodyProgram DisableAccountOutcome := do
  let actor ← requireAdmin actorId
  let user : Option User ← (CustodyCall.getUser userId).perform
  match user with
  | none => throw (.accountNotFound ("account " ++ userId.str ++ " is unknown"))
  | some user =>
    if user.status ≠ .active then throw (.permissionDenied ("account is already " ++ user.status.value))
    let _ ← setStatus userId .disabled
    let revoked : Nat ← (CustodyCall.revokeAllForUser userId).perform
    let at_ : Time ← CustodyCall.now.perform
    let notebookIds : List Uuid ← (CustodyCall.soleOwnedNotebookIds userId).perform
    let locked ← lockSoleOwned actor at_ notebookIds []
    (CustodyCall.record actor.id "account.disabled" "user" userId
      [("revoked_sessions", toString revoked), ("locked_notebooks", ",".intercalate (locked.map Uuid.str))]).perform
    return ⟨userId, revoked, locked⟩

structure CustodyTransferOutcome where
  notebookId : Uuid
  newOwnerId : Uuid
  removedOwnerIds : List Uuid

/-- `CustodyTransfer`. -/
def custodyTransfer (actorId notebookId newOwnerId : Uuid) : CustodyProgram CustodyTransferOutcome := do
  let actor ← requireAdmin actorId
  let loaded ← loadOwnership notebookId
  match loaded with
  | none => throw (.custodyNotFound ("notebook " ++ notebookId.str ++ " is unknown"))
  | some (ownership, record) =>
    let newOwner : Option User ← (CustodyCall.getUser newOwnerId).perform
    match newOwner with
    | none => throw (.accountNotFound ("new owner " ++ newOwnerId.str ++ " is unknown"))
    | some newOwner =>
      let removed := ownership.ownerIds.filter (isNot · newOwnerId)
      let at_ : Time ← CustodyCall.now.perform
      let (_, newRecord) ← ofDomain (transferCustody record ownership newOwner actor.id at_)
      removed.forM fun oldOwnerId => (CustodyCall.removeMember notebookId oldOwnerId).perform
      addOwnerMembership notebookId newOwnerId actor.id
      (CustodyCall.saveCustody notebookId newRecord.phase).perform
      (CustodyCall.record actor.id "custody.transferred" "notebook" notebookId
        [("new_owner", newOwnerId.str), ("removed_owners", ",".intercalate (removed.map Uuid.str))]).perform
      return ⟨notebookId, newOwnerId, removed⟩

/-- `ScheduleCustodyDeletion`; the time it returns. -/
def scheduleCustodyDeletion (isoformat : Time → String) (horizon : Time) (actorId notebookId : Uuid) :
    CustodyProgram Time := do
  let actor ← requireAdmin actorId
  let loaded ← loadOwnership notebookId
  match loaded with
  | none => throw (.custodyNotFound ("notebook " ++ notebookId.str ++ " is unknown"))
  | some (_, record) =>
    let at_ : Time ← CustodyCall.now.perform
    let newRecord ← ofDomain (scheduleDeletion isoformat record actor.id (at_ + horizon) at_)
    match newRecord.scheduledFor with
    | none => throw (.raised "RuntimeError" "scheduled deletion lost its horizon")
    | some scheduledFor =>
      (CustodyCall.saveCustody notebookId newRecord.phase).perform
      (CustodyCall.record actor.id "custody.scheduled_deletion" "notebook" notebookId
        [("scheduled_for", isoformat scheduledFor)]).perform
      return scheduledFor

structure DeletionBlockers where
  userId : Uuid
  blockingNotebookIds : List Uuid
  deletable : Bool

/-- The notebooks of `notebookIds` that are not resolved. -/
def blockingNotebookIds : List Uuid → CustodyProgram (List Uuid)
  | [] => return []
  | notebookId :: notebookIds => do
    let loaded ← loadOwnership notebookId
    let blocking ← blockingNotebookIds notebookIds
    match loaded with
    | none => return blocking
    | some (_, record) => return if resolvedForDeletion record then blocking else notebookId :: blocking

/-- `CheckAccountDeletable`. -/
def checkAccountDeletable (userId : Uuid) : CustodyProgram DeletionBlockers := do
  let notebookIds : List Uuid ← (CustodyCall.soleOwnedNotebookIds userId).perform
  let blocking ← blockingNotebookIds notebookIds
  return ⟨userId, blocking, blocking.isEmpty⟩

/-- What an account, an owner or an administrator asks for. -/
inductive CustodyRequest
  | disable (actorId userId : Uuid)
  | enable (userId : Uuid)
  | delete (userId : Uuid)
  | transfer (actorId notebookId newOwnerId : Uuid)
  | schedule (actorId notebookId : Uuid)
  | removeFinalOwner (notebookId userId : Uuid)
  | removeMember (notebookId userId : Uuid)
  | addOwner (notebookId userId grantedBy : Uuid)

/-- The calls of a request. An account is deleted when the check lets it. -/
def CustodyRequest.program (isoformat : Time → String) (horizon : Time) : CustodyRequest → CustodyProgram Unit
  | .disable actorId userId => discard (disableAccount actorId userId)
  | .enable userId => discard (setStatus userId .active)
  | .delete userId => do
    let blockers ← checkAccountDeletable userId
    if blockers.deletable then discard (setStatus userId .deleted)
  | .transfer actorId notebookId newOwnerId => discard (custodyTransfer actorId notebookId newOwnerId)
  | .schedule actorId notebookId => discard (scheduleCustodyDeletion isoformat horizon actorId notebookId)
  | .removeFinalOwner notebookId userId => Accounts.removeFinalOwner notebookId userId
  | .removeMember notebookId userId => (CustodyCall.removeMember notebookId userId).perform
  | .addOwner notebookId userId grantedBy => addOwnerMembership notebookId userId grantedBy

/-! ## What leaves accounts and sessions alone -/

/-- It changes no account, and revokes no session. -/
def CustodyCall.Bystander : CustodyCall → Prop
  | .updateStatus .. | .revokeAllForUser _ => False
  | _ => True

theorem requireAdmin_bystander {actorId : Uuid} : Prog.Only CustodyCall.Bystander (requireAdmin actorId).run := by
  refine Prog.Only.bind ⟨trivial, fun _ => trivial⟩ fun (actor : Option User) => ?_
  cases actor with
  | none => exact Prog.only_throw _
  | some actor => exact Prog.only_ite (fun _ => Prog.only_throw _) fun _ => Prog.only_pure _

theorem loadOwnership_bystander {n : Uuid} : Prog.Only CustodyCall.Bystander (loadOwnership n).run := by
  refine Prog.Only.bind ⟨trivial, fun _ => trivial⟩ fun (notebook : Option NotebookRow) => ?_
  cases notebook with
  | none => exact Prog.only_pure _
  | some notebook =>
    exact Prog.Only.bind ⟨trivial, fun _ => trivial⟩ fun _ => Prog.Only.bind ⟨trivial, fun _ => trivial⟩ fun _ => Prog.only_pure _

theorem ofDomain_bystander {α : Type} {x : Except CustodyError α} : Prog.Only CustodyCall.Bystander (ofDomain x).run := by
  cases x with
  | ok a => exact Prog.only_pure a
  | error e => exact Prog.only_throw _

theorem lockSoleOwned_bystander {actor : User} {at_ : Time} {notebookIds locked : List Uuid} :
    Prog.Only CustodyCall.Bystander (lockSoleOwned actor at_ notebookIds locked).run := by
  induction notebookIds generalizing locked with
  | nil => exact Prog.only_pure _
  | cons n rest ih =>
    refine Prog.Only.bind loadOwnership_bystander fun loaded => ?_
    match loaded with
    | none => exact ih
    | some (_, record) =>
      refine Prog.only_ite (fun _ => ih) fun _ => Prog.Only.bind ofDomain_bystander fun _ => ?_
      exact Prog.Only.bind ⟨trivial, fun _ => trivial⟩ fun _ => Prog.Only.bind ⟨trivial, fun _ => trivial⟩ fun _ => ih

end MilpbookLM.Accounts
