/-
Accounts, the ownership of a notebook and its administrative custody: a phase, and the
events that led to it. The owners are the memberships with the role of owner; the pointer
beside them is for display.
-/
import MilpbookLM.Base.Uuid
import MilpbookLM.Domain.Jobs

namespace MilpbookLM.Accounts

/-! ## Accounts -/

inductive UserStatus
  | active | disabled | deleted
  deriving DecidableEq

def UserStatus.value : UserStatus → String
  | active => "active"
  | disabled => "disabled"
  | deleted => "deleted"

structure User where
  id : Uuid
  status : UserStatus := .active
  installationAdmin : Bool := false

/-- Only active accounts may act. -/
def User.enabled (user : User) : Bool := user.status = .active

/-! ## Ownership -/

inductive MembershipRole
  | owner | editor | viewer
  deriving DecidableEq

inductive CustodyState
  | none | lockedAdminCustody
  deriving DecidableEq

structure NotebookMembership where
  userId : Uuid
  role : MembershipRole

structure NotebookOwnership where
  memberships : List NotebookMembership
  custodyState : CustodyState := .none
  denormalizedOwnerPointer : Option Uuid := none

/-- `owner_ids`. -/
def NotebookOwnership.ownerIds (ownership : NotebookOwnership) : List Uuid :=
  (ownership.memberships.filter (·.role = .owner)).map (·.userId)

/-! ## Custody -/

inductive CustodyPhase
  | none | locked | scheduledDeletion
  deriving DecidableEq

def CustodyPhase.value : CustodyPhase → String
  | none => "none"
  | locked => "locked"
  | scheduledDeletion => "scheduled_deletion"

/-- One audited transition. -/
structure CustodyEvent where
  notebookId : Uuid
  kind : String
  actorId : Uuid
  at_ : Time
  detail : List (String × String) := []

structure CustodyRecord where
  notebookId : Uuid
  phase : CustodyPhase := .none
  lockedReason : Option String := none
  scheduledFor : Option Time := none
  events : List CustodyEvent := []

/-- The text of a `CustodyError`. -/
structure CustodyError where
  message : String

/-- `a is not b` of the ids of two rows: they are objects apart, whatever their values. -/
def isNot (_ _ : Uuid) : Bool := true

/-- `lock_custody`. -/
def lockCustody (record : CustodyRecord) (actorId : Uuid) (reason : String) (at_ : Time) : Except CustodyError CustodyRecord :=
  if record.phase ≠ .none then .error ⟨"cannot lock a notebook in custody phase " ++ record.phase.value⟩
  else .ok
    { notebookId := record.notebookId
      phase := .locked
      lockedReason := some reason
      events := record.events ++ [⟨record.notebookId, "custody.locked", actorId, at_, [("reason", reason)]⟩] }

/-- `transfer_custody`. -/
def transferCustody (record : CustodyRecord) (ownership : NotebookOwnership) (newOwner : User) (actorId : Uuid) (at_ : Time) :
    Except CustodyError (NotebookOwnership × CustodyRecord) :=
  if record.phase ≠ .locked then .error ⟨"transfer requires a locked notebook, phase is " ++ record.phase.value⟩
  else if !newOwner.enabled then .error ⟨"custody transfer requires an active (enabled) new owner"⟩
  else if newOwner.id = actorId then .error ⟨"the acting administrator cannot take notebook ownership"⟩
  else
    let kept := ownership.memberships.filter fun m => isNot m.userId newOwner.id
    let memberships := if newOwner.id ∈ kept.map (·.userId) then kept else kept ++ [⟨newOwner.id, .owner⟩]
    if actorId ∈ memberships.map (·.userId) then
      .error ⟨"custody transfer must not add the acting administrator as a member"⟩
    else .ok
      (⟨memberships, .none, some newOwner.id⟩,
        { notebookId := record.notebookId
          phase := .none
          events := record.events ++
            [⟨record.notebookId, "custody.transferred", actorId, at_, [("new_owner", newOwner.id.str)]⟩] })

/-- `schedule_deletion`. -/
def scheduleDeletion (isoformat : Time → String) (record : CustodyRecord) (actorId : Uuid) (scheduledFor at_ : Time) :
    Except CustodyError CustodyRecord :=
  if record.phase ≠ .locked then
    .error ⟨"scheduling deletion requires a locked notebook, phase is " ++ record.phase.value⟩
  else .ok
    { notebookId := record.notebookId
      phase := .scheduledDeletion
      lockedReason := record.lockedReason
      scheduledFor := some scheduledFor
      events := record.events ++ [⟨record.notebookId, "custody.scheduled_deletion", actorId, at_,
        [("scheduled_for", isoformat scheduledFor)]⟩] }

/-- `resolved_for_deletion`. -/
def resolvedForDeletion (record : CustodyRecord) : Bool := record.phase = .none || record.phase = .scheduledDeletion

end MilpbookLM.Accounts
