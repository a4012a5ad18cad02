/-
The repository as the use cases and the workers call it: one atomic call
(`Call`), its answer (`Answer`) and what it does to the tables (`exec`), and
the programs made of such calls. A call that raises leaves the tables alone.

`site` names the place in the source a call stands at; the tables do not see it.
-/
import MilpbookLM.Jobs.Repo
import MilpbookLM.Lib.Interleave

namespace MilpbookLM

open Interleave

/-- Where a job is read. -/
inductive ReadSite
  /-- `_publish_result`, before a success is published. -/
  | beforePublish
  /-- The handler-error branch of `_execute`, before a failure is published. -/
  | beforeFail
  /-- `CancelJob`. -/
  | cancelling
  deriving DecidableEq

/-- Where progress is written: a running handler's context, or `preempt_media`. -/
inductive ProgressSite
  | context | preempt
  deriving DecidableEq

/-- Where a transition is made: `_execute`, before the handler runs, or `preempt_media`. -/
inductive MoveSite
  | dispatch | park
  deriving DecidableEq

/-- What the clock is read for: `EnqueueJob`, `CancelJob`, or `CompleteJob`, which
is about to move `job` to a terminal state. -/
inductive StampSite
  | enqueuing | cancelling
  | publishing (job : JobRecord) (newState : JobState)

inductive Call
  | enqueue (job : JobRecord) (requestHash : String) (scope key : Option String)
  | get (site : ReadSite) (id : Uuid)
  | claim (workerId : String) (q : CapacityClass) (leaseSeconds : Int) (policy : CapacityPolicy)
      (kinds : List String)
  | heartbeat (id : Uuid) (workerId : String) (leaseSeconds : Int)
  | recordProgress (site : ProgressSite) (job : JobRecord) (progress : Option JobProgress)
      (checkpoint : Option Dict) (leaseSeconds : Int)
  | transition (site : MoveSite) (job : JobRecord) (newState : JobState) (u : FieldUpdates)
  | complete (job : JobRecord) (newState : JobState) (resultRef errorCode : Option String)
      (envelope : EventEnvelope)
  | cancel (job : JobRecord) (reason : String) (envelope : EventEnvelope)
  | recoverExpired
  | runningJobs (q : CapacityClass)
  | inFlight (q : CapacityClass)
  | inFlightForUser (q : CapacityClass) (user : Option Uuid)
  /-- `AuthzRevalidator.revalidate`, which reads other tables. -/
  | revalidate (job : JobRecord)
  /-- `datetime.now` and `uuid4`. -/
  | stamp (site : StampSite)
  /-- Anything a handler reads outside the job tables, or a stop signal. -/
  | observe

def Answer : Call → Type
  | .enqueue .. => Except JobError (JobRecord × Bool)
  | .get .. => Except JobError (Option JobRecord)
  | .claim .. => Except JobError (Option JobRecord)
  | .heartbeat .. => Except JobError Bool
  | .recordProgress .. => Except JobError (Option JobRecord)
  | .transition .. => Except JobError JobRecord
  | .complete .. => Except JobError JobRecord
  | .cancel .. => Except JobError JobRecord
  | .recoverExpired => Except JobError (List JobRecord)
  | .runningJobs _ => Except JobError (List JobRecord)
  | .inFlight _ => Nat
  | .inFlightForUser .. => Nat
  | .revalidate _ => Bool
  | .stamp _ => Time × Uuid
  | .observe => Nat

/-- Commit, or roll back. -/
def commit {α : Type} (db : JobDb) : Except JobError (α × JobDb) → Except JobError α × JobDb
  | .ok (a, db') => (.ok a, db')
  | .error e => (.error e, db)

theorem commit_ok {α : Type} {db : JobDb} {x : Except JobError (α × JobDb)} {a} (h : (commit db x).1 = .ok a) :
    ∃ db', x = .ok (a, db') := by
  rcases x with e | ⟨b, db'⟩
  · cases h
  · cases h; exact ⟨db', rfl⟩

theorem commit_error {α : Type} {db : JobDb} {x : Except JobError (α × JobDb)} {e} (h : (commit db x).1 = .error e) :
    x = .error e := by
  rcases x with e | ⟨b, db'⟩ <;> cases h
  rfl

open PgJobRepository in
/-- One call on the tables. -/
def exec (env : Env) : (c : Call) → JobDb → Answer c × JobDb
  | .enqueue job hash scope key, db => commit db (enqueue env job hash scope key db)
  | .get _ id, db => (get id db, db)
  | .claim w q lease policy kinds, db => commit db (claim env w q lease policy kinds db)
  | .heartbeat id w lease, db => commit db (heartbeat env.now id w lease db)
  | .recordProgress _ job p c lease, db => commit db (recordProgress env.now job p c lease db)
  | .transition _ job newState u, db => commit db (transition env job newState u db)
  | .complete job newState rr ec e, db => commit db (complete env job newState rr ec e db)
  | .cancel job reason e, db => commit db (cancel env job reason e db)
  | .recoverExpired, db => commit db (recoverExpired env db)
  | .runningJobs q, db => (runningJobs q db, db)
  | .inFlight q, db => (inFlight q db, db)
  | .inFlightForUser q user, db => (inFlightForUser q user db, db)
  | .revalidate _, db => (env.answer != 0, db)
  | .stamp _, db => ((env.clock, env.eventId 0), db)
  | .observe, db => (env.answer, db)

/-- A program over the repository that may raise. -/
abbrev Program (α : Type) := ExceptT JobError (Prog Call Answer) α

namespace Program

def get (site : ReadSite) (id : Uuid) : Program (Option JobRecord) := ExceptT.mk (Prog.perform (Call.get site id))

def enqueue (job : JobRecord) (hash : String) (scope key : Option String) : Program (JobRecord × Bool) :=
  ExceptT.mk (Prog.perform (Call.enqueue job hash scope key))

def claim (w : String) (q : CapacityClass) (lease : Int) (policy : CapacityPolicy) (kinds : List String) :
    Program (Option JobRecord) :=
  ExceptT.mk (Prog.perform (Call.claim w q lease policy kinds))

def recordProgress (site : ProgressSite) (job : JobRecord) (p : Option JobProgress) (c : Option Dict)
    (lease : Int) : Program (Option JobRecord) :=
  ExceptT.mk (Prog.perform (Call.recordProgress site job p c lease))

def transition (site : MoveSite) (job : JobRecord) (newState : JobState) (u : FieldUpdates) :
    Program JobRecord :=
  ExceptT.mk (Prog.perform (Call.transition site job newState u))

def complete (job : JobRecord) (newState : JobState) (rr ec : Option String) (e : EventEnvelope) :
    Program JobRecord :=
  ExceptT.mk (Prog.perform (Call.complete job newState rr ec e))

def cancel (job : JobRecord) (reason : String) (e : EventEnvelope) : Program JobRecord :=
  ExceptT.mk (Prog.perform (Call.cancel job reason e))

def recoverExpired : Program (List JobRecord) := ExceptT.mk (Prog.perform Call.recoverExpired)

def runningJobs (q : CapacityClass) : Program (List JobRecord) := ExceptT.mk (Prog.perform (Call.runningJobs q))

def inFlight (q : CapacityClass) : Program Nat := ExceptT.lift (Prog.perform (Call.inFlight q))

def inFlightForUser (q : CapacityClass) (user : Option Uuid) : Program Nat :=
  ExceptT.lift (Prog.perform (Call.inFlightForUser q user))

def revalidate (job : JobRecord) : Program Bool := ExceptT.lift (Prog.perform (Call.revalidate job))

def stamp (site : StampSite) : Program (Time × Uuid) := ExceptT.lift (Prog.perform (Call.stamp site))

def observe : Program Nat := ExceptT.lift (Prog.perform Call.observe)

/-- A pure computation that may raise. -/
def ofExcept {α : Type} : Except JobError α → Program α
  | .ok a => pure a
  | .error e => throw e

end Program

end MilpbookLM
