/-
The commands of a research run beside the workers that execute it, transaction by
transaction. `StartResearchRun` and `ResumeResearchRun` enqueue a job and then set the
run to running; a worker claims the job, dispatches it, executes the run until it
leaves its loop, and publishes what came of it; a lease that expired is recovered.

Of a job this keeps what decides who works on it (`JobRow.orchestrator`); its moves are
those of the repository (`orchestrator_step`). Of an executor it keeps whether it is in
its loop (`LoopPhase`); that `execute` goes through these phases is `execute_phases`.
-/
import MilpbookLM.Jobs.Runs
import MilpbookLM.Research.Store

namespace MilpbookLM

/-! ## Jobs -/

/-- A research.execute job: the run its payload names, and who holds it. -/
structure OrchestratorJob where
  id : Uuid
  runId : Uuid
  status : JobStatus := .queued
  leaseOwner : Option String := none
  attempts : Nat := 0
  maxAttempts : Nat := 3
  revision : Nat := 0
  deriving DecidableEq

namespace OrchestratorJob

variable (job : OrchestratorJob)

def lease (worker : String) : OrchestratorJob :=
  { job with status := .leased, leaseOwner := some worker, attempts := job.attempts + 1, revision := job.revision + 1 }

def run : OrchestratorJob := { job with status := .running, revision := job.revision + 1 }

def record : OrchestratorJob := { job with revision := job.revision + 1 }

def finish (status : JobStatus) : OrchestratorJob :=
  { job with status, leaseOwner := none, revision := job.revision + 1 }

def requeue : OrchestratorJob := { job with status := .queued, leaseOwner := none, revision := job.revision + 1 }

/-- `status = :expected AND revision = :rev`, for the job that was read. -/
def unmoved (row : OrchestratorJob) : Bool := row.status = job.status && row.revision = job.revision

/-- The job that was read may end in the status, and its row has not moved; a cancellation looks at the revision. -/
def endsAt (status : JobStatus) (row : OrchestratorJob) : Bool :=
  status.state ∈ transitions job.status.state && row.revision = job.revision &&
    if status = .cancelled then !row.status.terminal else row.status = job.status

end OrchestratorJob

/-! ## Phases -/

inductive RunCommand
  | start | resume | pause | cancel
  deriving DecidableEq

/-- Where a request is between two of its transactions. -/
inductive CommandPhase
  | idle
  /-- `get_run`, and the checks of the command went well. -/
  | read (command : RunCommand) (run : ResearchRun)
  /-- `_enqueue_execution` answered. -/
  | enqueued (command : RunCommand) (run : ResearchRun) (jobId : Uuid)
  /-- The run was cancelled, its job not yet. -/
  | cancelled (run : ResearchRun)
  /-- `_cancel_execution` found the job. -/
  | cancelling (job : OrchestratorJob)

/-- Where a worker is between two of its transactions. -/
inductive WorkerPhase
  | idle
  | claimed (job : OrchestratorJob)
  /-- The job is running, the executor has not read the run. -/
  | dispatched (job : OrchestratorJob)
  /-- The executor is in its loop. -/
  | inside (job : OrchestratorJob)
  /-- The handler returned, or raised. -/
  | left (job : OrchestratorJob) (raised : Bool)
  /-- The job was read again, to end in a status. -/
  | publishing (job : OrchestratorJob) (status : JobStatus)

/-- The tables, the keys of the jobs, and where everybody is. -/
structure Orchestra where
  research : ResearchWorld := {}
  jobs : List OrchestratorJob := []
  keys : List (String × Uuid) := []
  commands : Nat → CommandPhase := fun _ => .idle
  workers : String → WorkerPhase := fun _ => .idle

def researchExecuteKind : String := "research.execute"

/-- The idempotency key of `_enqueue_execution`. -/
def executionKey (run : ResearchRun) : String :=
  researchExecuteKind ++ ":" ++ run.runId.str ++ ":" ++ toString run.revision

/-- The status a command takes a run to. -/
def RunCommand.target : RunCommand → ResearchRunStatus
  | start | resume => .running
  | pause => .paused
  | cancel => .cancelled

/-- The status a command expects of the run it read. -/
def RunCommand.expected (run : ResearchRun) : RunCommand → ResearchRunStatus
  | start => .created
  | resume => .paused
  | pause => .running
  | cancel => run.status

namespace Orchestra

variable (w : Orchestra)

def run? (runId : Uuid) : Option ResearchRun := w.research.run? runId

def job? (id : Uuid) : Option OrchestratorJob := Table.lookup (fun job : OrchestratorJob => job.id) w.jobs id

def setCommand (n : Nat) (phase : CommandPhase) : Orchestra :=
  { w with commands := Function.update w.commands n phase }

def setWorker (worker : String) (phase : WorkerPhase) : Orchestra :=
  { w with workers := Function.update w.workers worker phase }

def setJob (id : Uuid) (f : OrchestratorJob → OrchestratorJob) : Orchestra :=
  { w with jobs := Table.update (·.id = id) f w.jobs }

def setResearch (research : ResearchWorld) : Orchestra := { w with research }

/-! ## Commands -/

/-- `get_run` and the checks: the run is the actor's, and may go where the command takes it. -/
def call (n : Nat) (command : RunCommand) (actorId runId : Uuid) : Orchestra :=
  match w.run? runId with
  | none => w
  | some run =>
    if run.actorId ≠ actorId then w
    else if !runTransitionAllowed run.status command.target then w
    else w.setCommand n (.read command run)

/-- A queued job of the run, under the key of its revision. -/
def insertJob (run : ResearchRun) (newId : Uuid) : Orchestra :=
  { w with
    jobs := w.jobs ++ [{ id := newId, runId := run.runId }]
    keys := w.keys ++ [(executionKey run, newId)] }

/-- `_enqueue_execution`: the job of the key, or a new one. -/
def enqueue (n : Nat) (command : RunCommand) (run : ResearchRun) (newId : Uuid) : Orchestra :=
  match w.keys.lookup (executionKey run) with
  | some id => w.setCommand n (.enqueued command run id)
  | none => (w.insertJob run newId).setCommand n (.enqueued command run newId)

/-- The `cas_status` of a command, and what follows it. -/
def cas (n : Nat) (command : RunCommand) (run : ResearchRun) : Orchestra :=
  let (updated, research) := w.research.casStatus run.runId (command.expected run) command.target {}
  (w.setResearch research).setCommand n
    (if updated.isSome && command = .cancel then .cancelled run else .idle)

/-- The search of `_cancel_execution`: the first job in flight that is the run's. -/
def findExecution (n : Nat) (run : ResearchRun) : Orchestra :=
  match w.jobs.find? fun job => job.status.inFlight && job.runId = run.runId with
  | none => w.setCommand n .idle
  | some job => w.setCommand n (.cancelling job)

/-- A job that was read ends in a status, unless it moved: `complete`, or `cancel`. -/
def endJob (job : OrchestratorJob) (status : JobStatus) : Orchestra :=
  match w.job? job.id with
  | none => w
  | some row => if job.endsAt status row then w.setJob job.id (·.finish status) else w

/-- `CancelJob`; a conflict is suppressed. -/
def cancelExecution (n : Nat) (job : OrchestratorJob) : Orchestra := (w.endJob job .cancelled).setCommand n .idle

/-! ## Workers -/

/-- A claim of a queued job. -/
def claim (worker : String) (job : OrchestratorJob) : Orchestra :=
  (w.setJob job.id (·.lease worker)).setWorker worker (.claimed (job.lease worker))

/-- `_execute` of a claimed job: to running, where it has not moved. -/
def dispatch (worker : String) (job : OrchestratorJob) : Orchestra :=
  match w.job? job.id with
  | none => w.setWorker worker .idle
  | some row =>
    if job.unmoved row then (w.setJob job.id (·.run)).setWorker worker (.dispatched job.run)
    else w.setWorker worker .idle

/-- `get_run` of an executor: it stays in its loop while the run is running. -/
def readRun (worker : String) (job : OrchestratorJob) (missingRaises : Bool) : Orchestra :=
  match w.run? job.runId with
  | none => w.setWorker worker (.left job missingRaises)
  | some run => w.setWorker worker (if run.status = .running then .inside job else .left job false)

/-- The first read of `execute`; a run that is missing is a LookupError. -/
def enter (worker : String) (job : OrchestratorJob) : Orchestra := w.readRun worker job true

/-- The read at the head of the loop. -/
def boundary (worker : String) (job : OrchestratorJob) : Orchestra := w.readRun worker job false

/-- `_fail` and `_succeed`. -/
def settle (worker : String) (job : OrchestratorJob) (target : ResearchRunStatus) : Orchestra :=
  (w.setResearch (w.research.casStatus job.runId .running target {}).2).setWorker worker (.left job false)

/-- A progress write or a checkpoint, where the lease still holds. -/
def recordProgress (job : OrchestratorJob) : Orchestra :=
  match w.job? job.id with
  | none => w
  | some row =>
    if row.leaseOwner = job.leaseOwner && row.status.inFlight then w.setJob job.id (·.record) else w

/-- `_publish_result` and the handler-error branch: the job is read again, and its authorisation is. -/
def readJob (worker : String) (job : OrchestratorJob) (status : JobStatus) : Orchestra :=
  match w.job? job.id with
  | none => w.setWorker worker .idle
  | some row => w.setWorker worker (if row.status.terminal then .idle else .publishing row status)

def publish (worker : String) (job : OrchestratorJob) (status : JobStatus) : Orchestra :=
  (w.endJob job status).setWorker worker .idle

/-- `recover_expired` of one job: back to the queue, or failed where its attempts are spent. -/
def recover (job : OrchestratorJob) : Orchestra :=
  if job.attempts ≥ job.maxAttempts then w.setJob job.id (·.finish .failed) else w.setJob job.id (·.requeue)

end Orchestra

/-! ## Steps -/

/-- Who does what; what is chosen from outside is given. -/
inductive OrchestraMove
  | call (n : Nat) (command : RunCommand) (actorId runId : Uuid)
  | enqueue (n : Nat) (newId : Uuid)
  | cas (n : Nat)
  | findExecution (n : Nat)
  | cancelExecution (n : Nat)
  | claim (worker : String) (jobId : Uuid)
  /-- The authorisation of a claimed job is gone. -/
  | revoke (worker : String)
  | dispatch (worker : String)
  | enter (worker : String)
  | boundary (worker : String)
  | settle (worker : String) (target : ResearchRunStatus)
  /-- `should_stop` answers true. -/
  | stop (worker : String)
  | raise (worker : String)
  | recordProgress (worker : String)
  | readJob (worker : String) (authorized : Bool)
  | publish (worker : String)
  /-- The worker process dies, and is started again. -/
  | restart (worker : String)
  | recover (jobId : Uuid)

/-- One transaction. -/
inductive OrchestraStep (w : Orchestra) : OrchestraMove → Orchestra → Prop
  | call {n command actorId runId} (h : w.commands n = .idle) :
      OrchestraStep w (.call n command actorId runId) (w.call n command actorId runId)
  | enqueue {n command run newId} (h : w.commands n = .read command run) (htarget : command.target = .running)
      (hfresh : w.job? newId = none) : OrchestraStep w (.enqueue n newId) (w.enqueue n command run newId)
  | casEnqueued {n command run jobId} (h : w.commands n = .enqueued command run jobId) :
      OrchestraStep w (.cas n) (w.cas n command run)
  | casRead {n command run} (h : w.commands n = .read command run) (htarget : command.target ≠ .running) :
      OrchestraStep w (.cas n) (w.cas n command run)
  | findExecution {n run} (h : w.commands n = .cancelled run) : OrchestraStep w (.findExecution n) (w.findExecution n run)
  | cancelExecution {n job} (h : w.commands n = .cancelling job) :
      OrchestraStep w (.cancelExecution n) (w.cancelExecution n job)
  | claim {worker jobId job} (h : w.workers worker = .idle) (hjob : w.job? jobId = some job) (hqueued : job.status = .queued) :
      OrchestraStep w (.claim worker jobId) (w.claim worker job)
  | revoke {worker job} (h : w.workers worker = .claimed job) :
      OrchestraStep w (.revoke worker) (w.readJob worker job .cancelled)
  | dispatch {worker job} (h : w.workers worker = .claimed job) : OrchestraStep w (.dispatch worker) (w.dispatch worker job)
  | enter {worker job} (h : w.workers worker = .dispatched job) : OrchestraStep w (.enter worker) (w.enter worker job)
  | boundary {worker job} (h : w.workers worker = .inside job) : OrchestraStep w (.boundary worker) (w.boundary worker job)
  | settle {worker job target} (h : w.workers worker = .inside job) (htarget : target = .succeeded ∨ target = .failed) :
      OrchestraStep w (.settle worker target) (w.settle worker job target)
  | stop {worker job} (h : w.workers worker = .inside job) :
      OrchestraStep w (.stop worker) (w.setWorker worker (.left job false))
  | raise {worker job}
      (h : w.workers worker = .dispatched job ∨ w.workers worker = .inside job ∨ w.workers worker = .left job false) :
      OrchestraStep w (.raise worker) (w.setWorker worker (.left job true))
  | recordProgress {worker job} (h : w.workers worker = .inside job) :
      OrchestraStep w (.recordProgress worker) (w.recordProgress job)
  | readJob {worker job raised authorized} (h : w.workers worker = .left job raised) :
      OrchestraStep w (.readJob worker authorized)
        (w.readJob worker job (if !authorized then .cancelled else if raised then .failed else .succeeded))
  | publish {worker job status} (h : w.workers worker = .publishing job status) :
      OrchestraStep w (.publish worker) (w.publish worker job status)
  | restart {worker} : OrchestraStep w (.restart worker) (w.setWorker worker .idle)
  | recover {jobId job} (hjob : w.job? jobId = some job) (hflight : job.status.inFlight = true) :
      OrchestraStep w (.recover jobId) (w.recover job)

/-! ## The moves of a job are the repository's -/

/-- What the orchestration sees of a row. -/
def JobRow.orchestrator (row : JobRow) (runId : Uuid) : OrchestratorJob :=
  ⟨row.id, runId, row.status, row.leaseOwner, row.attempts, row.maxAttempts, row.revision⟩

/-- One job in one transaction. -/
inductive OrchestratorStep : OrchestratorJob → OrchestratorJob → Prop
  | lease {job} (worker : String) (h : job.status = .queued) : OrchestratorStep job (job.lease worker)
  | heartbeat {job} : OrchestratorStep job job
  | record {job} (h : job.status.inFlight = true) : OrchestratorStep job job.record
  | run {job} (h : job.status = .leased) : OrchestratorStep job job.run
  | finish {job status} (h : status.terminal = true) : OrchestratorStep job (job.finish status)
  | requeue {job} (h : job.status.inFlight = true) (hleft : job.attempts < job.maxAttempts) :
      OrchestratorStep job job.requeue

end MilpbookLM
