/-
The worker loop: recover, claim, execute, publish. `pollOnce` (`_poll_once`) and
all it calls are programs over the repository; `System.machine` runs any number
of workers beside the requests of the API, call by call.

A handler is any program over its job context: it writes checkpoints and progress,
asks whether to stop and reads what it likes, and then returns a result, stops
cooperatively (`HandlerCancelledError`) or raises. Telemetry context, logging, the
sleep between polls and the teardown are left out.
-/
import MilpbookLM.Jobs.Runs

namespace MilpbookLM

open Interleave

/-! ## Handlers -/

structure JobResult where
  resultRef : Option String := none

/-- How a handler ends. -/
inductive HandlerOutcome
  | result (r : JobResult)
  | cancelled
  | raised

/-- What a handler calls: its context, or anything outside the job tables. -/
inductive ContextCall
  | checkpoint (data : Dict)
  | progress (phase : String) (fraction : Option Rat) (status : Option String)
  | shouldStop
  | observe

def ContextAnswer : ContextCall → Type
  | .checkpoint _ => Unit
  | .progress .. => Unit
  | .shouldStop => Bool
  | .observe => Nat

abbrev Handler := JobRecord → Prog ContextCall ContextAnswer HandlerOutcome

/-- `_LoopContext._update`: the record the context keeps, none once the lease is lost. -/
def updateContext (leaseSeconds : Int) (progress : Option JobProgress) (checkpoint : Option Dict) :
    Option JobRecord → Program (Option JobRecord)
  | none => return none
  | some job => Program.recordProgress .context job progress checkpoint leaseSeconds

/-- A handler run with its context (`_LoopContext`). -/
def runHandler (leaseSeconds : Int) :
    Prog ContextCall ContextAnswer HandlerOutcome → Option JobRecord → Program HandlerOutcome
  | .ret outcome, _ => return outcome
  | .call (.checkpoint data) k, context => do
    runHandler leaseSeconds (k ()) (← updateContext leaseSeconds none (some data) context)
  | .call (.progress phase fraction status) k, context => do
    runHandler leaseSeconds (k ()) (← updateContext leaseSeconds (some ⟨phase, fraction, status⟩) none context)
  | .call .shouldStop k, context => runHandler leaseSeconds (k context.isNone) context
  | .call .observe k, context => do runHandler leaseSeconds (k (← Program.observe)) context

/-! ## The loop -/

/-- One worker process's configuration; each of its classes has a budget. -/
structure WorkerLoop where
  handlers : List (String × Handler)
  policy : CapacityPolicy
  classes : List CapacityClass
  leaseSeconds : Int
  /-- Whether the loop, and its `CompleteJob`, have an `AuthzRevalidator`. -/
  revalidator : Bool
  publishRevalidator : Bool
  /-- Whether it has an `InteractivePreemptor`. -/
  preemptor : Bool
  budgeted : ∀ q ∈ classes, ∃ b, policy.budget q = .ok b

/-- `except JobCasConflictError`, around a publication. -/
def toleratingCas {α : Type} (x : Program α) : Program Unit :=
  tryCatch (do let _ ← x; return ()) fun e => match e with
    | .jobCasConflict _ => return ()
    | e => throw e

/-- `InteractivePreemptor.preempt_media`. -/
def preemptMedia (job : JobRecord) (manifest : Dict) : Program JobRecord := do
  match ← Program.recordProgress .preempt job none (some manifest) 1 with
  | none => return job
  | some checkpointed =>
    Program.transition .park checkpointed .waitingCapacity
      { checkpoint := some (some manifest), leaseOwner := some none, leaseExpiresAt := some none }

/-- The move to running, none when the job moved before dispatch. -/
def dispatch (job : JobRecord) : Program (Option JobRecord) :=
  tryCatch (do return some (← Program.transition .dispatch job .running {})) fun e => match e with
    | .jobCasConflict _ => return none
    | e => throw e

namespace WorkerLoop

variable (loop : WorkerLoop)

/-- `_succeed`. -/
def succeed (job : JobRecord) (result : JobResult) : Program Unit :=
  toleratingCas (completeJob loop.publishRevalidator job true result.resultRef none)

/-- `_fail`. -/
def fail (job : JobRecord) (errorCode : String) : Program Unit :=
  toleratingCas (completeJob loop.publishRevalidator job false none (some errorCode))

/-- `_cancel_job`. -/
def cancel (job : JobRecord) (reason : String) : Program Unit := toleratingCas (cancelJob job.id reason)

/-- `_preempt_batch_media`. -/
def preemptBatchMedia (job : JobRecord) : Program Unit := do
  if loop.preemptor && job.queue = .interactiveText then
    let media ← Program.runningJobs .media
    media.forM fun mediaJob => do
      let _ ← preemptMedia mediaJob (mediaJob.checkpoint.getD [])

/-- `_publish_result`. -/
def publishResult (job : JobRecord) (result : JobResult) : Program Unit := do
  match ← Program.get .beforePublish job.id with
  | none => return ()
  | some current =>
    if current.terminal then return ()
    else if !(← authzOk loop.revalidator current) then cancel current "authorization_revoked"
    else loop.succeed current result

/-- The handler-error branch of `_execute`. -/
def failHandler (job : JobRecord) : Program Unit := do
  match ← Program.get .beforeFail job.id with
  | none => return ()
  | some current => if current.terminal then return () else loop.fail current "handler_error"

/-- `_execute` from the dispatch on. An exception of the handler's, or of a
context write of its, fails the job. -/
def run (handler : Handler) (job : JobRecord) : Program Unit := do
  match ← dispatch job with
  | none => return ()
  | some running =>
    match ← tryCatch (runHandler loop.leaseSeconds (handler running) (some running)) fun _ => return .raised with
    | .result r => loop.publishResult job r
    | .cancelled => return ()
    | .raised => loop.failHandler job

/-- `_execute`. -/
def execute (job : JobRecord) : Program Unit := do
  match loop.handlers.lookup job.kind with
  | none => loop.fail job "unknown_handler"
  | some handler =>
    if !(← authzOk loop.revalidator job) then cancel job "authorization_revoked"
    else
      loop.preemptBatchMedia job
      loop.run handler job

/-- The classes of `_poll_once`, one after another, until a stop is requested. -/
def pollClasses (workerId : String) : List CapacityClass → Program Unit
  | [] => return ()
  | q :: qs => do
    if (← Program.observe) ≠ 0 then return ()
    else
      match ← Program.claim workerId q loop.leaseSeconds loop.policy (loop.handlers.map (·.1)) with
      | none => pure ()
      | some job => loop.execute job
      pollClasses workerId qs

/-- `_poll_once`. -/
def pollOnce (workerId : String) : Program Unit := do
  let _ ← Program.recoverExpired
  loop.pollClasses workerId loop.classes

end WorkerLoop

/-! ## Workers and requests together -/

/-- A worker, named by its worker id, or a request handler of the API. -/
inductive Party
  | worker (workerId : String)
  | api (n : Nat)
  deriving DecidableEq

inductive Request
  | poll
  | enqueue (r : EnqueueRequest)
  | cancel (jobId : Uuid) (reason : String)
  | recover

structure System where
  loops : String → WorkerLoop
  hashing : Hashing
  policy : CapacityPolicy

namespace System

/-- A request's program; what it raises is its response. -/
def answer (sys : System) : Request → Prog Call Answer (Except JobError Unit)
  | .poll => return .ok ()
  | .enqueue r => do let _ ← (enqueueJob sys.hashing sys.policy r).run; return .ok ()
  | .cancel jobId reason => do let _ ← (cancelJob jobId reason).run; return .ok ()
  | .recover => do let _ ← Program.recoverExpired.run; return .ok ()

/-- Any number of workers that poll, and any requests. -/
def machine (sys : System) : Machine Party Call Answer JobError JobDb Env Request where
  exec := fun c env => exec env c
  start
    | .worker w, _ => ((sys.loops w).pollOnce w).run
    | .api _, r => sys.answer r

abbrev World := Pool Party Call Answer JobError JobDb

/-- The worlds reached from empty tables when every call meets `cond`. -/
abbrev Reach (sys : System) (cond : Party → Call → Env → JobRun Party → Prop) : World → Prop :=
  sys.machine.Reach (· = {}) cond

/-- Nothing called yet, nobody at work. -/
def idleWorld : World := ⟨⟨{}, []⟩, fun _ => .ret (.ok ())⟩

theorem reach_idle {sys : System} {cond} : sys.Reach cond idleWorld := .start ⟨⟨rfl, rfl⟩, fun _ => rfl⟩

/-- The world after a schedule from the idle one. -/
def runs (sys : System) (ms : List (Move Party Env Request)) : World := ms.foldl sys.machine.move idleWorld

end System

/-! Schedules on fixed inputs: workers of one class, calls at one time. -/

def mediaLoop (handler : Handler) : WorkerLoop where
  handlers := [("render", handler)]
  policy := defaultCapacityPolicy
  classes := [.media]
  leaseSeconds := 60
  revalidator := false
  publishRevalidator := false
  preemptor := false
  budgeted := fun q hq => by rw [List.mem_singleton.1 hq]; exact ⟨_, rfl⟩

/-- Workers whose handlers are done at once. -/
def mediaSystem : System := ⟨fun _ => mediaLoop fun _ => return .result {}, plainHashing, defaultCapacityPolicy⟩

/-- `n` calls of `p`, nobody having asked it to stop. -/
def calls (p : Party) (t : Time) (n : Nat) : List (Move Party Env Request) :=
  List.replicate n (.call p { Env.fixed t 1 with answer := 0 })

/-- The first `n` calls of a poll. -/
def polls (w : String) (t : Time) (n : Nat) : List (Move Party Env Request) :=
  .start (.worker w) .poll :: calls (.worker w) t n

def enqueuesMedia : List (Move Party Env Request) :=
  .start (.api 0) (.enqueue mediaRequest) :: calls (.api 0) 0 4

end MilpbookLM
