/-
What a worker calls, and what its poll raises. `Follows` says of each call what
the calls before it answered: the records it passes, and where it got them.
`Admitted` says how the repository answers. Along every path of a poll the worker
follows these rules, and an exception gets out only after a call of the kinds
that `Escapes` lists (`pollOnce_along`); `reach_follows` carries both over to
every world that workers and requests reach.
-/
import MilpbookLM.Jobs.Errors
import MilpbookLM.Workers.Loop

namespace MilpbookLM

open Interleave PgJobRepository

/-- The calls of one party and their answers, the latest first. -/
abbrev History := List (Σ c, Answer c)

/-! ## Answers -/

/-- How the repository answers a call. -/
def Admitted : (c : Call) → Answer c → Prop
  | .get _ id, a => ∃ job : Option JobRecord, a = Except.ok job ∧ ∀ j, job = some j → j.id = id
  | .claim w .., a => ∀ job : JobRecord, a = Except.ok (some job) → job.state = .leased ∧ job.leaseOwner = some w
  | .recordProgress _ job p c _, a => a = Except.ok none ∨ a = Except.ok (some (progressed job p c))
  | .transition _ job new u, a =>
    (∀ updated : JobRecord, a = Except.ok updated → ∃ now, applyTransition now job new u = .ok updated) ∧
      ∀ e, a = Except.error e → new ∈ transitions job.state → u.unknown = [] → new.terminal = false → CasConflict e
  | .complete job new rr ec e, a => (Call.complete job new rr ec e).Published →
    ∀ err, a = Except.error err → CasConflict err
  | .cancel job reason e, a => (Call.cancel job reason e).Published → job.state.terminal = false →
    ∀ err, a = Except.error err → CasConflict err
  | .recoverExpired, a => ∃ jobs : List JobRecord, a = Except.ok jobs
  | .runningJobs _, a => ∃ jobs : List JobRecord, a = Except.ok jobs
  | _, _ => True

/-! ## Calls -/

/-- What the last claim answered. -/
def claimed : History → Option JobRecord
  | [] => none
  | ⟨.claim .., .ok job⟩ :: _ => job
  | ⟨.claim .., .error _⟩ :: _ => none
  | _ :: t => claimed t

/-- The job of the last claim. -/
def heldJob (t : History) : Option Uuid := (claimed t).map (·.id)

/-- `job` was read at `site`. -/
def ReadAt (site : ReadSite) (t : History) (job : JobRecord) : Prop :=
  ∃ id, (⟨.get site id, Except.ok (some job)⟩ : Σ c, Answer c) ∈ t

/-- The record the context of the running handler holds: the one the dispatch or
the last context write answered, for the job last claimed. -/
def contextRecord : History → Option JobRecord
  | [] => none
  | ⟨.claim .., _⟩ :: _ => none
  | ⟨.transition .dispatch _ _ _, .ok job⟩ :: _ => some job
  | ⟨.recordProgress .context _ _ _ _, .ok job⟩ :: _ => job
  | _ :: t => contextRecord t

/-- What a park writes beside the state. -/
def parkUpdates (manifest : Dict) : FieldUpdates :=
  { checkpoint := some (some manifest), leaseOwner := some none, leaseExpiresAt := some none }

/-- `job` was answered to the party. -/
def Answered (t : History) (job : JobRecord) : Prop := ∃ ev ∈ t, job ∈ answered ev.1 ev.2

/-- The terminal state a job is read for. -/
def ReadSite.publishes : ReadSite → Option JobState
  | .beforePublish => some .succeeded
  | .beforeFail => some .failed
  | .cancelling => none

/-- `job`, of the last claim, may be published: it is what the claim answered, or
what was read to publish it. -/
def Publishes (t : History) (job : JobRecord) (newState : JobState) : Prop :=
  heldJob t = some job.id ∧ (claimed t = some job ∨ ∃ site, site.publishes = some newState ∧ ReadAt site t job)

/-- Where the arguments of a call come from. -/
def Sourced (p : Party) (t : History) : Call → Prop
  | .claim w q _ policy _ => p = .worker w ∧ ∃ budget, policy.budget q = .ok budget
  | .get .cancelling id => ∀ w, p = .worker w → ∃ job, Answered t job ∧ job.id = id
  | .recordProgress .context job .. => contextRecord t = some job
  | .transition .dispatch job new u => new = .running ∧ u = {} ∧ claimed t = some job
  | .transition .park job new u => new = .waitingCapacity ∧ ∃ manifest, job.checkpoint = some manifest ∧
      u = parkUpdates manifest
  | .complete job new .. => Publishes t job new
  | _ => True

/-- The rules a party keeps to: every record it passes was answered to it. -/
structure Follows (p : Party) (t : History) (c : Call) : Prop where
  published : c.Published
  answered : ∀ job ∈ c.records, Answered t job
  sourced : Sourced p t c

/-! ## Exceptions -/

/-- The calls after which an exception leaves the poll. -/
def Escapes : (Σ c, Answer c) → Prop
  -- the query of a claim failed
  | ⟨.claim .., a⟩ => ∃ e, a = Except.error e
  -- a job to be cancelled is gone, or has ended
  | ⟨.get .cancelling _, a⟩ => ∀ job : JobRecord, a = Except.ok (some job) → job.state.terminal = true
  -- a job to be published is in a state with no transition to the new one
  | ⟨.stamp (.publishing job newState), _⟩ => newState ∉ transitions job.state
  -- a media job to be parked is in such a state, or has moved
  | ⟨.transition .park _ _ _, a⟩ => ∃ e, a = Except.error e
  | _ => False

def Escaped (t : History) : Prop := ∃ ev ∈ t, Escapes ev

/-- The history has grown, by other calls than claims. -/
structure Later (t t' : History) : Prop where
  suffix : t <:+ t'
  claimed : claimed t' = claimed t

/-- The history has grown so, and an exception is one of `bad` or escapes. -/
structure Ends {α : Type} (bad : JobError → Prop) (t : History) (res : Except JobError α) (t' : History) : Prop where
  grows : Later t t'
  raises : ∀ e, res = .error e → bad e ∨ Escaped t'

/-- What holds along a program of a party. -/
abbrev Program.Along {α : Type} (p : Party) (x : Program α) (Q : Except JobError α → History → Prop) (t : History) :
    Prop :=
  Prog.Along Admitted (Follows p) x.run Q t

section Rules

variable {α β : Type} {p : Party} {bad : JobError → Prop} {t t' : History} {job : JobRecord}

theorem Later.refl : Later t t := ⟨List.suffix_refl _, rfl⟩

theorem Later.trans {t'' : History} (h : Later t t') (h' : Later t' t'') : Later t t'' :=
  ⟨h.suffix.trans h'.suffix, h'.claimed.trans h.claimed⟩

/-- One more call that is no claim. -/
theorem Later.cons {ev : Σ c, Answer c} (h : MilpbookLM.claimed (ev :: t) = MilpbookLM.claimed t) : Later t (ev :: t) :=
  ⟨List.suffix_cons _ _, h⟩

theorem ReadAt.mono {site} (h : ReadAt site t job) (ht : Later t t') : ReadAt site t' job := by
  obtain ⟨id, hev⟩ := h
  exact ⟨id, ht.suffix.subset hev⟩

theorem Answered.mono (h : Answered t job) (ht : Later t t') : Answered t' job := by
  obtain ⟨ev, hev, hmem⟩ := h
  exact ⟨ev, ht.suffix.subset hev, hmem⟩

theorem Publishes.mono {new} (h : Publishes t job new) (ht : Later t t') : Publishes t' job new := by
  rw [Publishes, heldJob, ht.claimed]
  exact ⟨h.1, h.2.imp_right fun ⟨site, hsite, hread⟩ => ⟨site, hsite, hread.mono ht⟩⟩

theorem Ends.ok {a : α} (ht : Later t t') : Ends bad t (.ok a) t' := ⟨ht, fun e h => by cases h⟩

theorem Ends.escaped {res : Except JobError α} (ht : Later t t') (h : Escaped t') : Ends bad t res t' :=
  ⟨ht, fun _ _ => .inr h⟩

/-- A program that ends as `Ends` says, and then another. -/
theorem Ends.bind {x : Program α} {f : α → Program β} (hx : x.Along p (Ends bad t) t)
    (hf : ∀ a t', Later t t' → (f a).Along p (Ends bad t') t') : (x >>= f).Along p (Ends bad t) t := by
  refine Prog.Along.seq (hx.mono fun res t' hres => ?_)
  cases res with
  | ok a =>
    refine (hf a t' hres.grows).mono fun res t'' h => ⟨hres.grows.trans h.grows, h.raises⟩
  | error e => exact ⟨hres.grows, fun e' he => hres.raises e' (by cases he; rfl)⟩

/-- A handler of compare-and-swap conflicts. -/
theorem toleratingCas_along {x : Program α} (hx : x.Along p (Ends CasConflict t) t) :
    (toleratingCas x).Along p (Ends (fun _ => False) t) t := by
  refine Prog.Along.guarded ?_
  refine (Ends.bind hx fun a t' _ => show Program.Along p (pure ()) _ t' from Ends.ok .refl).mono
    fun res t' hres => ?_
  cases res with
  | ok a => exact Ends.ok hres.grows
  | error e =>
    rcases hres.raises e rfl with ⟨msg, rfl⟩ | hesc
    · exact Ends.ok hres.grows
    · cases e <;> first | exact Ends.ok hres.grows | exact Ends.escaped hres.grows hesc

/-! ## Publication -/

theorem authzOk_along {revalidator : Bool} {bad} : (authzOk revalidator job).Along p (Ends bad t) t := by
  unfold authzOk
  split
  · exact ⟨⟨trivial, by simp [Call.records], trivial⟩, fun _ _ => Ends.ok (.cons rfl)⟩
  · exact Ends.ok .refl

theorem cancelJob_along {id reason} (hknown : ∀ w, p = .worker w → ∃ job, Answered t job ∧ job.id = id) :
    (cancelJob id reason).Along p (Ends CasConflict t) t := by
  unfold cancelJob
  refine ⟨⟨trivial, by simp [Call.records], hknown⟩, ?_⟩
  rintro _ ⟨_ | job, rfl, -⟩
  · exact Ends.escaped (.cons rfl) ⟨_, List.mem_cons_self, fun job h => by cases h⟩
  refine ⟨⟨trivial, by simp [Call.records], trivial⟩, fun stamped _ => ?_⟩
  obtain ⟨now, eventId⟩ := stamped
  have hread : (⟨.get .cancelling id, Except.ok (some job)⟩ : Σ c, Answer c) ∈
      ⟨.stamp .cancelling, (now, eventId)⟩ :: ⟨.get .cancelling id, Except.ok (some job)⟩ :: t := by simp
  refine ⟨⟨⟨now, eventId, rfl⟩, fun j hj => ⟨_, hread, ?_⟩, trivial⟩, fun res hres => ⟨?_, fun e he => ?_⟩⟩
  · simpa [Call.records, answered] using hj
  · exact ((Later.cons rfl).trans (.cons rfl)).trans (.cons rfl)
  · by_cases hend : job.state.terminal = true
    · exact .inr ⟨_, List.mem_cons_of_mem _ hread, fun j hj => by cases hj; exact hend⟩
    · exact .inl (hres ⟨now, eventId, rfl⟩ (by simpa using hend) e he)

theorem completeJob_along {revalidator succeeded resultRef errorCode} (hknown : Answered t job)
    (hsrc : Publishes t job (completionState succeeded)) :
    (completeJob revalidator job succeeded resultRef errorCode).Along p (Ends CasConflict t) t := by
  unfold completeJob
  refine Ends.bind authzOk_along fun authorized t' ht => ?_
  cases authorized with
  | false => exact cancelJob_along fun _ _ => ⟨job, hknown.mono ht, rfl⟩
  | true =>
    refine ⟨⟨trivial, by simp [Call.records], trivial⟩, fun ⟨now, eventId⟩ _ => ?_⟩
    change Program.Along p (Program.ofExcept (applyTransition now job (completionState succeeded)
      { resultRef := some resultRef, errorCode := some errorCode }) >>= fun final =>
        Program.complete job (completionState succeeded) resultRef errorCode
          (completeEnvelope job final succeeded now eventId)) _ _
    rcases hap : applyTransition now job (completionState succeeded)
      { resultRef := some resultRef, errorCode := some errorCode } with e | final
    · have hnot : completionState succeeded ∉ transitions job.state := fun hmem => by
        obtain ⟨final, hok⟩ := applyTransition_of_mem now
          (u := { resultRef := some resultRef, errorCode := some errorCode }) hmem rfl
        rw [hap] at hok; cases hok
      exact Ends.escaped (.cons rfl) ⟨⟨.stamp (.publishing job _), (now, eventId)⟩, List.mem_cons_self, hnot⟩
    · have hpub : (Call.complete job (completionState succeeded) resultRef errorCode
          (completeEnvelope job final succeeded now eventId)).Published :=
        ⟨succeeded, now, eventId, final, rfl, hap, rfl⟩
      have ht' : Later t (⟨.stamp (.publishing job (completionState succeeded)), (now, eventId)⟩ :: t') := ht.trans (.cons rfl)
      refine ⟨⟨hpub, fun j hj => ?_, hsrc.mono ht'⟩, fun res hres => ⟨?_, fun e he => .inl (hres hpub e he)⟩⟩
      · rw [List.mem_singleton.1 hj]; exact hknown.mono ht'
      · exact (Later.cons rfl).trans (.cons rfl)

theorem cancel_along {reason} (hknown : Answered t job) :
    (WorkerLoop.cancel job reason).Along p (Ends (fun _ => False) t) t :=
  toleratingCas_along (cancelJob_along fun _ _ => ⟨job, hknown, rfl⟩)

variable {loop : WorkerLoop} {w : String}

theorem fail_along {errorCode} (hknown : Answered t job) (hsrc : Publishes t job .failed) :
    (loop.fail job errorCode).Along p (Ends (fun _ => False) t) t :=
  toleratingCas_along (completeJob_along hknown hsrc)

/-! ## Preemption, dispatch, handlers -/

theorem preemptMedia_along {manifest} (hknown : Answered t job) :
    (preemptMedia job manifest).Along p (Ends (fun _ => False) t) t := by
  refine ⟨⟨trivial, fun j hj => ?_, trivial⟩, fun res hres => ?_⟩
  · rw [List.mem_singleton.1 hj]; exact hknown
  rcases hres with rfl | rfl
  · exact Ends.ok (.cons rfl)
  refine ⟨⟨trivial, fun j hj => ⟨_, List.mem_cons_self, ?_⟩, rfl, manifest, rfl, rfl⟩, fun res _ => ?_⟩
  · simpa [Call.records, answered] using hj
  · cases res with
    | ok parked => exact Ends.ok ((Later.cons rfl).trans (.cons rfl))
    | error e => exact Ends.escaped ((Later.cons rfl).trans (.cons rfl)) ⟨_, List.mem_cons_self, e, rfl⟩

theorem preemptBatchMedia_along : (loop.preemptBatchMedia job).Along p (Ends (fun _ => False) t) t := by
  unfold WorkerLoop.preemptBatchMedia
  split
  · refine ⟨⟨trivial, by simp [Call.records], trivial⟩, ?_⟩
    rintro _ ⟨media, rfl⟩
    have hread : (⟨.runningJobs .media, Except.ok media⟩ : Σ c, Answer c) ∈
        (⟨.runningJobs .media, Except.ok media⟩ :: t : History) := List.mem_cons_self
    refine Prog.Along.forM (Later (⟨.runningJobs .media, Except.ok media⟩ :: t)) .refl
      (fun mediaJob hmedia t' ht => ?_) fun t' ht => Ends.ok ((Later.cons rfl).trans ht)
    have hknown : Answered t' mediaJob := ⟨_, ht.suffix.subset hread, hmedia⟩
    refine (Ends.bind (preemptMedia_along hknown) fun _ t'' _ =>
      show Program.Along p (pure ()) _ t'' from Ends.ok .refl).mono fun res t'' hres => ?_
    cases res with
    | ok => exact ht.trans hres.grows
    | error e =>
      exact ⟨(Later.cons rfl).trans (ht.trans hres.grows), fun e' he => by cases he; exact hres.raises _ rfl⟩
  · exact Ends.ok .refl

theorem claimed_mem {t : History} (h : claimed t = some job) : ∃ w q lease policy kinds,
    (⟨.claim w q lease policy kinds, Except.ok (some job)⟩ : Σ c, Answer c) ∈ t := by
  induction t using claimed.induct with
  | case1 => cases h
  | case2 => simp only [claimed] at h; subst h; exact ⟨_, _, _, _, _, List.mem_cons_self⟩
  | case3 => cases h
  | case4 ev t _ _ ih =>
    rw [claimed] at h
    · obtain ⟨w, q, lease, policy, kinds, hev⟩ := ih h
      exact ⟨w, q, lease, policy, kinds, List.mem_cons_of_mem _ hev⟩
    all_goals assumption

theorem claimed_answered (h : claimed t = some job) : Answered t job := by
  obtain ⟨w, q, lease, policy, kinds, hev⟩ := claimed_mem h
  exact ⟨_, hev, by simp [answered]⟩

/-- The context holds the record the dispatch answered. -/
theorem dispatch_along (hclaim : claimed t = some job) (hst : job.state = .leased) :
    (dispatch job).Along p (fun res t' => Later t t' ∧ ∃ running, res = .ok running ∧
      ∀ r, running = some r → contextRecord t' = some r) t := by
  refine ⟨⟨trivial, fun j hj => ?_, rfl, rfl, hclaim⟩, fun res hres => ?_⟩
  · rw [List.mem_singleton.1 hj]; exact claimed_answered hclaim
  cases res with
  | ok running => exact ⟨.cons rfl, some running, rfl, fun r hr => hr⟩
  | error e =>
    obtain ⟨msg, rfl⟩ := hres.2 e rfl (by rw [hst]; decide) rfl rfl
    exact ⟨.cons rfl, none, rfl, fun r hr => by cases hr⟩

theorem contextRecord_answered {t : History} (h : contextRecord t = some job) : Answered t job := by
  induction t using contextRecord.induct with
  | case1 => cases h
  | case2 => cases h
  | case3 => cases h; exact ⟨_, List.mem_cons_self, by simp [answered]⟩
  | case4 => simp only [contextRecord] at h; subst h; exact ⟨_, List.mem_cons_self, by simp [answered]⟩
  | case5 ev t _ _ _ ih =>
    rw [contextRecord] at h
    · obtain ⟨ev', hev, hmem⟩ := ih h
      exact ⟨ev', List.mem_cons_of_mem _ hev, hmem⟩
    all_goals assumption

/-- What a handler's context write leaves in the context. -/
theorem updateContext_along {lease progress checkpoint context} (hctx : ∀ r, context = some r → contextRecord t = some r) :
    (updateContext lease progress checkpoint context).Along p (fun res t' => Later t t' ∧ ∃ context', res = .ok context' ∧
      ∀ r, context' = some r → contextRecord t' = some r) t := by
  cases context with
  | none => exact ⟨.refl, none, rfl, fun r hr => by cases hr⟩
  | some job =>
    have hjob := hctx job rfl
    refine ⟨⟨trivial, fun j hj => ?_, hjob⟩, fun res hres => ⟨.cons rfl, ?_⟩⟩
    · rw [List.mem_singleton.1 hj]; exact contextRecord_answered hjob
    · rcases hres with rfl | rfl <;> exact ⟨_, rfl, fun r hr => hr⟩

/-- A handler's context writes pass the record the write before answered. -/
theorem runHandler_along {lease} (handler : Prog ContextCall ContextAnswer HandlerOutcome) {context}
    (hctx : ∀ r, context = some r → contextRecord t = some r) :
    (runHandler lease handler context).Along p (fun res t' => Later t t' ∧ ∃ outcome, res = .ok outcome) t := by
  induction handler generalizing t context with
  | ret outcome => exact ⟨.refl, outcome, rfl⟩
  | call i k ih =>
    cases i with
    | checkpoint | progress =>
      refine Prog.Along.seq ((updateContext_along hctx).mono ?_)
      rintro _ t' ⟨ht, context', rfl, hctx'⟩
      exact (ih () hctx').mono fun res t'' h => ⟨ht.trans h.1, h.2⟩
    | shouldStop => exact ih _ hctx
    | observe =>
      refine ⟨⟨trivial, by simp [Call.records], trivial⟩, fun n _ => ?_⟩
      exact (ih n (t := ⟨.observe, n⟩ :: t) hctx).mono fun res t'' h => ⟨(Later.cons rfl).trans h.1, h.2⟩

/-! ## The poll -/

theorem publishResult_along {result} (hheld : heldJob t = some job.id) :
    (loop.publishResult job result).Along p (Ends (fun _ => False) t) t := by
  unfold WorkerLoop.publishResult
  refine ⟨⟨trivial, by simp [Call.records], trivial⟩, ?_⟩
  rintro _ ⟨_ | current, rfl, hid⟩
  · exact Ends.ok (.cons rfl)
  have hread : (⟨.get .beforePublish job.id, Except.ok (some current)⟩ : Σ c, Answer c) ∈
      (⟨.get .beforePublish job.id, Except.ok (some current)⟩ :: t : History) := List.mem_cons_self
  have hknown : Answered (⟨.get .beforePublish job.id, Except.ok (some current)⟩ :: t) current :=
    ⟨_, hread, by simp [answered]⟩
  have hsrc : Publishes (⟨.get .beforePublish job.id, Except.ok (some current)⟩ :: t) current .succeeded :=
    ⟨by rw [hid current rfl]; exact hheld, .inr ⟨_, rfl, _, hread⟩⟩
  refine Prog.Along.mono (Q := Ends (fun _ => False) (⟨.get .beforePublish job.id, Except.ok (some current)⟩ :: t)) ?_
    fun res t' h => ⟨(Later.cons rfl).trans h.grows, h.raises⟩
  change Program.Along p (if current.terminal then _ else _) _ _
  split
  · exact Ends.ok .refl
  · refine Ends.bind authzOk_along fun authorized t' ht => ?_
    cases authorized with
    | false => exact cancel_along (hknown.mono ht)
    | true => exact toleratingCas_along (completeJob_along (hknown.mono ht) (hsrc.mono ht))

theorem failHandler_along (hheld : heldJob t = some job.id) :
    (loop.failHandler job).Along p (Ends (fun _ => False) t) t := by
  unfold WorkerLoop.failHandler
  refine ⟨⟨trivial, by simp [Call.records], trivial⟩, ?_⟩
  rintro _ ⟨_ | current, rfl, hid⟩
  · exact Ends.ok (.cons rfl)
  have hread : (⟨.get .beforeFail job.id, Except.ok (some current)⟩ : Σ c, Answer c) ∈
      (⟨.get .beforeFail job.id, Except.ok (some current)⟩ :: t : History) := List.mem_cons_self
  refine Prog.Along.mono (Q := Ends (fun _ => False) (⟨.get .beforeFail job.id, Except.ok (some current)⟩ :: t)) ?_
    fun res t' h => ⟨(Later.cons rfl).trans h.grows, h.raises⟩
  change Program.Along p (if current.terminal then _ else _) _ _
  split
  · exact Ends.ok .refl
  · exact fail_along ⟨_, hread, by simp [answered]⟩
      ⟨by rw [hid current rfl]; exact hheld, .inr ⟨_, rfl, _, hread⟩⟩

theorem run_along {handler} (hclaim : claimed t = some job) (hst : job.state = .leased) :
    (loop.run handler job).Along p (Ends (fun _ => False) t) t := by
  have hheld : ∀ t', Later t t' → heldJob t' = some job.id := fun t' ht => by
    rw [heldJob, ht.claimed, hclaim]; rfl
  unfold WorkerLoop.run
  refine Prog.Along.seq ((dispatch_along hclaim hst).mono ?_)
  rintro _ t' ⟨ht, _ | running, rfl, hctx⟩
  · exact Ends.ok ht
  refine Prog.Along.mono (Q := Ends (fun _ => False) t') ?_ fun res t'' h => ⟨ht.trans h.grows, h.raises⟩
  refine Prog.Along.seq (Prog.Along.guarded ((runHandler_along _ hctx).mono ?_))
  rintro _ t'' ⟨ht', outcome, rfl⟩
  refine Prog.Along.mono (Q := Ends (fun _ => False) t'') ?_ fun res t₃ h => ⟨ht'.trans h.grows, h.raises⟩
  cases outcome with
  | result r => exact publishResult_along (hheld t'' (ht.trans ht'))
  | cancelled => exact Ends.ok .refl
  | raised => exact failHandler_along (hheld t'' (ht.trans ht'))

theorem execute_along (hclaim : claimed t = some job) (hst : job.state = .leased) :
    (loop.execute job).Along p (Ends (fun _ => False) t) t := by
  have hknown := claimed_answered hclaim
  unfold WorkerLoop.execute
  split
  · exact fail_along hknown ⟨by rw [heldJob, hclaim]; rfl, .inl hclaim⟩
  · refine Ends.bind authzOk_along fun authorized t' ht => ?_
    cases authorized with
    | false => exact cancel_along (hknown.mono ht)
    | true =>
      exact Ends.bind preemptBatchMedia_along fun _ t'' ht' =>
        run_along ((ht'.claimed.trans ht.claimed).trans hclaim) hst

/-- An exception of a poll escapes. -/
def Raises (res : Except JobError Unit) (t : History) : Prop := ∀ e, res = .error e → Escaped t

theorem pollClasses_along {qs : List CapacityClass} (hqs : ∀ q ∈ qs, ∃ b, loop.policy.budget q = .ok b) :
    (loop.pollClasses w qs).Along (.worker w) Raises t := by
  induction qs generalizing t with
  | nil => exact fun e h => by cases h
  | cons q qs ih =>
    have ih := fun t => @ih t fun q hq => hqs q (List.mem_cons_of_mem _ hq)
    refine ⟨⟨trivial, by simp [Call.records], trivial⟩, fun (stop : Nat) _ => ?_⟩
    change Program.Along _ (if stop ≠ 0 then _ else _) _ _
    split
    · exact fun e h => by cases h
    refine ⟨⟨trivial, by simp [Call.records], rfl, hqs q List.mem_cons_self⟩, fun res hres => ?_⟩
    rcases res with e | _ | job
    · exact fun _ _ => ⟨_, List.mem_cons_self, e, rfl⟩
    · exact ih _
    · refine Prog.Along.seq ((execute_along rfl (hres job rfl).1).mono fun res t' hres => ?_)
      cases res with
      | ok => exact ih _
      | error e => exact fun e' he => (hres.raises e rfl).resolve_left id

/-- **A worker keeps to the rules, and its poll raises only after a call that escapes.** -/
theorem pollOnce_along : (loop.pollOnce w).Along (.worker w) Raises t := by
  refine ⟨⟨trivial, by simp [Call.records], trivial⟩, ?_⟩
  rintro _ ⟨jobs, rfl⟩
  exact pollClasses_along loop.budgeted

/-! ## Requests -/

/-- A request keeps to the rules; its response is not an exception. -/
theorem answer_along {sys : System} {r : Request} {n : Nat} :
    (sys.answer r).Along Admitted (Follows (.api n)) (fun res _ => res = .ok ()) t := by
  have hplain : ∀ (c : Call) (t : History), c.Published → c.records = [] → Sourced (.api n) t c →
      Follows (.api n) t c :=
    fun c t hpub hrec hsrc => ⟨hpub, by simp [hrec], hsrc⟩
  cases r with
  | poll => exact rfl
  | enqueue r =>
    refine Prog.Along.bind (Prog.Along.seq ((withCapacityCheck_along (fun t => hplain _ t trivial rfl trivial)
      (fun t _ => hplain _ t trivial rfl trivial) (fun t _ _ => hplain _ t trivial rfl trivial)).mono fun res t' hres => ?_))
    cases res with
    | error e => exact rfl
    | ok job =>
      obtain ⟨id, hjob⟩ := hres
      exact ⟨hplain _ t' ⟨sys.hashing, r, id, hjob⟩ rfl trivial, fun _ _ => rfl⟩
  | cancel jobId reason =>
    exact Prog.Along.bind ((cancelJob_along fun w h => by cases h).mono fun _ _ _ => rfl)
  | recover => exact ⟨hplain _ t trivial rfl trivial, fun _ _ => rfl⟩

end Rules

/-! ## Worlds -/

/-- How a program of a party may end. -/
def Party.Ended : Party → Except JobError Unit → History → Prop
  | .worker _, res, t => Raises res t
  | .api _, res, _ => res = .ok ()

/-- The repository answers as `Admitted` says. -/
theorem exec_admitted {env : Env} {db : JobDb} (hk : db.Keyed) (c : Call) : Admitted c (exec env c db).1 := by
  cases c with
  | enqueue | heartbeat | inFlight | inFlightForUser | revalidate | stamp | observe => trivial
  | get site id =>
    refine ⟨_, get_eq id db, fun j hj => ?_⟩
    obtain ⟨row, hrow, rfl⟩ := Option.map_eq_some_iff.1 hj
    rw [JobRow.record_id, JobDb.job?_id hrow]
  | claim w q lease policy kinds =>
    intro job hjob
    obtain ⟨db', hclaim⟩ := commit_ok hjob
    obtain ⟨h, -⟩ | ⟨row, -, -, h, -⟩ := claim_ok hk hclaim
    · cases h
    · cases h; exact ⟨by rw [JobRow.record_state]; rfl, by rw [JobRow.record_leaseOwner]; rfl⟩
  | recordProgress site job p c lease =>
    obtain ⟨⟨r, db'⟩, hr⟩ := recordProgress_total env.now job p c lease db
    obtain ⟨rfl, -⟩ | ⟨row, -, -, rfl, -⟩ := recordProgress_ok hk hr
    · exact .inl (congrArg (fun x => (commit db x).1) hr)
    · exact .inr (congrArg (fun x => (commit db x).1) hr)
  | transition site job new u =>
    refine ⟨fun updated h => ?_, fun e h hmem hu hnew => ?_⟩
    · obtain ⟨db', hr⟩ := commit_ok h
      exact ⟨_, (transition_ok hk hr).1⟩
    · exact transition_error hmem hu hnew (commit_error h)
  | complete => exact fun hp err h => complete_error hp (commit_error h)
  | cancel => exact fun hp hst err h => cancel_error hp hst (commit_error h)
  | recoverExpired =>
    obtain ⟨⟨jobs, db'⟩, hr⟩ := recoverExpired_total env db
    exact ⟨jobs, congrArg (fun x => (commit db x).1) hr⟩
  | runningJobs q => exact runningJobs_total q db

/-- The conditions under which the workers' and the requests' calls run. -/
abbrev Worked (cond : Party → Call → Env → JobRun Party → Prop) (p : Party) (c : Call) (env : Env) (r : JobRun Party) :
    Prop :=
  cond p c env r ∧ Follows p (own p r.trace) c

theorem Worked.known {cond p c env r} (h : Worked cond p c env r) {job} (hjob : job ∈ c.records) : Known r job := by
  obtain ⟨⟨c', a⟩, hev, hmem⟩ := h.2.answered job hjob
  exact ⟨⟨p, c', a⟩, mem_own.1 hev, hmem⟩

/-- **Every world's calls follow the rules**, and so does what is left of each
worker's poll. -/
theorem reach_follows {sys : System} {cond} {world : System.World} (h : sys.Reach cond world) :
    JobRuns (Worked cond) world.run ∧ ∀ w, Prog.Along Admitted (Follows (.worker w))
      (world.procs (.worker w)) Raises (own (.worker w) world.run.trace) := by
  obtain ⟨hruns, hal⟩ : JobRuns (Worked cond) world.run ∧ ∀ p, Prog.Along Admitted (Follows p)
      (world.procs p) p.Ended (own p world.run.trace) := Machine.runs_along
    (fun p c env r hr hc hf => exec_admitted (runs_keyed (fun _ _ _ _ h => h.2.published.addressed) hr) c)
    (fun p => by cases p <;> first | exact fun e h => by cases h | rfl)
    (fun p s t _ => by
      cases p with
      | worker w => exact pollOnce_along
      | api n => exact answer_along) h
  exact ⟨hruns, fun w => hal (.worker w)⟩

end MilpbookLM
