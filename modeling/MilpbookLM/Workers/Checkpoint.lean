/-
Checkpoints. A progress write stores the whole record its caller holds, guarded
by the lease owner and not by the revision. The owner's own writes build on each
other; the media preemption of another worker writes from a record it read
before. `lastCheckpoint` is the last checkpoint an owner's write committed, and
`checkpoint_stored` says when the row still has it: parked or not, it is never
older, as long as no preemption writes from a stale record.
-/
import MilpbookLM.Workers.Ownership

namespace MilpbookLM

open Interleave PgJobRepository

/-- The checkpoint a call committed for the owner of a job. -/
def committedCheckpoint : (c : Call) → Answer c → Option (Uuid × Dict)
  | .recordProgress .context job _ (some checkpoint) _, .ok (some _) => some (job.id, checkpoint)
  | _, _ => none

/-- The last checkpoint the owners of a job have committed. -/
def lastCheckpoint (t : List (Event Party Call Answer)) (id : Uuid) : Option Dict :=
  (t.filterMap fun ev => committedCheckpoint ev.call ev.answer).lookup id

theorem lastCheckpoint_committed {ev : Event Party Call Answer} {t id checkpoint}
    (h : committedCheckpoint ev.call ev.answer = some (id, checkpoint)) : lastCheckpoint (ev :: t) id = some checkpoint := by
  simp [lastCheckpoint, h]

theorem lastCheckpoint_other {ev : Event Party Call Answer} {t id}
    (h : ∀ checkpoint, committedCheckpoint ev.call ev.answer ≠ some (id, checkpoint)) :
    lastCheckpoint (ev :: t) id = lastCheckpoint t id := by
  rcases hc : committedCheckpoint ev.call ev.answer with _ | ⟨k, checkpoint⟩
  · simp [lastCheckpoint, hc]
  · have hne : (id == k) = false := by
      simp only [beq_eq_false_iff_ne]; rintro rfl; exact h checkpoint hc
    simp [lastCheckpoint, hc, List.lookup_cons, hne]

/-- A preemption writes the checkpoint the row has, if it has one. -/
def FreshSnapshot : Party → Call → Env → JobRun Party → Prop
  | _, .recordProgress .preempt job _ checkpoint _, _, r => ∀ row ∈ r.shared.jobs,
      ownerMatches job.id job.leaseOwner row = true → row.checkpoint = none ∨ checkpoint = row.checkpoint
  | _, _, _, _ => True

/-- The progress write of a preemption. -/
def Call.isPreempt : Call → Bool
  | .recordProgress .preempt .. => true
  | _ => false

theorem FreshSnapshot.of_isPreempt {p : Party} {c : Call} {env r} (h : c.isPreempt = false) : FreshSnapshot p c env r := by
  unfold FreshSnapshot
  split
  · cases h
  · trivial

section Checkpoints

variable {cond : Party → Call → Env → JobRun Party → Prop} {r : JobRun Party} {p : Party} {c : Call} {env : Env}

/-! ## The record of a context -/

/-- Where the record a context holds after a call comes from. -/
inductive ContextStep (r : JobRun Party) (p : Party) (env : Env) : Call → JobRecord → Prop
  | dispatch {job j row} : claimed (own p r.trace) = some job → applyTransition env.clock job .running {} = .ok j →
      r.shared.job? job.id = some row → casMatches job row = true →
      ContextStep r p env (.transition .dispatch job .running {}) j
  | write {job progress checkpoint lease row} : contextRecord (own p r.trace) = some job →
      r.shared.job? job.id = some row → ownerMatches job.id job.leaseOwner row = true →
      ContextStep r p env (.recordProgress .context job progress checkpoint lease) (progressed job progress checkpoint)
  | keep {c j} : contextRecord (own p r.trace) = some j → claimedId c (exec env c r.shared).1 = none →
      committedCheckpoint c (exec env c r.shared).1 = none → ContextStep r p env c j

theorem context_step (h : JobRuns (Worked cond) r) (hc : Worked cond p c env r) {j}
    (hctx : contextRecord (⟨c, (exec env c r.shared).1⟩ :: own p r.trace) = some j) : ContextStep r p env c j := by
  have hk := worked_keyed h
  cases c with
  | claim => cases hctx
  | transition site job new u =>
    cases site with
    | park => exact .keep hctx rfl rfl
    | dispatch =>
      obtain ⟨rfl, rfl, hclaim⟩ := hc.2.sourced
      rcases hx : transition env job .running {} r.shared with e | ⟨updated, db'⟩
      · simp only [exec, hx, commit, contextRecord] at hctx
        exact .keep hctx rfl rfl
      · simp only [exec, hx, commit, contextRecord] at hctx
        cases hctx
        obtain ⟨hup, row, hrow, hm, -⟩ := transition_ok hk hx
        exact .dispatch hclaim hup hrow hm
  | recordProgress site job progress checkpoint lease =>
    cases site with
    | preempt => exact .keep hctx rfl rfl
    | context =>
      obtain ⟨⟨a, db'⟩, hx⟩ := recordProgress_total env.now job progress checkpoint lease r.shared
      simp only [exec, hx, commit, contextRecord] at hctx
      subst hctx
      obtain ⟨he, -⟩ | ⟨row, hrow, hm, he, -⟩ := recordProgress_ok hk hx
      · cases he
      · cases he; exact .write hc.2.sourced hrow hm
  | _ => exact .keep hctx rfl rfl

/-- The record of a context is leased to the worker that runs it. -/
theorem context_owner (h : JobRuns (Worked cond) r) {j} (hctx : contextRecord (own p r.trace) = some j) :
    ∃ w, p = .worker w ∧ j.leaseOwner = some w := by
  refine Reach.invariant (I := fun r => ∀ p j, contextRecord (own p r.trace) = some j →
    ∃ w, p = .worker w ∧ j.leaseOwner = some w) ?_ ?_ h p j hctx
  · rintro r ⟨-, ht⟩ p j hctx
    rw [ht] at hctx; cases hctx
  · rintro r r' hr hi ⟨q, c, env, hc⟩ p j hctx
    by_cases hq : q = p
    · subst hq
      rw [Run.call_trace, own_self] at hctx
      cases context_step hr hc hctx with
      | dispatch hclaim hup =>
        obtain ⟨-, w, hw, ho⟩ := claimed_owner hr hclaim
        exact ⟨w, hw, (applyTransition_ok hup).2.2.2.2.2.2.1.trans ho⟩
      | write hprev =>
        obtain ⟨w, hw, ho⟩ := hi _ _ hprev
        exact ⟨w, hw, ho⟩
      | keep hprev => exact hi _ _ hprev
    · rw [Run.call_trace, own_other hq] at hctx
      exact hi _ _ hctx

/-! ## What is stored -/

/-- The row has the last checkpoint, and so does the owner's context. -/
structure Checkpointed (r : JobRun Party) : Prop where
  stored : ∀ id checkpoint, lastCheckpoint r.trace id = some checkpoint →
    ∃ row, r.shared.job? id = some row ∧ row.checkpoint = some checkpoint
  context : ∀ w j row checkpoint, contextRecord (own (.worker w) r.trace) = some j → r.shared.job? j.id = some row →
    row.leaseOwner = some w → lastCheckpoint r.trace j.id = some checkpoint → j.checkpoint = some checkpoint

theorem applyTransition_checkpoint {now job new u updated} (h : applyTransition now job new u = .ok updated)
    (hu : u.checkpoint = none) : updated.checkpoint = job.checkpoint := by
  rw [(applyTransition_ok h).2.2.2.2.2.2.2.1, hu]; rfl

/-- A committed checkpoint is stored, under the lease of the context's record. -/
theorem committed_stored (h : JobRuns (Worked cond) r) (hc : Worked cond p c env r) {id checkpoint}
    (hcom : committedCheckpoint c (exec env c r.shared).1 = some (id, checkpoint)) :
    ∃ row, (exec env c r.shared).2.job? id = some row ∧ row.checkpoint = some checkpoint ∧
      ∃ w, p = .worker w ∧ row.leaseOwner = some w := by
  cases c with
  | recordProgress site job progress ck lease =>
    obtain ⟨⟨a, db'⟩, hx⟩ := recordProgress_total env.now job progress ck lease r.shared
    cases site with
    | preempt => cases hcom
    | context =>
      obtain ⟨rfl, -⟩ | ⟨row, hrow, hm, rfl, hs⟩ := recordProgress_ok (worked_keyed h) hx
      · simp only [exec, hx, commit] at hcom
        cases ck <;> cases hcom
      simp only [exec, hx, commit] at hcom ⊢
      obtain _ | ck := ck
      · cases hcom
      cases hcom
      obtain ⟨w, hw, ho⟩ := context_owner h hc.2.sourced
      exact ⟨_, congrArg JobView.row hs.here, (JobRow.checkpoint_of_packed rfl).trans rfl, w, hw,
        (ownerMatches_iff.1 hm).2.1.1.trans ho⟩
  | _ => cases hcom

/-- Any other call keeps the last checkpoint of a job in its row. -/
theorem checkpoint_kept (h : JobRuns (Worked FreshSnapshot) r) (hi : Checkpointed r) (hc : Worked FreshSnapshot p c env r)
    {id checkpoint} (hlast : lastCheckpoint r.trace id = some checkpoint)
    (hno : ∀ ck, committedCheckpoint c (exec env c r.shared).1 ≠ some (id, ck)) :
    ∃ row, (exec env c r.shared).2.job? id = some row ∧ row.checkpoint = some checkpoint := by
  have hk := worked_keyed h
  obtain ⟨row, hrow, hck⟩ := hi.stored id checkpoint hlast
  by_cases hprog : ∃ site job progress ck lease, c = .recordProgress site job progress ck lease
  · obtain ⟨site, job, progress, ck, lease, rfl⟩ := hprog
    obtain ⟨⟨a, db'⟩, hx⟩ := recordProgress_total env.now job progress ck lease r.shared
    obtain ⟨rfl, rfl⟩ | ⟨row₀, hrow₀, hm, rfl, hs⟩ := recordProgress_ok hk hx
    · exact ⟨row, by simpa only [exec, hx, commit] using hrow, hck⟩
    by_cases hid : job.id = id
    · subst hid
      obtain rfl : row = row₀ := Option.some.inj (hrow.symm.trans hrow₀)
      refine ⟨_, by simp only [exec, hx, commit]; exact congrArg JobView.row hs.here, ?_⟩
      refine (JobRow.checkpoint_of_packed rfl).trans ?_
      cases site with
      | preempt =>
        have hfresh := (hc.1 row (Table.lookup_some hrow).1 hm).resolve_left (by simp [hck])
        simp [progressed, hfresh, hck]
      | context =>
        obtain _ | ck := ck
        · -- a write of progress alone: the context has the last checkpoint
          obtain ⟨w, rfl, ho⟩ := context_owner h hc.2.sourced
          exact hi.context w job row checkpoint hc.2.sourced hrow ((ownerMatches_iff.1 hm).2.1.1.trans ho) hlast
        · exact absurd (by simp only [exec, hx, commit, committedCheckpoint]) (hno ck)
    · refine ⟨row, ?_, hck⟩
      simp only [exec, hx, commit]
      rw [← JobDb.view_row, hs.elsewhere id (Ne.symm hid)]
      exact hrow
  · rcases (exec_view env hk hc.addressed).2 id with he | hs
    · exact ⟨row, by rw [← JobDb.view_row, he]; exact hrow, hck⟩
    rw [← JobDb.view_row]
    rw [JobDb.view_eq hrow] at hs
    generalize (exec env c r.shared).2.view id = v at hs
    -- a record that passes the revision check has the row's checkpoint
    have hcas : ∀ {job}, job ∈ c.records → job.id = id → row.revision = job.revision → job.checkpoint = some checkpoint :=
      fun hjob hid hrev => by
        rw [(hc.readFrom h hjob (hid ▸ hrow)).checkpoint hrev.symm, hck]
    cases hs with
    | claim | heartbeat => exact ⟨_, rfl, hck⟩
    | recordProgress => exact absurd ⟨_, _, _, _, _, rfl⟩ hprog
    | @transition site job new u _ _ _ _ hup hid hm =>
      have hjob := hcas (by simp [Call.records]) hid (casMatches_iff.1 hm).2.2
      refine ⟨_, rfl, (JobRow.checkpoint_of_packed rfl).trans ?_⟩
      cases site with
      | dispatch =>
        obtain ⟨-, rfl, -⟩ := hc.2.sourced
        rw [applyTransition_checkpoint hup rfl, hjob]
      | park =>
        obtain ⟨-, manifest, hman, rfl⟩ := hc.2.sourced
        rw [(applyTransition_ok hup).2.2.2.2.2.2.2.1, ← hjob, hman]; rfl
    | complete hup _ hid hm =>
      refine ⟨_, rfl, (JobRow.checkpoint_of_packed rfl).trans ?_⟩
      rw [applyTransition_checkpoint hup rfl, hcas (by simp [Call.records]) hid (casMatches_iff.1 hm).2.2]
    | cancel hup hid hm =>
      refine ⟨_, rfl, (JobRow.checkpoint_of_packed rfl).trans ?_⟩
      rw [applyTransition_checkpoint hup rfl, hcas (by simp [Call.records]) hid (cancelMatches_iff.1 hm).2.2]
    | expire _ _ hup | requeue _ _ hup =>
      refine ⟨_, rfl, (JobRow.checkpoint_of_packed rfl).trans ?_⟩
      rw [applyTransition_checkpoint hup rfl, JobRow.record_checkpoint, hck]

theorem Checkpointed.step (h : JobRuns (Worked FreshSnapshot) r) (hi : Checkpointed r)
    (hc : Worked FreshSnapshot p c env r) : Checkpointed (r.call (fun c env => exec env c) p c env) := by
  refine ⟨fun id checkpoint hlast => ?_, fun w j row' checkpoint hctx hrow' ho hlast => ?_⟩
  · by_cases hcom : ∃ ck, committedCheckpoint c (exec env c r.shared).1 = some (id, ck)
    · obtain ⟨ck, hcom⟩ := hcom
      rw [Run.call_trace, lastCheckpoint_committed hcom] at hlast
      cases hlast
      obtain ⟨row, hrow, hck, -⟩ := committed_stored h hc hcom
      exact ⟨row, hrow, hck⟩
    · push Not at hcom
      rw [Run.call_trace, lastCheckpoint_other hcom] at hlast
      exact checkpoint_kept h hi hc hlast hcom
  · rw [Run.call_trace] at hctx hlast
    -- the lease was `w`'s before the call, unless the call is its claim
    have hbefore := owner_step h hc hrow' ho
    by_cases hp : p = .worker w
    · subst hp
      rw [own_self] at hctx
      cases context_step h hc hctx with
      | @dispatch job _ row hclaim hup hrow hm =>
        rw [lastCheckpoint_other (fun _ hcom => by cases hcom)] at hlast
        rw [(applyTransition_ok hup).2.1] at hlast
        obtain ⟨row₀, hrow₀, hck⟩ := hi.stored _ _ hlast
        obtain rfl : row = row₀ := Option.some.inj (hrow.symm.trans hrow₀)
        rw [applyTransition_checkpoint hup rfl,
          (hc.readFrom h (by simp [Call.records]) hrow).checkpoint (casMatches_iff.1 hm).2.2.symm, hck]
      | @write job progress ck lease row hprev hrow hm =>
        obtain ⟨⟨a, db'⟩, hx⟩ := recordProgress_total env.now job progress ck lease r.shared
        obtain ⟨w', hw', ho'⟩ := context_owner h hprev
        cases hw'
        obtain _ | ck := ck
        · rw [lastCheckpoint_other (fun _ hcom => by
            simp only [exec, hx, commit] at hcom; cases a <;> cases hcom)] at hlast
          exact hi.context w job row checkpoint hprev hrow ((ownerMatches_iff.1 hm).2.1.1.trans ho') hlast
        · obtain ⟨rfl, rfl⟩ | ⟨-, -, -, rfl, -⟩ := recordProgress_ok (worked_keyed h) hx
          · simp only [exec, hx, commit, contextRecord] at hctx
            cases hctx
          exact (lastCheckpoint_committed (congrArg (fun x => committedCheckpoint
            (.recordProgress .context job progress (some ck) lease) (commit r.shared x).1) hx)).symm.trans hlast
      | keep hprev hcl hcom =>
        rw [lastCheckpoint_other (fun _ he => by rw [hcom] at he; cases he)] at hlast
        obtain ⟨hcl', -⟩ | ⟨-, row, hrow, ho'⟩ := hbefore
        · rw [hcl] at hcl'; cases hcl'
        · exact hi.context w j row checkpoint hprev hrow ho' hlast
    · rw [own_other hp] at hctx
      obtain ⟨-, hp'⟩ | ⟨-, row, hrow, ho'⟩ := hbefore
      · exact absurd hp' hp
      by_cases hcom : ∃ ck, committedCheckpoint c (exec env c r.shared).1 = some (j.id, ck)
      · -- no other worker's context writes under this lease
        obtain ⟨ck, hcom⟩ := hcom
        obtain ⟨row₀, hrow₀, -, w', rfl, ho₀⟩ := committed_stored h hc hcom
        obtain rfl : row' = row₀ := Option.some.inj (hrow'.symm.trans hrow₀)
        rw [ho] at ho₀; cases ho₀
        exact absurd rfl hp
      · push Not at hcom
        rw [lastCheckpoint_other hcom] at hlast
        exact hi.context w j row checkpoint hctx hrow ho' hlast

end Checkpoints

/-- **The row of a job has the last checkpoint its owners committed**, after every
call of every run whose preemptions write from fresh records. -/
theorem checkpoint_stored {sys : System} {world} (h : sys.Reach FreshSnapshot world) {id checkpoint}
    (hlast : lastCheckpoint world.run.trace id = some checkpoint) :
    ∃ row, world.run.shared.job? id = some row ∧ row.checkpoint = some checkpoint := by
  have hcheck : Checkpointed world.run := by
    refine Reach.invariant (I := Checkpointed) ?_ ?_ (reach_follows h).1
    · rintro r ⟨-, ht⟩
      refine ⟨fun _ _ hl => ?_, fun _ _ _ _ hctx => ?_⟩
      · rw [ht] at hl; cases hl
      · rw [ht] at hctx; cases hctx
    · rintro r r' hr hi ⟨p, c, env, hc⟩
      exact hi.step hr hc
  exact hcheck.stored id checkpoint hlast

/-- A handler that checkpoints two pages. -/
def pages : Handler := fun _ =>
  .call (.checkpoint [("page", .int 1)]) fun _ => .call (.checkpoint [("page", .int 2)]) fun _ => .ret (.result {})

/-- An interactive worker, which preempts media jobs. -/
def chatLoop : WorkerLoop where
  handlers := [("chat", fun _ => .ret (.result {}))]
  policy := defaultCapacityPolicy
  classes := [.interactiveText]
  leaseSeconds := 60
  revalidator := false
  publishRevalidator := false
  preemptor := true
  budgeted := fun q hq => by rw [List.mem_singleton.1 hq]; exact ⟨_, rfl⟩

/-- `w2` is interactive, the other workers render pages. -/
def pagesSystem : System := ⟨fun w => if w = "w2" then chatLoop else mediaLoop pages, plainHashing, defaultCapacityPolicy⟩

def enqueuesChat : List (Move Party Env Request) :=
  .start (.api 1) (.enqueue { mediaRequest with kind := "chat", capacityClass := .interactiveText }) ::
    List.replicate 4 (.call (.api 1) (.fixed 0 2))

/-- The page a checkpoint is at. -/
def page (checkpoint : Dict) : Option Int := (checkpoint.get "page").int?

/-- The world after the first page. -/
def firstPage : System.World := pagesSystem.runs (enqueuesMedia ++ polls "w1" 1 5)

/-- The first page is stored. -/
theorem checkpoint_stored_page : ∃ checkpoint row, firstPage.run.shared.job? 1 = some row ∧
    row.checkpoint = some checkpoint := by
  have hlast : (lastCheckpoint firstPage.run.trace 1).isSome = true := by decide +kernel
  obtain ⟨checkpoint, hlast⟩ := Option.isSome_iff_exists.1 hlast
  -- nobody preempts
  have hmeets : pagesSystem.machine.Meets (fun _ c _ _ => c.isPreempt = false) System.idleWorld
      (enqueuesMedia ++ polls "w1" 1 5) := by decide +kernel
  exact ⟨checkpoint, checkpoint_stored (Machine.reach_moves System.reach_idle
    (hmeets.mono fun p c env r hc => FreshSnapshot.of_isPreempt hc)) hlast⟩

/-- `w2` reads the running media job at page one; `w1` commits page two; the
preemption of `w2` writes page one over it. -/
def stalePage : System.World :=
  pagesSystem.runs (enqueuesMedia ++ enqueuesChat ++ polls "w1" 1 5 ++ polls "w2" 2 4 ++ calls (.worker "w1") 3 1 ++
    calls (.worker "w2") 4 1)

theorem checkpoint_overwritten : ¬ ∀ (sys : System) world, sys.Reach (fun _ _ _ _ => True) world → ∀ id checkpoint,
    lastCheckpoint world.run.trace id = some checkpoint →
      ∃ row, world.run.shared.job? id = some row ∧ row.checkpoint = some checkpoint := by
  intro h
  have hpage : (lastCheckpoint stalePage.run.trace 1).map page = some (some 2) := by decide +kernel
  obtain ⟨checkpoint, hlast, htwo⟩ := Option.map_eq_some_iff.1 hpage
  obtain ⟨row, hrow, hck⟩ := h pagesSystem stalePage (Machine.reach_moves System.reach_idle Machine.meets_true) 1
    checkpoint hlast
  have hone : (stalePage.run.shared.job? 1).bind (fun row => row.checkpoint.map page) = some (some 1) := by
    decide +kernel
  rw [hrow, Option.bind_some, hck, Option.map_some, htwo] at hone
  cases hone

end MilpbookLM
