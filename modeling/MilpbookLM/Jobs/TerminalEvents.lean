/-
What the event of an ended job says of its row. A completion and the reaper build
the payload from the record they are about to store, so it is the payload of the
row they commit; a cancellation builds it from the record it read, so it shows the
state the job had before (`terminal_event_describes`). All of them take
`aggregate_version` from the record they read, and the row has the next revision.

What carries this is that a record read from a row shows the row as long as the
revision is the one read (`runs_shown`).
-/
import MilpbookLM.Jobs.Terminal

namespace MilpbookLM

open Interleave PgJobRepository

/-! ## The records that are published -/

/-- A record `get` or `claim` has answered. -/
def Fetched {P : Type} (r : JobRun P) (job : JobRecord) : Prop :=
  ∃ ev ∈ r.trace, match ev.call, ev.answer with
    | .get .., .ok found => found = some job
    | .claim .., .ok found => found = some job
    | _, _ => False

/-- Published with the envelope of its use case, about a record that was fetched. -/
def PublishesFetched {P : Type} (c : Call) (r : JobRun P) : Prop :=
  c.Published ∧ c.NonTerminal ∧ match c with
    | .complete job .. => Fetched r job
    | .cancel job .. => Fetched r job
    | _ => True

/-- What a row keeps outside its payload and an event shows. -/
structure SameColumns (row : JobRow) (job : JobRecord) : Prop where
  kind : job.kind = row.kind
  queue : job.queue = row.queue
  attempts : job.attempts = row.attempts

/-- `job` was read from `row`, or from the row at an earlier revision. -/
structure Shown (row : JobRow) (job : JobRecord) : Prop where
  revision : job.revision ≤ row.revision
  columns : job.revision = row.revision → SameColumns row job

theorem shown_record (row : JobRow) : Shown row row.record := by
  obtain ⟨job, hp⟩ := row.packed
  rw [JobRow.record_of_packed hp]
  exact ⟨Nat.le_refl _, fun _ => ⟨rfl, rfl, rfl⟩⟩

/-- A row that a step leaves is at a later revision, or shows what it showed. -/
theorem JobStep.shown {env id c row as es v job} (hs : JobStep env id c ⟨some row, as, es⟩ v) (h : Shown row job) :
    ∃ row', v.row = some row' ∧ Shown row' job := by
  have hrev := h.revision
  cases hs with
  | heartbeat => exact ⟨_, rfl, hrev, fun he => ⟨(h.columns he).kind, (h.columns he).queue, (h.columns he).attempts⟩⟩
  | _ => exact ⟨_, rfl, Nat.le_succ_of_le hrev, fun he => absurd (he ▸ hrev) (Nat.not_succ_le_self _)⟩

section Runs

variable {P : Type} {cond : P → Call → Env → JobRun P → Prop} {r : JobRun P}

/-- A record a call has just fetched. -/
theorem fetched_shown {env c} {db : JobDb} {job : JobRecord} (hk : db.Keyed)
    (h : match c, (exec env c db).1 with
      | .get .., .ok found => found = some job
      | .claim .., .ok found => found = some job
      | _, _ => False) : ∃ row, (exec env c db).2.job? job.id = some row ∧ Shown row job := by
  cases c with
  | get site id =>
    rcases hx : PgJobRepository.get id db with e | found
    · simp [exec, hx] at h
    · simp only [exec, hx] at h ⊢
      obtain ⟨rfl, -⟩ | ⟨row, hrow, rfl⟩ := get_ok hx
      · cases h
      · cases h
        exact ⟨row, by rwa [JobRow.record_id, JobDb.job?_id hrow], shown_record row⟩
  | claim w q lease policy kinds =>
    rcases hx : claim env w q lease policy kinds db with e | ⟨found, db'⟩
    · simp [exec, commit, hx] at h
    · simp only [exec, commit, hx] at h ⊢
      obtain ⟨rfl, -⟩ | ⟨row, -, -, rfl, hs⟩ := claim_ok hk hx
      · cases h
      · cases h
        refine ⟨_, ?_, shown_record _⟩
        rw [← JobDb.view_row, JobRow.record_id]
        exact congrArg JobView.row hs.here
  | _ => simp at h

/-- **A fetched record shows its row as long as the revision is the one read.** -/
theorem runs_shown (hc : ∀ p c env r, cond p c env r → c.Addressed) (h : JobRuns cond r) {job} (hf : Fetched r job) :
    ∃ row, r.shared.job? job.id = some row ∧ Shown row job := by
  refine Reach.invariant (I := fun r => ∀ job, Fetched r job → ∃ row, r.shared.job? job.id = some row ∧ Shown row job)
    ?_ ?_ h job hf
  · rintro r ⟨-, h⟩ job ⟨ev, hev, -⟩
    simp [h] at hev
  · rintro r r' hr hi ⟨p, c, env, hcond⟩ job ⟨ev, hev, hjob⟩
    have hk := runs_keyed hc hr
    rcases List.mem_cons.1 hev with rfl | hev
    · exact fetched_shown hk hjob
    · obtain ⟨row, hrow, hshown⟩ := hi job ⟨ev, hev, hjob⟩
      rcases (exec_view env hk (hc p c env r hcond)).2 job.id with he | hs
      · exact ⟨row, by rw [Run.call_shared, ← JobDb.view_row, he]; exact hrow, hshown⟩
      · rw [JobDb.view_eq hrow] at hs
        exact hs.shown hshown

end Runs

/-! ## What an event says of a row -/

/-- The payload says of `key` what the row says. -/
def EventEnvelope.Shows (e : EventEnvelope) (row : JobRow) (key : String) : Prop :=
  Dict.get e.payload key = Dict.get (jobEventPayload row.record) key

/-- The event describes the row: the aggregate, its version, and every key of the payload. -/
structure EventEnvelope.Describes (e : EventEnvelope) (row : JobRow) : Prop where
  kind : e.aggregateKind = jobAggregateKind
  id : e.aggregateId = row.id
  version : e.aggregateVersion = row.revision
  payload : ∀ key, e.Shows row key

/-- What an event says of the row that was committed with it. -/
structure EventEnvelope.Tells (e : EventEnvelope) (row : JobRow) : Prop where
  id : e.aggregateId = row.id
  version : e.aggregateVersion + 1 = row.revision
  /-- Everything, unless the job was cancelled. -/
  payload : row.status ≠ .cancelled → ∀ key, e.Shows row key
  /-- Then not the state. -/
  state : row.status = .cancelled → ¬ e.Shows row "state"
  /-- But all else, up to the reason it may have been parked for. -/
  others : row.status = .cancelled → ∀ key, key ≠ "state" → key ≠ "waiting_reason" → e.Shows row key

/-- `payload[key] = value` writes `key`. -/
theorem Dict.get_set_self {d : Dict} {key value} : Dict.get (Dict.set d key value) key = value := by
  unfold Dict.set
  split
  next h =>
    induction d with
    | nil => simp at h
    | cons kv d ih =>
      by_cases hkv : kv.1 = key
      · simp [Dict.get, hkv]
      · have := ih (by simpa [hkv] using h)
        simpa [Dict.get, hkv] using this
  next h =>
    have hnone : d.find? (·.1 == key) = none := by
      rw [List.find?_eq_none]
      intro kv hkv he
      exact h (List.any_eq_true.2 ⟨kv, hkv, he⟩)
    simp [Dict.get, List.find?_append, hnone]

/-- And no other key. -/
theorem Dict.get_set_other {d : Dict} {key value k} (hk : k ≠ key) : Dict.get (Dict.set d key value) k = Dict.get d k := by
  have hk' : (key == k) = false := by simpa using hk.symm
  have hmap : (d.map fun kv => if kv.1 == key then (key, value) else kv).find? (·.1 == k) = d.find? (·.1 == k) := by
    induction d with
    | nil => rfl
    | cons kv d ih =>
      by_cases hkv : kv.1 = key
      · subst hkv
        simpa [hk'] using ih
      · have hne : (kv.1 == key) = false := by simpa using hkv
        simp only [List.map_cons, hne, Bool.false_eq_true, if_false, List.find?_cons, ih]
  unfold Dict.set
  split
  · rw [Dict.get, hmap, Dict.get]
  · simp [Dict.get, List.find?_append, hk']

theorem get_state {job : JobRecord} : Dict.get (jobEventPayload job) "state" = .str job.state.value := rfl

theorem get_cancelReason {job : JobRecord} : Dict.get (jobEventPayload job) "cancel_reason" = .ofStr? job.cancelReason := by
  unfold jobEventPayload
  cases job.progress <;> cases job.cancelReason <;> rfl

/-- What a transition gives the fields that have columns of their own. -/
theorem applyTransition_columns {now job new u updated} (h : applyTransition now job new u = .ok updated) :
    updated.kind = u.kind.getD job.kind ∧ updated.queue = u.queue.getD job.queue := by
  unfold applyTransition at h
  split at h
  · cases h
  · split at h
    · cases h
    · cases h; exact ⟨rfl, rfl⟩

/-- Two transitions of a record by the same fields show the same. -/
theorem jobEventPayload_transition {now now' job new u final updated} (h : applyTransition now job new u = .ok final)
    (h' : applyTransition now' job new u = .ok updated) : jobEventPayload final = jobEventPayload updated := by
  unfold applyTransition at h h'
  split at h
  · cases h
  next hmem =>
    split at h
    · cases h
    next hu =>
      rw [if_neg hmem, if_neg hu] at h'
      cases h; cases h'; rfl

/-- A cancelled record has the reason it was cancelled for. -/
theorem cancelReason_cancelled {now job reason updated}
    (h : applyTransition now job .cancelled { cancelReason := some (some reason) } = .ok updated) :
    updated.cancelReason = some reason := by
  unfold applyTransition at h
  split at h
  · cases h
  · split at h
    · cases h
    · cases h; rfl

/-- A row that stores a moved record shows it. -/
theorem jobEventPayload_record {row : JobRow} {updated : JobRecord} (hp : row.payload = packPayload updated)
    (hid : updated.id = row.id) (hc : SameColumns row updated)
    (hst : updated.state = unpackLogicalState row.status updated.waitingReason) :
    jobEventPayload row.record = jobEventPayload updated := by
  rw [JobRow.record_of_packed hp]
  simp [jobEventPayload, hid, hc.kind, hc.queue, hc.attempts, hst]

/-- A cancellation leaves what an event shows, up to the state, its marker and the reason. -/
theorem get_jobEventPayload_cancelled {now job reason updated key}
    (h : applyTransition now job .cancelled { cancelReason := some (some reason) } = .ok updated) (hs : key ≠ "state")
    (hw : key ≠ "waiting_reason") (hr : key ≠ "cancel_reason") :
    Dict.get (jobEventPayload job) key = Dict.get (jobEventPayload updated) key := by
  unfold applyTransition at h
  split at h
  · cases h
  · split at h
    · cases h
    · cases h
      have hs' : ("state" == key) = false := by simpa using hs.symm
      have hw' : ("waiting_reason" == key) = false := by simpa using hw.symm
      have hr' : ("cancel_reason" == key) = false := by simpa using hr.symm
      simp only [jobEventPayload, Dict.get, List.find?_append, List.find?_cons, hs', hw', hr', Option.getD_none,
        Option.getD_some, List.find?_nil]
      cases job.cancelReason with
      | none => rfl
      | some => simp [hr']

/-! ## The ways to end a job -/

section Endings

variable {now now' t t' : Time} {job final updated : JobRecord} {row : JobRow} {u : FieldUpdates}

/-- A row that ends shows the record it stores. -/
theorem jobEventPayload_finishRow {new status} (h : applyTransition now job new u = .ok updated)
    (hu : u.kind = none ∧ u.queue = none ∧ u.attempts = none) (hid : row.id = job.id) (hc : SameColumns row job)
    (hst : status.state = new) (hend : status.terminal = true) :
    jobEventPayload (finishRow t status updated row).record = jobEventPayload updated := by
  obtain ⟨-, hid', hstate, -, hattempts', -⟩ := applyTransition_ok h
  obtain ⟨hkind, hqueue, hattempts⟩ := hu
  obtain ⟨hkind', hqueue'⟩ := applyTransition_columns h
  have hcols : SameColumns (finishRow t status updated row) updated := by
    refine ⟨?_, ?_, ?_⟩
    · exact (hkind'.trans (by rw [hkind]; rfl)).trans hc.kind
    · exact (hqueue'.trans (by rw [hqueue]; rfl)).trans hc.queue
    · exact (hattempts'.trans (by rw [hattempts]; rfl)).trans hc.attempts
  refine jobEventPayload_record rfl (hid'.trans hid.symm) hcols ?_
  have hne : status ≠ .queued := by
    intro hq
    rw [hq] at hend; cases hend
  rw [hstate, ← hst]
  exact (unpackLogicalState_of_ne hne _).symm

/-- A completion builds the payload from the record it stores, but for the timestamps. -/
theorem tells_complete {succeeded rr ec status eventId}
    (hst : JobStatus.ofState? (completionState succeeded) = some status)
    (hfinal : applyTransition now job (completionState succeeded) { resultRef := some rr, errorCode := some ec } = .ok final)
    (hup : applyTransition now' job (completionState succeeded) { resultRef := some rr, errorCode := some ec }
      = .ok updated) (hm : casMatches job row = true) (hc : SameColumns row job) :
    (completeEnvelope job final succeeded t eventId).Tells (finishRow t' status updated row) := by
  obtain ⟨hid, -, hrev⟩ := casMatches_iff.1 hm
  have hstate : status.state = completionState succeeded ∧ status.terminal = true ∧ status ≠ .cancelled := by
    cases succeeded <;> cases hst <;> decide
  refine ⟨hid.symm, by simp [completeEnvelope, finishRow, hrev], fun _ key => ?_,
    fun h => absurd h hstate.2.2, fun h => absurd h hstate.2.2⟩
  rw [EventEnvelope.Shows, jobEventPayload_finishRow hup ⟨rfl, rfl, rfl⟩ hid hc hstate.1 hstate.2.1,
    ← jobEventPayload_transition hfinal hup]
  rfl

/-- So does the reaper, which stores the same record. -/
theorem tells_expired {env} (hup : applyTransition now row.record .failed { errorCode := some (some "lease_expired") }
    = .ok updated) : (expiredEnvelope env row.record updated).Tells (finishRow t .failed updated row) := by
  refine ⟨JobRow.record_id, by simp [expiredEnvelope, finishRow], fun _ key => ?_, fun h => (by cases h),
    fun h => (by cases h)⟩
  rw [EventEnvelope.Shows, jobEventPayload_finishRow hup ⟨rfl, rfl, rfl⟩ JobRow.record_id.symm
    ((shown_record row).columns (by simp)) rfl rfl]
  rfl

/-- A cancellation builds it from the record it read, and sets the reason. -/
theorem tells_cancelled {reason eventId}
    (hup : applyTransition now job .cancelled { cancelReason := some (some reason) } = .ok updated)
    (hm : cancelMatches job row = true) (hc : SameColumns row job) :
    (cancelEnvelope job reason t eventId).Tells (finishRow t' .cancelled updated row) := by
  obtain ⟨hid, -, hrev⟩ := cancelMatches_iff.1 hm
  have hpay : jobEventPayload (finishRow t' .cancelled updated row).record = jobEventPayload updated :=
    jobEventPayload_finishRow hup ⟨rfl, rfl, rfl⟩ hid hc rfl rfl
  refine ⟨hid.symm, by simp [cancelEnvelope, finishRow, hrev], fun h => absurd rfl h, fun _ h => ?_,
    fun _ key hs hw => ?_⟩
  · rw [EventEnvelope.Shows, hpay] at h
    simp only [cancelEnvelope] at h
    rw [Dict.get_set_other (by decide)] at h
    -- the state of the record is one that a cancellation may leave
    have hmem := (applyTransition_ok hup).1
    rw [get_state, get_state, (applyTransition_ok hup).2.2.1] at h
    simp only [Json.str.injEq] at h
    revert hmem h
    cases job.state <;> decide
  · rw [EventEnvelope.Shows, hpay]
    simp only [cancelEnvelope]
    by_cases hr : key = "cancel_reason"
    · subst hr
      rw [Dict.get_set_self, get_cancelReason, cancelReason_cancelled hup]
      rfl
    · rw [Dict.get_set_other hr]
      exact get_jobEventPayload_cancelled hup hs hw hr

end Endings

/-! ## Every run -/

/-- What has ended was told of. -/
def Told (v : JobView) : Prop := Announced v ∧ ∀ row, v.row = some row → ∀ e ∈ v.events, e.payload.Tells row

/-- Nothing is told of a job that has not ended. -/
theorem told_of_announced {row as es} (h : Announced ⟨some row, as, es⟩) (hend : row.status.terminal = false) :
    Told ⟨some row, as, es⟩ := by
  refine ⟨h, fun row' _ e he => ?_⟩
  rw [announced_iff hend] at h
  rw [h] at he; cases he

/-- The one event of a job that ends. -/
theorem told_ended {row : JobRow} {as es seq} {e : EventEnvelope} (h : Announced ⟨some row, as, es ++ [e.row seq]⟩)
    (hes : es = []) (he : e.Tells row) : Told ⟨some row, as, es ++ [e.row seq]⟩ := by
  subst hes
  refine ⟨h, fun row' hrow e' he' => ?_⟩
  cases hrow
  rw [List.nil_append, List.mem_singleton] at he'
  subst he'; exact he

/-- **A step keeps what is told of a job.** -/
theorem Told.step {env id c v v'} (hp : c.Published) (hn : c.NonTerminal)
    (hread : ∀ row job, v.row = some row → job.id = id → (∃ new rr ec e, c = .complete job new rr ec e) ∨
      (∃ reason e, c = .cancel job reason e) → Shown row job) (h : Told v) (hs : JobStep env id c v v') : Told v' := by
  have hann := h.1.step hp hn hs
  cases hs with
  | enqueue => exact told_of_announced hann (newRow_not_terminal hp)
  | claim => exact told_of_announced hann rfl
  | heartbeat hm => exact told_of_announced hann (JobStatus.inFlight_not_terminal (ownerMatches_iff.1 hm).2.2)
  | recordProgress _ hm => exact told_of_announced hann (JobStatus.inFlight_not_terminal (ownerMatches_iff.1 hm).2.2)
  | transition => exact told_of_announced hann ((physicalStatus_terminal _).trans hn)
  | requeue => exact told_of_announced hann rfl
  | @complete job new rr ec e updated status row as es seq hup hst hid hm =>
    obtain ⟨succeeded, now, eventId, final, rfl, hfinal, rfl⟩ := hp
    have hes : es = [] := (announced_iff (not_terminal_of_cas hup hm)).1 h.1
    have hshown := hread row job rfl hid (.inl ⟨_, _, _, _, rfl⟩)
    exact told_ended hann hes (tells_complete hst hfinal hup hm (hshown.columns (casMatches_iff.1 hm).2.2.symm))
  | @cancel job reason e updated row as es seq hup hid hm =>
    obtain ⟨now, eventId, rfl⟩ := hp
    have hes : es = [] := (announced_iff (cancelMatches_iff.1 hm).2.1).1 h.1
    have hshown := hread row job rfl hid (.inr ⟨_, _, rfl⟩)
    exact told_ended hann hes (tells_cancelled hup hm (hshown.columns (cancelMatches_iff.1 hm).2.2.symm))
  | @expire failed row as es seq hexp _ hup =>
    have hes : es = [] := (announced_iff (JobStatus.inFlight_not_terminal (expired_inFlight hexp))).1 h.1
    exact told_ended hann hes (tells_expired hup)

theorem PublishesFetched.addressed {P : Type} {c : Call} {r : JobRun P} (h : PublishesFetched c r) : c.Addressed :=
  h.1.addressed

/-- **Every job of every run is told of.** -/
theorem runs_told {P : Type} {r : JobRun P} (h : JobRuns (fun _ c _ r => PublishesFetched c r) r) (id : Uuid) :
    Told (r.shared.view id) := by
  have hc : ∀ (_ : P) (c : Call) (_ : Env) (r : JobRun P), PublishesFetched c r → c.Addressed :=
    fun _ _ _ _ h => h.addressed
  refine Reach.invariant (I := fun r => ∀ id, Told (r.shared.view id)) ?_ ?_ h id
  · intro r hr id
    rw [hr.1]
    exact ⟨rfl, fun _ h => by cases h⟩
  · intro r r' hr hi hstep id
    obtain ⟨p, c, env, hcond⟩ := hstep
    rcases (exec_view env (runs_keyed hc hr) hcond.addressed).2 id with he | hs
    · simpa only [Run.call_shared, he] using hi id
    · refine (hi id).step hcond.1 hcond.2.1 (fun row job hrow hid hcall => ?_) hs
      have hf : Fetched r job := by
        rcases hcall with ⟨_, _, _, _, rfl⟩ | ⟨_, _, rfl⟩ <;> exact hcond.2.2
      obtain ⟨row', hrow', hshown⟩ := runs_shown hc hr hf
      rw [hid] at hrow'
      obtain rfl : row = row' := Option.some.inj (hrow.symm.trans hrow')
      exact hshown

/-- **No event of an ended job describes the row it was committed with**: it carries
the revision before. The payload is that of the row if and only if the job was not
cancelled; of a cancelled job it shows all but the state, and the reason for which
the job may have been parked. -/
theorem terminal_event_describes {P : Type} {r : JobRun P} (h : JobRuns (fun _ c _ r => PublishesFetched c r) r)
    {row e} (hrow : row ∈ r.shared.jobs) (he : e ∈ r.shared.outboxEvents) (hid : e.aggregateId = row.id) :
    ¬ e.payload.Describes row ∧ e.payload.aggregateVersion + 1 = row.revision ∧
      ((∀ key, e.payload.Shows row key) ↔ row.status ≠ .cancelled) ∧
      ∀ key, key ≠ "state" → key ≠ "waiting_reason" → e.payload.Shows row key := by
  have hc : ∀ (_ : P) (c : Call) (_ : Env) (r : JobRun P), PublishesFetched c r → c.Addressed :=
    fun _ _ _ _ h => h.addressed
  have hjob : r.shared.job? row.id = some row := Table.lookup_of_mem (runs_keyed hc h) hrow
  have htold := (runs_told h row.id).2 row hjob e (List.mem_filter.2 ⟨he, by simpa using hid⟩)
  refine ⟨fun hd => ?_, htold.version, ⟨fun hall hcancelled => ?_, htold.payload⟩, fun key hs hw => ?_⟩
  · have hversion := hd.version
    have htold := htold.version
    omega
  · exact htold.state hcancelled (hall "state")
  · by_cases hcancelled : row.status = .cancelled
    · exact htold.others hcancelled key hs hw
    · exact htold.payload hcancelled key

/-- The same job, read to be cancelled. -/
def getMedia : Call := .get .cancelling 1

def readAndCancelled : JobRun Unit :=
  emptyRun.calls () [(enqueueMedia, .fixed 0 1), (getMedia, .fixed 1 2), (cancelMedia, .fixed 1 2)]

theorem runs_readAndCancelled : JobRuns (fun _ c _ r => PublishesFetched c r) readAndCancelled := by
  have henq : JobRuns (fun _ c _ r => PublishesFetched c r) (emptyRun.calls () [(enqueueMedia, .fixed 0 1)]) :=
    runs_call runs_empty enqueueMedia (.fixed 0 1) ⟨published_enqueueMedia, trivial, trivial⟩
  have hget := runs_call (p := ()) henq getMedia (.fixed 1 2) ⟨trivial, trivial, trivial⟩
  exact runs_call hget cancelMedia (.fixed 1 2) ⟨⟨1, 2, rfl⟩, trivial, _, List.mem_cons_self, rfl⟩

def cancelledMedia : OutboxEvent := (cancelEnvelope mediaRow.record "user_requested" 1 2).row 1

/-- The event of a cancelled job. -/
theorem terminal_event_describes_cancelled :
    ¬ cancelledMedia.payload.Describes cancelledRow ∧
      cancelledMedia.payload.aggregateVersion + 1 = cancelledRow.revision ∧
      ((∀ key, cancelledMedia.payload.Shows cancelledRow key) ↔ cancelledRow.status ≠ .cancelled) ∧
      ∀ key, key ≠ "state" → key ≠ "waiting_reason" → cancelledMedia.payload.Shows cancelledRow key :=
  terminal_event_describes runs_readAndCancelled (List.mem_singleton.2 rfl) (List.mem_singleton.2 rfl) rfl

/-- It says that the job is queued. -/
theorem cancelled_shows_queued :
    ¬ ∀ r : JobRun Unit, JobRuns (fun _ c _ r => PublishesFetched c r) r → ∀ row ∈ r.shared.jobs,
      ∀ e ∈ r.shared.outboxEvents, e.aggregateId = row.id → e.payload.Describes row := by
  intro h
  have hd := h readAndCancelled runs_readAndCancelled cancelledRow (List.mem_singleton.2 rfl) cancelledMedia
    (List.mem_singleton.2 rfl) rfl
  have hstate : Json.str "queued" = Json.str "cancelled" := hd.payload "state"
  exact absurd (Json.str.inj hstate) (by decide)

end MilpbookLM
