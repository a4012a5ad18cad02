/-
Lease ownership. The row names as owner the worker that claimed the job last
(`owner_claimant`): claims set it, the dispatch keeps it, every way out of flight
clears it. A publication is guarded by the revision it read, so it ends a job on
behalf of its owner exactly as far as what it read was owned by the reader, and
the two re-reads of the loop do not look at the owner.
-/
import MilpbookLM.Workers.Protocol

namespace MilpbookLM

open Interleave PgJobRepository

/-! ## Claims -/

/-- The job a claim answered. -/
def claimedId : (c : Call) → Answer c → Option Uuid
  | .claim .., .ok (some job) => some job.id
  | _, _ => none

/-- The party whose claim of the job was the last. -/
def claimant (t : List (Event Party Call Answer)) (id : Uuid) : Option Party :=
  (t.find? fun ev => claimedId ev.call ev.answer = some id).map (·.party)

theorem claimant_cons {ev : Event Party Call Answer} {t id} : claimant (ev :: t) id =
    if claimedId ev.call ev.answer = some id then some ev.party else claimant t id := by
  simp only [claimant, List.find?_cons]
  split <;> simp_all

/-- A claim, by whom it is made, and what it answers. -/
def ClaimedBy (p : Party) : (c : Call) → Answer c → Prop
  | .claim w .., a => p = .worker w ∧ ∀ job : JobRecord, a = Except.ok (some job) →
      job.state = .leased ∧ job.leaseOwner = some w
  | _, _ => True

section Owners

variable {cond : Party → Call → Env → JobRun Party → Prop} {r : JobRun Party} {p : Party} {c : Call} {env : Env}

theorem Worked.addressed (h : Worked cond p c env r) : c.Addressed := h.2.published.addressed

theorem worked_keyed (h : JobRuns (Worked cond) r) : r.shared.Keyed := runs_keyed (fun _ _ _ _ hc => hc.addressed) h

/-- What a call passes are records of their rows. -/
theorem Worked.readFrom (h : JobRuns (Worked cond) r) (hc : Worked cond p c env r) {job row} (hjob : job ∈ c.records)
    (hrow : r.shared.job? job.id = some row) : ReadFrom row job := by
  obtain ⟨row', hrow', hread⟩ := runs_known (fun _ _ _ _ hc => ⟨hc.2.published, fun _ => hc.known⟩) h (hc.known hjob)
  obtain rfl : row = row' := Option.some.inj (hrow.symm.trans hrow')
  exact hread

theorem Worked.nonTerminal (h : Worked cond p c env r) : c.NonTerminal := by
  cases c with
  | transition site job new u =>
    have hsrc := h.2.sourced
    cases site <;> (rw [show new = _ from hsrc.1]; rfl)
  | _ => trivial

/-- A job with an owner is in flight. -/
theorem owner_inFlight (h : JobRuns (Worked cond) r) {id row w} (hrow : r.shared.job? id = some row)
    (ho : row.leaseOwner = some w) : row.inFlight = true := by
  have hcons : ∀ row, (r.shared.view id).row = some row → leaseConsistent row = true := by
    refine runs_view (I := fun v => ∀ row, v.row = some row → leaseConsistent row = true)
      (fun _ _ _ _ hc => hc.addressed) (fun _ h => by cases h) (fun p c env r id v hc hi hs => ?_) h id
    generalize r.shared.view id = v₀ at hi hs
    cases hs with
    | transition hup =>
      intro _ he; cases he
      exact leaseConsistent_transitionRow hc.nonTerminal _
    | recordProgress _ hm | heartbeat hm =>
      intro _ he; cases he
      have hf := (ownerMatches_iff.1 hm).2.2
      simpa [leaseConsistent, progressRow, extendRow, JobRow.inFlight] using .inr hf
    | _ => intro _ he; cases he; rfl
  simpa [leaseConsistent, ho] using hcons row hrow

/-- The record of a claim is leased to the worker that claimed. -/
theorem claimed_owner (h : JobRuns (Worked cond) r) {job} (hc : claimed (own p r.trace) = some job) :
    job.state = .leased ∧ ∃ w, p = .worker w ∧ job.leaseOwner = some w := by
  obtain ⟨w, q, lease, policy, kinds, hev⟩ := claimed_mem hc
  have hgood := Runs.event (G := ClaimedBy) (fun p c env r hr hc => by
    cases c with
    | claim => exact ⟨hc.2.sourced.1, exec_admitted (worked_keyed hr) (.claim ..)⟩
    | _ => trivial) h (mem_own.1 hev)
  exact ⟨(hgood.2 job rfl).1, w, hgood.1, (hgood.2 job rfl).2⟩

/-- **One call and the owner**: a claim of the worker's sets it, all else keeps or clears it. -/
theorem owner_step (h : JobRuns (Worked cond) r) (hc : Worked cond p c env r) {id row' w}
    (hrow' : (exec env c r.shared).2.job? id = some row') (ho : row'.leaseOwner = some w) :
    (claimedId c (exec env c r.shared).1 = some id ∧ p = .worker w) ∨
      claimedId c (exec env c r.shared).1 ≠ some id ∧ ∃ row, r.shared.job? id = some row ∧ row.leaseOwner = some w := by
  have hk := worked_keyed h
  by_cases hcl : ∃ w q lease policy kinds, c = .claim w q lease policy kinds
  · obtain ⟨w', q, lease, policy, kinds, rfl⟩ := hcl
    rcases hx : claim env w' q lease policy kinds r.shared with e | ⟨_ | job, db'⟩
    · simp only [exec, hx, commit] at hrow'
      exact .inr ⟨by simp [exec, hx, commit, claimedId], row', hrow', ho⟩
    · obtain ⟨-, rfl⟩ | ⟨row, -, -, he, -⟩ := claim_ok hk hx
      · simp only [exec, hx, commit] at hrow'
        exact .inr ⟨by simp [exec, hx, commit, claimedId], row', hrow', ho⟩
      · cases he
    · obtain ⟨he, -⟩ | ⟨row, hrow, -, he, hs⟩ := claim_ok hk hx
      · cases he
      cases he
      simp only [exec, hx, commit, claimedId, JobRow.record_id, leaseRow_id, ne_eq, Option.some.injEq] at hrow' ⊢
      by_cases hid : row.id = id
      · subst hid
        rw [← JobDb.view_row, hs.here] at hrow'
        cases hrow'; cases ho
        exact .inl ⟨rfl, hc.2.sourced.1⟩
      · rw [← JobDb.view_row, hs.elsewhere id (Ne.symm hid)] at hrow'
        exact .inr ⟨hid, row', hrow', ho⟩
  · have hid : claimedId c (exec env c r.shared).1 = none := by
      cases c <;> first | rfl | exact absurd ⟨_, _, _, _, _, rfl⟩ hcl
    refine .inr ⟨by simp [hid], ?_⟩
    rw [← JobDb.view_row] at hrow'
    rcases (exec_view env hk hc.addressed).2 id with he | hs
    · rw [he] at hrow'; exact ⟨row', hrow', ho⟩
    rcases hv : r.shared.view id with ⟨row, as, es⟩
    have hrow : r.shared.job? id = row := congrArg JobView.row hv
    rw [hv] at hs
    generalize (exec env c r.shared).2.view id = v' at hs hrow'
    cases hs with
    | claim => exact absurd ⟨_, _, _, _, _, rfl⟩ hcl
    | heartbeat | recordProgress => cases hrow'; exact ⟨_, hrow, ho⟩
    | @transition site job new _ _ _ _ _ hup hjid hm =>
      cases hrow'
      have hsrc := hc.2.sourced
      cases site with
      | park => rw [show new = _ from hsrc.1] at ho; cases ho
      | dispatch =>
        -- the record is the claim's, of the row as it stands
        obtain ⟨rfl, rfl, hclaim⟩ := hsrc
        obtain ⟨-, hst, hrev⟩ := casMatches_iff.1 hm
        have hread := hc.readFrom h (by simp [Call.records]) (hjid ▸ hrow)
        refine ⟨_, hrow, ?_⟩
        rw [← hread.leaseOwner hrev.symm (by rw [JobRow.inFlight, hst, (claimed_owner h hclaim).1]; rfl), ← ho]
        exact (applyTransition_ok hup).2.2.2.2.2.2.1.symm
    | _ => cases hrow'; cases ho

/-- **The owner is the worker that claimed the job last.** -/
theorem owner_claimant (h : JobRuns (Worked cond) r) {id row w} (hrow : r.shared.job? id = some row)
    (ho : row.leaseOwner = some w) : claimant r.trace id = some (.worker w) := by
  refine Reach.invariant (I := fun r => ∀ row, r.shared.job? id = some row → row.leaseOwner = some w →
    claimant r.trace id = some (.worker w)) ?_ ?_ h row hrow ho
  · rintro r ⟨hs, -⟩ row hrow
    rw [hs] at hrow; cases hrow
  · rintro r r' hr hi ⟨p, c, env, hc⟩ row hrow ho
    rw [Run.call_trace, claimant_cons]
    obtain ⟨hcl, rfl⟩ | ⟨hcl, row₀, hrow₀, ho₀⟩ := owner_step hr hc hrow ho
    · exact if_pos hcl
    · rw [if_neg hcl]; exact hi row₀ hrow₀ ho₀

/-! ## Publication -/

/-- What is read to publish a state that the table allows is leased to the reader. -/
def ReadsOwn : Party → Call → Env → JobRun Party → Prop
  | .worker w, .get site id, _, r => ∀ row ∈ r.shared.job? id, ∀ new ∈ site.publishes,
      new ∈ transitions row.logicalState → row.leaseOwner = some w
  | _, _, _, _ => True

instance {p c env r} : Decidable (ReadsOwn p c env r) := by unfold ReadsOwn; split <;> infer_instance

/-- What `ReadsOwn` makes of an answer. -/
def ReadOwn : Party → (c : Call) → Answer c → Prop
  | .worker w, .get site _, a => ∀ job : JobRecord, a = Except.ok (some job) → ∀ new ∈ site.publishes,
      new ∈ transitions job.state → job.leaseOwner = some w ∧ (physicalStatus job.state).inFlight = true
  | _, _, _ => True

/-- `w` holds the lease of the job, by the last claim it made and the last made of the job. -/
structure HoldsLease (r : JobRun Party) (w : String) (id : Uuid) : Prop where
  owner : ∃ row, r.shared.job? id = some row ∧ row.leaseOwner = some w
  claimant : claimant r.trace id = some (.worker w)
  held : heldJob (own (.worker w) r.trace) = some id

theorem worked_readOwn (h : JobRuns (Worked ReadsOwn) r) {a} (hev : (⟨p, c, a⟩ : Event Party Call Answer) ∈ r.trace) :
    ReadOwn p c a := by
  refine Runs.event (G := ReadOwn) (fun p c env r hr hc => ?_) h hev
  cases p with
  | api => trivial
  | worker w =>
    cases c with
    | get site id =>
      intro job hjob new hnew hmem
      obtain ⟨_, -⟩ | ⟨row, hrow, he⟩ := get_ok hjob
      · contradiction
      cases he
      rw [JobRow.record_state] at hmem ⊢
      have ho := hc.1 row hrow new hnew hmem
      refine ⟨JobRow.record_leaseOwner.trans ho, ?_⟩
      rw [JobRow.physicalStatus_logicalState]
      exact owner_inFlight hr hrow ho
    | _ => trivial

/-- What a worker may publish and the table allows is a record of its own lease. -/
theorem published_owner (h : JobRuns (Worked ReadsOwn) r) {w job new} (hp : Publishes (own (.worker w) r.trace) job new)
    (hmem : new ∈ transitions job.state) :
    job.leaseOwner = some w ∧ (physicalStatus job.state).inFlight = true := by
  obtain ⟨-, hclaim | ⟨site, hsite, id, hev⟩⟩ := hp
  · obtain ⟨hst, w', hw, ho⟩ := claimed_owner h hclaim
    cases hw
    exact ⟨ho, by rw [hst]; rfl⟩
  · exact worked_readOwn h (mem_own.1 hev) job rfl new hsite hmem

end Owners

/-- **A worker that ends a job holds its lease, in every run whose re-reads find
the job leased to the reader.** -/
theorem complete_holdsLease {sys : System} {world} (h : sys.Reach ReadsOwn world) {w job new rr ec e k}
    (hcall : world.procs (.worker w) = .call (.complete job new rr ec e) k) {env updated}
    (hok : (exec env (.complete job new rr ec e) world.run.shared).1 = .ok updated) :
    HoldsLease world.run w job.id := by
  obtain ⟨hruns, hal⟩ := reach_follows h
  have hf := hal w
  rw [hcall] at hf
  have hc : Follows (.worker w) (own (.worker w) world.run.trace) (.complete job new rr ec e) := hf.1
  have hpub : Publishes (own (.worker w) world.run.trace) job new := hc.sourced
  obtain ⟨db', hx⟩ := commit_ok hok
  obtain ⟨hup, _, row, _, -, hrow, hm, -⟩ := complete_ok (worked_keyed hruns) hc.published.addressed hx
  obtain ⟨-, hst, hrev⟩ := casMatches_iff.1 hm
  obtain ⟨ho, hin⟩ := published_owner hruns hpub (applyTransition_ok hup).1
  -- the record is of this row as it stands
  have hworked : Worked ReadsOwn (.worker w) (.complete job new rr ec e) env world.run := ⟨trivial, hc⟩
  have hread := hworked.readFrom hruns (by simp [Call.records]) hrow
  have ho' : row.leaseOwner = some w := by
    rw [← hread.leaseOwner hrev.symm (by rw [JobRow.inFlight, hst]; exact hin), ho]
  exact ⟨⟨row, hrow, ho'⟩, owner_claimant hruns hrow ho', hpub.1⟩

/-- `w` is about to complete a job, and the completion goes through. -/
def completes (env : Env) (world : System.World) (w : String) : Bool :=
  match world.procs (.worker w) with
  | .call (.complete job new rr ec e) _ => (complete env job new rr ec e world.run.shared).isOk
  | _ => false

theorem completes_call (env : Env) (world : System.World) (w : String) (h : completes env world w = true) :
    ∃ job new rr ec e k updated, world.procs (.worker w) = .call (.complete job new rr ec e) k ∧
      (exec env (.complete job new rr ec e) world.run.shared).1 = .ok updated := by
  unfold completes at h
  split at h
  next job new rr ec e k hcall =>
    rcases hx : complete env job new rr ec e world.run.shared with e' | ⟨updated, db'⟩
    · rw [hx] at h; cases h
    · exact ⟨job, new, rr, ec, e, k, updated, hcall, congrArg (fun x => (commit world.run.shared x).1) hx⟩
  next => cases h

/-- One worker claims, runs and is about to publish. -/
theorem complete_holdsLease_media :
    ∃ id, HoldsLease (mediaSystem.runs (enqueuesMedia ++ polls "w1" 1 6)).run "w1" id := by
  obtain ⟨job, _, _, _, _, _, _, hcall, hok⟩ := completes_call (.fixed 2 3)
    (mediaSystem.runs (enqueuesMedia ++ polls "w1" 1 6)) "w1" (by decide +kernel)
  exact ⟨job.id, complete_holdsLease (Machine.reach_moves System.reach_idle (by decide +kernel)) hcall hok⟩

/-- The lease of `w1` expires while its handler runs, `w2` claims the job and
starts it, and `w1` re-reads and completes it. -/
def stolen : System.World :=
  mediaSystem.runs (enqueuesMedia ++ polls "w1" 1 4 ++ polls "w2" 70000000 4 ++ calls (.worker "w1") 70000001 2)

theorem completes_without_lease : ¬ ∀ (sys : System) world, sys.Reach (fun _ _ _ _ => True) world →
    ∀ w job new rr ec e k, world.procs (.worker w) = .call (.complete job new rr ec e) k → ∀ env updated,
      (exec env (.complete job new rr ec e) world.run.shared).1 = .ok updated → HoldsLease world.run w job.id := by
  intro h
  obtain ⟨job, _, _, _, _, _, _, hcall, hok⟩ := completes_call (.fixed 70000002 3) stolen "w1" (by decide +kernel)
  have hlease := h mediaSystem stolen (Machine.reach_moves System.reach_idle Machine.meets_true) _ _ _ _ _ _ _ hcall _ _ hok
  have hjob : heldJob (own (.worker "w1") stolen.run.trace) = some 1 := by decide +kernel
  have hclaimant : claimant stolen.run.trace 1 = some (.worker "w2") := by decide +kernel
  have hid : job.id = 1 := Option.some.inj (hlease.held.symm.trans hjob)
  rw [hid] at hlease
  exact absurd (hlease.claimant.symm.trans hclaimant) (by decide)

end MilpbookLM
