/-
Claims of several workers at once, statement by statement, against the capacity
budgets.

A claim is a transaction of four statements at READ COMMITTED: its query sees
the committed rows and locks the rows of its batch, and its writes are seen by
others at its commit only (`ClaimWorld.Step`). The counts of the query and the
row locks protect different rows: two claims whose batches do not meet count the
same free slot. `ClaimWorld.ahead` counts the jobs of the claims still open as
in flight, and `inFlight_le_caps` says that the caps hold as long as no query
overlooks one of them (`Foresees`).
-/
import Mathlib.Data.List.Flatten
import MilpbookLM.Jobs.Runs

namespace MilpbookLM

open Interleave PgJobRepository

/-! ## Claim transactions -/

/-- The statements of a claim that are done: its query; then its UPDATE, with
the row as written; then its INSERT of the attempt. -/
inductive ClaimStage
  | selected
  | updated (row : JobRow)
  | recorded (row : JobRow) (attempt : JobAttempt)

/-- An open claim transaction. -/
structure ClaimTxn where
  env : Env
  workerId : String
  leaseSeconds : Int
  /-- The rows its query locked. -/
  locks : List Uuid
  /-- The job its query chose. -/
  chosen : Option Uuid
  stage : ClaimStage

/-- The committed tables and the claims still open. -/
structure ClaimWorld where
  db : JobDb
  txns : List ClaimTxn

namespace ClaimTxn

/-- The row a claim has written. -/
def written (t : ClaimTxn) : Option JobRow :=
  match t.stage with
  | .selected => none
  | .updated row | .recorded row _ => some row

/-- `row` as the claim's UPDATE leaves it. -/
def leased (t : ClaimTxn) (row : JobRow) : JobRow :=
  if claimMatches row.id row then leaseRow t.env.now t.workerId t.leaseSeconds row else row

end ClaimTxn

/-- The job whose row a call updates, or waits for when it is locked. -/
def Call.target : Call → Option Uuid
  | .heartbeat id _ _ => some id
  | .recordProgress _ job _ _ _ => some job.id
  | .transition _ job _ _ => some job.id
  | .complete job _ _ _ _ => some job.id
  | .cancel job _ _ => some job.id
  | _ => none

/-- The calls beside claims: of a transition, only one of a job in flight. -/
def Call.Frees : Call → Prop
  | .claim .. => False
  | .transition _ job _ _ => (physicalStatus job.state).inFlight = true
  | _ => True

namespace ClaimWorld

def locked (s : ClaimWorld) (id : Uuid) : Bool := s.txns.any fun t => t.locks.contains id

/-- The jobs the open claims have chosen. -/
def claimed (s : ClaimWorld) : List Uuid := s.txns.filterMap (·.chosen)

/-- The committed rows, the jobs of the open claims counted as leased. -/
def ahead (s : ClaimWorld) : List JobRow :=
  Table.update (fun row => s.claimed.contains row.id) (fun row => { row with status := .leased }) s.db.jobs

/-- One statement of some transaction; `cond` is about the queries of claims. -/
inductive Step (policy : CapacityPolicy) (cond : Env → CapacityClass → List String → ClaimWorld → Prop) :
    ClaimWorld → ClaimWorld → Prop
  /-- The query of a claim: committed rows, locked rows skipped. -/
  | select {s budget locks chosen} (env : Env) (w : String) (q : CapacityClass) (lease : Int) (kinds : List String) :
      kinds.isEmpty = false → policy.budget q = .ok budget →
      claimSelect env.plan s.locked budget q kinds s.db.jobs = .ok (locks, chosen) → cond env q kinds s →
      Step policy cond s
        ⟨s.db, ⟨env, w, lease, locks.map JobRow.id, chosen.map JobRow.id, .selected⟩ :: s.txns⟩
  | update {db row} (pre : List ClaimTxn) (t : ClaimTxn) (post : List ClaimTxn) :
      t.stage = .selected → t.chosen.bind db.job? = some row →
      Step policy cond ⟨db, pre ++ t :: post⟩ ⟨db, pre ++ { t with stage := .updated (t.leased row) } :: post⟩
  | insertAttempt {db row} (pre : List ClaimTxn) (t : ClaimTxn) (post : List ClaimTxn) :
      t.stage = .updated row →
      Step policy cond ⟨db, pre ++ t :: post⟩ ⟨db, pre ++ { t with
        stage := .recorded row ⟨row.id, db.maxAttempt row.id + 1, some t.workerId, .running, none⟩ } :: post⟩
  /-- The row is read back, and the claim commits. -/
  | commit {db row attempt} (pre : List ClaimTxn) (t : ClaimTxn) (post : List ClaimTxn) :
      t.stage = .recorded row attempt →
      Step policy cond ⟨db, pre ++ t :: post⟩ ⟨{ db with
        jobs := Table.put JobRow.id row db.jobs, jobAttempts := db.jobAttempts ++ [attempt] }, pre ++ post⟩
  /-- The claim ends without writes: it chose no job, or its connection is lost. -/
  | close {db} (pre : List ClaimTxn) (t : ClaimTxn) (post : List ClaimTxn) :
      Step policy cond ⟨db, pre ++ t :: post⟩ ⟨db, pre ++ post⟩
  /-- Any other call, once no claim holds the row it is about. -/
  | call {s} (env : Env) (c : Call) : c.Published → c.Frees →
      (∀ id, c.target = some id → s.locked id = false) →
      Step policy cond s ⟨(exec env c s.db).2, s.txns⟩

/-- The states reached from empty tables. -/
abbrev Reach (policy : CapacityPolicy) (cond : Env → CapacityClass → List String → ClaimWorld → Prop) :
    ClaimWorld → Prop :=
  Interleave.Reach (· = ⟨{}, []⟩) (Step policy cond)

/-- A query overlooks no open claim: each row of its batch that fits the budget
by the committed rows fits it with the jobs of the open claims counted too. -/
def Foresees (policy : CapacityPolicy) (env : Env) (q : CapacityClass) (kinds : List String) (s : ClaimWorld) : Prop :=
  ∀ budget batch, policy.budget q = .ok budget → candidates env.plan s.locked q kinds s.db.jobs = .ok batch →
    ∀ row ∈ batch, fitsBudget budget q s.db.jobs row = true → fitsBudget budget q s.ahead row = true

end ClaimWorld

/-! ## One claim alone -/

section Alone

variable {env : Env} {policy : CapacityPolicy} {db db' : JobDb}

/-- Under the key of a row that is there, to put a row is to update that one. -/
theorem put_eq_update (hk : db.Keyed) {p : JobRow → Bool} {f row} (hrow : db.job? row.id = some row)
    (hp : ∀ r, p r = true → r.id = row.id) (hprow : p row = true) (hf : (f row).id = row.id) :
    Table.put JobRow.id (f row) db.jobs = Table.update p f db.jobs := by
  refine List.map_congr_left fun r hr => ?_
  by_cases hid : r.id = row.id
  · have hr' := Table.lookup_of_mem hk hr
    rw [hid] at hr'
    obtain rfl : row = r := Option.some.inj (hrow.symm.trans hr')
    simp [hprow, hf]
  · have hno : p r ≠ true := fun hpr => hid (hp r hpr)
    simp [hid, hf, hno]

/-- The statements of a claim, with nothing between them, are `claim`. -/
theorem ClaimWorld.Reach.claim {cond w q lease kinds job} (hr : ClaimWorld.Reach policy cond ⟨db, []⟩) (hk : db.Keyed)
    (hcond : cond env q kinds ⟨db, []⟩) (h : claim env w q lease policy kinds db = .ok (some job, db')) :
    ClaimWorld.Reach policy cond ⟨db', []⟩ := by
  unfold PgJobRepository.claim at h
  split at h
  · cases h
  next hkinds =>
    simp only [Except.bind_ok_iff, pure, Except.pure, Prod.exists] at h
    obtain ⟨budget, hb, locks, chosen, hsel, h⟩ := h
    cases chosen with
    | none => cases h
    | some c =>
      obtain ⟨hlocks, hchosen⟩ := claimSelect_ok hsel
      obtain ⟨hmem, hc, -⟩ := hlocks c (hchosen c rfl).1
      have hrow : db.job? c.id = some c := Table.lookup_of_mem hk hmem
      have hm : claimMatches c.id c = true := by
        simp only [claimable, Bool.and_eq_true, decide_eq_true_eq] at hc
        simp [claimMatches, hc.1.1]
      simp only [Except.bind_ok_iff, Prod.exists] at h
      obtain ⟨n, db₁, hupd, h⟩ := h
      obtain ⟨-, rfl⟩ := JobDb.updateJobs_ok hupd
      have hdb' : db' = recordAttempt c.id w
          { db with jobs := Table.update (claimMatches c.id) (leaseRow env.now w lease) db.jobs } := by
        split at h
        · simp only [JobRow.jobFromRow_eq] at h
          cases h; rfl
        · cases h
      let t : ClaimTxn := ⟨env, w, lease, locks.map JobRow.id, some c.id, .selected⟩
      have ht : t.leased c = leaseRow env.now w lease c := by simp [ClaimTxn.leased, t, hm]
      have hsel := hr.next (.select env w q lease kinds (by simpa using hkinds) hb hsel hcond)
      have hupd := hsel.next (.update [] t [] rfl (show t.chosen.bind db.job? = some c from hrow))
      have hins := hupd.next (.insertAttempt [] _ [] rfl)
      have hcommit := hins.next (.commit [] _ [] rfl)
      rw [hdb', recordAttempt, ← put_eq_update hk hrow (fun _ => claimMatches_id) hm rfl, ← ht]
      rwa [show (t.leased c).id = c.id by rw [ht]; rfl] at hcommit

end Alone

/-! ## Counting ahead -/

namespace ClaimWorld

/-- In flight, or about to be. -/
def taken (s : ClaimWorld) (row : JobRow) : Bool := row.inFlight || s.claimed.contains row.id

/-- The jobs taken of a class, or of a class and a user. -/
def count (s : ClaimWorld) (sel : CapacityClass → Option Uuid → Bool) : Nat :=
  s.db.jobs.countP fun row => s.taken row && sel row.queue row.requestedByUserId

variable {s s' : ClaimWorld} {q : CapacityClass} {user : Option Uuid} {sel : CapacityClass → Option Uuid → Bool}

theorem countP_ahead (sel : CapacityClass → Option Uuid → Bool) :
    (s.ahead.countP fun row => row.inFlight && sel row.queue row.requestedByUserId) = s.count sel := by
  rw [ahead, Table.update, List.countP_map]
  refine List.countP_congr fun row _ => ?_
  simp only [Function.comp, taken]
  split
  next h => simp only [h, Bool.or_true, Bool.true_and, JobRow.inFlight, JobStatus.inFlight]
  next h => simp only [Bool.eq_false_iff.2 h, Bool.or_false]

theorem countInFlight_ahead : countInFlight q s.ahead = s.count fun q' _ => q' = q := by
  rw [← countP_ahead, countInFlight]
  exact List.countP_congr fun row _ => by simp [and_comm]

theorem countInFlightForUser_ahead :
    countInFlightForUser q user s.ahead = s.count fun q' user' => q' = q && sqlEq user user' := by
  rw [← countP_ahead, countInFlightForUser]
  exact List.countP_congr fun row _ => by simp [and_comm, and_assoc, and_left_comm]

/-- What is in flight is taken. -/
theorem countInFlight_le : countInFlight q s.db.jobs ≤ s.count fun q' _ => q' = q :=
  List.countP_mono_left fun row _ => by simp +contextual [taken]

theorem countInFlightForUser_le :
    countInFlightForUser q user s.db.jobs ≤ s.count fun q' user' => q' = q && sqlEq user user' :=
  List.countP_mono_left fun row _ => by simp +contextual [taken]

/-- A row taken now was taken before, unless it is one of `ks`. -/
theorem count_le (ks : List Uuid) (hk : s'.db.Keyed)
    (h : ∀ id row', s'.db.job? id = some row' → s'.taken row' = true → sel row'.queue row'.requestedByUserId = true →
      id ∉ ks → ∃ row, s.db.job? id = some row ∧ s.taken row = true ∧ row.queue = row'.queue ∧
        row.requestedByUserId = row'.requestedByUserId) : s'.count sel ≤ s.count sel + ks.length := by
  refine Table.countP_le_add ks hk fun row' hrow' hp hks => ?_
  simp only [Bool.and_eq_true] at hp
  obtain ⟨row, hrow, ht, hq, hu⟩ := h _ row' (Table.lookup_of_mem hk hrow') hp.1 hp.2 hks
  exact ⟨row, (Table.lookup_some hrow).1, (Table.lookup_some hrow).2, by simp [ht, hq, hu, hp.2]⟩

end ClaimWorld

/-! ## The invariant -/

/-- What an open claim holds: its job is queued and locked, and the row it wrote
is that job leased. -/
structure ClaimTxn.Holds (db : JobDb) (t : ClaimTxn) : Prop where
  chosen : ∀ id, t.chosen = some id → id ∈ t.locks ∧ ∃ row, db.job? id = some row ∧ row.status = .queued
  written : ∀ row', t.written = some row' → ∃ row, t.chosen = some row.id ∧ db.job? row.id = some row ∧
    row' = leaseRow t.env.now t.workerId t.leaseSeconds row

/-- The jobs taken are within the caps. -/
def ClaimWorld.Within (policy : CapacityPolicy) (s : ClaimWorld) : Prop :=
  ∀ q budget, policy.budgets q = some budget → s.count (fun q' _ => q' = q) ≤ budget.maxConcurrent ∧
    ∀ user, s.count (fun q' user' => q' = q && sqlEq user user') ≤ budget.maxConcurrentPerUser

structure ClaimWorld.Sound (policy : CapacityPolicy) (s : ClaimWorld) : Prop where
  keyed : s.db.Keyed
  /-- No row is locked twice. -/
  locks : (s.txns.flatMap (·.locks)).Nodup
  holds : ∀ t ∈ s.txns, t.Holds s.db
  within : s.Within policy

section Sound

variable {policy : CapacityPolicy} {s s' : ClaimWorld} {db db' : JobDb} {t t' : ClaimTxn}

/-- A claim holds what it held when its job's row is as it was. -/
theorem ClaimTxn.Holds.frame (h : t.Holds db) (hdb : ∀ id, t.chosen = some id → db'.job? id = db.job? id) :
    t.Holds db' where
  chosen id hid := by rw [hdb id hid]; exact h.chosen id hid
  written row' hrow' := by
    obtain ⟨row, hid, hrow, he⟩ := h.written row' hrow'
    exact ⟨row, hid, by rw [hdb _ hid]; exact hrow, he⟩

/-- The count stays within the caps when nothing more is taken. -/
theorem ClaimWorld.Within.keep (h : s.Within policy) (hk : s'.db.Keyed)
    (hle : ∀ id row', s'.db.job? id = some row' → s'.taken row' = true →
      ∃ row, s.db.job? id = some row ∧ s.taken row = true ∧ row.queue = row'.queue ∧
        row.requestedByUserId = row'.requestedByUserId) : s'.Within policy := by
  intro q budget hb
  obtain ⟨hclass, huser⟩ := h q budget hb
  have hcount : ∀ sel, s'.count sel ≤ s.count sel := fun sel =>
    ClaimWorld.count_le [] hk fun id row' hrow' ht _ _ => hle id row' hrow' ht
  exact ⟨(Int.ofNat_le.2 (hcount _)).trans hclass, fun user => (Int.ofNat_le.2 (hcount _)).trans (huser user)⟩

/-- The batch of a query is distinct rows that no claim holds. -/
theorem candidates_nodup {plan : Plan} {locked q kinds rows batch} (hk : Table.Keyed JobRow.id rows)
    (h : candidates plan locked q kinds rows = .ok batch) : (batch.map JobRow.id).Nodup := by
  simp only [candidates, Except.bind_ok_iff, pure, Except.pure, Except.ok.injEq] at h
  obtain ⟨_, _, rfl⟩ := h
  have hsort : ((plan.sort (rows.filter (claimable q kinds))).map JobRow.id).Nodup :=
    ((plan.sort_perm _).map _).nodup_iff.2 (hk.sublist (List.filter_sublist.map _))
  exact hsort.sublist (((List.take_sublist _ _).trans List.filter_sublist).map _)

/-- One job more is taken, where there is room for it. -/
theorem ClaimWorld.count_select {c : JobRow} {sel : CapacityClass → Option Uuid → Bool} {cap : Int}
    (hk : s.db.Keyed) (hc : s.db.job? c.id = some c) (ht : t.chosen = some c.id) (hcap : s.count sel ≤ cap)
    (hroom : sel c.queue c.requestedByUserId = true → s.count sel < cap) :
    (ClaimWorld.mk s.db (t :: s.txns)).count sel ≤ cap := by
  have htaken : ∀ {row : JobRow}, row.id ≠ c.id → (ClaimWorld.mk s.db (t :: s.txns)).taken row = true →
      s.taken row = true := fun hid h => by simpa [ClaimWorld.taken, ClaimWorld.claimed, ht, hid] using h
  by_cases hsel : sel c.queue c.requestedByUserId = true
  · have hle : (ClaimWorld.mk s.db (t :: s.txns)).count sel ≤ s.count sel + 1 := by
      refine ClaimWorld.count_le [c.id] hk fun id row hrow h _ hks => ⟨row, hrow, htaken ?_ h, rfl, rfl⟩
      rw [JobDb.job?_id hrow]; simpa using hks
    have := hroom hsel
    omega
  · have hle : (ClaimWorld.mk s.db (t :: s.txns)).count sel ≤ s.count sel := by
      refine ClaimWorld.count_le [] hk fun id row hrow h hsel' _ => ⟨row, hrow, htaken (fun hid => ?_) h, rfl, rfl⟩
      have hrow' : s.db.job? c.id = some row := by rw [← hid, JobDb.job?_id hrow]; exact hrow
      obtain rfl : c = row := Option.some.inj (hc.symm.trans hrow')
      exact hsel hsel'
    omega

/-- The query of a claim that overlooks no other. -/
theorem ClaimWorld.Sound.select {env : Env} {w q lease kinds budget locks chosen} (h : s.Sound policy)
    (hb : policy.budget q = .ok budget)
    (hsel : claimSelect env.plan s.locked budget q kinds s.db.jobs = .ok (locks, chosen))
    (hc : s.Foresees policy env q kinds) :
    ClaimWorld.Sound policy
      ⟨s.db, ⟨env, w, lease, locks.map JobRow.id, chosen.map JobRow.id, .selected⟩ :: s.txns⟩ := by
  obtain ⟨hlocks, hchosen⟩ := claimSelect_ok hsel
  have hbatch : candidates env.plan s.locked q kinds s.db.jobs = .ok locks := by
    simp only [claimSelect, Except.bind_ok_iff, pure, Except.pure, Except.ok.injEq] at hsel
    obtain ⟨_, hbatch, he⟩ := hsel
    cases he; exact hbatch
  refine ⟨h.keyed, ?_, fun t ht => ?_, ?_⟩
  · simp only [List.flatMap_cons]
    refine (candidates_nodup h.keyed hbatch).append h.locks fun id hid hlocked => ?_
    obtain ⟨row, hrow, rfl⟩ := List.mem_map.1 hid
    obtain ⟨t, ht, hmem⟩ := List.mem_flatMap.1 hlocked
    have hfree := (hlocks row hrow).2.2
    rw [ClaimWorld.locked, List.any_eq_false] at hfree
    exact hfree t ht (by simpa using hmem)
  · rcases List.mem_cons.1 ht with rfl | ht
    · refine ⟨fun id hid => ?_, fun row' hrow' => by cases hrow'⟩
      obtain ⟨c, hc', rfl⟩ := Option.map_eq_some_iff.1 hid
      obtain ⟨hmem, hcl, -⟩ := hlocks c (hchosen c hc').1
      simp only [claimable, Bool.and_eq_true, decide_eq_true_eq] at hcl
      exact ⟨List.mem_map_of_mem (hchosen c hc').1, c, Table.lookup_of_mem h.keyed hmem, hcl.1.1⟩
    · exact h.holds t ht
  · rcases chosen with _ | c
    · exact h.within.keep h.keyed fun id row hrow ht => ⟨row, hrow, by simpa [ClaimWorld.taken, ClaimWorld.claimed] using ht, rfl, rfl⟩
    obtain ⟨hin, hfit⟩ := hchosen c rfl
    obtain ⟨hmem, hcl, -⟩ := hlocks c hin
    simp only [claimable, Bool.and_eq_true, decide_eq_true_eq] at hcl
    have hfit := hc budget locks hb hbatch c hin hfit
    simp only [fitsBudget, Bool.and_eq_true, decide_eq_true_eq, ClaimWorld.countInFlight_ahead,
      ClaimWorld.countInFlightForUser_ahead] at hfit
    intro q' budget' hb'
    obtain ⟨hclass, huser⟩ := h.within q' budget' hb'
    have hrow : s.db.job? c.id = some c := Table.lookup_of_mem h.keyed hmem
    have hbudget : c.queue = q' → q = q' ∧ budget = budget' := by
      rintro rfl
      refine ⟨hcl.1.2.symm, ?_⟩
      simpa [CapacityPolicy.budget, hcl.1.2 ▸ hb'] using hb.symm
    refine ⟨ClaimWorld.count_select h.keyed hrow rfl hclass fun hroom => ?_, fun user =>
      ClaimWorld.count_select h.keyed hrow rfl (huser user) fun hroom => ?_⟩
    · obtain ⟨rfl, rfl⟩ := hbudget (by simpa using hroom)
      exact hfit.1
    · simp only [Bool.and_eq_true, decide_eq_true_eq, sqlEq] at hroom
      obtain ⟨rfl, rfl⟩ := hbudget hroom.1
      rw [hroom.2.2]
      exact hfit.2

/-- The next statement of a claim. -/
theorem ClaimWorld.Sound.advance {pre post} (h : ClaimWorld.Sound policy ⟨db, pre ++ t :: post⟩)
    (hlocks : t'.locks = t.locks) (hchosen : t'.chosen = t.chosen) (ht' : t'.Holds db) :
    ClaimWorld.Sound policy ⟨db, pre ++ t' :: post⟩ := by
  refine ⟨h.keyed, ?_, fun u hu => ?_, h.within.keep h.keyed fun id row hrow ht => ⟨row, hrow, ?_, rfl, rfl⟩⟩
  · simpa [hlocks] using h.locks
  · rcases List.mem_append.1 hu with hu | hu
    · exact h.holds u (by simp [hu])
    · rcases List.mem_cons.1 hu with rfl | hu
      · exact ht'
      · exact h.holds u (by simp [hu])
  · simpa [ClaimWorld.taken, ClaimWorld.claimed, List.filterMap_cons, hchosen] using ht

theorem ClaimWorld.Sound.close {pre post} (h : ClaimWorld.Sound policy ⟨db, pre ++ t :: post⟩) :
    ClaimWorld.Sound policy ⟨db, pre ++ post⟩ := by
  have hsub : (pre ++ post).Sublist (pre ++ t :: post) := (List.sublist_cons_self t post).append_left pre
  refine ⟨h.keyed, h.locks.sublist (hsub.flatMap _), fun u hu => h.holds u (hsub.subset hu), ?_⟩
  refine h.within.keep h.keyed fun id row hrow ht => ⟨row, hrow, ?_, rfl, rfl⟩
  simp only [ClaimWorld.taken, ClaimWorld.claimed, Bool.or_eq_true, List.contains_iff_mem] at ht ⊢
  exact ht.imp_right fun hmem => (hsub.filterMap _).subset hmem

/-- A commit makes its job's row what it was about to be. -/
theorem ClaimWorld.Sound.commit {pre post row' attempt} (h : ClaimWorld.Sound policy ⟨db, pre ++ t :: post⟩)
    (ht : t.stage = .recorded row' attempt) :
    ClaimWorld.Sound policy ⟨{ db with
      jobs := Table.put JobRow.id row' db.jobs, jobAttempts := db.jobAttempts ++ [attempt] }, pre ++ post⟩ := by
  obtain ⟨row, hid, hrow, rfl⟩ := (h.holds t (by simp)).written row' (by simp [ClaimTxn.written, ht])
  have hput : ∀ id, Table.lookup JobRow.id (Table.put JobRow.id (leaseRow t.env.now t.workerId t.leaseSeconds row)
      db.jobs) id = if id = row.id then some (leaseRow t.env.now t.workerId t.leaseSeconds row) else db.job? id := by
    intro id
    rw [Table.lookup_put]
    split
    next he => subst he; rw [show Table.lookup JobRow.id db.jobs row.id = some row from hrow]; simp
    next hne =>
      rcases hl : Table.lookup JobRow.id db.jobs id with _ | r
      · exact hl.symm
      · have hr : r.id ≠ row.id := by rw [(Table.lookup_some hl).2]; exact hne
        rw [JobDb.job?, hl]; simp [hr]
  -- no other claim has chosen the job
  have hother : ∀ u ∈ pre ++ post, u.chosen ≠ some row.id := by
    intro u hu hchosen
    have hlock := ((h.holds t (by simp)).chosen _ hid).1
    have hlock' := ((h.holds u (by rcases List.mem_append.1 hu with h | h <;> simp [h])).chosen _ hchosen).1
    have hperm : (t :: (pre ++ post)).Perm (pre ++ t :: post) := List.perm_middle.symm
    have hnd := ((hperm.flatMap_right (·.locks)).nodup_iff).2 h.locks
    rw [List.flatMap_cons, List.nodup_append] at hnd
    exact hnd.2.2 _ hlock _ (List.mem_flatMap.2 ⟨u, hu, hlock'⟩) rfl
  have hk : Table.Keyed JobRow.id (Table.put JobRow.id (leaseRow t.env.now t.workerId t.leaseSeconds row) db.jobs) :=
    Table.keyed_put h.keyed
  refine ⟨hk, h.close.locks, fun u hu => (h.close.holds u hu).frame fun id hchosen => ?_, ?_⟩
  · have hne : id ≠ row.id := by rintro rfl; exact hother u hu hchosen
    exact (hput id).trans (if_neg hne)
  · refine h.within.keep hk fun id r hr ht' => ?_
    change Table.lookup _ _ _ = _ at hr
    rw [hput] at hr
    split at hr
    next he =>
      cases hr; subst he
      exact ⟨row, hrow, by simp [ClaimWorld.taken, ClaimWorld.claimed, hid], rfl, rfl⟩
    next =>
      refine ⟨r, hr, ?_, rfl, rfl⟩
      simp only [ClaimWorld.taken, ClaimWorld.claimed, Bool.or_eq_true, List.contains_iff_mem] at ht' ⊢
      exact ht'.imp_right fun hmem => (((List.sublist_cons_self t post).append_left pre).filterMap _).subset hmem

/-- A job in flight after a call that is no claim was in flight before. -/
theorem JobStep.inFlight_of {env id c v v' row'} (hp : c.Published) (hf : c.Frees) (h : JobStep env id c v v')
    (hrow : v'.row = some row') (hin : row'.inFlight = true) :
    ∃ row, v.row = some row ∧ row.inFlight = true ∧ row.queue = row'.queue ∧
      row.requestedByUserId = row'.requestedByUserId := by
  cases h with
  | enqueue =>
    cases hrow
    obtain ⟨h, r, id', rfl | ⟨now, hw⟩⟩ := hp
    · cases hin
    · obtain ⟨-, -, hst, -⟩ := applyTransition_ok hw
      simp [JobRow.inFlight, newRow, hst, physicalStatus, JobStatus.inFlight] at hin
  | claim => exact hf.elim
  | heartbeat hm | recordProgress _ hm => cases hrow; exact ⟨_, rfl, (ownerMatches_iff.1 hm).2.2, rfl, rfl⟩
  | transition _ _ hm =>
    cases hrow
    refine ⟨_, rfl, ?_, rfl, rfl⟩
    rw [JobRow.inFlight, (casMatches_iff.1 hm).2.1]; exact hf
  | complete _ hst =>
    cases hrow
    obtain ⟨succeeded, _, _, _, rfl, -, -⟩ := hp
    cases succeeded <;> cases hst <;> cases hin
  | cancel | expire | requeue => cases hrow; cases hin

/-- A call changes a queued job only if it is about it. -/
theorem JobStep.target_eq {env id c row as es v'} (hf : c.Frees) (h : JobStep env id c ⟨some row, as, es⟩ v')
    (hq : row.status = .queued) : c.target = some id := by
  cases h with
  | claim => exact hf.elim
  | heartbeat => rfl
  | recordProgress hid | transition _ hid | complete _ _ hid | cancel _ hid => exact congrArg some hid
  | expire hexp | requeue hexp =>
    simp [expired, JobRow.inFlight, hq, JobStatus.inFlight] at hexp

/-- A call beside the claims. -/
theorem ClaimWorld.Sound.call {env c} (h : s.Sound policy) (hp : c.Published) (hf : c.Frees)
    (hfree : ∀ id, c.target = some id → s.locked id = false) :
    ClaimWorld.Sound policy ⟨(exec env c s.db).2, s.txns⟩ := by
  obtain ⟨hk, hview⟩ := exec_view env h.keyed hp.addressed
  -- the jobs of the open claims are queued and locked
  have hkeep : ∀ t ∈ s.txns, ∀ id, t.chosen = some id → (exec env c s.db).2.job? id = s.db.job? id := by
    intro t ht id hid
    obtain ⟨hlock, row, hrow, hq⟩ := (h.holds t ht).chosen id hid
    rcases hview id with he | hs
    · exact congrArg JobView.row he
    · rw [JobDb.view_eq hrow] at hs
      have := hfree id (hs.target_eq hf hq)
      rw [ClaimWorld.locked, List.any_eq_false] at this
      exact absurd (by simpa using hlock) (this t ht)
  refine ⟨hk, h.locks, fun t ht => (h.holds t ht).frame (hkeep t ht), h.within.keep hk fun id row hrow ht => ?_⟩
  by_cases hcl : id ∈ s.claimed
  · obtain ⟨t, ht', hid⟩ := List.mem_filterMap.1 hcl
    rw [hkeep t ht' id hid] at hrow
    exact ⟨row, hrow, by simp [ClaimWorld.taken, JobDb.job?_id hrow, hcl], rfl, rfl⟩
  · have hin : row.inFlight = true := by
      simp only [ClaimWorld.taken, Bool.or_eq_true, List.contains_iff_mem, JobDb.job?_id hrow] at ht
      exact ht.resolve_right hcl
    rcases hview id with he | hs
    · have hrow' : s.db.job? id = some row := (congrArg JobView.row he).symm.trans hrow
      exact ⟨row, hrow', by simp [ClaimWorld.taken, hin], rfl, rfl⟩
    · obtain ⟨row₀, hrow₀, hin₀, hq, hu⟩ := hs.inFlight_of hp hf hrow hin
      exact ⟨row₀, hrow₀, by simp [ClaimWorld.taken, hin₀], hq, hu⟩

/-- What one statement keeps. -/
theorem ClaimWorld.Sound.step (h : s.Sound policy) (hst : ClaimWorld.Step policy (ClaimWorld.Foresees policy) s s') :
    s'.Sound policy := by
  cases hst with
  | select env w q lease kinds _ hb hsel hc => exact h.select hb hsel hc
  | @update db row pre t post ht hrow =>
    have hold := h.holds t (by simp)
    obtain ⟨id, hid, hjob⟩ := Option.bind_eq_some_iff.1 hrow
    refine h.advance rfl rfl ?_
    refine ⟨hold.chosen, fun row' hrow' => ?_⟩
    obtain ⟨-, row₀, hrow₀, hq⟩ := hold.chosen id hid
    obtain rfl : row₀ = row := Option.some.inj (hrow₀.symm.trans hjob)
    cases hrow'
    refine ⟨row₀, by rw [JobDb.job?_id hjob]; exact hid, by rw [JobDb.job?_id hjob]; exact hjob, ?_⟩
    simp [ClaimTxn.leased, claimMatches, hq]
  | @insertAttempt db row pre t post ht =>
    have hold := h.holds t (by simp)
    refine h.advance rfl rfl ⟨hold.chosen, fun row' hrow' => hold.written row' ?_⟩
    rw [ClaimTxn.written, ht]; exact hrow'
  | commit pre t post ht => exact h.commit ht
  | close pre t post => exact h.close
  | call env c hp hf hfree => exact h.call hp hf hfree

/-- **The caps bound what is in flight in every run whose queries overlook no open claim.** -/
theorem inFlight_le_caps (hcaps : ∀ q budget, policy.budgets q = some budget →
      0 < budget.maxConcurrent ∧ 0 < budget.maxConcurrentPerUser)
    (h : ClaimWorld.Reach policy (ClaimWorld.Foresees policy) s) {q budget} (hb : policy.budgets q = some budget) :
    countInFlight q s.db.jobs ≤ budget.maxConcurrent ∧
      ∀ user, countInFlightForUser q user s.db.jobs ≤ budget.maxConcurrentPerUser := by
  have hs : s.Sound policy := by
    refine Interleave.Reach.invariant (I := fun s => s.Sound policy) ?_ (fun _ _ _ hi hst => hi.step hst) h
    rintro s rfl
    refine ⟨List.nodup_nil, List.nodup_nil, by simp, fun q budget hb => ?_⟩
    simpa [ClaimWorld.count] using ⟨(hcaps q budget hb).1.le, (hcaps q budget hb).2.le⟩
  obtain ⟨hclass, huser⟩ := hs.within q budget hb
  exact ⟨(Int.ofNat_le.2 ClaimWorld.countInFlight_le).trans hclass,
    fun user => (Int.ofNat_le.2 ClaimWorld.countInFlightForUser_le).trans (huser user)⟩

end Sound

/-- With no other claim open there is none to overlook. -/
theorem ClaimWorld.foresees_alone {policy env q kinds} {db : JobDb} :
    ClaimWorld.Foresees policy env q kinds ⟨db, []⟩ := by
  intro budget batch _ _ row _ hfit
  have hahead : (ClaimWorld.mk db []).ahead = db.jobs := Table.update_none fun _ _ => rfl
  rwa [hahead]

theorem defaultCapacityPolicy_pos : ∀ q budget, defaultCapacityPolicy.budgets q = some budget →
    0 < budget.maxConcurrent ∧ 0 < budget.maxConcurrentPerUser := by
  intro q budget h
  cases q <;> cases h <;> decide

/-- One worker claims. -/
theorem inFlight_le_caps_media :
    countInFlight .media (mediaRun.calls () [(claimMedia, .fixed 1 2)]).shared.jobs ≤ (1 : Int) ∧
      ∀ user, countInFlightForUser .media user (mediaRun.calls () [(claimMedia, .fixed 1 2)]).shared.jobs ≤ (1 : Int) :=
  inFlight_le_caps (s := ⟨(mediaRun.calls () [(claimMedia, .fixed 1 2)]).shared, []⟩) defaultCapacityPolicy_pos
    (.claim (.next (.start rfl)
      (.call (.fixed 0 1) enqueueMedia published_enqueueMedia trivial fun _ h => by cases h))
      (by decide +kernel) ClaimWorld.foresees_alone
      (show claim (.fixed 1 2) "w1" .media 60 defaultCapacityPolicy ["render"] mediaRun.shared = .ok (some _, _) from
        rfl))
    (q := .media) rfl

/-- A media job of another kind and another user. -/
def narrateRequest : EnqueueRequest := { mediaRequest with kind := "narrate", actor := { userId := 8 } }

def enqueueNarrate : Call := .enqueue (narrateRequest.job plainHashing 2) "{}" none none

/-- Two workers, each with a kind of its own, query before either commits: both
count no job in flight, and the class cap is one. -/
theorem caps_exceeded :
    ¬ ∀ policy : CapacityPolicy, (∀ q budget, policy.budgets q = some budget →
        0 < budget.maxConcurrent ∧ 0 < budget.maxConcurrentPerUser) →
      ∀ s, ClaimWorld.Reach policy (fun _ _ _ _ => True) s → ∀ q budget, policy.budgets q = some budget →
        countInFlight q s.db.jobs ≤ budget.maxConcurrent ∧
          ∀ user, countInFlightForUser q user s.db.jobs ≤ budget.maxConcurrentPerUser := by
  intro h
  have h₀ : ClaimWorld.Reach defaultCapacityPolicy (fun _ _ _ _ => True) _ := .start rfl
  have h₁ := h₀.next (.call (.fixed 0 1) enqueueMedia published_enqueueMedia trivial fun _ h => by cases h)
  have h₂ := h₁.next (.call (.fixed 1 2) enqueueNarrate ⟨plainHashing, narrateRequest, 2, .inl rfl⟩ trivial
    fun _ h => by cases h)
  have h₃ := h₂.next (.select (.fixed 2 0) "w1" .media 60 ["render"] rfl rfl rfl trivial)
  have h₄ := h₃.next (.select (.fixed 2 0) "w2" .media 60 ["narrate"] rfl rfl rfl trivial)
  have h₅ := ((h₄.next (.update [] _ _ rfl rfl)).next (.insertAttempt [] _ _ rfl)).next (.commit [] _ _ rfl)
  have h₆ := ((h₅.next (.update [] _ _ rfl rfl)).next (.insertAttempt [] _ _ rfl)).next (.commit [] _ _ rfl)
  exact absurd (h _ defaultCapacityPolicy_pos _ h₆ .media ⟨1, 1⟩ rfl).1 (by decide +kernel)

end MilpbookLM
