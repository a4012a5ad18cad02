/-
Which job a claim takes, when no other transaction is about. The query cuts the
queue to its first fifty rows before it looks at the per-user cap, and its last
LIMIT takes any row of a join. `claims_best_iff` says exactly when the job it
takes is the best one that both caps admit, whatever the planner does:
`HeadOfQueue` counts the rows that stand before that job.
-/
import MilpbookLM.Jobs.Runs

namespace MilpbookLM

open PgJobRepository

section Claiming

variable (budget : ClassBudget) (q : CapacityClass) (kinds : List String) (rows : List JobRow)

/-- Queued, of the class and a handled kind, and within both caps. -/
def admissible (row : JobRow) : Bool := claimable q kinds row && fitsBudget budget q rows row

/-- The highest priority, and then the earliest, of the admissible jobs. -/
def IsBest (row : JobRow) : Prop :=
  row ∈ rows ∧ admissible budget q kinds rows row = true ∧
    ∀ r ∈ rows, admissible budget q kinds rows r = true → queueLe row r = true

/-- A claim answers a job when there is an admissible one, and it is the best. -/
def ClaimsBest (answer : Except JobError (Option JobRecord × JobDb)) : Prop :=
  ((∃ row ∈ rows, admissible budget q kinds rows row = true) → ∃ job db', answer = .ok (some job, db')) ∧
    ∀ job db', answer = .ok (some job, db') → ∃ row, IsBest budget q kinds rows row ∧ job.id = row.id

/-- When a job is admissible: the priorities of the queue are 32-bit integers;
fewer than fifty jobs that a cap holds back stand before or level with the best
one; and at least fifty queued jobs stand before every admissible job that is
not the best. -/
def HeadOfQueue : Prop :=
  ∀ best, IsBest budget q kinds rows best →
    (∀ row ∈ rows, claimable q kinds row = true → ∃ p, priorityColumn row = .ok p) ∧
    rows.countP (fun r => claimable q kinds r && !fitsBudget budget q rows r && queueLe r best) < claimBatch ∧
    ∀ row ∈ rows, admissible budget q kinds rows row = true → ¬IsBest budget q kinds rows row →
      claimBatch ≤ rows.countP fun r => claimable q kinds r && !queueLe row r

variable {budget q kinds rows}

theorem admissible_iff {row} : admissible budget q kinds rows row = true ↔
    claimable q kinds row = true ∧ fitsBudget budget q rows row = true := by
  simp [admissible]

/-- An admissible job before or level with the best is a best one. -/
theorem IsBest.of_le {best row} (h : IsBest budget q kinds rows best) (hrow : row ∈ rows)
    (ha : admissible budget q kinds rows row = true) (hle : queueLe row best = true) :
    IsBest budget q kinds rows row :=
  ⟨hrow, ha, fun r hr har => queueLe_trans _ _ _ hle (h.2.2 r hr har)⟩

theorem queueLe_refl (row : JobRow) : queueLe row row = true := (queueLe_total row row).elim id id

theorem exists_best (h : ∃ row ∈ rows, admissible budget q kinds rows row = true) :
    ∃ best, IsBest budget q kinds rows best := by
  obtain ⟨row, hrow, ha⟩ := h
  let ranked := Ranked.rank queueLe (fun _ => false) (rows.filter (admissible budget q kinds rows))
  have hmem : ∀ r, r ∈ ranked ↔ r ∈ rows ∧ admissible budget q kinds rows r = true := fun r => by
    rw [(Ranked.rank_perm _ _ _).mem_iff, List.mem_filter]
  have hpair := Ranked.rank_pairwise queueLe_total queueLe_trans (fun _ => false)
    (rows.filter (admissible budget q kinds rows))
  rcases hr : ranked with _ | ⟨best, rest⟩
  · have := (hmem row).2 ⟨hrow, ha⟩
    simp [hr] at this
  · obtain ⟨hb, hab⟩ := (hmem best).1 (by simp [hr])
    refine ⟨best, hb, hab, fun r hr' har => ?_⟩
    have : r ∈ best :: rest := hr ▸ (hmem r).2 ⟨hr', har⟩
    rw [show Ranked.rank queueLe _ _ = best :: rest from hr] at hpair
    rcases List.mem_cons.1 this with rfl | hrest
    · exact queueLe_refl r
    · exact Ranked.le_of_flagged ((List.pairwise_cons.1 hpair).1 r hrest)

theorem mapM_ok_iff {α β ε : Type} {f : α → Except ε β} {xs : List α} :
    (∃ ys, xs.mapM f = .ok ys) ↔ ∀ x ∈ xs, ∃ y, f x = .ok y := by
  induction xs with
  | nil => simp [pure, Except.pure]
  | cons x xs ih =>
    simp only [List.mapM_cons, Except.bind_ok_iff, pure, Except.pure, Except.ok.injEq, List.mem_cons,
      forall_eq_or_imp, ← ih]
    constructor
    · rintro ⟨_, y, hy, ys, hys, -⟩; exact ⟨⟨y, hy⟩, ys, hys⟩
    · rintro ⟨⟨y, hy⟩, ys, hys⟩; exact ⟨_, y, hy, ys, hys, rfl⟩

/-- The rows the query takes: the first fifty of the queue. -/
def firstRows (plan : Plan) (q : CapacityClass) (kinds : List String) (rows : List JobRow) : List JobRow :=
  (plan.sort (rows.filter (claimable q kinds))).take claimBatch

theorem mem_sort {plan : Plan} {row} :
    row ∈ plan.sort (rows.filter (claimable q kinds)) ↔ row ∈ rows ∧ claimable q kinds row = true := by
  rw [(plan.sort_perm _).mem_iff, List.mem_filter]

theorem mem_of_firstRows {plan : Plan} {row} (h : row ∈ firstRows plan q kinds rows) :
    row ∈ rows ∧ claimable q kinds row = true :=
  mem_sort.1 (List.mem_of_mem_take h)

/-- The query selects one of them that fits, if the priorities can be cast. -/
theorem claimSelect_eq_ok {plan : Plan} {locks chosen} :
    claimSelect plan (fun _ => false) budget q kinds rows = .ok (locks, chosen) ↔
      (∀ row ∈ rows, claimable q kinds row = true → ∃ p, priorityColumn row = .ok p) ∧
        locks = firstRows plan q kinds rows ∧
        chosen = (plan.join (firstRows plan q kinds rows)).find? (fitsBudget budget q rows) := by
  have hcast : (∃ ys, (rows.filter (claimable q kinds)).mapM priorityColumn = .ok ys) ↔ _ := mapM_ok_iff
  simp only [List.mem_filter, and_imp] at hcast
  simp only [claimSelect, candidates, Except.bind_ok_iff, pure, Except.pure, Except.ok.injEq, Bool.not_false,
    List.filter_true, Prod.mk.injEq, ← hcast]
  constructor
  · rintro ⟨_, ⟨ys, hys, rfl⟩, rfl, rfl⟩; exact ⟨⟨ys, hys⟩, rfl, rfl⟩
  · rintro ⟨⟨ys, hys⟩, rfl, rfl⟩; exact ⟨_, ⟨ys, hys, rfl⟩, rfl, rfl⟩

/-- Counting in the sorted queue is counting in the table. -/
theorem countP_sort {plan : Plan} (p : JobRow → Bool) :
    (plan.sort (rows.filter (claimable q kinds))).countP p = rows.countP fun r => claimable q kinds r && p r := by
  rw [(plan.sort_perm _).countP_eq, List.countP_filter]
  exact List.countP_congr fun r _ => by simp [and_comm]

/-- At the head of the queue, an admissible row is a best one. -/
theorem HeadOfQueue.isBest {plan : Plan} (h : HeadOfQueue budget q kinds rows) {row}
    (hrow : row ∈ firstRows plan q kinds rows) (ha : admissible budget q kinds rows row = true) :
    IsBest budget q kinds rows row := by
  obtain ⟨hmem, -⟩ := mem_of_firstRows hrow
  obtain ⟨best, hbest⟩ := exists_best ⟨row, hmem, ha⟩
  by_contra hno
  have hge := (h best hbest).2.2 row hmem ha hno
  have hlt := Ranked.countP_lt_of_mem_take (p := fun r => !queueLe row r) (plan.sort_pairwise _) hrow
    (by simp [queueLe_refl]) (fun r hr => by simp [hr])
  rw [countP_sort] at hlt
  omega

/-- And one of them is there. -/
theorem HeadOfQueue.exists_isBest {plan : Plan} (h : HeadOfQueue budget q kinds rows) {best}
    (hbest : IsBest budget q kinds rows best) :
    ∃ row ∈ firstRows plan q kinds rows, IsBest budget q kinds rows row := by
  by_contra hnone
  push Not at hnone
  have hsort : best ∈ plan.sort (rows.filter (claimable q kinds)) :=
    mem_sort.2 ⟨hbest.1, (admissible_iff.1 hbest.2.1).1⟩
  -- the fifty rows taken all stand before or level with the best, and are held back
  have hdrop : best ∈ (plan.sort (rows.filter (claimable q kinds))).drop claimBatch := by
    rw [← List.take_append_drop claimBatch (plan.sort _), List.mem_append] at hsort
    exact hsort.resolve_left fun ht => hnone best ht hbest
  have hheld : ∀ r ∈ firstRows plan q kinds rows,
      (!fitsBudget budget q rows r && queueLe r best) = true := fun r hr => by
    have hle : queueLe r best = true := by
      have hpair := plan.sort_pairwise (rows.filter (claimable q kinds))
      rw [← List.take_append_drop claimBatch (plan.sort _)] at hpair
      exact (List.pairwise_append.1 hpair).2.2 r hr best hdrop
    obtain ⟨hr', hcl⟩ := mem_of_firstRows hr
    have hfit : fitsBudget budget q rows r ≠ true := fun hfit =>
      hnone r hr (hbest.of_le hr' (admissible_iff.2 ⟨hcl, hfit⟩) hle)
    simp [hfit, hle]
  have hlen : (firstRows plan q kinds rows).length = claimBatch := by
    have := List.length_pos_of_mem hdrop
    rw [List.length_drop] at this
    rw [firstRows, List.length_take]
    omega
  have hlt := (h best hbest).2.1
  have hge : claimBatch ≤ (plan.sort (rows.filter (claimable q kinds))).countP
      fun r => !fitsBudget budget q rows r && queueLe r best := by
    rw [← hlen, ← List.countP_eq_length.2 hheld]
    exact (List.take_sublist _ _).countP_le
  rw [countP_sort] at hge
  simp only [Bool.and_assoc] at hlt
  omega

/-! ## Plans that go wrong -/

/-- The held-back rows first among equals: with fifty of them, no admissible row is taken. -/
theorem firstRows_held {best} (hbest : IsBest budget q kinds rows best)
    (hge : claimBatch ≤ rows.countP fun r =>
      claimable q kinds r && !fitsBudget budget q rows r && queueLe r best) {front row}
    (hrow : row ∈ firstRows (.ranked (fun r => !fitsBudget budget q rows r) front) q kinds rows) :
    fitsBudget budget q rows row = false := by
  by_contra hfit
  simp only [Bool.not_eq_false] at hfit
  obtain ⟨hmem, hcl⟩ := mem_of_firstRows hrow
  have hle : queueLe best row = true := hbest.2.2 row hmem (admissible_iff.2 ⟨hcl, hfit⟩)
  have hlt := Ranked.countP_lt_of_mem_take (p := fun r => !fitsBudget budget q rows r && queueLe r best)
    (Ranked.rank_pairwise queueLe_total queueLe_trans _ _) hrow (by simp [hfit]) fun r hr => by
      -- a held-back row after it would stand before it
      by_contra hp
      simp only [Bool.not_eq_false, Bool.and_eq_true, Bool.not_eq_true'] at hp
      have hle' := queueLe_trans _ _ _ hp.2 hle
      simp [Ranked.flagged, hle', hfit, hp.1] at hr
  have hcount : (Ranked.rank queueLe (fun r => !fitsBudget budget q rows r)
      (rows.filter (claimable q kinds))).countP (fun r => !fitsBudget budget q rows r && queueLe r best)
        = rows.countP fun r => claimable q kinds r && !fitsBudget budget q rows r && queueLe r best := by
    simp only [Bool.and_assoc]
    exact @countP_sort q kinds rows (.ranked (fun r => !fitsBudget budget q rows r) front) _
  omega

/-- A row with fewer than fifty strictly before it, put first among its equals and
first in the join, is found first. -/
theorem find_ranked {row} (hk : Table.Keyed JobRow.id rows) (hmem : row ∈ rows)
    (ha : admissible budget q kinds rows row = true)
    (hlt : (rows.countP fun r => claimable q kinds r && !queueLe row r) < claimBatch) :
    let plan := Plan.ranked (fun r => r.id = row.id) fun r => r.id = row.id
    (plan.join (firstRows plan q kinds rows)).find? (fitsBudget budget q rows) = some row := by
  intro plan
  obtain ⟨hcl, hfit⟩ := admissible_iff.1 ha
  have hsame : ∀ r ∈ rows, r.id = row.id → r = row := fun r hr hid => by
    have := Table.lookup_of_mem hk hr
    rw [hid, Table.lookup_of_mem hk hmem] at this
    exact (Option.some.inj this).symm
  have hnd : (plan.sort (rows.filter (claimable q kinds))).Nodup :=
    (plan.sort_perm _).nodup_iff.2 ((List.Nodup.of_map _ hk).filter _)
  have htake : row ∈ firstRows plan q kinds rows := by
    refine Ranked.mem_take_of_countP_lt (Ranked.rank_pairwise queueLe_total queueLe_trans _ _)
      (mem_sort.2 ⟨hmem, hcl⟩) (p := fun r => !queueLe row r) (fun r hr hle hne => ?_)
      (lt_of_eq_of_lt (countP_sort _) hlt) hnd
    -- before it and another row, so strictly before it
    have hid : r.id ≠ row.id := fun hid => hne (hsame r (mem_sort.1 hr).1 hid)
    simp only [Ranked.flagged, Bool.and_eq_true, Bool.or_eq_true] at hle
    simpa [hid] using hle.2
  have hfront : ((firstRows plan q kinds rows).filter fun r => r.id = row.id).find? (fitsBudget budget q rows)
      = some row := by
    rcases hf : ((firstRows plan q kinds rows).filter fun r => r.id = row.id).find? (fitsBudget budget q rows) with _ | r
    · rw [List.find?_eq_none] at hf
      exact absurd hfit (hf row (List.mem_filter.2 ⟨htake, by simp⟩))
    · obtain ⟨hr, hid⟩ := List.mem_filter.1 (List.mem_of_find?_eq_some hf)
      rw [hf, hsame r (mem_of_firstRows hr).1 (by simpa using hid)]
  change (_ ++ _ : List JobRow).find? _ = _
  rw [List.find?_append, hfront]; rfl

section Answers

variable {env : Env} {w : String} {lease : Int} {policy : CapacityPolicy} {db : JobDb}

/-- A claim answers the job its query selects. -/
theorem claim_answers (hk : db.Keyed) (hb : policy.budgets q = some budget) {job} :
    (∃ db', claim env w q lease policy kinds db = .ok (some job, db')) ↔
      (∀ row ∈ db.jobs, claimable q kinds row = true → ∃ p, priorityColumn row = .ok p) ∧
        ∃ c, (env.plan.join (firstRows env.plan q kinds db.jobs)).find? (fitsBudget budget q db.jobs) = some c ∧
          job = (leaseRow env.now w lease c).record := by
  have hb : policy.budget q = .ok budget := by simp [CapacityPolicy.budget, hb]
  constructor
  · rintro ⟨db', h⟩
    have heq := h
    unfold claim at h
    split at h
    · cases h
    next hkinds =>
      simp only [hb, Except.bind_ok_iff, Except.ok.injEq, exists_eq_left', Prod.exists] at h
      obtain ⟨locks, chosen, hsel, h⟩ := h
      cases chosen with
      | none => cases h
      | some c =>
        obtain ⟨db₁, heq₁, -⟩ := claim_chosen w lease hk (by simpa using hkinds) hb hsel
        rw [heq] at heq₁
        cases heq₁
        obtain ⟨hcast, -, hfind⟩ := claimSelect_eq_ok.1 hsel
        exact ⟨hcast, c, hfind.symm, rfl⟩
  · rintro ⟨hcast, c, hfind, rfl⟩
    have hkinds : kinds.isEmpty = false := by
      have hmem := mem_of_firstRows ((env.plan.join_perm _).subset (List.mem_of_find?_eq_some hfind))
      simp only [claimable, Bool.and_eq_true, List.contains_iff_mem] at hmem
      exact List.isEmpty_eq_false_iff.2 (List.ne_nil_of_mem hmem.2.2)
    obtain ⟨db', h, -⟩ := claim_chosen w lease hk hkinds hb (claimSelect_eq_ok.2 ⟨hcast, rfl, hfind.symm⟩)
    exact ⟨db', h⟩

/-- **A claim takes the best admissible job, whatever the planner does, if and
only if that job is at the head of the queue.** -/
theorem claims_best_iff (hk : db.Keyed) (hb : policy.budgets q = some budget) :
    (∀ env, ClaimsBest budget q kinds db.jobs (claim env w q lease policy kinds db)) ↔
      HeadOfQueue budget q kinds db.jobs := by
  constructor
  · intro h best hbest
    have hanswer : ∀ env, ∃ job db', claim env w q lease policy kinds db = .ok (some job, db') := fun env =>
      (h env).1 ⟨best, hbest.1, hbest.2.1⟩
    obtain ⟨job, hjob⟩ := hanswer (.fixed 0 0)
    have hcast := ((claim_answers hk hb).1 hjob).1
    refine ⟨hcast, ?_, fun row hrow ha hno => ?_⟩
    · by_contra hge
      obtain ⟨job, hjob⟩ := hanswer
        { Env.fixed 0 0 with plan := .ranked (fun r => !fitsBudget budget q db.jobs r) fun _ => true }
      obtain ⟨-, c, hfind, -⟩ := (claim_answers hk hb).1 hjob
      have hheld := firstRows_held hbest (Nat.le_of_not_lt hge)
        ((Plan.join_perm _ _).subset (List.mem_of_find?_eq_some hfind))
      have hfit := List.find?_some hfind
      rw [hheld] at hfit; cases hfit
    · by_contra hlt
      let env := { Env.fixed 0 0 with plan := .ranked (fun r => r.id = row.id) fun r => r.id = row.id }
      obtain ⟨db', hjob⟩ : ∃ db', claim env w q lease policy kinds db
          = .ok (some (leaseRow env.now w lease row).record, db') :=
        (claim_answers hk hb).2 ⟨hcast, row, find_ranked hk hrow ha (Nat.lt_of_not_le hlt), rfl⟩
      obtain ⟨row', hbest', hid⟩ := (h env).2 _ db' hjob
      have hid : row.id = row'.id := by simpa using hid
      have hsome := Table.lookup_of_mem hk hbest'.1
      rw [← hid, Table.lookup_of_mem hk hrow] at hsome
      cases hsome
      exact hno hbest'
  · intro h env
    refine ⟨fun hadm => ?_, fun job db' hjob => ?_⟩
    · obtain ⟨best, hbest⟩ := exists_best hadm
      obtain ⟨row, hrow, hrow'⟩ : ∃ row ∈ firstRows env.plan q kinds db.jobs, IsBest budget q kinds db.jobs row :=
        h.exists_isBest hbest
      rcases hf : (env.plan.join (firstRows env.plan q kinds db.jobs)).find? (fitsBudget budget q db.jobs) with _ | c
      · rw [List.find?_eq_none] at hf
        exact absurd (admissible_iff.1 hrow'.2.1).2 (hf row ((env.plan.join_perm _).mem_iff.2 hrow))
      · exact ⟨_, (claim_answers hk hb).2 ⟨(h best hbest).1, c, hf, rfl⟩⟩
    · obtain ⟨-, c, hfind, rfl⟩ := (claim_answers hk hb).1 ⟨db', hjob⟩
      have hmem := (env.plan.join_perm _).subset (List.mem_of_find?_eq_some hfind)
      have ha : admissible budget q kinds db.jobs c = true :=
        admissible_iff.2 ⟨(mem_of_firstRows hmem).2, by simpa using List.find?_some hfind⟩
      exact ⟨c, h.isBest hmem ha, by simp⟩

end Answers

def mediaDb : JobDb := { jobs := [mediaRow] }

/-- A queue of one. -/
theorem claims_best_iff_media :
    (∀ env, ClaimsBest ⟨1, 1⟩ .media ["render"] mediaDb.jobs
      (claim env "w1" .media 60 defaultCapacityPolicy ["render"] mediaDb)) ↔
      HeadOfQueue ⟨1, 1⟩ .media ["render"] mediaDb.jobs :=
  claims_best_iff (by decide) rfl

/-- The job a user asked for at time `n`. -/
def askedRow (n : Nat) (user : Uuid) : JobRow :=
  newRow n n (EnqueueRequest.job plainHashing
    { kind := "answer", payload := [], actor := { userId := user }, capacityClass := .interactiveText } n) none

/-- One user has two jobs in flight, as many as the cap allows, and fifty queued;
then another user's job comes in. -/
def crowdedDb : JobDb where
  jobs := [leaseRow 0 "w1" 60 (askedRow 0 7), leaseRow 0 "w2" 60 (askedRow 1 7)] ++
    ((List.range' 2 50).map fun n => askedRow n 7) ++ [askedRow 52 8]

def claimAnswer : Except JobError (Option JobRecord × JobDb) :=
  claim (.fixed 53 0) "w3" .interactiveText 60 defaultCapacityPolicy ["answer"] crowdedDb

/-- The other user's job is admissible, and the claim answers none. -/
theorem claim_misses_best :
    ¬ ∀ db : JobDb, db.Keyed → ∀ q policy budget kinds, policy.budgets q = some budget → ∀ env w lease,
      ClaimsBest budget q kinds db.jobs (claim env w q lease policy kinds db) := by
  intro h
  have hbest := (h crowdedDb (by decide +kernel) .interactiveText defaultCapacityPolicy ⟨4, 2⟩ ["answer"] rfl
    (.fixed 53 0) "w3" 60).1 ⟨askedRow 52 8, by simp [crowdedDb], by decide +kernel⟩
  obtain ⟨job, db', hclaim⟩ := hbest
  have hnone : (claimAnswer.toOption.bind (·.1)).isNone = true := by decide +kernel
  rw [show claimAnswer = .ok (some job, db') from hclaim] at hnone
  cases hnone

end Claiming

end MilpbookLM
