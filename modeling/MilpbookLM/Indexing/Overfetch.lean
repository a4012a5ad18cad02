/-
The rounds of a search on a catalog that stands still. The rows that survive a smaller limit are the
first of those that survive a larger one (`policyRecheck_prefix`), so a round that returns early
returns what the last round would have. However many rounds it takes, a search comes to the first
rows that are not denied among those within the largest limit (`retrievalRun_eq`).
-/
import MilpbookLM.Indexing.Retrieval

namespace MilpbookLM

variable {Score : Type}

/-! ## Rounds that may run out -/

/-- The loop of `_run`; none where no round returns, and it raises an AssertionError. -/
def runRounds (command : RetrievalCommand) (ranking : Ranking Score) (seen : Nat → Catalog × Catalog) :
    Nat → List Nat → Option (List (RetrievedRow Score))
  | _, [] => none
  | round, limit :: limits =>
    let survivors := (seen round).2.policyRecheck command ranking ((seen round).1.fetch command ranking limit)
    if survivors.length ≥ command.topK || some limit = (overfetchLimits command.topK).getLast? then
      some (survivors.take command.topK)
    else runRounds command ranking seen (round + 1) limits

/-- `_run`: a query that is rejected returns no rows. -/
def retrievalRun (command : RetrievalCommand) (ranking : Ranking Score) (seen : Nat → Catalog × Catalog) :
    Option (List (RetrievedRow Score)) :=
  if ranking.rejected then some [] else runRounds command ranking seen 0 (overfetchLimits command.topK)

section

variable {command : RetrievalCommand} {ranking : Ranking Score} {seen : Nat → Catalog × Catalog}

theorem retrievalRounds_eq (round : Nat) (limits : List Nat) :
    retrievalRounds command ranking seen round limits = (runRounds command ranking seen round limits).getD [] := by
  induction limits generalizing round with
  | nil => rfl
  | cons limit limits ih =>
    simp only [retrievalRounds, runRounds]
    split
    · rfl
    · exact ih (round + 1)

/-- A search is its run. -/
theorem search_eq : search command ranking seen = (retrievalRun command ranking seen).getD [] := by
  simp only [search, retrievalRun]
  split
  · rfl
  · exact retrievalRounds_eq 0 _

end

/-! ## Filter, then take -/

namespace Catalog

variable (w : Catalog) (command : RetrievalCommand) (ranking : Ranking Score)

/-- All rows that match, in their order. -/
def ranked : List (IndexChunk × Source) :=
  ((w.baseRows command).filter fun row => ranking.accepts row.1).mergeSort fun a b => ranking.before a.1 b.1

/-- The versions that the actor may not read. -/
def denied : List Uuid :=
  (w.restrictions.filter fun r => r.restrictionType = "access_denied" && r.userId.all (· = command.actorUserId)).map
    (·.sourceVersionId)

end Catalog

/-- The largest limit. -/
def maxLimit (topK : Nat) : Nat := min 500 (topK * 30)

/-- The rows as they are returned, each with its position in the ranking. -/
def retrievedRow (ranking : Ranking Score) (row : (IndexChunk × Source) × Nat) : RetrievedRow Score :=
  ⟨row.1.1, row.1.2.displayTitle, ranking.score row.1.1, row.2⟩

/-- **What a search is to return**: of the rows within the largest limit, those that are not denied, and of these
the first `top_k`. -/
def filterThenTake (command : RetrievalCommand) (ranking : Ranking Score) (rows : List (IndexChunk × Source))
    (denied : List Uuid) : List (RetrievedRow Score) :=
  (((((rows.take (maxLimit command.topK)).zipIdx 1).filter fun row => row.1.1.sourceVersionId ∉ denied).take
    command.topK).map (retrievedRow ranking))

section

variable {w w' : Catalog} {command : RetrievalCommand} {ranking : Ranking Score}

theorem policyRecheck_eq (rows : List (IndexChunk × Source)) : w.policyRecheck command ranking rows =
    ((rows.zipIdx 1).filter fun row => row.1.1.sourceVersionId ∉ w.denied command).map (retrievedRow ranking) := by
  show (rows.zipIdx 1).filterMap (fun row =>
    if row.1.1.sourceVersionId ∈ w.denied command then none else some (retrievedRow ranking row)) = _
  generalize rows.zipIdx 1 = numbered
  induction numbered with
  | nil => rfl
  | cons row numbered ih =>
    rw [List.filterMap_cons, List.filter_cons, ih]
    by_cases hdenied : row.1.1.sourceVersionId ∈ w.denied command <;> simp [hdenied]

/-- The rows that survive a smaller limit come first among those that survive a larger one. -/
theorem policyRecheck_prefix (w w' : Catalog) (command : RetrievalCommand) (ranking : Ranking Score) {limit limit' : Nat}
    (h : limit ≤ limit') :
    w'.policyRecheck command ranking (w.fetch command ranking limit) <+:
      w'.policyRecheck command ranking (w.fetch command ranking limit') := by
  have htake : w.fetch command ranking limit <+: w.fetch command ranking limit' := by
    simp only [Catalog.fetch]
    exact List.take_prefix_take_left h
  rw [policyRecheck_eq, policyRecheck_eq]
  obtain ⟨more, hmore⟩ := htake
  rw [← hmore, List.zipIdx_append, List.filter_append, List.map_append]
  exact List.prefix_append _ _

/-- **The rounds**, the last with the largest limit: whichever of them returns, returns what the last would. -/
theorem runRounds_eq {limits : List Nat} {last : Nat} (hlast : limits.getLast? = some last)
    (hall : (overfetchLimits command.topK).getLast? = some last) (hle : ∀ limit ∈ limits, limit ≤ last) (round : Nat) :
    runRounds command ranking (fun _ => (w, w')) round limits =
      some ((w'.policyRecheck command ranking (w.fetch command ranking last)).take command.topK) := by
  induction limits generalizing round with
  | nil => cases hlast
  | cons limit limits ih =>
    simp only [runRounds, hall]
    split
    next hreturn =>
      simp only [Bool.or_eq_true, decide_eq_true_eq, Option.some.injEq] at hreturn
      rcases hreturn with hfull | rfl
      · obtain ⟨more, hmore⟩ := policyRecheck_prefix w w' command ranking
          (hle limit List.mem_cons_self)
        rw [← hmore, List.take_append_of_le_length hfull]
      · rfl
    next hnext =>
      simp only [Bool.or_eq_true, decide_eq_true_eq, Option.some.injEq, not_or] at hnext
      cases limits with
      | nil => exact absurd (Option.some.inj hlast) hnext.2
      | cons limit' limits =>
        refine ih (by simpa using hlast) (fun l hl => hle l (List.mem_cons_of_mem _ hl)) (round + 1)

theorem overfetchLimits_eq (topK : Nat) : overfetchLimits topK = [min 100 (topK * 3), min 200 (topK * 10), min 500 (topK * 30)] :=
  rfl

/-- **The loop always returns**, and what it returns is told by one definition. -/
theorem retrievalRun_eq : retrievalRun command ranking (fun _ => (w, w')) =
    some (if ranking.rejected then [] else filterThenTake command ranking (w.ranked command ranking) (w'.denied command)) := by
  simp only [retrievalRun]
  split
  · rfl
  · have hle : ∀ limit ∈ overfetchLimits command.topK, limit ≤ maxLimit command.topK := by
      simp only [overfetchLimits_eq, maxLimit, List.mem_cons, List.not_mem_nil, or_false]
      intro limit hlimit
      omega
    rw [runRounds_eq rfl rfl hle, policyRecheck_eq]
    simp only [filterThenTake, List.map_take]
    rfl

end

end MilpbookLM
