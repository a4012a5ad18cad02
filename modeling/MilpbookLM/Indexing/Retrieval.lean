/-
`PgRetrievalService.search`: the constrained query over the chunks of ready
generations, and the check of restrictions on what it returned. Each is its own
transaction, and when too few rows pass the check both run again with a larger
limit; so a search sees the catalog at as many moments as it has transactions.
Whether a chunk matches the query, its score and the order by score are the
database's (`Ranking`).
-/
import MilpbookLM.Sources.Catalog

namespace MilpbookLM

structure RetrievalCommand where
  actorUserId : Uuid
  notebookId : Uuid
  topK : Nat
  sourceIds : Option (List Uuid) := none
  sourceVersionIds : Option (List Uuid) := none

/-- What the database makes of a query: the text search of the lexical retriever, or
the distance of the vector one. A query text may be rejected. -/
structure Ranking (Score : Type) where
  accepts : IndexChunk → Bool
  score : IndexChunk → Score
  before : IndexChunk → IndexChunk → Bool
  rejected : Bool := false

/-- The chunk's columns, the title of its source, the score and the rank. -/
structure RetrievedRow (Score : Type) where
  chunk : IndexChunk
  sourceTitle : String
  rawScore : Score
  retrieverRank : Nat

def overfetchCaps : List Nat := [100, 200, 500]

def overfetchFactors : List Nat := [3, 10, 30]

/-- `_overfetch_limits`. -/
def overfetchLimits (topK : Nat) : List Nat :=
  (overfetchCaps.zip overfetchFactors).map fun pair => min pair.1 (topK * pair.2)

namespace Catalog

variable {Score : Type} (w : Catalog) (command : RetrievalCommand) (ranking : Ranking Score)

/-- The chunk's source serves it to the actor. -/
def serves (chunk : IndexChunk) (s : Source) : Bool :=
  s.id = chunk.sourceId && w.isMember s.notebookId command.actorUserId &&
    s.availability ∈ [Availability.active, Availability.stale] && command.sourceIds.all (s.id ∈ ·)

/-- Its version is active, or was asked for. -/
def servesVersion (chunk : IndexChunk) (v : CatalogVersion) : Bool :=
  v.id = chunk.sourceVersionId && (v.status = .active || command.sourceVersionIds.isSome)

/-- `_BASE_SQL`: each chunk with the sources that it is joined with. -/
def baseRows : List (IndexChunk × Source) :=
  (w.index.chunks.filter fun chunk =>
      chunk.notebookId = command.notebookId && command.sourceVersionIds.all (chunk.sourceVersionId ∈ ·) &&
        w.index.generations.any (fun g => g.id = chunk.indexGenerationId && g.status = .ready) &&
        w.versions.any (servesVersion command chunk)).flatMap fun chunk =>
    (w.sources.filter (w.serves command chunk)).map fun s => (chunk, s)

/-- `_fetch`: the rows that match, in their order, up to the limit. -/
def fetch (limit : Nat) : List (IndexChunk × Source) :=
  (((w.baseRows command).filter fun row => ranking.accepts row.1).mergeSort
    fun a b => ranking.before a.1 b.1).take limit

/-- `_policy_recheck`. -/
def policyRecheck (rows : List (IndexChunk × Source)) : List (RetrievedRow Score) :=
  let denied := (w.restrictions.filter fun r => r.restrictionType = "access_denied" &&
    r.userId.all (· = command.actorUserId)).map (·.sourceVersionId)
  (rows.zipIdx 1).filterMap fun row =>
    if row.1.1.sourceVersionId ∈ denied then none
    else some ⟨row.1.1, row.1.2.displayTitle, ranking.score row.1.1, row.2⟩

end Catalog

/-- The rounds of `_run`, one for each limit that is left; `seen` has the catalog of
each round's two transactions. -/
def retrievalRounds {Score : Type} (command : RetrievalCommand) (ranking : Ranking Score)
    (seen : Nat → Catalog × Catalog) : Nat → List Nat → List (RetrievedRow Score)
  | _, [] => []
  | round, limit :: limits =>
    let survivors := (seen round).2.policyRecheck command ranking ((seen round).1.fetch command ranking limit)
    if survivors.length ≥ command.topK || some limit = (overfetchLimits command.topK).getLast? then
      survivors.take command.topK
    else retrievalRounds command ranking seen (round + 1) limits

/-- `search`. -/
def search {Score : Type} (command : RetrievalCommand) (ranking : Ranking Score) (seen : Nat → Catalog × Catalog) :
    List (RetrievedRow Score) :=
  if ranking.rejected then [] else retrievalRounds command ranking seen 0 (overfetchLimits command.topK)

/-! ## What a search can return -/

section

variable {Score : Type} {w : Catalog} {command : RetrievalCommand} {ranking : Ranking Score}
  {seen : Nat → Catalog × Catalog} {row : RetrievedRow Score}

theorem mem_fetch {limit : Nat} {chunk : IndexChunk} {s : Source} (h : (chunk, s) ∈ w.fetch command ranking limit) :
    s ∈ w.sources ∧ s.id = chunk.sourceId ∧ s.availability ∈ [Availability.active, Availability.stale] := by
  have hrow : (chunk, s) ∈ w.baseRows command := (List.mem_filter.1 (List.mem_mergeSort.1 (List.mem_of_mem_take h))).1
  obtain ⟨chunk', -, hmap⟩ := List.mem_flatMap.1 hrow
  obtain ⟨s', hs, heq⟩ := List.mem_map.1 hmap
  cases heq
  obtain ⟨hmem, hserves⟩ := List.mem_filter.1 hs
  simp only [Catalog.serves, Bool.and_eq_true, decide_eq_true_eq] at hserves
  exact ⟨hmem, hserves.1.1.1, hserves.1.2⟩

theorem mem_policyRecheck {rows : List (IndexChunk × Source)} (h : row ∈ w.policyRecheck command ranking rows) :
    ∃ s, (row.chunk, s) ∈ rows := by
  obtain ⟨r, hr, hrow⟩ := List.mem_filterMap.1 h
  split at hrow
  · cases hrow
  · cases hrow
    exact ⟨_, List.fst_mem_of_mem_zipIdx hr⟩

/-- **A chunk that a search returns** was fetched when its source was active or stale. -/
theorem mem_retrievalRounds {round : Nat} {limits : List Nat}
    (h : row ∈ retrievalRounds command ranking seen round limits) :
    ∃ k, ∃ s ∈ (seen k).1.sources, s.id = row.chunk.sourceId ∧ s.availability ∈ [Availability.active, Availability.stale] := by
  induction limits generalizing round with
  | nil => cases h
  | cons limit limits ih =>
    simp only [retrievalRounds] at h
    split at h
    · obtain ⟨s, hs⟩ := mem_policyRecheck (List.mem_of_mem_take h)
      obtain ⟨hmem, hid, havailable⟩ := mem_fetch hs
      exact ⟨round, s, hmem, hid, havailable⟩
    · exact ih h

theorem mem_search (h : row ∈ search command ranking seen) :
    ∃ k, ∃ s ∈ (seen k).1.sources, s.id = row.chunk.sourceId ∧ s.availability ∈ [Availability.active, Availability.stale] := by
  simp only [search] at h
  split at h
  · cases h
  · exact mem_retrievalRounds h

end

end MilpbookLM
