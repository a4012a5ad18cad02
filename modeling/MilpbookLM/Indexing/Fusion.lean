/-
Reciprocal-rank fusion. The score of a chunk is a sum over its own hits (`scoreOf`), and the fused
list is the one list of the chunks in the order of their scores and ids (`IsFusion`); so the order of
the hits does not matter, and a better hit never costs a chunk its place (`rank_fusion`). Scores are
rationals here.
-/
import MilpbookLM.Indexing.Retrieval
import Mathlib.Algebra.BigOperators.Group.List.Basic
import Mathlib.Algebra.Order.Field.Rat
import Mathlib.Data.List.Sort
import Mathlib.Tactic.Linarith
import Mathlib.Tactic.Positivity

namespace MilpbookLM

/-! ## reciprocal_rank_fusion -/

/-- The entry of a chunk in the ranking of one retriever. -/
structure RankedHit where
  chunkId : Uuid
  score : ℚ
  rank : Nat
  retrieverId : String
  deriving DecidableEq

structure FusedChunk where
  chunkId : Uuid
  fusedScore : ℚ
  hits : List RankedHit
  deriving DecidableEq

inductive FusionError
  | value (message : String)
  | key
  deriving DecidableEq

/-- `grouped.setdefault(hit.chunk_id, []).append(hit)`. -/
def addHit (grouped : List (Uuid × List RankedHit)) (hit : RankedHit) : List (Uuid × List RankedHit) :=
  if grouped.any (·.1 = hit.chunkId) then
    grouped.map fun group => if group.1 = hit.chunkId then (group.1, group.2 ++ [hit]) else group
  else grouped ++ [(hit.chunkId, [hit])]

def rrfScore (k : Nat) (hits : List RankedHit) : ℚ := (hits.map fun hit => 1 / ((k : ℚ) + hit.rank)).sum

/-- `(-item.fused_score, item.chunk_id)` is at most the other's. -/
def FusedChunk.le (a b : FusedChunk) : Bool :=
  b.fusedScore < a.fusedScore || a.fusedScore = b.fusedScore && a.chunkId ≤ b.chunkId

/-- `reciprocal_rank_fusion`. -/
def reciprocalRankFusion (hits : List RankedHit) (k : Nat) : Except FusionError (List FusedChunk) :=
  if k < 1 then .error (.value "RRF k must be >= 1")
  else
    let fused := (hits.foldl addHit []).map fun group => (⟨group.1, rrfScore k group.2, group.2⟩ : FusedChunk)
    .ok (fused.insertionSort fun a b => a.le b)

/-! ## What a fusion is -/

/-- The hits of a chunk. -/
def hitsOf (hits : List RankedHit) (chunkId : Uuid) : List RankedHit := hits.filter (·.chunkId = chunkId)

def scoreOf (k : Nat) (hits : List RankedHit) (chunkId : Uuid) : ℚ := rrfScore k (hitsOf hits chunkId)

/-- A higher score, or the same and a smaller id. -/
def FusedChunk.Before (a b : FusedChunk) : Prop :=
  b.fusedScore < a.fusedScore ∨ a.fusedScore = b.fusedScore ∧ a.chunkId < b.chunkId

/-- Each chunk that was hit, once, with all its hits, in the order of the scores. -/
structure IsFusion (k : Nat) (hits : List RankedHit) (fused : List FusedChunk) : Prop where
  once : (fused.map (·.chunkId)).Nodup
  covers : ∀ id, id ∈ fused.map (·.chunkId) ↔ id ∈ hits.map (·.chunkId)
  all : ∀ f ∈ fused, f.hits = hitsOf hits f.chunkId ∧ f.fusedScore = scoreOf k hits f.chunkId
  sorted : fused.Pairwise FusedChunk.Before

/-- The groups of hits: each chunk once, with its hits in their order. -/
structure Grouped (hits : List RankedHit) (grouped : List (Uuid × List RankedHit)) : Prop where
  once : (grouped.map (·.1)).Nodup
  covers : ∀ id, id ∈ grouped.map (·.1) ↔ id ∈ hits.map (·.chunkId)
  all : ∀ group ∈ grouped, group.2 = hitsOf hits group.1

variable {k : Nat} {hits hits' : List RankedHit} {fused fused' : List FusedChunk}

theorem hitsOf_append_self (hit : RankedHit) : hitsOf (hits ++ [hit]) hit.chunkId = hitsOf hits hit.chunkId ++ [hit] := by
  simp [hitsOf]

theorem hitsOf_append_other {hit : RankedHit} {id : Uuid} (h : hit.chunkId ≠ id) :
    hitsOf (hits ++ [hit]) id = hitsOf hits id := by
  simp [hitsOf, h]

theorem Grouped.addHit {grouped : List (Uuid × List RankedHit)} (h : Grouped hits grouped) (hit : RankedHit) :
    Grouped (hits ++ [hit]) (addHit grouped hit) := by
  unfold MilpbookLM.addHit
  split
  next hany =>
    have hkeys : (grouped.map fun group =>
        if group.1 = hit.chunkId then (group.1, group.2 ++ [hit]) else group).map (·.1) = grouped.map (·.1) := by
      rw [List.map_map]
      refine List.map_congr_left fun group _ => ?_
      simp only [Function.comp]
      split <;> rfl
    refine ⟨hkeys ▸ h.once, fun id => ?_, fun group hgroup => ?_⟩
    · obtain ⟨group, hgroup, hid⟩ := List.any_eq_true.1 hany
      have hold : hit.chunkId ∈ grouped.map (·.1) := of_decide_eq_true hid ▸ List.mem_map_of_mem hgroup
      rw [hkeys, h.covers, List.map_append, List.mem_append, List.map_singleton, List.mem_singleton]
      exact ⟨.inl, fun hid => hid.elim (·) fun hid => hid ▸ (h.covers _).1 hold⟩
    · obtain ⟨old, hold, rfl⟩ := List.mem_map.1 hgroup
      split
      next hid => rw [h.all old hold, hid, hitsOf_append_self]
      next hid => rw [h.all old hold, hitsOf_append_other (Ne.symm hid)]
  next hnone =>
    have hnew : hit.chunkId ∉ grouped.map (·.1) := by simpa using hnone
    refine ⟨?_, fun id => ?_, fun group hgroup => ?_⟩
    · rw [List.map_append, List.map_singleton]
      exact List.nodup_append.2 ⟨h.once, List.nodup_singleton _, fun a ha b hb => by
        obtain rfl := List.mem_singleton.1 hb
        intro heq
        subst heq
        exact hnew ha⟩
    · simp only [List.map_append, List.mem_append, h.covers, List.map_singleton]
    · rcases List.mem_append.1 hgroup with hold | hself
      · rw [h.all group hold, hitsOf_append_other fun hid => hnew (hid ▸ List.mem_map_of_mem hold)]
      · obtain rfl := List.mem_singleton.1 hself
        have hempty : hitsOf hits hit.chunkId = [] := List.filter_eq_nil_iff.2 fun other hother hid =>
          hnew ((h.covers _).2 (of_decide_eq_true hid ▸ List.mem_map_of_mem hother))
        rw [hitsOf_append_self, hempty, List.nil_append]

theorem grouped_foldl (hits : List RankedHit) : Grouped hits (hits.foldl addHit []) := by
  induction hits using List.reverseRecOn with
  | nil => exact ⟨List.nodup_nil, fun _ => Iff.rfl, fun _ h => nomatch h⟩
  | append_singleton hits hit ih =>
    rw [List.foldl_append]
    exact ih.addHit hit

/-! ## The order -/

theorem FusedChunk.le_iff {a b : FusedChunk} :
    a.le b = true ↔ a.Before b ∨ a.fusedScore = b.fusedScore ∧ a.chunkId = b.chunkId := by
  have hid : a.chunkId ≤ b.chunkId ↔ a.chunkId < b.chunkId ∨ a.chunkId = b.chunkId := by
    rw [BitVec.le_def, BitVec.lt_def, ← BitVec.toNat_inj]
    omega
  simp only [le, Before, Bool.or_eq_true, Bool.and_eq_true, decide_eq_true_eq, hid]
  tauto

theorem FusedChunk.Before.asymm {a b : FusedChunk} (hab : a.Before b) : ¬ b.Before a := by
  unfold Before at *
  grind

instance : Std.Total fun a b : FusedChunk => a.le b = true := ⟨fun a b => by
  simp only [FusedChunk.le_iff, FusedChunk.Before]
  grind⟩

instance : IsTrans FusedChunk fun a b => a.le b = true := ⟨fun a b c hab hbc => by
  simp only [FusedChunk.le_iff, FusedChunk.Before] at *
  grind⟩

/-- **The fusion of hits**: it has each chunk once, and the chunks in their order. -/
theorem isFusion (hk : 1 ≤ k) (hits : List RankedHit) :
    ∃ fused, reciprocalRankFusion hits k = .ok fused ∧ IsFusion k hits fused := by
  have hgrouped := grouped_foldl hits
  refine ⟨_, if_neg (Nat.not_lt.2 hk), ?_⟩
  generalize hits.foldl addHit [] = grouped at hgrouped
  generalize hunsorted : grouped.map (fun group => (⟨group.1, rrfScore k group.2, group.2⟩ : FusedChunk)) = unsorted
  have hids : unsorted.map (·.chunkId) = grouped.map (·.1) := by
    rw [← hunsorted, List.map_map]
    rfl
  have hperm : (unsorted.insertionSort fun a b => a.le b).Perm unsorted := List.perm_insertionSort _ _
  have honce : ((unsorted.insertionSort fun a b => a.le b).map (·.chunkId)).Nodup := by
    rw [(hperm.map _).nodup_iff, hids]
    exact hgrouped.once
  refine ⟨honce, fun id => ?_, fun f hf => ?_, ?_⟩
  · rw [(hperm.map _).mem_iff, hids]
    exact hgrouped.covers id
  · rw [hperm.mem_iff, ← hunsorted] at hf
    obtain ⟨group, hgroup, rfl⟩ := List.mem_map.1 hf
    have hall := hgrouped.all group hgroup
    exact ⟨hall, by rw [scoreOf, ← hall]⟩
  · have hsorted : (unsorted.insertionSort fun a b => a.le b).Pairwise fun a b => a.le b = true :=
      List.pairwise_insertionSort _ _
    refine (hsorted.and (List.pairwise_map.1 honce)).imp fun {a b} hab => ?_
    exact (FusedChunk.le_iff.1 hab.1).resolve_right fun heq => hab.2 heq.2

/-! ## Two fusions -/

theorem scoreOf_perm (h : hits.Perm hits') (id : Uuid) : scoreOf k hits id = scoreOf k hits' id :=
  ((h.filter _).map _).sum_eq

/-- The chunk and its score. -/
def FusedChunk.scored (f : FusedChunk) : Uuid × ℚ := (f.chunkId, f.fusedScore)

theorem IsFusion.mem_scored (h : IsFusion k hits fused) {id : Uuid} {score : ℚ} :
    (id, score) ∈ fused.map (·.scored) ↔ id ∈ hits.map (·.chunkId) ∧ score = scoreOf k hits id := by
  rw [← h.covers]
  constructor
  · intro hmem
    obtain ⟨f, hf, heq⟩ := List.mem_map.1 hmem
    cases heq
    exact ⟨List.mem_map_of_mem hf, (h.all f hf).2⟩
  · intro ⟨hid, hscore⟩
    obtain ⟨f, hf, rfl⟩ := List.mem_map.1 hid
    refine List.mem_map.2 ⟨f, hf, ?_⟩
    rw [FusedChunk.scored, hscore, (h.all f hf).2]

/-- **The order of the hits does not matter**: neither to the chunks, nor to their scores and their order. -/
theorem IsFusion.eq_of_perm (h : IsFusion k hits fused) (h' : IsFusion k hits' fused') (hperm : hits.Perm hits') :
    fused.map (·.scored) = fused'.map (·.scored) := by
  have hnodup : ∀ {hits : List RankedHit} {fused : List FusedChunk}, IsFusion k hits fused →
      (fused.map (·.scored)).Nodup := fun h =>
    List.Nodup.of_map Prod.fst (by rw [List.map_map]; exact h.once)
  have hmem : (fused.map (·.scored)).Perm (fused'.map (·.scored)) := by
    refine (List.perm_ext_iff_of_nodup (hnodup h) (hnodup h')).2 fun (id, score) => ?_
    rw [h.mem_scored, h'.mem_scored, scoreOf_perm hperm, (hperm.map _).mem_iff]
  have hsorted : ∀ {hits : List RankedHit} {fused : List FusedChunk}, IsFusion k hits fused →
      (fused.map (·.scored)).Pairwise fun a b => b.2 < a.2 ∨ a.2 = b.2 ∧ a.1 < b.1 := fun h =>
    List.pairwise_map.2 h.sorted
  refine hmem.eq_of_pairwise (fun a b _ _ hab hba => ?_) (hsorted h) (hsorted h')
  grind

/-- The one chunk stands before the other. -/
def Precedes (fused : List FusedChunk) (c d : Uuid) : Prop := [c, d].Sublist (fused.map (·.chunkId))

theorem IsFusion.precedes_iff (h : IsFusion k hits fused) {c d : Uuid} : Precedes fused c d ↔
    c ∈ hits.map (·.chunkId) ∧ d ∈ hits.map (·.chunkId) ∧
      (scoreOf k hits d < scoreOf k hits c ∨ scoreOf k hits c = scoreOf k hits d ∧ c < d) := by
  rw [← h.covers, ← h.covers]
  constructor
  · intro hsub
    refine ⟨hsub.subset (by simp), hsub.subset (by simp), ?_⟩
    obtain ⟨pair, hpair, heq⟩ := List.sublist_map_iff.1 hsub
    obtain ⟨f, rest, rfl, rfl, hrest⟩ := List.map_eq_cons_iff.1 heq.symm
    obtain ⟨g, _, rfl, rfl, hnil⟩ := List.map_eq_cons_iff.1 hrest
    have hbefore : f.Before g := List.rel_of_pairwise_cons (h.sorted.sublist hpair) List.mem_cons_self
    rw [← (h.all f (hpair.subset (by simp))).2, ← (h.all g (hpair.subset (by simp))).2]
    exact hbefore
  · intro ⟨hc, hd, hbefore⟩
    obtain ⟨f, hf, rfl⟩ := List.mem_map.1 hc
    obtain ⟨g, hg, rfl⟩ := List.mem_map.1 hd
    rw [← (h.all f hf).2, ← (h.all g hg).2] at hbefore
    obtain ⟨before, after, rfl⟩ := List.append_of_mem hf
    rw [Precedes, List.map_append, List.map_cons]
    rcases List.mem_append.1 hg with hfront | hback
    · have hgf : g.Before f := (List.pairwise_append.1 h.sorted).2.2 g hfront f List.mem_cons_self
      exact absurd hgf (FusedChunk.Before.asymm hbefore)
    · rcases List.mem_cons.1 hback with rfl | hback
      · exact absurd hbefore (FusedChunk.Before.asymm hbefore)
      · have hlast : [g.chunkId].Sublist (after.map (·.chunkId)) :=
          List.singleton_sublist.2 (List.mem_map_of_mem hback)
        exact (hlast.cons_cons f.chunkId).trans (List.sublist_append_right _ _)

/-- A change that is to the good of a chunk: one of its hits at a better rank, or one more. -/
inductive Improves (c : Uuid) : List RankedHit → List RankedHit → Prop
  | rank {before after : List RankedHit} {hit : RankedHit} {rank : Nat} (hc : hit.chunkId = c)
    (hrank : rank < hit.rank) :
    Improves c (before ++ hit :: after) (before ++ { hit with rank } :: after)
  | hit {before after : List RankedHit} {hit : RankedHit} (hc : hit.chunkId = c) :
    Improves c (before ++ after) (before ++ hit :: after)

theorem rrfScore_append (left right : List RankedHit) :
    rrfScore k (left ++ right) = rrfScore k left + rrfScore k right := by
  rw [rrfScore, List.map_append, List.sum_append, rrfScore, rrfScore]

theorem rrfScore_cons (hit : RankedHit) (hits : List RankedHit) :
    rrfScore k (hit :: hits) = 1 / ((k : ℚ) + hit.rank) + rrfScore k hits := by
  rw [rrfScore, List.map_cons, List.sum_cons, rrfScore]

theorem Improves.score_le {c : Uuid} (h : Improves c hits hits') (hk : 1 ≤ k) :
    scoreOf k hits c ≤ scoreOf k hits' c := by
  have hpos : (0 : ℚ) < k := by exact_mod_cast hk
  cases h with
  | @rank before after hit rank hc hrank =>
    simp only [scoreOf, hitsOf, List.filter_append, List.filter_cons, hc, decide_true, if_true, rrfScore_append,
      rrfScore_cons]
    have hlt : (rank : ℚ) < hit.rank := by exact_mod_cast hrank
    have hless : 1 / ((k : ℚ) + hit.rank) ≤ 1 / ((k : ℚ) + rank) := by gcongr
    gcongr
  | @hit before after hit hc =>
    simp only [scoreOf, hitsOf, List.filter_append, List.filter_cons, hc, decide_true, if_true, rrfScore_append,
      rrfScore_cons]
    have hnonneg : (0 : ℚ) ≤ 1 / ((k : ℚ) + hit.rank) := by positivity
    linarith

theorem Improves.hitsOf_other {c d : Uuid} (h : Improves c hits hits') (hd : d ≠ c) :
    hitsOf hits' d = hitsOf hits d := by
  have hne : c ≠ d := Ne.symm hd
  cases h with
  | rank hc _ => simp [hitsOf, hc, hne]
  | hit hc => simp [hitsOf, hc, hne]

theorem Improves.mem_ids {c d : Uuid} (h : Improves c hits hits') (hd : d ∈ hits.map (·.chunkId)) :
    d ∈ hits'.map (·.chunkId) := by
  cases h with
  | rank hc _ => simpa using hd
  | hit hc => grind

/-- **A better hit costs a chunk no place**: what it stood before, it still stands before. -/
theorem Improves.precedes {c d : Uuid} (himproves : Improves c hits hits') (hk : 1 ≤ k) (h : IsFusion k hits fused)
    (h' : IsFusion k hits' fused') (hd : d ≠ c) (hbefore : Precedes fused c d) : Precedes fused' c d := by
  rw [h.precedes_iff] at hbefore
  obtain ⟨hcmem, hdmem, hscores⟩ := hbefore
  have hc : scoreOf k hits c ≤ scoreOf k hits' c := himproves.score_le hk
  have hsame : scoreOf k hits' d = scoreOf k hits d := by rw [scoreOf, himproves.hitsOf_other hd, scoreOf]
  refine h'.precedes_iff.2 ⟨himproves.mem_ids hcmem, himproves.mem_ids hdmem, ?_⟩
  rw [hsame]
  grind

/-! ## RetrieveChunks._fused -/

/-- A final result: the row, its score and rank, and what each retriever had it at. -/
structure RetrievedChunk (Score : Type) where
  row : RetrievedRow Score
  score : Score
  rank : Nat
  retrieverScores : List (String × Score) := []
  retrieverRanks : List (String × Nat) := []

/-- `{key(hit): value(hit) for hit in hits}`: the last value of a key, where the key was first. -/
def dictOf {β : Type} (value : RankedHit → β) (hits : List RankedHit) : List (String × β) :=
  hits.foldl (fun entries hit =>
    if entries.any (·.1 = hit.retrieverId) then
      entries.map fun entry => if entry.1 = hit.retrieverId then (entry.1, value hit) else entry
    else entries ++ [(hit.retrieverId, value hit)]) []

/-- The hit that a retriever's row is. -/
def hitOf (retriever : String) (row : RetrievedRow ℚ) : RankedHit :=
  ⟨row.chunk.id, row.rawScore, row.retrieverRank, retriever⟩

/-- The hits of both retrievers, the lexical ones first. -/
def fusedHits (lexical vector : List (RetrievedRow ℚ)) : List RankedHit :=
  lexical.map (hitOf "lexical") ++ vector.map (hitOf "vector")

/-- `rows_by_id`: a later row of a chunk replaces an earlier one. -/
def rowsById (rows : List (RetrievedRow ℚ)) : Uuid → Option (RetrievedRow ℚ) :=
  rows.foldl (fun byId row => Function.update byId row.chunk.id (some row)) fun _ => none

/-- The result of an entry at its position; a KeyError where no row has its id. -/
def resultOf (byId : Uuid → Option (RetrievedRow ℚ)) (entry : FusedChunk × Nat) :
    Except FusionError (RetrievedChunk ℚ) :=
  match byId entry.1.chunkId with
  | none => .error .key
  | some row => .ok {
      row
      score := entry.1.fusedScore
      rank := entry.2
      retrieverScores := dictOf (·.score) entry.1.hits
      retrieverRanks := dictOf (·.rank) entry.1.hits }

/-- `_fused`, once both retrievers have returned their rows. -/
def retrieveFused (topK : Nat) (lexical vector : List (RetrievedRow ℚ)) :
    Except FusionError (List (RetrievedChunk ℚ)) := do
  let fused ← reciprocalRankFusion (fusedHits lexical vector) 60
  ((fused.take topK).zipIdx 1).mapM (resultOf (rowsById (lexical ++ vector)))

/-- The last row of each chunk, and one for each chunk that has any. -/
theorem rowsById_spec (rows : List (RetrievedRow ℚ)) (id : Uuid) :
    (id ∈ rows.map (·.chunk.id) → ∃ row, rowsById rows id = some row) ∧
      ∀ row, rowsById rows id = some row → row ∈ rows ∧ row.chunk.id = id := by
  induction rows using List.reverseRecOn with
  | nil => simp [rowsById]
  | append_singleton rows last ih =>
    have hrow : rowsById (rows ++ [last]) id = if id = last.chunk.id then some last else rowsById rows id := by
      rw [rowsById, List.foldl_append]
      simp only [List.foldl_cons, List.foldl_nil, Function.update_apply, rowsById]
    rw [hrow]
    by_cases hid : id = last.chunk.id
    · simp [hid]
    · simp only [hid, if_false, List.map_append, List.map_cons, List.map_nil, List.mem_append, List.mem_singleton,
        or_false]
      exact ⟨ih.1, fun row h => ⟨.inl (ih.2 row h).1, (ih.2 row h).2⟩⟩

theorem fusedHits_ids (lexical vector : List (RetrievedRow ℚ)) :
    (fusedHits lexical vector).map (·.chunkId) = (lexical ++ vector).map (·.chunk.id) := by
  simp only [fusedHits, List.map_append, List.map_map]
  rfl

/-- A result is of an entry, at its position, with a row of its chunk. -/
def RetrievedChunk.Of (rows : List (RetrievedRow ℚ)) (result : RetrievedChunk ℚ) (entry : FusedChunk × Nat) : Prop :=
  result.row ∈ rows ∧ result.row.chunk.id = entry.1.chunkId ∧ result.score = entry.1.fusedScore ∧
    result.rank = entry.2 ∧
    result.retrieverScores = dictOf (·.score) entry.1.hits ∧ result.retrieverRanks = dictOf (·.rank) entry.1.hits

theorem resultOf_of {rows : List (RetrievedRow ℚ)} {entry : FusedChunk × Nat}
    (h : entry.1.chunkId ∈ rows.map (·.chunk.id)) :
    ∃ result, resultOf (rowsById rows) entry = .ok result ∧ result.Of rows entry := by
  obtain ⟨hsome, hmem⟩ := rowsById_spec rows entry.1.chunkId
  obtain ⟨row, hrow⟩ := hsome h
  obtain ⟨hin, hid⟩ := hmem row hrow
  simp only [resultOf, hrow]
  exact ⟨_, rfl, hin, hid, rfl, rfl, rfl, rfl⟩

theorem results_of {rows : List (RetrievedRow ℚ)} {entries : List (FusedChunk × Nat)}
    (h : ∀ entry ∈ entries, entry.1.chunkId ∈ rows.map (·.chunk.id)) :
    ∃ results, entries.mapM (resultOf (rowsById rows)) = .ok results ∧
      List.Forall₂ (fun result entry => result.Of rows entry) results entries := by
  induction entries with
  | nil => exact ⟨[], rfl, .nil⟩
  | cons entry entries ih =>
    obtain ⟨results, hresults, hall⟩ := ih fun e he => h e (List.mem_cons_of_mem _ he)
    obtain ⟨result, hresult, hof⟩ := resultOf_of (h entry List.mem_cons_self)
    refine ⟨result :: results, ?_, .cons hof hall⟩
    rw [List.mapM_cons, hresult, hresults]
    rfl

/-- **Rank fusion** does not depend on the order of the hits, and a better hit costs a chunk no place before
the chunks whose hits are the same; `_fused` returns the first of it, each with a row of its chunk. -/
theorem rank_fusion {k : Nat} (hk : 1 ≤ k) (hits : List RankedHit) :
    (∃ fused, reciprocalRankFusion hits k = .ok fused ∧ IsFusion k hits fused ∧
      (∀ hits', hits.Perm hits' → ∃ fused', reciprocalRankFusion hits' k = .ok fused' ∧
        fused'.map (·.scored) = fused.map (·.scored)) ∧
      ∀ c hits', Improves c hits hits' → ∃ fused', reciprocalRankFusion hits' k = .ok fused' ∧
        ∀ d, d ≠ c → Precedes fused c d → Precedes fused' c d) ∧
    ∀ topK lexical vector, ∃ fused results, reciprocalRankFusion (fusedHits lexical vector) 60 = .ok fused ∧
      retrieveFused topK lexical vector = .ok results ∧
      List.Forall₂ (fun result entry => result.Of (lexical ++ vector) entry) results ((fused.take topK).zipIdx 1) := by
  constructor
  · obtain ⟨fused, hfused, hspec⟩ := isFusion hk hits
    refine ⟨fused, hfused, hspec, fun hits' hperm => ?_, fun c hits' himproves => ?_⟩
    · obtain ⟨fused', hfused', hspec'⟩ := isFusion hk hits'
      exact ⟨fused', hfused', (hspec.eq_of_perm hspec' hperm).symm⟩
    · obtain ⟨fused', hfused', hspec'⟩ := isFusion hk hits'
      exact ⟨fused', hfused', fun d hd hbefore => himproves.precedes hk hspec hspec' hd hbefore⟩
  · intro topK lexical vector
    obtain ⟨fused, hfused, hspec⟩ := isFusion (k := 60) (by decide) (fusedHits lexical vector)
    have hrows : ∀ entry ∈ (fused.take topK).zipIdx 1, entry.1.chunkId ∈ (lexical ++ vector).map (·.chunk.id) := by
      intro entry hentry
      have hmem : entry.1 ∈ fused := List.mem_of_mem_take (List.fst_mem_of_mem_zipIdx hentry)
      rw [← fusedHits_ids, ← hspec.covers]
      exact List.mem_map_of_mem hmem
    obtain ⟨results, hresults, hall⟩ := results_of hrows
    refine ⟨fused, results, hfused, ?_, hall⟩
    rw [retrieveFused, hfused]
    exact hresults

theorem rank_fusion_pair :
    ∃ fused fused', reciprocalRankFusion [⟨7, 0, 2, "lexical"⟩, ⟨5, 0, 1, "vector"⟩] 60 = .ok fused ∧
      reciprocalRankFusion [⟨5, 0, 1, "vector"⟩, ⟨7, 0, 2, "lexical"⟩] 60 = .ok fused' ∧
      fused'.map (·.scored) = fused.map (·.scored) := by
  obtain ⟨fused, hfused, -, hperm, -⟩ :=
    (rank_fusion (by decide : 1 ≤ 60) [⟨7, 0, 2, "lexical"⟩, ⟨5, 0, 1, "vector"⟩]).1
  obtain ⟨fused', hfused', heq⟩ := hperm [⟨5, 0, 1, "vector"⟩, ⟨7, 0, 2, "lexical"⟩] (.swap _ _ _)
  exact ⟨fused, fused', hfused, hfused', heq⟩

end MilpbookLM
