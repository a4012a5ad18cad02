/-
The evidence of a grounded answer. `_assemble` keeps a count for each source and a sum of tokens
beside what it selected; these are what the selection adds up to (`assembleLoop_eq`), so that it
selects greedily under the quota and the budget (`assembly_greedy`).
-/
import MilpbookLM.Indexing.Fusion
import MilpbookLM.Lib.Greedy
import Mathlib.Algebra.BigOperators.Group.List.Basic

namespace MilpbookLM.Grounding

/-- An evidence id that the server owns, and the passage it stands for. -/
structure Evidence where
  id : String
  chunkId : Uuid
  sourceId : Uuid
  sourceVersionId : Uuid
  canonicalNodeId : Uuid
  charStart : Nat
  charEnd : Nat
  label : String
  text : Text
  tokenCount : Nat
  deriving DecidableEq

inductive GroundingError
  | raised (message : String)
  deriving DecidableEq

/-- DEFAULT_PER_SOURCE_QUOTA. -/
def defaultPerSourceQuota : Nat := 2

variable {Score : Type}

/-- The evidence of a row, the `number`-th that is selected. -/
def evidenceOf (number : Nat) (row : RetrievedRow Score) : Evidence where
  id := "e" ++ toString number
  chunkId := row.chunk.id
  sourceId := row.chunk.sourceId
  sourceVersionId := row.chunk.sourceVersionId
  canonicalNodeId := row.chunk.canonicalNodeId
  charStart := row.chunk.charStart
  charEnd := row.chunk.charEnd
  label := row.sourceTitle
  text := row.chunk.text
  tokenCount := row.chunk.tokenCount

/-- The loop of `_assemble`. -/
def assembleLoop (tokenBudget : Int) (selected : List Evidence) (perSource : Uuid → Nat) (usedTokens : Nat) :
    List (RetrievedChunk Score) → List Evidence
  | [] => selected
  | entry :: results =>
    let row := entry.row
    let count := perSource row.chunk.sourceId
    if defaultPerSourceQuota ≤ count then assembleLoop tokenBudget selected perSource usedTokens results
    else if tokenBudget < usedTokens + row.chunk.tokenCount then
      assembleLoop tokenBudget selected perSource usedTokens results
    else
      assembleLoop tokenBudget (selected ++ [evidenceOf (selected.length + 1) row])
        (Function.update perSource row.chunk.sourceId (count + 1)) (usedTokens + row.chunk.tokenCount) results

/-- `_assemble`. -/
def assemble (results : List (RetrievedChunk Score)) (tokenBudget : Int) : Except GroundingError (List Evidence) :=
  if tokenBudget < 1 then .error (.raised "token budget must be positive")
  else .ok (assembleLoop tokenBudget [] (fun _ => 0) 0 results)

/-! ## What is selected -/

/-- The entries of a source. -/
def ofSource (sourceId : Uuid) (entries : List (RetrievedChunk Score)) : Nat :=
  entries.countP (·.row.chunk.sourceId = sourceId)

def tokensOf (entries : List (RetrievedChunk Score)) : Nat := (entries.map (·.row.chunk.tokenCount)).sum

/-- With what is selected, an entry is under its source's quota and within the budget. -/
def fits (tokenBudget : Int) (selected : List (RetrievedChunk Score)) (entry : RetrievedChunk Score) : Bool :=
  ofSource entry.row.chunk.sourceId selected < defaultPerSourceQuota &&
    tokensOf selected + entry.row.chunk.tokenCount ≤ tokenBudget

/-- The evidence of what is selected, numbered from one. -/
def evidencesOf (selected : List (RetrievedChunk Score)) : List Evidence :=
  (selected.zipIdx 1).map fun entry => evidenceOf entry.2 entry.1.row

variable {tokenBudget : Int} {selected results : List (RetrievedChunk Score)} {entry : RetrievedChunk Score}

@[simp] theorem evidencesOf_length : (evidencesOf selected).length = selected.length := by simp [evidencesOf]

theorem evidencesOf_concat : evidencesOf (selected ++ [entry]) =
    evidencesOf selected ++ [evidenceOf ((evidencesOf selected).length + 1) entry.row] := by
  rw [evidencesOf_length, evidencesOf, List.zipIdx_append, List.map_append, evidencesOf]
  simp [Nat.add_comm]

theorem tokensOf_concat : tokensOf (selected ++ [entry]) = tokensOf selected + entry.row.chunk.tokenCount := by
  simp [tokensOf]

theorem ofSource_concat (sourceId : Uuid) : ofSource sourceId (selected ++ [entry]) =
    ofSource sourceId selected + if entry.row.chunk.sourceId = sourceId then 1 else 0 := by
  simp [ofSource, List.countP_singleton]

theorem fits_iff : fits tokenBudget selected entry = true ↔
    ofSource entry.row.chunk.sourceId selected < defaultPerSourceQuota ∧
      tokensOf selected + entry.row.chunk.tokenCount ≤ tokenBudget := by
  simp only [fits, Bool.and_eq_true, decide_eq_true_eq]

/-- **The loop selects greedily**: the counts and the sum that it keeps are those of what it selected. -/
theorem assembleLoop_eq (selected results : List (RetrievedChunk Score)) :
    assembleLoop tokenBudget (evidencesOf selected) (fun id => ofSource id selected) (tokensOf selected) results =
      evidencesOf (Greedy.selectFrom (fits tokenBudget) selected results) := by
  induction results generalizing selected with
  | nil => rfl
  | cons entry results ih =>
    simp only [assembleLoop, Greedy.selectFrom]
    by_cases hquota : defaultPerSourceQuota ≤ ofSource entry.row.chunk.sourceId selected
    · have hfits : fits tokenBudget selected entry = false :=
        Bool.eq_false_iff.2 fun h => absurd (fits_iff.1 h).1 (by omega)
      simp only [hquota, if_true, hfits, Bool.false_eq_true, if_false]
      exact ih selected
    · by_cases hbudget : tokenBudget < tokensOf selected + entry.row.chunk.tokenCount
      · have hfits : fits tokenBudget selected entry = false :=
          Bool.eq_false_iff.2 fun h => absurd (fits_iff.1 h).2 (by omega)
        simp only [hquota, if_false, hbudget, if_true, hfits, Bool.false_eq_true]
        exact ih selected
      · have hfits : fits tokenBudget selected entry = true := fits_iff.2 ⟨by omega, by omega⟩
        have hcounts : Function.update (fun id => ofSource id selected) entry.row.chunk.sourceId
            (ofSource entry.row.chunk.sourceId selected + 1) = fun id => ofSource id (selected ++ [entry]) := by
          funext id
          rw [Function.update_apply, ofSource_concat]
          by_cases hid : id = entry.row.chunk.sourceId
          · simp [hid]
          · simp [hid, Ne.symm hid]
        simp only [hquota, if_false, hbudget, hfits, if_true, hcounts, ← evidencesOf_concat, ← tokensOf_concat]
        exact ih (selected ++ [entry])

theorem assemble_eq (hbudget : 1 ≤ tokenBudget) :
    assemble results tokenBudget = .ok (evidencesOf (Greedy.select (fits tokenBudget) results)) := by
  rw [assemble, if_neg (by omega)]
  exact congrArg _ (assembleLoop_eq [] results)

/-- What is selected keeps to the quota of each source and to the budget. -/
theorem select_within (hbudget : 1 ≤ tokenBudget) (results : List (RetrievedChunk Score)) :
    (∀ id, ofSource id (Greedy.select (fits tokenBudget) results) ≤ 2) ∧
      tokensOf (Greedy.select (fits tokenBudget) results) ≤ tokenBudget := by
  refine Greedy.select_invariant
    (P := fun selected => (∀ id, ofSource id selected ≤ 2) ∧ tokensOf selected ≤ tokenBudget)
    ⟨fun id => Nat.zero_le 2, by simp [tokensOf]; omega⟩ fun selected entry ⟨hcounts, _⟩ hfits => ?_
  obtain ⟨hquota, hsum⟩ := fits_iff.1 hfits
  refine ⟨fun id => ?_, by rw [tokensOf_concat]; exact_mod_cast hsum⟩
  rw [ofSource_concat]
  split
  next hid =>
    rw [← hid]
    exact hquota
  next => exact hcounts id

/-- **The evidence of an answer** is selected greedily: it is of a subsequence of the results, within the quota of
each source and the budget, and a result is passed over only if its source has two before it, or if it would have
exceeded the budget with what was selected before it. -/
theorem assembly_greedy (hbudget : 1 ≤ tokenBudget) (results : List (RetrievedChunk Score)) :
    ∃ chosen, assemble results tokenBudget = .ok (evidencesOf chosen) ∧ chosen.Sublist results ∧
      (∀ sourceId, ofSource sourceId chosen ≤ 2) ∧ tokensOf chosen ≤ tokenBudget ∧
      ∀ before entry after, results = before ++ entry :: after → ∃ earlier later,
        assemble before tokenBudget = .ok (evidencesOf earlier) ∧ earlier.Sublist before ∧ later.Sublist after ∧
        (chosen = earlier ++ entry :: later ∨
          chosen = earlier ++ later ∧ (ofSource entry.row.chunk.sourceId earlier = 2 ∨
            tokenBudget < tokensOf earlier + entry.row.chunk.tokenCount)) := by
  obtain ⟨hcounts, hsum⟩ := select_within hbudget results
  refine ⟨_, assemble_eq hbudget, Greedy.select_sublist, hcounts, hsum, ?_⟩
  intro before entry after hresults
  subst hresults
  obtain ⟨later, hsub, hat⟩ := Greedy.select_at (fits tokenBudget) before after entry
  refine ⟨_, later, assemble_eq hbudget, Greedy.select_sublist, hsub, ?_⟩
  rcases hat with ⟨_, heq⟩ | ⟨hfits, heq⟩
  · exact .inl heq
  · refine .inr ⟨heq, ?_⟩
    have hnot : ¬ fits tokenBudget (Greedy.select (fits tokenBudget) before) entry = true := by simp [hfits]
    have hle : ofSource entry.row.chunk.sourceId (Greedy.select (fits tokenBudget) before) ≤ 2 :=
      (select_within hbudget before).1 _
    rw [fits_iff, defaultPerSourceQuota] at hnot
    omega

/-- A result with a row of a source, and nothing else of interest. -/
def passage (sourceId : Uuid) (tokenCount : Nat) : RetrievedChunk Nat where
  row := {
    chunk := {
      id := 0, indexGenerationId := 0, canonicalDocumentId := 0, canonicalNodeId := 0, notebookId := 0, sourceId
      sourceVersionId := 0, charStart := 0, charEnd := 0, language := "", chunkerRevision := "", tokenCount
      textChecksum := "", text := [], sectionAncestry := [], nodeSpans := [], prevChunkId := none, nextChunkId := none }
    sourceTitle := ""
    rawScore := 0
    retrieverRank := 1 }
  score := 0
  rank := 1

theorem assembly_greedy_pair : ∃ chosen, assemble [passage 1 9, passage 1 3] 5 = .ok (evidencesOf chosen) ∧
    chosen.Sublist [passage 1 9, passage 1 3] ∧ tokensOf chosen ≤ (5 : Int) := by
  obtain ⟨chosen, hassemble, hsub, -, hsum, -⟩ :=
    assembly_greedy (by decide : (1 : Int) ≤ 5) [passage 1 9, passage 1 3]
  exact ⟨chosen, hassemble, hsub, hsum⟩

end MilpbookLM.Grounding
