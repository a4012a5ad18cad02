/-
The walk over provenance edges, bounded in depth and safe for cycles, and the restrictions
that follow from what it finds. What the edges of each frontier lead to holds of all ends that the
walk comes to (`walk_ends`). A cached result is
what would be computed (`Cache.Sound`).
-/
import MilpbookLM.Base.Uuid
import MilpbookLM.Domain.Jobs

namespace MilpbookLM.Provenance

/-! ## The walk -/

structure ProvenanceNode where
  nodeType : String
  nodeId : Uuid
  versionId : Option Uuid := none
  deriving DecidableEq

/-- An edge reads "from edge_type to". -/
structure Edge where
  fromNode : ProvenanceNode
  edgeType : String
  toNode : ProvenanceNode
  deriving DecidableEq

def maxProvenanceDepth : Nat := 8

/-- The rounds of `bounded_ancestor_traversal`; a node is its own key. -/
def walk (outgoing : List ProvenanceNode → List Edge) : Nat → List ProvenanceNode → List ProvenanceNode → List Edge
  | 0, _, _ => []
  | depth + 1, visited, frontier =>
    if frontier.isEmpty then []
    else
      let edges := outgoing frontier
      let next := (edges.map (·.toNode)).filter (· ∉ visited)
      edges ++ walk outgoing depth (visited ++ next) next

/-- `bounded_ancestor_traversal`. -/
def boundedAncestorTraversal (start : ProvenanceNode) (outgoing : List ProvenanceNode → List Edge) : List Edge :=
  walk outgoing maxProvenanceDepth [start] [start]

variable {outgoing : List ProvenanceNode → List Edge}

/-- **What the edges of a frontier lead to**, where it holds of the start, or of what they led to before. -/
theorem walk_ends {S T : ProvenanceNode → Prop} (hTS : ∀ n, T n → S n)
    (hstep : ∀ frontier, (∀ n ∈ frontier, S n) → ∀ e ∈ outgoing frontier, T e.toNode) {depth : Nat}
    {visited frontier : List ProvenanceNode} (h : ∀ n ∈ frontier, S n) :
    ∀ e ∈ walk outgoing depth visited frontier, T e.toNode := by
  induction depth generalizing visited frontier with
  | zero => exact fun _ he => nomatch he
  | succ depth ih =>
    intro e he
    simp only [walk] at he
    split at he
    · cases he
    · rcases List.mem_append.1 he with he | he
      · exact hstep frontier h e he
      · refine ih (fun n hn => ?_) e he
        obtain ⟨e', he', rfl⟩ := List.mem_map.1 (List.mem_filter.1 hn).1
        exact hTS _ (hstep frontier h e' he')

/-! ## Effective restrictions -/

structure RestrictionInputs where
  sourceVersionId : Uuid
  userId : Uuid
  sourceRevision : Nat
  restrictionPolicy : Option String
  ancestorVersionIds : List Uuid
  /-- The type, the user if it names one, and when it was made. -/
  restrictionRows : List (String × Option Uuid × String)
  deriving DecidableEq

structure EffectiveRestrictions where
  restrictionTypes : List String
  deriving DecidableEq

/-- `compute_effective_restrictions`. -/
def computeEffectiveRestrictions (inputs : RestrictionInputs) : EffectiveRestrictions :=
  let applicable := inputs.restrictionRows.filter fun row => row.2.1 = none || row.2.1 = some inputs.userId
  ⟨(applicable.map (·.1)).dedup.insertionSort (· ≤ ·)⟩

theorem mem_compute {inputs : RestrictionInputs} {restrictionType : String} :
    restrictionType ∈ (computeEffectiveRestrictions inputs).restrictionTypes ↔
      ∃ row ∈ inputs.restrictionRows, (row.2.1 = none ∨ row.2.1 = some inputs.userId) ∧ row.1 = restrictionType := by
  simp [computeEffectiveRestrictions, List.mem_insertionSort]

/-! ## The cache -/

/-- `EffectiveRestrictionCache`, the oldest entry first. -/
abbrev Cache := List (RestrictionInputs × EffectiveRestrictions)

def maxEntries : Nat := 256

namespace Cache

def get (cache : Cache) (inputs : RestrictionInputs) : Option EffectiveRestrictions :=
  (cache.find? (·.1 = inputs)).map (·.2)

def put (cache : Cache) (inputs : RestrictionInputs) (result : EffectiveRestrictions) : Cache :=
  if cache.any (·.1 = inputs) then cache.map fun entry => if entry.1 = inputs then (inputs, result) else entry
  else (if maxEntries ≤ cache.length then cache.drop 1 else cache) ++ [(inputs, result)]

/-- Every entry is what would be computed. -/
def Sound (cache : Cache) : Prop := ∀ entry ∈ cache, entry.2 = computeEffectiveRestrictions entry.1

variable {cache : Cache} {inputs : RestrictionInputs}

theorem Sound.get (h : cache.Sound) {result : EffectiveRestrictions} (hget : cache.get inputs = some result) :
    result = computeEffectiveRestrictions inputs := by
  obtain ⟨entry, hentry, rfl⟩ := Option.map_eq_some_iff.1 hget
  obtain rfl : entry.1 = inputs := by simpa using List.find?_some hentry
  exact h entry (List.mem_of_find?_eq_some hentry)

theorem Sound.put (h : cache.Sound) : (cache.put inputs (computeEffectiveRestrictions inputs)).Sound := by
  intro entry hentry
  simp only [Cache.put] at hentry
  split at hentry
  · obtain ⟨old, hold, rfl⟩ := List.mem_map.1 hentry
    split
    · rfl
    · exact h old hold
  · rcases List.mem_append.1 hentry with hold | hnew
    · split at hold
      · exact h entry (List.mem_of_mem_drop hold)
      · exact h entry hold
    · obtain rfl := List.mem_singleton.1 hnew
      rfl

end Cache

end MilpbookLM.Provenance
