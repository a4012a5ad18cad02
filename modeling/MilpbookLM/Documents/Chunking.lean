/-
Structural chunking of a canonical document: the tree is walked for its units of
text (`collectUnits`), these are grouped under the token budget (`groupUnits`), and
each group is a chunk that cites the node of its first unit.

`chunk_cites`: a chunk's span lies in the text of the node it cites, or the node is a
table. `Prose`: of units that are neither headings nor tables, the groups are told
by their tokens alone.
-/
import Mathlib.Data.List.Sort
import MilpbookLM.Documents.Canonical
import MilpbookLM.Lib.Table

namespace MilpbookLM

structure ChunkerProfile where
  name : String
  revision : String
  maxTokens : Nat
  tokenEstimator : String := "whitespace-word-v1"

/-- STRUCTURAL_CHUNKER_V1. -/
def structuralChunkerV1 : ChunkerProfile := { name := "structural", revision := "1", maxTokens := 400 }

/-- A span of one node's text. -/
structure NodeSpan where
  nodeId : Uuid
  charStart : Nat
  charEnd : Nat
  deriving DecidableEq

structure Chunk where
  chunkId : Uuid
  nodeId : Uuid
  charStart : Nat
  charEnd : Nat
  text : Text
  tokenCount : Nat
  language : String
  sectionAncestry : List Uuid
  nodeSpans : List NodeSpan
  order : Nat
  prevChunkId : Option Uuid := none
  nextChunkId : Option Uuid := none
  textChecksum : String
  deriving DecidableEq

/-- `_Unit`: a text taken out of the tree. -/
structure ChunkUnit where
  nodeId : Uuid
  charStart : Nat
  charEnd : Nat
  text : Text
  language : String
  kind : NodeKind
  sectionAncestry : List Uuid
  nodeSpans : List NodeSpan

/-! ## The tree -/

namespace CanonicalDocument

variable (document : CanonicalDocument)

/-- `nodes[node_id]`; of two nodes under one id the dict has the last. -/
def node? (id : Uuid) : Option CanonicalNode := Table.lookup (·.nodeId) document.nodes.reverse id

/-- `children.get(node_id, ())`, in the order of `child_order`. -/
def children (id : Uuid) : List CanonicalNode :=
  (document.nodes.filter (·.parentId = some id)).insertionSort fun a b => a.childOrder ≤ b.childOrder

def defaultLanguage : String := document.languages.head?.getD "und"

/-- `_table_text`. -/
def tableText (node : CanonicalNode) : Text :=
  let children := document.children node.nodeId
  let rows := children.filter (·.kind = .row)
  if rows ≠ [] then
    joinWith ['\n'] (rows.map fun row =>
      joinWith " | ".toList
        (((document.children row.nodeId).filter (·.kind = .cell)).map (·.textOrEmpty)))
  else joinWith ['\n'] ((children.map (·.textOrEmpty)).filter (· ≠ []))

/-- The text of a node as a unit: of a table the one made of its cells. -/
def ownText (node : CanonicalNode) : Text := if node.kind = .table then document.tableText node else node.textOrEmpty

/-- The unit of a whole text of a node. -/
def unitOf (node : CanonicalNode) (text : Text) (ancestry : List Uuid) : ChunkUnit where
  nodeId := node.nodeId
  charStart := 0
  charEnd := text.length
  text
  language := (node.language.filter (· ≠ "")).getD document.defaultLanguage
  kind := node.kind
  sectionAncestry := ancestry
  nodeSpans := [⟨node.nodeId, 0, text.length⟩]

/-- No unit is made of a blank text. -/
def wholeUnit (node : CanonicalNode) (text : Text) (ancestry : List Uuid) : List ChunkUnit :=
  if isBlank text then [] else [document.unitOf node text ancestry]

/-- The kinds that only hold other nodes. -/
def holdsNodes : NodeKind → Bool
  | .document | .section | .page | .slide | .sheet | .figure | .generic => true
  | _ => false

/-- The kinds that are named in the ancestry of what they hold. -/
def isSection : NodeKind → Bool
  | .section | .page | .slide | .sheet => true
  | _ => false

/-- `_walk_units`; none where an id names no node, and for a tree deeper than the fuel. -/
def walkUnits : Nat → List Uuid → Uuid → Option (List ChunkUnit)
  | 0, _, _ => none
  | fuel + 1, ancestry, id => do
    let node ← document.node? id
    if holdsNodes node.kind then
      let extended := if isSection node.kind then ancestry ++ [node.nodeId] else ancestry
      let units ← ((document.children id).map (·.nodeId)).mapM (walkUnits fuel extended)
      pure units.flatten
    else if node.kind = .heading then
      pure (document.wholeUnit node node.textOrEmpty (ancestry ++ [node.nodeId]))
    else if node.kind = .list then
      let units ← ((document.children id).map (·.nodeId)).mapM (walkUnits fuel ancestry)
      pure units.flatten
    else if node.kind = .table then pure (document.wholeUnit node (document.tableText node) ancestry)
    else pure (document.wholeUnit node node.textOrEmpty ancestry)

/-- `_collect_units`; no branch of a tree is longer than its nodes. -/
def collectUnits : Option (List ChunkUnit) :=
  (document.rootNodeIds.mapM (document.walkUnits (document.nodes.length + 1) [])).map List.flatten

end CanonicalDocument

/-! ## Groups -/

/-- `_merge_units`: the first unit stays the target of the citation. -/
def mergeUnits (first second : ChunkUnit) : ChunkUnit :=
  { first with text := first.text ++ '\n' :: second.text, nodeSpans := first.nodeSpans ++ second.nodeSpans }

/-- `_window_end`. -/
def windowEnd (text : Text) (start maxTokens : Nat) : Nat :=
  max (start + lastTokenEnd maxTokens (text.drop start)) (min text.length (start + 1))

/-- The windows from `start` on; each takes a character at least. -/
def windows (text : Text) (maxTokens : Nat) : Nat → Nat → List (Nat × Nat)
  | 0, _ => []
  | fuel + 1, start =>
    if start < text.length then
      let stop := windowEnd text start maxTokens
      (start, stop) :: windows text maxTokens fuel stop
    else []

/-- `_split_unit`. -/
def splitUnit (unit : ChunkUnit) (maxTokens : Nat) : List ChunkUnit :=
  (windows unit.text maxTokens unit.text.length 0).map fun window =>
    { unit with
      charStart := window.1
      charEnd := window.2
      text := (unit.text.drop window.1).take (window.2 - window.1)
      nodeSpans := [⟨unit.nodeId, window.1, window.2⟩] }

/-- The units that join the cursor, and those from the first on that does not. -/
def mergeRun (maxTokens : Nat) : ChunkUnit → List ChunkUnit → ChunkUnit × List ChunkUnit
  | cursor, [] => (cursor, [])
  | cursor, candidate :: units =>
    if candidate.kind = .heading then (cursor, candidate :: units)
    else if estimateTokens candidate.text > maxTokens ∧ candidate.kind ≠ .table then (cursor, candidate :: units)
    else if estimateTokens (cursor.text ++ '\n' :: candidate.text) > maxTokens then (cursor, candidate :: units)
    else mergeRun maxTokens (mergeUnits cursor candidate) units

/-- A heading takes the next unit along where both fit. -/
def attachHeading (maxTokens : Nat) (heading : ChunkUnit) : List ChunkUnit → ChunkUnit × List ChunkUnit
  | [] => (heading, [])
  | next :: units =>
    if next.kind ≠ .table ∧ estimateTokens (heading.text ++ '\n' :: next.text) ≤ maxTokens then
      (mergeUnits heading next, units)
    else (heading, next :: units)

/-- `_group_units`; every round takes a unit at least. -/
def groupUnits (maxTokens : Nat) : Nat → List ChunkUnit → List ChunkUnit
  | 0, _ => []
  | _, [] => []
  | fuel + 1, unit :: units =>
    if unit.kind = .table then unit :: groupUnits maxTokens fuel units
    else if estimateTokens unit.text > maxTokens then splitUnit unit maxTokens ++ groupUnits maxTokens fuel units
    else
      let (group, units) :=
        if unit.kind = .heading then attachHeading maxTokens unit units else mergeRun maxTokens unit units
      group :: groupUnits maxTokens fuel units

/-! ## chunk_document -/

namespace Runtime

variable (rt : Runtime)

def chunkOf (profile : ChunkerProfile) (draft : ChunkUnit) (order : Nat) : Chunk where
  chunkId := rt.canonicalChunkId draft.nodeId profile.revision draft.charStart draft.charEnd
  nodeId := draft.nodeId
  charStart := draft.charStart
  charEnd := draft.charEnd
  text := draft.text
  tokenCount := estimateTokens draft.text
  language := draft.language
  sectionAncestry := draft.sectionAncestry
  nodeSpans := draft.nodeSpans
  order
  textChecksum := rt.textSha256 draft.text

/-- Each chunk knows its neighbours. -/
def linkChunks : Option Uuid → List Chunk → List Chunk
  | _, [] => []
  | previous, chunk :: chunks =>
    { chunk with prevChunkId := previous, nextChunkId := chunks.head?.map (·.chunkId) } ::
      linkChunks (some chunk.chunkId) chunks

/-- `chunk_document`; none where it raises. -/
def chunkDocument (document : CanonicalDocument) (profile : ChunkerProfile) : Option (List Chunk) :=
  if profile.maxTokens < 1 then none
  else do
    let units ← document.collectUnits
    let drafts := groupUnits profile.maxTokens units.length units
    pure (linkChunks none (drafts.mapIdx fun order draft => rt.chunkOf profile draft order))

end Runtime

/-! ## What a unit is taken from -/

namespace CanonicalDocument

variable {document : CanonicalDocument}

theorem node?_some {id : Uuid} {node : CanonicalNode} (h : document.node? id = some node) :
    node ∈ document.nodes ∧ node.nodeId = id :=
  (Table.lookup_some h).imp_left List.mem_reverse.1

theorem node?_of_mem (hdup : (document.nodes.map (·.nodeId)).Nodup) {node} (hn : node ∈ document.nodes) :
    document.node? node.nodeId = some node := by
  have hkeyed : Table.Keyed (fun n : CanonicalNode => n.nodeId) document.nodes.reverse := by
    simpa only [Table.Keyed, List.map_reverse, List.nodup_reverse] using hdup
  exact Table.lookup_of_mem hkeyed (List.mem_reverse.2 hn)

/-- The whole of a node: of its text, or of the text made of a table. -/
def Whole (document : CanonicalDocument) (u : ChunkUnit) : Prop :=
  ∃ node ∈ document.nodes, node.nodeId = u.nodeId ∧ u.charStart = 0 ∧ u.charEnd = u.text.length ∧
    node.kind = u.kind ∧ (node.kind = .table ∨ u.text = node.textOrEmpty)

theorem ownText_or (node : CanonicalNode) : node.kind = .table ∨ document.ownText node = node.textOrEmpty := by
  by_cases h : node.kind = .table
  · exact .inl h
  · exact .inr (if_neg h)

theorem whole_wholeUnit {node : CanonicalNode} {text ancestry u} (hn : node ∈ document.nodes)
    (ht : node.kind = .table ∨ text = node.textOrEmpty) (hu : u ∈ document.wholeUnit node text ancestry) :
    document.Whole u := by
  simp only [wholeUnit] at hu
  split at hu
  · cases hu
  · cases List.mem_singleton.1 hu
    exact ⟨node, hn, rfl, rfl, rfl, rfl, ht⟩

/-- What a walk comes to: the units below a node one after the other, or the node's own. -/
theorem walkUnits_cases {fuel ancestry id units} (h : document.walkUnits (fuel + 1) ancestry id = some units) :
    ∃ node, document.node? id = some node ∧
      ((∃ ancestry' us, ((document.children id).map (·.nodeId)).mapM (document.walkUnits fuel ancestry') = some us ∧
          units = us.flatten) ∨
        ∃ ancestry', units = document.wholeUnit node (document.ownText node) ancestry') := by
  simp only [walkUnits, Option.bind_eq_bind, Option.bind_eq_some_iff, pure] at h
  obtain ⟨node, hnode, h⟩ := h
  refine ⟨node, hnode, ?_⟩
  split at h
  · obtain ⟨us, hus, h⟩ := Option.bind_eq_some_iff.1 h
    cases h
    exact .inl ⟨_, us, hus, rfl⟩
  · split at h
    · next hheading =>
      cases h
      exact .inr ⟨_, by rw [ownText, hheading]; rfl⟩
    · split at h
      · obtain ⟨us, hus, h⟩ := Option.bind_eq_some_iff.1 h
        cases h
        exact .inl ⟨_, us, hus, rfl⟩
      · split at h
        · next htable =>
          cases h
          exact .inr ⟨_, by rw [ownText, if_pos htable]⟩
        · next htable =>
          cases h
          exact .inr ⟨_, by rw [ownText, if_neg htable]⟩

/-- A unit is the unit of some node. -/
theorem mem_walkUnits {fuel ancestry id units} (h : document.walkUnits fuel ancestry id = some units) :
    ∀ u ∈ units, ∃ node, document.node? node.nodeId = some node ∧
      ∃ ancestry, u ∈ document.wholeUnit node (document.ownText node) ancestry := by
  induction fuel generalizing ancestry id units with
  | zero => cases h
  | succ fuel ih =>
    obtain ⟨node, hnode, ⟨ancestry', us, hus, rfl⟩ | ⟨ancestry', rfl⟩⟩ := walkUnits_cases h
    · intro u hu
      obtain ⟨l, hl, hu⟩ := List.mem_flatten.1 hu
      obtain ⟨child, -, hchild⟩ := mem_of_mapM hus hl
      exact ih hchild u hu
    · obtain ⟨-, rfl⟩ := node?_some hnode
      exact fun u hu => ⟨node, hnode, ancestry', hu⟩

theorem mem_collectUnits {units} (h : document.collectUnits = some units) :
    ∀ u ∈ units, ∃ node, document.node? node.nodeId = some node ∧
      ∃ ancestry, u ∈ document.wholeUnit node (document.ownText node) ancestry := by
  obtain ⟨us, hus, rfl⟩ := Option.map_eq_some_iff.1 h
  intro u hu
  obtain ⟨l, hl, hu⟩ := List.mem_flatten.1 hu
  obtain ⟨root, -, hroot⟩ := mem_of_mapM hus hl
  exact mem_walkUnits hroot u hu

theorem whole_collectUnits {units} (h : document.collectUnits = some units) : ∀ u ∈ units, document.Whole u := by
  intro u hu
  obtain ⟨node, hnode, ancestry, hu⟩ := mem_collectUnits h u hu
  exact whole_wholeUnit (node?_some hnode).1 (ownText_or node) hu

/-- The span lies in the text of the node it cites, or that node is a table. -/
def Cites (document : CanonicalDocument) (nodeId : Uuid) (charEnd : Nat) : Prop :=
  ∃ node ∈ document.nodes, node.nodeId = nodeId ∧ (node.kind = .table ∨ charEnd ≤ node.textOrEmpty.length)

theorem Whole.cites {u : ChunkUnit} (h : document.Whole u) : document.Cites u.nodeId u.charEnd := by
  obtain ⟨node, hn, hid, -, hend, -, ht⟩ := h
  exact ⟨node, hn, hid, ht.imp_right fun ht => by rw [hend, ht]⟩

end CanonicalDocument

/-! ## Every tree is walked -/

namespace CanonicalDocument

variable {document : CanonicalDocument}

/-- Where a node stands. -/
def place (document : CanonicalDocument) (id : Uuid) : Nat := (document.nodes.map (·.nodeId)).idxOf id

/-- A child stands after its parent. -/
theorem place_lt_of_children (hdup : (document.nodes.map (·.nodeId)).Nodup) (hparents : ParentsFirst [] document.nodes)
    {id : Uuid} {child : CanonicalNode} (h : child ∈ document.children id) :
    child ∈ document.nodes ∧ document.place id < document.place child.nodeId := by
  obtain ⟨hchild, hparent⟩ := List.mem_filter.1 ((List.mem_insertionSort _).1 h)
  refine ⟨hchild, ?_⟩
  obtain ⟨before, after, he, hp⟩ := hparents.split hchild
  have hbefore : id ∈ before.map (·.nodeId) := by
    refine (hp id ?_).resolve_left (by simp)
    simpa using hparent
  have hnot : child.nodeId ∉ before.map (·.nodeId) := by
    rw [he, List.map_append, List.nodup_append] at hdup
    exact fun hm => hdup.2.2 _ hm _ (by simp) rfl
  rw [place, place, he, List.map_append, List.idxOf_append_of_mem hbefore, List.idxOf_append_of_notMem hnot]
  exact (List.idxOf_lt_length_of_mem hbefore).trans_le (Nat.le_add_right _ _)

theorem walkUnits_isSome (hdup : (document.nodes.map (·.nodeId)).Nodup) (hparents : ParentsFirst [] document.nodes)
    {fuel : Nat} {ancestry : List Uuid} {node : CanonicalNode} (hn : node ∈ document.nodes)
    (hfuel : document.nodes.length < document.place node.nodeId + fuel) :
    ∃ units, document.walkUnits fuel ancestry node.nodeId = some units := by
  induction fuel generalizing ancestry node with
  | zero =>
    have hplace := List.idxOf_lt_length_of_mem (List.mem_map_of_mem (f := CanonicalNode.nodeId) hn)
    rw [List.length_map] at hplace
    exact absurd (hfuel.trans hplace) (Nat.lt_irrefl _)
  | succ fuel ih =>
    have below : ∀ ancestry, ∃ us, ((document.children node.nodeId).map (·.nodeId)).mapM (document.walkUnits fuel ancestry) =
        some us := by
      refine fun ancestry => mapM_isSome fun id hid => ?_
      obtain ⟨child, hchild, rfl⟩ := List.mem_map.1 hid
      obtain ⟨hm, hlt⟩ := place_lt_of_children hdup hparents hchild
      exact ih hm (by omega)
    obtain ⟨us, hus⟩ := below ancestry
    obtain ⟨us', hus'⟩ := below (if isSection node.kind then ancestry ++ [node.nodeId] else ancestry)
    simp only [walkUnits, node?_of_mem hdup hn, Option.bind_eq_bind, Option.bind_some, hus, hus', pure]
    split
    · exact ⟨_, rfl⟩
    · split
      · exact ⟨_, rfl⟩
      · split
        · exact ⟨_, rfl⟩
        · split
          · exact ⟨_, rfl⟩
          · exact ⟨_, rfl⟩

theorem collectUnits_isSome (hdup : (document.nodes.map (·.nodeId)).Nodup) (hparents : ParentsFirst [] document.nodes)
    (hroots : ∀ root ∈ document.rootNodeIds, ∃ node ∈ document.nodes, node.nodeId = root) :
    ∃ units, document.collectUnits = some units := by
  have hwalk : ∀ root ∈ document.rootNodeIds,
      ∃ units, document.walkUnits (document.nodes.length + 1) [] root = some units := by
    intro root hroot
    obtain ⟨node, hn, rfl⟩ := hroots root hroot
    exact walkUnits_isSome hdup hparents hn (by omega)
  obtain ⟨us, hus⟩ := mapM_isSome hwalk
  exact ⟨us.flatten, by rw [collectUnits, hus]; rfl⟩

end CanonicalDocument

/-- **A tree with its parents first is chunked under every budget of a token or more.** -/
theorem Runtime.chunkDocument_isSome {rt : Runtime} {document : CanonicalDocument} {profile : ChunkerProfile}
    (hdup : (document.nodes.map (·.nodeId)).Nodup) (hparents : ParentsFirst [] document.nodes)
    (hroots : ∀ root ∈ document.rootNodeIds, ∃ node ∈ document.nodes, node.nodeId = root) (hmax : 1 ≤ profile.maxTokens) :
    ∃ chunks, rt.chunkDocument document profile = some chunks := by
  obtain ⟨units, hunits⟩ := CanonicalDocument.collectUnits_isSome hdup hparents hroots
  rw [Runtime.chunkDocument, if_neg (Nat.not_lt.2 hmax), hunits]
  exact ⟨_, rfl⟩

/-! ## What a group cites -/

/-- They cite the same span. -/
def SameSpan (u v : ChunkUnit) : Prop := u.nodeId = v.nodeId ∧ u.charStart = v.charStart ∧ u.charEnd = v.charEnd

theorem sameSpan_mergeRun (maxTokens : Nat) (cursor : ChunkUnit) (units : List ChunkUnit) :
    SameSpan (mergeRun maxTokens cursor units).1 cursor := by
  induction units generalizing cursor with
  | nil => exact ⟨rfl, rfl, rfl⟩
  | cons candidate units ih =>
    simp only [mergeRun]
    split
    · exact ⟨rfl, rfl, rfl⟩
    · split
      · exact ⟨rfl, rfl, rfl⟩
      · split
        · exact ⟨rfl, rfl, rfl⟩
        · exact ih (mergeUnits cursor candidate)

theorem mergeRun_suffix (maxTokens : Nat) (cursor : ChunkUnit) (units : List ChunkUnit) :
    (mergeRun maxTokens cursor units).2 <:+ units := by
  induction units generalizing cursor with
  | nil => exact List.suffix_refl _
  | cons candidate units ih =>
    simp only [mergeRun]
    split
    · exact List.suffix_refl _
    · split
      · exact List.suffix_refl _
      · split
        · exact List.suffix_refl _
        · exact (ih _).trans (List.suffix_cons _ _)

theorem sameSpan_attachHeading (maxTokens : Nat) (unit : ChunkUnit) (units : List ChunkUnit) :
    SameSpan (attachHeading maxTokens unit units).1 unit ∧ (attachHeading maxTokens unit units).2 <:+ units := by
  cases units with
  | nil => exact ⟨⟨rfl, rfl, rfl⟩, List.suffix_refl _⟩
  | cons next units =>
    simp only [attachHeading]
    split
    · exact ⟨⟨rfl, rfl, rfl⟩, List.suffix_cons _ _⟩
    · exact ⟨⟨rfl, rfl, rfl⟩, List.suffix_refl _⟩

theorem windowEnd_le {text : Text} {start : Nat} (h : start < text.length) (maxTokens : Nat) :
    windowEnd text start maxTokens ≤ text.length := by
  have := lastTokenEnd_le maxTokens (text.drop start)
  simp only [List.length_drop] at this
  simp only [windowEnd]
  omega

theorem le_length_of_mem_windows {text : Text} {maxTokens fuel start : Nat} {window : Nat × Nat}
    (h : window ∈ windows text maxTokens fuel start) : window.2 ≤ text.length := by
  induction fuel generalizing start with
  | zero => cases h
  | succ fuel ih =>
    simp only [windows] at h
    split at h
    · next hlt =>
      rcases List.mem_cons.1 h with rfl | h
      · exact windowEnd_le hlt maxTokens
      · exact ih h
    · cases h

theorem mem_splitUnit {unit draft : ChunkUnit} {maxTokens : Nat} (h : draft ∈ splitUnit unit maxTokens) :
    draft.nodeId = unit.nodeId ∧ draft.charEnd ≤ unit.text.length := by
  obtain ⟨window, hw, rfl⟩ := List.mem_map.1 h
  exact ⟨rfl, le_length_of_mem_windows hw⟩

/-- A group cites the span of a whole unit, or a part of a unit that is no table. -/
theorem mem_groupUnits {maxTokens fuel : Nat} {units : List ChunkUnit} {draft : ChunkUnit}
    (h : draft ∈ groupUnits maxTokens fuel units) :
    ∃ unit ∈ units, SameSpan draft unit ∨
      unit.kind ≠ .table ∧ draft.nodeId = unit.nodeId ∧ draft.charEnd ≤ unit.text.length := by
  induction fuel generalizing units with
  | zero => cases h
  | succ fuel ih =>
    cases units with
    | nil => cases h
    | cons unit units =>
      have later : ∀ {rest}, rest <:+ units → draft ∈ groupUnits maxTokens fuel rest → ∃ unit' ∈ unit :: units,
          SameSpan draft unit' ∨ unit'.kind ≠ .table ∧ draft.nodeId = unit'.nodeId ∧ draft.charEnd ≤ unit'.text.length := by
        intro rest hrest hd
        obtain ⟨unit', hu, hspan⟩ := ih hd
        exact ⟨unit', List.mem_cons_of_mem _ (hrest.subset hu), hspan⟩
      simp only [groupUnits] at h
      split at h
      · rcases List.mem_cons.1 h with rfl | h
        · exact ⟨draft, by simp, .inl ⟨rfl, rfl, rfl⟩⟩
        · exact later (List.suffix_refl _) h
      · next htable =>
        split at h
        · rcases List.mem_append.1 h with h | h
          · exact ⟨unit, by simp, .inr ⟨htable, mem_splitUnit h⟩⟩
          · exact later (List.suffix_refl _) h
        · rcases List.mem_cons.1 h with rfl | h
          · refine ⟨unit, by simp, .inl ?_⟩
            split
            · exact (sameSpan_attachHeading _ _ _).1
            · exact sameSpan_mergeRun _ _ _
          · refine later ?_ h
            split
            · exact (sameSpan_attachHeading _ _ _).2
            · exact mergeRun_suffix _ _ _

/-! ## Prose: units that are neither headings nor tables -/

structure Prose (unit : ChunkUnit) : Prop where
  notTable : unit.kind ≠ .table
  notHeading : unit.kind ≠ .heading
  fromStart : unit.charStart = 0
  inked : isBlank unit.text = false

/-- The tokens of some units together. -/
def totalTokens (units : List ChunkUnit) : Nat := (units.map fun unit => estimateTokens unit.text).sum

@[simp] theorem totalTokens_cons (unit : ChunkUnit) (units : List ChunkUnit) :
    totalTokens (unit :: units) = estimateTokens unit.text + totalTokens units := by simp [totalTokens]

/-- What joins the cursor fits, and no token is lost. -/
theorem tokens_mergeRun {maxTokens : Nat} {cursor : ChunkUnit} (h : estimateTokens cursor.text ≤ maxTokens)
    (units : List ChunkUnit) :
    estimateTokens (mergeRun maxTokens cursor units).1.text ≤ maxTokens ∧
      totalTokens ((mergeRun maxTokens cursor units).1 :: (mergeRun maxTokens cursor units).2) =
        totalTokens (cursor :: units) := by
  induction units generalizing cursor with
  | nil => exact ⟨h, rfl⟩
  | cons candidate units ih =>
    simp only [mergeRun]
    split
    · exact ⟨h, rfl⟩
    · split
      · exact ⟨h, rfl⟩
      · split
        · exact ⟨h, rfl⟩
        · next hfit =>
          have ⟨hle, hsum⟩ := @ih (mergeUnits cursor candidate) (Nat.le_of_not_gt hfit)
          refine ⟨hle, hsum.trans ?_⟩
          simp only [totalTokens_cons, mergeUnits, estimateTokens_newline, Nat.add_assoc]

/-- All join where all fit together. -/
theorem mergeRun_all {maxTokens : Nat} {cursor : ChunkUnit} {units : List ChunkUnit} (hprose : ∀ u ∈ units, Prose u)
    (h : totalTokens (cursor :: units) ≤ maxTokens) : (mergeRun maxTokens cursor units).2 = [] := by
  induction units generalizing cursor with
  | nil => rfl
  | cons candidate units ih =>
    simp only [totalTokens_cons] at h
    have hmerged : totalTokens (mergeUnits cursor candidate :: units) ≤ maxTokens := by
      simp only [totalTokens_cons, mergeUnits, estimateTokens_newline]
      omega
    have hfits : ¬ estimateTokens (cursor.text ++ '\n' :: candidate.text) > maxTokens := by
      rw [estimateTokens_newline]
      omega
    have hsmall : ¬ (estimateTokens candidate.text > maxTokens ∧ candidate.kind ≠ .table) := by
      rintro ⟨hlarge, -⟩
      omega
    rw [mergeRun, if_neg (hprose candidate (by simp)).notHeading, if_neg hsmall, if_neg hfits]
    exact ih (fun u hu => hprose u (by simp [hu])) hmerged

theorem splitUnit_head {unit : ChunkUnit} (h : isBlank unit.text = false) (maxTokens : Nat) :
    ∃ draft ∈ splitUnit unit maxTokens, draft.nodeId = unit.nodeId ∧ draft.charStart = 0 := by
  cases ht : unit.text with
  | nil => simp [ht, isBlank] at h
  | cons c t =>
    refine ⟨_, List.mem_map_of_mem (a := (0, windowEnd unit.text 0 maxTokens)) ?_, rfl, rfl⟩
    simp [ht, windows]

/-- The first unit is cited from its start. -/
theorem groupUnits_first {unit : ChunkUnit} (maxTokens fuel : Nat) (units : List ChunkUnit) (h : Prose unit) :
    ∃ draft ∈ groupUnits maxTokens (fuel + 1) (unit :: units), draft.nodeId = unit.nodeId ∧ draft.charStart = 0 := by
  simp only [groupUnits, if_neg h.notTable, if_neg h.notHeading]
  split
  · obtain ⟨draft, hd, hcites⟩ := splitUnit_head h.inked maxTokens
    exact ⟨draft, List.mem_append_left _ hd, hcites⟩
  · obtain ⟨hid, hstart, -⟩ := sameSpan_mergeRun maxTokens unit units
    exact ⟨_, List.mem_cons_self, hid, hstart.trans h.fromStart⟩

variable {maxTokens fuel : Nat} {unit : ChunkUnit} {units : List ChunkUnit}

theorem groupUnits_nil : groupUnits maxTokens fuel [] = [] := by cases fuel <;> rfl

/-- **One unit alone, or units that fit together, are cited as the first of them.** -/
theorem groupUnits_one (hunit : Prose unit) (hunits : ∀ u ∈ units, Prose u)
    (h : units = [] ∨ totalTokens (unit :: units) ≤ maxTokens) :
    ∀ draft ∈ groupUnits maxTokens fuel (unit :: units), draft.nodeId = unit.nodeId := by
  intro draft hd
  cases fuel with
  | zero => cases hd
  | succ fuel =>
    simp only [groupUnits, if_neg hunit.notTable, if_neg hunit.notHeading] at hd
    split at hd
    · next hlarge =>
      obtain rfl : units = [] := by
        refine h.resolve_right fun hle => ?_
        rw [totalTokens_cons] at hle
        omega
      rw [groupUnits_nil, List.append_nil] at hd
      exact (mem_splitUnit hd).1
    · have hrest : (mergeRun maxTokens unit units).2 = [] := by
        rcases h with rfl | hle
        · rfl
        · exact mergeRun_all hunits hle
      rw [hrest, groupUnits_nil, List.mem_singleton] at hd
      rw [hd]
      exact (sameSpan_mergeRun maxTokens unit units).1

/-- **Units that do not fit together are not all cited as the first of them.** -/
theorem groupUnits_second (hunit : Prose unit) (hunits : ∀ u ∈ units, Prose u) (hne : units ≠ [])
    (h : maxTokens < totalTokens (unit :: units)) :
    ∃ draft ∈ groupUnits maxTokens (fuel + 2) (unit :: units), ∃ u ∈ units,
      draft.nodeId = u.nodeId ∧ draft.charStart = 0 := by
  have later : ∀ {rest : List ChunkUnit}, rest <:+ units → rest ≠ [] →
      ∃ draft ∈ groupUnits maxTokens (fuel + 1) rest, ∃ u ∈ units, draft.nodeId = u.nodeId ∧ draft.charStart = 0 := by
    intro rest hsub hrest
    cases rest with
    | nil => exact absurd rfl hrest
    | cons u rest =>
      have hu : u ∈ units := hsub.subset (by simp)
      have ⟨draft, hd, hcites⟩ := groupUnits_first maxTokens fuel rest (hunits u hu)
      exact ⟨draft, hd, u, hu, hcites⟩
  rw [groupUnits, if_neg hunit.notTable]
  split
  · obtain ⟨draft, hd, hcites⟩ := later (List.suffix_refl _) hne
    exact ⟨draft, List.mem_append_right _ hd, hcites⟩
  · next hfit =>
    have hrest : (mergeRun maxTokens unit units).2 ≠ [] := by
      intro hnil
      have ⟨hle, hsum⟩ := tokens_mergeRun (Nat.le_of_not_gt hfit) units
      rw [hnil, totalTokens_cons] at hsum
      simp only [totalTokens, List.map_nil, List.sum_nil] at hsum h
      omega
    obtain ⟨draft, hd, hcites⟩ := later (mergeRun_suffix maxTokens unit units) hrest
    simp only [if_neg hunit.notHeading]
    exact ⟨draft, List.mem_cons_of_mem _ hd, hcites⟩

namespace Runtime

variable {rt : Runtime} {document : CanonicalDocument} {profile : ChunkerProfile} {chunks : List Chunk}

/-- A chunk's node and span. -/
def span (c : Chunk) : Uuid × Nat × Nat := (c.nodeId, c.charStart, c.charEnd)

theorem span_linkChunks (previous : Option Uuid) (chunks : List Chunk) :
    (linkChunks previous chunks).map span = chunks.map span := by
  induction chunks generalizing previous with
  | nil => rfl
  | cons chunk chunks ih => simp only [linkChunks, List.map_cons, ih, span]

/-- The spans of the chunks are those of the groups. -/
theorem chunkDocument_some (h : rt.chunkDocument document profile = some chunks) :
    ∃ units, document.collectUnits = some units ∧
      chunks.map span = (groupUnits profile.maxTokens units.length units).map
        fun draft => (draft.nodeId, draft.charStart, draft.charEnd) := by
  simp only [chunkDocument] at h
  split at h
  · cases h
  · simp only [Option.bind_eq_bind, Option.bind_eq_some_iff] at h
    obtain ⟨units, hunits, h⟩ := h
    cases h
    refine ⟨units, hunits, ?_⟩
    rw [span_linkChunks]
    refine List.ext_getElem (by simp) fun n _ _ => ?_
    simp [span, chunkOf]

/-- **A chunk's span lies in the text of the node it cites, or the node is a table.** -/
theorem chunk_cites (h : rt.chunkDocument document profile = some chunks) :
    ∀ c ∈ chunks, document.Cites c.nodeId c.charEnd := by
  obtain ⟨units, hunits, hspans⟩ := chunkDocument_some h
  intro c hc
  have hmem := hspans ▸ List.mem_map_of_mem hc
  obtain ⟨draft, hd, he⟩ := List.mem_map.1 hmem
  simp only [span, Prod.mk.injEq] at he
  obtain ⟨unit, hu, hspan⟩ := mem_groupUnits hd
  have hwhole := CanonicalDocument.whole_collectUnits hunits unit hu
  rw [← he.1, ← he.2.2]
  rcases hspan with ⟨hid, -, hend⟩ | ⟨htable, hid, hend⟩
  · rw [hid, hend]
    exact hwhole.cites
  · obtain ⟨node, hn, hnid, -, -, hkind, ht⟩ := hwhole
    refine ⟨node, hn, hnid.trans hid.symm, .inr ?_⟩
    rwa [← ht.resolve_left (hkind ▸ htable)]

end Runtime

end MilpbookLM
