/-
Where a chunk's span and the locator of the node it cites are told in the same
coordinates: always for Markdown, whose locators are relative to their nodes, and
for plain text, whose locators are places in the whole text, only where every chunk
is cited from the first paragraph and that starts the text (`spans_covered_iff`).
-/
import MilpbookLM.Documents.Chunking
import MilpbookLM.Documents.MarkdownParser
import MilpbookLM.Documents.Persistence

namespace MilpbookLM

inductive TextFamily
  | text | markdown
  deriving DecidableEq

namespace Runtime

variable (rt : Runtime)

/-- The parser of the family; fuel is for Markdown. -/
def parseFamily (family : TextFamily) (fuel : Nat) (sourceVersionId : Uuid) (data : List UInt8) :
    Option CanonicalDocument :=
  match family with
  | .text => rt.parseText sourceVersionId data
  | .markdown => rt.parseMarkdown fuel sourceVersionId data

/-- The text has no words, or starts with one and is a single paragraph or within the budget. -/
def OneFrame (text : Text) (maxTokens : Nat) : Prop :=
  isBlank text = true ∨
    ¬ text.head?.any isSpace ∧ ((paragraphs text).length = 1 ∨ estimateTokens text ≤ maxTokens)

/-- Spans and locators are in one frame. -/
def Aligned (family : TextFamily) (data : List UInt8) (maxTokens : Nat) : Prop :=
  match family with
  | .text => ∀ text, rt.plainText data = some text → OneFrame text maxTokens
  | .markdown => True

variable {rt}

/-! ## Markdown -/

/-- **A locator that is relative to its node covers what lies in the node's text.** -/
theorem covers_of_nodeRelative {node : CanonicalNode} (h : node.NodeRelative) {charStart charEnd : Nat}
    (hend : node.kind = .table ∨ charEnd ≤ node.textOrEmpty.length) :
    (rt.locatorRow node).covers charStart charEnd = true := by
  rcases h with ⟨hs, he⟩ | ⟨hkind, hs, stop, he, hlen⟩
  · simp [locatorRow, PersistedLocator.covers, hs, he]
  · have := (hend.resolve_left hkind).trans hlen
    simp [locatorRow, PersistedLocator.covers, hs, he, this]

/-! ## Plain text -/

section Text

variable {sourceVersionId : Uuid} {text : Text} {documentId : Uuid}

theorem mem_paragraphNodes {node : CanonicalNode} {number : Nat} {ps : List Paragraph}
    (h : node ∈ rt.paragraphNodes documentId number ps) :
    ∃ k p, number ≤ k ∧ p ∈ ps ∧ node = rt.paragraphNode documentId k p := by
  induction ps generalizing number with
  | nil => cases h
  | cons p ps ih =>
    rcases List.mem_cons.1 h with rfl | h
    · exact ⟨number, p, Nat.le_refl _, by simp, rfl⟩
    · obtain ⟨k, q, hk, hq, he⟩ := ih h
      exact ⟨k, q, Nat.le_of_succ_le hk, by simp [hq], he⟩

/-- The paragraphs stand under the document in their order. -/
theorem sorted_paragraphNodes (number : Nat) (ps : List Paragraph) :
    (rt.paragraphNodes documentId number ps).Pairwise fun a b => a.childOrder ≤ b.childOrder := by
  induction ps generalizing number with
  | nil => exact .nil
  | cons p ps ih =>
    refine .cons (fun node hn => ?_) (ih (number + 1))
    obtain ⟨k, q, hk, -, rfl⟩ := mem_paragraphNodes hn
    exact Nat.le_of_succ_le hk

/-- The nodes of the paragraphs of a text. -/
def textNodes (rt : Runtime) (sourceVersionId : Uuid) (text : Text) : List CanonicalNode :=
  rt.paragraphNodes (rt.canonicalDocumentId sourceVersionId rt.textParser) 1 (paragraphs text)

theorem children_root : (rt.textDocument sourceVersionId text).children
      (rt.canonicalNodeId (rt.canonicalDocumentId sourceVersionId rt.textParser) "document") =
    rt.textNodes sourceVersionId text := by
  simp only [CanonicalDocument.children, textDocument, documentNode, List.filter_cons]
  rw [if_neg (by simp), List.filter_eq_self.2]
  · exact (sorted_paragraphNodes 1 _).insertionSort_eq
  · intro node hn
    obtain ⟨k, p, -, -, rfl⟩ := mem_paragraphNodes hn
    simp [paragraphNode]

theorem mapM_map_some {α β γ : Type} {f : γ → α} {g : α → Option β} {h : γ → β} {cs : List γ}
    (hg : ∀ c ∈ cs, g (f c) = some (h c)) : (cs.map f).mapM g = some (cs.map h) := by
  induction cs with
  | nil => rfl
  | cons c cs ih => simp [List.mapM_cons, hg c (by simp), ih fun b hb => hg b (by simp [hb])]

/-- The unit of a paragraph. -/
def textUnit (rt : Runtime) (sourceVersionId : Uuid) (text : Text) (node : CanonicalNode) : ChunkUnit :=
  (rt.textDocument sourceVersionId text).unitOf node node.textOrEmpty []

/-- **The units of a text are its paragraphs.** -/
theorem collectUnits_text (hdup : ((rt.textDocument sourceVersionId text).nodes.map (·.nodeId)).Nodup) :
    (rt.textDocument sourceVersionId text).collectUnits =
      some ((rt.textNodes sourceVersionId text).map (rt.textUnit sourceVersionId text)) := by
  have hleaf : ∀ node ∈ rt.textNodes sourceVersionId text,
      (rt.textDocument sourceVersionId text).walkUnits (rt.textDocument sourceVersionId text).nodes.length [] node.nodeId =
        some [rt.textUnit sourceVersionId text node] := by
    intro node hn
    have hnode := CanonicalDocument.node?_of_mem hdup (List.mem_cons_of_mem _ hn)
    obtain ⟨k, p, -, hp, rfl⟩ := mem_paragraphNodes hn
    have hinked : isBlank p.text = false := isBlank_of_mem_finditer hp
    rw [textDocument, List.length_cons, CanonicalDocument.walkUnits, ← textDocument, hnode]
    simp [paragraphNode, CanonicalDocument.holdsNodes, CanonicalDocument.wholeUnit, CanonicalNode.textOrEmpty, hinked,
      textUnit]
  have hroot : (rt.textDocument sourceVersionId text).node?
      (rt.canonicalNodeId (rt.canonicalDocumentId sourceVersionId rt.textParser) "document") = _ :=
    CanonicalDocument.node?_of_mem hdup List.mem_cons_self
  have hwalk : (rt.textDocument sourceVersionId text).walkUnits ((rt.textDocument sourceVersionId text).nodes.length + 1)
      [] (rt.canonicalNodeId (rt.canonicalDocumentId sourceVersionId rt.textParser) "document") =
        some ((rt.textNodes sourceVersionId text).map (rt.textUnit sourceVersionId text)) := by
    rw [CanonicalDocument.walkUnits, hroot, children_root]
    simp only [documentNode, CanonicalDocument.holdsNodes, CanonicalDocument.isSection, if_true, Bool.false_eq_true,
      if_false, Option.bind_eq_bind, Option.bind_some, mapM_map_some hleaf, pure, ← List.flatMap_def]
    rw [List.map_eq_flatMap]
  change ([rt.canonicalNodeId (rt.canonicalDocumentId sourceVersionId rt.textParser) "document"].mapM
    ((rt.textDocument sourceVersionId text).walkUnits _ [])).map List.flatten = _
  simp only [List.mapM_cons, List.mapM_nil, hwalk, Option.bind_eq_bind, Option.bind_some, pure, Option.map_some,
    List.flatten_cons, List.flatten_nil, List.append_nil]

theorem prose_textUnit {node : CanonicalNode} (h : node ∈ rt.textNodes sourceVersionId text) :
    Prose (rt.textUnit sourceVersionId text node) := by
  obtain ⟨k, p, -, hp, rfl⟩ := mem_paragraphNodes h
  exact ⟨by simp [textUnit, CanonicalDocument.unitOf, paragraphNode],
    by simp [textUnit, CanonicalDocument.unitOf, paragraphNode], rfl, isBlank_of_mem_finditer hp⟩

/-- The words of the text are the tokens of its units. -/
theorem totalTokens_text :
    totalTokens ((rt.textNodes sourceVersionId text).map (rt.textUnit sourceVersionId text)) = estimateTokens text := by
  have hnodes : ∀ (documentId : Uuid) (number : Nat) (ps : List Paragraph),
      totalTokens ((rt.paragraphNodes documentId number ps).map (rt.textUnit sourceVersionId text)) =
        (ps.map fun p => estimateTokens p.text).sum := by
    intro documentId number ps
    induction ps generalizing number with
    | nil => rfl
    | cons p ps ih =>
      rw [paragraphNodes, List.map_cons, totalTokens_cons, ih, List.map_cons, List.sum_cons]
      rfl
  exact (hnodes _ 1 _).trans (estimateTokens_paragraphs text)

/-- The locator of a paragraph covers the spans that lie in its place in the text. -/
theorem covers_paragraphNode (k : Nat) (p : Paragraph) (charStart charEnd : Nat) :
    (rt.locatorRow (rt.paragraphNode documentId k p)).covers charStart charEnd = true ↔
      p.start ≤ charStart ∧ charEnd ≤ p.stop := by
  simp [locatorRow, paragraphNode, PersistedLocator.covers]

variable {profile : ChunkerProfile} {chunks : List Chunk}

/-- The groups of a text's paragraphs. -/
def textDrafts (rt : Runtime) (sourceVersionId : Uuid) (text : Text) (maxTokens : Nat) : List ChunkUnit :=
  let units := (rt.textNodes sourceVersionId text).map (rt.textUnit sourceVersionId text)
  groupUnits maxTokens units.length units

/-- Each group is a chunk, and each chunk a group. -/
theorem text_drafts (hdup : ((rt.textDocument sourceVersionId text).nodes.map (·.nodeId)).Nodup)
    (hchunks : rt.chunkDocument (rt.textDocument sourceVersionId text) profile = some chunks) :
    (∀ c ∈ chunks, ∃ draft ∈ rt.textDrafts sourceVersionId text profile.maxTokens, draft.nodeId = c.nodeId) ∧
      ∀ draft ∈ rt.textDrafts sourceVersionId text profile.maxTokens,
        ∃ c ∈ chunks, c.nodeId = draft.nodeId ∧ c.charStart = draft.charStart := by
  obtain ⟨units, hunits, hspans⟩ := chunkDocument_some hchunks
  rw [collectUnits_text hdup] at hunits
  cases hunits
  constructor
  · intro c hc
    obtain ⟨draft, hd, he⟩ := List.mem_map.1 (hspans ▸ List.mem_map_of_mem hc)
    exact ⟨draft, hd, (Prod.mk.inj he).1⟩
  · intro draft hd
    have hmem := List.mem_map_of_mem (f := fun d : ChunkUnit => (d.nodeId, d.charStart, d.charEnd)) hd
    obtain ⟨c, hc, he⟩ := List.mem_map.1 (hspans.symm ▸ hmem)
    simp only [span, Prod.mk.injEq] at he
    exact ⟨c, hc, he.1, he.2.1⟩

/-- A locator of the document covers the chunk. -/
def Covered (rt : Runtime) (document : CanonicalDocument) (c : Chunk) : Prop :=
  ∃ node ∈ document.nodes, node.nodeId = c.nodeId ∧ (rt.locatorRow node).covers c.charStart c.charEnd = true

theorem covered_iff {document : CanonicalDocument} (hdup : (document.nodes.map (·.nodeId)).Nodup) {node : CanonicalNode}
    (hn : node ∈ document.nodes) {c : Chunk} (hid : node.nodeId = c.nodeId) :
    rt.Covered document c ↔ (rt.locatorRow node).covers c.charStart c.charEnd = true := by
  constructor
  · rintro ⟨m, hm, hmid, hc⟩
    rwa [← List.inj_on_of_nodup_map hdup hm hn (hmid.trans hid.symm)]
  · exact fun hc => ⟨node, hn, hid, hc⟩

/-- **The chunks of a text are covered where they are all cited from a first paragraph that starts it.** -/
theorem text_covered_iff (hdup : ((rt.textDocument sourceVersionId text).nodes.map (·.nodeId)).Nodup)
    (hchunks : rt.chunkDocument (rt.textDocument sourceVersionId text) profile = some chunks) :
    (∀ c ∈ chunks, rt.Covered (rt.textDocument sourceVersionId text) c) ↔ OneFrame text profile.maxTokens := by
  obtain ⟨hchunk, hdraft⟩ := text_drafts hdup hchunks
  by_cases hblank : isBlank text = true
  · refine iff_of_true (fun c hc => ?_) (.inl hblank)
    obtain ⟨draft, hd, -⟩ := hchunk c hc
    simp [textDrafts, textNodes, paragraphs, finditer_blank hblank, paragraphNodes, groupUnits] at hd
  · obtain ⟨p, ps, hps, hstart, hlater⟩ := paragraphs_head (Bool.eq_false_iff.2 hblank)
    obtain ⟨documentId, hnodes⟩ : ∃ documentId, rt.textNodes sourceVersionId text =
        rt.paragraphNode documentId 1 p :: rt.paragraphNodes documentId 2 ps :=
      ⟨_, by rw [textNodes, hps, paragraphNodes]⟩
    have htokens := @totalTokens_text rt sourceVersionId text
    have hmem : ∀ node ∈ rt.textNodes sourceVersionId text, node ∈ (rt.textDocument sourceVersionId text).nodes :=
      fun node hn => List.mem_cons_of_mem _ hn
    have hprose : ∀ node ∈ rt.textNodes sourceVersionId text, Prose (rt.textUnit sourceVersionId text node) :=
      fun node hn => prose_textUnit hn
    simp only [textDrafts, hnodes, List.map_cons, List.length_cons] at hdraft hchunk htokens hmem hprose
    have hfirst := hprose _ List.mem_cons_self
    have hrest : ∀ u ∈ (rt.paragraphNodes documentId 2 ps).map (rt.textUnit sourceVersionId text), Prose u := by
      intro u hu
      obtain ⟨node, hn, rfl⟩ := List.mem_map.1 hu
      exact hprose node (List.mem_cons_of_mem _ hn)
    simp only [OneFrame, hblank, Bool.false_eq_true, false_or, ← hstart, hps, List.length_cons, Nat.add_eq_right,
      List.length_eq_zero_iff]
    constructor
    · intro hall
      -- what is cited from the start of a paragraph is covered only if that starts the text
      have cited : ∀ k q, rt.paragraphNode documentId k q ∈ (rt.textDocument sourceVersionId text).nodes →
          ∀ c ∈ chunks, (rt.paragraphNode documentId k q).nodeId = c.nodeId → c.charStart = 0 → q.start = 0 := by
        intro k q hn c hc hid hzero
        have hcover := (covered_iff hdup hn hid).1 (hall c hc)
        rw [covers_paragraphNode, hzero] at hcover
        exact Nat.le_zero.1 hcover.1
      constructor
      · obtain ⟨draft, hd, hid, hzero⟩ := groupUnits_first profile.maxTokens _ _ hfirst
        obtain ⟨c, hc, hcid, hcstart⟩ := hdraft draft hd
        exact cited 1 p (hmem _ List.mem_cons_self) c hc (hid.symm.trans hcid.symm) (hcstart.trans hzero)
      · refine Classical.or_iff_not_imp_left.2 fun hne => Nat.le_of_not_lt fun hlt => ?_
        cases ps with
        | nil => exact hne rfl
        | cons q qs =>
          rw [← htokens] at hlt
          obtain ⟨draft, hd, u, hu, hid, hzero⟩ := groupUnits_second hfirst hrest (by simp [paragraphNodes]) hlt
          obtain ⟨node, hn, rfl⟩ := List.mem_map.1 hu
          obtain ⟨c, hc, hcid, hcstart⟩ := hdraft draft hd
          have hn' := hmem node (List.mem_cons_of_mem _ hn)
          obtain ⟨k, r, -, hr, rfl⟩ := mem_paragraphNodes hn
          have := cited k r hn' c hc (hid.symm.trans hcid.symm) (hcstart.trans hzero)
          exact absurd this (Nat.ne_of_gt (hlater r hr))
    · rintro ⟨hzero, hfits⟩ c hc
      obtain ⟨draft, hd, hid⟩ := hchunk c hc
      have hone := groupUnits_one hfirst hrest
        (hfits.imp (fun hnil => by rw [hnil]; rfl) fun hle => htokens ▸ hle) draft hd
      have hn := hmem _ List.mem_cons_self
      refine (covered_iff hdup hn (hone.symm.trans hid)).2 ?_
      rw [covers_paragraphNode, hzero]
      obtain ⟨node, hn', hid', hend⟩ := chunk_cites hchunks c hc
      obtain rfl := List.inj_on_of_nodup_map hdup hn' hn (hid'.trans (hid.symm.trans hone))
      refine ⟨Nat.zero_le _, ?_⟩
      rw [Paragraph.stop, hzero, Nat.zero_add]
      exact hend.resolve_left (by simp [paragraphNode])

end Text

end Runtime

/-! ## Both families -/

/-- **The locators that are stored cover every chunk of a document if and only if its spans
and locators are in one frame**: of Markdown always, of a plain text where it has no words, or starts with one and
is a single paragraph or within the budget. -/
theorem spans_covered_iff {rt : Runtime} {family fuel sourceVersionId data document} {db db' : CanonicalDb}
    {profile : ChunkerProfile} {chunks : List Chunk}
    (hparse : rt.parseFamily family fuel sourceVersionId data = some document)
    (hnew : ∀ d ∈ db.documents, d.id ≠ document.documentId) (hpersist : rt.persist db document = .ok db')
    (hchunks : rt.chunkDocument document profile = some chunks) :
    (∀ c ∈ chunks, db'.hasValidLocator c.nodeId c.charStart c.charEnd = true) ↔
      rt.Aligned family data profile.maxTokens := by
  have hdup := (Runtime.tree_of_persist hnew hpersist).1
  have hlocated : ∀ c ∈ chunks,
      (db'.hasValidLocator c.nodeId c.charStart c.charEnd = true ↔ rt.Covered document c) := by
    intro c hc
    obtain ⟨node, hn, hid, -⟩ := Runtime.chunk_cites hchunks c hc
    rw [Runtime.covered_iff hdup hn hid, ← hid, Runtime.locators_of_node hnew hpersist hn]
  rw [forall₂_congr hlocated]
  cases family with
  | markdown =>
    refine iff_of_true (fun c hc => ?_) trivial
    obtain ⟨node, hn, hid, hend⟩ := Runtime.chunk_cites hchunks c hc
    exact ⟨node, hn, hid, Runtime.covers_of_nodeRelative (Runtime.nodeRelative_parseMarkdown hparse node hn) hend⟩
  | text =>
    obtain ⟨text, htext, rfl⟩ := Option.map_eq_some_iff.1 hparse
    rw [Runtime.text_covered_iff hdup hchunks]
    simp [Runtime.Aligned, htext]

/-- A library that knows the ids and checksums of one small document. -/
def sampleRuntime : Runtime where
  uuid5 := fun ns name =>
    if name = "canonical:1:milpbooklm.text:1:text-paragraphs-v1" then 0x0546e7448fb75825b7b3a31e1883dd5a#128
    else if name = "document" then 0x9537b11ef336559291e9ee109d91170e#128
    else if name = "paragraph:1" then 0xb0c4d2f9a31258f8a968161afb4cfa4c#128
    else if ns = 0x9537b11ef336559291e9ee109d91170e#128 then 0x88b0ad73815d51c3bb2bef8f823870be#128
    else if name = "locator:primary" then 0x5250ec03a0745121b5118972e3268e6f#128
    else 0x39d8f33efba4548b9c3f1954fdae3ff7#128
  nfc := id
  isDecimal := Char.isDigit
  textSha256 := fun _ => "8f434346648f6b96df89dda901c5176b10a6d83961dd3c1ac88b59b2dc327aa4"
  version := (3, 12, 0)

/-- The one chunk of the text `hi` is covered. -/
theorem spans_covered_at_start : ∃ document db' chunks,
    sampleRuntime.parseFamily .text 0 1#128 [0x68, 0x69] = some document ∧
    sampleRuntime.persist {} document = .ok db' ∧
    sampleRuntime.chunkDocument document structuralChunkerV1 = some chunks ∧ chunks.length = 1 ∧
    ∀ c ∈ chunks, db'.hasValidLocator c.nodeId c.charStart c.charEnd = true :=
  ⟨_, _, _, rfl, rfl, rfl, rfl,
    (@spans_covered_iff sampleRuntime .text 0 1#128 [0x68, 0x69] _ {} _ structuralChunkerV1 _ rfl
      (fun _ h => nomatch h) rfl rfl).2 fun text h => by
        obtain rfl : ['h', 'i'] = text := Option.some.inj h
        exact .inr ⟨by decide, .inl (by decide)⟩⟩

/-- A source that is being parsed, in a notebook. -/
def parsingDb : CanonicalDb where
  sources := [{ id := 2#128, notebookId := 3#128, availability := "active" }]
  sourceVersions := [{ id := 1#128, sourceId := 2#128, status := "parsing", parseErrorCode := none }]

/-- A newline before `hi`: the chunk is 0 to 2 of its node, the locator 1 to 3 of the text, and evidence made
of the chunk is refused. -/
theorem refuses_after_newline : ∃ document db' chunks c,
    sampleRuntime.parseFamily .text 0 1#128 [0x0A, 0x68, 0x69] = some document ∧
    sampleRuntime.persist parsingDb document = .ok db' ∧
    sampleRuntime.chunkDocument document structuralChunkerV1 = some chunks ∧ c ∈ chunks ∧
    db'.hasValidLocator c.nodeId c.charStart c.charEnd = false ∧
    db'.validateItem true 3#128
      { sourceId := 2#128, sourceVersionId := 1#128, canonicalNodeId := c.nodeId, charStart := c.charStart,
        charEnd := c.charEnd } = .error "evidence has no valid canonical locator" :=
  ⟨_, _, _, _, rfl, rfl, rfl, List.mem_cons_self, rfl, rfl⟩

end MilpbookLM
