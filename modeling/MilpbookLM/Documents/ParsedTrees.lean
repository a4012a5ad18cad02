/-
Every parsed document is a well-formed tree (`parsed_wellFormed`): what the text, the
Markdown and the CSV parser emit is an outline of the document node, and the
identities in it are distinct. That no two of these have the same UUID is assumed.
-/
import MilpbookLM.Documents.Trees

namespace MilpbookLM

open Outline

/-! ## Identities -/

/-- The parts of an identity between its colons. -/
def identityParts (s : String) : List (List Char) := s.toList.splitOn ':'

theorem identityParts_append (a b : String) : identityParts (a ++ ":" ++ b) = identityParts a ++ identityParts b := by
  have hlist : (a ++ ":" ++ b).toList = a.toList ++ ':' :: b.toList := by simp
  rw [identityParts, hlist, List.splitOn_append_cons_self]
  rfl

theorem identityParts_nat (n : Nat) : identityParts (toString n) = [(toString n).toList] := by
  refine List.splitOn_eq_singleton fun hmem => ?_
  rw [Nat.toString_eq_ofList_toDigits, String.toList_ofList] at hmem
  exact absurd (Nat.isDigit_of_mem_toDigits (by decide) (by decide) hmem) (by decide)

theorem identityParts_kind (kind : NodeKind) : identityParts kind.value = [kind.value.toList] := by
  cases kind <;> decide

/-- Every node has the id of its identity, and no two the same identity. -/
structure Identified (rt : Runtime) (documentId : Uuid) (nodes : List CanonicalNode) : Prop where
  ids : ∀ node ∈ nodes, node.nodeId = rt.canonicalNodeId documentId node.structuralIdentity
  distinct : (nodes.map (·.structuralIdentity)).Nodup

/-- No two identities of the document have the same UUID. -/
def Runtime.UuidsApart (rt : Runtime) (document : CanonicalDocument) : Prop :=
  ∀ m ∈ document.nodes, ∀ n ∈ document.nodes,
    rt.uuid5 document.documentId m.structuralIdentity = rt.uuid5 document.documentId n.structuralIdentity →
      m.structuralIdentity = n.structuralIdentity

theorem Identified.nodup {rt : Runtime} {document : CanonicalDocument}
    (h : Identified rt document.documentId document.nodes) (hapart : rt.UuidsApart document) :
    (document.nodes.map (·.nodeId)).Nodup := by
  have hids : document.nodes.map (·.nodeId) =
      (document.nodes.map (·.structuralIdentity)).map (rt.uuid5 document.documentId) := by
    rw [List.map_map]
    exact List.map_congr_left h.ids
  rw [hids]
  refine h.distinct.map_on fun a ha b hb hab => ?_
  obtain ⟨m, hm, rfl⟩ := List.mem_map.1 ha
  obtain ⟨n, hn, rfl⟩ := List.mem_map.1 hb
  exact hapart m hm n hn hab

namespace Runtime

variable {rt : Runtime} {documentId : Uuid}

/-! ## Plain text -/

theorem below_paragraphNodes {root : CanonicalNode} (hid : root.nodeId = rt.canonicalNodeId documentId "document")
    (hkind : root.kind = .document) (k : Nat) (ps : List Paragraph) :
    Below treeLinks root k (k + ps.length) (rt.paragraphNodes documentId (k + 1) ps) := by
  induction ps generalizing k with
  | nil => exact .nil (Nat.le_refl _)
  | cons p ps ih =>
    have hrest := ih (k + 1)
    rw [Nat.add_right_comm] at hrest
    have hnode : Below treeLinks root k (k + 1) [rt.paragraphNode documentId (k + 1) p] :=
      .one (congrArg some hid.symm) (show mayHold root.kind .paragraph = true by rw [hkind]; rfl) (Nat.lt_succ_self k)
        (Nat.le_refl _) (.nil (Nat.le_refl 0))
    exact hnode.append hrest

theorem identified_paragraphNodes (number : Nat) (ps : List Paragraph) :
    Identified rt documentId (rt.paragraphNodes documentId number ps) ∧
      ∀ node ∈ rt.paragraphNodes documentId number ps, ∃ k, number ≤ k ∧
        node.structuralIdentity = "paragraph:" ++ toString k := by
  induction ps generalizing number with
  | nil => exact ⟨⟨List.forall_mem_nil _, .nil⟩, List.forall_mem_nil _⟩
  | cons p ps ih =>
    obtain ⟨hident, hlater⟩ := ih (number + 1)
    refine ⟨⟨List.forall_mem_cons.2 ⟨rfl, hident.ids⟩, List.nodup_cons.2 ⟨fun hmem => ?_, hident.distinct⟩⟩,
      List.forall_mem_cons.2 ⟨⟨number, Nat.le_refl _, rfl⟩, fun node hn => ?_⟩⟩
    · obtain ⟨node, hn, he⟩ := List.mem_map.1 hmem
      obtain ⟨k, hk, hident⟩ := hlater node hn
      have hnum := toString_inj ((String.append_right_inj _).1 (hident.symm.trans he))
      omega
    · obtain ⟨k, hk, hident⟩ := hlater node hn
      exact ⟨k, Nat.le_of_succ_le hk, hident⟩

theorem outlined_text {sourceVersionId : Uuid} {text : Text}
    (hapart : rt.UuidsApart (rt.textDocument sourceVersionId text)) :
    Outlined (rt.textDocument sourceVersionId text)
      (rt.documentNode (rt.canonicalDocumentId sourceVersionId rt.textParser) text.length)
      (rt.textNodes sourceVersionId text) := by
  refine ⟨rfl, rfl, rfl, rfl, ⟨_, below_paragraphNodes rfl rfl 0 _⟩, Identified.nodup ⟨?_, ?_⟩ hapart⟩
  · exact List.forall_mem_cons.2 ⟨rfl, (identified_paragraphNodes 1 _).1.ids⟩
  · refine List.nodup_cons.2 ⟨fun hmem => ?_, (identified_paragraphNodes 1 _).1.distinct⟩
    obtain ⟨node, hn, he⟩ := List.mem_map.1 hmem
    obtain ⟨k, -, hident⟩ := (identified_paragraphNodes 1 _).2 node hn
    have hparts := congrArg (List.length ∘ String.toList) (hident.symm.trans he)
    simp [documentNode] at hparts

end Runtime

/-! ## Markdown -/

namespace NodeBuilder

variable {rt : Runtime} {b b' b'' : NodeBuilder} {p root : CanonicalNode} {lo mid hi : Nat}

/-- The nodes of an outline below `p` were added. -/
structure Adds (p : CanonicalNode) (lo hi : Nat) (b b' : NodeBuilder) : Prop where
  rootId : b'.rootId = b.rootId
  block : b.block ≤ b'.block
  added : ∃ added, b'.nodes = b.nodes ++ added ∧ Below treeLinks p lo hi added

theorem Adds.none (h : lo ≤ hi) : Adds p lo hi b b := ⟨rfl, Nat.le_refl _, [], (List.append_nil _).symm, .nil h⟩

theorem Adds.trans (h : Adds p lo mid b b') (h' : Adds p mid hi b' b'') : Adds p lo hi b b'' := by
  obtain ⟨added, hnodes, hbelow⟩ := h.added
  obtain ⟨added', hnodes', hbelow'⟩ := h'.added
  refine ⟨h'.rootId.trans h.rootId, h.block.trans h'.block, added ++ added', ?_, hbelow.append hbelow'⟩
  rw [hnodes', hnodes, List.append_assoc]

/-- The order of the next node. -/
def nextOrder (b : NodeBuilder) (at' : Placement) : Nat := if at'.order ≠ 0 then at'.order else b.block + 1

section Append

variable {kind : NodeKind} {text : Option Text} {at' : Placement} (hparent : at'.parent.getD b.rootId = p.nodeId)
  (hmay : mayHold p.kind kind = true) (hlo : lo < b.nextOrder at') (hhi : b.nextOrder at' ≤ hi)

include hparent hmay hlo hhi

/-- A node, and what is added below it. -/
theorem adds_below (hsub : ∀ node : CanonicalNode, node.nodeId = b.nextId rt kind at' → node.kind = kind →
    ∃ top, Adds node 0 top (b.append rt kind text at') b') : Adds p lo hi b b' := by
  obtain ⟨node, hnodes, hid, hkind, hp, horder⟩ : ∃ node : CanonicalNode,
      (b.append rt kind text at').nodes = b.nodes ++ [node] ∧ node.nodeId = b.nextId rt kind at' ∧ node.kind = kind ∧
        node.parentId = some p.nodeId ∧ node.childOrder = b.nextOrder at' :=
    ⟨_, rfl, rfl, rfl, congrArg some hparent, rfl⟩
  obtain ⟨top, hroot, hblock, added, hadded, hbelow⟩ := hsub node hid hkind
  refine ⟨hroot, Nat.le_of_succ_le hblock, node :: added, ?_, ?_⟩
  · rw [hadded, hnodes, List.append_assoc]
    rfl
  · exact .one hp (show mayHold p.kind node.kind = true by rw [hkind]; exact hmay)
      (show lo < node.childOrder by rw [horder]; exact hlo) (show node.childOrder ≤ hi by rw [horder]; exact hhi) hbelow

theorem adds_append : Adds p lo hi b (b.append rt kind text at') :=
  adds_below hparent hmay hlo hhi fun _ _ _ => ⟨0, Adds.none (Nat.le_refl 0)⟩

end Append

theorem adds_emitItems {listNode : CanonicalNode} (hkind : listNode.kind = .list) (items : List Text) (k : Nat)
    (b : NodeBuilder) : Adds listNode k (k + items.length) b (emitItems rt listNode.nodeId b (k + 1) items) := by
  induction items generalizing k b with
  | nil => exact Adds.none (Nat.le_refl _)
  | cons line items ih =>
    have hitem : Adds listNode k (k + 1) b (b.emit rt .listItem (rt.itemText line)
        { parent := some listNode.nodeId, identitySuffix := "item:" ++ toString (k + 1), order := k + 1 }) :=
      adds_append rfl (by rw [hkind]; rfl) (Nat.lt_succ_self k) (Nat.le_refl _)
    have hrest := hitem.trans (ih (k + 1) _)
    rwa [Nat.add_right_comm, Nat.add_assoc] at hrest

theorem adds_emitCells {rowNode : CanonicalNode} (hkind : rowNode.kind = .row) (rowNumber : Nat) (cells : List Text)
    (k : Nat) (b : NodeBuilder) :
    Adds rowNode k (k + cells.length) b (emitCells rt rowNode.nodeId rowNumber b (k + 1) cells) := by
  induction cells generalizing k b with
  | nil => exact Adds.none (Nat.le_refl _)
  | cons value cells ih =>
    have hcell : Adds rowNode k (k + 1) b (b.emit rt .cell value
        { parent := some rowNode.nodeId
          identitySuffix := "row:" ++ toString rowNumber ++ ":cell:" ++ toString (k + 1)
          order := k + 1 }) :=
      adds_append rfl (by rw [hkind]; rfl) (Nat.lt_succ_self k) (Nat.le_refl _)
    have hrest := hcell.trans (ih (k + 1) _)
    rwa [Nat.add_right_comm, Nat.add_assoc] at hrest

theorem adds_emitRows {tableNode : CanonicalNode} (hkind : tableNode.kind = .table) (rows : List Text) (k : Nat)
    (b : NodeBuilder) : Adds tableNode k (k + rows.length) b (emitRows rt tableNode.nodeId b (k + 1) rows) := by
  induction rows generalizing k b with
  | nil => exact Adds.none (Nat.le_refl _)
  | cons line rows ih =>
    let placement : Placement :=
      { parent := some tableNode.nodeId, identitySuffix := "row:" ++ toString (k + 1), order := k + 1 }
    have hrow : Adds tableNode k (k + 1) b
        (emitCells rt (b.nextId rt .row placement) (k + 1) (b.start rt .row placement) 1 (rowCells line)) := by
      have hmay : mayHold tableNode.kind .row = true := by rw [hkind]; rfl
      have hlo : k < b.nextOrder placement := Nat.lt_succ_self k
      have hcells : ∀ node : CanonicalNode, node.nodeId = b.nextId rt .row placement → node.kind = .row →
          ∃ top, Adds node 0 top (b.start rt .row placement)
            (emitCells rt (b.nextId rt .row placement) (k + 1) (b.start rt .row placement) 1 (rowCells line)) := by
        intro node hid hrowKind
        rw [← hid]
        exact ⟨_, adds_emitCells hrowKind (k + 1) (rowCells line) 0 _⟩
      exact adds_below rfl hmay hlo (Nat.le_refl _) hcells
    have hrest := hrow.trans (ih (k + 1) _)
    rwa [Nat.add_right_comm, Nat.add_assoc] at hrest

/-- **Every iteration adds at the end of the outline of the document.** -/
theorem adds_parseBlock (hroot : b.rootId = root.nodeId) (hkind : root.kind = .document) (line : Text)
    (lines : List Text) :
    Adds root b.block (parseBlock rt b line lines).1.block b (parseBlock rt b line lines).1 := by
  have hemit : ∀ kind text extra, mayHold .document kind = true →
      Adds root b.block (b.block + 1) b (b.emit rt kind text { extra }) := fun kind text extra hmay =>
    adds_append hroot (by rw [hkind]; exact hmay) (Nat.lt_succ_self _) (Nat.le_refl _)
  -- a block with nodes below it: its own node has the number of the block
  have hcontainer : ∀ kind (at' : Placement) (b' : NodeBuilder), at'.parent = none → at'.order = 0 →
      mayHold .document kind = true → (∀ node : CanonicalNode, node.nodeId = b.nextId rt kind at' → node.kind = kind →
        ∃ top, Adds node 0 top (b.start rt kind at') b') → Adds root b.block b'.block b b' := by
    intro kind at' b' hparent horder hmay hsub
    have hnext : b.nextOrder at' = b.block + 1 := by rw [nextOrder, if_neg (by simp [horder])]
    obtain ⟨node, hid, hk⟩ : ∃ node : CanonicalNode, node.nodeId = b.nextId rt kind at' ∧ node.kind = kind :=
      ⟨{ nodeId := b.nextId rt kind at', kind, structuralIdentity := "", parentId := none, childOrder := 0, text := none,
         locator := { path := [] } }, rfl, rfl⟩
    have hblock : b.block + 1 ≤ b'.block := (hsub node hid hk).choose_spec.block
    exact adds_below (by rw [hparent]; exact hroot) (by rw [hkind]; exact hmay) (by omega) (by omega) hsub
  unfold parseBlock
  split
  · exact Adds.none (Nat.le_refl _)
  · split
    · exact hemit .code _ _ rfl
    · split
      · exact hemit .heading _ _ rfl
      · split
        · let placement : Placement :=
            { extra := [("header", .arr (((line :: lines).take 1).flatMap rowCells |>.map fun cell =>
                .str (String.ofList cell)))] }
          refine hcontainer .table placement _ rfl rfl rfl fun node hid hk => ?_
          have hrows := @adds_emitRows rt node hk (((line :: lines).drop 2).takeWhile fun line => (tableRow line).isSome) 0
            (b.start rt .table placement)
          rw [hid] at hrows
          exact ⟨_, hrows⟩
        · split
          · refine hcontainer .list {} _ rfl rfl rfl fun node hid hk => ?_
            have hitems := @adds_emitItems rt node hk ((line :: lines).takeWhile fun line => (rt.listItem line).isSome) 0
              (b.start rt .list {})
            rw [hid] at hitems
            exact ⟨_, hitems⟩
          · split
            · exact hemit .quote _ _ rfl
            · exact hemit .paragraph _ _ rfl

theorem adds_parseBlocks {fuel : Nat} {lines : List Text} (hroot : b.rootId = root.nodeId) (hkind : root.kind = .document)
    (h : parseBlocks rt fuel b lines = some b') : Adds root b.block b'.block b b' := by
  induction fuel generalizing b lines with
  | zero =>
    cases lines with
    | nil =>
      cases h
      exact Adds.none (Nat.le_refl _)
    | cons line lines => cases h
  | succ fuel ih =>
    cases lines with
    | nil =>
      cases h
      exact Adds.none (Nat.le_refl _)
    | cons line lines =>
      rw [parseBlocks_succ] at h
      have hblock := @adds_parseBlock rt b root hroot hkind line lines
      exact hblock.trans (ih (hblock.rootId.trans hroot) h)

/-- An identity that was made with the number of its block. -/
def Numbered (k : Nat) (identity : String) : Prop := (identityParts identity)[1]? = some (toString k).toList

theorem numbered_identity (b : NodeBuilder) (kind : NodeKind) (suffix : String) :
    Numbered (b.block + 1) (b.identity kind suffix) := by
  have hbase : identityParts (kind.value ++ ":" ++ toString (b.block + 1)) =
      [kind.value.toList, (toString (b.block + 1)).toList] := by
    rw [identityParts_append, identityParts_kind, identityParts_nat]
    rfl
  simp only [Numbered, identity]
  split
  · rw [identityParts_append, hbase]
    rfl
  · rw [hbase]
    rfl

/-- The nodes have the ids of their identities, and these the numbers of blocks up to the last. -/
structure Counted (rt : Runtime) (documentId : Uuid) (b : NodeBuilder) : Prop where
  document : b.documentId = documentId
  identified : Identified rt documentId b.nodes
  numbered : ∀ node ∈ b.nodes, node.structuralIdentity = "document" ∨ ∃ k ≤ b.block, Numbered k node.structuralIdentity

theorem counted_append {documentId : Uuid} (kind : NodeKind) (text : Option Text) (at' : Placement)
    (h : Counted rt documentId b) : Counted rt documentId (b.append rt kind text at') := by
  have hnew := numbered_identity b kind at'.identitySuffix
  refine ⟨h.document, ⟨fun node hn => ?_, ?_⟩, fun node hn => ?_⟩
  · rcases List.mem_append.1 hn with hn | hn
    · exact h.identified.ids node hn
    · obtain rfl := List.mem_singleton.1 hn
      exact congrArg (fun id => rt.canonicalNodeId id _) h.document
  · have hmap : (b.append rt kind text at').nodes.map (·.structuralIdentity) =
        b.nodes.map (·.structuralIdentity) ++ [b.identity kind at'.identitySuffix] := List.map_append ..
    rw [hmap]
    refine h.identified.distinct.append (List.nodup_singleton _) (List.disjoint_singleton.2 fun hmem => ?_)
    obtain ⟨node, hn, he⟩ := List.mem_map.1 hmem
    rcases h.numbered node hn with hdocument | ⟨k, hk, hnum⟩
    · rw [← he, hdocument, Numbered] at hnew
      exact absurd hnew (by simp [show identityParts "document" = ["document".toList] from by decide])
    · rw [← he, Numbered, hnum, Option.some.injEq] at hnew
      have hsame := toString_inj (String.toList_injective hnew)
      omega
  · rcases List.mem_append.1 hn with hn | hn
    · exact (h.numbered node hn).imp_right fun ⟨k, hk, hnum⟩ => ⟨k, Nat.le_succ_of_le hk, hnum⟩
    · obtain rfl := List.mem_singleton.1 hn
      exact .inr ⟨b.block + 1, Nat.le_refl _, hnew⟩

end NodeBuilder

namespace Runtime

variable {rt : Runtime} {sourceVersionId : Uuid} {data : List UInt8} {document : CanonicalDocument}

theorem parseMarkdown_some {fuel : Nat} (h : rt.parseMarkdown fuel sourceVersionId data = some document) :
    ∃ text builder, rt.decodeText data = some text ∧
      NodeBuilder.parseBlocks rt fuel (rt.newBuilder sourceVersionId text.length) (text.splitOn '\n') = some builder ∧
      document.documentId = rt.canonicalDocumentId sourceVersionId rt.markdownParser ∧
      document.rootNodeIds = [rt.canonicalNodeId document.documentId "document"] ∧ document.nodes = builder.nodes := by
  simp only [parseMarkdown, Option.bind_eq_bind, Option.bind_eq_some_iff] at h
  obtain ⟨text, htext, builder, hb, h⟩ := h
  cases h
  exact ⟨text, builder, htext, hb, rfl, rfl, rfl⟩

theorem outlined_markdown {fuel : Nat} (h : rt.parseMarkdown fuel sourceVersionId data = some document)
    (hapart : rt.UuidsApart document) : ∃ root sub, Outlined document root sub := by
  obtain ⟨text, builder, -, hb, hid, hroots, hnodes⟩ := parseMarkdown_some h
  have hnew : (rt.newBuilder sourceVersionId text.length).Counted rt document.documentId := by
    refine ⟨hid.symm, ⟨fun node hn => ?_, List.nodup_singleton _⟩, fun node hn => ?_⟩
    · obtain rfl := List.mem_singleton.1 hn
      rw [hid]
      rfl
    · obtain rfl := List.mem_singleton.1 hn
      exact .inl rfl
  have hcounted := NodeBuilder.keep_parseBlocks (fun b kind text at' _ => b.counted_append kind text at') hnew hb
  obtain ⟨-, -, sub, hadded, hbelow⟩ :=
    @NodeBuilder.adds_parseBlocks rt _ _ (rt.documentNode (rt.canonicalDocumentId sourceVersionId rt.markdownParser) text.length)
      _ _ rfl rfl hb
  have hidentified := hcounted.identified
  rw [← hnodes] at hidentified
  exact ⟨_, sub, by rw [hnodes, hadded]; rfl, by rw [hroots, hid]; rfl, rfl, rfl, ⟨_, hbelow⟩, hidentified.nodup hapart⟩

/-! ## CSV -/

variable {documentId : Uuid}

theorem below_csvCellNodes (rowNumber k : Nat) (values : List Text) :
    Below treeLinks (rt.csvRowNode documentId rowNumber) k (k + values.length)
      (rt.csvCellNodes documentId rowNumber (k + 1) values) := by
  induction values generalizing k with
  | nil => exact .nil (Nat.le_refl _)
  | cons value values ih =>
    have hrest := ih (k + 1)
    rw [Nat.add_right_comm] at hrest
    have hcell : Below treeLinks (rt.csvRowNode documentId rowNumber) k (k + 1)
        [rt.csvCellNode documentId rowNumber (k + 1) value] :=
      .one rfl rfl (Nat.lt_succ_self k) (Nat.le_refl _) (.nil (Nat.le_refl 0))
    exact hcell.append hrest

theorem below_csvRowNodes (tableExtra : Dict) (k : Nat) (rows : List (List Text)) :
    Below treeLinks (rt.csvTableNode documentId tableExtra) k (k + rows.length)
      (rt.csvRowNodes documentId (k + 1) rows) := by
  induction rows generalizing k with
  | nil => exact .nil (Nat.le_refl _)
  | cons row rows ih =>
    have hrest := ih (k + 1)
    rw [Nat.add_right_comm] at hrest
    exact .cons rfl rfl (Nat.lt_succ_self k) (below_csvCellNodes (k + 1) 0 row) hrest

theorem parts_csvRow (rowNumber : Nat) : identityParts (csvRowIdentity rowNumber) =
    ["table".toList, ['1'], "row".toList, (toString rowNumber).toList] := by
  have hbase : csvRowIdentity rowNumber = "table:1:row" ++ ":" ++ toString rowNumber := by
    rw [csvRowIdentity, csvTableIdentity]
    rfl
  rw [hbase, identityParts_append, identityParts_nat]
  rfl

theorem parts_csvCell (rowNumber column : Nat) : identityParts (csvCellIdentity rowNumber column) =
    ["table".toList, ['1'], "row".toList, (toString rowNumber).toList, "cell".toList, (toString column).toList] := by
  have hbase : csvCellIdentity rowNumber column = csvRowIdentity rowNumber ++ ":" ++ ("cell" ++ ":" ++ toString column) := by
    simp only [csvCellIdentity, String.append_assoc]
    rfl
  rw [hbase, identityParts_append, parts_csvRow, identityParts_append, identityParts_nat]
  rfl

theorem identified_csvCellNodes (rowNumber column : Nat) (values : List Text) :
    Identified rt documentId (rt.csvCellNodes documentId rowNumber column values) ∧
      ∀ node ∈ rt.csvCellNodes documentId rowNumber column values, ∃ k, column ≤ k ∧
        node.structuralIdentity = csvCellIdentity rowNumber k := by
  induction values generalizing column with
  | nil => exact ⟨⟨List.forall_mem_nil _, .nil⟩, List.forall_mem_nil _⟩
  | cons value values ih =>
    obtain ⟨hident, hlater⟩ := ih (column + 1)
    refine ⟨⟨List.forall_mem_cons.2 ⟨rfl, hident.ids⟩, List.nodup_cons.2 ⟨fun hmem => ?_, hident.distinct⟩⟩,
      List.forall_mem_cons.2 ⟨⟨column, Nat.le_refl _, rfl⟩, fun node hn => ?_⟩⟩
    · obtain ⟨node, hn, he⟩ := List.mem_map.1 hmem
      obtain ⟨k, hk, hident⟩ := hlater node hn
      have hparts := congrArg identityParts (hident.symm.trans he)
      rw [parts_csvCell, csvCellNode, parts_csvCell] at hparts
      simp only [List.cons.injEq, true_and, and_true] at hparts
      have hsame := toString_inj (String.toList_injective hparts)
      omega
    · obtain ⟨k, hk, hident⟩ := hlater node hn
      exact ⟨k, Nat.le_of_succ_le hk, hident⟩

theorem identified_csvRowNodes (rowNumber : Nat) (rows : List (List Text)) :
    Identified rt documentId (rt.csvRowNodes documentId rowNumber rows) ∧
      ∀ node ∈ rt.csvRowNodes documentId rowNumber rows, ∃ k, rowNumber ≤ k ∧
        (node.structuralIdentity = csvRowIdentity k ∨ ∃ column, node.structuralIdentity = csvCellIdentity k column) := by
  induction rows generalizing rowNumber with
  | nil => exact ⟨⟨List.forall_mem_nil _, .nil⟩, List.forall_mem_nil _⟩
  | cons row rows ih =>
    obtain ⟨hident, hlater⟩ := ih (rowNumber + 1)
    obtain ⟨hcells, hcell⟩ := @identified_csvCellNodes rt documentId rowNumber 1 row
    -- a later row has another number
    have hapart : ∀ node ∈ rt.csvRowNodes documentId (rowNumber + 1) rows,
        (identityParts node.structuralIdentity)[3]? ≠ some (toString rowNumber).toList := by
      intro node hn heq
      obtain ⟨k, hk, he⟩ := hlater node hn
      have hk' : (identityParts node.structuralIdentity)[3]? = some (toString k).toList := by
        rcases he with he | ⟨column, he⟩
        · rw [he, parts_csvRow]
          rfl
        · rw [he, parts_csvCell]
          rfl
      have hsame := toString_inj (String.toList_injective (Option.some.inj (heq.symm.trans hk')))
      omega
    refine ⟨⟨List.forall_mem_cons.2 ⟨rfl, List.forall_mem_append.2 ⟨hcells.ids, hident.ids⟩⟩, ?_⟩,
      List.forall_mem_cons.2 ⟨⟨rowNumber, Nat.le_refl _, .inl rfl⟩, List.forall_mem_append.2 ⟨fun node hn => ?_, fun node hn => ?_⟩⟩⟩
    · rw [csvRowNodes, List.map_cons, List.map_append]
      refine List.nodup_cons.2 ⟨fun hmem => ?_, hcells.distinct.append hident.distinct fun s hs hs' => ?_⟩
      · rcases List.mem_append.1 hmem with hmem | hmem
        · obtain ⟨node, hn, he⟩ := List.mem_map.1 hmem
          obtain ⟨k, -, hc⟩ := hcell node hn
          have hlen := congrArg (fun s => (identityParts s).length) (hc.symm.trans he)
          simp only [csvRowNode, parts_csvCell, parts_csvRow] at hlen
          cases hlen
        · obtain ⟨node, hn, he⟩ := List.mem_map.1 hmem
          refine hapart node hn ?_
          rw [he]
          exact congrArg (·[3]?) (parts_csvRow rowNumber)
      · obtain ⟨cell, hc, rfl⟩ := List.mem_map.1 hs
        obtain ⟨node, hn, he⟩ := List.mem_map.1 hs'
        obtain ⟨k, -, hk⟩ := hcell cell hc
        refine hapart node hn ?_
        rw [he, hk]
        exact congrArg (·[3]?) (parts_csvCell rowNumber k)
    · obtain ⟨k, -, hk⟩ := hcell node hn
      exact ⟨rowNumber, Nat.le_refl _, .inr ⟨k, hk⟩⟩
    · obtain ⟨k, hk, he⟩ := hlater node hn
      exact ⟨k, Nat.le_of_succ_le hk, he⟩

theorem outlined_csv {dialectName : String} {hasHeader : Bool} {rows : List (List Text)}
    (hapart : rt.UuidsApart (rt.csvDocument sourceVersionId dialectName hasHeader rows)) :
    ∃ root sub, Outlined (rt.csvDocument sourceVersionId dialectName hasHeader rows) root sub := by
  obtain ⟨hrows, hrow⟩ := @identified_csvRowNodes rt (rt.canonicalDocumentId sourceVersionId rt.csvParser) 1 rows
  refine ⟨_, _, rfl, rfl, rfl, rfl, ⟨_, .one rfl rfl Nat.zero_lt_one (Nat.le_refl 1) (below_csvRowNodes _ 0 rows)⟩,
    Identified.nodup ⟨List.forall_mem_cons.2 ⟨rfl, List.forall_mem_cons.2 ⟨rfl, hrows.ids⟩⟩, ?_⟩ hapart⟩
  have hdocument : (identityParts "document").length = 1 := rfl
  have htable : (identityParts csvTableIdentity).length = 2 := rfl
  have hlong : ∀ node ∈ rt.csvRowNodes (rt.canonicalDocumentId sourceVersionId rt.csvParser) 1 rows,
      3 < (identityParts node.structuralIdentity).length := by
    intro node hn
    obtain ⟨k, -, he | ⟨column, he⟩⟩ := hrow node hn
    · rw [he, parts_csvRow]
      exact Nat.lt_succ_self 3
    · rw [he, parts_csvCell]
      exact Nat.lt_of_lt_of_le (Nat.lt_succ_self 3) (Nat.le_add_right 4 2)
  refine List.nodup_cons.2 ⟨fun hmem => ?_, List.nodup_cons.2 ⟨fun hmem => ?_, hrows.distinct⟩⟩
  · rcases List.mem_cons.1 hmem with he | hmem
    · have hparts : (identityParts "document").length = (identityParts csvTableIdentity).length :=
        congrArg (fun s => (identityParts s).length) he
      omega
    · obtain ⟨node, hn, he⟩ := List.mem_map.1 hmem
      have hlt := hlong node hn
      rw [show node.structuralIdentity = "document" from he] at hlt
      omega
  · obtain ⟨node, hn, he⟩ := List.mem_map.1 hmem
    have hlt := hlong node hn
    rw [show node.structuralIdentity = csvTableIdentity from he] at hlt
    omega

/-! ## Every parsed document -/

/-- A document that one of the parsers makes of the bytes. -/
inductive Parses {Dialect : Type} (rt : Runtime) (csv : CsvLibrary Dialect) (sourceVersionId : Uuid) (data : List UInt8) :
    CanonicalDocument → Prop
  | text {document : CanonicalDocument} :
    rt.parseText sourceVersionId data = some document → Parses rt csv sourceVersionId data document
  | markdown {document : CanonicalDocument} (fuel : Nat) :
    rt.parseMarkdown fuel sourceVersionId data = some document → Parses rt csv sourceVersionId data document
  | csv {document : CanonicalDocument} :
    rt.parseCsv csv sourceVersionId data = .ok document → Parses rt csv sourceVersionId data document

/-- **Every parsed document is a well-formed tree**, persisted and walked in its order, unless two of its
identities have the same UUID. -/
theorem parsed_wellFormed {Dialect : Type} {csv : CsvLibrary Dialect} (h : rt.Parses csv sourceVersionId data document)
    (hapart : rt.UuidsApart document) : WellFormedTree rt document := by
  cases h with
  | text h =>
    obtain ⟨text, -, rfl⟩ := Option.map_eq_some_iff.1 h
    exact (outlined_text hapart).wellFormed
  | markdown fuel h =>
    obtain ⟨root, sub, houtlined⟩ := outlined_markdown h hapart
    exact houtlined.wellFormed
  | csv h =>
    simp only [parseCsv] at h
    split at h
    · cases h
    · cases hread : readRows (csv.reader (csv.detectDialect _).1 _) with
      | error e =>
        rw [hread] at h
        cases h
      | ok rows =>
        rw [hread] at h
        cases h
        obtain ⟨root, sub, houtlined⟩ := outlined_csv hapart
        exact houtlined.wellFormed

/-- A library that reads plain lines, with commas between the cells. -/
def commaCsv : CsvLibrary Unit where
  excel := ()
  sniff := fun _ => none
  hasHeader := fun _ => none
  reader := fun _ text => ((text.splitOn '\n').map (·.splitOn ','), false)

/-- The tree of the text `hi`. -/
theorem parsed_wellFormed_hi : WellFormedTree sampleRuntime (sampleRuntime.textDocument 1#128 ['h', 'i']) :=
  @parsed_wellFormed sampleRuntime 1#128 [0x68, 0x69] _ Unit commaCsv (.text rfl) (by
    have hnodes : (sampleRuntime.textDocument 1#128 ['h', 'i']).nodes.map (·.structuralIdentity) =
        ["document", "paragraph:1"] := rfl
    intro m hm n hn hid
    have hm' := List.mem_map_of_mem (f := fun node : CanonicalNode => node.structuralIdentity) hm
    have hn' := List.mem_map_of_mem (f := fun node : CanonicalNode => node.structuralIdentity) hn
    rw [hnodes] at hm' hn'
    simp only [List.mem_cons, List.not_mem_nil, or_false] at hm' hn'
    rcases hm' with hm' | hm' <;> rcases hn' with hn' | hn' <;> rw [hm', hn'] at hid ⊢
    · exact absurd hid (by decide)
    · exact absurd hid (by decide))

end Runtime

end MilpbookLM
