/-
What a published answer rests on. What `publish` admits is inserted (`publish_admitted`), and
every citation of it is of one item that was supplied and may be read (`Supports.resolves`); but
nothing asks for a span, nor for the state and the owner of the conversation (`groundedOrRefused_iff`).
-/
import MilpbookLM.Grounding.Publication
import MilpbookLM.Lib.Outcomes

namespace MilpbookLM.Grounding

/-! ## Items under ids -/

section Ids

variable {α : Type} {key : α → String} {items : List α}

theorem byId_some {id : String} {item : α} (h : byId key items id = some item) : item ∈ items ∧ key item = id :=
  ⟨List.mem_reverse.1 (List.mem_of_find?_eq_some h), by simpa using List.find?_some h⟩

end Ids

theorem number_inj {letter : String} {m n : Nat} (h : letter ++ toString m = letter ++ toString n) : m = n := by
  have h' := congrArg String.toList h
  rw [String.toList_append, String.toList_append, List.append_cancel_left_eq] at h'
  exact toString_inj (String.toList_inj.1 h')

/-- Numbered ids are different. -/
theorem numbered_nodup {α : Type} (letter : String) (items : List α) :
    ((items.zipIdx 1).map fun item => letter ++ toString item.2).Nodup := by
  have hmap : ((items.zipIdx 1).map fun item => letter ++ toString item.2) =
      ((items.zipIdx 1).map Prod.snd).map fun number => letter ++ toString number := by
    rw [List.map_map]
    rfl
  rw [hmap, List.zipIdx_map_snd]
  exact List.Nodup.map (fun _ _ => number_inj) List.nodup_range'

variable {Score Content : Type} {noteContentText : Content → String} {db : GroundingDb Content}
  {request : GroundingRequest} {manifest : FrozenManifest} {evidence : List Evidence} {draft : AnswerDraft}

/-! ## Supplied items -/

/-- An item that a provider is given. -/
inductive Supplied
  | evidence (item : Evidence)
  | note (context : NoteContext)

def Supplied.id : Supplied → String
  | .evidence item => item.id
  | .note context => context.id

/-- What a provider is given. -/
def supplied (manifest : FrozenManifest) (evidence : List Evidence) : List Supplied :=
  evidence.map .evidence ++ manifest.noteContexts.map .note

/-- A node of a version of the source in the notebook, with a locator over the span, that the actor may read. -/
structure ReadableNode (db : GroundingDb Content) (request : GroundingRequest) (item : Evidence) : Prop where
  node : ∃ node ∈ db.canonical.nodes, ∃ document ∈ db.canonical.documents, ∃ version ∈ db.canonical.sourceVersions,
    ∃ source ∈ db.canonical.sources, node.id = item.canonicalNodeId ∧ document.id = node.canonicalDocumentId ∧
      version.id = document.sourceVersionId ∧ version.id = item.sourceVersionId ∧ source.id = version.sourceId ∧
      source.id = item.sourceId ∧ source.notebookId = request.notebookId ∧ source.availability ≠ "deleted_tombstoned"
  located : ∃ l ∈ db.canonical.locators, l.canonicalNodeId = item.canonicalNodeId ∧
    l.covers item.charStart item.charEnd = true
  member : ∃ m ∈ db.memberships, m.notebookId = request.notebookId ∧ m.userId = request.actorUserId
  unrestricted : ∀ r ∈ db.restrictions, r.sourceVersionId = item.sourceVersionId →
    r.restrictionType = "access_denied" → r.userId ≠ none ∧ r.userId ≠ some request.actorUserId

/-- A selected revision of a note in the notebook, as it is stored, that the actor may read. -/
structure ReadableNote (noteContentText : Content → String) (db : GroundingDb Content) (request : GroundingRequest)
    (context : NoteContext) : Prop where
  selected : context.revisionId ∈ request.selectedNoteRevisionIds
  revision : ∃ revision ∈ db.noteRevisions, ∃ note ∈ db.notes, revision.id = context.revisionId ∧
    note.id = revision.noteId ∧ note.id = context.noteId ∧ note.notebookId = request.notebookId ∧
    note.title = context.title ∧ noteContentText revision.content = context.text
  member : ∃ m ∈ db.memberships, m.notebookId = request.notebookId ∧ m.userId = request.actorUserId

/-- An item may be cited. -/
def Supplied.Citable (noteContentText : Content → String) (db : GroundingDb Content) (request : GroundingRequest)
    (manifest : FrozenManifest) : Supplied → Prop
  | .evidence item => item.sourceVersionId ∈ manifest.sourceVersionIds ∧ ReadableNode db request item
  | .note context => context ∈ manifest.noteContexts ∧ ReadableNote noteContentText db request context

/-- The citation is of the item. -/
def Supplied.CitedBy : Supplied → Citation → Prop
  | .evidence item, citation => ∃ locatorKind, citation = .source item.id item.label item.sourceVersionId
      item.canonicalNodeId locatorKind item.charStart item.charEnd
      ("/api/v1/source-versions/" ++ item.sourceVersionId.str ++ "/nodes/" ++ item.canonicalNodeId.str)
  | .note context, citation => citation = GroundingDb.noteCitation context

/-- The one item that was supplied under an id. -/
def Resolves (manifest : FrozenManifest) (evidence : List Evidence) (id : String) (item : Supplied) : Prop :=
  (supplied manifest evidence).filter (·.id = id) = [item]

/-- A message is grounded. -/
structure FullyGrounded (noteContentText : Content → String) (db : GroundingDb Content) (request : GroundingRequest)
    (manifest : FrozenManifest) (evidence : List Evidence) (draft : AnswerDraft) (message : MessageRow) : Prop where
  content : message.content = draft.spans.flatMap (·.text)
  nonempty : message.content ≠ []
  nonblank : ∀ span ∈ draft.spans, isBlank span.text = false
  cited : ∀ span ∈ draft.spans, span.evidenceIds ≠ []
  resolved : ∀ span ∈ draft.spans, ∀ id ∈ span.evidenceIds, ∃ item, Resolves manifest evidence id item ∧
    item.Citable noteContentText db request manifest
  citations : List.Forall₂ (fun id citation => ∃ item, Resolves manifest evidence id item ∧ item.CitedBy citation)
    (draft.spans.flatMap (·.evidenceIds)) message.citations
  conversation : ∃ c ∈ db.conversations, c.id = request.conversationId ∧ c.ownerUserId = request.actorUserId ∧
    c.status = .open

/-- An answer is refused and nothing inserted, or one message is inserted and grounded. -/
def GroundedOrRefused (noteContentText : Content → String) (db : GroundingDb Content) (request : GroundingRequest)
    (manifest : FrozenManifest) (evidence : List Evidence) (messageId : Uuid) (draft : AnswerDraft)
    (retrievalTrace : String) : Prop :=
  (∃ e, db.publish noteContentText request manifest evidence messageId draft retrievalTrace = (.error e, db)) ∨
    ∃ message, db.publish noteContentText request manifest evidence messageId draft retrievalTrace =
        (.ok messageId, { db with messages := db.messages ++ [message] }) ∧
      FullyGrounded noteContentText db request manifest evidence draft message

/-! ## What is checked -/

/-- What stands for an evidence id of a draft. -/
def Supports (db : GroundingDb Content) (request : GroundingRequest) (manifest : FrozenManifest)
    (evidence : List Evidence) (id : String) : Prop :=
  (∃ item, byId Evidence.id evidence id = some item ∧ item.sourceVersionId ∈ manifest.sourceVersionIds ∧
    db.validateItem request item = .ok ()) ∨
  byId Evidence.id evidence id = none ∧ (byId NoteContext.id manifest.noteContexts id).isSome = true

/-- What `publish` asks of a draft. -/
structure Admitted (noteContentText : Content → String) (db : GroundingDb Content) (request : GroundingRequest)
    (manifest : FrozenManifest) (evidence : List Evidence) (messageId : Uuid) (draft : AnswerDraft) : Prop where
  notes : db.selectedNoteContexts noteContentText request = .ok manifest.noteContexts
  spans : ∀ span ∈ draft.spans, isBlank span.text = false ∧ span.evidenceIds ≠ [] ∧
    ∀ id ∈ span.evidenceIds, Supports db request manifest evidence id
  text : Char.ofNat 0 ∉ draft.spans.flatMap (·.text)
  fresh : ∀ m ∈ db.messages, m.id ≠ messageId
  conversation : ∃ c ∈ db.conversations, c.id = request.conversationId
  manifest : manifest.id ∈ db.manifestIds

theorem validateId_ok {id : String} :
    db.validateId request manifest evidence id = .ok () ↔ Supports db request manifest evidence id := by
  unfold GroundingDb.validateId Supports
  cases byId Evidence.id evidence id with
  | none =>
    simp only [reduceCtorEq, false_and, exists_false, true_and, false_or]
    split
    · next h => simp [h]
    · next h => simp [h]
  | some item =>
    by_cases h : item.sourceVersionId ∈ manifest.sourceVersionIds <;> simp [h]

theorem validate_ok : db.validate noteContentText request manifest evidence draft = .ok () ↔
    db.selectedNoteContexts noteContentText request = .ok manifest.noteContexts ∧
      ∀ span ∈ draft.spans, isBlank span.text = false ∧ span.evidenceIds ≠ [] ∧
        ∀ id ∈ span.evidenceIds, Supports db request manifest evidence id := by
  have hspan : ∀ span, db.validateSpan request manifest evidence span = .ok () ↔ isBlank span.text = false ∧
      span.evidenceIds ≠ [] ∧ ∀ id ∈ span.evidenceIds, Supports db request manifest evidence id := fun span => by
    unfold GroundingDb.validateSpan
    by_cases hblank : isBlank span.text = true
    · simp [hblank]
    · by_cases hids : span.evidenceIds = []
      · simp [hids]
      · simp only [hblank, hids, or_self, if_false, Except.forM_ok_iff, validateId_ok, ne_eq, not_false_eq_true,
          true_and, Bool.false_eq_true]
  unfold GroundingDb.validate
  rw [Except.bind_ok_iff]
  constructor
  · rintro ⟨contexts, hnotes, h⟩
    split at h
    · cases h
    · next heq =>
      rw [ne_eq, not_not] at heq
      rw [Except.forM_ok_iff] at h
      exact ⟨heq ▸ hnotes, fun span hmem => (hspan span).1 (h span hmem)⟩
  · rintro ⟨hnotes, h⟩
    refine ⟨_, hnotes, ?_⟩
    rw [if_neg (by simp), Except.forM_ok_iff]
    exact fun span hmem => (hspan span).2 (h span hmem)

theorem canRead_iff {actorUserId sourceVersionId notebookId : Uuid} :
    db.canRead actorUserId sourceVersionId notebookId = true ↔
      (∃ m ∈ db.memberships, m.notebookId = notebookId ∧ m.userId = actorUserId) ∧
        ∀ r ∈ db.restrictions, r.sourceVersionId = sourceVersionId → r.restrictionType = "access_denied" →
          r.userId ≠ none ∧ r.userId ≠ some actorUserId := by
  simp only [GroundingDb.canRead, List.any_eq_true, Bool.and_eq_true, decide_eq_true_eq, Bool.not_eq_true',
    List.any_eq_false, Bool.or_eq_true, not_and, not_or, and_imp]
  constructor
  · rintro ⟨m, hm, hmember, hfree⟩
    exact ⟨⟨m, hm, hmember⟩, hfree⟩
  · rintro ⟨⟨m, hm, hmember⟩, hfree⟩
    exact ⟨m, hm, hmember, hfree⟩

/-- Evidence that passes is readable. -/
theorem validateItem_readable {item : Evidence} (h : db.validateItem request item = .ok ()) :
    ReadableNode db request item := by
  have h : db.canonical.validateItem (db.canRead request.actorUserId item.sourceVersionId request.notebookId)
      request.notebookId item.coordinates = .ok () := by
    unfold GroundingDb.validateItem at h
    cases hitem : db.canonical.validateItem (db.canRead request.actorUserId item.sourceVersionId request.notebookId)
      request.notebookId item.coordinates with
    | error e =>
      rw [hitem] at h
      cases h
    | ok u => rfl
  unfold CanonicalDb.validateItem at h
  split at h
  · cases h
  · next availability hcited =>
    split at h
    · cases h
    · next havailable =>
      split at h
      · cases h
      · next hlocator =>
        split at h
        · cases h
        · next hread =>
          unfold CanonicalDb.citedAvailability at hcited
          simp only [Option.bind_eq_bind, Option.bind_eq_some_iff] at hcited
          obtain ⟨node, hnode, document, hdocument, version, hversion, source, hsource, hcited⟩ := hcited
          split at hcited
          · next hids =>
            cases hcited
            simp only [Evidence.coordinates] at hids hnode
            have hnodeId := List.find?_some hnode
            have hdocumentId := List.find?_some hdocument
            have hversionId := List.find?_some hversion
            have hsourceId := List.find?_some hsource
            simp only [CanonicalDb.hasValidLocator, Evidence.coordinates, Bool.not_eq_true', Bool.not_eq_false,
              List.any_eq_true, Bool.and_eq_true] at hlocator
            obtain ⟨l, hl, hown, hcovers⟩ := hlocator
            obtain ⟨hmember, hfree⟩ := canRead_iff.1 (by simpa using hread)
            exact ⟨⟨node, List.mem_of_find?_eq_some hnode, document, List.mem_of_find?_eq_some hdocument, version,
              List.mem_of_find?_eq_some hversion, source, List.mem_of_find?_eq_some hsource, of_decide_eq_true hnodeId,
              of_decide_eq_true hdocumentId, of_decide_eq_true hversionId, hids.1, of_decide_eq_true hsourceId,
              hids.2.1, hids.2.2, havailable⟩, ⟨l, hl, of_decide_eq_true hown, hcovers⟩, hmember, hfree⟩
          · cases hcited

/-! ## What is resolved -/

/-- The selected contexts are of readable notes, and numbered. -/
theorem selectedNoteContexts_ok {contexts : List NoteContext}
    (h : db.selectedNoteContexts noteContentText request = .ok contexts) :
    (contexts.map (·.id)).Nodup ∧ (∀ c ∈ contexts, ∃ number : Nat, c.id = "n" ++ toString number) ∧
      ∀ c ∈ contexts, ReadableNote noteContentText db request c := by
  unfold GroundingDb.selectedNoteContexts at h
  split at h
  · cases h
    simp
  · split at h
    · cases h
    · split at h
      · cases h
      · next rows hrows =>
        cases h
        refine ⟨?_, ?_, ?_⟩
        · rw [List.map_map]
          exact numbered_nodup "n" rows
        · intro c hc
          obtain ⟨row, -, rfl⟩ := List.mem_map.1 hc
          exact ⟨row.2, rfl⟩
        · intro c hc
          obtain ⟨⟨row, number⟩, hrow, rfl⟩ := List.mem_map.1 hc
          have hmem : row ∈ rows := List.fst_mem_of_mem_zipIdx hrow
          obtain ⟨revisionId, hselected, hfound⟩ := mem_of_mapM hrows hmem
          unfold GroundingDb.noteRow? at hfound
          simp only [Option.bind_eq_bind, Option.bind_eq_some_iff] at hfound
          obtain ⟨revision, hrevision, note, hnote, hfound⟩ := hfound
          split at hfound
          · next hmember =>
            cases hfound
            have hrevisionId : revision.id = revisionId := of_decide_eq_true (List.find?_some hrevision :)
            have hnoteId : note.id = revision.noteId := of_decide_eq_true (List.find?_some hnote :)
            have hmem := hmember.2
            simp only [List.any_eq_true, Bool.and_eq_true, decide_eq_true_eq, hmember.1] at hmem
            rw [← hrevisionId] at hselected
            exact ⟨hselected, ⟨revision, List.mem_of_find?_eq_some hrevision, note,
              List.mem_of_find?_eq_some hnote, rfl, hnoteId, rfl, hmember.1, rfl, rfl⟩, hmem⟩
          · cases hfound

/-- Evidence is numbered. -/
theorem assembled_ids {results : List (RetrievedChunk Score)} {tokenBudget : Int}
    (h : assemble results tokenBudget = .ok evidence) :
    (evidence.map (·.id)).Nodup ∧ ∀ item ∈ evidence, ∃ number : Nat, item.id = "e" ++ toString number := by
  by_cases hbudget : 1 ≤ tokenBudget
  · rw [assemble_eq hbudget] at h
    cases h
    constructor
    · rw [evidencesOf, List.map_map]
      exact numbered_nodup "e" _
    · intro item hitem
      obtain ⟨entry, -, rfl⟩ := List.mem_map.1 hitem
      exact ⟨entry.2, rfl⟩
  · rw [assemble, if_pos (by omega)] at h
    cases h

theorem letter_ne (m n : Nat) : "e" ++ toString m ≠ "n" ++ toString n := fun h => by
  have h' := congrArg (fun s : String => s.toList.head?) h
  simp [String.toList_append] at h'

section Admits

variable {results : List (RetrievedChunk Score)} {tokenBudget : Int}
  (hassemble : assemble results tokenBudget = .ok evidence)
  (hnotes : db.selectedNoteContexts noteContentText request = .ok manifest.noteContexts)

include hassemble hnotes

/-- What is supplied has ids of its own. -/
theorem supplied_nodup : ((supplied manifest evidence).map Supplied.id).Nodup := by
  obtain ⟨hevidence, hletterE⟩ := assembled_ids hassemble
  obtain ⟨hcontexts, hletterN, -⟩ := selectedNoteContexts_ok hnotes
  rw [supplied, List.map_append, List.map_map, List.map_map, List.nodup_append]
  refine ⟨hevidence, hcontexts, fun a ha b hb he => ?_⟩
  obtain ⟨item, hitem, rfl⟩ := List.mem_map.1 ha
  obtain ⟨context, hcontext, rfl⟩ := List.mem_map.1 hb
  obtain ⟨m, hm⟩ := hletterE item hitem
  obtain ⟨n, hn⟩ := hletterN context hcontext
  simp only [Function.comp, Supplied.id] at he
  exact letter_ne m n (hm ▸ hn ▸ he)

theorem resolves_of_mem {id : String} {item : Supplied} (h : item ∈ supplied manifest evidence) (hid : item.id = id) :
    Resolves manifest evidence id item :=
  filter_eq_singleton (supplied_nodup hassemble hnotes) h fun x _ => by simp [hid]

/-- What supports an id is one item that was supplied and may be cited, and its citation is made. -/
theorem Supports.resolves {id : String} (h : Supports db request manifest evidence id) :
    ∃ item citation, Resolves manifest evidence id item ∧ item.Citable noteContentText db request manifest ∧
      db.citation evidence manifest.noteContexts id = .ok citation ∧ item.CitedBy citation := by
  obtain ⟨-, -, hreadable⟩ := selectedNoteContexts_ok hnotes
  rcases h with ⟨item, hfound, hversion, hvalid⟩ | ⟨hnone, hnote⟩
  · obtain ⟨hmem, rfl⟩ := byId_some hfound
    have hnode := validateItem_readable hvalid
    obtain ⟨l, hl, hown, -⟩ := hnode.located
    obtain ⟨locator, hlocator⟩ := Option.isSome_iff_exists.1
      (List.find?_isSome.2 ⟨l, hl, decide_eq_true hown⟩ :
        (db.canonical.locators.find? (·.canonicalNodeId = item.canonicalNodeId)).isSome = true)
    refine ⟨.evidence item, _, resolves_of_mem hassemble hnotes (by simp [supplied, hmem]) rfl, ⟨hversion, hnode⟩, ?_,
      ⟨locator.locatorKind, rfl⟩⟩
    simp only [GroundingDb.citation, hfound, GroundingDb.sourceCitation, hlocator]
  · obtain ⟨context, hfound⟩ := Option.isSome_iff_exists.1 hnote
    obtain ⟨hmem, rfl⟩ := byId_some hfound
    refine ⟨.note context, _, resolves_of_mem hassemble hnotes (by simp [supplied, hmem]) rfl,
      ⟨hmem, hreadable context hmem⟩, ?_, rfl⟩
    simp only [GroundingDb.citation, hnone, hfound]

/-- The citations of the spans that are admitted. -/
theorem citationPayload_ok (hspans : ∀ span ∈ draft.spans, ∀ id ∈ span.evidenceIds,
    Supports db request manifest evidence id) :
    ∃ citations, db.citationPayload evidence manifest.noteContexts draft = .ok citations ∧
      List.Forall₂ (fun id citation => ∃ item, Resolves manifest evidence id item ∧ item.CitedBy citation)
        (draft.spans.flatMap (·.evidenceIds)) citations := by
  have hids : ∀ id ∈ draft.spans.flatMap (·.evidenceIds), Supports db request manifest evidence id := fun id hid => by
    obtain ⟨span, hspan, hid⟩ := List.mem_flatMap.1 hid
    exact hspans span hspan id hid
  unfold GroundingDb.citationPayload
  generalize draft.spans.flatMap (·.evidenceIds) = ids at hids
  induction ids with
  | nil => exact ⟨[], rfl, .nil⟩
  | cons id ids ih =>
    obtain ⟨item, citation, hresolves, -, hcitation, hcited⟩ := (hids id (by simp)).resolves hassemble hnotes
    obtain ⟨citations, hcitations, hall⟩ := ih fun other hother => hids other (by simp [hother])
    refine ⟨citation :: citations, ?_, .cons ⟨item, hresolves, hcited⟩ hall⟩
    rw [List.mapM_cons, hcitation, hcitations]
    rfl

end Admits

/-! ## Publication -/

section Publish

variable {results : List (RetrievedChunk Score)} {tokenBudget : Int} {messageId : Uuid} {retrievalTrace : String}

/-- What is published was admitted, and one message is inserted. -/
theorem publishRows_ok {db' : GroundingDb Content}
    (h : db.publishRows noteContentText request manifest evidence messageId draft retrievalTrace = .ok db') :
    Admitted noteContentText db request manifest evidence messageId draft ∧ ∃ citations,
      db.citationPayload evidence manifest.noteContexts draft = .ok citations ∧ db' = { db with
        messages := db.messages ++ [GroundingDb.messageOf request manifest evidence messageId draft retrievalTrace
          citations] } := by
  unfold GroundingDb.publishRows at h
  obtain ⟨u, hvalidate, h⟩ := Except.bind_ok_iff.1 h
  obtain ⟨citations, hcitations, h⟩ := Except.bind_ok_iff.1 h
  obtain ⟨hnotes, hspans⟩ := validate_ok.1 hvalidate
  unfold GroundingDb.insertMessage at h
  split at h
  · cases h
  · next htext =>
    split at h
    · cases h
    · next hfresh =>
      split at h
      · cases h
      · next hconversation =>
        split at h
        · cases h
        · next hmanifest =>
          cases h
          simp only [List.any_eq_true, decide_eq_true_eq, not_exists, not_and, Bool.not_eq_true',
            Bool.not_eq_false, not_not] at htext hfresh hconversation hmanifest
          exact ⟨⟨hnotes, hspans, htext, hfresh, hconversation, hmanifest⟩, citations, hcitations, rfl⟩

theorem insertMessage_ok {message : MessageRow} (htext : Char.ofNat 0 ∉ message.content)
    (hfresh : ∀ m ∈ db.messages, m.id ≠ message.id)
    (hconversation : ∃ c ∈ db.conversations, c.id = message.conversationId)
    (hmanifest : message.manifestId ∈ db.manifestIds) :
    db.insertMessage message = .ok { db with messages := db.messages ++ [message] } := by
  have hfresh : ¬db.messages.any (·.id = message.id) = true := by simpa using hfresh
  have hconversation : ¬(!db.conversations.any (·.id = message.conversationId)) = true := by simpa using hconversation
  rw [GroundingDb.insertMessage, if_neg htext, if_neg hfresh, if_neg hconversation, if_neg (not_not.2 hmanifest)]

/-- **What is admitted is published, with a citation of one supplied item under each id.** -/
theorem publish_admitted (hassemble : assemble results tokenBudget = .ok evidence)
    (h : Admitted noteContentText db request manifest evidence messageId draft) :
    ∃ citations, db.publish noteContentText request manifest evidence messageId draft retrievalTrace =
        (.ok messageId, { db with messages := db.messages ++
          [GroundingDb.messageOf request manifest evidence messageId draft retrievalTrace citations] }) ∧
      List.Forall₂ (fun id citation => ∃ item, Resolves manifest evidence id item ∧ item.CitedBy citation)
        (draft.spans.flatMap (·.evidenceIds)) citations := by
  obtain ⟨citations, hcitations, hall⟩ :=
    citationPayload_ok hassemble h.notes fun span hspan => (h.spans span hspan).2.2
  refine ⟨citations, ?_, hall⟩
  have hinsert := @insertMessage_ok _ db (GroundingDb.messageOf request manifest evidence messageId draft retrievalTrace
    citations) h.text h.fresh h.conversation h.manifest
  have hrows : db.publishRows noteContentText request manifest evidence messageId draft retrievalTrace =
      .ok { db with messages := db.messages ++
        [GroundingDb.messageOf request manifest evidence messageId draft retrievalTrace citations] } := by
    rw [GroundingDb.publishRows, validate_ok.2 ⟨h.notes, h.spans⟩, hcitations]
    exact hinsert
  rw [GroundingDb.publish, hrows]

/-- The conversation is open, and the requester's. -/
def GroundingDb.OpenConversation (db : GroundingDb Content) (request : GroundingRequest) : Prop :=
  ∃ c ∈ db.conversations, c.id = request.conversationId ∧ c.ownerUserId = request.actorUserId ∧ c.status = .open

/-- **A draft is published grounded or refused exactly if, where it is admitted, it has a span and the conversation is
open and the requester's.** -/
theorem groundedOrRefused_iff (hassemble : assemble results tokenBudget = .ok evidence) :
    GroundedOrRefused noteContentText db request manifest evidence messageId draft retrievalTrace ↔
      (Admitted noteContentText db request manifest evidence messageId draft →
        draft.spans ≠ [] ∧ db.OpenConversation request) := by
  constructor
  · rintro h hadmitted
    obtain ⟨citations, hpublish, -⟩ := @publish_admitted _ _ _ _ _ _ _ _ _ _ _ retrievalTrace hassemble hadmitted
    rcases h with ⟨e, h⟩ | ⟨message, h, hgrounded⟩
    · rw [h] at hpublish
      cases hpublish
    · refine ⟨fun hempty => hgrounded.nonempty ?_, hgrounded.conversation⟩
      rw [hgrounded.content, hempty]
      rfl
  · intro h
    cases hrows : db.publishRows noteContentText request manifest evidence messageId draft retrievalTrace with
    | error e => exact .inl ⟨e, by rw [GroundingDb.publish, hrows]⟩
    | ok db' =>
      obtain ⟨hadmitted, citations, hcitations, rfl⟩ := publishRows_ok hrows
      obtain ⟨hspans, hopen⟩ := h hadmitted
      obtain ⟨citations', hcitations', hall⟩ :=
        citationPayload_ok hassemble hadmitted.notes fun span hspan => (hadmitted.spans span hspan).2.2
      obtain rfl : citations = citations' := Except.ok.inj (hcitations.symm.trans hcitations')
      refine .inr ⟨_, by rw [GroundingDb.publish, hrows], rfl, ?_, fun span hspan => (hadmitted.spans span hspan).1,
        fun span hspan => (hadmitted.spans span hspan).2.1, fun span hspan id hid => ?_, hall, hopen⟩
      · obtain ⟨span, rest, hcons⟩ := List.exists_cons_of_ne_nil hspans
        have hblank := (hadmitted.spans span (by simp [hcons])).1
        intro hempty
        simp only [GroundingDb.messageOf, hcons, List.flatMap_cons, List.append_eq_nil_iff] at hempty
        rw [hempty.1] at hblank
        cases hblank
      · obtain ⟨item, citation, hresolves, hcitable, -⟩ :=
          ((hadmitted.spans span hspan).2.2 id hid).resolves hassemble hadmitted.notes
        exact ⟨item, hresolves, hcitable⟩

end Publish

/-! ## A draft of a note -/

/-- A notebook with one note, its member, and the member's conversation. -/
def noteDb : GroundingDb String where
  memberships := [⟨1, 2⟩]
  notes := [⟨3, 1, "Plan"⟩]
  noteRevisions := [⟨4, 3, "Ship on Monday."⟩]
  conversations := [{ id := 5, ownerUserId := 2, notebookId := some 1, chatConfig := [] }]
  manifestIds := [6]

def noteRequest : GroundingRequest where
  actorUserId := 2
  notebookId := 1
  conversationId := 5
  selectedNoteRevisionIds := [4]

def noteManifest : FrozenManifest where
  id := 6
  sourceVersionIds := []
  noteContexts := [⟨"n1", 3, 4, "Plan", "Ship on Monday."⟩]

theorem note_grounded :
    (noteDb.publish id noteRequest noteManifest [] 7 ⟨[⟨['M'], ["n1"]⟩], false⟩ "trace").1 = .ok 7 ∧
      GroundedOrRefused id noteDb noteRequest noteManifest [] 7 ⟨[⟨['M'], ["n1"]⟩], false⟩ "trace" :=
  ⟨rfl, (@groundedOrRefused_iff Nat _ _ _ _ _ _ _ [] 5 _ _ rfl).2 fun _ =>
    ⟨by simp, _, List.mem_singleton.2 rfl, rfl, rfl, rfl⟩⟩

/-- A draft without spans is published as a message without content. -/
theorem empty_draft_published :
    (noteDb.publish id noteRequest noteManifest [] 7 ⟨[], false⟩ "trace").1 = .ok 7 ∧
      ¬GroundedOrRefused id noteDb noteRequest noteManifest [] 7 ⟨[], false⟩ "trace" := by
  refine ⟨rfl, ?_⟩
  rintro (⟨e, h⟩ | ⟨message, -, hgrounded⟩)
  · cases congrArg Prod.fst h
  · exact hgrounded.nonempty hgrounded.content

end MilpbookLM.Grounding
