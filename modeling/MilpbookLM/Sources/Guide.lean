/-
The effective restrictions that a Source Guide shows. The walk starts from the active version,
and the edges that the use cases record lead from a version to its blob and to the note it was
promoted from, and no further: what is found is what the version itself is restricted to
(`restrictions_follow`).

The ancestors of a version are a breadth-first search. What is visited is a node with its version,
and what the edges of a frontier are looked up by is the node alone. Each edge near enough is found
once, in the order of the distances, exactly where no node with edges is come to by two of its
versions at different distances (`traversal_breadth_first_iff`).
-/
import MilpbookLM.Lib.Interleave
import MilpbookLM.Lib.Rounds
import MilpbookLM.Sources.Provenance
import MilpbookLM.Sources.PurgeClosure

namespace MilpbookLM

open Interleave Provenance Relation

/-! ## Rows -/

structure GuideSource where
  id : Uuid
  notebookId : Uuid
  currentVersionId : Option Uuid
  revision : Nat
  restrictionPolicy : Option Json := none

structure RestrictionRow where
  sourceVersionId : Uuid
  /-- None for a restriction on everybody. -/
  userId : Option Uuid := none
  restrictionType : String
  createdAt : Time
  deriving DecidableEq

/-- A restriction on everybody, or on the user. -/
def RestrictionRow.appliesTo (row : RestrictionRow) (userId : Uuid) : Bool :=
  row.userId = none || row.userId = some userId

/-- `ORDER BY created_at, restriction_type, user_id`, where the rows for everybody come last. -/
def RestrictionRow.before (row row' : RestrictionRow) : Bool :=
  row.createdAt < row'.createdAt || row.createdAt = row'.createdAt && (row.restrictionType < row'.restrictionType ||
    row.restrictionType = row'.restrictionType && match row.userId, row'.userId with
      | _, none => true
      | none, some _ => false
      | some userId, some userId' => userId ≤ userId')

inductive GuideError
  | sourceNotFound
  deriving DecidableEq

structure GuideDb where
  library : Library := {}
  sources : List GuideSource := []
  /-- The versions in status active. -/
  activeVersions : List Uuid := []
  /-- A notebook and a member. -/
  memberships : List (Uuid × Uuid) := []
  restrictions : List RestrictionRow := []

/-- What the standard library brings along. -/
structure GuideRuntime where
  /-- `json.dumps(policy, sort_keys=True)`. -/
  dumps : Json → String
  isoformat : Time → String

/-! ## The guide -/

namespace GuideDb

variable (rt : GuideRuntime) (w : GuideDb) (sourceId actorId : Uuid)

/-- The source and its active version, where the actor is a member of its notebook. -/
def active? : Option (GuideSource × Uuid) := do
  let source ← w.sources.find? (·.id = sourceId)
  let version ← source.currentVersionId
  if w.activeVersions.contains version && w.memberships.contains (source.notebookId, actorId) then some (source, version)
  else none

/-- `_frontier_edges`; the table is in the order of its rows' insertion. -/
def frontierEdges (frontier : List ProvenanceNode) : List Provenance.Edge :=
  (w.library.edges.filter fun e => frontier.any fun n => n.nodeType = e.fromType && n.nodeId = e.fromId).map fun e =>
    ⟨⟨e.fromType, e.fromId, e.fromVersionId⟩, e.edgeType, ⟨e.toType, e.toId, e.toVersionId⟩⟩

/-- `_ancestor_source_versions`. -/
def ancestorSourceVersions (startVersionId : Uuid) : List Uuid :=
  ((boundedAncestorTraversal { nodeType := "source_version", nodeId := startVersionId } w.frontierEdges).filter
    (·.toNode.nodeType = "source_version")).map (·.toNode.nodeId)

/-- `_ancestor_source_versions` and the active version itself. -/
def contentVersions (version : Uuid) : List Uuid := version :: w.ancestorSourceVersions version

/-- The rows that are read: of the versions, and for the actor. -/
def restrictionRows (versionIds : List Uuid) : List RestrictionRow :=
  (w.restrictions.filter fun row => versionIds.contains row.sourceVersionId && row.appliesTo actorId).insertionSort
    (RestrictionRow.before · ·)

def restrictionInputs (source : GuideSource) (version : Uuid) : RestrictionInputs :=
  { sourceVersionId := version
    userId := actorId
    sourceRevision := source.revision
    restrictionPolicy := source.restrictionPolicy.map rt.dumps
    ancestorVersionIds := w.contentVersions version
    restrictionRows := (w.restrictionRows actorId (w.contentVersions version)).map fun row =>
      (row.restrictionType, row.userId, rt.isoformat row.createdAt) }

/-- `effective_restrictions`: the answer, and the cache it leaves. -/
def effectiveRestrictions (cache : Cache) : Except GuideError EffectiveRestrictions × Cache :=
  match w.active? sourceId actorId with
  | none => (.error .sourceNotFound, cache)
  | some (source, version) =>
    let inputs := w.restrictionInputs rt actorId source version
    match cache.get inputs with
    | some cached => (.ok cached, cache)
    | none => (.ok (computeEffectiveRestrictions inputs), cache.put inputs (computeEffectiveRestrictions inputs))

end GuideDb

/-! ## Runs -/

/-- The tables, and what one process has cached. -/
structure GuideState where
  db : GuideDb := {}
  cache : Cache := []

/-- Any use case, any change of the sources, their versions' status, the members and the restrictions, any read. -/
inductive GuideStep (lrt : Runtime) (rt : GuideRuntime) : GuideState → GuideState → Prop
  | call {s library} (call : LibraryCall) (h : call.exec lrt s.db.library = .ok library) :
      GuideStep lrt rt s { s with db := { s.db with library } }
  | change {s} (sources : List GuideSource) (activeVersions : List Uuid) (memberships : List (Uuid × Uuid)) :
      GuideStep lrt rt s { s with db := { s.db with sources, activeVersions, memberships } }
  | restrict {s} (restrictions : List RestrictionRow) :
      GuideStep lrt rt s { s with db := { s.db with restrictions } }
  | read {s} (sourceId actorId : Uuid) :
      GuideStep lrt rt s { s with cache := (s.db.effectiveRestrictions rt sourceId actorId s.cache).2 }

/-- The states that the steps lead to, from empty tables and an empty cache. -/
abbrev GuideState.Reached (lrt : Runtime) (rt : GuideRuntime) : GuideState → Prop :=
  Reach (· = {}) (GuideStep lrt rt)

/-! ## What the edges lead to -/

/-- An edge that an activation or a promotion inserts. No edge starts at a blob or a note revision. -/
def TypedEdge.Shallow (e : TypedEdge) : Prop :=
  e.fromType = "source" ∨ e.fromType = "canonical_document" ∨
    e.fromType = "source_version" ∧ (e.toType = "blob" ∨ e.toType = "note_revision")

namespace Library

/-- Every edge is shallow. -/
def Shallow (w : Library) : Prop := ∀ e ∈ w.edges, e.Shallow

variable {w w' : Library} {rt : Runtime}

theorem Shallow.insertEdge (h : w.Shallow) {e : TypedEdge} (he : e.Shallow) : (w.insertEdge e).Shallow := by
  unfold Library.insertEdge
  split
  · exact h
  · intro e' he'
    rcases List.mem_append.1 he' with he' | he'
    · exact h e' he'
    · exact List.mem_singleton.1 he' ▸ he

theorem Shallow.of_edges (h : w.Shallow) (hedges : w'.edges = w.edges) : w'.Shallow := by
  unfold Shallow
  rwa [hedges]

theorem Shallow.activate (h : w.Shallow) {versionId documentId : Uuid} {edgeIds : Uuid × Uuid × Uuid}
    (hok : w.activate versionId documentId edgeIds = .ok w') : w'.Shallow := by
  unfold Library.activate at hok
  split at hok
  case h_2 =>
    cases hok
    exact h
  next version document _ _ =>
  obtain rfl := Except.ok.inj hok
  refine Shallow.insertEdge ?_ (.inr (.inl rfl))
  have hcontains := h.insertEdge (e := edge edgeIds.1 "source" version.sourceId "contains" "source_version" version.id)
    (.inl rfl)
  cases version.originalBlobId with
  | none => exact hcontains
  | some blobId => exact hcontains.insertEdge (.inr (.inr ⟨rfl, .inl rfl⟩))

theorem acquire_edges {sourceId versionId : Uuid} {blob : BlobObject}
    (hok : w.acquire sourceId versionId blob = .ok w') : w'.edges = w.edges := by
  unfold Library.acquire at hok
  split at hok
  · cases hok
  · cases hok
    rfl

theorem Shallow.promote (h : w.Shallow) {selectedId sourceId versionId edgeId : Uuid} {known : Bool} {blob : BlobObject}
    (hok : w.promote selectedId sourceId versionId known blob edgeId = .ok w') : w'.Shallow := by
  unfold Library.promote at hok
  split at hok
  · cases hok
  · have hedge : (edge edgeId "source_version" versionId "derived_from" "note_revision" selectedId).Shallow :=
      .inr (.inr ⟨rfl, .inr rfl⟩)
    split at hok
    · cases hok
      exact h.insertEdge hedge
    · cases hacquired : w.acquire sourceId versionId blob with
      | error e =>
        rw [hacquired] at hok
        cases hok
      | ok w₁ =>
        rw [hacquired] at hok
        cases hok
        exact (h.of_edges (acquire_edges hacquired)).insertEdge hedge

theorem addRevision_edges {revisionId noteId : Uuid} {refs : List ContentRef}
    (hok : w.addRevision revisionId noteId refs = .ok w') : w'.edges = w.edges := by
  unfold Library.addRevision at hok
  split at hok
  · cases hok
  · cases hok
    rfl

theorem freeze_edges {manifestId : Uuid} {parentManifestId : Option Uuid} {sourceVersionIds noteRevisionIds : List Uuid}
    (hok : w.freeze manifestId parentManifestId sourceVersionIds noteRevisionIds = .ok w') : w'.edges = w.edges := by
  unfold Library.freeze at hok
  split at hok
  · cases hok
  · cases hok
    rfl

theorem storeRenditions_edges (renditions : List BlobObject) (artifactId : Uuid) :
    (w.storeRenditions renditions artifactId).edges = w.edges := by
  unfold storeRenditions
  induction renditions generalizing w with
  | nil => rfl
  | cons blob rest ih => exact ih

/-- **Every call keeps the edges shallow**: an activation and a promotion insert some, the others none. -/
theorem Shallow.exec (h : w.Shallow) {call : LibraryCall} (hok : call.exec rt w = .ok w') : w'.Shallow := by
  cases call with
  | acquire => exact h.of_edges (acquire_edges hok)
  | activate => exact h.activate hok
  | promote => exact h.promote hok
  | editNote => exact h.of_edges (addRevision_edges hok)
  | freezeRequest => exact h.of_edges (freeze_edges hok)
  | parse =>
    refine h.of_edges ?_
    simp only [LibraryCall.exec, Library.parse] at hok
    split at hok
    · cases hok; rfl
    · split at hok <;> cases hok
      rfl
  | index =>
    refine h.of_edges ?_
    simp only [LibraryCall.exec, Library.index] at hok
    split at hok
    · cases hok
    split at hok
    · cases hok
    split at hok <;> cases hok <;> rfl
  | freezeGrounding =>
    simp only [LibraryCall.exec, Library.freezeGrounding] at hok
    split at hok
    · cases hok
    · exact h.of_edges (freeze_edges hok)
  | answer =>
    refine h.of_edges ?_
    simp only [LibraryCall.exec, Library.answer] at hok
    split at hok
    · cases hok
    split at hok <;> cases hok
    rfl
  | saveResponse =>
    refine h.of_edges ?_
    simp only [LibraryCall.exec, Library.saveResponse] at hok
    split at hok
    · cases hok; rfl
    · exact addRevision_edges hok
  | transform =>
    refine h.of_edges ?_
    simp only [LibraryCall.exec, Library.transform] at hok
    split at hok
    · cases hok
    · exact addRevision_edges hok
  | storeRenditions =>
    cases hok
    exact h.of_edges (storeRenditions_edges _ _)
  | publishVersion =>
    refine h.of_edges ?_
    simp only [LibraryCall.exec, Library.publishVersion] at hok
    split at hok
    · cases hok
    split at hok <;> cases hok
    rfl

end Library

namespace GuideDb

variable {rt : GuideRuntime} {w : GuideDb} {sourceId actorId version : Uuid} {source : GuideSource} {cache : Cache}

/-- The walk comes to blobs and note revisions only. -/
theorem ancestorSourceVersions_nil (h : w.library.Shallow) : w.ancestorSourceVersions version = [] := by
  refine List.map_eq_nil_iff.2 (List.filter_eq_nil_iff.2 fun e he htype => ?_)
  have hend : e.toNode.nodeType = "blob" ∨ e.toNode.nodeType = "note_revision" := by
    refine walk_ends (S := fun n => n.nodeType = "source_version" ∨ n.nodeType = "blob" ∨ n.nodeType = "note_revision")
      (T := fun n => n.nodeType = "blob" ∨ n.nodeType = "note_revision") (fun n => .inr) (fun frontier hfrontier e he => ?_)
      (fun n hn => .inl ?_) e he
    · obtain ⟨row, hrow, rfl⟩ := List.mem_map.1 he
      obtain ⟨hrow, hfrom⟩ := List.mem_filter.1 hrow
      obtain ⟨n, hn, hof⟩ := List.any_eq_true.1 hfrom
      simp only [Bool.and_eq_true, decide_eq_true_eq] at hof
      have hn := hof.1 ▸ hfrontier n hn
      rcases h row hrow with hsource | hdocument | ⟨-, hto⟩
      · rw [hsource] at hn
        exact absurd hn (by decide)
      · rw [hdocument] at hn
        exact absurd hn (by decide)
      · exact hto
    · rw [List.mem_singleton.1 hn]
  rcases hend with hend | hend <;> simp [hend] at htype

/-- What is answered for an active version is computed from the rows, whether it is cached or not. -/
theorem effectiveRestrictions_ok (hcache : cache.Sound) (hactive : w.active? sourceId actorId = some (source, version)) :
    (w.effectiveRestrictions rt sourceId actorId cache).1 =
      .ok (computeEffectiveRestrictions (w.restrictionInputs rt actorId source version)) := by
  simp only [effectiveRestrictions, hactive]
  split
  next cached hcached => rw [hcache.get hcached]
  next => rfl

theorem effectiveRestrictions_sound (hcache : cache.Sound) :
    (w.effectiveRestrictions rt sourceId actorId cache).2.Sound := by
  unfold effectiveRestrictions
  split
  · exact hcache
  · dsimp only
    split
    · exact hcache
    · exact hcache.put

theorem mem_computed {restrictionType : String} :
    restrictionType ∈ (computeEffectiveRestrictions (w.restrictionInputs rt actorId source version)).restrictionTypes ↔
      ∃ row ∈ w.restrictions, row.sourceVersionId ∈ w.contentVersions version ∧ row.appliesTo actorId ∧
        row.restrictionType = restrictionType := by
  rw [mem_compute]
  simp only [restrictionInputs, restrictionRows, List.mem_map, List.mem_insertionSort, List.mem_filter]
  constructor
  · rintro ⟨_, ⟨row, ⟨hrow, hread⟩, rfl⟩, -, rfl⟩
    simp only [Bool.and_eq_true, List.contains_iff_mem] at hread
    exact ⟨row, hrow, hread.1, hread.2, rfl⟩
  · rintro ⟨row, hrow, hversion, happlies, rfl⟩
    refine ⟨_, ⟨row, ⟨hrow, ?_⟩, rfl⟩, by simpa [RestrictionRow.appliesTo] using happlies, rfl⟩
    simp [hversion, happlies]

end GuideDb

/-! ## Restrictions follow what a version derives from -/

/-- The content of the version derives from that of the other, or is it. -/
def Library.DerivesFrom (w : Library) (version other : Uuid) : Prop :=
  ReflTransGen w.Records (.sourceVersion version) (.sourceVersion other)

/-- A restriction of this type on the version applies to the user. -/
def GuideDb.Restricts (w : GuideDb) (version userId : Uuid) (restrictionType : String) : Prop :=
  ∃ row ∈ w.restrictions, row.sourceVersionId = version ∧ row.appliesTo userId ∧ row.restrictionType = restrictionType

theorem GuideState.Reached.invariant {lrt : Runtime} {rt : GuideRuntime} {s : GuideState} (h : s.Reached lrt rt) :
    s.db.library.Shallow ∧ s.cache.Sound := by
  refine Reach.invariant (I := fun s : GuideState => s.db.library.Shallow ∧ s.cache.Sound) ?_ ?_ h
  · rintro _ rfl
    exact ⟨fun _ he => (nomatch he), fun _ hentry => (nomatch hentry)⟩
  · intro s s' _ ⟨hedges, hcache⟩ hstep
    cases hstep with
    | call _ hok => exact ⟨hedges.exec hok, hcache⟩
    | change => exact ⟨hedges, hcache⟩
    | restrict => exact ⟨hedges, hcache⟩
    | read => exact ⟨hedges, GuideDb.effectiveRestrictions_sound hcache⟩

/-- **Exactly when the effective restrictions follow the content**: whatever applies to the user on a version that the
active one derives from has to be on the active version itself too. -/
theorem restrictions_follow {lrt : Runtime} {rt : GuideRuntime} {s : GuideState} {sourceId actorId version : Uuid}
    {source : GuideSource} (h : s.Reached lrt rt) (hactive : s.db.active? sourceId actorId = some (source, version)) :
    (∃ effective, (s.db.effectiveRestrictions rt sourceId actorId s.cache).1 = .ok effective ∧
        ∀ other restrictionType, s.db.library.DerivesFrom version other → s.db.Restricts other actorId restrictionType →
          restrictionType ∈ effective.restrictionTypes) ↔
      ∀ other restrictionType, s.db.library.DerivesFrom version other → s.db.Restricts other actorId restrictionType →
        s.db.Restricts version actorId restrictionType := by
  obtain ⟨hedges, hcache⟩ := h.invariant
  have hmem : ∀ restrictionType, restrictionType ∈
      (computeEffectiveRestrictions (s.db.restrictionInputs rt actorId source version)).restrictionTypes ↔
        s.db.Restricts version actorId restrictionType := by
    intro restrictionType
    simp [GuideDb.mem_computed, GuideDb.contentVersions, GuideDb.ancestorSourceVersions_nil hedges, GuideDb.Restricts]
  simp only [GuideDb.effectiveRestrictions_ok hcache hactive, Except.ok.injEq, exists_eq_left', hmem]

/-! ## A saved answer that is promoted -/

def promotedBlob : BlobObject :=
  { id := 1, contentSha256 := "da2e", sizeBytes := 2, storagePath := .object "da2e", state := .finalized }

def plainRuntime : GuideRuntime := ⟨fun _ => "null", fun _ => "1970-01-01T00:00:00+00:00"⟩

/-- The note of the answer on version 1 is promoted to version 11 of source 10, and versions are restricted. -/
def promotedOfOne (restricted : List Uuid) : GuideState where
  db :=
    { library := (savedOfOne.acquire 10 11 promotedBlob |>.toOption.getD {}).insertEdge
        (Library.edge 12 "source_version" 11 "derived_from" "note_revision" 8)
      sources := [⟨5, 20, some 1, 1, none⟩, ⟨10, 20, some 11, 1, none⟩]
      activeVersions := [1, 11]
      memberships := [(20, 30)]
      restrictions := restricted.map fun id => ⟨id, none, "access_denied", 0⟩ }

theorem promotedOfOne_reached (restricted : List Uuid) :
    (promotedOfOne restricted).Reached sampleRuntime plainRuntime := by
  have hempty : GuideState.Reached sampleRuntime plainRuntime {} := .start rfl
  have hacquired := hempty.next (.call (.acquire 5 1 storedOfOne) rfl)
  have hfrozen := hacquired.next (.call (.freezeGrounding 2 [1] []) rfl)
  have hanswered := hfrozen.next (.call (.answer 3 2) rfl)
  have hsaved := hanswered.next (.call (.saveResponse 3 8 9) rfl)
  have hpromoted := hsaved.next (.call (.promote 8 10 11 false promotedBlob 12) rfl)
  have hactive := hpromoted.next (.change [⟨5, 20, some 1, 1, none⟩, ⟨10, 20, some 11, 1, none⟩] [1, 11] [(20, 30)])
  exact hactive.next (.restrict _)

theorem promotedOfOne_derives (restricted : List Uuid) : (promotedOfOne restricted).db.library.DerivesFrom 11 1 := by
  have hedge : Library.edge 12 "source_version" 11 "derived_from" "note_revision" 8 ∈
      (promotedOfOne restricted).db.library.edges := .head _
  have hnote : (⟨8, 9, [⟨.message, 3⟩], [⟨.message, 3⟩]⟩ : NoteRevision) ∈
      (promotedOfOne restricted).db.library.noteRevisions := .head _
  have hanswer : (⟨3, 2⟩ : Message) ∈ (promotedOfOne restricted).db.library.tables.messages := .head _
  have hitem : (⟨2, "source_version", 1⟩ : ManifestItem) ∈
      (promotedOfOne restricted).db.library.tables.manifestItems := .head _
  refine .head (.derived hedge (by decide) (.sourceVersion 11) (.noteRevision hnote)) ?_
  refine .head (.noteRevision hnote (.head _) (.message hanswer)) ?_
  exact .head (.message hanswer) (.single (.item hitem (.sourceVersion 1)))

/-- Both versions are restricted. -/
theorem restrictions_follow_both :
    ∃ effective, ((promotedOfOne [1, 11]).db.effectiveRestrictions plainRuntime 10 30 []).1 = .ok effective ∧
      ∀ other restrictionType, (promotedOfOne [1, 11]).db.library.DerivesFrom 11 other →
        (promotedOfOne [1, 11]).db.Restricts other 30 restrictionType → restrictionType ∈ effective.restrictionTypes :=
  (restrictions_follow (promotedOfOne_reached [1, 11]) rfl).2 fun _ _ _ ⟨row, hrow, _, happlies, htype⟩ => by
    refine ⟨⟨11, none, "access_denied", 0⟩, .tail _ (.head _), rfl, rfl, ?_⟩
    simp only [promotedOfOne, List.map_cons, List.map_nil, List.mem_cons, List.not_mem_nil, or_false] at hrow
    rcases hrow with rfl | rfl <;> exact htype

/-- Nobody may access version 1, and what was made of it is not restricted at all. -/
theorem restriction_lost : ¬ ∀ (lrt : Runtime) (rt : GuideRuntime) (s : GuideState) (sourceId actorId version : Uuid)
    (source : GuideSource), s.Reached lrt rt → s.db.active? sourceId actorId = some (source, version) →
      ∃ effective, (s.db.effectiveRestrictions rt sourceId actorId s.cache).1 = .ok effective ∧
        ∀ other restrictionType, s.db.library.DerivesFrom version other →
          s.db.Restricts other actorId restrictionType → restrictionType ∈ effective.restrictionTypes := by
  intro h
  obtain ⟨effective, hok, hfollow⟩ :=
    h sampleRuntime plainRuntime (promotedOfOne [1]) 10 30 11 _ (promotedOfOne_reached [1]) rfl
  have hnone : ((promotedOfOne [1]).db.effectiveRestrictions plainRuntime 10 30 []).1 = .ok ⟨[]⟩ := by decide +kernel
  obtain rfl := Except.ok.inj (hok.symm.trans hnone)
  have hlost := hfollow 1 "access_denied" (promotedOfOne_derives [1]) ⟨_, .head _, rfl, rfl, rfl⟩
  cases hlost

/-! ## The search -/

/-- The edges of the table. They lead from nodes to versions of nodes. -/
def GuideDb.graph (w : GuideDb) : Multigraph TypedEdge (String × Uuid) ProvenanceNode where
  rows := w.library.edges
  source e := (e.fromType, e.fromId)
  target e := ⟨e.toType, e.toId, e.toVersionId⟩
  point n := (n.nodeType, n.nodeId)

/-- The edge of a row. -/
def edgeOf (e : TypedEdge) : Edge :=
  ⟨⟨e.fromType, e.fromId, e.fromVersionId⟩, e.edgeType, ⟨e.toType, e.toId, e.toVersionId⟩⟩

/-- The node that an edge is out of, whatever its version. -/
def Provenance.Edge.source (e : Edge) : String × Uuid := (e.fromNode.nodeType, e.fromNode.nodeId)

/-- Exactly the edges whose source is nearer than `maxDepth`, each once, in the order of the distances. -/
structure BreadthFirst (w : GuideDb) (start : ProvenanceNode) (maxDepth : Nat) (edges : List Edge) : Prop where
  exactly : edges.Perm ((w.library.edges.filter (w.graph.within start maxDepth)).map edgeOf)
  ordered : edges.Pairwise fun e e' => ∀ d d', w.graph.Distance start d e.source → w.graph.Distance start d' e'.source →
    d ≤ d'

theorem frontierEdges_eq (w : GuideDb) (frontier : List ProvenanceNode) :
    w.frontierEdges frontier = (w.graph.outgoing frontier).map edgeOf := by
  rw [GuideDb.frontierEdges, Multigraph.outgoing]
  refine congrArg (List.map edgeOf) (List.filter_congr fun e _ => ?_)
  simp [GuideDb.graph]

/-- The walk is the one over the graph. -/
theorem walk_eq (w : GuideDb) (depth : Nat) (visited frontier : List ProvenanceNode) :
    walk w.frontierEdges depth visited frontier = (w.graph.rounds depth visited frontier).map edgeOf := by
  induction depth generalizing visited frontier with
  | zero => rfl
  | succ depth ih =>
    simp only [walk, Multigraph.rounds]
    split
    · rfl
    · rw [frontierEdges_eq, List.map_append, ih, List.map_map]
      rfl

/-- **Bounded traversal is breadth-first reachability** exactly where, for each edge of the table, the versions of its
source that are first come to after fewer than `maxDepth` edges are all first come to after the same number. -/
theorem traversal_breadth_first_iff (w : GuideDb) (start : ProvenanceNode) (maxDepth : Nat) :
    BreadthFirst w start maxDepth (walk w.frontierEdges maxDepth [start] [start]) ↔
      ∀ e ∈ w.library.edges, w.graph.Level start maxDepth e := by
  rw [walk_eq]
  constructor
  · intro h e he
    have hlength := h.exactly.length_eq
    rw [List.length_map, List.length_map] at hlength
    exact Multigraph.level_of_length hlength e he
  · intro h
    refine ⟨(Multigraph.rounds_perm_of_level h).map edgeOf, List.pairwise_map.2 ?_⟩
    exact Multigraph.rounds_ordered h

/-- A version that is derived from a later version of itself. -/
def selfDerived : GuideDb where
  library :=
    { edges := [
      { id := 1, fromId := 2, fromVersionId := none, toId := 2, toVersionId := some 3
        fromType := "source_version", edgeType := "derived_from", toType := "source_version" }] }

/-- The edge is found twice. -/
theorem edge_found_twice : ¬ ∀ (w : GuideDb) (start : ProvenanceNode) (maxDepth : Nat),
    BreadthFirst w start maxDepth (walk w.frontierEdges maxDepth [start] [start]) := by
  intro h
  have hlength := (h selfDerived ⟨"source_version", 2, none⟩ 8).exactly.length_eq
  exact absurd hlength (by decide +kernel)

end MilpbookLM
