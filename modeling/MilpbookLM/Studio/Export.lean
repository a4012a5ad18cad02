/-
The export of an artifact version, in two stages that only a grant connects. What is
released is the version that was granted, and the authorizer allows the one who downloads it
the source versions that its evidence names (`export_released`); what those behind a note
revision are is asked at neither stage.
-/
import MilpbookLM.Studio.Lifecycle
import MilpbookLM.Studio.Notes

namespace MilpbookLM.Studio

open Interleave

/-! ## The authorizer -/

inductive PolicyReason
  | allowMatrix | allowContext | allowAdmin | denyDisabled | denyNotMember | denyRole | denyCopyForbidden
  | denySourceRestriction
  deriving DecidableEq

structure PolicyDecision where
  allowed : Bool
  reason : PolicyReason
  deriving DecidableEq

/-- `ExportAuthorizer.can_export`: what it decides at a moment for an actor, a notebook and source versions. -/
abbrev ExportAuthorizer := Uuid → Uuid → Finset Uuid → PolicyDecision

/-! ## The two stages -/

structure ExportGrant where
  artifactId : Uuid
  versionNumber : Nat
  notebookId : Uuid
  sourceVersionIds : Finset Uuid
  requestedAt : Time

structure ExportDownload where
  allowed : Bool
  reason : Option PolicyDecision
  content : Option Dict
  version : Option ArtifactVersionView

inductive ExportError
  | artifactNotFound (message : String)
  | exportDenied (decision : PolicyDecision)

/-- The source versions among the evidence. -/
def ArtifactVersionView.sourceVersionIds (version : ArtifactVersionView) : Finset Uuid :=
  ((version.evidenceDependencies.filter (·.kind = .sourceVersion)).map (·.id)).toFinset

/-- `_load`; `w` and `w'` are what its two reads find. -/
def load (w w' : ArtifactWorld) (artifactId : Uuid) (versionNumber : Nat) :
    Except ExportError (ArtifactView × ArtifactVersionView) :=
  match w.artifact? artifactId with
  | none => .error (.artifactNotFound ("artifact " ++ artifactId.str ++ " not found"))
  | some artifact =>
    match w'.version? artifactId versionNumber with
    | none => .error (.artifactNotFound ("version " ++ toString versionNumber ++ " of " ++ artifactId.str ++ " not found"))
    | some version => .ok (artifact, version)

/-- `ExportArtifact.request`. -/
def exportRequest (authorizer : ExportAuthorizer) (w w' : ArtifactWorld) (now : Time) (actorId artifactId : Uuid)
    (versionNumber : Nat) : Except ExportError ExportGrant :=
  match load w w' artifactId versionNumber with
  | .error e => .error e
  | .ok (artifact, version) =>
    let decision := authorizer actorId artifact.notebookId version.sourceVersionIds
    if !decision.allowed then .error (.exportDenied decision)
    else
      .ok
        { artifactId
          versionNumber
          notebookId := artifact.notebookId
          sourceVersionIds := version.sourceVersionIds
          requestedAt := now }

/-- `ExportArtifact.download`. -/
def exportDownload (authorizer : ExportAuthorizer) (w : ArtifactWorld) (actorId : Uuid) (grant : ExportGrant) :
    Except ExportError ExportDownload :=
  let decision := authorizer actorId grant.notebookId grant.sourceVersionIds
  if !decision.allowed then .ok ⟨false, some decision, none, none⟩
  else
    match w.version? grant.artifactId grant.versionNumber with
    | none =>
      .error (.artifactNotFound
        ("version " ++ toString grant.versionNumber ++ " of " ++ grant.artifactId.str ++ " not found"))
    | some version => .ok ⟨true, some decision, some version.structuredRepresentation, some version⟩

/-! ## What stays in the store -/

/-- What the store becomes by any calls of anybody. -/
def ArtifactWorld.Later : ArtifactWorld → ArtifactWorld → Prop :=
  Relation.ReflTransGen fun w w' => ∃ (c : ArtifactCall) (e : Uuid), w' = (c.exec e w).2

variable {w w' w'' : ArtifactWorld} {artifactId : Uuid} {versionNumber : Nat} {version : ArtifactVersionView}

/-- A version stays what it is. -/
theorem version_later (hlater : w.Later w') (h : w.version? artifactId versionNumber = some version) :
    w'.version? artifactId versionNumber = some version := by
  induction hlater with
  | refl => exact h
  | tail _ hstep ih =>
    obtain ⟨c, e, rfl⟩ := hstep
    rcases versions_exec c e _ with hsame | ⟨new, rfl, hnew⟩
    · rw [ArtifactWorld.version?, hsame]
      exact ih
    · simp only [ArtifactCall.exec, hnew]
      rw [ArtifactWorld.version?] at ih ⊢
      rw [List.find?_append, ih, Option.some_or]

/-! ## What the pipeline publishes -/

/-- A version that is inserted names the source versions of the request. -/
def NamesInputs (request : ArtifactRequest) (c : ArtifactCall) : Prop :=
  ∀ version, c = .createVersion version → version.sourceVersionIds = request.sourceVersionIds.toFinset

section Pipeline

variable {services : ArtifactServices} {recipe : ArtifactRecipe} {artifact : ArtifactView} {request : ArtifactRequest}
  {actorId versionId manifestId : Uuid}

theorem ofExcept_only {α : Type} {S : ArtifactCall → Prop} (x : Except ArtifactError α) : Prog.Only S (ofExcept x).run :=
  trivial

theorem resolveParent_namesInputs : Prog.Only (NamesInputs request) (resolveParent artifactId request).run := by
  rw [resolveParent]
  cases request.baseVersionNumber with
  | none => exact Prog.only_pure _
  | some number =>
    refine Prog.Only.bind ⟨nofun, fun _ => trivial⟩ fun (base : Option ArtifactVersionView) => ?_
    cases base with
    | none => exact Prog.only_throw _
    | some base => exact Prog.only_pure _

theorem publish_namesInputs {content : Dict} {renderedBlobIds : List Uuid} :
    Prog.Only (NamesInputs request)
      (publish artifact recipe manifestId request.manifestItems content renderedBlobIds versionId).run := by
  refine Prog.Only.bind ⟨nofun, fun _ => trivial⟩ fun _ => Prog.Only.bind ⟨?_, fun _ => trivial⟩ fun _ => Prog.only_pure _
  rintro version ⟨⟩
  ext id
  simp [ArtifactVersionView.sourceVersionIds, ArtifactRequest.manifestItems]

theorem run_namesInputs : Prog.Only (NamesInputs request) (run services recipe artifact request actorId versionId).run := by
  refine Prog.Only.bind resolveParent_namesInputs fun _ => Prog.Only.bind ⟨nofun, fun _ => trivial⟩ fun _ => ?_
  refine Prog.Only.bind ⟨nofun, fun _ => trivial⟩ fun _ => Prog.Only.bind (ofExcept_only _) fun produced => ?_
  refine Prog.Only.bind (ofExcept_only _) fun _ => Prog.Only.bind publish_namesInputs fun _ => ?_
  refine Prog.Only.bind ⟨nofun, fun _ => trivial⟩ fun (updated : Option ArtifactView) => ?_
  cases updated with
  | none => exact Prog.only_throw _
  | some updated => exact Prog.only_pure _

end Pipeline

/-! ## What is released -/

variable {authorizer authorizer' : ExportAuthorizer} {now : Time} {requester downloader : Uuid} {grant : ExportGrant}
  {out : ExportDownload}

/-- What was granted: a version of the artifact, whose sources the requester was allowed. -/
theorem granted (h : exportRequest authorizer w w' now requester artifactId versionNumber = .ok grant) :
    ∃ artifact version, w.artifact? artifactId = some artifact ∧ w'.version? artifactId versionNumber = some version ∧
      (authorizer requester artifact.notebookId version.sourceVersionIds).allowed = true ∧
      grant = ⟨artifactId, versionNumber, artifact.notebookId, version.sourceVersionIds, now⟩ := by
  unfold exportRequest load at h
  cases hartifact : w.artifact? artifactId with
  | none => simp [hartifact] at h
  | some artifact =>
    cases hversion : w'.version? artifactId versionNumber with
    | none => simp [hartifact, hversion] at h
    | some version =>
      simp only [hartifact, hversion] at h
      split at h
      · cases h
      · next hallowed =>
        cases h
        exact ⟨artifact, version, rfl, rfl, by simpa using hallowed, rfl⟩

/-- What is released was allowed, and is in the store. -/
theorem released (h : exportDownload authorizer w downloader grant = .ok out) (hout : out.content.isSome = true) :
    (authorizer downloader grant.notebookId grant.sourceVersionIds).allowed = true ∧
      ∃ version, w.version? grant.artifactId grant.versionNumber = some version ∧
        out.content = some version.structuredRepresentation ∧ out.version = some version := by
  simp only [exportDownload] at h
  split at h
  · cases h
    cases hout
  · next hallowed =>
    split at h
    · cases h
    · next version hversion =>
      cases h
      exact ⟨by simpa using hallowed, version, hversion, rfl, rfl⟩

/-- **An export releases what its evidence allows now**: where a grant that a request returned is downloaded, whatever
has become of the store and of the authorizer, the content is that of the version that was granted, and the one who
downloads is allowed the source versions that its evidence names. What the pipeline publishes names those of its request. -/
theorem export_released (hrequest : exportRequest authorizer w w' now requester artifactId versionNumber = .ok grant)
    (hlater : w'.Later w'') (hdownload : exportDownload authorizer' w'' downloader grant = .ok out)
    (hout : out.content.isSome = true) :
    (∃ artifact version, w.artifact? artifactId = some artifact ∧ w'.version? artifactId versionNumber = some version ∧
      out.content = some version.structuredRepresentation ∧ out.version = some version ∧
      (authorizer requester artifact.notebookId version.sourceVersionIds).allowed = true ∧
      (authorizer' downloader artifact.notebookId version.sourceVersionIds).allowed = true) ∧
    ∀ services recipe artifact request actorId versionId,
      Prog.Only (NamesInputs request) (run services recipe artifact request actorId versionId).run := by
  refine ⟨?_, fun _ _ _ _ _ _ => run_namesInputs⟩
  obtain ⟨artifact, version, hartifact, hversion, hallowed, rfl⟩ := granted hrequest
  obtain ⟨hallowed', version', hversion', hcontent, hout'⟩ := released hdownload hout
  obtain rfl : version = version' := Option.some.inj ((version_later hlater hversion).symm.trans hversion')
  exact ⟨artifact, version, hartifact, hversion, hcontent, hout', hallowed, hallowed'⟩

/-! ## A source behind a note -/

/-- The source versions that a content depends on, behind note revisions too. -/
inductive DependsOn (notes : NoteWorld) : ContentRef → Uuid → Prop
  | source (sourceVersionId : Uuid) : DependsOn notes ⟨.sourceVersion, sourceVersionId⟩ sourceVersionId
  | revision {revisionId sourceVersionId : Uuid} {revision : NoteRevisionView} {dependency : ContentRef} :
    notes.revision? revisionId = some revision → dependency ∈ revision.contentDependencies →
      DependsOn notes dependency sourceVersionId → DependsOn notes ⟨.noteRevision, revisionId⟩ sourceVersionId

/-- A revision made from a source. -/
def derivedNotes : NoteWorld where
  revisions := [⟨5, 6, 1, [], "", 3, [], [⟨.sourceVersion, 9⟩]⟩]

/-- A version made from that revision, and from another source. -/
def notedVersion : ArtifactVersionView where
  versionId := 7
  artifactId := 2
  versionNumber := 1
  recipeId := "report"
  recipeVersion := "1.0.0"
  manifestId := 8
  structuredRepresentation := [("title", .str "Prices")]
  renderedBlobIds := []
  evidenceDependencies := [⟨.sourceVersion, 4⟩, ⟨.noteRevision, 5⟩]
  modelMetadata := []
  createdByUserId := 3

def notedWorld : ArtifactWorld where
  artifacts := [{ draftTable with status := .ready, currentVersionId := some 7 }]
  versions := [notedVersion]

/-- Access to `restricted` is denied to everybody. -/
def restricting (restricted : Uuid) : ExportAuthorizer := fun _ _ sourceVersionIds =>
  if restricted ∈ sourceVersionIds then ⟨false, .denySourceRestriction⟩ else ⟨true, .allowMatrix⟩

/-- The grant for the version. -/
def notedGrant : ExportGrant := ⟨2, 1, 1, {4}, 0⟩

theorem notedGrant_granted : exportRequest (restricting 100) notedWorld notedWorld 0 3 2 1 = .ok notedGrant := by
  have hload : load notedWorld notedWorld 2 1 =
      .ok ({ draftTable with status := .ready, currentVersionId := some 7 }, notedVersion) := rfl
  have hsources : notedVersion.sourceVersionIds = {4} := by decide
  have hallowed : (restricting 100 3 1 {4}).allowed = true := by decide
  simp only [exportRequest, hload, hsources]
  rw [show draftTable.notebookId = 1 from rfl, hallowed]
  rfl

/-- The download of what the store holds of it. -/
theorem noted_downloaded {authorizer : ExportAuthorizer} {decision : PolicyDecision} (h : authorizer 10 1 {4} = decision)
    (hallowed : decision.allowed = true) : exportDownload authorizer notedWorld 10 notedGrant =
      .ok ⟨true, some decision, some notedVersion.structuredRepresentation, some notedVersion⟩ := by
  have hversion : notedWorld.version? 2 1 = some notedVersion := rfl
  simp only [exportDownload, notedGrant, h, hallowed, hversion]
  rfl

/-- Nothing is restricted. -/
theorem export_released_noted : ∃ out, exportDownload (restricting 100) notedWorld 10 notedGrant = .ok out ∧
    ∃ version : ArtifactVersionView, out.content = some version.structuredRepresentation ∧
      (restricting 100 10 1 version.sourceVersionIds).allowed = true := by
  have hdownload := @noted_downloaded (restricting 100) ⟨true, .allowMatrix⟩ (by decide) rfl
  obtain ⟨artifact, version, hartifact, -, hcontent, -, -, hallowed⟩ :=
    (export_released notedGrant_granted .refl hdownload rfl).1
  obtain rfl := Option.some.inj hartifact
  exact ⟨_, hdownload, version, hcontent, hallowed⟩

/-- The source behind the note has been restricted since the request, and somebody else than the one who made it
downloads the content. -/
theorem note_source_unchecked : exportRequest (restricting 100) notedWorld notedWorld 0 3 2 1 = .ok notedGrant ∧
    (∃ out, exportDownload (restricting 9) notedWorld 10 notedGrant = .ok out ∧
      out.content = some notedVersion.structuredRepresentation ∧ out.version = some notedVersion) ∧
    (∃ ref ∈ notedVersion.evidenceDependencies, DependsOn derivedNotes ref 9) ∧
    (restricting 9 10 1 {9}).allowed = false := by
  refine ⟨notedGrant_granted, ⟨_, @noted_downloaded (restricting 9) ⟨true, .allowMatrix⟩ (by decide) rfl, rfl, rfl⟩, ?_,
    by decide⟩
  have hrevision : derivedNotes.revision? 5 = some ⟨5, 6, 1, [], "", 3, [], [⟨.sourceVersion, 9⟩]⟩ := rfl
  exact ⟨⟨.noteRevision, 5⟩, by decide, .revision hrevision List.mem_cons_self (.source 9)⟩

end MilpbookLM.Studio
