/-
A generation pass that nobody disturbs: which of its failure points it recovers from.
A pass handles two exceptions, a failed validation and a lost CAS; whatever else is
raised after its CAS to generating (a missing base version, a recipe, a blob store, a
refused insert) leaves the artifact in generating or validating.
-/
import MilpbookLM.Lib.Serial
import MilpbookLM.Studio.Lifecycle

namespace MilpbookLM.Studio

open Table Interleave

/-! ## A call by itself -/

/-- A use case on the store `w`, with nobody else at work. -/
def ArtifactUse.call (use : ArtifactUse) (newId : Uuid) (w : ArtifactWorld) :
    Except ArtifactError Unit × Run Unit ArtifactCall ArtifactAnswer ArtifactWorld :=
  use.program.run.alone ArtifactCall.exec newId ⟨w, []⟩

/-- The call won its CAS to generating. -/
def ArtifactUse.Won (use : ArtifactUse) (newId : Uuid) (w : ArtifactWorld) : Prop :=
  ∃ expected a, (⟨(), .casStatus use.artifactId expected .generating none, .ok (some a)⟩ :
    Event Unit ArtifactCall ArtifactAnswer) ∈ (use.call newId w).2.trace

/-- The artifact is at work on no generation. -/
def ArtifactWorld.Settled (w : ArtifactWorld) (artifactId : Uuid) : Prop :=
  ∀ a, w.artifact? artifactId = some a → a.status ≠ .generating ∧ a.status ≠ .validating

/-- The artifact's current version and its versions are the same. -/
def ArtifactWorld.SameVersions (w w' : ArtifactWorld) (artifactId : Uuid) : Prop :=
  (w'.artifact? artifactId).map (·.currentVersionId) = (w.artifact? artifactId).map (·.currentVersionId) ∧
    ∀ v, v.artifactId = artifactId → (v ∈ w'.versions ↔ v ∈ w.versions)

/-- The call leaves the artifact settled, and if it raised, with the versions it had. -/
def ArtifactUse.NotStranded (use : ArtifactUse) (newId : Uuid) (w : ArtifactWorld) : Prop :=
  (use.call newId w).2.shared.Settled use.artifactId ∧
    ((use.call newId w).1 ≠ .ok () → w.SameVersions (use.call newId w).2.shared use.artifactId)

/-! ## The pass of a call -/

/-- What a call gives the pipeline. -/
structure GenerationPass where
  services : ArtifactServices
  recipe : ArtifactRecipe
  artifact : ArtifactView
  request : ArtifactRequest
  actorId : Uuid
  versionId : Uuid

/-- The pass a call makes, where nothing stands in its way before the CAS to generating. -/
def ArtifactUse.pass? (w : ArtifactWorld) : ArtifactUse → Option GenerationPass
  | generate services actorId artifactId request versionId => do
    let artifact ← w.artifact? artifactId
    let recipe ← (validatedRecipe services artifact request).toOption
    guard (artifact.status = .draft)
    return ⟨services, recipe, artifact, request, actorId, versionId⟩
  | edit services actorId artifactId expectedEtag request versionId => do
    let artifact ← w.artifact? artifactId
    guard (artifact.etag = expectedEtag)
    guard (artifact.status = .ready ∨ artifact.status = .outOfDate)
    let recipe ← (validatedRecipe services artifact request).toOption
    let current ← artifact.currentVersionId
    let base := ((w.versionsOf artifactId).find? (·.versionId = current)).map (·.versionNumber)
    return ⟨services, recipe, artifact, { request with baseVersionNumber := base }, actorId, versionId⟩
  | regenerate services actorId artifactId baseVersionNumber request versionId => do
    let artifact ← w.artifact? artifactId
    guard (artifact.status = .ready ∨ artifact.status = .outOfDate)
    let recipe ← (validatedRecipe services artifact request).toOption
    return ⟨services, recipe, artifact, { request with baseVersionNumber := some baseVersionNumber }, actorId, versionId⟩
  | cancel _ | markOutOfDate _ => none

namespace GenerationPass

variable (pass : GenerationPass) (newId : Uuid) (w : ArtifactWorld)

def config : Dict := configSnapshot pass.recipe pass.request

def inputs : FrozenInputs := ⟨newId, pass.request.manifestItems, pass.config⟩

def produced : Except ArtifactError (Dict × List Rendition) := produce pass.recipe pass.request (pass.inputs newId)

end GenerationPass

/-- The two exceptions that a pass handles. -/
def ArtifactError.handled : ArtifactError → Bool
  | .validation _ | .casConflict _ => true
  | _ => false

/-- The row of a pass's version. -/
def GenerationPass.version (pass : GenerationPass) (newId : Uuid) (w : ArtifactWorld) (content : Dict)
    (renderedBlobIds : List Uuid) : ArtifactVersionView :=
  { versionId := pass.versionId
    artifactId := pass.artifact.artifactId
    versionNumber := nextVersionNumber (w.versionsOf pass.artifact.artifactId)
    recipeId := pass.recipe.recipeId
    recipeVersion := pass.recipe.recipeVersion
    manifestId := newId
    structuredRepresentation := content
    renderedBlobIds
    evidenceDependencies := pass.request.manifestItems.map fun item => ⟨item.kind, item.itemId⟩
    modelMetadata := modelMetadata pass.recipe
    createdByUserId := pass.artifact.createdByUserId }

/-- The base version, if one is pinned, is there. -/
def GenerationPass.HasBase (pass : GenerationPass) (w : ArtifactWorld) : Prop :=
  ∀ number, pass.request.baseVersionNumber = some number → (w.version? pass.artifact.artifactId number).isSome

/-- The manifest can be stored. -/
def GenerationPass.Freezes (pass : GenerationPass) (newId : Uuid) (w : ArtifactWorld) : Prop :=
  storableDict pass.config ∧ (∀ m ∈ w.manifests, m.id ≠ newId) ∧
    (pass.request.manifestItems.map fun i => (i.kind, i.itemId)).Nodup

/-- The version can be stored. -/
def GenerationPass.Inserts (pass : GenerationPass) (newId : Uuid) (w : ArtifactWorld) (content : Dict)
    (renderedBlobIds : List Uuid) : Prop :=
  (pass.version newId w content renderedBlobIds).storable ∧ ∀ v ∈ w.versions, v.versionId ≠ pass.versionId

/-- From its CAS to generating on, a pass meets no failure but those it handles: the base version is
there, the manifest and the version can be stored, and the recipe and the blob store raise a failed
validation or a lost CAS only. -/
structure GenerationPass.Recovers (pass : GenerationPass) (newId : Uuid) (w : ArtifactWorld) : Prop where
  base : pass.HasBase w
  freezes : pass.Freezes newId w
  recipe : ∀ e, pass.produced newId = .error e → e.handled
  blobs : ∀ content renditions e, pass.produced newId = .ok (content, renditions) →
    storeRenditions pass.services renditions = .error e → e.handled
  inserts : ∀ content renditions blobIds, pass.produced newId = .ok (content, renditions) →
    storeRenditions pass.services renditions = .ok blobIds → pass.Inserts newId w content blobIds

section Recovers

variable {pass : GenerationPass} {newId : Uuid} {w w' : ArtifactWorld} {e : ArtifactError} {content : Dict}
  {renditions : List Rendition} {blobIds : List Uuid}

theorem recovers_of_recipe (hbase : pass.HasBase w) (hfreezes : pass.Freezes newId w)
    (hp : pass.produced newId = .error e) : pass.Recovers newId w ↔ e.handled := by
  refine ⟨fun h => h.recipe e hp, fun he => ⟨hbase, hfreezes, fun e' he' => ?_, ?_, ?_⟩⟩
  · cases hp.symm.trans he'
    exact he
  · intro _ _ _ h
    cases hp.symm.trans h
  · intro _ _ _ h
    cases hp.symm.trans h

theorem recovers_of_blobs (hbase : pass.HasBase w) (hfreezes : pass.Freezes newId w)
    (hp : pass.produced newId = .ok (content, renditions)) (hb : storeRenditions pass.services renditions = .error e) :
    pass.Recovers newId w ↔ e.handled := by
  refine ⟨fun h => h.blobs _ _ e hp hb, fun he => ⟨hbase, hfreezes, ?_, ?_, ?_⟩⟩
  · intro _ h
    cases hp.symm.trans h
  · intro _ _ e' h he'
    cases hp.symm.trans h
    cases hb.symm.trans he'
    exact he
  · intro _ _ _ h he'
    cases hp.symm.trans h
    cases hb.symm.trans he'

theorem recovers_of_stored (hbase : pass.HasBase w) (hfreezes : pass.Freezes newId w)
    (hp : pass.produced newId = .ok (content, renditions)) (hb : storeRenditions pass.services renditions = .ok blobIds) :
    pass.Recovers newId w ↔ pass.Inserts newId w content blobIds := by
  refine ⟨fun h => h.inserts _ _ _ hp hb, fun hins => ⟨hbase, hfreezes, ?_, ?_, ?_⟩⟩
  · intro _ h
    cases hp.symm.trans h
  · intro _ _ _ h he'
    cases hp.symm.trans h
    cases hb.symm.trans he'
  · intro _ _ _ h hb'
    cases hp.symm.trans h
    cases hb.symm.trans hb'
    exact hins

/-- Whether a version can be stored depends on the versions only. -/
theorem inserts_congr (hv : w'.versions = w.versions) :
    pass.Inserts newId w' content blobIds ↔ pass.Inserts newId w content blobIds := by
  simp only [GenerationPass.Inserts, GenerationPass.version, ArtifactWorld.versionsOf, hv]

end Recovers

/-! ## The calls of a pass, one after another -/

section Ends

variable {newId : Uuid} {w w' : ArtifactWorld} {α β : Type} {a : ArtifactView} {pass : GenerationPass}

/-- By itself, `x` started on `w` comes to an outcome and a store that `Q` admits. -/
abbrev ArtifactProgram.Ends (x : ArtifactProgram α) (newId : Uuid) (Q : Except ArtifactError α → ArtifactWorld → Prop)
    (w : ArtifactWorld) : Prop :=
  x.run.Ends ArtifactCall.exec newId Q w

/-- A call that answers `b`. -/
theorem ends_call {c : ArtifactCall} {b : ArtifactResult c} {f : ArtifactResult c → ArtifactProgram β}
    {Q : Except ArtifactError β → ArtifactWorld → Prop} (hc : c.exec newId w = (.ok b, w'))
    (h : (f b).Ends newId Q w') : ArtifactProgram.Ends (c.perform >>= f) newId Q w := by
  refine Prog.ends_bind.2 (Prog.ends_perform.2 ?_)
  rw [hc]
  exact h

/-- A call that raises. -/
theorem ends_raise {c : ArtifactCall} {e : ArtifactError} {f : ArtifactResult c → ArtifactProgram β}
    {Q : Except ArtifactError β → ArtifactWorld → Prop} (hc : c.exec newId w = (.error e, w'))
    (h : Q (.error e) w') : ArtifactProgram.Ends (c.perform >>= f) newId Q w := by
  refine Prog.ends_bind.2 (Prog.ends_perform.2 ?_)
  rw [hc]
  exact h

theorem ends_casStatus {artifactId : Uuid} {expected target : ArtifactStatus} {current : Option Uuid}
    {f : Option ArtifactView → ArtifactProgram β} {Q : Except ArtifactError β → ArtifactWorld → Prop}
    (ha : w.artifact? artifactId = some a) (hs : a.status = expected)
    (h : (f (some (ArtifactWorld.castArtifact target current a))).Ends newId Q (w.cast artifactId target current)) :
    ArtifactProgram.Ends ((ArtifactCall.casStatus artifactId expected target current).perform >>= f) newId Q w :=
  ends_call (congrArg (Prod.map Except.ok id) (casStatus_of_status ha hs)) h

theorem ends_ofExcept {x : Except ArtifactError α} {f : α → ArtifactProgram β}
    {Q : Except ArtifactError β → ArtifactWorld → Prop} (hok : ∀ b, x = .ok b → (f b).Ends newId Q w)
    (herr : ∀ e, x = .error e → Q (.error e) w) : ArtifactProgram.Ends (ofExcept x >>= f) newId Q w := by
  refine Prog.ends_bind.2 ?_
  cases x with
  | ok b => exact hok b rfl
  | error e => exact herr e rfl

/-- The pass is between its CAS to generating and its end; the artifact has the versions it had in `w`. -/
structure GenerationPass.AtWork (pass : GenerationPass) (w w' : ArtifactWorld) : Prop where
  artifact : ∃ a, w'.artifact? pass.artifact.artifactId = some a ∧ (a.status = .generating ∨ a.status = .validating) ∧
    a.currentVersionId = pass.artifact.currentVersionId
  versions : w'.versions = w.versions

/-- What the pipeline makes of a pass: it publishes where nothing went wrong, and raises else. -/
def GenerationPass.Published (pass : GenerationPass) (newId : Uuid) (w : ArtifactWorld) :
    Except ArtifactError α → ArtifactWorld → Prop
  | .ok _, w' => pass.Recovers newId w ∧ ∃ a, w'.artifact? pass.artifact.artifactId = some a ∧ a.status = .ready
  | .error e, w' => (pass.Recovers newId w ↔ e.handled) ∧ pass.AtWork w w'

theorem published_of_unhandled {e : ArtifactError} (h : pass.AtWork w w') (he : e.handled = false)
    (hr : ¬ pass.Recovers newId w) : pass.Published (α := α) newId w (.error e) w' :=
  ⟨by simp [he, hr], h⟩

theorem admitsVersion_iff {content : Dict} {blobIds : List Uuid} :
    w.AdmitsVersion (pass.version newId w content blobIds) ↔ pass.Inserts newId w content blobIds := by
  refine ⟨fun h => ⟨h.1, h.2.1⟩, fun h => ⟨h.1, h.2, fun v hv ha => ?_⟩⟩
  exact (lt_nextVersionNumber (mem_versionsOf.2 ⟨hv, ha⟩)).ne

theorem publish_ends {content : Dict} {blobIds : List Uuid} {Q : Except ArtifactError ArtifactVersionView → ArtifactWorld → Prop}
    (hok : pass.Inserts newId w content blobIds → Q (.ok (pass.version newId w content blobIds))
      { w with versions := w.versions ++ [pass.version newId w content blobIds] })
    (herr : ∀ name text, ¬ pass.Inserts newId w content blobIds → Q (.error (.raised name text)) w) :
    (publish (ArtifactWorld.castArtifact .generating none pass.artifact) pass.recipe newId pass.request.manifestItems content
      blobIds pass.versionId).Ends newId Q w := by
  refine ends_call rfl ?_
  rcases createVersion_cases (w := w) (pass.version newId w content blobIds) with ⟨hadm, h⟩ | ⟨hadm, name, text, h⟩
  · exact ends_call h (hok (admitsVersion_iff.1 hadm))
  · exact ends_raise h (herr name text fun hins => hadm (admitsVersion_iff.2 hins))

/-- The insert of the version, and the CAS to ready. -/
theorem publish_ready_ends {content : Dict} {renditions : List Rendition} {blobIds : List Uuid} (hbase : pass.HasBase w)
    (hfreezes : pass.Freezes newId w) (hp : pass.produced newId = .ok (content, renditions))
    (hb : storeRenditions pass.services renditions = .ok blobIds) (hw : pass.AtWork w w')
    (hs : ∀ a, w'.artifact? pass.artifact.artifactId = some a → a.status = .validating) :
    ArtifactProgram.Ends (do
      let version ← publish (ArtifactWorld.castArtifact .generating none pass.artifact) pass.recipe newId
        pass.request.manifestItems content blobIds pass.versionId
      let updated : Option ArtifactView ←
        (ArtifactCall.casStatus pass.artifact.artifactId .validating .ready (some version.versionId)).perform
      match updated with
      | none => throw (.casConflict "ready publication lost the CAS")
      | some updated => return (updated, version)) newId (pass.Published newId w) w' := by
  obtain ⟨a, ha, -⟩ := hw.artifact
  refine Prog.ends_bind.2 (publish_ends (fun hins => ?_) fun name text hins => ?_)
  · refine ends_casStatus ha (hs a ha) ⟨?_, ?_⟩
    · exact (recovers_of_stored hbase hfreezes hp hb).2 ((inserts_congr hw.versions).1 hins)
    · exact ⟨_, artifact?_cast_self ha, rfl⟩
  · refine published_of_unhandled hw rfl fun hr => hins ?_
    exact (inserts_congr hw.versions).2 ((recovers_of_stored hbase hfreezes hp hb).1 hr)

theorem resolveParent_ends {Q : Except ArtifactError (Option Uuid) → ArtifactWorld → Prop}
    (hok : pass.HasBase w → ∀ parent, Q (.ok parent) w)
    (herr : ¬ pass.HasBase w → ∀ message, Q (.error (.notFound message)) w) :
    (resolveParent pass.artifact.artifactId pass.request).Ends newId Q w := by
  unfold resolveParent
  split
  · next hnum => exact hok (fun number h => nomatch hnum.symm.trans h) none
  · next number hnum =>
    cases hbase : w.version? pass.artifact.artifactId number with
    | none =>
      refine ends_call (congrArg (fun v => (Except.ok v, w)) hbase) (herr (fun h => ?_) _)
      exact absurd (h number hnum) (by simp [hbase])
    | some base =>
      refine ends_call (congrArg (fun v => (Except.ok v, w)) hbase) (hok (fun number' h => ?_) _)
      cases hnum.symm.trans h
      simp [hbase]

theorem freezeManifest_ends {parent : Option Uuid} {f : Uuid → ArtifactProgram β}
    {Q : Except ArtifactError β → ArtifactWorld → Prop}
    (hok : pass.Freezes newId w → ∀ manifests, (f newId).Ends newId Q { w with manifests := manifests })
    (herr : ¬ pass.Freezes newId w → ∀ name text, Q (.error (.raised name text)) w) :
    ArtifactProgram.Ends ((ArtifactCall.freezeManifest pass.artifact.notebookId pass.actorId
      (configSnapshot pass.recipe pass.request) pass.request.manifestItems parent).perform >>= f) newId Q w := by
  rcases freezeManifest_cases (w := w)
    { id := newId
      notebookId := pass.artifact.notebookId
      createdByUserId := pass.actorId
      configSnapshot := configSnapshot pass.recipe pass.request
      items := pass.request.manifestItems
      parentManifestId := parent } with ⟨hadm, h⟩ | ⟨hadm, name, text, h⟩
  · exact ends_call h (hok hadm _)
  · exact ends_raise h (herr hadm name text)

/-- The pipeline, on an artifact that was just moved to generating. -/
theorem run_ends (ha : w.artifact? pass.artifact.artifactId = some (ArtifactWorld.castArtifact .generating none pass.artifact)) :
    (run pass.services pass.recipe (ArtifactWorld.castArtifact .generating none pass.artifact) pass.request pass.actorId
      pass.versionId).Ends newId (pass.Published newId w) w := by
  have hw : pass.AtWork w w := ⟨⟨_, ha, .inl rfl, rfl⟩, rfl⟩
  refine Prog.ends_bind.2 (resolveParent_ends (fun hbase parent => ?_) fun hbase message => ?_)
  · refine freezeManifest_ends (fun hfreezes manifests => ?_) fun hfreezes name text => ?_
    · -- nobody took the artifact out of generating, so the CAS to validating goes through
      refine ends_casStatus ha rfl ?_
      have ha' : (({ w with manifests := manifests } : ArtifactWorld).cast pass.artifact.artifactId .validating none).artifact?
          pass.artifact.artifactId = some _ := artifact?_cast_self ha
      have hatWork : pass.AtWork w _ := ⟨⟨_, ha', .inr rfl, rfl⟩, rfl⟩
      refine ends_ofExcept (fun out hp => ends_ofExcept (fun blobIds hb => ?_) fun e hb => ?_) fun e hp => ?_
      · exact publish_ready_ends hbase hfreezes hp hb hatWork fun a h =>
          Option.some.inj (h.symm.trans ha') ▸ rfl
      · exact ⟨recovers_of_blobs hbase hfreezes hp hb, hatWork⟩
      · exact ⟨recovers_of_recipe hbase hfreezes hp, hatWork⟩
    · exact published_of_unhandled hw rfl fun h => hfreezes h.freezes
  · exact published_of_unhandled hw rfl fun h => hbase h.base

/-- A pass ends well, or leaves the artifact at work. -/
def GenerationPass.Concluded (pass : GenerationPass) (newId : Uuid) (w : ArtifactWorld) (x : Except ArtifactError α)
    (w' : ArtifactWorld) : Prop :=
  (pass.Recovers newId w ∧ (∃ b, x = .ok b) ∧ w'.Settled pass.artifact.artifactId) ∨
    ¬ pass.Recovers newId w ∧ pass.AtWork w w'

/-- The handler of a pass moves the artifact to failed. -/
theorem rescue_ends {e : ArtifactError} {updated : ArtifactView} (hw : pass.AtWork w w') (he : e.handled) :
    (rescue pass.artifact.artifactId updated e).Ends newId
      (fun x w' => (∃ b, x = .ok b) ∧ w'.Settled pass.artifact.artifactId) w' := by
  obtain ⟨a, ha, hs, -⟩ := hw.artifact
  have hallowed : artifactTransitionAllowed a.status .failed = true := by
    rcases hs with hs | hs <;> rw [hs] <;> rfl
  have hfailed : (markFailed pass.artifact.artifactId).Ends newId
      (fun x w' => x = .ok () ∧ w'.Settled pass.artifact.artifactId) w' := by
    refine ends_call (congrArg (fun a => (Except.ok a, w')) ha) ?_
    simp only [hallowed, if_true]
    refine ends_casStatus ha rfl ⟨rfl, fun b hb => ?_⟩
    rw [artifact?_cast_self ha] at hb
    cases hb
    exact ⟨nofun, nofun⟩
  cases e with
  | validation problems =>
    refine Prog.ends_bind.2 (hfailed.mono fun x w'' hx => ?_)
    obtain ⟨rfl, hsettled⟩ := hx
    exact ⟨⟨_, rfl⟩, hsettled⟩
  | casConflict message =>
    refine Prog.ends_bind.2 (hfailed.mono fun x w'' hx => ?_)
    obtain ⟨rfl, hsettled⟩ := hx
    exact ⟨⟨_, rfl⟩, hsettled⟩
  | notFound | invalidRequest | notReady | raised => cases he

theorem rescue_unhandled {e : ArtifactError} {updated : ArtifactView} (he : e.handled = false) :
    rescue pass.artifact.artifactId updated e = throw e := by
  cases e with
  | validation | casConflict => cases he
  | notFound | invalidRequest | notReady | raised => rfl

theorem attempt_ends (ha : w.artifact? pass.artifact.artifactId = some pass.artifact) :
    (attempt pass.services pass.recipe pass.artifact.artifactId pass.artifact pass.request pass.actorId pass.versionId).Ends
      newId (pass.Concluded newId w) w := by
  have hcongr : pass.Recovers newId (w.cast pass.artifact.artifactId .generating none) ↔ pass.Recovers newId w :=
    ⟨fun h => ⟨h.base, h.freezes, h.recipe, h.blobs, h.inserts⟩, fun h => ⟨h.base, h.freezes, h.recipe, h.blobs, h.inserts⟩⟩
  refine ends_casStatus ha rfl (Prog.ends_tryCatch.2 (Prog.ends_bind.2 ?_))
  refine (run_ends (artifact?_cast_self ha)).mono fun x w' hx => ?_
  cases x with
  | ok b =>
    obtain ⟨hr, a, ha', hs⟩ := hx
    refine .inl ⟨hcongr.1 hr, ⟨_, rfl⟩, fun b hb => ?_⟩
    cases ha'.symm.trans hb
    exact ⟨by simp [hs], by simp [hs]⟩
  | error e =>
    obtain ⟨hr, hwork⟩ := hx
    have hwork' : pass.AtWork w w' := ⟨hwork.artifact, hwork.versions⟩
    cases he : e.handled with
    | true => exact (rescue_ends hwork he).mono fun x w'' hx => .inl ⟨hcongr.1 (hr.2 he), hx⟩
    | false =>
      show (rescue pass.artifact.artifactId _ e).Ends newId (pass.Concluded newId w) w'
      rw [rescue_unhandled he]
      exact .inr ⟨fun h => by simp [hr.1 (hcongr.2 h)] at he, hwork'⟩

theorem concluded_map {x : Except ArtifactError α} {f : α → β} (h : pass.Concluded newId w x w') :
    pass.Concluded newId w (x.map f) w' := by
  rcases h with ⟨hr, ⟨b, rfl⟩, hs⟩ | h
  · exact .inl ⟨hr, ⟨f b, rfl⟩, hs⟩
  · exact .inr h

theorem validatedRecipe_ends {services : ArtifactServices} {artifact : ArtifactView} {request : ArtifactRequest}
    {recipe : ArtifactRecipe} {f : ArtifactRecipe → ArtifactProgram β} {Q : Except ArtifactError β → ArtifactWorld → Prop}
    (hrecipe : (validatedRecipe services artifact request).toOption = some recipe) (h : (f recipe).Ends newId Q w) :
    ArtifactProgram.Ends (ofExcept (validatedRecipe services artifact request) >>= f) newId Q w := by
  refine ends_ofExcept (fun b hb => ?_) fun e he => ?_
  · rw [hb] at hrecipe
    cases hrecipe
    exact h
  · rw [he] at hrecipe
    cases hrecipe

/-- The part the three passes share, and what it returns. -/
theorem pass_ends (pass : GenerationPass) (ha : w.artifact? pass.artifact.artifactId = some pass.artifact) :
    ArtifactProgram.Ends (do
      let result ← attempt pass.services pass.recipe pass.artifact.artifactId pass.artifact pass.request pass.actorId
        pass.versionId
      return some result) newId (fun x w' => pass.Concluded newId w (x.map fun _ => ()) w') w := by
  refine Prog.ends_bind.2 ((attempt_ends ha).mono fun x w' hx => ?_)
  cases x with
  | ok b => exact concluded_map (x := .ok b) (f := fun _ => ()) hx
  | error e => exact concluded_map (x := (.error e : Except ArtifactError GenerationResult)) (f := fun _ => ()) hx

/-- A call that comes to a pass ends as the pass does. -/
theorem program_ends {use : ArtifactUse} (h : use.pass? w = some pass) :
    use.program.Ends newId (pass.Concluded newId w) w := by
  cases use with
  | cancel | markOutOfDate => cases h
  | generate services actorId artifactId request versionId =>
    simp only [ArtifactUse.pass?, Option.bind_eq_bind, Option.bind_eq_some_iff, Option.guard_eq_some', Option.pure_def,
      Option.some.injEq] at h
    obtain ⟨a, ha, recipe, hrecipe, -, hdraft, rfl⟩ := h
    obtain rfl := artifactId_of_artifact? ha
    refine Prog.ends_map.2 (ends_call (congrArg (fun a => (Except.ok a, w)) ha) (validatedRecipe_ends hrecipe ?_))
    simp only [hdraft, ne_eq, not_true_eq_false, if_false]
    exact pass_ends ⟨services, recipe, a, request, actorId, versionId⟩ ha
  | edit services actorId artifactId expectedEtag request versionId =>
    simp only [ArtifactUse.pass?, Option.bind_eq_bind, Option.bind_eq_some_iff, Option.guard_eq_some', Option.pure_def,
      Option.some.injEq] at h
    obtain ⟨a, ha, -, hetag, -, hready, recipe, hrecipe, current, hcurrent, rfl⟩ := h
    obtain rfl := artifactId_of_artifact? ha
    have hready' : ¬ (a.status ≠ .ready ∧ a.status ≠ .outOfDate) := fun h => hready.elim h.1 h.2
    refine Prog.ends_map.2 (ends_call (congrArg (fun a => (Except.ok a, w)) ha) ?_)
    simp only [hetag, ne_eq, not_true_eq_false, if_false]
    simp only [ne_eq] at hready'
    rw [if_neg hready']
    refine validatedRecipe_ends hrecipe (Prog.ends_bind.2 ?_)
    simp only [currentVersionNumber, hcurrent]
    exact ends_call rfl (pass_ends ⟨services, recipe, a, { request with baseVersionNumber := _ }, actorId, versionId⟩ ha)
  | regenerate services actorId artifactId baseVersionNumber request versionId =>
    simp only [ArtifactUse.pass?, Option.bind_eq_bind, Option.bind_eq_some_iff, Option.guard_eq_some', Option.pure_def,
      Option.some.injEq] at h
    obtain ⟨a, ha, -, hready, recipe, hrecipe, rfl⟩ := h
    obtain rfl := artifactId_of_artifact? ha
    have hready' : ¬ (a.status ≠ .ready ∧ a.status ≠ .outOfDate) := fun h => hready.elim h.1 h.2
    refine Prog.ends_map.2 (ends_call (congrArg (fun a => (Except.ok a, w)) ha) ?_)
    simp only [ne_eq] at hready' ⊢
    rw [if_neg hready']
    exact validatedRecipe_ends hrecipe (pass_ends ⟨services, recipe, a, _, actorId, versionId⟩ ha)

end Ends

/-! ## Which calls come to a pass -/

section Won

variable {use : ArtifactUse} {newId : Uuid} {w : ArtifactWorld} {pass : GenerationPass}

/-- Not a CAS to generating. -/
def ArtifactCall.NotStart (artifactId : Uuid) (c : ArtifactCall) : Prop :=
  ∀ expected, c ≠ .casStatus artifactId expected .generating none

/-- After the artifact was read, only the calls that the rest may make on it come. -/
theorem notStart_of_read {artifactId : Uuid} {α : Type} {x : ArtifactProgram α} {f : Option ArtifactView → ArtifactProgram α}
    {ev : Event Unit ArtifactCall ArtifactAnswer} (hx : x = (ArtifactCall.getArtifact artifactId).perform >>= f)
    (hf : Prog.Only (ArtifactCall.NotStart artifactId) (f (w.artifact? artifactId)).run)
    (hev : ev ∈ (Prog.alone ArtifactCall.exec newId (discard x).run ⟨w, []⟩).2.trace) : ev.call.NotStart artifactId := by
  subst hx
  replace hev := (congrArg (fun r : Run Unit _ _ _ => ev ∈ r.trace) Prog.alone_map).mp hev
  rcases Prog.Only.alone hf hev with hmem | hs
  · obtain rfl : ev = _ := List.mem_singleton.1 hmem
    exact nofun
  · exact hs

theorem only_ofExcept {S : ArtifactCall → Prop} {α β : Type} {x : Except ArtifactError α} {f : α → ArtifactProgram β}
    (h : ∀ b, x = .ok b → Prog.Only S (f b).run) : Prog.Only S (ofExcept x >>= f).run := by
  cases x with
  | ok b => exact h b rfl
  | error e => trivial

/-- A command's CAS is to its target. -/
theorem notStart_move {artifactId : Uuid} {target : ArtifactStatus} {refusal : ArtifactStatus → String} {lost : String}
    (ht : target ≠ .generating) {ev : Event Unit ArtifactCall ArtifactAnswer}
    (hev : ev ∈ (Prog.alone ArtifactCall.exec newId (discard (moveArtifact artifactId target refusal lost)).run
      ⟨w, []⟩).2.trace) : ev.call.NotStart artifactId := by
  refine notStart_of_read rfl ?_ hev
  split
  · exact Prog.only_pure _
  · refine Prog.only_ite (fun _ => Prog.only_throw _) fun _ => Prog.Only.bind ⟨fun expected he => ?_, fun _ => trivial⟩ fun updated => ?_
    · cases he
      exact ht rfl
    · cases updated <;> trivial

/-- A call that comes to no pass makes no CAS to generating. -/
theorem notStart_of_no_pass (h : use.pass? w = none) {ev : Event Unit ArtifactCall ArtifactAnswer}
    (hev : ev ∈ (use.call newId w).2.trace) : ev.call.NotStart use.artifactId := by
  cases use with
  | generate services actorId artifactId request versionId =>
    refine notStart_of_read rfl ?_ hev
    split
    · exact Prog.only_pure _
    · next a ha =>
      refine only_ofExcept fun recipe hrecipe => Prog.only_ite (fun _ => Prog.only_pure _) fun hdraft => ?_
      refine absurd h ?_
      simp only [ArtifactUse.artifactId] at ha
      simp [ArtifactUse.pass?, ha, hrecipe, not_not.1 hdraft, Except.toOption]
  | edit services actorId artifactId expectedEtag request versionId =>
    refine notStart_of_read rfl ?_ hev
    split
    · exact Prog.only_pure _
    · next a ha =>
      refine Prog.only_ite (fun _ => Prog.only_pure _) fun hetag => Prog.only_ite (fun _ => trivial) fun hready => ?_
      refine only_ofExcept fun recipe hrecipe => ?_
      cases hcurrent : a.currentVersionId with
      | none =>
        simp only [currentVersionNumber, hcurrent]
        trivial
      | some current =>
        refine absurd h ?_
        simp only [ArtifactUse.artifactId] at ha
        simp [ArtifactUse.pass?, ha, not_not.1 hetag, or_iff_not_and_not.2 hready, hrecipe, hcurrent, Except.toOption]
  | regenerate services actorId artifactId baseVersionNumber request versionId =>
    refine notStart_of_read rfl ?_ hev
    split
    · exact Prog.only_pure _
    · next a ha =>
      refine Prog.only_ite (fun _ => trivial) fun hready => only_ofExcept fun recipe hrecipe => ?_
      refine absurd h ?_
      simp only [ArtifactUse.artifactId] at ha
      simp [ArtifactUse.pass?, ha, or_iff_not_and_not.2 hready, hrecipe, Except.toOption]
  | cancel artifactId => exact notStart_move (show ArtifactStatus.cancelled ≠ .generating by decide) hev
  | markOutOfDate artifactId => exact notStart_move (show ArtifactStatus.outOfDate ≠ .generating by decide) hev

theorem pass_of_won (h : use.Won newId w) : ∃ pass, use.pass? w = some pass := by
  obtain ⟨expected, a, hev⟩ := h
  cases hp : use.pass? w with
  | some pass => exact ⟨pass, rfl⟩
  | none => exact absurd rfl (notStart_of_no_pass hp hev expected)

end Won

/-! ## Exactly when no pass strands the artifact -/

section Exact

variable {use : ArtifactUse} {newId : Uuid} {w w' : ArtifactWorld} {pass : GenerationPass}

/-- A pass is about the row it found. -/
theorem artifact_of_pass (h : use.pass? w = some pass) : w.artifact? use.artifactId = some pass.artifact := by
  cases use with
  | cancel | markOutOfDate => cases h
  | generate | edit | regenerate =>
    simp only [ArtifactUse.pass?, Option.bind_eq_bind, Option.bind_eq_some_iff, Option.pure_def, Option.some.injEq] at h
    obtain ⟨a, ha, h⟩ := h
    simp only [ArtifactUse.artifactId, ha]
    grind

theorem not_settled_of_atWork (h : pass.AtWork w w') : ¬ w'.Settled pass.artifact.artifactId := by
  obtain ⟨a, ha, hs, -⟩ := h.artifact
  exact fun hsettled => hs.elim (hsettled a ha).1 (hsettled a ha).2

theorem sameVersions_of_atWork (ha : w.artifact? pass.artifact.artifactId = some pass.artifact) (h : pass.AtWork w w') :
    w.SameVersions w' pass.artifact.artifactId := by
  obtain ⟨a, ha', -, hc⟩ := h.artifact
  exact ⟨by simp [ha, ha', hc], fun v _ => by rw [h.versions]⟩

theorem call_concluded (h : use.pass? w = some pass) :
    pass.Concluded newId w (use.call newId w).1 (use.call newId w).2.shared :=
  Prog.ends_iff.1 (program_ends h)

/-- A pass that raises leaves the versions, and which of them is current. -/
theorem sameVersions_of_raised (h : use.Won newId w) (hraised : (use.call newId w).1 ≠ .ok ()) :
    w.SameVersions (use.call newId w).2.shared use.artifactId := by
  obtain ⟨pass, hpass⟩ := pass_of_won h
  have ha := artifact_of_pass hpass
  obtain hid := artifactId_of_artifact? ha
  rw [← hid] at ha ⊢
  rcases call_concluded hpass with ⟨-, ⟨b, hb⟩, -⟩ | ⟨-, hwork⟩
  · exact absurd hb hraised
  · exact sameVersions_of_atWork ha hwork

/-- **A pass strands its artifact exactly where it meets a failure that it does not handle.** -/
theorem not_stranded_iff (h : use.Won newId w) :
    use.NotStranded newId w ↔ ∃ pass, use.pass? w = some pass ∧ pass.Recovers newId w := by
  obtain ⟨pass, hpass⟩ := pass_of_won h
  have hid := artifactId_of_artifact? (artifact_of_pass hpass)
  constructor
  · intro hn
    rcases call_concluded hpass with ⟨hr, -⟩ | ⟨-, hwork⟩
    · exact ⟨pass, hpass, hr⟩
    · exact absurd (hid ▸ hn.1) (not_settled_of_atWork hwork)
  · rintro ⟨pass', hpass', hr⟩
    cases hpass.symm.trans hpass'
    refine ⟨?_, fun hraised => sameVersions_of_raised h hraised⟩
    rcases call_concluded hpass with ⟨-, -, hs⟩ | ⟨hn, -⟩
    · exact hid ▸ hs
    · exact absurd hr hn

end Exact

theorem not_stranded_iff_of_draft :
    (ArtifactUse.generate tableServices 3 2 tableRequest 9).Won 5 { artifacts := [draftTable] } ∧
      ((ArtifactUse.generate tableServices 3 2 tableRequest 9).NotStranded 5 { artifacts := [draftTable] } ↔
        ∃ pass, (ArtifactUse.generate tableServices 3 2 tableRequest 9).pass? { artifacts := [draftTable] } = some pass ∧
          pass.Recovers 5 { artifacts := [draftTable] }) := by
  have hwon : (ArtifactUse.generate tableServices 3 2 tableRequest 9).Won 5 { artifacts := [draftTable] } :=
    ⟨.draft, _, .tail _ (.tail _ (.tail _ (.tail _ (.tail _ (.head _)))))⟩
  exact ⟨hwon, not_stranded_iff hwon⟩

/-- The table at version 1. -/
def readyTable : ArtifactWorld :=
  { artifacts := [{ draftTable with status := .ready, currentVersionId := some 9, revision := 3, etag := "3" }]
    versions := [{
      versionId := 9
      artifactId := 2
      versionNumber := 1
      recipeId := "table"
      recipeVersion := "1"
      manifestId := 5
      structuredRepresentation := []
      renderedBlobIds := []
      evidenceDependencies := []
      modelMetadata := modelMetadata emptyTable
      createdByUserId := 3 }] }

/-- A regeneration from a version that is not there leaves the table in generating. -/
theorem regenerate_strands : ∃ use : ArtifactUse, use = .regenerate tableServices 3 2 7 tableRequest 10 ∧
    use.Won 6 readyTable ∧ ¬ use.NotStranded 6 readyTable := by
  refine ⟨_, rfl, ⟨.ready, _, .tail _ (.head _)⟩, fun h => ?_⟩
  exact (h.1 _ rfl).1 rfl

end MilpbookLM.Studio
