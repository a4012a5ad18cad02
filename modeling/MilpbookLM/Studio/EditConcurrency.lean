/-
Edits under optimistic concurrency. An edit compares the etag it was sent with the row it
reads, and its CAS compares the status only: from the read on, the row is the same or has
moved on to a later status, until another pass publishes, and then it is ready again.
-/
import MilpbookLM.Studio.Publication

namespace MilpbookLM.Studio

open Interleave

/-! ## The row of an artifact over a run -/

section Rows

variable {P : Type} {a : Uuid} {r r' : ArtifactRun P} {cond : P → ArtifactCall → Uuid → ArtifactRun P → Prop}
  {seen view : ArtifactView}

/-- A call leaves the row, or is a CAS on it that goes through. -/
theorem row_exec (a : Uuid) (c : ArtifactCall) (e : Uuid) (w : ArtifactWorld) :
    (c.exec e w).2.artifact? a = w.artifact? a ∨
      ∃ view expected target current, c = .casStatus a expected target current ∧ w.artifact? a = some view ∧
        view.status = expected ∧ (c.exec e w).2.artifact? a = some (ArtifactWorld.castArtifact target current view) := by
  rcases artifacts_exec c e w with ⟨artifactId, expected, target, current, rfl⟩ | h
  · rcases @casStatus_cases w artifactId expected target current with ⟨view, ha, hs, hc⟩ | ⟨-, hc⟩
    · have hexec : ((ArtifactCall.casStatus artifactId expected target current).exec e w).2 = w.cast artifactId target current :=
        congrArg (fun x => x.2) hc
      by_cases hid : artifactId = a
      · subst hid
        exact .inr ⟨view, expected, target, current, rfl, ha, hs, hexec ▸ artifact?_cast_self ha⟩
      · exact .inl (hexec ▸ artifact?_cast_other (Ne.symm hid))
    · exact .inl (congrArg (fun x => ArtifactWorld.artifact? x.2 a) hc)
  · exact .inl (congrArg (fun artifacts => Table.lookup (fun a : ArtifactView => a.artifactId) artifacts a) h)

/-- The etag is that of the revision. -/
def Etagged (a : Uuid) (w : ArtifactWorld) : Prop := ∀ view, w.artifact? a = some view → view.etag = toString view.revision

theorem etagged_exec {w : ArtifactWorld} (h : Etagged a w) (c : ArtifactCall) (e : Uuid) : Etagged a (c.exec e w).2 := by
  intro view ha
  rcases row_exec a c e w with hrow | ⟨view', _, target, current, -, -, -, hrow⟩
  · exact h view (hrow ▸ ha)
  · cases hrow.symm.trans ha
    rfl

theorem etagged_steps (hs : Relation.ReflTransGen (Run.Step ArtifactCall.exec cond) r r') (h : Etagged a r.shared) :
    Etagged a r'.shared := by
  induction hs with
  | refl => exact h
  | tail _ hst ih =>
    obtain ⟨p, c, e, -⟩ := hst
    exact etagged_exec ih c e

/-- The row stays the same or moves to a higher revision. -/
theorem row_steps (hs : Relation.ReflTransGen (Run.Step ArtifactCall.exec cond) r r')
    (h : r.shared.artifact? a = some seen) :
    ∃ view, r'.shared.artifact? a = some view ∧ (view = seen ∨ seen.revision < view.revision) := by
  induction hs with
  | refl => exact ⟨seen, h, .inl rfl⟩
  | @tail r₁ _ _ hst ih =>
    obtain ⟨p, c, e, -⟩ := hst
    obtain ⟨view, hview, hle⟩ := ih
    rcases row_exec a c e r₁.shared with hrow | ⟨view', _, target, current, -, hview', -, hrow⟩
    · exact ⟨view, hrow.trans hview, hle⟩
    · cases hview.symm.trans hview'
      refine ⟨_, hrow, .inr ?_⟩
      rcases hle with rfl | hlt
      · exact Nat.lt_succ_self _
      · exact hlt.trans (Nat.lt_succ_self _)

/-- Two rows with one etag are one row. -/
theorem row_same (hs : Relation.ReflTransGen (Run.Step ArtifactCall.exec cond) r r') (het : Etagged a r.shared)
    (h : r.shared.artifact? a = some seen) (h' : r'.shared.artifact? a = some view) (hetag : view.etag = seen.etag) :
    view = seen := by
  obtain ⟨view', hview', hle⟩ := row_steps hs h
  cases h'.symm.trans hview'
  have hrev : view.revision = seen.revision := by
    rw [etagged_steps hs het view h', het seen h] at hetag
    exact toString_inj hetag
  rcases hle with rfl | hlt
  · rfl
  · omega

/-- What a process read under the etag that a client saw is what the client saw, whichever came first. -/
theorem read_same {start r₀ : ArtifactRun P} (hstart : start.trace = []) (het : Etagged a start.shared)
    (hs₀ : Relation.ReflTransGen (Run.Step ArtifactCall.exec cond) start r₀)
    (hs : Relation.ReflTransGen (Run.Step ArtifactCall.exec cond) r₀ r) (hseen : r₀.shared.artifact? a = some seen) {p : P}
    (hread : (⟨p, .getArtifact a, .ok (some view)⟩ : Event P ArtifactCall ArtifactAnswer) ∈ r.trace)
    (hetag : view.etag = seen.etag) : view = seen := by
  rcases Run.event_between hs hread with hbefore | ⟨r₁, e, h₁, -, hev⟩
  · rcases Run.event_between hs₀ hbefore with hnone | ⟨r₁, e, h₁, h₁', hev⟩
    · rw [hstart] at hnone
      cases hnone
    · have hrow : r₁.shared.artifact? a = some view := (Except.ok.inj hev).symm
      exact (row_same h₁' (etagged_steps h₁ het) hrow hseen hetag.symm).symm
  · have hrow : r₁.shared.artifact? a = some view := (Except.ok.inj hev).symm
    exact row_same h₁ (etagged_steps hs₀ het) hseen hrow hetag

end Rows

/-! ## The lineage of an edit -/

/-- The etag that an edit was sent with. -/
def ArtifactUse.etag? : ArtifactUse → Option String
  | edit _ _ _ expectedEtag _ _ => some expectedEtag
  | _ => none

/-- The row that a pass works from. -/
def PassState.artifact? : PassState → Option ArtifactView
  | seen artifact | based artifact _ | won artifact _ | resolved artifact _ | frozen artifact _ _ | validating artifact _ _
  | listed artifact _ _ _ | inserted artifact _ _ | lost artifact => some artifact
  | idle | failing _ => none

/-- `base` is the version that was current in the row `view`. -/
structure CurrentIn (a : Uuid) (w : ArtifactWorld) (view : ArtifactView) (base : ArtifactVersionView) : Prop where
  stored : base ∈ w.versions
  artifact : base.artifactId = a
  current : view.currentVersionId = some base.versionId

/-- The manifest is stored, and its parent is that of `base`. -/
def HasParent (w : ArtifactWorld) (manifestId : Uuid) (base : ArtifactVersionView) : Prop :=
  ∃ m ∈ w.manifests, m.id = manifestId ∧ m.parentManifestId = some base.manifestId

/-- What an edit sent with `etag` has made sure of. -/
def PassState.Lineage (a : Uuid) (etag : String) (w : ArtifactWorld) : PassState → Prop
  | seen view => ∀ id, view.currentVersionId = some id → ∃ base, CurrentIn a w view base
  | based view existing => (∀ v ∈ existing, v ∈ w.versions ∧ v.artifactId = a) ∧
      (view.currentVersionId ≠ none → ∃ v ∈ existing, view.currentVersionId = some v.versionId)
  | won view number => view.etag = etag ∧ ∃ base, CurrentIn a w view base ∧ number = some base.versionNumber
  | resolved view base => view.etag = etag ∧ CurrentIn a w view base
  | frozen view base manifestId | validating view base manifestId | listed view base manifestId _ =>
    view.etag = etag ∧ ∃ base', base = some base' ∧ CurrentIn a w view base' ∧ HasParent w manifestId base'
  | inserted view _ version => view.etag = etag ∧ version ∈ w.versions ∧
      ∃ base', CurrentIn a w view base' ∧ HasParent w version.manifestId base'
  | idle | lost _ | failing _ => True

section Lineage

variable {a : Uuid} {etag : String} {w w' : ArtifactWorld} {view : ArtifactView} {base : ArtifactVersionView}
  {st : PassState} {use : ArtifactUse} {c : ArtifactCall} {e : Uuid}

/-- Versions and manifests are only added. -/
structure Extends (w w' : ArtifactWorld) : Prop where
  versions : ∀ v ∈ w.versions, v ∈ w'.versions
  manifests : ∀ m ∈ w.manifests, m ∈ w'.manifests

theorem extends_exec (c : ArtifactCall) (e : Uuid) (w : ArtifactWorld) : Extends w (c.exec e w).2 := by
  constructor
  · intro v hv
    rcases versions_exec c e w with h | ⟨version, rfl, h⟩
    · rwa [h]
    · have hexec : (ArtifactCall.createVersion version).exec e w = (.ok (), _) := h
      rw [hexec]
      exact List.mem_append_left _ hv
  · intro m hm
    cases c with
    | getArtifact | getVersion | listVersions => exact hm
    | freezeManifest notebookId actorId config items parent =>
      rcases freezeManifest_cases (w := w) ⟨e, notebookId, actorId, "studio_generation", config, items, parent⟩ with
        ⟨-, h⟩ | ⟨-, _, _, h⟩
      · exact (congrArg (fun x => m ∈ ArtifactWorld.manifests x.2) h).mpr (List.mem_append_left _ hm)
      · exact (congrArg (fun x => m ∈ ArtifactWorld.manifests x.2) h).mpr hm
    | createVersion version =>
      rcases createVersion_cases (w := w) version with ⟨-, h⟩ | ⟨-, _, _, h⟩ <;>
        exact (congrArg (fun x => m ∈ ArtifactWorld.manifests x.2) h).mpr hm
    | casStatus artifactId expected target current =>
      rcases @casStatus_cases w artifactId expected target current with ⟨_, -, -, h⟩ | ⟨-, h⟩ <;>
        exact (congrArg (fun x => m ∈ ArtifactWorld.manifests x.2) h).mpr hm

theorem CurrentIn.mono (h : CurrentIn a w view base) (hw : Extends w w') : CurrentIn a w' view base :=
  ⟨hw.versions _ h.stored, h.artifact, h.current⟩

theorem HasParent.mono {manifestId : Uuid} (h : HasParent w manifestId base) (hw : Extends w w') :
    HasParent w' manifestId base := by
  obtain ⟨m, hm, h⟩ := h
  exact ⟨m, hw.manifests m hm, h⟩

theorem Lineage.mono (h : st.Lineage a etag w) (hw : Extends w w') : st.Lineage a etag w' := by
  cases st with
  | seen view => exact fun id hid => (h id hid).imp fun _ hb => hb.mono hw
  | based view existing => exact ⟨fun v hv => ⟨hw.versions v (h.1 v hv).1, (h.1 v hv).2⟩, h.2⟩
  | won view number =>
    obtain ⟨het, base, hb, hn⟩ := h
    exact ⟨het, base, hb.mono hw, hn⟩
  | resolved view base => exact ⟨h.1, h.2.mono hw⟩
  | frozen view base manifestId =>
    obtain ⟨het, base', hb, hc, hp⟩ := h
    exact ⟨het, base', hb, hc.mono hw, hp.mono hw⟩
  | validating view base manifestId =>
    obtain ⟨het, base', hb, hc, hp⟩ := h
    exact ⟨het, base', hb, hc.mono hw, hp.mono hw⟩
  | listed view base manifestId existing =>
    obtain ⟨het, base', hb, hc, hp⟩ := h
    exact ⟨het, base', hb, hc.mono hw, hp.mono hw⟩
  | inserted view base version =>
    obtain ⟨het, hv, base', hc, hp⟩ := h
    exact ⟨het, hw.versions _ hv, base', hc.mono hw, hp.mono hw⟩
  | idle | lost | failing => trivial

/-- A number names at most one version of the artifact. -/
def NumbersDistinct (a : Uuid) (w : ArtifactWorld) : Prop :=
  ∀ v ∈ w.versions, ∀ v' ∈ w.versions, v.artifactId = a → v'.artifactId = a → v.versionNumber = v'.versionNumber → v = v'

/-- The current version of the row is there. -/
def Pointed (a : Uuid) (w : ArtifactWorld) : Prop :=
  ∀ view, w.artifact? a = some view → ∀ id, view.currentVersionId = some id → ∃ base, CurrentIn a w view base

theorem version?_some {number : Nat} (h : w.version? a number = some base) :
    base ∈ w.versions ∧ base.artifactId = a ∧ base.versionNumber = number := by
  have hp := List.find?_some h
  simp only [Bool.and_eq_true, decide_eq_true_eq] at hp
  exact ⟨List.mem_of_find?_eq_some h, hp⟩

theorem starts_edit (h : use.Starts st view) (he : use.etag? = some etag) :
    (∃ existing, st = .based view existing) ∧ view.etag = etag ∧ view.currentVersionId ≠ none := by
  cases use with
  | edit services actorId artifactId expectedEtag request versionId =>
    cases he
    exact ⟨h.1, h.2.1, h.2.2.2⟩
  | generate | regenerate | cancel | markOutOfDate => cases he

/-- An edit is based on the version that was current. -/
theorem baseNumber_edit (he : use.etag? = some etag) {existing : List ArtifactVersionView}
    (h : ∃ v ∈ existing, view.currentVersionId = some v.versionId) :
    ∃ v ∈ existing, view.currentVersionId = some v.versionId ∧ use.baseNumber view existing = some v.versionNumber := by
  cases use with
  | generate | regenerate | cancel | markOutOfDate => cases he
  | edit =>
    cases hfind : existing.find? fun v => view.currentVersionId = some v.versionId with
    | none =>
      obtain ⟨v, hv, hid⟩ := h
      exact absurd hid (by simpa using List.find?_eq_none.1 hfind v hv)
    | some v =>
      have hid := List.find?_some hfind
      exact ⟨v, List.mem_of_find?_eq_some hfind, by simpa using hid, by simp only [ArtifactUse.baseNumber, hfind, Option.map_some]⟩

theorem lineage_moved {target expected : ArtifactStatus} {current : Option Uuid} {updated : Option ArtifactView}
    (he : use.etag? = some etag) (h : st.Lineage a etag w) (hmoves : use.Moves st expected current target) :
    (st.moved use target updated).Lineage a etag w := by
  cases target with
  | draft | failed | cancelled | outOfDate => trivial
  | generating =>
    obtain ⟨-, view, hstarts, -⟩ := hmoves
    obtain ⟨⟨existing, rfl⟩, hetag, hcurrent⟩ := starts_edit hstarts he
    cases updated with
    | none => trivial
    | some updated =>
      obtain ⟨v, hv, hid, hnumber⟩ := baseNumber_edit he (h.2 hcurrent)
      exact ⟨hetag, v, ⟨(h.1 v hv).1, (h.1 v hv).2, hid⟩, hnumber⟩
  | validating =>
    obtain ⟨-, -, view, base, manifestId, rfl⟩ := hmoves
    exact h
  | ready =>
    obtain ⟨-, view, base, version, rfl, -⟩ := hmoves
    cases updated <;> trivial

theorem lineage_step (hreq : use.artifactId = a) (he : use.etag? = some etag) (h : st.Lineage a etag w) (hp : Pointed a w)
    (hn : NumbersDistinct a w) (hallows : use.Allows st c) :
    (st.step use c (c.exec e w).1).Lineage a etag (c.exec e w).2 := by
  have hw := extends_exec c e w
  cases c with
  | getArtifact artifactId =>
    obtain ⟨rfl, -⟩ := hallows
    show (st.readArtifact (w.artifact? use.artifactId)).Lineage a etag w
    by_cases hrun : st.Running
    · rw [readArtifact_running hrun]
      trivial
    · rw [readArtifact_other hrun, hreq]
      cases ha : w.artifact? a with
      | none => trivial
      | some view => exact hp view ha
  | listVersions artifactId =>
    obtain ⟨rfl, ⟨view, rfl⟩ | ⟨view, base, manifestId, rfl⟩⟩ := hallows
    · refine ⟨fun v hv => hreq ▸ mem_versionsOf.1 hv, fun hid => ?_⟩
      obtain ⟨id, hid⟩ := Option.ne_none_iff_exists'.1 hid
      obtain ⟨base, hbase⟩ := h id hid
      exact ⟨base, mem_versionsOf.2 ⟨hbase.stored, hreq ▸ hbase.artifact⟩, hbase.current⟩
    · exact h
  | getVersion artifactId number =>
    obtain ⟨rfl, view, rfl⟩ := hallows
    show ((PassState.won view (some number)).readBase (w.version? use.artifactId number)).Lineage a etag w
    rw [hreq]
    cases hbase : w.version? a number with
    | none => exact h
    | some base =>
      obtain ⟨hmem, hartifact, hnumber⟩ := version?_some hbase
      obtain ⟨hetag, base', hcurrent, hnumber'⟩ := h
      obtain rfl := hn base hmem base' hcurrent.stored hartifact hcurrent.artifact
        (hnumber.trans (Option.some.inj hnumber'))
      exact ⟨hetag, hcurrent⟩
  | freezeManifest notebookId actorId config items parent =>
    rcases freezeManifest_cases (w := w) ⟨e, notebookId, actorId, "studio_generation", config, items, parent⟩ with
      ⟨-, hf⟩ | ⟨-, name, text, hf⟩
    · have hexec : (ArtifactCall.freezeManifest notebookId actorId config items parent).exec e w = (.ok e, _) := hf
      rcases hallows with ⟨view, rfl, -⟩ | ⟨view, base, rfl, rfl⟩
      · obtain ⟨-, base, -, hnumber⟩ := h
        cases hnumber
      · rw [hexec] at hw ⊢
        exact ⟨h.1, base, rfl, h.2.mono hw, _, List.mem_append_right _ (List.mem_singleton_self _), rfl, rfl⟩
    · have hexec : (ArtifactCall.freezeManifest notebookId actorId config items parent).exec e w =
          (.error (.raised name text), w) := hf
      rw [hexec]
      exact h
  | createVersion version =>
    obtain ⟨-, view, base, existing, rfl, -⟩ := hallows
    rcases createVersion_cases (w := w) version with ⟨-, hc⟩ | ⟨-, name, text, hc⟩
    · have hexec : (ArtifactCall.createVersion version).exec e w = (.ok (), _) := hc
      rw [hexec] at hw ⊢
      obtain ⟨hetag, base', -, hcurrent, hparent⟩ := h
      exact ⟨hetag, List.mem_append_right _ (List.mem_singleton_self _), base', hcurrent.mono hw, hparent.mono hw⟩
    · have hexec : (ArtifactCall.createVersion version).exec e w = (.error (.raised name text), w) := hc
      rw [hexec]
      exact h
  | casStatus artifactId expected target current =>
    obtain ⟨rfl, hmoves⟩ := hallows
    exact lineage_moved he (Lineage.mono h hw) hmoves

theorem numbers_exec (h : NumbersDistinct a w) : NumbersDistinct a (c.exec e w).2 := by
  rcases versions_exec c e w with hversions | ⟨version, rfl, hc⟩
  · simpa only [NumbersDistinct, hversions] using h
  · have hexec : (ArtifactCall.createVersion version).exec e w = (.ok (), _) := hc
    have hnew : ∀ v ∈ w.versions, v.artifactId = version.artifactId → v.versionNumber ≠ version.versionNumber := by
      rcases createVersion_cases (w := w) version with ⟨hadm, -⟩ | ⟨-, _, _, hc'⟩
      · exact hadm.2.2
      · cases hc.symm.trans hc'
    rw [hexec]
    intro v hv v' hv' hva hva' hnumber
    rcases List.mem_append.1 hv with hold | hlast <;> rcases List.mem_append.1 hv' with hold' | hlast'
    · exact h v hold v' hold' hva hva' hnumber
    · obtain rfl := List.mem_singleton.1 hlast'
      exact absurd hnumber (hnew v hold (hva.trans hva'.symm))
    · obtain rfl := List.mem_singleton.1 hlast
      exact absurd hnumber.symm (hnew v' hold' (hva'.trans hva.symm))
    · rw [List.mem_singleton.1 hlast, List.mem_singleton.1 hlast']

end Lineage

/-! ### Over a run -/

section Traced

variable {P : Type} [DecidableEq P] {requests : P → ArtifactUse} {a : Uuid} {r : ArtifactRun P} {p : P} {e : Uuid}
  {c : ArtifactCall} {cond : P → ArtifactCall → Uuid → ArtifactRun P → Prop}

/-- A pass works from the row that it read. -/
theorem step_artifact {use : ArtifactUse} {st : PassState} {answer : ArtifactAnswer c} {view : ArtifactView}
    (hallows : use.Allows st c) (h : (st.step use c answer).artifact? = some view) :
    (⟨c, answer⟩ : Σ c, ArtifactAnswer c) = ⟨.getArtifact use.artifactId, .ok (some view)⟩ ∨ st.artifact? = some view := by
  cases c with
  | getArtifact artifactId =>
    obtain ⟨rfl, -⟩ := hallows
    cases answer with
    | error x => exact .inr h
    | ok row =>
      by_cases hrun : st.Running
      · cases (congrArg PassState.artifact? (readArtifact_running hrun)).symm.trans h
      · have h' := (congrArg PassState.artifact? (readArtifact_other hrun)).symm.trans h
        cases row with
        | none => cases h'
        | some row => cases h'; exact .inl rfl
  | listVersions artifactId =>
    cases answer with
    | error x => exact .inr h
    | ok existing => cases st <;> exact .inr h
  | getVersion artifactId number =>
    cases answer with
    | error x => exact .inr h
    | ok base => cases base <;> cases st <;> exact .inr h
  | freezeManifest =>
    cases answer with
    | error x => exact .inr h
    | ok manifestId => cases st <;> exact .inr h
  | createVersion version =>
    cases answer with
    | error x => exact .inr h
    | ok u => cases st <;> exact .inr h
  | casStatus artifactId expected target current =>
    cases target with
    | draft | failed | cancelled | outOfDate => cases answer <;> cases h
    | validating => cases answer <;> cases st <;> first | exact .inr h | cases h
    | generating | ready =>
      cases answer with
      | error x => cases st <;> first | exact .inr h | cases h
      | ok updated => cases updated <;> cases st <;> first | exact .inr h | cases h

/-- What the version of an edit sent with `etag` stems from. -/
def StemsFrom (a : Uuid) (r : ArtifactRun P) (p : P) (etag : String) (v : ArtifactVersionView) : Prop :=
  ∃ view, (⟨p, .getArtifact a, .ok (some view)⟩ : Event P ArtifactCall ArtifactAnswer) ∈ r.trace ∧ view.etag = etag ∧
    ∃ base, CurrentIn a r.shared view base ∧ HasParent r.shared v.manifestId base

structure Traced (requests : P → ArtifactUse) (a : Uuid) (r : ArtifactRun P) : Prop where
  pointed : Pointed a r.shared
  numbers : NumbersDistinct a r.shared
  read : ∀ p view, (progress requests r p).artifact? = some view →
    (⟨p, .getArtifact a, .ok (some view)⟩ : Event P ArtifactCall ArtifactAnswer) ∈ r.trace
  lineage : ∀ p etag, (requests p).etag? = some etag → (progress requests r p).Lineage a etag r.shared
  created : ∀ p etag v, (requests p).etag? = some etag →
    (⟨p, .createVersion v, .ok ()⟩ : Event P ArtifactCall ArtifactAnswer) ∈ r.trace → StemsFrom a r p etag v

theorem pointed_step (hone : OnePassRun requests a r) (h : Pointed a r.shared)
    (hallows : (requests p).Allows (progress requests r p) c) : Pointed a (c.exec e r.shared).2 := by
  intro view hview id hid
  have hw := extends_exec c e r.shared
  rcases row_exec a c e r.shared with hrow | ⟨view', expected, target, current, rfl, ha, hs, hrow⟩
  · obtain ⟨base, hb⟩ := h view (hrow ▸ hview) id hid
    exact ⟨base, hb.mono hw⟩
  · cases hrow.symm.trans hview
    obtain ⟨-, hmoves⟩ := hallows
    have hkept : ∀ id, view'.currentVersionId = some id → ∃ base, CurrentIn a _ _ base := fun id hid =>
      (h view' ha id hid).imp fun _ hb => hb.mono hw
    cases target with
    | draft => cases hmoves
    | ready =>
      obtain ⟨-, artifact, base, version, hst, rfl⟩ := hmoves
      obtain ⟨hversion, hva, -⟩ := hone.inserted p _ _ _ hst
      exact ⟨version, hw.versions _ hversion, hva, rfl⟩
    | generating | validating | failed | cancelled | outOfDate =>
      obtain ⟨rfl, -⟩ := hmoves
      obtain ⟨base, hb⟩ := hkept id hid
      exact ⟨base, hb.stored, hb.artifact, hb.current⟩

theorem traced_step (hone : OnePassRun requests a r) (h : Traced requests a r) (hreq : (requests p).artifactId = a)
    (hallows : (requests p).Allows (progress requests r p) c) : Traced requests a (r.call ArtifactCall.exec p c e) := by
  have hw := extends_exec c e r.shared
  refine ⟨pointed_step hone h.pointed hallows, numbers_exec h.numbers, ?_, ?_, ?_⟩
  · intro q view hq
    by_cases hqp : q = p
    · subst hqp
      rw [progress_self] at hq
      rcases step_artifact hallows hq with hev | hst
      · obtain ⟨rfl, hanswer⟩ := Sigma.mk.inj_iff.1 hev
        rw [Run.call_trace, eq_of_heq hanswer, hreq]
        exact List.mem_cons_self
      · exact List.mem_cons_of_mem _ (h.read q view hst)
    · rw [progress_other r hqp] at hq
      exact List.mem_cons_of_mem _ (h.read q view hq)
  · intro q etag he
    by_cases hqp : q = p
    · subst hqp
      rw [progress_self]
      exact lineage_step hreq he (h.lineage q etag he) h.pointed h.numbers hallows
    · rw [progress_other r hqp]
      exact Lineage.mono (h.lineage q etag he) hw
  · intro q etag v he hev
    rcases List.mem_cons.1 hev with heq | hev
    · injection heq with hq hc hanswer
      subst hq hc
      have hexec := (eq_of_heq hanswer).symm
      obtain ⟨-, view, base, existing, hst, -⟩ := id hallows
      have hlineage := lineage_step (e := e) hreq he (h.lineage q etag he) h.pointed h.numbers hallows
      rw [hst, hexec] at hlineage
      obtain ⟨hetag, -, base', hcurrent, hparent⟩ := hlineage
      exact ⟨view, List.mem_cons_of_mem _ (h.read q view (by rw [hst]; rfl)), hetag, base', hcurrent, hparent⟩
    · obtain ⟨view, hread, hetag, base, hcurrent, hparent⟩ := h.created q etag v he hev
      exact ⟨view, List.mem_cons_of_mem _ hread, hetag, base, hcurrent.mono hw, hparent.mono hw⟩

/-- **Every run keeps track of where an edit's version comes from.** -/
theorem traced_runs (hreq : ∀ p, (requests p).artifactId = a) (h : ArtifactRuns requests (Created a) cond r) :
    Traced requests a r := by
  refine Reach.invariant (I := Traced requests a) ?_ ?_ h
  · rintro r ⟨hinit, htrace⟩
    have hidle : ∀ p, progress requests r p = .idle := progress_start htrace
    refine ⟨fun view ha id hid => ?_, fun v hv v' _ hva => absurd hva (hinit.versions v hv), fun p view hp => ?_,
      fun p etag _ => ?_, fun p etag v _ hev => ?_⟩
    · rw [(hinit.artifact view ha).2.1] at hid
      cases hid
    · rw [hidle] at hp
      cases hp
    · rw [hidle]
      trivial
    · rw [htrace] at hev
      cases hev
  · rintro r r' hr hi ⟨p, c, e, -, hallows⟩
    exact traced_step (onePass_runs hreq hr) hi (hreq p) hallows

end Traced

/-! ## When no other pass publishes between the read of an edit and its CAS -/

/-- Statuses come in this order until a pass publishes. -/
def ArtifactStatus.rank : ArtifactStatus → Nat
  | draft | ready => 0
  | outOfDate => 1
  | generating => 2
  | validating => 3
  | failed | cancelled => 4

theorem rank_lt_of_moves {use : ArtifactUse} {st : PassState} {expected target : ArtifactStatus} {current : Option Uuid}
    (h : use.Moves st expected current target) (ht : target ≠ .ready) : expected.rank < target.rank := by
  cases target with
  | draft => cases h
  | ready => exact absurd rfl ht
  | generating =>
    obtain ⟨-, artifact, hstarts, rfl⟩ := h
    rcases starts_status hstarts with h | h | h <;> rw [h] <;> decide
  | validating =>
    obtain ⟨-, rfl, -⟩ := h
    decide
  | failed | cancelled | outOfDate =>
    obtain ⟨-, artifact, -, rfl, hallowed⟩ := h
    revert hallowed
    cases artifact.status <;> decide

section Optimistic

variable {P : Type} [DecidableEq P] {requests : P → ArtifactUse} {a : Uuid} {r : ArtifactRun P} {p q : P} {e : Uuid}
  {c : ArtifactCall} {view row : ArtifactView}

def isRead (ev : Event P ArtifactCall ArtifactAnswer) : Bool :=
  match ev.call with
  | .getArtifact _ => true
  | _ => false

/-- A pass published since `p` read the artifact last. -/
def publishedSince (p : P) (t : List (Event P ArtifactCall ArtifactAnswer)) : Bool := since isRead publishes p t

/-- The CAS to generating of an edit, where it finds the status that the edit read, comes before any other pass
publishes. -/
def NoPublishSinceRead (requests : P → ArtifactUse) (a : Uuid) : P → ArtifactCall → Uuid → ArtifactRun P → Prop
  | p, .casStatus _ expected .generating _, _, r => (requests p).etag? ≠ none →
    ∀ row, r.shared.artifact? a = some row → row.status = expected → publishedSince p r.trace = false
  | _, _, _, _ => True

/-- `st` is between the read of the row `view` and the CAS to generating. -/
def PassState.Reading (st : PassState) (view : ArtifactView) : Prop := st = .seen view ∨ ∃ existing, st = .based view existing

/-- How far the revision of the row is from the one that the pass started from. -/
def PassState.Counts (row : ArtifactView) : PassState → Prop
  | won view _ | resolved view _ | frozen view _ _ => row.status = .generating → row.revision = view.revision + 1
  | validating view _ _ | listed view _ _ _ | inserted view _ _ => row.status = .validating → row.revision = view.revision + 2
  | _ => True

/-- A CAS to ready of an edit that was sent with `etag`. -/
def PublishesEdit (requests : P → ArtifactUse) (etag : String) (ev : Event P ArtifactCall ArtifactAnswer) : Prop :=
  publishes ev = true ∧ (requests ev.party).etag? = some etag

structure Optimistic (requests : P → ArtifactUse) (a : Uuid) (r : ArtifactRun P) : Prop where
  etagged : Etagged a r.shared
  tagged : ∀ p view, (progress requests r p).artifact? = some view → view.etag = toString view.revision
  fresh : ∀ p view, (progress requests r p).Reading view → publishedSince p r.trace = false →
    ∃ row, r.shared.artifact? a = some row ∧ (row = view ∨ view.status.rank < row.status.rank)
  counted : ∀ p, (requests p).etag? ≠ none → ∀ row, r.shared.artifact? a = some row → (progress requests r p).Counts row
  once : ∀ n, ∀ ev ∈ r.trace, PublishesEdit requests (toString n) ev → ∀ row, r.shared.artifact? a = some row →
    n + 3 ≤ row.revision
  single : r.trace.Pairwise fun ev ev' => ∀ etag, PublishesEdit requests etag ev → ¬ PublishesEdit requests etag ev'

omit [DecidableEq P] in
/-- The row of a call that publishes is there in the status that its CAS expects. -/
theorem publishes_exec {w : ArtifactWorld} (h : publishes (⟨p, c, (c.exec e w).1⟩ : Event P ArtifactCall ArtifactAnswer) = true) :
    ∃ artifactId expected current row, c = .casStatus artifactId expected .ready current ∧
      w.artifact? artifactId = some row ∧ row.status = expected := by
  cases c with
  | casStatus artifactId expected target current =>
    rcases @casStatus_cases w artifactId expected target current with ⟨row, ha, hs, -⟩ | ⟨-, hc⟩
    · cases target <;> first | exact ⟨_, _, _, row, rfl, ha, hs⟩ | cases h
    · have hexec : (ArtifactCall.casStatus artifactId expected target current).exec e w = (.ok none, w) :=
        congrArg (Prod.map Except.ok id) hc
      rw [hexec] at h
      cases target <;> cases h
  | getArtifact | getVersion | listVersions | freezeManifest | createVersion => cases h

/-- Where the row moves, and the call does not publish, it moves to a later status. -/
theorem row_later (hallows : (requests p).Allows (progress requests r p) c) (ha : r.shared.artifact? a = some row)
    (hnot : publishes (⟨p, c, (c.exec e r.shared).1⟩ : Event P ArtifactCall ArtifactAnswer) = false) :
    (c.exec e r.shared).2.artifact? a = some row ∨
      ∃ row', (c.exec e r.shared).2.artifact? a = some row' ∧ row.status.rank < row'.status.rank := by
  rcases row_exec a c e r.shared with hrow | ⟨view, expected, target, current, rfl, ha', rfl, hrow⟩
  · exact .inl (hrow.trans ha)
  · cases ha.symm.trans ha'
    refine .inr ⟨_, hrow, rank_lt_of_moves hallows.2 ?_⟩
    rintro rfl
    have hexec : (ArtifactCall.casStatus a row.status .ready current).exec e r.shared = (.ok (some _), _) :=
      congrArg (Prod.map Except.ok id) (casStatus_of_status ha rfl)
    rw [hexec] at hnot
    cases hnot

/-- What is between its read and its CAS has just read, or was there before. -/
theorem fresh_self (h : Optimistic requests a r) (hreq : (requests p).artifactId = a)
    (hallows : (requests p).Allows (progress requests r p) c)
    (hst : ((progress requests r p).step (requests p) c (c.exec e r.shared).1).Reading view)
    (hsince : publishedSince p (⟨p, c, (c.exec e r.shared).1⟩ :: r.trace) = false) :
    ∃ row, (c.exec e r.shared).2.artifact? a = some row ∧ (row = view ∨ view.status.rank < row.status.rank) := by
  cases c with
  | getArtifact artifactId =>
    obtain ⟨rfl, -⟩ := hallows
    have hst' : (PassState.readArtifact (r.shared.artifact? (requests p).artifactId) (progress requests r p)).Reading view := hst
    rw [hreq] at hst'
    by_cases hrun : (progress requests r p).Running
    · rw [readArtifact_running hrun] at hst'
      rcases hst' with hst' | ⟨_, hst'⟩ <;> cases hst'
    · rw [readArtifact_other hrun] at hst'
      cases ha : r.shared.artifact? a with
      | none =>
        rw [ha] at hst'
        rcases hst' with hst' | ⟨_, hst'⟩ <;> cases hst'
      | some row =>
        rw [ha] at hst'
        rcases hst' with hst' | ⟨_, hst'⟩ <;> cases hst'
        exact ⟨_, ha, .inl rfl⟩
  | listVersions artifactId =>
    have hold : (progress requests r p).Reading view := by
      obtain ⟨-, ⟨artifact, hseen⟩ | ⟨artifact, base, manifestId, hvalidating⟩⟩ := hallows
      · rw [hseen] at hst ⊢
        rcases hst with hst | ⟨_, hst⟩ <;> cases hst
        exact .inl rfl
      · rw [hvalidating] at hst
        rcases hst with hst | ⟨_, hst⟩ <;> cases hst
    exact h.fresh p view hold (since_cons hsince (.inr rfl)).2
  | getVersion artifactId number =>
    obtain ⟨-, artifact, hwon⟩ := hallows
    rw [hwon] at hst
    have hst' : ((PassState.won artifact (some number)).readBase (r.shared.version? artifactId number)).Reading view := hst
    cases hbase : r.shared.version? artifactId number <;> rw [hbase] at hst' <;>
      rcases hst' with hst' | ⟨_, hst'⟩ <;> cases hst'
  | freezeManifest notebookId actorId config items parent =>
    obtain ⟨answer, hanswer⟩ : ∃ answer, answer = ((ArtifactCall.freezeManifest notebookId actorId config items
      parent).exec e r.shared).1 := ⟨_, rfl⟩
    rw [← hanswer] at hst
    rcases hallows with ⟨artifact, hwon, -⟩ | ⟨artifact, base, hwon, -⟩ <;> rw [hwon] at hst <;> cases answer <;>
      rcases hst with hst | ⟨_, hst⟩ <;> cases hst
  | createVersion version =>
    obtain ⟨-, artifact, base, existing, hlisted, -⟩ := hallows
    obtain ⟨answer, hanswer⟩ : ∃ answer, answer = ((ArtifactCall.createVersion version).exec e r.shared).1 := ⟨_, rfl⟩
    rw [hlisted, ← hanswer] at hst
    cases answer <;> rcases hst with hst | ⟨_, hst⟩ <;> cases hst
  | casStatus artifactId expected target current =>
    have hmoved : ∀ updated, ¬ ((progress requests r p).moved (requests p) target updated).Reading view := by
      intro updated
      cases target with
      | draft | failed | cancelled | outOfDate => rintro (h | ⟨_, h⟩) <;> cases h
      | generating =>
        obtain ⟨-, -, artifact, hstarts, -⟩ := hallows
        cases updated with
        | none => rintro (h | ⟨_, h⟩) <;> cases h
        | some updated =>
          show ¬ (PassState.start (requests p) (some updated) _).Reading view
          rw [(not_holds_of_starts hstarts).2]
          rintro (h | ⟨_, h⟩) <;> cases h
      | validating =>
        obtain ⟨-, -, -, artifact, base, manifestId, hfrozen⟩ := hallows
        rw [hfrozen]
        rintro (h | ⟨_, h⟩) <;> cases h
      | ready =>
        obtain ⟨-, -, artifact, base, version, hinserted, -⟩ := hallows
        rw [hinserted]
        cases updated <;> rintro (h | ⟨_, h⟩) <;> cases h
    exact absurd hst (hmoved _)

/-- A pass at work finds its row moved by no other process, except to `cancelled`. -/
theorem counted_other (hone : OnePassRun requests a r) (hallows : (requests p).Allows (progress requests r p) c) (hqp : q ≠ p)
    (h : ∀ row, r.shared.artifact? a = some row → (progress requests r q).Counts row)
    (hrow : (c.exec e r.shared).2.artifact? a = some row) : (progress requests r q).Counts row := by
  rcases row_exec a c e r.shared with hsame | ⟨view, expected, target, current, rfl, ha, hs, hcast⟩
  · exact h row (hsame ▸ hrow)
  · cases hcast.symm.trans hrow
    by_cases hq : (progress requests r q).Running
    · have hp : ¬ (progress requests r p).Holds := fun hp => hqp (hone.single q p (.inl hq) hp)
      obtain ⟨view', ha', hadm⟩ := hone.status q (.inl hq)
      cases ha.symm.trans ha'
      have hheld := admits_held (.inl hq) hadm
      rw [hs] at hheld
      obtain ⟨-, hmoves⟩ := hallows
      cases target with
      | draft => cases hmoves
      | generating =>
        obtain ⟨-, artifact, hstarts, rfl⟩ := hmoves
        rcases starts_status hstarts with h | h | h <;> rw [h] at hheld <;> rcases hheld with h | h | h <;> cases h
      | validating =>
        obtain ⟨-, -, _, _, _, hst⟩ := hmoves
        exact absurd (.inl (hst ▸ trivial)) hp
      | ready =>
        obtain ⟨-, _, _, _, hst, -⟩ := hmoves
        exact absurd (holds_of_inserted hst) hp
      | failed =>
        obtain ⟨-, _, hst, -⟩ := hmoves
        exact absurd (.inr ⟨_, hst⟩) hp
      | cancelled => cases hst : progress requests r q <;> first | trivial | exact nofun
      | outOfDate =>
        obtain ⟨-, artifact, -, rfl, hallowed⟩ := hmoves
        rw [allowed_outOfDate hallowed] at hheld
        rcases hheld with h | h | h <;> cases h
    · cases hst : progress requests r q <;> first | trivial | exact absurd (hst ▸ trivial) hq

/-- The CAS to generating of an edit goes through on the row that the edit read. -/
theorem row_read (h : Optimistic requests a r) {expected : ArtifactStatus} {current : Option Uuid}
    (hedit : (requests p).etag? ≠ none)
    (hcond : NoPublishSinceRead requests a p (.casStatus a expected .generating current) e r)
    (hstarts : (requests p).Starts (progress requests r p) view) (hexpected : expected = view.status)
    (ha : r.shared.artifact? a = some row) (hs : row.status = expected) : row = view := by
  obtain ⟨etag, he⟩ := Option.ne_none_iff_exists'.1 hedit
  obtain ⟨⟨existing, hst⟩, -⟩ := starts_edit hstarts he
  obtain ⟨row', ha', hrow⟩ := h.fresh p view (.inr ⟨existing, hst⟩) (hcond hedit row ha hs)
  cases ha.symm.trans ha'
  rcases hrow with rfl | hlt
  · rfl
  · rw [hs, hexpected] at hlt
    exact absurd hlt (lt_irrefl _)

omit [DecidableEq P] in
/-- Only a CAS that goes through changes the row. -/
theorem row_kept (hc : ∀ artifactId expected target current, c ≠ .casStatus artifactId expected target current)
    (hrow : (c.exec e r.shared).2.artifact? a = some row) : r.shared.artifact? a = some row := by
  rcases row_exec a c e r.shared with hsame | ⟨_, _, _, _, hcas, -⟩
  · exact hsame ▸ hrow
  · exact absurd hcas (hc _ _ _ _)

/-- The CAS to generating and that to validating each add one to the revision. -/
theorem counted_cas (hone : OnePassRun requests a r) (h : Optimistic requests a r) {expected target : ArtifactStatus}
    {current : Option Uuid} (hmoves : (requests p).Moves (progress requests r p) expected current target)
    (hcond : NoPublishSinceRead requests a p (.casStatus a expected target current) e r) (hedit : (requests p).etag? ≠ none)
    (hrow : (r.shared.casStatus a expected target current).2.artifact? a = some row) :
    ((progress requests r p).moved (requests p) target (r.shared.casStatus a expected target current).1).Counts row := by
  rcases @casStatus_cases r.shared a expected target current with ⟨old, ha, hs, hc⟩ | ⟨hlost, hc⟩ <;> rw [hc] at hrow ⊢
  · cases (artifact?_cast_self ha).symm.trans hrow
    cases target with
    | draft | failed | cancelled | outOfDate => trivial
    | generating =>
      obtain ⟨-, artifact, hstarts, hexpected⟩ := id hmoves
      obtain rfl := row_read h hedit hcond hstarts hexpected ha hs
      show (PassState.start (requests p) (some (ArtifactWorld.castArtifact .generating current old)) _).Counts _
      rw [(not_holds_of_starts hstarts).2]
      exact fun _ => rfl
    | validating =>
      obtain ⟨-, rfl, artifact, base, manifestId, hst⟩ := hmoves
      have hold := h.counted p hedit old ha
      rw [hst] at hold ⊢
      exact fun _ => congrArg Nat.succ (hold hs)
    | ready =>
      obtain ⟨-, artifact, base, version, hst, -⟩ := hmoves
      rw [hst]
      trivial
  · cases target with
    | draft | failed | cancelled | outOfDate | generating => trivial
    | validating =>
      obtain ⟨-, rfl, artifact, base, manifestId, hst⟩ := hmoves
      obtain ⟨old, ha, hadm⟩ := hone.status p (hst ▸ .inl trivial)
      cases ha.symm.trans hrow
      rw [hst] at hadm ⊢
      -- it was cancelled before
      exact fun hs => nomatch hs.symm.trans (hadm.resolve_left (hlost _ ha))
    | ready =>
      obtain ⟨-, artifact, base, version, hst, -⟩ := hmoves
      rw [hst]
      trivial

theorem counted_self (hone : OnePassRun requests a r) (h : Optimistic requests a r) (hreq : (requests p).artifactId = a)
    (hallows : (requests p).Allows (progress requests r p) c) (hcond : NoPublishSinceRead requests a p c e r)
    (hedit : (requests p).etag? ≠ none) (hrow : (c.exec e r.shared).2.artifact? a = some row) :
    ((progress requests r p).step (requests p) c (c.exec e r.shared).1).Counts row := by
  cases c with
  | casStatus artifactId expected target current =>
    obtain ⟨rfl, hmoves⟩ := hallows
    rw [hreq] at hcond hrow ⊢
    exact counted_cas hone h hmoves hcond hedit hrow
  | getArtifact artifactId =>
    show (PassState.readArtifact (r.shared.artifact? artifactId) (progress requests r p)).Counts row
    by_cases hrun : (progress requests r p).Running
    · rw [readArtifact_running hrun]
      trivial
    · rw [readArtifact_other hrun]
      cases r.shared.artifact? artifactId <;> trivial
  | listVersions artifactId =>
    have hold := h.counted p hedit row (row_kept (by intros; simp) hrow)
    obtain ⟨-, ⟨artifact, hst⟩ | ⟨artifact, base, manifestId, hst⟩⟩ := hallows <;> rw [hst] at hold ⊢ <;> exact hold
  | getVersion artifactId number =>
    have hold := h.counted p hedit row (row_kept (by intros; simp) hrow)
    obtain ⟨-, artifact, hst⟩ := hallows
    rw [hst] at hold ⊢
    show (PassState.readBase (r.shared.version? artifactId number) (.won artifact (some number))).Counts row
    cases r.shared.version? artifactId number <;> exact hold
  | freezeManifest notebookId actorId config items parent =>
    have hold := h.counted p hedit row (row_kept (by intros; simp) hrow)
    obtain ⟨answer, hanswer⟩ : ∃ answer, answer = ((ArtifactCall.freezeManifest notebookId actorId config items
      parent).exec e r.shared).1 := ⟨_, rfl⟩
    rw [← hanswer]
    rcases hallows with ⟨artifact, hst, -⟩ | ⟨artifact, base, hst, -⟩ <;> rw [hst] at hold ⊢ <;> cases answer <;> exact hold
  | createVersion version =>
    have hold := h.counted p hedit row (row_kept (by intros; simp) hrow)
    obtain ⟨-, artifact, base, existing, hst, -⟩ := hallows
    obtain ⟨answer, hanswer⟩ : ∃ answer, answer = ((ArtifactCall.createVersion version).exec e r.shared).1 := ⟨_, rfl⟩
    rw [hst] at hold
    rw [hst, ← hanswer]
    cases answer <;> exact hold

/-- Where an edit publishes, its row is two revisions from the one it was sent the etag of. -/
theorem publishes_revision (htraced : Traced requests a r) (h : Optimistic requests a r)
    (hreq : (requests p).artifactId = a) (hallows : (requests p).Allows (progress requests r p) c) {etag : String}
    (hpub : PublishesEdit requests etag (⟨p, c, (c.exec e r.shared).1⟩ : Event P ArtifactCall ArtifactAnswer)) :
    ∃ n row, etag = toString n ∧ r.shared.artifact? a = some row ∧ row.revision = n + 2 ∧
      ∃ row', (c.exec e r.shared).2.artifact? a = some row' ∧ row'.revision = n + 3 := by
  obtain ⟨artifactId, expected, current, row, rfl, ha, hs⟩ := publishes_exec hpub.1
  obtain ⟨rfl, rfl, view, base, version, hst, rfl⟩ := hallows
  rw [hreq] at ha
  have hedit : (requests p).etag? = some etag := hpub.2
  have hlineage := htraced.lineage p etag hedit
  have htagged := h.tagged p view (by rw [hst]; rfl)
  have hcounted := h.counted p (by simp [hedit]) row ha
  rw [hst] at hlineage hcounted
  have hrev : row.revision = view.revision + 2 := hcounted hs
  refine ⟨view.revision, row, hlineage.1.symm.trans htagged, ha, hrev,
    ArtifactWorld.castArtifact .ready (some version.versionId) row, ?_, congrArg Nat.succ hrev⟩
  rw [hreq]
  exact (congrArg (fun x => ArtifactWorld.artifact? x.2 a) (casStatus_of_status ha hs)).trans (artifact?_cast_self ha)

theorem optimistic_step (hone : OnePassRun requests a r) (htraced : Traced requests a r) (h : Optimistic requests a r)
    (hreq : (requests p).artifactId = a) (hallows : (requests p).Allows (progress requests r p) c)
    (hcond : NoPublishSinceRead requests a p c e r) : Optimistic requests a (r.call ArtifactCall.exec p c e) := by
  refine ⟨etagged_exec h.etagged c e, ?_, ?_, ?_, ?_, ?_⟩
  · intro q view hq
    by_cases hqp : q = p
    · subst hqp
      rw [progress_self] at hq
      rcases step_artifact hallows hq with hev | hst
      · obtain ⟨rfl, hanswer⟩ := Sigma.mk.inj_iff.1 hev
        exact h.etagged view (hreq ▸ Except.ok.inj (eq_of_heq hanswer))
      · exact h.tagged q view hst
    · rw [progress_other r hqp] at hq
      exact h.tagged q view hq
  · intro q view hq hsince
    by_cases hqp : q = p
    · subst hqp
      rw [progress_self] at hq
      exact fresh_self h hreq hallows hq hsince
    · rw [progress_other r hqp] at hq
      obtain ⟨hnot, hsince⟩ := since_cons hsince (.inl (Ne.symm hqp))
      obtain ⟨row, ha, hrow⟩ := h.fresh q view hq hsince
      rcases row_later hallows ha hnot with hsame | ⟨row', ha', hlt⟩
      · exact ⟨row, hsame, hrow⟩
      · refine ⟨row', ha', .inr ?_⟩
        rcases hrow with rfl | hlt'
        · exact hlt
        · exact hlt'.trans hlt
  · intro q hedit row hrow
    by_cases hqp : q = p
    · subst hqp
      rw [progress_self]
      exact counted_self hone h hreq hallows hcond hedit hrow
    · rw [progress_other r hqp]
      exact counted_other hone hallows hqp (h.counted q hedit) hrow
  · intro n ev hev hpub row hrow
    rcases List.mem_cons.1 hev with rfl | hev
    · obtain ⟨m, _, hetag, -, -, row', ha', hrev⟩ := publishes_revision htraced h hreq hallows hpub
      cases ha'.symm.trans hrow
      rw [hrev, toString_inj hetag]
    · rcases row_exec a c e r.shared with hsame | ⟨view, expected, target, current, -, ha, -, hcast⟩
      · exact h.once n ev hev hpub row (hsame ▸ hrow)
      · cases hcast.symm.trans hrow
        exact (h.once n ev hev hpub view ha).trans (Nat.le_succ _)
  · refine List.pairwise_cons.2 ⟨fun ev hev etag hpub hpub' => ?_, h.single⟩
    obtain ⟨n, row, rfl, ha, hrev, -⟩ := publishes_revision htraced h hreq hallows hpub
    have hlater := h.once n ev hev hpub' row ha
    omega

/-- **Every run keeps to it, where no pass publishes between the read of an edit and its CAS.** -/
theorem optimistic_runs (hreq : ∀ p, (requests p).artifactId = a)
    (h : ArtifactRuns requests (Created a) (NoPublishSinceRead requests a) r) : Optimistic requests a r := by
  refine Reach.invariant (I := Optimistic requests a) ?_ ?_ h
  · rintro r ⟨hinit, htrace⟩
    have hidle : ∀ p, progress requests r p = .idle := progress_start htrace
    refine ⟨fun view ha => (hinit.artifact view ha).2.2, fun p view hp => ?_, fun p view hp => ?_, fun p _ row _ => ?_,
      fun n ev hev => ?_, ?_⟩
    · rw [hidle] at hp
      cases hp
    · rw [hidle] at hp
      rcases hp with hp | ⟨_, hp⟩ <;> cases hp
    · rw [hidle]
      trivial
    · rw [htrace] at hev
      cases hev
    · rw [htrace]
      exact .nil
  · rintro r r' hr hi ⟨p, c, e, hcond, hallows⟩
    exact optimistic_step (onePass_runs hreq hr) (traced_runs hreq hr) hi (hreq p) hallows hcond

/-- **An edit publishes on what its client saw**, where no pass publishes between its read and its CAS. A client saw
the row `seen`; from then on, whatever runs: an edit sent with the etag of `seen` makes its CAS to generating
go through on that very row, and its version has the parent manifest of the version that was current in `seen`. Two
edits sent with one etag never both publish. -/
theorem edit_optimistic {pool₀ pool : ArtifactPool P} {seen : ArtifactView} (hreq : ∀ p, (requests p).artifactId = a)
    (h₀ : (artifactMachine requests).Reach (Created a) (NoPublishSinceRead requests a) pool₀)
    (hseen : pool₀.run.shared.artifact? a = some seen)
    (hs : Relation.ReflTransGen ((artifactMachine requests).Step (NoPublishSinceRead requests a)) pool₀ pool) :
    (∀ p, (requests p).etag? = some seen.etag → ∀ expected current k,
      pool.procs p = .call (.casStatus a expected .generating current) k →
      NoPublishSinceRead requests a p (.casStatus a expected .generating current) e pool.run →
      ∀ row, pool.run.shared.artifact? a = some row → row.status = expected → row = seen) ∧
    (∀ p, (requests p).etag? = some seen.etag → ∀ v,
      (⟨p, .createVersion v, .ok ()⟩ : Event P ArtifactCall ArtifactAnswer) ∈ pool.run.trace →
      ∃ base, CurrentIn a pool.run.shared seen base ∧ HasParent pool.run.shared v.manifestId base) ∧
    (pool.run.trace.Pairwise fun ev ev' => ∀ etag, PublishesEdit requests etag ev → ¬ PublishesEdit requests etag ev') := by
  obtain ⟨hruns, hprocs⟩ := artifact_runs (h₀.trans hs)
  obtain ⟨hruns₀, -⟩ := artifact_runs h₀
  have hoptimistic := optimistic_runs hreq hruns
  have hsteps := Machine.obeys_steps (A := fun p => (requests p).automaton) (Q := fun _ => PassState.Ended) answers_exec
    (fun _ => trivial) (fun p _ _ hst => program_obeys (requests p) hst) h₀ hs
  obtain ⟨start, ⟨hcreated, hempty⟩, hsteps₀⟩ := Reach.from_start hruns₀
  have hetagged : Etagged a start.shared := fun view ha => (hcreated.artifact view ha).2.2
  refine ⟨fun p he expected current k hproc hcond row ha hstatus => ?_, fun p he v hv => ?_, hoptimistic.single⟩
  · have hallows := hprocs p
    rw [hproc] at hallows
    obtain ⟨-, -, view, hstarts, hexpected⟩ := hallows.1
    obtain rfl := row_read hoptimistic (by simp [he]) hcond hstarts hexpected ha hstatus
    exact row_same hsteps (etagged_steps hsteps₀ hetagged) hseen ha (starts_edit hstarts he).2.1
  · obtain ⟨view, hread, hetag, base, hcurrent, hparent⟩ := (traced_runs hreq hruns).created p seen.etag v he hv
    obtain rfl := read_same hempty hetagged hsteps₀ hsteps hseen hread hetag
    exact ⟨base, hcurrent, hparent⟩

end Optimistic

/-! ## Schedules -/

/-- The generation of a table, and two edits of the first version of it. -/
def editUses : Fin 3 → ArtifactUse
  | 0 => .generate tableServices 3 2 tableRequest 9
  | 1 => .edit tableServices 3 2 "3" tableRequest 10
  | 2 => .edit tableServices 4 2 "3" tableRequest 11

def editPool : ArtifactPool (Fin 3) := ⟨⟨{ artifacts := [draftTable] }, []⟩, fun _ => .ret (.ok ())⟩

theorem editPool_idle : Pool.Idle (Created 2) editPool := by
  refine ⟨⟨⟨fun view h => ?_, by simp [editPool]⟩, rfl⟩, fun _ => rfl⟩
  cases h
  exact ⟨rfl, rfl, by decide⟩

/-- The calls of `p` from its start on. -/
def callsOf (p : Fin 3) (ids : List Uuid) : List (Move (Fin 3) Uuid Unit) := ids.map (.call p)

def generated : ArtifactPool (Fin 3) :=
  (Move.start 0 () :: callsOf 0 [0, 0, 5, 0, 0, 0, 0]).foldl (artifactMachine editUses).move editPool

/-- One edit, from its read to its CAS to ready. -/
def editMoves : List (Move (Fin 3) Uuid Unit) := .start 1 () :: callsOf 1 [0, 0, 0, 0, 6, 0, 0, 0, 0]

/-- The edit of the generated table publishes on its first version. -/
theorem edit_optimistic_of_edit : ∃ pool₀ pool : ArtifactPool (Fin 3), ∃ seen,
    (artifactMachine editUses).Reach (Created 2) (NoPublishSinceRead editUses 2) pool₀ ∧
      pool₀.run.shared.artifact? 2 = some seen ∧
      Relation.ReflTransGen ((artifactMachine editUses).Step (NoPublishSinceRead editUses 2)) pool₀ pool ∧
      ∃ base, CurrentIn 2 pool.run.shared seen base ∧ HasParent pool.run.shared 6 base := by
  have hreach : (artifactMachine editUses).Reach (Created 2) (NoPublishSinceRead editUses 2) generated := by
    refine Machine.reach_moves (.start editPool_idle) ?_
    exact ⟨trivial, trivial, fun h => absurd rfl h, trivial, trivial, trivial, trivial, trivial, trivial⟩
  have hsteps : Relation.ReflTransGen ((artifactMachine editUses).Step (NoPublishSinceRead editUses 2)) generated
      (editMoves.foldl (artifactMachine editUses).move generated) := by
    refine Machine.steps_moves ?_
    exact ⟨trivial, trivial, trivial, fun _ _ _ _ => rfl, trivial, trivial, trivial, trivial, trivial, trivial, trivial⟩
  refine ⟨_, _, _, hreach, rfl, hsteps, ?_⟩
  refine (edit_optimistic (e := 0) (fun p => ?_) hreach rfl hsteps).2.1 1 rfl _ (List.mem_cons_of_mem _ List.mem_cons_self)
  match p with
  | 0 | 1 | 2 => rfl

/-- The other edit reads before it, and goes on after it. -/
def racingMoves : List (Move (Fin 3) Uuid Unit) :=
  .start 2 () :: callsOf 2 [0, 0] ++ editMoves ++ callsOf 2 [0, 0, 7, 0, 0, 0, 0]

theorem edits_both_publish : ∃ pool : ArtifactPool (Fin 3),
    (artifactMachine editUses).Reach (Created 2) (fun _ _ _ _ => True) pool ∧
      ¬ pool.run.trace.Pairwise fun ev ev' => ∀ etag, PublishesEdit editUses etag ev → ¬ PublishesEdit editUses etag ev' := by
  refine ⟨racingMoves.foldl (artifactMachine editUses).move generated,
    Machine.reach_moves (Machine.reach_moves (.start editPool_idle) Machine.meets_true) Machine.meets_true, fun h => ?_⟩
  have h3 := h.imp fun hnot => hnot "3"
  simp only [PublishesEdit] at h3
  revert h3
  decide +kernel

end MilpbookLM.Studio
