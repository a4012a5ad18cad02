/-
Any number of use cases on one artifact. At most one pass is at work on it: a pass starts
from a status that no pass at work leaves it in, and `cancelled` and `failed` lead nowhere.
So the versions are numbered in the order of their passes, and the current version of a
ready artifact is the last. What a pass does not notice is a cancel: the result of its CAS
to validating is ignored, and its version is there before its CAS to ready decides.
-/
import MilpbookLM.Studio.PassProtocol

namespace MilpbookLM.Studio

open Interleave

/-! ## What a pass at work has of the artifact -/

/-- The statuses in which a pass that came so far may find its artifact. -/
def PassState.Admits (st : PassState) (status : ArtifactStatus) : Prop :=
  match st with
  | .won .. | .resolved .. | .frozen .. => status = .generating ∨ status = .cancelled
  | .failing _ => status = .generating ∨ status = .validating ∨ status = .cancelled
  | .validating .. | .listed .. | .inserted .. => status = .validating ∨ status = .cancelled
  | .lost _ => status = .cancelled
  | .idle | .seen _ | .based .. => True

/-- The current version is the one with the highest number. -/
def ArtifactWorld.CurrentIsHighest (w : ArtifactWorld) (artifactId : Uuid) (view : ArtifactView) : Prop :=
  ∃ v ∈ w.versions, v.artifactId = artifactId ∧ view.currentVersionId = some v.versionId ∧
    ∀ v' ∈ w.versions, v'.artifactId = artifactId → v'.versionNumber ≤ v.versionNumber

section Passes

variable {P : Type} {a : Uuid} {w w' : ArtifactWorld} {state state' : P → PassState}
  {pub pub' : ArtifactVersionView → Prop} {p : P} {view : ArtifactView}

/-- One pass at most is at work on the artifact `a`, which is in a status that admits it; `pub` are the
versions that were published. -/
structure OnePass (a : Uuid) (w : ArtifactWorld) (state : P → PassState) (pub : ArtifactVersionView → Prop) : Prop where
  single : ∀ p q, (state p).Holds → (state q).Holds → p = q
  status : ∀ p, (state p).Holds → ∃ view, w.artifact? a = some view ∧ (state p).Admits view.status
  listed : ∀ p artifact base manifestId existing, state p = .listed artifact base manifestId existing →
    ∀ v ∈ w.versions, v.artifactId = a → v ∈ existing
  inserted : ∀ p artifact base v, state p = .inserted artifact base v → v ∈ w.versions ∧ v.artifactId = a ∧
    ∀ v' ∈ w.versions, v'.artifactId = a → v'.versionNumber ≤ v.versionNumber
  published : ∀ v ∈ w.versions, v.artifactId = a → pub v ∨ (∃ p artifact base, state p = .inserted artifact base v) ∨
    ∃ view, w.artifact? a = some view ∧ view.status = .cancelled
  current : ∀ view, w.artifact? a = some view → view.status = .ready ∨ view.status = .outOfDate →
    w.CurrentIsHighest a view

theorem admits_held {st : PassState} {status : ArtifactStatus} (hst : st.Holds) (h : st.Admits status) :
    status = .generating ∨ status = .validating ∨ status = .cancelled := by
  rcases hst with hst | ⟨current, rfl⟩
  · cases st <;> first | exact h | exact h.imp_right .inr | exact .inr h | exact .inr (.inr h) | cases hst
  · exact h

theorem admits_cancelled {st : PassState} : st.Admits .cancelled := by
  cases st <;> simp [PassState.Admits]

theorem inserted_running {st : PassState} (h : st.Inserted) : st.Running := by
  cases st <;> first | exact h | trivial

theorem holds_of_inserted {artifact : ArtifactView} {base : Option ArtifactVersionView} {v : ArtifactVersionView}
    {st : PassState} (h : st = .inserted artifact base v) : st.Holds := by
  subst h
  exact .inl trivial

/-- No pass is at work on an artifact in another status. -/
theorem OnePass.idle (h : OnePass a w state pub) (ha : w.artifact? a = some view)
    (hs : view.status = .draft ∨ view.status = .ready ∨ view.status = .outOfDate ∨ view.status = .failed) (q : P) :
    ¬ (state q).Holds := by
  intro hq
  obtain ⟨view', ha', hadm⟩ := h.status q hq
  cases ha.symm.trans ha'
  have := admits_held hq hadm
  grind

/-! ## What each call leaves of it -/

/-- What one call of `p` changes of the others. -/
structure Moved (p : P) (state state' : P → PassState) (pub pub' : ArtifactVersionView → Prop) : Prop where
  others : ∀ q, q ≠ p → state' q = state q
  published : ∀ v, pub v → pub' v

/-- A call that leaves the artifact and its versions. -/
theorem OnePass.quiet (h : OnePass a w state pub) (hm : Moved p state state' pub pub')
    (hartifact : w'.artifact? a = w.artifact? a) (hversions : w'.versions = w.versions) (hins : ¬ (state p).Inserted)
    (hins' : ¬ (state' p).Inserted)
    (hholds : (state' p).Holds → (state p).Holds ∧
      ∀ view, w.artifact? a = some view → (state p).Admits view.status → (state' p).Admits view.status)
    (hlisted : ∀ artifact base manifestId existing, state' p = .listed artifact base manifestId existing →
      ∀ v ∈ w.versions, v.artifactId = a → v ∈ existing) : OnePass a w' state' pub' := by
  have hback : ∀ q, (state' q).Holds → (state q).Holds := fun q hq => by
    by_cases hqp : q = p
    · subst hqp; exact (hholds hq).1
    · rwa [hm.others q hqp] at hq
  refine ⟨fun q q' hq hq' => h.single q q' (hback q hq) (hback q' hq'), ?_, ?_, ?_, ?_, ?_⟩
  · intro q hq
    obtain ⟨view, ha, hadm⟩ := h.status q (hback q hq)
    refine ⟨view, hartifact.trans ha, ?_⟩
    by_cases hqp : q = p
    · subst hqp; exact (hholds hq).2 view ha hadm
    · rwa [hm.others q hqp]
  · intro q artifact base manifestId existing hq
    rw [hversions]
    by_cases hqp : q = p
    · subst hqp; exact hlisted _ _ _ _ hq
    · rw [hm.others q hqp] at hq
      exact h.listed q _ _ _ _ hq
  · intro q artifact base v hq
    rw [hversions]
    have hqp : q ≠ p := by
      rintro rfl
      exact hins' (hq ▸ trivial)
    rw [hm.others q hqp] at hq
    exact h.inserted q _ _ _ hq
  · intro v hv hva
    rw [hversions] at hv
    rcases h.published v hv hva with hpub | ⟨q, artifact, base, hq⟩ | ⟨view, ha, hc⟩
    · exact .inl (hm.published v hpub)
    · have hqp : q ≠ p := by
        rintro rfl
        exact hins (hq ▸ trivial)
      exact .inr (.inl ⟨q, artifact, base, by rw [hm.others q hqp, hq]⟩)
    · exact .inr (.inr ⟨view, hartifact.trans ha, hc⟩)
  · intro view ha hs
    rw [hartifact] at ha
    simpa only [ArtifactWorld.CurrentIsHighest, hversions] using h.current view ha hs

/-- A CAS that goes through and that no pass survives, or only that of `p`, which finds its artifact as it may;
the current version of an artifact that is ready now is the highest. -/
theorem OnePass.cast {target : ArtifactStatus} {current : Option Uuid} (hm : Moved p state state' pub pub')
    (ha : w.artifact? a = some view) (hothers : ∀ q, q ≠ p → ¬ (state q).Holds)
    (hadmits : (state' p).Holds → (state' p).Admits target) (hins : ¬ (state' p).Inserted)
    (hlisted : ∀ artifact base manifestId existing, state' p ≠ .listed artifact base manifestId existing)
    (hpub : ∀ v ∈ w.versions, v.artifactId = a → pub' v ∨ target = .cancelled)
    (hcurrent : target = .ready ∨ target = .outOfDate →
      w.CurrentIsHighest a (ArtifactWorld.castArtifact target current view)) :
    OnePass a (w.cast a target current) state' pub' := by
  have hp : ∀ q, (state' q).Holds → q = p := fun q hq => by
    by_contra hqp
    exact hothers q hqp (by rwa [hm.others q hqp] at hq)
  refine ⟨fun q q' hq hq' => (hp q hq).trans (hp q' hq').symm, ?_, ?_, ?_, ?_, ?_⟩
  · intro q hq
    obtain rfl := hp q hq
    exact ⟨_, artifact?_cast_self ha, hadmits hq⟩
  · intro q artifact base manifestId existing hq
    obtain rfl := hp q (hq ▸ .inl trivial)
    exact absurd hq (hlisted _ _ _ _)
  · intro q artifact base v hq
    obtain rfl := hp q (holds_of_inserted hq)
    exact absurd (hq ▸ trivial) hins
  · intro v hv hva
    rcases hpub v hv hva with hpub | rfl
    · exact .inl hpub
    · exact .inr (.inr ⟨_, artifact?_cast_self ha, rfl⟩)
  · intro view' ha' hs
    cases (artifact?_cast_self ha).symm.trans ha'
    exact hcurrent hs

/-- Where the artifact is cancelled, it is left so. -/
theorem OnePass.cancelled (h : OnePass a w state pub) (hm : Moved p state state' pub pub')
    (ha : w'.artifact? a = some view) (hs : view.status = .cancelled) (hversions : w'.versions = w.versions)
    (hholds : (state' p).Holds → (state p).Holds) (hins : ¬ (state' p).Inserted)
    (hlisted : ∀ artifact base manifestId existing, state' p ≠ .listed artifact base manifestId existing) :
    OnePass a w' state' pub' := by
  have hback : ∀ q, (state' q).Holds → (state q).Holds := fun q hq => by
    by_cases hqp : q = p
    · subst hqp; exact hholds hq
    · rwa [hm.others q hqp] at hq
  refine ⟨fun q q' hq hq' => h.single q q' (hback q hq) (hback q' hq'), ?_, ?_, ?_, ?_, ?_⟩
  · exact fun _ _ => ⟨view, ha, hs ▸ admits_cancelled⟩
  · intro q artifact base manifestId existing hq
    have hqp : q ≠ p := by
      rintro rfl
      exact hlisted _ _ _ _ hq
    rw [hm.others q hqp] at hq
    rw [hversions]
    exact h.listed q _ _ _ _ hq
  · intro q artifact base v hq
    have hqp : q ≠ p := by
      rintro rfl
      exact hins (hq ▸ trivial)
    rw [hm.others q hqp] at hq
    rw [hversions]
    exact h.inserted q _ _ _ hq
  · exact fun _ _ _ => .inr (.inr ⟨view, ha, hs⟩)
  · intro view' ha' hs'
    cases ha.symm.trans ha'
    rcases hs' with hs' | hs' <;> cases hs.symm.trans hs'

/-- The version of a pass has the highest number. -/
theorem OnePass.insert (h : OnePass a w state pub) (hm : Moved p state state' pub pub') {artifact : ArtifactView}
    {base : Option ArtifactVersionView} {manifestId : Uuid} {existing : List ArtifactVersionView} {version : ArtifactVersionView}
    (hp : state p = .listed artifact base manifestId existing) (hp' : state' p = .inserted artifact base version)
    (hartifact : version.artifactId = a) (hnumber : version.versionNumber = nextVersionNumber existing) :
    OnePass a { w with versions := w.versions ++ [version] } state' pub' := by
  have hholds : (state p).Holds := hp ▸ .inl trivial
  have hback : ∀ q, (state' q).Holds → (state q).Holds := fun q hq => by
    by_cases hqp : q = p
    · subst hqp; exact hholds
    · rwa [hm.others q hqp] at hq
  have honly : ∀ q, (state' q).Holds → q = p := fun q hq => h.single q p (hback q hq) hholds
  obtain ⟨view, ha, hadm⟩ := h.status p hholds
  rw [hp] at hadm
  refine ⟨fun q q' hq hq' => (honly q hq).trans (honly q' hq').symm, ?_, ?_, ?_, ?_, ?_⟩
  · intro q hq
    obtain rfl := honly q hq
    exact ⟨view, ha, by rw [hp']; exact hadm⟩
  · intro q artifact base manifestId existing hq
    obtain rfl := honly q (hq ▸ .inl trivial)
    cases hp'.symm.trans hq
  · intro q artifact' base' v hq
    obtain rfl := honly q (holds_of_inserted hq)
    cases hp'.symm.trans hq
    refine ⟨by simp, hartifact, fun v' hv' hva' => ?_⟩
    rcases List.mem_append.1 hv' with hv' | hv'
    · rw [hnumber]
      exact (lt_nextVersionNumber (h.listed q _ _ _ _ hp v' hv' hva')).le
    · rw [List.mem_singleton.1 hv']
  · intro v hv hva
    rcases List.mem_append.1 hv with hv | hv
    · rcases h.published v hv hva with hpub | ⟨q, artifact', base', hq⟩ | hc
      · exact .inl (hm.published v hpub)
      · obtain rfl := h.single q p (holds_of_inserted hq) hholds
        cases hp.symm.trans hq
      · exact .inr (.inr hc)
    · exact .inr (.inl ⟨p, artifact, base, by rw [hp', List.mem_singleton.1 hv]⟩)
  · intro view' ha' hs
    cases ha.symm.trans ha'
    rcases hadm with hadm | hadm <;> rcases hs with hs | hs <;> cases hadm.symm.trans hs

end Passes

/-! ## One step of a run -/

section Steps

variable {P : Type} [DecidableEq P] {requests : P → ArtifactUse} {a : Uuid} {r : ArtifactRun P} {p : P} {e : Uuid}

/-- A CAS to ready that went through. -/
def publishes (ev : Event P ArtifactCall ArtifactAnswer) : Bool :=
  match ev.call, ev.answer with
  | .casStatus _ _ .ready _, .ok (some _) => true
  | _, _ => false

/-- The version was inserted by a pass whose CAS to ready made it current. -/
def Published (a : Uuid) (r : ArtifactRun P) (v : ArtifactVersionView) : Prop :=
  ∃ p view, (⟨p, .createVersion v, .ok ()⟩ : Event P ArtifactCall ArtifactAnswer) ∈ r.trace ∧
    (⟨p, .casStatus a .validating .ready (some v.versionId), .ok (some view)⟩ : Event P ArtifactCall ArtifactAnswer) ∈ r.trace

/-- The run so far leaves at most one pass at work. -/
abbrev OnePassRun (requests : P → ArtifactUse) (a : Uuid) (r : ArtifactRun P) : Prop :=
  OnePass a r.shared (progress requests r) (Published a r)

theorem moved_call (requests : P → ArtifactUse) (a : Uuid) (r : ArtifactRun P) (p : P) (c : ArtifactCall) (e : Uuid) :
    Moved p (progress requests r) (progress requests (r.call ArtifactCall.exec p c e))
    (Published a r) (Published a (r.call ArtifactCall.exec p c e)) where
  others _ hq := progress_other r hq c e
  published := fun _ ⟨q, view, hv, hready⟩ => ⟨q, view, List.mem_cons_of_mem _ hv, List.mem_cons_of_mem _ hready⟩

theorem moved_not_inserted {use : ArtifactUse} {st : PassState} {target : ArtifactStatus} {updated : Option ArtifactView} :
    ¬ (st.moved use target updated).Inserted := by
  cases target with
  | generating => cases updated <;> cases st <;> exact id
  | validating => cases st <;> exact id
  | ready => cases updated <;> cases st <;> exact id
  | draft | failed | cancelled | outOfDate => exact id

theorem casStatus_not_inserted {use : ArtifactUse} {st : PassState} {artifactId : Uuid} {expected target : ArtifactStatus}
    {current : Option Uuid} {answer : ArtifactAnswer (.casStatus artifactId expected target current)} :
    ¬ (st.step use (.casStatus artifactId expected target current) answer).Inserted := by
  cases answer <;> exact moved_not_inserted

/-- Only an insert leads to where the CAS to ready comes next. -/
theorem step_inserted {use : ArtifactUse} {st : PassState} {c : ArtifactCall} {answer : ArtifactAnswer c}
    {artifact : ArtifactView} {base : Option ArtifactVersionView} {v : ArtifactVersionView}
    (h : st.step use c answer = .inserted artifact base v) :
    (⟨c, answer⟩ : Σ c, ArtifactAnswer c) = ⟨.createVersion v, .ok ()⟩ ∨ st = .inserted artifact base v := by
  cases c with
  | getArtifact artifactId =>
    cases answer with
    | error x => exact .inr h
    | ok view =>
      by_cases hrun : st.Running
      · cases (readArtifact_running hrun).symm.trans h
      · have h' := (readArtifact_other hrun).symm.trans h
        split at h' <;> cases h'
  | listVersions artifactId =>
    cases answer with
    | error x => exact .inr h
    | ok existing => cases st <;> first | exact .inr h | cases h
  | getVersion artifactId number =>
    cases answer with
    | error x => exact .inr h
    | ok base => cases base <;> cases st <;> first | exact .inr h | cases h
  | freezeManifest =>
    cases answer with
    | error x => exact .inr h
    | ok manifestId => cases st <;> first | exact .inr h | cases h
  | createVersion version =>
    cases answer with
    | error x => exact .inr h
    | ok u => cases st <;> first | exact .inr h | (cases h; exact .inl rfl)
  | casStatus artifactId expected target current =>
    exact absurd ((congrArg PassState.Inserted h).mpr trivial) casStatus_not_inserted

/-- A process that is about to publish inserted its version. -/
theorem event_of_inserted {artifact : ArtifactView} {base : Option ArtifactVersionView} {v : ArtifactVersionView}
    (h : progress requests r p = .inserted artifact base v) :
    (⟨p, .createVersion v, .ok ()⟩ : Event P ArtifactCall ArtifactAnswer) ∈ r.trace := by
  refine mem_own.1 ?_
  have hafter : (requests p).automaton.after (own p r.trace) = .inserted artifact base v := h
  generalize own p r.trace = t at hafter ⊢
  induction t with
  | nil => cases hafter
  | cons ev t ih =>
    rcases step_inserted hafter with hev | hst
    · exact hev ▸ List.mem_cons_self
    · exact List.mem_cons_of_mem _ (ih hst)

/-- A call that leaves the artifact and its versions, and takes `p` from `st` to `st'`. -/
theorem onePass_quiet (h : OnePassRun requests a r) {c : ArtifactCall} (st st' : PassState)
    (hst : progress requests r p = st) (hst' : st.step (requests p) c (c.exec e r.shared).1 = st')
    (hartifact : (c.exec e r.shared).2.artifact? a = r.shared.artifact? a)
    (hversions : (c.exec e r.shared).2.versions = r.shared.versions) (hins : ¬ st.Inserted) (hins' : ¬ st'.Inserted)
    (hholds : st'.Holds → st.Holds ∧ ∀ view, r.shared.artifact? a = some view → st.Admits view.status → st'.Admits view.status)
    (hlisted : ∀ artifact base manifestId existing, st' = .listed artifact base manifestId existing →
      ∀ v ∈ r.shared.versions, v.artifactId = a → v ∈ existing) : OnePassRun requests a (r.call ArtifactCall.exec p c e) := by
  subst hst hst'
  refine OnePass.quiet h (moved_call requests a r p c e) hartifact hversions hins ?_ ?_ ?_ <;> simp only [progress_self]
  · exact hins'
  · exact hholds
  · exact hlisted

theorem not_holds {st : PassState} (h : st.Resting ∨ ∃ artifact existing, st = .based artifact existing) : ¬ st.Holds := by
  rintro (hrun | ⟨current, rfl⟩)
  · rcases h with h | ⟨_, _, rfl⟩
    · cases st <;> first | exact hrun | exact h
    · exact hrun
  · rcases h with h | ⟨_, _, h⟩ <;> cases h

theorem idle_not_holds : ¬ PassState.idle.Holds := not_holds (.inl trivial)

theorem onePass_getArtifact (h : OnePassRun requests a r) (hins : ¬ (progress requests r p).Inserted) {artifactId : Uuid} :
    OnePassRun requests a (r.call ArtifactCall.exec p (.getArtifact artifactId) e) := by
  by_cases hrun : (progress requests r p).Running
  · refine onePass_quiet h _ _ rfl (readArtifact_running hrun) rfl rfl hins id (fun _ => ⟨.inl hrun, fun _ _ hadm => ?_⟩)
      (fun _ _ _ _ he => by cases he)
    exact admits_held (.inl hrun) hadm
  · refine onePass_quiet h _ _ rfl (readArtifact_other hrun) rfl rfl hins ?_ (fun hh => ?_) ?_
    · cases r.shared.artifact? artifactId <;> exact id
    · refine absurd hh (not_holds (.inl ?_))
      cases r.shared.artifact? artifactId <;> trivial
    · intro _ _ _ _ he
      split at he <;> cases he

theorem onePass_listVersions (h : OnePassRun requests a r)
    (hst : (∃ artifact, progress requests r p = .seen artifact) ∨
      ∃ artifact base manifestId, progress requests r p = .validating artifact base manifestId) :
    OnePassRun requests a (r.call ArtifactCall.exec p (.listVersions a) e) := by
  rcases hst with ⟨artifact, hst⟩ | ⟨artifact, base, manifestId, hst⟩
  · refine onePass_quiet h _ (.based artifact (r.shared.versionsOf a)) hst rfl rfl rfl id id (fun hh => ?_)
      (fun _ _ _ _ he => by cases he)
    exact absurd hh (not_holds (.inr ⟨_, _, rfl⟩))
  · refine onePass_quiet h _ (.listed artifact base manifestId (r.shared.versionsOf a)) hst rfl rfl rfl id id
      (fun _ => ⟨.inl trivial, fun _ _ hadm => hadm⟩) fun _ _ _ _ he v hv hva => ?_
    cases he
    exact mem_versionsOf.2 ⟨hv, hva⟩

theorem onePass_getVersion (h : OnePassRun requests a r) {artifactId : Uuid} {number : Nat} {artifact : ArtifactView}
    (hst : progress requests r p = .won artifact (some number)) :
    OnePassRun requests a (r.call ArtifactCall.exec p (.getVersion artifactId number) e) := by
  refine onePass_quiet h _ ((PassState.won artifact (some number)).readBase (r.shared.version? artifactId number)) hst rfl
    rfl rfl id ?_ (fun _ => ⟨.inl trivial, fun _ _ hadm => ?_⟩) ?_
  · cases r.shared.version? artifactId number <;> exact id
  · cases r.shared.version? artifactId number <;> exact hadm
  · intro _ _ _ _ he
    cases hbase : r.shared.version? artifactId number <;> rw [hbase] at he <;> cases he

theorem onePass_freezeManifest (h : OnePassRun requests a r) {notebookId actorId : Uuid} {config : Dict}
    {items : List ManifestItem} {parent : Option Uuid}
    (hst : (∃ artifact number, progress requests r p = .won artifact number) ∨
      ∃ artifact base, progress requests r p = .resolved artifact base) :
    OnePassRun requests a (r.call ArtifactCall.exec p (.freezeManifest notebookId actorId config items parent) e) := by
  rcases freezeManifest_cases (w := r.shared) ⟨e, notebookId, actorId, "studio_generation", config, items, parent⟩ with
    ⟨-, hf⟩ | ⟨-, name, text, hf⟩
  · have hexec : (ArtifactCall.freezeManifest notebookId actorId config items parent).exec e r.shared = (.ok e, _) := hf
    rcases hst with ⟨artifact, number, hst⟩ | ⟨artifact, base, hst⟩
    · exact onePass_quiet h _ (.frozen artifact none e) hst (by rw [hexec]; rfl) (by rw [hexec]; rfl) (by rw [hexec]) id id
        (fun _ => ⟨.inl trivial, fun _ _ hadm => hadm⟩) (fun _ _ _ _ he => by cases he)
    · exact onePass_quiet h _ (.frozen artifact (some base) e) hst (by rw [hexec]; rfl) (by rw [hexec]; rfl) (by rw [hexec]) id
        id (fun _ => ⟨.inl trivial, fun _ _ hadm => hadm⟩) (fun _ _ _ _ he => by cases he)
  · have hexec : (ArtifactCall.freezeManifest notebookId actorId config items parent).exec e r.shared =
        (.error (.raised name text), r.shared) := hf
    rcases hst with ⟨artifact, number, hst⟩ | ⟨artifact, base, hst⟩
    · exact onePass_quiet h _ (.won artifact number) hst (by rw [hexec]; rfl) (by rw [hexec]) (by rw [hexec]) id id
        (fun _ => ⟨.inl trivial, fun _ _ hadm => hadm⟩) (fun _ _ _ _ he => by cases he)
    · exact onePass_quiet h _ (.resolved artifact base) hst (by rw [hexec]; rfl) (by rw [hexec]) (by rw [hexec]) id id
        (fun _ => ⟨.inl trivial, fun _ _ hadm => hadm⟩) (fun _ _ _ _ he => by cases he)

theorem onePass_createVersion (h : OnePassRun requests a r) {version : ArtifactVersionView} {artifact : ArtifactView}
    {base : Option ArtifactVersionView} {existing : List ArtifactVersionView} (hartifact : version.artifactId = a)
    (hst : progress requests r p = .listed artifact base version.manifestId existing)
    (hnumber : version.versionNumber = nextVersionNumber existing) :
    OnePassRun requests a (r.call ArtifactCall.exec p (.createVersion version) e) := by
  rcases createVersion_cases (w := r.shared) version with ⟨-, hc⟩ | ⟨-, name, text, hc⟩
  · have hexec : (ArtifactCall.createVersion version).exec e r.shared = (.ok (), _) := hc
    have hst' : progress requests (r.call ArtifactCall.exec p (.createVersion version) e) p = .inserted artifact base version := by
      rw [progress_self, hexec, hst]
      rfl
    have hinsert := OnePass.insert h (moved_call requests a r p (.createVersion version) e) hst hst' hartifact hnumber
    simpa only [OnePassRun, Run.call_shared, hexec] using hinsert
  · have hexec : (ArtifactCall.createVersion version).exec e r.shared = (.error (.raised name text), r.shared) := hc
    refine onePass_quiet h _ (.listed artifact base version.manifestId existing) hst (by rw [hexec]; rfl) (by rw [hexec])
      (by rw [hexec]) id id (fun _ => ⟨.inl trivial, fun _ _ hadm => hadm⟩) fun _ _ _ _ he v hv hva => ?_
    cases he
    exact h.listed p _ _ _ _ hst v hv hva

/-! ### The CAS of a pass -/

/-- A process that may start a pass is in none. -/
theorem not_holds_of_starts {use : ArtifactUse} {st : PassState} {artifact : ArtifactView} (h : use.Starts st artifact) :
    ¬ st.Holds ∧ ∀ updated, st.start use (some updated) = .won artifact (use.baseNumber artifact (match st with
      | .based _ existing => existing
      | _ => [])) := by
  cases use with
  | generate =>
    obtain ⟨rfl, -⟩ := h
    exact ⟨not_holds (.inl trivial), fun _ => rfl⟩
  | edit =>
    obtain ⟨⟨existing, rfl⟩, -⟩ := h
    exact ⟨not_holds (.inr ⟨_, _, rfl⟩), fun _ => rfl⟩
  | regenerate =>
    obtain ⟨rfl, -⟩ := h
    exact ⟨not_holds (.inl trivial), fun _ => rfl⟩
  | cancel | markOutOfDate => cases h

theorem starts_status {use : ArtifactUse} {st : PassState} {artifact : ArtifactView} (h : use.Starts st artifact) :
    artifact.status = .draft ∨ artifact.status = .ready ∨ artifact.status = .outOfDate := by
  cases use with
  | generate => exact .inl h.2
  | edit => exact .inr h.2.2.1
  | regenerate => exact .inr h.2
  | cancel | markOutOfDate => cases h

/-- A CAS that does not go through. -/
theorem onePass_lostCas (h : OnePassRun requests a r) {expected target : ArtifactStatus} {current : Option Uuid}
    (hlost : ∀ view, r.shared.artifact? a = some view → view.status ≠ expected)
    (hmoves : (requests p).Moves (progress requests r p) expected current target) :
    OnePassRun requests a (r.call ArtifactCall.exec p (.casStatus a expected target current) e) := by
  have hexec : (ArtifactCall.casStatus a expected target current).exec e r.shared = (.ok none, r.shared) := by
    rcases casStatus_cases (w := r.shared) with ⟨view, ha, hs, -⟩ | ⟨-, hc⟩
    · exact absurd hs (hlost view ha)
    · exact congrArg (Prod.map Except.ok id) hc
  have hidle : ¬ (progress requests r p).Inserted → (progress requests r p).moved (requests p) target none = .idle →
      OnePassRun requests a (r.call ArtifactCall.exec p (.casStatus a expected target current) e) := fun hins hst' =>
    onePass_quiet h _ .idle rfl (by rw [hexec]; exact hst') (by rw [hexec]) (by rw [hexec]) hins id
      (fun hh => absurd hh idle_not_holds) fun _ _ _ _ he => by cases he
  cases target with
  | draft => cases hmoves
  | generating =>
    obtain ⟨-, artifact, hstarts, -⟩ := hmoves
    exact hidle (fun hins => (not_holds_of_starts hstarts).1 (.inl (inserted_running hins))) rfl
  | validating =>
    obtain ⟨-, rfl, artifact, base, manifestId, hst⟩ := hmoves
    refine onePass_quiet h _ (.validating artifact base manifestId) hst (by rw [hexec]; rfl) (by rw [hexec]) (by rw [hexec])
      id id (fun _ => ⟨.inl trivial, fun view ha hadm => ?_⟩) fun _ _ _ _ he => by cases he
    exact .inr (hadm.resolve_left (hlost view ha))
  | ready =>
    obtain ⟨rfl, artifact, base, version, hst, -⟩ := hmoves
    obtain ⟨view, ha, hadm⟩ := h.status p (holds_of_inserted hst)
    rw [hst] at hadm
    have hst' : progress requests (r.call ArtifactCall.exec p (.casStatus a .validating .ready current) e) p = .lost artifact := by
      rw [progress_self, hexec, hst]
      rfl
    have ha' : (r.call ArtifactCall.exec p (.casStatus a .validating .ready current) e).shared.artifact? a = some view := by
      rw [Run.call_shared, hexec]
      exact ha
    refine OnePass.cancelled h (moved_call requests a r p _ e) ha' (hadm.resolve_left (hlost view ha)) ?_
      (fun _ => holds_of_inserted hst) ?_ ?_
    · rw [Run.call_shared, hexec]
    · rw [hst']; exact id
    · rw [hst']; exact fun _ _ _ _ he => by cases he
  | failed =>
    obtain ⟨-, artifact, hst, -⟩ := hmoves
    exact hidle (hst ▸ id) rfl
  | cancelled | outOfDate =>
    obtain ⟨-, artifact, hst, -⟩ := hmoves
    exact hidle (hst ▸ id) rfl

/-- What a CAS of `p` that goes through leaves. -/
structure WonCas (requests : P → ArtifactUse) (a : Uuid) (r r' : ArtifactRun P) (p : P) (expected target : ArtifactStatus)
    (current : Option Uuid) (view : ArtifactView) : Prop where
  found : r.shared.artifact? a = some view
  status : view.status = expected
  shared : r'.shared = r.shared.cast a target current
  moved : Moved p (progress requests r) (progress requests r') (Published a r) (Published a r')
  progress : progress requests r' p =
    (progress requests r p).moved (requests p) target (some (ArtifactWorld.castArtifact target current view))
  made : (⟨p, .casStatus a expected target current, .ok (some (ArtifactWorld.castArtifact target current view))⟩ :
    Event P ArtifactCall ArtifactAnswer) ∈ r'.trace
  kept : ∀ ev ∈ r.trace, ev ∈ r'.trace

theorem wonCas {expected target : ArtifactStatus} {current : Option Uuid} {view : ArtifactView}
    (ha : r.shared.artifact? a = some view) (hs : view.status = expected) :
    WonCas requests a r (r.call ArtifactCall.exec p (.casStatus a expected target current) e) p expected target current view := by
  have hexec : (ArtifactCall.casStatus a expected target current).exec e r.shared =
      (.ok (some (ArtifactWorld.castArtifact target current view)), r.shared.cast a target current) :=
    congrArg (Prod.map Except.ok id) (casStatus_of_status ha hs)
  refine ⟨ha, hs, ?_, moved_call requests a r p _ e, ?_, ?_, fun ev hev => List.mem_cons_of_mem _ hev⟩
  · rw [Run.call_shared, hexec]
  · rw [progress_self, hexec]
    rfl
  · rw [Run.call_trace, hexec]
    exact List.mem_cons_self

section Won

variable {r' : ArtifactRun P} {expected : ArtifactStatus} {current : Option Uuid} {view : ArtifactView}

/-- What no pass is about to publish was published. -/
theorem WonCas.published {target : ArtifactStatus} (hw : WonCas requests a r r' p expected target current view)
    (h : OnePassRun requests a r) (hexpected : expected ≠ .cancelled) (hnone : ∀ q, ¬ (Studio.progress requests r q).Inserted) :
    ∀ v ∈ r.shared.versions, v.artifactId = a → Published a r' v ∨ target = .cancelled := by
  intro v hv hva
  rcases h.published v hv hva with hpub | ⟨q, artifact, base, hq⟩ | ⟨view', ha', hc⟩
  · exact .inl (hw.moved.published v hpub)
  · exact absurd (hq ▸ trivial) (hnone q)
  · cases hw.found.symm.trans ha'
    exact absurd (hw.status.symm.trans hc) hexpected

theorem onePass_generating (h : OnePassRun requests a r) (hw : WonCas requests a r r' p expected .generating current view)
    {artifact : ArtifactView} (hstarts : (requests p).Starts (progress requests r p) artifact)
    (hexpected : expected = artifact.status) : OnePassRun requests a r' := by
  have hstatus : expected = .draft ∨ expected = .ready ∨ expected = .outOfDate := hexpected ▸ starts_status hstarts
  have hidle := h.idle hw.found (by rw [hw.status]; tauto)
  have hp := hw.progress.trans ((not_holds_of_starts hstarts).2 (ArtifactWorld.castArtifact .generating current view))
  rw [OnePassRun, hw.shared]
  refine OnePass.cast hw.moved hw.found (fun q _ => hidle q) (fun _ => ?_) ?_ ?_ (hw.published h ?_ fun q hq => ?_)
    (fun he => absurd he (by decide))
  · rw [hp]; exact .inl rfl
  · rw [hp]; exact id
  · rw [hp]; exact fun _ _ _ _ he => by cases he
  · rcases hstatus with rfl | rfl | rfl <;> decide
  · exact hidle q (.inl (inserted_running hq))

theorem onePass_validating (h : OnePassRun requests a r) (hw : WonCas requests a r r' p .generating .validating current view)
    {artifact : ArtifactView} {base : Option ArtifactVersionView} {manifestId : Uuid}
    (hst : progress requests r p = .frozen artifact base manifestId) : OnePassRun requests a r' := by
  have hholds : (progress requests r p).Holds := hst ▸ .inl trivial
  have hp : progress requests r' p = .validating artifact base manifestId := by rw [hw.progress, hst]; rfl
  rw [OnePassRun, hw.shared]
  refine OnePass.cast hw.moved hw.found (fun q hq hq' => hq (h.single q p hq' hholds)) (fun _ => ?_) ?_ ?_
    (hw.published h (by decide) fun q hq => ?_) (fun he => absurd he (by decide))
  · rw [hp]; exact .inl rfl
  · rw [hp]; exact id
  · rw [hp]; exact fun _ _ _ _ he => by cases he
  · obtain rfl := h.single q p (.inl (inserted_running hq)) hholds
    rw [hst] at hq
    exact hq

theorem onePass_ready (h : OnePassRun requests a r) {artifact : ArtifactView} {base : Option ArtifactVersionView}
    {version : ArtifactVersionView} (hw : WonCas requests a r r' p .validating .ready (some version.versionId) view)
    (hst : progress requests r p = .inserted artifact base version) : OnePassRun requests a r' := by
  have hholds : (progress requests r p).Holds := holds_of_inserted hst
  have hp : progress requests r' p = .idle := by rw [hw.progress, hst]; rfl
  obtain ⟨hversion, hva, hhighest⟩ := h.inserted p _ _ _ hst
  rw [OnePassRun, hw.shared]
  refine OnePass.cast hw.moved hw.found (fun q hq hq' => hq (h.single q p hq' hholds)) (fun hh => ?_) ?_ ?_
    (fun v hv hva => .inl ?_) fun _ => ⟨version, hversion, hva, rfl, hhighest⟩
  · rw [hp] at hh
    exact absurd hh idle_not_holds
  · rw [hp]; exact id
  · rw [hp]; exact fun _ _ _ _ he => by cases he
  · rcases h.published v hv hva with hpub | ⟨q, artifact', base', hq⟩ | ⟨view', ha', hc⟩
    · exact hw.moved.published v hpub
    · obtain rfl := h.single q p (holds_of_inserted hq) hholds
      cases hst.symm.trans hq
      exact ⟨q, _, hw.kept _ (event_of_inserted hst), hw.made⟩
    · cases hw.found.symm.trans ha'
      cases hw.status.symm.trans hc

theorem onePass_failed (h : OnePassRun requests a r) (hw : WonCas requests a r r' p expected .failed current view)
    {artifact : ArtifactView} (hst : progress requests r p = .failing (some artifact)) (hexpected : expected ≠ .cancelled) :
    OnePassRun requests a r' := by
  have hholds : (progress requests r p).Holds := .inr ⟨_, hst⟩
  have hp : progress requests r' p = .idle := hw.progress
  rw [OnePassRun, hw.shared]
  refine OnePass.cast hw.moved hw.found (fun q hq hq' => hq (h.single q p hq' hholds)) (fun hh => ?_) ?_ ?_
    (hw.published h hexpected fun q hq => ?_) (fun he => absurd he (by decide))
  · rw [hp] at hh
    exact absurd hh idle_not_holds
  · rw [hp]; exact id
  · rw [hp]; exact fun _ _ _ _ he => by cases he
  · obtain rfl := h.single q p (.inl (inserted_running hq)) hholds
    rw [hst] at hq
    exact hq

theorem onePass_cancelled (h : OnePassRun requests a r) (hw : WonCas requests a r r' p expected .cancelled current view) :
    OnePassRun requests a r' := by
  have hp : progress requests r' p = .idle := hw.progress
  rw [OnePassRun, hw.shared]
  refine OnePass.cancelled h hw.moved (artifact?_cast_self hw.found) rfl rfl (fun hh => ?_) ?_ ?_
  · rw [hp] at hh
    exact absurd hh idle_not_holds
  · rw [hp]; exact id
  · rw [hp]; exact fun _ _ _ _ he => by cases he

theorem onePass_outOfDate (h : OnePassRun requests a r) (hw : WonCas requests a r r' p .ready .outOfDate none view) :
    OnePassRun requests a r' := by
  have hidle := h.idle hw.found (.inr (.inl hw.status))
  have hp : progress requests r' p = .idle := hw.progress
  rw [OnePassRun, hw.shared]
  refine OnePass.cast hw.moved hw.found (fun q _ => hidle q) (fun hh => ?_) ?_ ?_
    (hw.published h (by decide) fun q hq => hidle q (.inl (inserted_running hq))) fun _ => h.current view hw.found (.inl hw.status)
  · rw [hp] at hh
    exact absurd hh idle_not_holds
  · rw [hp]; exact id
  · rw [hp]; exact fun _ _ _ _ he => by cases he

theorem allowed_failed {status : ArtifactStatus} (h : artifactTransitionAllowed status .failed) : status ≠ .cancelled := by
  rintro rfl
  exact absurd h (by decide)

theorem allowed_outOfDate {status : ArtifactStatus} (h : artifactTransitionAllowed status .outOfDate) : status = .ready := by
  cases status <;> first | rfl | exact absurd h (by decide)

/-- A CAS that goes through. -/
theorem onePass_wonCas (h : OnePassRun requests a r) {target : ArtifactStatus}
    (hw : WonCas requests a r r' p expected target current view)
    (hmoves : (requests p).Moves (progress requests r p) expected current target) : OnePassRun requests a r' := by
  cases target with
  | draft => cases hmoves
  | generating =>
    obtain ⟨-, artifact, hstarts, hexpected⟩ := hmoves
    exact onePass_generating h hw hstarts hexpected
  | validating =>
    obtain ⟨-, rfl, artifact, base, manifestId, hst⟩ := hmoves
    exact onePass_validating h hw hst
  | ready =>
    obtain ⟨rfl, artifact, base, version, hst, rfl⟩ := hmoves
    exact onePass_ready h hw hst
  | failed =>
    obtain ⟨-, artifact, hst, hexpected, hallowed⟩ := hmoves
    exact onePass_failed h hw hst (hexpected ▸ allowed_failed hallowed)
  | cancelled => exact onePass_cancelled h hw
  | outOfDate =>
    obtain ⟨rfl, artifact, hst, hexpected, hallowed⟩ := hmoves
    obtain rfl := hexpected.trans (allowed_outOfDate hallowed)
    exact onePass_outOfDate h hw

end Won

/-- **Every call leaves at most one pass at work.** -/
theorem onePass_step (hreq : (requests p).artifactId = a) (h : OnePassRun requests a r) {c : ArtifactCall}
    (hallows : (requests p).Allows (progress requests r p) c) : OnePassRun requests a (r.call ArtifactCall.exec p c e) := by
  cases c with
  | getArtifact artifactId => exact onePass_getArtifact h hallows.2
  | listVersions artifactId =>
    obtain ⟨rfl, hst⟩ := hallows
    exact hreq ▸ onePass_listVersions (hreq ▸ h) hst
  | getVersion artifactId number =>
    obtain ⟨-, artifact, hst⟩ := hallows
    exact onePass_getVersion h hst
  | freezeManifest notebookId actorId config items parent =>
    refine onePass_freezeManifest h ?_
    rcases hallows with ⟨artifact, hst, -⟩ | ⟨artifact, base, hst, -⟩
    · exact .inl ⟨artifact, none, hst⟩
    · exact .inr ⟨artifact, base, hst⟩
  | createVersion version =>
    obtain ⟨hartifact, artifact, base, existing, hst, hnumber⟩ := hallows
    exact onePass_createVersion h (hartifact.trans hreq) hst hnumber
  | casStatus artifactId expected target current =>
    obtain ⟨rfl, hmoves⟩ := hallows
    rw [hreq]
    rcases @casStatus_cases r.shared a expected target current with ⟨view, ha, hs, -⟩ | ⟨hlost, -⟩
    · exact onePass_wonCas h (wonCas ha hs) hmoves
    · exact onePass_lostCas h hlost hmoves

end Steps

/-! ## Runs -/

section Runs

variable {P : Type} [DecidableEq P] {requests : P → ArtifactUse} {a : Uuid} {r : ArtifactRun P} {p : P} {e : Uuid}
  {cond : P → ArtifactCall → Uuid → ArtifactRun P → Prop}

/-- The artifact, if it is there, was just created. -/
structure Created (a : Uuid) (w : ArtifactWorld) : Prop where
  artifact : ∀ view, w.artifact? a = some view →
    view.status = .draft ∧ view.currentVersionId = none ∧ view.etag = toString view.revision
  versions : ∀ v ∈ w.versions, v.artifactId ≠ a

theorem progress_start (h : r.trace = []) (p : P) : progress requests r p = .idle := by
  show (requests p).automaton.after (own p r.trace) = _
  rw [h]
  rfl

/-- **At most one pass is at work, in every run.** -/
theorem onePass_runs (hreq : ∀ p, (requests p).artifactId = a) (h : ArtifactRuns requests (Created a) cond r) :
    OnePassRun requests a r := by
  refine Reach.invariant (I := OnePassRun requests a) ?_ ?_ h
  · rintro r ⟨hinit, htrace⟩
    have hidle : ∀ p, progress requests r p = .idle := progress_start htrace
    refine ⟨fun p q hp => ?_, fun p hp => ?_, fun p _ _ _ _ hp => ?_, fun p _ _ _ hp => ?_, ?_, ?_⟩
    · exact absurd (hidle p ▸ hp) idle_not_holds
    · exact absurd (hidle p ▸ hp) idle_not_holds
    · cases (hidle p).symm.trans hp
    · cases (hidle p).symm.trans hp
    · exact fun v hv hva => absurd hva (hinit.versions v hv)
    · intro view ha hs
      have hdraft := (hinit.artifact view ha).1
      rcases hs with hs | hs <;> cases hdraft.symm.trans hs
  · rintro r r' - hi ⟨p, c, e, -, hallows⟩
    exact onePass_step (hreq p) hi hallows

/-- No cancel comes between the CAS to generating of a pass that inserts a version and its CAS to ready: an
insert that is admitted finds the artifact not cancelled, and a cancel that goes through finds no pass that is
about to publish. -/
def NoCancelInPass (requests : P → ArtifactUse) (a : Uuid) : P → ArtifactCall → Uuid → ArtifactRun P → Prop
  | _, .createVersion version, _, r => r.shared.AdmitsVersion version →
    ∀ view, r.shared.artifact? a = some view → view.status ≠ .cancelled
  | _, .casStatus _ expected .cancelled _, _, r => ∀ view, r.shared.artifact? a = some view → view.status = expected →
    ∀ q, ¬ (progress requests r q).Inserted
  | _, _, _, _ => True

/-- Every version was published, or is about to be, and then nothing stands in its way. -/
structure AllPublished (requests : P → ArtifactUse) (a : Uuid) (r : ArtifactRun P) : Prop where
  published : ∀ v ∈ r.shared.versions, v.artifactId = a →
    Published a r v ∨ ∃ p artifact base, progress requests r p = .inserted artifact base v
  waiting : ∀ p, (progress requests r p).Inserted → ∃ view, r.shared.artifact? a = some view ∧ view.status = .validating

theorem allows_inserted {use : ArtifactUse} {artifact : ArtifactView} {base : Option ArtifactVersionView}
    {v : ArtifactVersionView} {c : ArtifactCall} (h : use.Allows (.inserted artifact base v) c) :
    c = .casStatus use.artifactId .validating .ready (some v.versionId) := by
  cases c with
  | getArtifact => exact absurd trivial h.2
  | listVersions => rcases h with ⟨-, ⟨_, h⟩ | ⟨_, _, _, h⟩⟩ <;> cases h
  | getVersion => obtain ⟨-, _, h⟩ := h; cases h
  | freezeManifest => rcases h with ⟨_, h, -⟩ | ⟨_, _, h, -⟩ <;> cases h
  | createVersion => obtain ⟨-, _, _, _, h, -⟩ := h; cases h
  | casStatus artifactId expected target current =>
    obtain ⟨rfl, h⟩ := h
    cases target with
    | draft => cases h
    | generating =>
      obtain ⟨-, _, h, -⟩ := h
      exact absurd (.inl trivial) (not_holds_of_starts h).1
    | validating => obtain ⟨-, -, _, _, _, h⟩ := h; cases h
    | ready =>
      obtain ⟨rfl, _, _, _, h, rfl⟩ := h
      cases h
      rfl
    | failed | cancelled | outOfDate => obtain ⟨-, _, h, -⟩ := h; cases h

theorem inserted_of {st : PassState} (h : st.Inserted) : ∃ artifact base v, st = .inserted artifact base v := by
  cases st with
  | inserted artifact base v => exact ⟨artifact, base, v, rfl⟩
  | _ => cases h

/-- Only a CAS changes a row of an artifact. -/
theorem artifacts_exec (c : ArtifactCall) (e : Uuid) (w : ArtifactWorld) :
    (∃ artifactId expected target current, c = .casStatus artifactId expected target current) ∨
      (c.exec e w).2.artifacts = w.artifacts := by
  cases c with
  | casStatus => exact .inl ⟨_, _, _, _, rfl⟩
  | getArtifact | getVersion | listVersions => exact .inr rfl
  | freezeManifest notebookId actorId config items parent =>
    rcases freezeManifest_cases (w := w) ⟨e, notebookId, actorId, "studio_generation", config, items, parent⟩ with
      ⟨-, h⟩ | ⟨-, _, _, h⟩ <;> exact .inr (congrArg (fun x => ArtifactWorld.artifacts x.2) h)
  | createVersion version =>
    rcases createVersion_cases (w := w) version with ⟨-, h⟩ | ⟨-, _, _, h⟩ <;>
      exact .inr (congrArg (fun x => ArtifactWorld.artifacts x.2) h)

/-- While a version waits to be published, no other process moves the artifact. -/
theorem waiting_step (hone : OnePassRun requests a r) (hreq : (requests p).artifactId = a) {c : ArtifactCall}
    (hallows : (requests p).Allows (progress requests r p) c) (hcond : NoCancelInPass requests a p c e r) {q : P}
    (hqp : q ≠ p) (hq : (progress requests r q).Inserted) {view : ArtifactView} (ha : r.shared.artifact? a = some view)
    (hs : view.status = .validating) : (c.exec e r.shared).2.artifact? a = some view := by
  rcases artifacts_exec c e r.shared with ⟨artifactId, expected, target, current, rfl⟩ | h
  · obtain ⟨rfl, hmoves⟩ := hallows
    have hlost : expected ≠ .validating := by
      rintro rfl
      have hother : ¬ (progress requests r p).Holds := fun hp => hqp (hone.single q p (.inl (inserted_running hq)) hp)
      cases target with
      | draft => cases hmoves
      | generating =>
        obtain ⟨-, artifact, hstarts, hexpected⟩ := hmoves
        rcases starts_status hstarts with h | h | h <;> cases hexpected.trans h
      | validating => cases hmoves.2.1
      | ready =>
        obtain ⟨-, _, _, _, hst, -⟩ := hmoves
        exact hother (holds_of_inserted hst)
      | failed =>
        obtain ⟨-, _, hst, -⟩ := hmoves
        exact hother (.inr ⟨_, hst⟩)
      | cancelled => exact hcond view ha hs q hq
      | outOfDate =>
        obtain ⟨-, artifact, -, hexpected, hallowed⟩ := hmoves
        cases hexpected.trans (allowed_outOfDate hallowed)
    rcases @casStatus_cases r.shared a expected target current with ⟨view', ha', hs', -⟩ | ⟨-, h⟩
    · cases ha.symm.trans ha'
      exact absurd (hs'.symm.trans hs) hlost
    · rw [hreq]
      exact (congrArg (fun x => ArtifactWorld.artifact? x.2 a) h).trans ha
  · rw [← ha]
    exact congrArg (fun artifacts => Table.lookup (fun a : ArtifactView => a.artifactId) artifacts a) h

theorem allPublished_step (hone : OnePassRun requests a r) (hkept : AllPublished requests a r)
    (hreq : (requests p).artifactId = a) {c : ArtifactCall} (hallows : (requests p).Allows (progress requests r p) c)
    (hcond : NoCancelInPass requests a p c e r) : AllPublished requests a (r.call ArtifactCall.exec p c e) := by
  have hm := moved_call requests a r p c e
  have hold : ∀ v ∈ r.shared.versions, v.artifactId = a → Published a (r.call ArtifactCall.exec p c e) v ∨
      ∃ q artifact base, progress requests (r.call ArtifactCall.exec p c e) q = .inserted artifact base v := by
    intro v hv hva
    rcases hkept.published v hv hva with hpub | ⟨q, artifact, base, hq⟩
    · exact .inl (hm.published v hpub)
    · by_cases hqp : q = p
      · -- the one whose version waits makes its CAS, which goes through
        subst hqp
        obtain ⟨view, ha, hs⟩ := hkept.waiting q (hq ▸ trivial)
        obtain rfl := allows_inserted (hq ▸ hallows)
        rw [hreq]
        have hw : WonCas requests a r _ q .validating .ready (some v.versionId) view := wonCas (e := e) ha hs
        exact .inl ⟨q, _, hw.kept _ (event_of_inserted hq), hw.made⟩
      · exact .inr ⟨q, artifact, base, by rw [progress_other r hqp, hq]⟩
  constructor
  · intro v hv hva
    rcases versions_exec c e r.shared with hversions | ⟨version, rfl, hc⟩
    · exact hold v (hversions ▸ hv) hva
    · have hexec : (ArtifactCall.createVersion version).exec e r.shared = (.ok (), _) := hc
      rw [Run.call_shared, hexec] at hv
      rcases List.mem_append.1 hv with hv | hv
      · exact hold v hv hva
      · obtain rfl := List.mem_singleton.1 hv
        obtain ⟨-, artifact, base, existing, hst, -⟩ := hallows
        refine .inr ⟨p, artifact, base, ?_⟩
        rw [progress_self, hexec, hst]
        rfl
  · intro q hq
    by_cases hqp : q = p
    · subst hqp
      obtain ⟨artifact, base, v, hst⟩ := inserted_of hq
      rw [progress_self] at hst
      rcases step_inserted hst with hev | hst'
      · obtain ⟨rfl, hanswer⟩ := Sigma.mk.inj_iff.1 hev
        have hadmits : r.shared.AdmitsVersion v := by
          rcases createVersion_cases (w := r.shared) v with ⟨hadm, -⟩ | ⟨-, _, _, hc⟩
          · exact hadm
          · cases (congrArg Prod.fst hc).symm.trans (eq_of_heq hanswer)
        obtain ⟨-, artifact, base, existing, hlisted, -⟩ := hallows
        obtain ⟨view, ha, hadm⟩ := hone.status q (hlisted ▸ .inl trivial)
        rw [hlisted] at hadm
        refine ⟨view, ?_, hadm.resolve_right (hcond hadmits view ha)⟩
        rcases artifacts_exec (.createVersion v) e r.shared with ⟨_, _, _, _, h⟩ | h
        · cases h
        · rw [← ha]
          exact congrArg (fun artifacts => Table.lookup (fun a : ArtifactView => a.artifactId) artifacts a) h
      · obtain rfl := allows_inserted (hst' ▸ hallows)
        exact absurd ((congrArg PassState.Inserted hst).mpr trivial) casStatus_not_inserted
    · rw [progress_other r hqp] at hq
      obtain ⟨view, ha, hs⟩ := hkept.waiting q hq
      exact ⟨view, waiting_step hone hreq hallows hcond hqp hq ha hs, hs⟩

/-- **Without such a cancel every version is published, in every run.** -/
theorem allPublished_runs (hreq : ∀ p, (requests p).artifactId = a)
    (h : ArtifactRuns requests (Created a) (NoCancelInPass requests a) r) : AllPublished requests a r := by
  refine Reach.invariant (I := AllPublished requests a) ?_ ?_ h
  · rintro r ⟨hinit, htrace⟩
    refine ⟨fun v hv hva => absurd hva (hinit.versions v hv), fun p hp => ?_⟩
    rw [progress_start htrace p] at hp
    cases hp
  · rintro r r' hr hi ⟨p, c, e, hcond, hallows⟩
    exact allPublished_step (onePass_runs hreq hr) hi (hreq p) hallows hcond

/-- `p` is at work on a pass. -/
def InFlight (requests : P → ArtifactUse) (pool : ArtifactPool P) (p : P) : Prop :=
  (∃ c k, pool.procs p = .call c k) ∧ (progress requests pool.run p).Holds

/-- **A version row exists only if its pass won**, where no cancel comes between the insert of a version and its
publication: when no pass is in flight every version of the artifact was made current by its own pass, a cancelled
artifact has no version that was not published, and the current version of a ready artifact is the highest. -/
theorem versions_published {pool : ArtifactPool P} (hreq : ∀ p, (requests p).artifactId = a)
    (h : (artifactMachine requests).Reach (Created a) (NoCancelInPass requests a) pool) :
    ((∀ p, ¬ InFlight requests pool p) →
      ∀ v ∈ pool.run.shared.versions, v.artifactId = a → Published a pool.run v) ∧
    (∀ view, pool.run.shared.artifact? a = some view → view.status = .cancelled →
      ∀ v ∈ pool.run.shared.versions, v.artifactId = a → Published a pool.run v) ∧
    (∀ view, pool.run.shared.artifact? a = some view → view.status = .ready →
      pool.run.shared.CurrentIsHighest a view) := by
  obtain ⟨hruns, hprocs⟩ := artifact_runs h
  have hpublished := allPublished_runs hreq hruns
  refine ⟨fun hquiet v hv hva => ?_, fun view ha hs v hv hva => ?_, fun view ha hs => ?_⟩
  · rcases hpublished.published v hv hva with hpub | ⟨p, artifact, base, hp⟩
    · exact hpub
    · have hobeys := hprocs p
      cases hproc : pool.procs p with
      | call c k => exact absurd ⟨⟨c, k, hproc⟩, holds_of_inserted hp⟩ (hquiet p)
      | ret x =>
        rw [hproc, hp] at hobeys
        cases x with
        | ok u => cases hobeys
        | error x => exact absurd trivial hobeys
  · rcases hpublished.published v hv hva with hpub | ⟨p, artifact, base, hp⟩
    · exact hpub
    · obtain ⟨view', ha', hs'⟩ := hpublished.waiting p (hp ▸ trivial)
      cases ha.symm.trans ha'
      cases hs.symm.trans hs'
  · exact (onePass_runs hreq hruns).current view ha (.inl hs)

end Runs

/-! ## Schedules -/

/-- The generation of a table, and a cancel. -/
def tableUses : Bool → ArtifactUse
  | false => .generate tableServices 3 2 tableRequest 9
  | true => .cancel 2

def tablePool : ArtifactPool Bool := ⟨⟨{ artifacts := [draftTable] }, []⟩, fun _ => .ret (.ok ())⟩

theorem tablePool_idle : Pool.Idle (Created 2) tablePool := by
  refine ⟨⟨⟨fun view h => ?_, by simp [tablePool]⟩, rfl⟩, fun _ => rfl⟩
  cases h
  exact ⟨rfl, rfl, by decide⟩

/-- The calls of the generation, from the first to the insert of the version, and the CAS to ready. -/
def generateMoves : List (Move Bool Uuid Unit) :=
  [.start false (), .call false 0, .call false 0, .call false 5, .call false 0, .call false 0, .call false 0, .call false 0]

/-- A cancel comes between the last two; the pass reads the artifact twice more. -/
def cancelMoves : List (Move Bool Uuid Unit) :=
  generateMoves.take 7 ++ [.start true (), .call true 0, .call true 0, .call false 0, .call false 0, .call false 0]

theorem versions_published_of_generate : ∃ pool : ArtifactPool Bool,
    (artifactMachine tableUses).Reach (Created 2) (NoCancelInPass tableUses 2) pool ∧
      ∀ view, pool.run.shared.artifact? 2 = some view → view.status = .ready → pool.run.shared.CurrentIsHighest 2 view := by
  have hreach : (artifactMachine tableUses).Reach (Created 2) (NoCancelInPass tableUses 2)
      (generateMoves.foldl (artifactMachine tableUses).move tablePool) := by
    refine Machine.reach_moves (.start tablePool_idle) ?_
    refine ⟨trivial, trivial, trivial, trivial, trivial, trivial, ?_, trivial, trivial⟩
    intro _ view hview
    cases hview
    exact nofun
  exact ⟨_, hreach, (versions_published (fun p => by cases p <;> rfl) hreach).2.2⟩

/-- A cancel after the insert leaves a version that never was current. -/
theorem cancel_leaves_version : ∃ pool : ArtifactPool Bool,
    (artifactMachine tableUses).Reach (Created 2) (fun _ _ _ _ => True) pool ∧ (∀ p, ¬ InFlight tableUses pool p) ∧
      ∃ v ∈ pool.run.shared.versions, v.artifactId = 2 ∧ ¬ Published 2 pool.run v := by
  refine ⟨cancelMoves.foldl (artifactMachine tableUses).move tablePool,
    Machine.reach_moves (.start tablePool_idle) Machine.meets_true, ?_, ?_⟩
  · rintro (_ | _) ⟨⟨c, k, hproc⟩, -⟩ <;> cases hproc
  · refine ⟨_, .head _, rfl, ?_⟩
    rintro ⟨p, view, -, hready⟩
    have hnone : (cancelMoves.foldl (artifactMachine tableUses).move tablePool).run.trace.all (!publishes ·) = true := rfl
    have := List.all_eq_true.1 hnone _ hready
    cases this

end MilpbookLM.Studio
