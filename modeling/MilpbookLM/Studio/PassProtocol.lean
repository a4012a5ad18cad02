/-
The calls of a use case on one artifact, as an automaton: what it has seen of the
artifact, how far its pass came, and which calls may come next. Every use case obeys it
(`program_obeys`), so a pool of them makes calls that do.
-/
import MilpbookLM.Lib.Automaton
import MilpbookLM.Studio.Lifecycle

namespace MilpbookLM.Studio

open Interleave

/-! ## The states of a pass -/

/-- How far a use case came. `artifact` is the row it read before its CAS to generating. -/
inductive PassState
  | idle
  | seen (artifact : ArtifactView)
  /-- An edit read the versions, to find the current one. -/
  | based (artifact : ArtifactView) (existing : List ArtifactVersionView)
  /-- The CAS to generating went through; `number` is that of the base version. -/
  | won (artifact : ArtifactView) (number : Option Nat)
  | resolved (artifact : ArtifactView) (base : ArtifactVersionView)
  | frozen (artifact : ArtifactView) (base : Option ArtifactVersionView) (manifestId : Uuid)
  /-- The CAS to validating was made, and went through or did not. -/
  | validating (artifact : ArtifactView) (base : Option ArtifactVersionView) (manifestId : Uuid)
  | listed (artifact : ArtifactView) (base : Option ArtifactVersionView) (manifestId : Uuid)
      (existing : List ArtifactVersionView)
  | inserted (artifact : ArtifactView) (base : Option ArtifactVersionView) (version : ArtifactVersionView)
  /-- The CAS to ready did not go through. -/
  | lost (artifact : ArtifactView)
  /-- The handler of the pass read the artifact. -/
  | failing (current : Option ArtifactView)

namespace PassState

/-- Between the CAS to generating and the end of the pipeline. -/
def Running : PassState → Prop
  | won .. | resolved .. | frozen .. | validating .. | listed .. | inserted .. | lost .. => True
  | _ => False

instance : DecidablePred Running := fun st => by cases st <;> unfold Running <;> infer_instance

/-- Between the insert of its version and the CAS to ready. -/
def Inserted : PassState → Prop
  | inserted .. => True
  | _ => False

/-- Between the CAS to generating and the end of the pass. -/
def Holds (st : PassState) : Prop := st.Running ∨ ∃ current, st = failing current

def Resting : PassState → Prop
  | idle | seen .. => True
  | _ => False

end PassState

/-- The number of the version that the pass of a use case is based on. -/
def ArtifactUse.baseNumber (use : ArtifactUse) (artifact : ArtifactView) (existing : List ArtifactVersionView) : Option Nat :=
  match use with
  | generate _ _ _ request _ => request.baseVersionNumber
  | edit .. => (existing.find? fun v => artifact.currentVersionId = some v.versionId).map (·.versionNumber)
  | regenerate _ _ _ baseVersionNumber _ _ => some baseVersionNumber
  | cancel _ | markOutOfDate _ => none

namespace PassState

def readArtifact (view : Option ArtifactView) (st : PassState) : PassState :=
  if st.Running then failing view
  else match view with
    | some view => seen view
    | none => idle

def readVersions (existing : List ArtifactVersionView) : PassState → PassState
  | seen artifact => based artifact existing
  | validating artifact base manifestId => listed artifact base manifestId existing
  | st => st

def readBase (base : Option ArtifactVersionView) : PassState → PassState
  | won artifact number => match base with
    | some base => resolved artifact base
    | none => won artifact number
  | st => st

def froze (manifestId : Uuid) : PassState → PassState
  | won artifact _ => frozen artifact none manifestId
  | resolved artifact base => frozen artifact (some base) manifestId
  | st => st

def created (version : ArtifactVersionView) : PassState → PassState
  | listed artifact base _ _ => inserted artifact base version
  | st => st

/-- After the CAS to generating. -/
def start (use : ArtifactUse) (updated : Option ArtifactView) (st : PassState) : PassState :=
  match updated with
  | none => idle
  | some _ => match st with
    | seen artifact => won artifact (use.baseNumber artifact [])
    | based artifact existing => won artifact (use.baseNumber artifact existing)
    | _ => idle

/-- After the CAS to ready. -/
def publish (updated : Option ArtifactView) (st : PassState) : PassState :=
  match updated with
  | some _ => idle
  | none => match st with
    | inserted artifact _ _ => lost artifact
    | _ => idle

def moved (use : ArtifactUse) (target : ArtifactStatus) (updated : Option ArtifactView) (st : PassState) : PassState :=
  match target with
  | .generating => st.start use updated
  | .validating => match st with
    | frozen artifact base manifestId => validating artifact base manifestId
    | _ => idle
  | .ready => st.publish updated
  | _ => idle

/-- What a call and its answer make of a state. -/
def step (use : ArtifactUse) (st : PassState) (c : ArtifactCall) (answer : ArtifactAnswer c) : PassState :=
  match c, answer with
  | .getArtifact _, .ok view => st.readArtifact view
  | .listVersions _, .ok existing => st.readVersions existing
  | .getVersion .., .ok base => st.readBase base
  | .freezeManifest .., .ok manifestId => st.froze manifestId
  | .createVersion version, .ok _ => st.created version
  | .casStatus _ _ target _, .ok updated => st.moved use target updated
  | .casStatus _ _ target _, .error _ => st.moved use target none
  | _, .error _ => st

end PassState

/-- The CAS to generating may come. -/
def ArtifactUse.Starts (use : ArtifactUse) (st : PassState) (artifact : ArtifactView) : Prop :=
  match use with
  | generate .. => st = .seen artifact ∧ artifact.status = .draft
  | edit _ _ _ expectedEtag _ _ => (∃ existing, st = .based artifact existing) ∧ artifact.etag = expectedEtag ∧
      (artifact.status = .ready ∨ artifact.status = .outOfDate) ∧ artifact.currentVersionId ≠ none
  | regenerate .. => st = .seen artifact ∧ (artifact.status = .ready ∨ artifact.status = .outOfDate)
  | cancel _ | markOutOfDate _ => False

/-- The CAS that may come. -/
def ArtifactUse.Moves (use : ArtifactUse) (st : PassState) (expected : ArtifactStatus) (current : Option Uuid) :
    ArtifactStatus → Prop
  | .draft => False
  | .generating => current = none ∧ ∃ artifact, use.Starts st artifact ∧ expected = artifact.status
  | .validating => current = none ∧ expected = .generating ∧ ∃ artifact base manifestId, st = .frozen artifact base manifestId
  | .ready => expected = .validating ∧ ∃ artifact base version, st = .inserted artifact base version ∧
      current = some version.versionId
  | .failed => current = none ∧ ∃ artifact, st = .failing (some artifact) ∧ expected = artifact.status ∧
      artifactTransitionAllowed artifact.status .failed
  | .cancelled => current = none ∧ ∃ artifact, st = .seen artifact ∧ expected = artifact.status ∧
      artifactTransitionAllowed artifact.status .cancelled
  | .outOfDate => current = none ∧ ∃ artifact, st = .seen artifact ∧ expected = artifact.status ∧
      artifactTransitionAllowed artifact.status .outOfDate

/-- The calls that may come next. -/
def ArtifactUse.Allows (use : ArtifactUse) (st : PassState) : ArtifactCall → Prop
  | .getArtifact artifactId => artifactId = use.artifactId ∧ ¬ st.Inserted
  | .listVersions artifactId => artifactId = use.artifactId ∧
      ((∃ artifact, st = .seen artifact) ∨ ∃ artifact base manifestId, st = .validating artifact base manifestId)
  | .getVersion artifactId number => artifactId = use.artifactId ∧ ∃ artifact, st = .won artifact (some number)
  | .freezeManifest _ _ _ _ parent => (∃ artifact, st = .won artifact none ∧ parent = none) ∨
      ∃ artifact base, st = .resolved artifact base ∧ parent = some base.manifestId
  | .createVersion version => version.artifactId = use.artifactId ∧ ∃ artifact base existing,
      st = .listed artifact base version.manifestId existing ∧ version.versionNumber = nextVersionNumber existing
  | .casStatus artifactId expected target current => artifactId = use.artifactId ∧ use.Moves st expected current target

/-- The automaton of a use case. -/
def ArtifactUse.automaton (use : ArtifactUse) : Automaton ArtifactCall ArtifactAnswer PassState where
  start := .idle
  step := PassState.step use
  allows := use.Allows

/-- A row that is read or written by its id is under that id. -/
def ArtifactCall.Answers (c : ArtifactCall) (answer : ArtifactAnswer c) : Prop :=
  match c, answer with
  | .getArtifact artifactId, .ok view => ∀ a, view = some a → a.artifactId = artifactId
  | .casStatus artifactId _ _ _, .ok updated => ∀ a, updated = some a → a.artifactId = artifactId
  | _, _ => True

theorem answers_exec (c : ArtifactCall) (newId : Uuid) (w : ArtifactWorld) : c.Answers (c.exec newId w).1 := by
  cases c with
  | getArtifact artifactId => exact fun a ha => artifactId_of_artifact? ha
  | casStatus artifactId expected target current =>
    intro b hb
    rcases casStatus_cases (w := w) with ⟨a, ha, -, h⟩ | ⟨-, h⟩
    · rw [h] at hb
      cases hb
      exact (artifactId_of_artifact? ha : a.artifactId = artifactId)
    · rw [h] at hb
      cases hb
  | freezeManifest | getVersion | listVersions | createVersion => unfold ArtifactCall.Answers; split <;> trivial

/-- Where a use case may end. -/
def PassState.Ended (x : Except ArtifactError Unit) (st : PassState) : Prop :=
  match x with
  | .ok _ => st.Resting
  | .error _ => ¬ st.Inserted

/-! ## Every use case obeys its automaton -/

section Obeys

variable {use : ArtifactUse} {st : PassState} {α β : Type} {services : ArtifactServices} {recipe : ArtifactRecipe}
  {a artifact : ArtifactView} {request : ArtifactRequest} {actorId versionId : Uuid}

/-- From `st` on, every call is allowed, and `Q` admits the outcome and the last state. -/
abbrev ArtifactProgram.Obeys (x : ArtifactProgram α) (use : ArtifactUse)
    (Q : Except ArtifactError α → PassState → Prop) (st : PassState) : Prop :=
  Prog.Obeys ArtifactCall.Answers use.automaton x.run Q st

/-- A call that may come, and what comes after its answers. -/
theorem obeys_call {c : ArtifactCall} {f : ArtifactResult c → ArtifactProgram β}
    {Q : Except ArtifactError β → PassState → Prop} (hc : use.Allows st c)
    (hok : ∀ b, c.Answers (.ok b) → (f b).Obeys use Q (st.step use c (.ok b)))
    (herr : ∀ e, Q (.error e) (st.step use c (.error e))) : ArtifactProgram.Obeys (c.perform >>= f) use Q st := by
  refine Prog.Obeys.seq ⟨hc, fun r hr => ?_⟩
  cases r with
  | ok b => exact hok b hr
  | error e => exact herr e

theorem obeys_ofExcept {x : Except ArtifactError α} {f : α → ArtifactProgram β}
    {Q : Except ArtifactError β → PassState → Prop} (hok : ∀ b, (f b).Obeys use Q st) (herr : ∀ e, Q (.error e) st) :
    ArtifactProgram.Obeys (ofExcept x >>= f) use Q st := by
  refine Prog.Obeys.seq ?_
  cases x with
  | ok b => exact hok b
  | error e => exact herr e

/-- The pipeline raises somewhere before its insert, or after a lost CAS to ready. -/
def PassState.Raised (x : Except ArtifactError α) (st : PassState) : Prop :=
  match x with
  | .ok _ => st = .idle
  | .error _ => st.Running ∧ ¬ st.Inserted

theorem publish_obeys {manifestId : Uuid} {items : List ManifestItem} {content : Dict} {blobIds : List Uuid}
    {base : Option ArtifactVersionView} (ha : a.artifactId = use.artifactId) :
    ArtifactProgram.Obeys (do
      let version ← publish a recipe manifestId items content blobIds versionId
      let updated : Option ArtifactView ←
        (ArtifactCall.casStatus a.artifactId .validating .ready (some version.versionId)).perform
      match updated with
      | none => throw (.casConflict "ready publication lost the CAS")
      | some updated => return (updated, version)) use PassState.Raised (.validating artifact base manifestId) := by
  refine Prog.Obeys.seq (obeys_call ⟨ha, .inr ⟨artifact, base, manifestId, rfl⟩⟩ (fun existing _ => ?_) fun e => ⟨trivial, id⟩)
  show ArtifactProgram.Obeys _ use _ (.listed artifact base manifestId existing)
  refine obeys_call ⟨ha, artifact, base, existing, rfl, rfl⟩ (fun _ _ => ?_) fun e => ⟨trivial, id⟩
  show ArtifactProgram.Obeys _ use _ (.inserted artifact base _)
  refine obeys_call ⟨ha, rfl, artifact, base, _, rfl, rfl⟩ (fun updated _ => ?_) fun e => ⟨trivial, id⟩
  cases updated with
  | none => exact ⟨trivial, id⟩
  | some updated => rfl

theorem produce_obeys {manifestId : Uuid} {base : Option ArtifactVersionView} {inputs : FrozenInputs}
    {items : List ManifestItem} (ha : a.artifactId = use.artifactId) :
    ArtifactProgram.Obeys (do
      let _ ← (ArtifactCall.casStatus a.artifactId .generating .validating none).perform
      let (content, renditions) ← ofExcept (produce recipe request inputs)
      let renderedBlobIds ← ofExcept (storeRenditions services renditions)
      let version ← publish a recipe manifestId items content renderedBlobIds versionId
      let updated : Option ArtifactView ←
        (ArtifactCall.casStatus a.artifactId .validating .ready (some version.versionId)).perform
      match updated with
      | none => throw (.casConflict "ready publication lost the CAS")
      | some updated => return (updated, version)) use PassState.Raised (.frozen artifact base manifestId) := by
  refine obeys_call ⟨ha, rfl, rfl, artifact, base, manifestId, rfl⟩ (fun updated _ => ?_) fun e => ⟨trivial, id⟩
  show ArtifactProgram.Obeys _ use _ (.validating artifact base manifestId)
  refine obeys_ofExcept (fun out => obeys_ofExcept (fun blobIds => publish_obeys ha) fun e => ?_) fun e => ?_
  · exact ⟨trivial, id⟩
  · exact ⟨trivial, id⟩

/-- The pipeline, after the CAS to generating. -/
theorem run_obeys (ha : a.artifactId = use.artifactId) :
    (run services recipe a request actorId versionId).Obeys use PassState.Raised (.won artifact request.baseVersionNumber) := by
  unfold run resolveParent
  split
  · next hnum =>
    refine obeys_call (.inl ⟨artifact, by rw [hnum], rfl⟩) (fun manifestId _ => ?_) fun e => ?_
    · exact produce_obeys ha
    · exact ⟨trivial, id⟩
  · next number hnum =>
    refine Prog.Obeys.seq (obeys_call ⟨ha, artifact, by rw [hnum]⟩ (fun base _ => ?_) fun e => ⟨trivial, id⟩)
    cases base with
    | none => exact ⟨trivial, id⟩
    | some base =>
      refine obeys_call (.inr ⟨artifact, base, rfl, rfl⟩) (fun manifestId _ => ?_) fun e => ?_
      · exact produce_obeys ha
      · exact ⟨trivial, id⟩

theorem readArtifact_running {view : Option ArtifactView} (h : st.Running) : st.readArtifact view = .failing view := if_pos h

theorem readArtifact_other {view : Option ArtifactView} (h : ¬ st.Running) : st.readArtifact view =
    match view with
    | some view => .seen view
    | none => .idle := if_neg h

/-- Reading the artifact once more is what a pass ends with. -/
theorem reread_obeys {view : ArtifactView} (hst : ¬ st.Running) :
    (reread use.artifactId view).Obeys use (fun x st => PassState.Ended (x.map fun _ => ()) st) st := by
  have hins : ¬ st.Inserted := fun h => hst (by cases st <;> trivial)
  refine obeys_call ⟨rfl, hins⟩ (fun (current : Option ArtifactView) _ => ?_) fun e => hins
  show PassState.Resting (st.readArtifact current)
  rw [readArtifact_other hst]
  cases current <;> trivial

theorem rescue_obeys {updated : ArtifactView} {e : ArtifactError} (hst : st.Running) (hins : ¬ st.Inserted) :
    (rescue use.artifactId updated e).Obeys use (fun x st => PassState.Ended (x.map fun _ => ()) st) st := by
  have hfailed : (markFailed use.artifactId).Obeys use
      (fun x st => match x with | .ok _ => ¬ st.Running | .error _ => ¬ st.Inserted) st := by
    refine obeys_call ⟨rfl, hins⟩ (fun (current : Option ArtifactView) _ => ?_) fun e => hins
    show ArtifactProgram.Obeys _ use _ (st.readArtifact current)
    rw [readArtifact_running hst]
    cases current with
    | none => exact id
    | some current =>
      by_cases hallowed : artifactTransitionAllowed current.status .failed = true
      · simp only [hallowed, if_true]
        exact obeys_call ⟨rfl, rfl, current, rfl, rfl, hallowed⟩ (fun _ _ => id) fun _ => id
      · simp only [hallowed]
        exact id
  have hdone : ∀ {problems : List String}, ArtifactProgram.Obeys (do
      markFailed use.artifactId
      return (⟨← reread use.artifactId updated, none, false, problems⟩ : GenerationResult)) use
      (fun x st => PassState.Ended (x.map fun _ => ()) st) st := by
    intro problems
    refine Prog.Obeys.seq (hfailed.mono fun x st hx => ?_)
    cases x with
    | error e => exact hx
    | ok _ =>
      refine Prog.Obeys.seq ((reread_obeys hx).mono fun y st hy => ?_)
      cases y <;> exact hy
  cases e with
  | validation problems => exact hdone
  | casConflict message => exact hdone
  | notFound | invalidRequest | notReady | raised => exact hins

theorem attempt_obeys (hstart : use.Starts st artifact)
    (hwon : ∀ updated, st.start use (some updated) = .won artifact request.baseVersionNumber) :
    (attempt services recipe use.artifactId artifact request actorId versionId).Obeys use
      (fun x st => PassState.Ended (x.map fun _ => ()) st) st := by
  refine obeys_call ⟨rfl, rfl, artifact, hstart, rfl⟩ (fun updated hupdated => ?_) fun e => id
  cases updated with
  | none =>
    refine Prog.Obeys.seq ((reread_obeys (show ¬ PassState.idle.Running from id)).mono fun y st hy => ?_)
    cases y <;> exact hy
  | some updated =>
    show ArtifactProgram.Obeys _ use _ (st.start use (some updated))
    rw [hwon updated]
    refine Prog.Obeys.guarded (Prog.Obeys.seq ((run_obeys ?_).mono fun x st hx => ?_))
    · exact hupdated _ rfl
    · cases x with
      | ok out => exact hx ▸ trivial
      | error e => exact rescue_obeys hx.1 hx.2

/-- The part the three passes share, and what it returns. -/
theorem pass_obeys (hstart : use.Starts st artifact)
    (hwon : ∀ updated, st.start use (some updated) = .won artifact request.baseVersionNumber) :
    ArtifactProgram.Obeys (do
      return some (← attempt services recipe use.artifactId artifact request actorId versionId)) use
      (fun x st => PassState.Ended (x.map fun _ => ()) st) st := by
  refine Prog.Obeys.seq ((attempt_obeys hstart hwon).mono fun x st hx => ?_)
  cases x <;> exact hx

/-- What a use case that reads the artifact first does with it. -/
theorem obeys_getArtifact {f : Option ArtifactView → ArtifactProgram α} (hst : st.Resting)
    (hnone : (f none).Obeys use (fun x st => PassState.Ended (x.map fun _ => ()) st) .idle)
    (hsome : ∀ a, a.artifactId = use.artifactId → (f (some a)).Obeys use (fun x st => PassState.Ended (x.map fun _ => ()) st) (.seen a)) :
    ArtifactProgram.Obeys ((ArtifactCall.getArtifact use.artifactId).perform >>= f) use
      (fun x st => PassState.Ended (x.map fun _ => ()) st) st := by
  have hrun : ¬ st.Running := by cases st <;> first | exact id | cases hst
  have hins : ¬ st.Inserted := by cases st <;> first | exact id | cases hst
  refine obeys_call ⟨rfl, hins⟩ (fun (view : Option ArtifactView) hview => ?_) fun e => hins
  show ArtifactProgram.Obeys _ use _ (st.readArtifact view)
  rw [readArtifact_other hrun]
  cases view with
  | none => exact hnone
  | some a => exact hsome a (hview a rfl)

theorem move_obeys {target : ArtifactStatus} {refusal : ArtifactStatus → String} {lost : String} (hst : st.Resting)
    (hmoves : ∀ a, artifactTransitionAllowed a.status target → use.Moves (.seen a) a.status none target)
    (hidle : ∀ st : PassState, ∀ updated, st.moved use target updated = .idle) :
    (moveArtifact use.artifactId target refusal lost).Obeys use (fun x st => PassState.Ended (x.map fun _ => ()) st) st := by
  refine obeys_getArtifact hst trivial fun a ha => ?_
  show ArtifactProgram.Obeys (if _ then _ else _) use _ _
  split
  · exact id
  · next hallowed =>
    refine obeys_call ⟨rfl, hmoves a (by simpa using hallowed)⟩ (fun (updated : Option ArtifactView) _ => ?_) fun e => ?_
    · show ArtifactProgram.Obeys _ use _ (PassState.moved use target updated _)
      rw [hidle]
      cases updated with
      | none => exact id
      | some updated => trivial
    · show ¬ (PassState.moved use target none _).Inserted
      rw [hidle]
      exact id

/-- **Every use case keeps to its automaton.** -/
theorem program_obeys (use : ArtifactUse) (hst : st.Resting) : use.program.Obeys use PassState.Ended st := by
  cases use with
  | generate services actorId artifactId request versionId =>
    refine Prog.Obeys.map (obeys_getArtifact hst trivial fun a ha => ?_)
    refine obeys_ofExcept (fun recipe => ?_) fun e => id
    split
    · trivial
    · next hdraft => exact pass_obeys ⟨rfl, not_not.1 hdraft⟩ fun _ => rfl
  | edit services actorId artifactId expectedEtag request versionId =>
    refine Prog.Obeys.map (obeys_getArtifact hst trivial fun a ha => ?_)
    show ArtifactProgram.Obeys (if _ then _ else _) _ _ _
    split
    · trivial
    · next hetag =>
      show ArtifactProgram.Obeys (if _ then _ else _) _ _ _
      split
      · exact id
      · next hready =>
        refine obeys_ofExcept (fun recipe => Prog.Obeys.seq ?_) fun e => id
        unfold currentVersionNumber
        split
        · exact id
        · next current hcurrent =>
          refine obeys_call ⟨ha, .inl ⟨a, rfl⟩⟩ (fun (existing : List ArtifactVersionView) _ => ?_) fun e => id
          show ArtifactProgram.Obeys _ _ _ (.based a existing)
          refine pass_obeys ⟨⟨existing, rfl⟩, not_not.1 hetag, or_iff_not_and_not.2 hready, by simp [hcurrent]⟩ fun _ => ?_
          show PassState.won a _ = _
          simp only [ArtifactUse.baseNumber, hcurrent, Option.some.injEq, eq_comm]
  | regenerate services actorId artifactId baseVersionNumber request versionId =>
    refine Prog.Obeys.map (obeys_getArtifact hst trivial fun a ha => ?_)
    show ArtifactProgram.Obeys (if _ then _ else _) _ _ _
    split
    · exact id
    · next hready =>
      refine obeys_ofExcept (fun recipe => ?_) fun e => id
      exact pass_obeys ⟨rfl, or_iff_not_and_not.2 hready⟩ fun _ => rfl
  | cancel artifactId => exact Prog.Obeys.map (move_obeys hst (fun a h => ⟨rfl, a, rfl, rfl, h⟩) fun _ _ => rfl)
  | markOutOfDate artifactId => exact Prog.Obeys.map (move_obeys hst (fun a h => ⟨rfl, a, rfl, rfl, h⟩) fun _ _ => rfl)

end Obeys

/-! ## Pools of use cases -/

section Pools

variable {P : Type} [DecidableEq P] {requests : P → ArtifactUse} {init : ArtifactWorld → Prop}

abbrev ArtifactRun (P : Type) := Run P ArtifactCall ArtifactAnswer ArtifactWorld

abbrev ArtifactPool (P : Type) := Pool P ArtifactCall ArtifactAnswer ArtifactError ArtifactWorld

/-- Processes that execute a use case each. -/
def artifactMachine (requests : P → ArtifactUse) :
    Machine P ArtifactCall ArtifactAnswer ArtifactError ArtifactWorld Uuid Unit where
  exec := ArtifactCall.exec
  start p _ := (requests p).program.run

/-- How far `p` came. -/
def progress (requests : P → ArtifactUse) (r : ArtifactRun P) (p : P) : PassState :=
  r.at (fun p => (requests p).automaton) p

/-- The runs of calls that meet `cond`, and come when they may. -/
abbrev ArtifactRuns (requests : P → ArtifactUse) (init : ArtifactWorld → Prop)
    (cond : P → ArtifactCall → Uuid → ArtifactRun P → Prop) : ArtifactRun P → Prop :=
  Obeying (fun p => (requests p).automaton) ArtifactCall.exec init cond

theorem progress_self (r : ArtifactRun P) (p : P) (c : ArtifactCall) (e : Uuid) :
    progress requests (r.call ArtifactCall.exec p c e) p = (progress requests r p).step (requests p) c (c.exec e r.shared).1 :=
  Run.at_call_self ArtifactCall.exec r p c e

theorem progress_other (r : ArtifactRun P) {p q : P} (h : q ≠ p) (c : ArtifactCall) (e : Uuid) :
    progress requests (r.call ArtifactCall.exec p c e) q = progress requests r q :=
  Run.at_call_other ArtifactCall.exec r h c e

/-- **The calls of a pool of use cases come when they may.** -/
theorem artifact_runs {cond : P → ArtifactCall → Uuid → ArtifactRun P → Prop} {pool : ArtifactPool P}
    (h : (artifactMachine requests).Reach init cond pool) :
    ArtifactRuns requests init cond pool.run ∧ ∀ p, (pool.procs p).Obeys ArtifactCall.Answers (requests p).automaton
      PassState.Ended (progress requests pool.run p) :=
  Machine.obeys answers_exec (fun _ => trivial) (fun p _ _ hst => program_obeys (requests p) hst) h

end Pools

end MilpbookLM.Studio
