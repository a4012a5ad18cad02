/-
A conversation that is closed once. While every reset finds the row open when it updates
it, a conversation goes through one of the stages of `Stage`: open, being closed by one
transaction, closed by one. Every statement is a step of stages (`Stage.Others` says what
it is to everybody else), and the outcome of a call says which stage it was left in.
-/
import MilpbookLM.Chat.Conversations

namespace MilpbookLM.Chat

open Interleave RowLock

variable {T : Type}

/-! ## Stages -/

/-- The stages of a conversation, and the transaction that brought it there. -/
inductive Stage (T : Type)
  | opened
  | resetting (t : T)
  | inserted (t : T) (new : Conversation)
  | deleting (t : T)
  | wasReset (t : T) (new : Conversation)
  | wasDeleted (t : T)

namespace Stage

def owner : Stage T → Option T
  | opened => none
  | resetting t | inserted t _ | deleting t | wasReset t _ | wasDeleted t => some t

/-- Closed, and committed. -/
def Final : Stage T → Prop
  | wasReset .. | wasDeleted _ => True
  | _ => False

/-- The tables at a stage, of a conversation that was `row` when it was open. -/
def world (row : Conversation) : Stage T → ClosingWorld T
  | opened => ⟨⟨some row, none⟩, [], [], []⟩
  | resetting t => ⟨⟨some row, some (t, { row with status := .reset })⟩, [], [], []⟩
  | inserted t new => ⟨⟨some row, some (t, { row with status := .reset })⟩, [(t, new)], [], []⟩
  | deleting t => ⟨⟨some row, some (t, { row with status := .deleted })⟩, [], [], []⟩
  | wasReset t new => ⟨⟨some { row with status := .reset }, none⟩, [], [(t, .reset)], [(t, new)]⟩
  | wasDeleted t => ⟨⟨some { row with status := .deleted }, none⟩, [], [(t, .deleted)], []⟩

/-- The tables tell the stage. -/
theorem world_injective {row : Conversation} {st st' : Stage T} (h : st.world row = st'.world row) : st = st' := by
  cases st <;> cases st' <;> simp [world] at h <;> simp [h]

/-- What a step of others leaves to the transaction `t`. -/
structure Others (t : T) (st st' : Stage T) : Prop where
  own : st.owner = some t → st' = st
  not_own : st.owner ≠ some t → st'.owner ≠ some t
  final : st.Final → st' = st

theorem Others.refl {t : T} {st : Stage T} : Others t st st := ⟨fun _ => rfl, id, fun _ => rfl⟩

theorem Others.trans {t : T} {st st' st'' : Stage T} (h : Others t st st') (h' : Others t st' st'') : Others t st st'' := by
  refine ⟨fun ht => ?_, fun ht => h'.not_own (h.not_own ht), fun hf => ?_⟩
  · obtain rfl := h.own ht
    exact h'.own ht
  · obtain rfl := h.final hf
    exact h'.final hf

/-- Whoever finds it closed has not closed it. -/
theorem Others.outcome {t : T} {st st' : Stage T} (h : Others t st st') (hown : st.owner ≠ some t) (hf : st.Final) :
    st'.owner ≠ some t ∧ st'.Final := by
  obtain rfl := h.final hf
  exact ⟨hown, hf⟩

/-- A step of `t` to a stage of its own, from one that nobody owned. -/
theorem others_taken {t q : T} {st' : Stage T} (hq : q ≠ t) (h : st'.owner = some t) : Others q .opened st' := by
  refine ⟨nofun, fun _ => ?_, nofun⟩
  rw [h]
  intro he
  exact hq (Option.some.inj he).symm

/-- A step of `t` among its own stages. -/
theorem others_own {t q : T} {st st' : Stage T} (hq : q ≠ t) (h : st.owner = some t) (h' : st'.owner = some t)
    (hf : ¬ st.Final) : Others q st st' := by
  have hne : some t ≠ some q := by
    intro he
    exact hq (Option.some.inj he).symm
  refine ⟨fun ho => ?_, fun _ => ?_, fun hfinal => absurd hfinal hf⟩
  · rw [h] at ho
    exact absurd ho hne
  · rw [h']
    exact hne

end Stage

/-! ## Statements -/

section Statements

variable [DecidableEq T] {row : Conversation} {actor id : Uuid} {t : T} {st : Stage T}

/-- The row that is updated is the open one. -/
def ClosesOpen (actor : Uuid) : ClosingCall T → ClosingWorld T → Prop
  | .close t id, w => ∃ row, w.cell.visible t = some row ∧ row.openFor actor id = true
  | _, _ => True

theorem openFor_id (h : row.openFor actor id = true) : row.id = id := by
  simp only [Conversation.openFor, Bool.and_eq_true, decide_eq_true_eq] at h
  exact h.1.1.1

theorem openFor_closed {status : ConversationStatus} (h : status ≠ .open) :
    ({ row with status } : Conversation).openFor actor id = false := by
  simp [Conversation.openFor, h]

/-- A transaction of others selects the row that is committed. -/
theorem visible_world (h : st.owner ≠ some t) : (st.world row).cell.visible t = (st.world row).cell.committed := by
  refine Cell.visible_committed fun v hv => ?_
  cases st <;> simp [Stage.world, Stage.owner] at hv h <;> exact h hv.1

/-- It finds it unless it was closed. -/
theorem select_world (hopen : row.openFor actor id = true) (h : st.owner ≠ some t) :
    ((st.world row).cell.visible t).filter (·.openFor actor id) = some row ∨
      ((st.world row).cell.visible t).filter (·.openFor actor id) = none ∧ st.Final := by
  rw [visible_world h]
  cases st with
  | opened | resetting | inserted | deleting => exact .inl (by simp [Stage.world, hopen])
  | wasReset | wasDeleted => exact .inr ⟨by simp [Stage.world, Option.filter, openFor_closed], trivial⟩

omit [DecidableEq T] in
/-- The lock is free where nobody is closing it. -/
theorem free_world (h : st.owner ≠ some t) (hfree : (st.world row).cell.Free t) : st = .opened ∨ st.Final := by
  cases st with
  | opened => exact .inl rfl
  | wasReset | wasDeleted => exact .inr trivial
  | resetting t' | inserted t' | deleting t' =>
    have := hfree t' _ rfl
    exact absurd (congrArg some this) h

/-- A reset closes the open row. -/
theorem close_world (hopen : row.openFor actor id = true) (h : st.owner ≠ some t)
    (hfree : (st.world row).cell.Free t) (hc : ClosesOpen actor (.close t id) (st.world row)) : st = .opened := by
  rcases free_world h hfree with rfl | hf
  · rfl
  obtain ⟨row', hrow', hopen'⟩ := hc
  have hsel := select_world hopen h
  rw [hrow'] at hsel
  cases st with
  | wasReset | wasDeleted =>
    rw [visible_world h] at hrow'
    cases hrow'
    rw [openFor_closed (by decide)] at hopen'
    cases hopen'
  | _ => cases hf

end Statements

/-! ## Calls -/

/-- What others may do to the tables. -/
def Rely (row : Conversation) (t : T) (w w' : ClosingWorld T) : Prop :=
  ∀ st, w = Stage.world row st → ∃ st', w' = Stage.world row st' ∧ Stage.Others t st st'

/-- What the transaction `t` does to them. -/
def Guar (row : Conversation) (t : T) (w w' : ClosingWorld T) : Prop := ∀ q, q ≠ t → Rely row q w w'

/-- A statement that may run, of a reset only on the open row. -/
def ClosingCond [DecidableEq T] (actor : Uuid) (c : ClosingCall T) (_ : Unit) (w : ClosingWorld T) : Prop :=
  c.Runs w ∧ ClosesOpen actor c w

/-- What an outcome says of the stage. -/
def Outcome (t : T) : ClosingResult → Stage T → Prop
  | .state none, st => st.owner ≠ some t ∧ st.Final
  | .state (some new), st => st = .wasReset t new
  | .deleted false, st => st.owner ≠ some t ∧ st.Final
  | .deleted true, st => st = .wasDeleted t

section Calls

variable [DecidableEq T] {row : Conversation} {actor id newId : Uuid} {t : T} {st : Stage T}

abbrev ClosingKeeps (row : Conversation) (actor : Uuid) (t : T) (x : ClosingProgram T ClosingResult) (w : ClosingWorld T) : Prop :=
  x.Keeps ClosingCall.exec (ClosingCond actor) (fun w => ∃ st, w = Stage.world row st) (Rely row t) (Guar row t)
    (fun result w => ∃ st, w = Stage.world row st ∧ Outcome t result st) w

omit [DecidableEq T] in
theorem rely_refl (t : T) (w : ClosingWorld T) : Rely row t w w := fun st h => ⟨st, h, .refl⟩

omit [DecidableEq T] in
theorem rely_trans {w w' w'' : ClosingWorld T} (h : Rely row t w w') (h' : Rely row t w' w'') : Rely row t w w'' := by
  intro st hst
  obtain ⟨st', hst', ho⟩ := h st hst
  obtain ⟨st'', hst'', ho'⟩ := h' st' hst'
  exact ⟨st'', hst'', ho.trans ho'⟩

/-- A statement, by what it does at every stage that others may have brought about. -/
theorem keeps_call {c : ClosingCall T} {k : ClosingAnswer c → ClosingProgram T ClosingResult}
    (h : ∀ st', Stage.Others t st st' → ClosingCond actor c () (st'.world row) →
      ∃ st'', (c.exec () (st'.world row)).2 = st''.world row ∧ (∀ q, q ≠ t → Stage.Others q st' st'') ∧
        ClosingKeeps row actor t (k (c.exec () (st'.world row)).1) (st''.world row)) :
    ClosingKeeps row actor t (.call c k) (st.world row) := by
  intro w e hr _ hc
  obtain ⟨st', rfl, ho⟩ := hr st rfl
  obtain ⟨st'', hw, hothers, hrest⟩ := h st' ho hc
  refine ⟨⟨st'', hw⟩, fun q hq st₁ hst₁ => ?_, hw ▸ hrest⟩
  obtain rfl := Stage.world_injective hst₁
  exact ⟨st'', hw, hothers q hq⟩

/-- An outcome, at every stage that others may bring about. -/
theorem keeps_ret {result : ClosingResult} (h : ∀ st', Stage.Others t st st' → Outcome t result st') :
    ClosingKeeps row actor t (.ret result) (st.world row) := by
  intro w hr _
  obtain ⟨st', rfl, ho⟩ := hr st rfl
  exact ⟨st', rfl, h st' ho⟩

/-- **A reset.** -/
theorem reset_keeps (hopen : row.openFor actor id = true) (hst : st.owner ≠ some t) :
    ClosingKeeps row actor t ((ClosingRequest.reset newId).run actor id t) (st.world row) := by
  have hid : row.id = id := openFor_id hopen
  refine keeps_call fun st₁ h₁ _ => ⟨st₁, rfl, fun _ _ => .refl, ?_⟩
  have hown := h₁.not_own hst
  rcases select_world hopen hown with hsel | ⟨hsel, hf⟩
  · simp only [ClosingCall.exec, hsel]
    refine keeps_call fun st₂ h₂ hc => ?_
    obtain rfl := close_world hopen (h₂.not_own hown) hc.1 hc.2
    refine ⟨.resetting t, ?_, fun q hq => Stage.others_taken hq rfl, ?_⟩
    · simp [ClosingCall.exec, Stage.world, Cell.visible, Cell.write, hid]
    refine keeps_call fun st₃ h₃ _ => ?_
    obtain rfl := h₃.own rfl
    refine ⟨.inserted t (row.successor actor newId), rfl, fun q hq => Stage.others_own hq rfl rfl (fun hf => hf.elim), ?_⟩
    refine keeps_call fun st₄ h₄ _ => ?_
    obtain rfl := h₄.own rfl
    refine ⟨.wasReset t (row.successor actor newId), ?_, fun q hq => Stage.others_own hq rfl rfl (fun hf => hf.elim), ?_⟩
    · simp [ClosingCall.exec, Stage.world, Cell.commit]
    refine keeps_call fun st₅ h₅ _ => ?_
    obtain rfl := h₅.own rfl
    have hfound : (row.successor actor newId).openFor actor newId = true := by
      simp [Conversation.successor, Conversation.openFor]
    have hload : ((ClosingCall.load t actor newId).exec () ((Stage.wasReset t (row.successor actor newId)).world row)).1 =
        some (row.successor actor newId) := by
      simp [ClosingCall.exec, Stage.world, hfound]
      rfl
    refine ⟨_, rfl, fun _ _ => .refl, ?_⟩
    rw [hload]
    exact keeps_ret fun st₆ h₆ => h₆.own rfl
  · simp only [ClosingCall.exec, hsel]
    exact keeps_ret fun st₂ h₂ => h₂.outcome hown hf

/-- A conditional UPDATE finds the row open, or closed by another. -/
theorem delete_world (hopen : row.openFor actor id = true) (h : st.owner ≠ some t)
    (hruns : (ClosingCall.delete t actor id).Runs (st.world row)) : st = .opened ∨ st.Final := by
  rcases hruns with hfree | hall
  · exact free_world h hfree
  · rw [visible_world h] at hall
    cases st with
    | wasReset | wasDeleted => exact .inr trivial
    | _ => simp [Stage.world, hopen] at hall

/-- A statement on a closed row. -/
theorem delete_final (h : st.owner ≠ some t) (hf : st.Final) :
    (ClosingCall.delete t actor id).exec () (st.world row) = ((0 : Nat), st.world row) := by
  have hvisible : (st.world row).cell.visible t = (st.world row).cell.committed := visible_world h
  simp only [ClosingCall.exec, hvisible]
  cases st with
  | wasReset | wasDeleted =>
    simp [Stage.world, openFor_closed]
    rfl
  | _ => cases hf

/-- Nothing to commit. -/
theorem commit_final (hf : st.Final) : ((ClosingCall.commit t).exec () (st.world row)).2 = st.world row := by
  cases st with
  | wasReset | wasDeleted => simp [ClosingCall.exec, Stage.world, Cell.commit]
  | _ => cases hf

/-- **A delete.** -/
theorem delete_keeps (hopen : row.openFor actor id = true) (hst : st.owner ≠ some t) :
    ClosingKeeps row actor t (ClosingRequest.delete.run actor id t) (st.world row) := by
  refine keeps_call fun st₁ h₁ hc => ?_
  have hown := h₁.not_own hst
  rcases delete_world hopen hown hc.1 with rfl | hf
  · have hexec : (ClosingCall.delete t actor id).exec () (Stage.opened.world row) =
        ((1 : Nat), (Stage.deleting t).world row) := by
      simp [ClosingCall.exec, Stage.world, Cell.visible, Cell.write, hopen]
      rfl
    rw [hexec]
    refine ⟨.deleting t, rfl, fun q hq => Stage.others_taken hq rfl, ?_⟩
    refine keeps_call fun st₂ h₂ _ => ?_
    obtain rfl := h₂.own rfl
    refine ⟨.wasDeleted t, ?_, fun q hq => Stage.others_own hq rfl rfl (fun hf => hf.elim), ?_⟩
    · simp [ClosingCall.exec, Stage.world, Cell.commit]
    exact keeps_ret fun st₃ h₃ => h₃.own rfl
  · rw [delete_final hown hf]
    refine ⟨st₁, rfl, fun _ _ => .refl, ?_⟩
    refine keeps_call fun st₂ h₂ _ => ?_
    obtain ⟨hown₂, hf₂⟩ := h₂.outcome hown hf
    refine ⟨st₂, commit_final hf₂, fun _ _ => .refl, ?_⟩
    exact keeps_ret fun st₃ h₃ => h₃.outcome hown₂ hf₂

end Calls

/-! ## Every interleaving -/

section Crowds

variable [DecidableEq T] {row : Conversation} {actor id : Uuid} {requests : T → ClosingRequest}

abbrev ClosingCrowd (T : Type) := Crowd T (ClosingCall T) ClosingAnswer (ClosingWorld T) ClosingResult

/-- What calls for the conversation reach, in any order of statements that meet `cond`. -/
abbrev ClosingReach (row : Conversation) (actor id : Uuid) (requests : T → ClosingRequest)
    (cond : ClosingCall T → ClosingWorld T → Prop) (c : ClosingCrowd T) : Prop :=
  Crowd.Reach ClosingCall.exec (· = Stage.opened.world row) (fun t => (requests t).run actor id t)
    (fun _ i (_ : Unit) w => i.Runs w ∧ cond i w) c

/-- The call reports that it found no open conversation. -/
def ClosingResult.notFound : ClosingResult → Bool
  | .state conversation => conversation.isNone
  | .deleted found => !found

/-- A conversation is closed once and has at most one successor. -/
structure ClosedOnce (c : ClosingCrowd T) : Prop where
  /-- The status was written at most once, and is what was written. -/
  once : c.shared.closed.length ≤ 1
  status : ∃ now, c.shared.cell.committed = some now ∧ now.status = (c.shared.closed.head?.map Prod.snd).getD .open
  /-- At most one successor, of a reset that took effect, and none if it was deleted. -/
  successor : c.shared.created.length ≤ 1
  created : ∀ x ∈ c.shared.created, c.shared.closed = [(x.1, .reset)]
  /-- When a call has returned, one has taken effect. -/
  closed : ∀ t result, c.procs t = .ret result → c.shared.closed ≠ []
  /-- A call that reports not found has written nothing, and any other took effect. -/
  notFound : ∀ t result, c.procs t = .ret result → result.notFound = true →
    (∀ x ∈ c.shared.closed, x.1 ≠ t) ∧ (∀ x ∈ c.shared.created, x.1 ≠ t) ∧ (∀ x ∈ c.shared.inserted, x.1 ≠ t) ∧
      ∀ v, c.shared.cell.pending ≠ some (t, v)
  effect : ∀ t result, c.procs t = .ret result → result.notFound = false → ∃ status, c.shared.closed = [(t, status)] ∧
    ∀ new, result = .state (some new) → status = .reset ∧ c.shared.created = [(t, new)]

omit [DecidableEq T] in
theorem Outcome.final {t : T} {result : ClosingResult} {st : Stage T} (h : Outcome t result st) : st.Final := by
  match result, h with
  | .state none, h => exact h.2
  | .state (some new), h => rw [show st = _ from h]; trivial
  | .deleted false, h => exact h.2
  | .deleted true, h => rw [show st = _ from h]; trivial

omit [DecidableEq T] in
theorem Outcome.notFound {t : T} {result : ClosingResult} {st : Stage T} (h : Outcome t result st)
    (hr : result.notFound = true) : st.owner ≠ some t := by
  match result, h with
  | .state none, h => exact h.1
  | .state (some new), _ => cases hr
  | .deleted false, h => exact h.1
  | .deleted true, _ => cases hr

omit [DecidableEq T] in
/-- What a stage and the outcomes in it say of the tables. -/
theorem closedOnce_stage (hopen : row.openFor actor id = true) {c : ClosingCrowd T} {st : Stage T}
    (hst : c.shared = st.world row) (h : ∀ t result, c.procs t = .ret result → Outcome t result st) : ClosedOnce c := by
  have hstatus : row.status = .open := by
    simp only [Conversation.openFor, Bool.and_eq_true, decide_eq_true_eq] at hopen
    exact hopen.2
  refine ⟨?_, ?_, ?_, ?_, fun t result hret => ?_, fun t result hret hr => ?_, fun t result hret hr => ?_⟩
  · rw [hst]
    cases st <;> simp [Stage.world]
  · rw [hst]
    cases st <;> simp [Stage.world, hstatus]
  · rw [hst]
    cases st <;> simp [Stage.world]
  · rw [hst]
    cases st <;> simp [Stage.world]
  · have hf := (h t result hret).final
    rw [hst]
    cases st with
    | wasReset | wasDeleted => simp [Stage.world]
    | _ => cases hf
  · have hf := (h t result hret).final
    have hown := (h t result hret).notFound hr
    rw [hst]
    cases st with
    | wasReset | wasDeleted => simpa [Stage.world, Stage.owner] using hown
    | _ => cases hf
  · have hout := h t result hret
    rw [hst]
    match result, hout with
    | .state none, _ => cases hr
    | .state (some new), hout =>
      rw [show st = _ from hout]
      refine ⟨.reset, rfl, fun new' he => ⟨rfl, ?_⟩⟩
      cases he; rfl
    | .deleted false, _ => cases hr
    | .deleted true, hout =>
      rw [show st = _ from hout]
      exact ⟨.deleted, rfl, nofun⟩

/-- **A conversation is closed once** if every reset finds it open when it updates it. -/
theorem closed_once (hopen : row.openFor actor id = true) {c : ClosingCrowd T}
    (h : ClosingReach row actor id requests (ClosesOpen actor) c) : ClosedOnce c := by
  have hkeeps := Crowd.keeps (fun w => ∃ st, w = Stage.world row st) (Rely row) (Guar row)
    (fun t result w => ∃ st, w = Stage.world row st ∧ Outcome t result st) (fun _ _ => rely_refl _ _) (fun _ _ _ _ => rely_trans) (fun _ q _ _ hq hg => hg q hq)
    (fun w hw => ⟨.opened, hw⟩) (fun t w hw => ?_) h
  · obtain ⟨⟨st, hst⟩, hcalls⟩ := hkeeps
    have hended : ∀ t result, c.procs t = .ret result → Outcome t result st := by
      intro t result hret
      have hcall := hcalls t
      rw [hret] at hcall
      obtain ⟨st', hst', hout⟩ := hcall.ended (fun _ => rely_refl _ _) ⟨st, hst⟩
      obtain rfl := Stage.world_injective (hst.symm.trans hst')
      exact hout
    exact closedOnce_stage hopen hst hended
  · rw [hw]
    cases hreq : requests t with
    | reset newId => exact reset_keeps hopen nofun
    | delete => exact delete_keeps hopen nofun

end Crowds

/-! ## Schedules -/

def openConversation : Conversation := { id := 1, ownerUserId := 7, notebookId := none, chatConfig := [] }

/-- Two resets, in two transactions. -/
def twoResets : Fin 2 → ClosingRequest
  | 0 => .reset 2
  | 1 => .reset 3

def resetCrowd : ClosingCrowd (Fin 2) := ⟨Stage.opened.world openConversation, fun t => (twoResets t).run 7 1 t⟩

theorem resetCrowd_start {cond : ClosingCall (Fin 2) → ClosingWorld (Fin 2) → Prop} :
    ClosingReach openConversation 7 1 twoResets cond resetCrowd := .start ⟨rfl, rfl⟩

/-- A reset from its SELECT to the read of its successor, and then another. -/
def oneByOne : List (Fin 2 × Unit) := [(0, ()), (0, ()), (0, ()), (0, ()), (0, ()), (1, ())]

/-- Both select the open row; the second updates it when the first has committed. -/
def bothSelect : List (Fin 2 × Unit) := [(0, ()), (1, ()), (0, ()), (0, ()), (0, ()), (1, ()), (1, ()), (1, ())]

/-- One reset after another. -/
theorem closed_once_of_resets :
    ClosedOnce (oneByOne.foldl (fun c m => c.call ClosingCall.exec m.1 m.2) resetCrowd) := by
  refine @closed_once (Fin 2) _ openConversation 7 1 twoResets rfl _ ?_
  refine Crowd.reach_calls resetCrowd_start ?_
  exact ⟨⟨trivial, trivial⟩, ⟨fun _ _ => nofun, openConversation, rfl, rfl⟩, ⟨trivial, trivial⟩, ⟨trivial, trivial⟩,
    ⟨trivial, trivial⟩, ⟨trivial, trivial⟩, trivial⟩

/-- Two resets that both selected the open row leave two successors. -/
theorem two_successors : ¬ ∀ c : ClosingCrowd (Fin 2),
    ClosingReach openConversation 7 1 twoResets (fun _ _ => True) c → ClosedOnce c := by
  intro h
  have hreach : ClosingReach openConversation 7 1 twoResets (fun _ _ => True)
      (bothSelect.foldl (fun c m => c.call ClosingCall.exec m.1 m.2) resetCrowd) := by
    refine Crowd.reach_calls resetCrowd_start ?_
    exact ⟨⟨trivial, trivial⟩, ⟨trivial, trivial⟩, ⟨fun _ _ => nofun, trivial⟩, ⟨trivial, trivial⟩,
      ⟨trivial, trivial⟩, ⟨fun _ _ => nofun, trivial⟩, ⟨trivial, trivial⟩, ⟨trivial, trivial⟩, trivial⟩
  exact absurd (h _ hreach).successor (by decide)

end MilpbookLM.Chat
