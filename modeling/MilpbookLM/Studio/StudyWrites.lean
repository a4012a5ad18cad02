/-
Concurrent writes of one study state. Each committed write replaces the row that is
committed then, so the revisions count the writes; that it replaced the row its writer
expected holds where no other write is committed between its SELECT and its UPDATE, and
no write that expects a revision finds no row at all.
-/
import MilpbookLM.Studio.StudyState

namespace MilpbookLM.Studio

open Interleave RowLock

variable {P : Type} [DecidableEq P]

abbrev StudyRun (P : Type) := Run P (StudyCall P) StudyAnswer (StudyWorld P)

abbrev StudyPool (P : Type) := Pool P (StudyCall P) StudyAnswer StudyError (StudyWorld P)

/-- Any number of calls for one user and one version. -/
def studyMachine (requests : P → StudyRequest) :
    Machine P (StudyCall P) StudyAnswer StudyError (StudyWorld P) StudyEnv Unit where
  exec := StudyCall.exec
  start p _ := (discard (upsertUserState p (requests p)) : StudyProgram P Unit).run

/-- How far the call of `p` came. -/
def phase (requests : P → StudyRequest) (r : StudyRun P) (p : P) : StudyPhase :=
  r.at (fun p => (requests p).automaton p) p

/-- The statement may run now: a process makes one call, and a statement that writes waits for the lock. -/
def StudyCall.Runs : P → StudyCall P → StudyEnv → StudyRun P → Prop
  | p, .select _, _, r => own p r.trace = []
  | _, .insert t _, env, r | _, .update t _ _, env, r => env.lost = false → r.shared.cell.Free t
  | _, _, _, _ => True

def isSelect (ev : Event P (StudyCall P) StudyAnswer) : Bool :=
  match ev.call with
  | .select _ => true
  | _ => false

def isCommit (ev : Event P (StudyCall P) StudyAnswer) : Bool :=
  match ev.call, ev.answer with
  | .commit _, .ok _ => true
  | _, _ => false

/-- A call with an expected revision finds a row, and no other call commits between its SELECT and its UPDATE. -/
def NoCommitSinceSelect (requests : P → StudyRequest) : P → StudyCall P → StudyEnv → StudyRun P → Prop
  | p, .insert _ _, _, r => (requests p).expectedRevision ≠ none → r.shared.cell.committed ≠ none
  | p, .update .., _, r => (requests p).expectedRevision ≠ none → since isSelect isCommit p r.trace = false
  | _, _, _, _ => True

/-- No row yet. -/
def NoState (w : StudyWorld P) : Prop := w.cell.committed = none ∧ w.cell.pending = none ∧ w.accepted = []

/-! ## The row and the writes it went through -/

/-- `row` is what the request of `p` makes of the row before, which has the revision that it expects. -/
structure Follows (requests : P → StudyRequest) (p : P) (before : Option StudyRow) (row : StudyRow) : Prop where
  state : row.state = (requests p).state
  revision : row.revision = before.elim 0 fun old => old.revision + 1
  same : ∀ old, before = some old → row.stateId = old.stateId
  expected : ∀ n, (requests p).expectedRevision = some n → ∃ old, before = some old ∧ old.revision = n

/-- The writes led to the row, the latest first. -/
def Chain (requests : P → StudyRequest) : Option StudyRow → List (StudyChange P) → Prop
  | none, [] => True
  | some row, change :: changes => change.row = row ∧ Follows requests change.writer change.replaced row ∧
      Chain requests change.replaced changes
  | _, _ => False

section Chains

variable {requests : P → StudyRequest} {row : Option StudyRow} {changes : List (StudyChange P)}

omit [DecidableEq P] in
theorem chain_length (h : Chain requests row changes) : changes.length = row.elim 0 fun row => row.revision + 1 := by
  induction changes generalizing row with
  | nil => cases row <;> first | rfl | cases h
  | cons change changes ih =>
    cases row with
    | none => cases h
    | some row =>
      obtain ⟨-, hf, hchain⟩ := h
      rw [List.length_cons, ih hchain, Option.elim_some, hf.revision]

omit [DecidableEq P] in
/-- Every write replaced a row of the revision that it expected, and no two the same. -/
theorem chain_replaced (h : Chain requests row changes) :
    (∀ change ∈ changes, ∀ n, (requests change.writer).expectedRevision = some n →
      ∃ old, change.replaced = some old ∧ old.revision = n ∧ n + 1 < changes.length) ∧
    changes.Pairwise fun change change' => ∀ n, (requests change.writer).expectedRevision = some n →
      (requests change'.writer).expectedRevision ≠ some n := by
  induction changes generalizing row with
  | nil => exact ⟨by simp, .nil⟩
  | cons change changes ih =>
    cases row with
    | none => cases h
    | some row =>
      obtain ⟨-, hf, hchain⟩ := h
      obtain ⟨hmem, hpair⟩ := ih hchain
      have hlast : ∀ n, (requests change.writer).expectedRevision = some n →
          ∃ old, change.replaced = some old ∧ old.revision = n ∧ changes.length = n + 1 := by
        intro n hn
        obtain ⟨old, hold, hrevision⟩ := hf.expected n hn
        refine ⟨old, hold, hrevision, ?_⟩
        rw [chain_length hchain, hold, ← hrevision]
        rfl
      refine ⟨fun c hc n hn => ?_, List.pairwise_cons.2 ⟨fun c hc n hn hn' => ?_, hpair⟩⟩
      · rcases List.mem_cons.1 hc with rfl | hc
        · obtain ⟨old, hold, hrevision, hlength⟩ := hlast n hn
          exact ⟨old, hold, hrevision, by rw [List.length_cons]; omega⟩
        · obtain ⟨old, hold, hrevision, hlt⟩ := hmem c hc n hn
          exact ⟨old, hold, hrevision, hlt.trans (Nat.lt_succ_self _)⟩
      · obtain ⟨-, -, -, hlength⟩ := hlast n hn
        obtain ⟨old, -, -, hlt⟩ := hmem c hc n hn'
        omega

end Chains

/-! ## What the writers have seen of it -/

section Writers

variable {requests : P → StudyRequest} {r : StudyRun P} {p q : P} {c : StudyCall P} {env : StudyEnv} {row : StudyRow}

theorem phase_self (r : StudyRun P) (p : P) (c : StudyCall P) (env : StudyEnv) :
    phase requests (r.call StudyCall.exec p c env) p = StudyPhase.next c (c.exec env r.shared).1 :=
  Run.at_call_self StudyCall.exec r p c env

theorem phase_other (r : StudyRun P) {p q : P} (h : q ≠ p) (c : StudyCall P) (env : StudyEnv) :
    phase requests (r.call StudyCall.exec p c env) q = phase requests r q :=
  Run.at_call_other StudyCall.exec r h c env

theorem phase_not_idle (h : own p r.trace ≠ []) : phase requests r p ≠ .idle := by
  have hafter : phase requests r p = ((requests p).automaton p).after (own p r.trace) := rfl
  rw [hafter]
  cases htrace : own p r.trace with
  | nil => exact absurd htrace h
  | cons ev t =>
    obtain ⟨c, answer⟩ := ev
    show StudyPhase.next c answer ≠ .idle
    unfold StudyPhase.next
    split <;> exact nofun

structure Kept (requests : P → StudyRequest) (r : StudyRun P) : Prop where
  chain : Chain requests r.shared.cell.committed r.shared.accepted
  pending : ∀ p row, r.shared.cell.pending = some (p, row) →
    phase requests r p = .written ∧ Follows requests p r.shared.cell.committed row
  written : ∀ p, phase requests r p = .written → ∃ row, r.shared.cell.pending = some (p, row)
  found : ∀ p row, phase requests r p = .found row → ∃ now, r.shared.cell.committed = some now ∧ now.stateId = row.stateId ∧
    (since isSelect isCommit p r.trace = false → now = row)
  accepted : ∀ p, (∃ change ∈ r.shared.accepted, change.writer = p) ↔ phase requests r p = .accepted
  once : (r.shared.accepted.map (·.writer)).Nodup

/-- A statement that leaves the committed row, and after which `p` has written nothing. -/
theorem Kept.quiet (h : Kept requests r) (hallows : (requests p).Allows p (phase requests r p) c)
    (hcommitted : (c.exec env r.shared).2.cell.committed = r.shared.cell.committed)
    (haccepted : (c.exec env r.shared).2.accepted = r.shared.accepted)
    (hpending : ∀ q row, (c.exec env r.shared).2.cell.pending = some (q, row) ↔ r.shared.cell.pending = some (q, row) ∧ q ≠ p)
    (hwritten : StudyPhase.next c (c.exec env r.shared).1 ≠ .written)
    (hold : phase requests r p ≠ .accepted) (hnew : StudyPhase.next c (c.exec env r.shared).1 ≠ .accepted)
    (hfound : ∀ row, StudyPhase.next c (c.exec env r.shared).1 = .found row →
      r.shared.cell.committed = some row) : Kept requests (r.call StudyCall.exec p c env) := by
  refine ⟨?_, fun q row hq => ?_, fun q hq => ?_, fun q row hq => ?_, fun q => ?_, ?_⟩
  · rw [Run.call_shared, hcommitted, haccepted]
    exact h.chain
  · obtain ⟨hq, hqp⟩ := (hpending q row).1 hq
    rw [phase_other r hqp, Run.call_shared, hcommitted]
    exact h.pending q row hq
  · have hqp : q ≠ p := by
      intro he
      subst he
      exact hwritten (phase_self r q c env ▸ hq)
    rw [phase_other r hqp] at hq
    obtain ⟨row, hrow⟩ := h.written q hq
    exact ⟨row, (hpending q row).2 ⟨hrow, hqp⟩⟩
  · rw [Run.call_shared, hcommitted]
    by_cases hqp : q = p
    · subst hqp
      rw [phase_self] at hq
      exact ⟨row, hfound row hq, rfl, fun _ => rfl⟩
    · rw [phase_other r hqp] at hq
      obtain ⟨now, hnow, hid, hsame⟩ := h.found q row hq
      exact ⟨now, hnow, hid, fun hs => hsame (since_cons hs (.inl (Ne.symm hqp))).2⟩
  · rw [Run.call_shared, haccepted]
    by_cases hqp : q = p
    · subst hqp
      rw [phase_self, h.accepted q]
      exact ⟨fun h => absurd h hold, fun h => absurd h hnew⟩
    · rw [phase_other r hqp]
      exact h.accepted q
  · rw [Run.call_shared, haccepted]
    exact h.once

/-- A process has one transaction, which has not come to its commit. -/
theorem not_accepted (hallows : (requests p).Allows p (phase requests r p) c) (hruns : c.Runs p env r) :
    c.transaction = p ∧ phase requests r p ≠ .accepted := by
  cases c with
  | select t =>
    refine ⟨hallows.1, ?_⟩
    have hidle : phase requests r p = ((requests p).automaton p).after (own p r.trace) := rfl
    rw [hidle, show own p r.trace = [] from hruns]
    exact nofun
  | insert t state =>
    refine ⟨hallows.1, ?_⟩
    rw [hallows.2.1]
    exact nofun
  | update t stateId state =>
    obtain ⟨ht, -, row, hst, -⟩ := hallows
    refine ⟨ht, ?_⟩
    rw [hst]
    exact nofun
  | load t | commit t =>
    refine ⟨hallows.1, ?_⟩
    rw [hallows.2]
    exact nofun
  | rollback t =>
    obtain ⟨ht, hst | hst | ⟨row, hst⟩⟩ := hallows <;> refine ⟨ht, ?_⟩ <;> rw [hst] <;> exact nofun

/-- A statement that raises and drops what its transaction wrote. -/
theorem kept_rejected (h : Kept requests r) (hallows : (requests p).Allows p (phase requests r p) c) (hruns : c.Runs p env r)
    (hw : (c.exec env r.shared).2 = { r.shared with cell := r.shared.cell.rollback p })
    (hst : StudyPhase.next c (c.exec env r.shared).1 = .rejected) :
    Kept requests (r.call StudyCall.exec p c env) := by
  refine h.quiet hallows ?_ ?_ (fun q row => ?_) ?_ (not_accepted hallows hruns).2 ?_ fun row hrow => ?_
  · rw [hw]; exact Cell.rollback_committed
  · rw [hw]
  · rw [hw]; exact Cell.rollback_pending
  · rw [hst]; exact nofun
  · rw [hst]; exact nofun
  · rw [hst] at hrow
    cases hrow

theorem Kept.own_pending (h : Kept requests r) (hst : phase requests r p ≠ .written) :
    ∀ row, r.shared.cell.pending ≠ some (p, row) := fun row hp => hst (h.pending p row hp).1

/-- A statement of a transaction that wrote nothing, and that leaves everything. -/
theorem kept_read (h : Kept requests r) (hallows : (requests p).Allows p (phase requests r p) c) (hruns : c.Runs p env r)
    (hw : (c.exec env r.shared).2 = r.shared) (hnot : phase requests r p ≠ .written)
    (hwritten : StudyPhase.next c (c.exec env r.shared).1 ≠ .written)
    (hnew : StudyPhase.next c (c.exec env r.shared).1 ≠ .accepted)
    (hfound : ∀ row, StudyPhase.next c (c.exec env r.shared).1 = .found row →
      r.shared.cell.committed = some row) : Kept requests (r.call StudyCall.exec p c env) := by
  refine h.quiet hallows (by rw [hw]) (by rw [hw]) (fun q row => ?_) hwritten (not_accepted hallows hruns).2 hnew hfound
  rw [hw]
  refine ⟨fun hp => ⟨hp, ?_⟩, And.left⟩
  intro he
  subst he
  exact h.own_pending hnot row hp

/-- A write that waits for its commit. -/
theorem kept_write (h : Kept requests r) (hallows : (requests p).Allows p (phase requests r p) c) (hruns : c.Runs p env r)
    (hnone : r.shared.cell.pending = none) (hw : (c.exec env r.shared).2 = { r.shared with cell := r.shared.cell.write p row })
    (hst : StudyPhase.next c (c.exec env r.shared).1 = .written)
    (hfollows : Follows requests p r.shared.cell.committed row) : Kept requests (r.call StudyCall.exec p c env) := by
  have hpending : ∀ q row', (r.call StudyCall.exec p c env).shared.cell.pending = some (q, row') ↔ p = q ∧ row = row' := by
    intro q row'
    rw [Run.call_shared, hw]
    simp
  refine ⟨?_, fun q row' hq => ?_, fun q hq => ?_, fun q row' hq => ?_, fun q => ?_, ?_⟩
  · rw [Run.call_shared, hw]
    exact h.chain
  · obtain ⟨rfl, rfl⟩ := (hpending q row').1 hq
    rw [phase_self, Run.call_shared, hw]
    exact ⟨hst, hfollows⟩
  · by_cases hqp : q = p
    · subst hqp
      exact ⟨row, (hpending q row).2 ⟨rfl, rfl⟩⟩
    · rw [phase_other r hqp] at hq
      obtain ⟨row', hrow'⟩ := h.written q hq
      cases hnone.symm.trans hrow'
  · have hqp : q ≠ p := by
      intro he
      subst he
      rw [phase_self, hst] at hq
      cases hq
    rw [phase_other r hqp] at hq
    rw [Run.call_shared, hw]
    obtain ⟨now, hnow, hid, hsame⟩ := h.found q row' hq
    exact ⟨now, hnow, hid, fun hs => hsame (since_cons hs (.inl (Ne.symm hqp))).2⟩
  · rw [Run.call_shared, hw]
    by_cases hqp : q = p
    · subst hqp
      rw [phase_self, hst, h.accepted q]
      exact ⟨fun hq => absurd hq (not_accepted hallows hruns).2, nofun⟩
    · rw [phase_other r hqp]
      exact h.accepted q
  · rw [Run.call_shared, hw]
    exact h.once

/-- The commit of a write: it is what was committed, and one change more. -/
theorem kept_commit (h : Kept requests r) (hpending : r.shared.cell.pending = some (p, row)) (hlost : env.lost = false) :
    Kept requests (r.call StudyCall.exec p (.commit p) env) := by
  obtain ⟨hst, hfollows⟩ := h.pending p row hpending
  have hexec : (StudyCall.commit p).exec env r.shared =
      (.ok (), ⟨⟨some row, none⟩, ⟨p, r.shared.cell.committed, row⟩ :: r.shared.accepted⟩) := by
    simp [StudyCall.exec, StudyCall.run, hlost, hpending, Cell.commit_own hpending]
  have hself : phase requests (r.call StudyCall.exec p (.commit p) env) p = .accepted := by
    rw [phase_self, hexec]
    rfl
  refine ⟨?_, fun q row' hq => ?_, fun q hq => ?_, fun q row' hq => ?_, fun q => ?_, ?_⟩
  · rw [Run.call_shared, hexec]
    exact ⟨rfl, hfollows, h.chain⟩
  · rw [Run.call_shared, hexec] at hq
    cases hq
  · by_cases hqp : q = p
    · subst hqp
      cases hself.symm.trans hq
    · rw [phase_other r hqp] at hq
      obtain ⟨row', hrow'⟩ := h.written q hq
      cases hpending.symm.trans hrow'
      exact absurd rfl hqp
  · have hqp : q ≠ p := by
      intro he
      subst he
      cases hself.symm.trans hq
    rw [phase_other r hqp] at hq
    obtain ⟨now, hnow, hid, -⟩ := h.found q row' hq
    refine ⟨row, by rw [Run.call_shared, hexec], (hfollows.same now hnow).trans hid, fun hs => ?_⟩
    have hcommit := (since_cons hs (.inl (Ne.symm hqp))).1
    rw [hexec] at hcommit
    cases hcommit
  · rw [Run.call_shared, hexec]
    by_cases hqp : q = p
    · subst hqp
      rw [hself]
      exact ⟨fun _ => rfl, fun _ => ⟨_, List.mem_cons_self, rfl⟩⟩
    · rw [phase_other r hqp, ← h.accepted q]
      simp [Ne.symm hqp]
  · rw [Run.call_shared, hexec]
    refine List.nodup_cons.2 ⟨fun hmem => ?_, h.once⟩
    obtain ⟨change, hchange, hwriter⟩ := List.mem_map.1 hmem
    cases hst.symm.trans ((h.accepted p).1 ⟨change, hchange, hwriter⟩)

theorem exec_lost (hlost : env.lost = true) : c.exec env r.shared =
    (.error (.raised "OperationalError" "connection lost"), { r.shared with cell := r.shared.cell.rollback c.transaction }) := by
  simp [StudyCall.exec, hlost]

theorem exec_run (hlost : env.lost = false) : c.exec env r.shared = c.run env.newId r.shared := by
  simp [StudyCall.exec, hlost]

theorem kept_select (h : Kept requests r) (hallows : (requests p).Allows p (phase requests r p) (.select p))
    (hruns : (StudyCall.select p).Runs p env r) (hlost : env.lost = false) :
    Kept requests (r.call StudyCall.exec p (.select p) env) := by
  have hnot : phase requests r p ≠ .written := by
    rcases hallows.2 with hst | hst <;> rw [hst] <;> exact nofun
  have hexec : (StudyCall.select p).exec env r.shared = (.ok r.shared.cell.committed, r.shared) := by
    rw [exec_run hlost, StudyCall.run, Cell.visible_committed (h.own_pending hnot)]
  have hst : StudyPhase.next (.select p) ((StudyCall.select p).exec env r.shared).1 =
      r.shared.cell.committed.elim .missing .found := by
    rw [hexec]
    cases r.shared.cell.committed <;> rfl
  refine kept_read h hallows hruns (by rw [hexec]) hnot ?_ ?_ fun row hrow => ?_ <;> rw [hst] at *
  · cases r.shared.cell.committed <;> exact nofun
  · cases r.shared.cell.committed <;> exact nofun
  · cases hc : r.shared.cell.committed <;> rw [hc] at hrow <;> cases hrow
    rfl

theorem kept_insert (h : Kept requests r) {state : Dict} (hallows : (requests p).Allows p (phase requests r p) (.insert p state))
    (hruns : (StudyCall.insert p state).Runs p env r) (hcond : NoCommitSinceSelect requests p (.insert p state) env r)
    (hlost : env.lost = false) : Kept requests (r.call StudyCall.exec p (.insert p state) env) := by
  obtain ⟨-, hst, rfl⟩ := id hallows
  have hnot : phase requests r p ≠ .written := by
    rw [hst]
    exact nofun
  have hraised : ∀ name text, (StudyCall.insert p (requests p).state).exec env r.shared = (.error (.raised name text), r.shared) →
      Kept requests (r.call StudyCall.exec p (.insert p (requests p).state) env) := by
    intro name text hexec
    refine kept_read h hallows hruns (by rw [hexec]) hnot ?_ ?_ fun row hrow => ?_ <;> rw [hexec] at *
    · exact nofun
    · exact nofun
    · cases hrow
  have hrun := exec_run (c := .insert p (requests p).state) (r := r) hlost
  rw [StudyCall.run, Cell.visible_committed (h.own_pending hnot)] at hrun
  split at hrun
  · exact hraised _ _ hrun
  · cases hc : r.shared.cell.committed with
    | some row =>
      rw [hc] at hrun
      exact hraised _ _ hrun
    | none =>
      rw [hc] at hrun
      refine kept_write h hallows hruns (Cell.pending_none (hruns hlost) (h.own_pending hnot)) (by rw [hrun]) (by rw [hrun]; rfl) ?_
      rw [hc]
      exact ⟨rfl, rfl, nofun, fun n hn => absurd hc (hcond (by simp [hn]))⟩

theorem kept_update (h : Kept requests r) {stateId : Uuid} {state : Dict}
    (hallows : (requests p).Allows p (phase requests r p) (.update p stateId state))
    (hruns : (StudyCall.update p stateId state).Runs p env r)
    (hcond : NoCommitSinceSelect requests p (.update p stateId state) env r) (hlost : env.lost = false) :
    Kept requests (r.call StudyCall.exec p (.update p stateId state) env) := by
  obtain ⟨-, rfl, row, hst, rfl, hrevision⟩ := id hallows
  have hnot : phase requests r p ≠ .written := by
    rw [hst]
    exact nofun
  obtain ⟨now, hnow, hid, hsame⟩ := h.found p row hst
  have hrun := exec_run (c := .update p row.stateId (requests p).state) (r := r) hlost
  rw [StudyCall.run, Cell.visible_committed (h.own_pending hnot), hnow] at hrun
  split at hrun
  · refine kept_read h hallows hruns (by rw [hrun]) hnot ?_ ?_ fun row hrow => ?_ <;> rw [hrun] at *
    · exact nofun
    · exact nofun
    · cases hrow
  · simp only [if_pos hid] at hrun
    refine kept_write h hallows hruns (Cell.pending_none (hruns hlost) (h.own_pending hnot)) (by rw [hrun]) (by rw [hrun]; rfl) ?_
    rw [hnow]
    refine ⟨rfl, rfl, fun old hold => ?_, fun n hn => ⟨now, rfl, ?_⟩⟩
    · cases hold
      rfl
    · rw [hsame (hcond (by simp [hn]))]
      exact hrevision n hn

theorem kept_load (h : Kept requests r) {stateId : Uuid}
    (hallows : (requests p).Allows p (phase requests r p) (.load p stateId)) (hlost : env.lost = false) :
    Kept requests (r.call StudyCall.exec p (.load p stateId) env) := by
  have hexec := exec_run (c := .load p stateId) (r := r) hlost
  have hphase : ∀ q, phase requests (r.call StudyCall.exec p (.load p stateId) env) q = phase requests r q := by
    intro q
    by_cases hqp : q = p
    · subst hqp
      rw [phase_self, hexec]
      exact hallows.2.symm
    · exact phase_other r hqp _ _
  have hworld : (r.call StudyCall.exec p (.load p stateId) env).shared = r.shared := by
    rw [Run.call_shared, hexec]
    rfl
  refine ⟨?_, fun q row hq => ?_, fun q hq => ?_, fun q row hq => ?_, fun q => ?_, ?_⟩ <;> simp only [hphase, hworld] at *
  · exact h.chain
  · exact h.pending q row hq
  · exact h.written q hq
  · obtain ⟨now, hnow, hid, hsame⟩ := h.found q row hq
    exact ⟨now, hnow, hid, fun hs => hsame (since_cons hs (.inr rfl)).2⟩
  · exact h.accepted q
  · exact h.once

/-- **Every statement keeps it.** -/
theorem kept_step (h : Kept requests r) (hallows : (requests p).Allows p (phase requests r p) c) (hruns : c.Runs p env r)
    (hcond : NoCommitSinceSelect requests p c env r) : Kept requests (r.call StudyCall.exec p c env) := by
  obtain ⟨ht, -⟩ := not_accepted hallows hruns
  by_cases hlost : env.lost = true
  · refine kept_rejected h hallows hruns ?_ ?_
    · rw [exec_lost hlost, ht]
    · rw [exec_lost hlost]
      cases c <;> rfl
  · have hlost : env.lost = false := by simpa using hlost
    cases c with
    | select t => cases ht; exact kept_select h hallows hruns hlost
    | insert t state => cases ht; exact kept_insert h hallows hruns hcond hlost
    | update t stateId state => cases ht; exact kept_update h hallows hruns hcond hlost
    | load t stateId => cases ht; exact kept_load h hallows hlost
    | commit t =>
      cases ht
      obtain ⟨row, hpending⟩ := h.written _ hallows.2
      exact kept_commit h hpending hlost
    | rollback t =>
      cases ht
      refine kept_rejected h hallows hruns ?_ ?_ <;> rw [exec_run hlost] <;> rfl

end Writers

/-! ## Runs -/

section Pools

variable {requests : P → StudyRequest} {r : StudyRun P} {pool : StudyPool P}
  {cond : P → StudyCall P → StudyEnv → StudyRun P → Prop}

/-- The runs of calls that come in order, where `cond` holds of each. -/
abbrev StudyRuns (requests : P → StudyRequest) (cond : P → StudyCall P → StudyEnv → StudyRun P → Prop) : StudyRun P → Prop :=
  Obeying (fun p => (requests p).automaton p) StudyCall.exec NoState cond

theorem study_runs (h : (studyMachine requests).Reach NoState cond pool) : StudyRuns requests cond pool.run ∧
    ∀ p, (pool.procs p).Obeys (fun _ _ => True) ((requests p).automaton p) StudyPhase.Ended (phase requests pool.run p) :=
  Machine.obeys (fun _ _ _ => trivial) (fun _ => .inl rfl)
    (fun p _ _ hst => Prog.Obeys.map ((upsertUserState_obeys hst).mono fun x _ hx => by cases x <;> exact hx)) h

/-- **Every run keeps it.** -/
theorem kept_runs (h : StudyRuns requests (fun p c env r => c.Runs p env r ∧ NoCommitSinceSelect requests p c env r) r) :
    Kept requests r := by
  refine Reach.invariant (I := Kept requests) ?_ ?_ h
  · rintro r ⟨⟨hcommitted, hpending, haccepted⟩, htrace⟩
    have hidle : ∀ p, phase requests r p = .idle := by
      intro p
      show ((requests p).automaton p).after (own p r.trace) = _
      rw [htrace]
      rfl
    refine ⟨?_, fun p row hp => ?_, fun p hp => ?_, fun p row hp => ?_, fun p => ?_, ?_⟩
    · rw [hcommitted, haccepted]
      trivial
    · cases hpending.symm.trans hp
    · cases (hidle p).symm.trans hp
    · cases (hidle p).symm.trans hp
    · rw [haccepted, hidle]
      exact ⟨nofun, nofun⟩
    · rw [haccepted]
      exact .nil
  · rintro r r' - hi ⟨p, c, env, ⟨hruns, hcond⟩, hallows⟩
    exact kept_step hi hallows hruns hcond

/-- The call of `p` returned. -/
def Returned (pool : StudyPool P) (p : P) : Prop := pool.procs p = .ret (.ok ()) ∧ own p pool.run.trace ≠ []

/-- The row has one revision for each call that was accepted, and what the last of them sent. -/
structure LosesNone (requests : P → StudyRequest) (pool : StudyPool P) : Prop where
  revision : pool.run.shared.accepted.length = pool.run.shared.cell.committed.elim 0 fun row => row.revision + 1
  last : ∀ row, pool.run.shared.cell.committed = some row → ∃ change, pool.run.shared.accepted.head? = some change ∧
    change.row = row ∧ row.state = (requests change.writer).state
  /-- A write that expected a revision replaced a row of this revision. -/
  replaced : ∀ change ∈ pool.run.shared.accepted, ∀ n, (requests change.writer).expectedRevision = some n →
    ∃ old, change.replaced = some old ∧ old.revision = n
  /-- Two writes did not expect the same revision. -/
  distinct : pool.run.shared.accepted.Pairwise fun change change' => ∀ n,
    (requests change.writer).expectedRevision = some n → (requests change'.writer).expectedRevision ≠ some n
  /-- A call that was rejected wrote nothing. -/
  rejected : ∀ p x, pool.procs p = .ret (.error x) → ∀ change ∈ pool.run.shared.accepted, change.writer ≠ p
  /-- A call that returned wrote once. -/
  accepted : ∀ p, Returned pool p → ∃ change ∈ pool.run.shared.accepted, change.writer = p
  once : (pool.run.shared.accepted.map (·.writer)).Nodup

/-- **No update is lost**, in every run in which a call with an expected revision finds a row, and no other call commits
between its SELECT and its UPDATE. -/
theorem loses_none (h : (studyMachine requests).Reach NoState
    (fun p c env r => c.Runs p env r ∧ NoCommitSinceSelect requests p c env r) pool) : LosesNone requests pool := by
  obtain ⟨hruns, hprocs⟩ := study_runs h
  have hkept := kept_runs hruns
  refine ⟨chain_length hkept.chain, fun row hrow => ?_, fun change hchange n hn => ?_, (chain_replaced hkept.chain).2,
    fun p x hp change hchange hwriter => ?_, fun p hp => ?_, hkept.once⟩
  · have hchain := hkept.chain
    rw [hrow] at hchain
    cases haccepted : pool.run.shared.accepted with
    | nil =>
      rw [haccepted] at hchain
      cases hchain
    | cons change changes =>
      rw [haccepted] at hchain
      exact ⟨change, rfl, hchain.1, hchain.2.1.state⟩
  · obtain ⟨old, hold, hrevision, -⟩ := (chain_replaced hkept.chain).1 change hchange n hn
    exact ⟨old, hold, hrevision⟩
  · have hended := hprocs p
    rw [hp] at hended
    cases ((hkept.accepted p).1 ⟨change, hchange, hwriter⟩).symm.trans hended
  · have hended := hprocs p
    rw [hp.1] at hended
    rcases hended with hst | hst
    · exact absurd hst (phase_not_idle hp.2)
    · exact (hkept.accepted p).2 hst

end Pools

/-! ## Schedules -/

/-- The first write of a state, and two that expect its revision. -/
def studyRequests : Fin 3 → StudyRequest
  | 0 => { state := [("progress", .int 1)] }
  | 1 => { state := [("progress", .int 2)], expectedRevision := some 0 }
  | 2 => { state := [("progress", .int 3)], expectedRevision := some 0 }

def studyPool : StudyPool (Fin 3) := ⟨⟨{}, []⟩, fun _ => .ret (.ok ())⟩

theorem studyPool_idle : Pool.Idle NoState studyPool := ⟨⟨⟨rfl, rfl, rfl⟩, rfl⟩, fun _ => rfl⟩

/-- A call from its SELECT to its commit, `p` alone. -/
def writeMoves (p : Fin 3) : List (Move (Fin 3) StudyEnv Unit) :=
  [.start p (), .call p {}, .call p { newId := 7 }, .call p {}, .call p {}]

/-- After the first write the two others select, and then write one after the other. -/
def staleMoves : List (Move (Fin 3) StudyEnv Unit) :=
  writeMoves 0 ++ [.start 1 (), .start 2 (), .call 1 {}, .call 2 {}, .call 1 {}, .call 1 {}, .call 1 {}, .call 2 {}, .call 2 {},
    .call 2 {}]

/-- A write that expects the revision of the first. -/
theorem loses_none_of_edit : ∃ pool : StudyPool (Fin 3), (studyMachine studyRequests).Reach NoState
    (fun p c env r => c.Runs p env r ∧ NoCommitSinceSelect studyRequests p c env r) pool ∧
      Returned pool 1 ∧ LosesNone studyRequests pool := by
  have hreach : (studyMachine studyRequests).Reach NoState
      (fun p c env r => c.Runs p env r ∧ NoCommitSinceSelect studyRequests p c env r)
      ((writeMoves 0 ++ writeMoves 1).foldl (studyMachine studyRequests).move studyPool) := by
    refine Machine.reach_moves (.start studyPool_idle) ?_
    exact ⟨trivial, ⟨rfl, trivial⟩, ⟨fun _ => nofun, fun h => absurd rfl h⟩, ⟨trivial, trivial⟩, ⟨trivial, trivial⟩,
      trivial, ⟨rfl, trivial⟩, ⟨fun _ => nofun, fun _ => rfl⟩, ⟨trivial, trivial⟩, ⟨trivial, trivial⟩, trivial⟩
  exact ⟨_, hreach, ⟨rfl, nofun⟩, loses_none hreach⟩

/-- Two calls that both selected revision 0, and both expected it, are both accepted. -/
theorem stale_write_accepted : ∃ pool : StudyPool (Fin 3),
    (studyMachine studyRequests).Reach NoState (fun p c env r => c.Runs p env r) pool ∧ ¬ LosesNone studyRequests pool := by
  refine ⟨staleMoves.foldl (studyMachine studyRequests).move studyPool, Machine.reach_moves (.start studyPool_idle) ?_, ?_⟩
  · exact ⟨trivial, rfl, fun _ => nofun, trivial, trivial, trivial, trivial, rfl, rfl, fun _ => nofun, trivial, trivial,
      fun _ => nofun, trivial, trivial, trivial⟩
  · intro h
    have hpair := h.distinct
    exact (List.pairwise_cons.1 hpair).1 _ List.mem_cons_self 0 rfl rfl

end MilpbookLM.Studio
