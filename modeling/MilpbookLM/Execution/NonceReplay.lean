/-
The nonces that concurrent `check_and_record` calls accept. A call reads the clock, and
enters the locked section later, so another one with a later clock may have pruned what it
looks for: no nonce is accepted twice exactly when no call is overtaken so (`accepted_once`).
-/
import MilpbookLM.Execution.SpecProtocol
import MilpbookLM.Lib.Interleave

namespace MilpbookLM.Execution

open Interleave

variable {F : Type}

/-! ## The calls -/

/-- A call that came to the locked section, and whether it was accepted. -/
structure ReplayEntry (F : Type) where
  nonce : PyStr
  issuedAt : F
  current : F
  accepted : Bool

/-- The ledger; and the calls that came to the locked section, latest first, which no call reads. -/
structure ReplayWorld (F : Type) where
  guard : NonceReplayGuard F
  entries : List (ReplayEntry F) := []

inductive ReplayCall (F : Type)
  | now
  | locked (nonce : PyStr) (issuedAt current : F)

def ReplayResult : ReplayCall F → Type
  | .now => F
  | .locked .. => Unit

abbrev ReplayAnswer (c : ReplayCall F) : Type := Except Raised (ReplayResult c)

/-- The clock is read from the environment. -/
def ReplayCall.exec (fl : Floats F) : Exec (ReplayCall F) ReplayAnswer (ReplayWorld F) F
  | .now, clock, w => (.ok clock, w)
  | .locked nonce issuedAt current, _, w =>
    let (checked, guard) := w.guard.record fl nonce issuedAt current
    (checked, ⟨guard, ⟨nonce, issuedAt, current, checked.isOk⟩ :: w.entries⟩)

abbrev ReplayProgram (F α : Type) := ExceptT Raised (Prog (ReplayCall F) ReplayAnswer) α

def ReplayCall.perform (c : ReplayCall F) : ReplayProgram F (ReplayResult c) := ExceptT.mk (Prog.perform c)

/-- `check_and_record`. -/
def checkAndRecord (fl : Floats F) (window : F) (nonce : PyStr) (issuedAt : F) : ReplayProgram F Unit := do
  let current : F ← ReplayCall.now.perform
  if NonceReplayGuard.stale fl { window } current issuedAt then
    throw (.refused .nonceStale (lit "nonce timestamp outside window"))
  (ReplayCall.locked nonce issuedAt current).perform

/-- Any number of calls, each of a verified envelope's nonce and timestamp. -/
def replayMachine (P : Type) (fl : Floats F) (window : F) :
    Machine P (ReplayCall F) ReplayAnswer Raised (ReplayWorld F) F (PyStr × F) where
  exec := ReplayCall.exec fl
  start _ envelope := (checkAndRecord fl window envelope.1 envelope.2).run

abbrev ReplayPool (P F : Type) := Pool P (ReplayCall F) ReplayAnswer Raised (ReplayWorld F)

/-- An empty ledger. -/
def EmptyLedger (window : F) (w : ReplayWorld F) : Prop := w.guard = { window } ∧ w.entries = []

/-! ## What was accepted, and what was pruned -/

/-- No nonce was accepted twice. -/
def AcceptedOnce (entries : List (ReplayEntry F)) : Prop := ((entries.filter (·.accepted)).map (·.nonce)).Nodup

/-- After the calls `entries`, a call of `nonce` that read the clock at `current` finds what was accepted of this nonce:
neither itself nor a call after the acceptance had a clock that prunes it. -/
def NotOvertaken (fl : Floats F) (window : F) (entries : List (ReplayEntry F)) (nonce : PyStr) (current : F) : Prop :=
  ∀ later earlier e, entries = later ++ e :: earlier → e.accepted = true → e.nonce = nonce →
    retained fl window current e.issuedAt = true ∧ ∀ e' ∈ later, retained fl window e'.current e.issuedAt = true

/-- No call of the run was overtaken. -/
def NoneOvertaken (fl : Floats F) (window : F) : List (ReplayEntry F) → Prop
  | [] => True
  | e :: entries => NotOvertaken fl window entries e.nonce e.current ∧ NoneOvertaken fl window entries

/-- What the calls leave in the ledger. -/
def ledgerOf (fl : Floats F) (window : F) : List (ReplayEntry F) → List (PyStr × F)
  | [] => []
  | e :: entries =>
    let kept := (ledgerOf fl window entries).filter fun seen => retained fl window e.current seen.2
    if e.accepted then kept ++ [(e.nonce, e.issuedAt)] else kept

/-- A call is accepted when the ledger, pruned at its clock, has not its nonce. -/
def Checked (fl : Floats F) (window : F) : List (ReplayEntry F) → Prop
  | [] => True
  | e :: entries =>
    (e.accepted = true ↔ ∀ seen ∈ ledgerOf fl window entries, seen.1 = e.nonce → retained fl window e.current seen.2 = false) ∧
      Checked fl window entries

section Entries

variable {fl : Floats F} {window : F} {entries : List (ReplayEntry F)} {nonce : PyStr} {issuedAt : F}

/-- A record is that of an accepted call that no later call pruned. -/
theorem mem_ledgerOf : (nonce, issuedAt) ∈ ledgerOf fl window entries ↔ ∃ later earlier e, entries = later ++ e :: earlier ∧
    e.accepted = true ∧ e.nonce = nonce ∧ e.issuedAt = issuedAt ∧ ∀ e' ∈ later, retained fl window e'.current issuedAt = true := by
  induction entries with
  | nil => simp [ledgerOf]
  | cons x entries ih =>
    have hmem : (nonce, issuedAt) ∈ ledgerOf fl window (x :: entries) ↔
        ((nonce, issuedAt) ∈ ledgerOf fl window entries ∧ retained fl window x.current issuedAt = true) ∨
          (x.accepted = true ∧ nonce = x.nonce ∧ issuedAt = x.issuedAt) := by
      simp only [ledgerOf]
      split
      · next hx => simp [hx]
      · next hx => simp [hx]
    rw [hmem, ih]
    constructor
    · rintro (⟨⟨later, earlier, e, rfl, he, hn, hi, hlater⟩, hx⟩ | ⟨hx, rfl, rfl⟩)
      · refine ⟨x :: later, earlier, e, rfl, he, hn, hi, fun e' he' => ?_⟩
        rcases List.mem_cons.1 he' with rfl | he'
        · exact hx
        · exact hlater e' he'
      · exact ⟨[], entries, x, rfl, hx, rfl, rfl, by simp⟩
    · rintro ⟨later, earlier, e, heq, he, hn, hi, hlater⟩
      cases later with
      | nil =>
        obtain ⟨rfl, rfl⟩ : x = e ∧ entries = earlier := by simpa using heq
        exact .inr ⟨he, hn.symm, hi.symm⟩
      | cons y later =>
        obtain ⟨rfl, rfl⟩ : x = y ∧ entries = later ++ e :: earlier := by simpa using heq
        exact .inl ⟨⟨later, earlier, e, rfl, he, hn, hi, fun e' he' => hlater e' (List.mem_cons_of_mem _ he')⟩,
          hlater x List.mem_cons_self⟩

theorem acceptedOnce_cons {x : ReplayEntry F} : AcceptedOnce (x :: entries) ↔
    (x.accepted = true → ∀ e ∈ entries, e.accepted = true → e.nonce ≠ x.nonce) ∧ AcceptedOnce entries := by
  unfold AcceptedOnce
  cases hx : x.accepted with
  | false => simp [hx]
  | true =>
    simp only [List.filter_cons, hx, if_true, List.map_cons, List.nodup_cons, List.mem_map, List.mem_filter, not_exists, not_and,
      true_implies, and_imp]

/-- One nonce is accepted in one place. -/
theorem split_unique (h : AcceptedOnce entries) {later earlier later' earlier' : List (ReplayEntry F)} {e e' : ReplayEntry F}
    (hs : entries = later ++ e :: earlier) (hs' : entries = later' ++ e' :: earlier') (he : e.accepted = true)
    (he' : e'.accepted = true) (hn : e.nonce = e'.nonce) : later = later' ∧ e = e' := by
  induction later generalizing entries later' with
  | nil =>
    cases later' with
    | nil =>
      rw [hs] at hs'
      exact ⟨rfl, by simpa using (List.cons.inj hs').1⟩
    | cons y later' =>
      rw [hs] at hs' h
      obtain ⟨rfl, rfl⟩ := List.cons.inj hs'
      exact absurd hn.symm ((acceptedOnce_cons.1 h).1 he e' (by simp) he')
  | cons x later ih =>
    cases later' with
    | nil =>
      rw [hs'] at hs h
      obtain ⟨rfl, rfl⟩ := List.cons.inj hs
      exact absurd hn ((acceptedOnce_cons.1 h).1 he' e (by simp) he)
    | cons y later' =>
      rw [hs] at hs' h
      obtain ⟨rfl, heq⟩ := List.cons.inj hs'
      obtain ⟨rfl, rfl⟩ := ih (acceptedOnce_cons.1 h).2 rfl heq
      exact ⟨rfl, rfl⟩

/-- **No nonce is accepted twice exactly when no call was overtaken.** -/
theorem acceptedOnce_iff (h : Checked fl window entries) : AcceptedOnce entries ↔ NoneOvertaken fl window entries := by
  induction entries with
  | nil => simp [AcceptedOnce, NoneOvertaken]
  | cons x entries ih =>
    obtain ⟨hx, hentries⟩ := h
    rw [acceptedOnce_cons, NoneOvertaken, ← ih hentries]
    constructor
    · rintro ⟨hfresh, honce⟩
      refine ⟨fun later earlier e hs he hn => ?_, honce⟩
      have hrefused : ¬ x.accepted = true := fun hacc => hfresh hacc e (by simp [hs]) he hn
      rw [hx] at hrefused
      push Not at hrefused
      obtain ⟨⟨nonce, issuedAt⟩, hseen, hnonce, hretained⟩ := hrefused
      obtain ⟨later', earlier', e', hs', he', hn', rfl, hlater⟩ := mem_ledgerOf.1 hseen
      obtain ⟨rfl, rfl⟩ := split_unique honce hs hs' he he' (hn.trans (hnonce.symm.trans hn'.symm))
      exact ⟨by simpa using hretained, hlater⟩
    · rintro ⟨hkept, honce⟩
      refine ⟨fun hacc e he hacc' hn => ?_, honce⟩
      obtain ⟨later, earlier, rfl⟩ := List.append_of_mem he
      obtain ⟨hretained, hlater⟩ := hkept later earlier e rfl hacc' hn
      have hpruned := hx.1 hacc (e.nonce, e.issuedAt) (mem_ledgerOf.2 ⟨later, earlier, e, rfl, hacc', rfl, rfl, hlater⟩) hn
      cases hretained.symm.trans hpruned

end Entries

/-! ## Runs -/

section Runs

variable {P : Type} [DecidableEq P] {fl : Floats F} {window : F} {pool : ReplayPool P F}

/-- The ledger is what the calls leave in it. -/
def Kept (fl : Floats F) (window : F) (w : ReplayWorld F) : Prop :=
  w.guard = ⟨window, ledgerOf fl window w.entries⟩ ∧ Checked fl window w.entries

/-- **Every call keeps it.** -/
theorem kept_exec {c : ReplayCall F} {clock : F} {w : ReplayWorld F} (h : Kept fl window w) :
    Kept fl window (c.exec fl clock w).2 := by
  cases c with
  | now => exact h
  | locked nonce issuedAt current =>
    obtain ⟨guard, entries⟩ := w
    obtain ⟨hguard, hchecked⟩ := h
    obtain rfl : guard = ⟨window, ledgerOf fl window entries⟩ := hguard
    have hany : (((ledgerOf fl window entries).filter fun seen => retained fl window current seen.2).any (·.1 == nonce)) = false ↔
        ∀ seen ∈ ledgerOf fl window entries, seen.1 = nonce → retained fl window current seen.2 = false := by
      simp only [List.any_eq_false, List.mem_filter, beq_iff_eq, and_imp]
      exact ⟨fun h seen hs hn => by simpa using fun hr => h seen hs hr hn, fun h seen hs hr hn => by simp [h seen hs hn] at hr⟩
    cases hreplay : ((ledgerOf fl window entries).filter fun seen => retained fl window current seen.2).any (·.1 == nonce) with
    | true =>
      have hexec : (ReplayCall.locked nonce issuedAt current).exec fl clock ⟨⟨window, ledgerOf fl window entries⟩, entries⟩ =
          (refuse .nonceReplay "nonce already used",
            ⟨⟨window, (ledgerOf fl window entries).filter fun seen => retained fl window current seen.2⟩,
              ⟨nonce, issuedAt, current, false⟩ :: entries⟩) := by
        simp only [ReplayCall.exec, NonceReplayGuard.record, NonceReplayGuard.prune, hreplay, if_true]
        rfl
      rw [hexec]
      refine ⟨rfl, ⟨nofun, fun hnone => ?_⟩, hchecked⟩
      rw [hany.2 hnone] at hreplay
      cases hreplay
    | false =>
      have hexec : (ReplayCall.locked nonce issuedAt current).exec fl clock ⟨⟨window, ledgerOf fl window entries⟩, entries⟩ =
          (.ok (), ⟨⟨window, ((ledgerOf fl window entries).filter fun seen => retained fl window current seen.2) ++ [(nonce, issuedAt)]⟩,
            ⟨nonce, issuedAt, current, true⟩ :: entries⟩) := by
        simp only [ReplayCall.exec, NonceReplayGuard.record, NonceReplayGuard.prune, hreplay]
        rfl
      rw [hexec]
      exact ⟨rfl, ⟨fun _ => hany.1 hreplay, fun _ => rfl⟩, hchecked⟩

/-- **A nonce is accepted at most once exactly when no call is overtaken** between its reading of the clock and its locked
section by a call whose clock prunes what was accepted of its nonce, in every run, of any calls. -/
theorem accepted_once (h : (replayMachine P fl window).Reach (EmptyLedger window) (fun _ _ _ _ => True) pool) :
    AcceptedOnce pool.run.shared.entries ↔ NoneOvertaken fl window pool.run.shared.entries := by
  have hkept : Kept fl window pool.run.shared := by
    refine Reach.invariant (I := fun pool => Kept fl window pool.run.shared) ?_ ?_ h
    · rintro pool ⟨⟨⟨hguard, hentries⟩, -⟩, -⟩
      rw [Kept, hentries, hguard]
      exact ⟨rfl, trivial⟩
    · rintro pool pool' - hi hst
      rcases Machine.shared_step hst with ⟨p, c, k, clock, -, hshared⟩ | hshared
      · rw [hshared]
        exact kept_exec hi
      · rw [hshared]
        exact hi
  exact acceptedOnce_iff hkept.2

end Runs

/-! ## Schedules -/

/-- The envelopes of two nonces, sixteen letters each. -/
def nonceA : PyStr := List.replicate 16 0x41
def nonceB : PyStr := List.replicate 16 0x42

def ledgerPool : ReplayPool (Fin 3) Int := ⟨⟨⟨{ window := 300 }, []⟩, []⟩, fun _ => .ret (.ok ())⟩

abbrev wholeMachine := replayMachine (Fin 3) wholeFloats 300

theorem ledgerPool_idle : Pool.Idle (EmptyLedger 300) ledgerPool := ⟨⟨⟨rfl, rfl⟩, rfl⟩, fun _ => rfl⟩

/-- An envelope, and the same envelope again at the end of its window. -/
def replayMoves : List (Move (Fin 3) Int (PyStr × Int)) :=
  [.start 0 (nonceA, 0), .call 0 0, .call 0 0, .start 1 (nonceA, 0), .call 1 300, .call 1 300]

/-- The same; but a call of another nonce, one second later, is between the clock of the second and its locked section. -/
def overtakenMoves : List (Move (Fin 3) Int (PyStr × Int)) :=
  [.start 0 (nonceA, 0), .call 0 0, .call 0 0, .start 1 (nonceA, 0), .call 1 300, .start 2 (nonceB, 301), .call 2 301,
    .call 2 301, .call 1 301]

/-- The clock does not go back: what it was read at before is not after `clock`. -/
def forward : List (Event (Fin 3) (ReplayCall Int) ReplayAnswer) → Int → Bool
  | ⟨_, .now, .ok before⟩ :: trace, clock => (show Int from before) ≤ clock && forward trace clock
  | _ :: trace, clock => forward trace clock
  | [], _ => true

/-- The envelope that comes again is refused. -/
theorem accepted_once_of_replay : ∃ pool : ReplayPool (Fin 3) Int,
    wholeMachine.Reach (EmptyLedger 300) (fun _ _ _ _ => True) pool ∧ pool.run.shared.entries.length = 2 ∧
      AcceptedOnce pool.run.shared.entries ∧ NoneOvertaken wholeFloats 300 pool.run.shared.entries := by
  have hreach : wholeMachine.Reach (EmptyLedger 300) (fun _ _ _ _ => True) (replayMoves.foldl wholeMachine.move ledgerPool) :=
    Machine.reach_moves (.start ledgerPool_idle) Machine.meets_true
  have honce : AcceptedOnce (replayMoves.foldl wholeMachine.move ledgerPool).run.shared.entries := by
    unfold AcceptedOnce
    decide
  exact ⟨_, hreach, rfl, honce, (accepted_once hreach).1 honce⟩

/-- The same envelope is accepted twice. -/
theorem nonce_accepted_twice : ∃ pool : ReplayPool (Fin 3) Int,
    wholeMachine.Reach (EmptyLedger 300) (fun _ _ clock r => forward r.trace clock = true) pool ∧
      ¬ AcceptedOnce pool.run.shared.entries := by
  refine ⟨overtakenMoves.foldl wholeMachine.move ledgerPool, Machine.reach_moves (.start ledgerPool_idle) ?_, ?_⟩
  · decide
  · unfold AcceptedOnce
    decide

end MilpbookLM.Execution
