/-
Hot and media models on the GPU. The gate keeps references of one class out while there are
references of the other. Processes are apart as well in every run whose steps are guarded:
no hot load passes the gate before the last media process has stopped, and no start is
called of a model without references (`exclusive_of_guarded`).
-/
import MilpbookLM.Workers.InferenceSteps

namespace MilpbookLM.Inference

open Manager

variable {C M : Type}

/-- No media process and hot process at the same time. -/
def Exclusive (P : Profiles M) (s : Manager C M) : Prop :=
  ∀ m h, P.workload m = .media → P.workload h ≠ .media → ¬ (s.Running m ∧ s.Running h)

/-- A hot load passes the gate when no media process is running, and a start is called of a model with references. -/
def Guarded (P : Profiles M) (s : Manager C M) : Move C M → Prop
  | .resume c _ running =>
    (∀ h session, s.pc c = .entering h session ∨ s.pc c = .notified h session → P.workload h ≠ .media →
      s.hasActiveConflict P h = false → ∀ m, P.workload m = .media → ¬ s.Running m) ∧
    ∀ m session, s.pc c = .locking m session → running m = false → 0 < s.references m
  | _ => True

/-- One is a media model and the other is not. -/
def Opposed (P : Profiles M) (x y : M) : Prop := P.workload x = .media ↔ P.workload y ≠ .media

/-- What the gate and the locks keep. -/
structure Apart (P : Profiles M) (s : Manager C M) : Prop where
  gate : ∀ c, (s.pc c).gated = true → s.gate = some c
  lock : ∀ c m, (s.pc c).locked = some m → s.lock m = some c
  classes : ∀ x y, Opposed P x y → s.references x = 0 ∨ s.references y = 0
  starts : ∀ c m, (s.pc c).starts = some m → 0 < s.references m
  stops : ∀ c m, s.pc c = .stopping m → P.workload m = .media
  sweeps : ∀ c m rest, (s.pc c).sweeps = some (m, rest) → P.workload m = .media ∧
    ∀ h, P.workload h ≠ .media → s.references h = 0 ∧ (h ∉ rest → s.alive h = false)
  resident : ∀ x y, Opposed P x y → 0 < s.references x → ¬ s.Running y
  exclusive : ∀ x y, Opposed P x y → ¬ (s.Running x ∧ s.Running y)

section Facts

variable {P : Profiles M} {s s' : Manager C M} {c : C} {running : M → Bool}

theorem hot_iff {m : M} : (P.workload m).hot = true ↔ P.workload m ≠ .media := by
  cases P.workload m <;> decide

theorem conflict_media {m h : M} (hm : P.workload m = .media) (hc : s.hasActiveConflict P m = false)
    (hh : P.workload h ≠ .media) : s.references h = 0 := by
  rw [hasActiveConflict, if_pos hm, List.any_eq_false] at hc
  have hnone := hc h (P.complete h)
  simp only [hot_iff.2 hh, Bool.true_and, decide_eq_true_eq] at hnone
  omega

theorem conflict_hot {m h : M} (hh : P.workload h ≠ .media) (hc : s.hasActiveConflict P h = false)
    (hm : P.workload m = .media) : s.references m = 0 := by
  rw [hasActiveConflict, if_neg hh, List.any_eq_false] at hc
  have hnone := hc m (P.complete m)
  simp only [hm, decide_true, Bool.true_and, decide_eq_true_eq] at hnone
  omega

/-- Under the gate of a media load no hot model has a reference, or is being stopped by another. -/
theorem sweeping_facts (hi : Apart P s) {m : M} {session : Bool} {rest : List M} (h : s.Sweeping P c m session rest) :
    P.workload m = .media ∧ ∀ h, P.workload h ≠ .media →
      s.references h = 0 ∧ (h ∉ rest → s.alive h = false) ∧ ¬ s.Stopping h := by
  have hstop : ∀ h, P.workload h ≠ .media → (∀ c', (s.pc c').gated = true → c' = c) → (s.pc c).stops = none →
      ¬ s.Stopping h := by
    rintro h hh honly hnone ⟨c', hc'⟩
    cases hpc : s.pc c' with
    | stopping m' =>
      rw [hpc] at hc'
      cases hc'
      exact hh (hi.stops c' h hpc)
    | evicting m' session' h' rest' =>
      obtain rfl := honly c' (by rw [hpc]; rfl)
      rw [hnone] at hc'
      cases hc'
    | _ =>
      rw [hpc] at hc'
      cases hc'
  rcases h with hpc | ⟨hpc, hgate, hconflict, hmedia, rfl⟩
  · obtain ⟨hmedia, hhot⟩ := hi.sweeps c m rest (by rw [hpc]; rfl)
    refine ⟨hmedia, fun h hh => ⟨(hhot h hh).1, (hhot h hh).2, hstop h hh (fun c' hc' => ?_) (by rw [hpc]; rfl)⟩⟩
    have hc := hi.gate c (by rw [hpc]; rfl)
    rw [hi.gate c' hc'] at hc
    exact Option.some.inj hc
  · refine ⟨hmedia, fun h hh => ⟨conflict_media hmedia hconflict hh, fun hnot => absurd (P.complete h) hnot, ?_⟩⟩
    refine hstop h hh (fun c' hc' => ?_) (by rcases hpc with hpc | hpc <;> rw [hpc] <;> rfl)
    have hc := hi.gate c' hc'
    rw [hgate] at hc
    cases hc

/-- A hot model that a sweep passed over has no process. -/
theorem swept_stopped (hi : Apart P s) (hanswers : s.Answers running) {m h : M} {session : Bool} {rest : List M}
    (hsweep : s.Sweeping P c m session rest) (hh : P.workload h ≠ .media) (hidle : h ∈ rest → ¬ s.Idle P running h) :
    s.alive h = false := by
  obtain ⟨hrefs, hrest, hstop⟩ := (sweeping_facts hi hsweep).2 h hh
  by_cases hmem : h ∈ rest
  · by_contra halive
    rw [Bool.not_eq_false] at halive
    exact hidle hmem ⟨hot_iff.2 hh, hrefs, (hanswers h).1 halive hstop⟩
  · exact hrest hmem

/-- A load that takes its reference finds the other class without references and processes. -/
theorem reserved_facts (hi : Apart P s) (hanswers : s.Answers running)
    (hgate : ∀ h session, s.pc c = .entering h session ∨ s.pc c = .notified h session → P.workload h ≠ .media →
      s.hasActiveConflict P h = false → ∀ m, P.workload m = .media → ¬ s.Running m)
    {x : M} {session : Bool} (hreserved : Reserved P s running c x session) :
    (∀ y, Opposed P x y → s.references y = 0 ∧ ¬ s.Running y) ∧
      ∀ y session, s.pc c ≠ .locking y session := by
  rcases hreserved with ⟨hpc, -, hhot, hconflict⟩ | ⟨rest, hsweep, hidle⟩
  · refine ⟨fun y hy => ?_, fun y session hlocking => ?_⟩
    · have hmedia : P.workload y = .media := not_not.1 fun hy' => hhot (hy.2 hy')
      exact ⟨conflict_hot hhot hconflict hmedia, hgate x session hpc hhot hconflict y hmedia⟩
    · rcases hpc with hpc | hpc <;> rw [hpc] at hlocking <;> cases hlocking
  · have hfacts := sweeping_facts hi hsweep
    refine ⟨fun y hy => ?_, fun y session hlocking => ?_⟩
    · have hhot := hy.1 hfacts.1
      refine ⟨(hfacts.2 y hhot).1, ?_⟩
      rintro (halive | ⟨c', hc'⟩)
      · rw [swept_stopped hi hanswers hsweep hhot (hidle y)] at halive
        cases halive
      · have hpos := hi.starts c' y hc'
        have hzero := (hfacts.2 y hhot).1
        omega
    · rcases hsweep with hpc | ⟨hpc | hpc, -⟩ <;> rw [hpc] at hlocking <;> cases hlocking

/-- A coroutine loads one model. -/
theorem reserved_unique {x y : M} {session session' : Bool} (hx : Reserved P s running c x session)
    (hy : Reserved P s running c y session') : x = y := by
  have hpc : ∀ x session, Reserved P s running c x session → s.pc c = .entering x session ∨ s.pc c = .notified x session ∨
      ∃ rest, s.pc c = .scanning x session rest := by
    rintro x session (⟨hpc | hpc, -⟩ | ⟨rest, hpc | ⟨hpc | hpc, -⟩, -⟩)
    · exact .inl hpc
    · exact .inr (.inl hpc)
    · exact .inr (.inr ⟨rest, hpc⟩)
    · exact .inl hpc
    · exact .inr (.inl hpc)
  rcases hpc x session hx with hx | hx | ⟨rest, hx⟩ <;> rcases hpc y session' hy with hy | hy | ⟨rest', hy⟩ <;>
    rw [hx] at hy <;> cases hy <;> rfl

theorem opposed_symm {x y : M} (h : Opposed P x y) : Opposed P y x :=
  ⟨fun hy hx => h.1 hx hy, fun hx => not_not.1 fun hy => hx (h.2 hy)⟩

theorem not_opposed_self (x : M) : ¬ Opposed P x x := fun h => (iff_not_self h).elim

end Facts

/-! ## Steps -/

section Steps

variable [DecidableEq C] [DecidableEq M] {P : Profiles M} {s s' : Manager C M} {c : C} {running : M → Bool}

/-- Who awaits a start after a step did so before it, or calls it. -/
theorem starts_effect (h : Effect P s running c s') {c' : C} {m : M} (hm : (s'.pc c').starts = some m) :
    (s.pc c').starts = some m ∨ s'.references = s.references ∧ ∃ session, s.pc c = .locking m session ∧ running m = false := by
  by_cases hne : c' = c
  · subst hne
    cases h with
    | moved pc _ hpc =>
      rw [goto_pc, if_pos rfl, (plain_facts hpc).1] at hm
      cases hm
    | serial m' holder pc _ hpc =>
      rw [goto_pc, if_pos rfl, (plain_facts hpc).1] at hm
      cases hm
    | admitted m' session =>
      rw [(plain_facts (reserve_own m' session)).1] at hm
      cases hm
    | swept m' session =>
      rw [(plain_facts (reserve_own m' session)).1] at hm
      cases hm
    | start m' session hpc hlock hr =>
      rw [goto_pc, if_pos rfl] at hm
      cases hm
      exact .inr ⟨rfl, session, hpc, hr⟩
    | started m' session hpc =>
      rw [goto_pc, if_pos rfl, (returned_facts m' session).2.2.1] at hm
      cases hm
    | _ =>
      rw [goto_pc, if_pos rfl] at hm
      cases hm
  · rw [(others_same h hne).2.2.1] at hm
    exact .inl hm

theorem alive_effect (h : Effect P s running c s') {m : M} (hm : s'.alive m = true) : s.Running m := by
  have hstop : ∀ h m, (if m = h then false else s.alive m) = true → s.Running m := by
    intro h m hm
    split at hm
    · cases hm
    · exact .inl hm
  cases h with
  | evicted m' session h rest => exact hstop h m (by simpa using hm)
  | stopped m' hpc => exact hstop m' m (by simpa using hm)
  | started m' session hpc =>
    simp only [goto_alive, setLock_alive, setAlive_alive] at hm
    split at hm
    · next heq =>
      subst heq
      exact .inr ⟨c, by rw [hpc]; rfl⟩
    · exact .inl hm
  | _ => exact .inl hm

/-- A process that is running after a step was so before it, or its start is called. -/
theorem running_effect (h : Effect P s running c s') {m : M} (hm : s'.Running m) :
    s.Running m ∨ ∃ session, s.pc c = .locking m session ∧ running m = false := by
  rcases hm with hm | ⟨c', hc'⟩
  · exact .inl (alive_effect h hm)
  · exact (starts_effect h hc').imp (fun hs => .inr ⟨c', hs⟩) And.right

/-! ## The invariant -/

theorem stops_own (h : Effect P s running c s') {m : M} (hm : s'.pc c = .stopping m) : P.workload m = .media := by
  have hplain : ∀ {pc : Pc M}, pc.plain → pc ≠ .stopping m := by
    rintro pc hpc rfl
    cases hpc.2
  cases h with
  | moved pc _ hpc => exact absurd (by simpa using hm) (hplain hpc)
  | serial m' holder pc _ hpc => exact absurd (by simpa using hm) (hplain hpc)
  | admitted m' session => exact absurd hm (hplain (reserve_own m' session))
  | swept m' session => exact absurd hm (hplain (reserve_own m' session))
  | started m' session => exact absurd (by simpa using hm) (hplain (returned_plain m' session).1)
  | lastReleased m' hpc hlock hone hcold =>
    rw [goto_pc, if_pos rfl] at hm
    cases hm
    by_contra hhot
    rw [hot_iff.2 hhot] at hcold
    cases hcold
  | _ =>
    rw [goto_pc, if_pos rfl] at hm
    cases hm

/-- What a load under the gate has looked at has no process. -/
theorem sweeps_own (hi : Apart P s) (hanswers : s.Answers running) (h : Effect P s running c s') {m : M} {rest : List M}
    (hm : (s'.pc c).sweeps = some (m, rest)) : P.workload m = .media ∧
      ∀ h, P.workload h ≠ .media → s'.references h = 0 ∧ (h ∉ rest → s'.alive h = false) := by
  have hplain : ∀ {pc : Pc M}, pc.plain → pc.sweeps ≠ some (m, rest) := by
    intro pc hpc
    rw [(plain_facts hpc).2.2]
    exact nofun
  cases h with
  | moved pc _ hpc => exact absurd (by simpa using hm) (hplain hpc)
  | serial m' holder pc _ hpc => exact absurd (by simpa using hm) (hplain hpc)
  | admitted m' session => exact absurd hm (hplain (reserve_own m' session))
  | swept m' session => exact absurd hm (hplain (reserve_own m' session))
  | started m' session => exact absurd (by simpa using hm) (hplain (returned_plain m' session).1)
  | evicting m' session skipped x rest' hsweep hskipped hidle =>
    rw [goto_pc, if_pos rfl] at hm
    cases hm
    obtain ⟨hmedia, hhot⟩ := sweeping_facts hi hsweep
    refine ⟨hmedia, fun y hy => ⟨(hhot y hy).1, fun hnot => swept_stopped hi hanswers hsweep hy fun hmem => ?_⟩⟩
    exact hskipped y ((List.mem_append.1 hmem).resolve_right hnot)
  | evicted m' session x rest' hpc =>
    rw [goto_pc, if_pos rfl] at hm
    cases hm
    obtain ⟨hmedia, hhot⟩ := hi.sweeps c m (x :: rest) (by rw [hpc]; rfl)
    refine ⟨hmedia, fun y hy => ⟨(hhot y hy).1, fun hnot => ?_⟩⟩
    rw [goto_alive, setAlive_alive]
    split
    · rfl
    · next hne => exact (hhot y hy).2 (by simp [hne, hnot])
  | _ =>
    rw [goto_pc, if_pos rfl] at hm
    cases hm

/-- **A guarded step keeps the classes apart.** -/
theorem apart_step (hi : Apart P s) (hanswers : s.Answers running)
    (hgate : ∀ h session, s.pc c = .entering h session ∨ s.pc c = .notified h session → P.workload h ≠ .media →
      s.hasActiveConflict P h = false → ∀ m, P.workload m = .media → ¬ s.Running m)
    (hstart : ∀ m session, s.pc c = .locking m session → running m = false → 0 < s.references m)
    (h : Effect P s running c s') : Apart P s' where
  gate := gate_effect hi.gate h
  lock := lock_effect hi.lock h
  classes x y hxy := by
    by_contra hboth
    rw [not_or] at hboth
    rcases references_effect h (Nat.pos_of_ne_zero hboth.1) with hx | ⟨session, hx⟩ <;>
      rcases references_effect h (Nat.pos_of_ne_zero hboth.2) with hy | ⟨session', hy⟩
    · have hclasses := hi.classes x y hxy
      omega
    · have hzero := ((reserved_facts hi hanswers hgate hy).1 x (opposed_symm hxy)).1
      omega
    · have hzero := ((reserved_facts hi hanswers hgate hx).1 y hxy).1
      omega
    · exact not_opposed_self y (reserved_unique hx hy ▸ hxy)
  starts c' m hm := by
    rcases starts_effect h hm with hm | ⟨hrefs, session, hlocking, hr⟩
    · have hlocked : (s.pc c').locked = some m := by
        cases hpc : s.pc c' <;> rw [hpc] at hm <;> cases hm
        rfl
      exact Nat.lt_of_lt_of_le (hi.starts c' m hm) (references_kept h (by rw [hi.lock c' m hlocked]; exact Option.some_ne_none _))
    · rw [hrefs]
      exact hstart m session hlocking hr
  stops c' m hm := by
    by_cases hne : c' = c
    · subst hne
      exact stops_own h hm
    · rcases others_effect h hne with hpc | ⟨x, session, -, hnotified⟩
      · exact hi.stops c' m (hpc ▸ hm)
      · rw [hnotified] at hm
        cases hm
  sweeps c' m rest hm := by
    by_cases hne : c' = c
    · subst hne
      exact sweeps_own hi hanswers h hm
    · rw [(others_same h hne).2.2.2.2] at hm
      obtain ⟨hmedia, hhot⟩ := hi.sweeps c' m rest hm
      have hgated : (s.pc c').gated = true := by
        cases hpc : s.pc c' <;> rw [hpc] at hm <;> cases hm <;> rfl
      refine ⟨hmedia, fun h' hh' => ⟨?_, fun hrest => ?_⟩⟩
      · by_contra hrefs
        rcases references_effect h (Nat.pos_of_ne_zero hrefs) with hpos | ⟨session, hreserved⟩
        · have hzero := (hhot h' hh').1
          omega
        · exact hne (reserved_gate hi.gate hreserved c' hgated)
      · by_contra halive
        rcases alive_effect h (Bool.not_eq_false _ ▸ halive) with hold | ⟨d, hd⟩
        · rw [(hhot h' hh').2 hrest] at hold
          cases hold
        · have hpos := hi.starts d h' hd
          have hzero := (hhot h' hh').1
          omega
  resident x y hxy hx hy := by
    rcases references_effect h hx with hx | ⟨session, hx⟩ <;> rcases running_effect h hy with hy | ⟨session', hy, hr⟩
    · exact hi.resident x y hxy hx hy
    · have hpos := hstart y session' hy hr
      have hclasses := hi.classes x y hxy
      omega
    · exact ((reserved_facts hi hanswers hgate hx).1 y hxy).2 hy
    · exact (reserved_facts hi hanswers hgate hx).2 y session' hy
  exclusive x y hxy := by
    rintro ⟨hx, hy⟩
    rcases running_effect h hx with hx | ⟨session, hx, hr⟩ <;> rcases running_effect h hy with hy | ⟨session', hy, hr'⟩
    · exact hi.exclusive x y hxy ⟨hx, hy⟩
    · exact hi.resident y x (opposed_symm hxy) (hstart y session' hy hr') hx
    · exact hi.resident x y hxy (hstart x session hx hr) hy
    · rw [hx] at hy
      cases hy
      exact not_opposed_self x hxy

omit [DecidableEq C] [DecidableEq M] in
theorem apart_initial : Apart P (.initial : Manager C M) where
  gate := nofun
  lock := nofun
  classes _ _ _ := .inl rfl
  starts := nofun
  stops := nofun
  sweeps := nofun
  resident _ _ _ h := by cases h
  exclusive _ _ _ := by rintro ⟨h | ⟨_, h⟩, -⟩ <;> cases h

theorem guarded_effect {move : Move C M} (hcond : Guarded P s move) (hi : Apart P s) (hlaw : Lawful s move)
    (h : s.step P move = some s') : Apart P s' := by
  rcases step_effect h with ⟨ok, running, hmove, -, heffect⟩ | ⟨hcall, heffect⟩
  · rw [hmove] at hcond hlaw
    exact apart_step hi hlaw hcond.1 hcond.2 heffect
  · have hanswers : s.Answers s.alive := fun m => ⟨fun h _ => h, fun h _ => h⟩
    refine apart_step hi hanswers (fun x session hpc => ?_) (fun m session hpc => ?_) (heffect s.alive)
    · rcases hcall with hcall | ⟨m, hcall⟩ <;> rcases hpc with hpc | hpc <;> rw [hcall] at hpc <;> cases hpc
    · rcases hcall with hcall | ⟨m, hcall⟩ <;> rw [hcall] at hpc <;> cases hpc

/-- **No media process runs with a hot one in a guarded run**, of any coroutines, however long a start or a stop takes,
and whichever of them fail. -/
theorem exclusive_of_guarded (h : Reached P (Guarded P) s) : Exclusive P s := by
  have hapart : Apart P s := by
    refine Interleave.Reach.invariant (I := Apart P) ?_ ?_ h
    · rintro _ rfl
      exact apart_initial
    · rintro s s' - hi ⟨move, hlaw, hcond, hstep⟩
      exact guarded_effect hcond hi hlaw hstep
  exact fun m h hm hh => hapart.exclusive m h ⟨fun _ => hh, fun _ => hm⟩

end Steps

/-! ## Two coroutines -/

instance (s : Pair) (move : Move (Fin 2) (Fin 2)) : Decidable (Guarded chatAndMedia s move) := by
  rcases move with ⟨⟩ <;> dsimp only [Guarded, Running, Starting] <;> infer_instance

instance (s : Pair) : Decidable (Exclusive chatAndMedia s) := by
  unfold Exclusive Running Starting
  infer_instance

/-- The media model is loaded and unloaded; its stop has been called. -/
def mediaMoves : List (Move (Fin 2) (Fin 2)) :=
  [.load 0 1, .resume 0 true fun _ => false, .resume 0 true fun _ => false, .resume 0 true fun _ => false, .unload 0 1,
    .resume 0 true (· = 1)]

/-- The chat model is loaded; its start has been called. -/
def chatMoves (running : Fin 2 → Bool) : List (Move (Fin 2) (Fin 2)) :=
  [.load 1 0, .resume 1 true running, .resume 1 true running]

/-- The chat model is started when the stop has returned. -/
theorem exclusive_after_stop :
    ∃ s : Pair, Reached chatAndMedia (Guarded chatAndMedia) s ∧ s.Running 0 ∧ Exclusive chatAndMedia s := by
  have hplay : (play (Guarded chatAndMedia) (mediaMoves ++ .resume 0 true (· = 1) :: chatMoves fun _ => false)).any
      (fun s => (s.pc 1).starts = some 0) = true := by
    decide +kernel
  obtain ⟨s, hs, hstarts⟩ := (Option.any_eq_true _ _).1 hplay
  have hreached := play_reached hs
  exact ⟨s, hreached, .inr ⟨1, of_decide_eq_true hstarts⟩, exclusive_of_guarded hreached⟩

/-- It is started while the media model is being stopped. -/
theorem chat_with_media : ∃ s : Pair, Reached chatAndMedia (fun _ _ => True) s ∧ ¬ Exclusive chatAndMedia s := by
  have hplay : (play (fun _ _ => True) (mediaMoves ++ chatMoves (· = 1))).any (fun s => !decide (Exclusive chatAndMedia s)) = true := by
    decide +kernel
  obtain ⟨s, hs, hboth⟩ := (Option.any_eq_true _ _).1 hplay
  exact ⟨s, play_reached hs, by simpa using hboth⟩

end MilpbookLM.Inference
