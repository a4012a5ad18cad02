/-
Reference counts and processes. A count is at least the number of those that hold a
reference, so what a load found or started is not stopped before its unload
(`resident_of_matched`): a media process is stopped by the unload that drops its count to
zero, a hot one by a media load, and only at count zero.
-/
import MilpbookLM.Workers.InferenceSteps

namespace MilpbookLM.Inference

open Manager

section Definitions

variable {C M : Type}

/-- `running` is true from the return of `start` to the call of `stop`. -/
def Exact (s : Manager C M) (running : M → Bool) : Prop := ∀ m, running m = true → s.alive m = true ∧ ¬ s.Stopping m

/-- An unload is one of a load that returned; and the controller answers exactly. -/
def Matched (s : Manager C M) : Move C M → Prop
  | .unload c m => s.pc c = .loaded m
  | .resume _ _ running => Exact s running
  | _ => True

/-- Each process that is in use runs, and is not being stopped. -/
def Resident (s : Manager C M) : Prop := ∀ c m, (s.pc c).inUse = some m → s.alive m = true ∧ ¬ s.Stopping m

/-- A step calls `stop`. -/
def StopCalled (s s' : Manager C M) (m : M) : Prop := ∃ c, (s'.pc c).stops = some m ∧ (s.pc c).stops ≠ some m

/-- Who counts: as many as there are references, and all that have one. -/
def CountedBy (s : Manager C M) (holders : M → List C) : Prop :=
  (∀ m, s.references m = (holders m).length) ∧ ∀ c m, (s.pc c).holds = some m → c ∈ holders m

/-- What the gate, the locks and the counts keep. -/
structure Counted (P : Profiles M) (s : Manager C M) : Prop where
  gate : ∀ c, (s.pc c).gated = true → s.gate = some c
  lock : ∀ c m, (s.pc c).locked = some m → s.lock m = some c
  holders : ∃ holders, CountedBy s holders
  sweeps : ∀ c m rest, (s.pc c).sweeps = some (m, rest) → P.workload m = .media
  evicts : ∀ c m session h rest, s.pc c = .evicting m session h rest → (P.workload h).hot = true ∧ s.references h = 0
  resident : Resident s

end Definitions

variable {C M : Type} [DecidableEq C] [DecidableEq M] {P : Profiles M} {s s' : Manager C M} {c : C} {running : M → Bool}

/-! ## Counts -/

theorem others_holds (h : Effect P s running c s') {c' : C} (hne : c' ≠ c) :
    (s'.pc c').holds = (s.pc c').holds ∧ (s'.pc c').inUse = (s.pc c').inUse := by
  rcases others_effect h hne with hpc | ⟨m, session, hwaiting, hnotified⟩
  · rw [hpc]
    exact ⟨rfl, rfl⟩
  · rw [hwaiting, hnotified]
    exact ⟨rfl, rfl⟩

/-- The counts stay right: a load that takes its reference joins, an unload that gives one back leaves, and one whose
start failed stays. -/
theorem holders_effect {holders : M → List C} (hi : CountedBy s holders)
    (hmatched : s.pc c = .idle → ∀ m, s'.pc c ≠ .releasing m) (h : Effect P s running c s') :
    ∃ holders', CountedBy s' holders' := by
  -- the counts are left, and so is what `c` holds
  have hleft : s'.references = s.references → (∀ m, (s'.pc c).holds = some m → (s.pc c).holds = some m) →
      ∃ holders', CountedBy s' holders' := by
    intro hrefs hown
    refine ⟨holders, fun m => by rw [hrefs, hi.1 m], fun c' m hc' => ?_⟩
    by_cases hne : c' = c
    · subst hne
      exact hi.2 c' m (hown m hc')
    · rw [(others_holds h hne).1] at hc'
      exact hi.2 c' m hc'
  have hjoin : ∀ m session, s' = s.reserve c m session running → ∃ holders', CountedBy s' holders' := by
    intro m session heq
    obtain ⟨pc, -, hholds, -, hreserve⟩ := reserve_eq s c m session running
    refine ⟨Function.update holders m (c :: holders m), fun x => ?_, fun c' x hc' => ?_⟩
    · rw [heq, hreserve, goto_references, setGate_references, setReferences_references, Function.update_apply]
      split
      · rw [List.length_cons, hi.1 m]
      · exact hi.1 x
    · rw [Function.update_apply]
      by_cases hne : c' = c
      · subst hne
        rw [heq, hreserve, goto_pc, if_pos rfl, hholds] at hc'
        cases hc'
        rw [if_pos rfl]
        exact List.mem_cons_self
      · rw [(others_holds h hne).1] at hc'
        have hmem := hi.2 c' x hc'
        split
        · next hx => exact List.mem_cons_of_mem _ (hx ▸ hmem)
        · exact hmem
  have hleave : ∀ m, s.pc c = .releasing m → (∀ x, s'.references x = if x = m then s.references m - 1 else s.references x) →
      (s'.pc c).holds = none → ∃ holders', CountedBy s' holders' := by
    intro m hpc hrefs hown
    have hmem := hi.2 c m (by rw [hpc]; rfl)
    refine ⟨Function.update holders m ((holders m).erase c), fun x => ?_, fun c' x hc' => ?_⟩
    · rw [hrefs, Function.update_apply]
      split
      · rw [List.length_erase_of_mem hmem, hi.1 m]
      · exact hi.1 x
    · rw [Function.update_apply]
      by_cases hne : c' = c
      · rw [hne, hown] at hc'
        cases hc'
      · rw [(others_holds h hne).1] at hc'
        have hmem' := hi.2 c' x hc'
        split
        · next hx => exact (List.mem_erase_of_ne hne).2 (hx ▸ hmem')
        · exact hmem'
  cases h with
  | moved pc _ _ hholds => exact hleft rfl (by simp [hholds])
  | unmatched m hpc => exact absurd (by simp) (hmatched hpc m)
  | serial m holder pc _ _ hholds => exact hleft rfl (by simp [hholds])
  | admitted m session => exact hjoin m session rfl
  | swept m session => exact hjoin m session rfl
  | start m session hpc => exact hleft rfl (by simp [hpc, Pc.holds])
  | started m session hpc =>
    refine hleft rfl fun x hx => ?_
    rw [goto_pc, if_pos rfl, (returned_plain m session).2.1] at hx
    rw [hpc]
    exact hx
  | released m hpc => exact hleave m hpc (fun x => setReferences_references s m x _) (by simp [Pc.holds])
  | lastReleased m hpc _ hone => exact hleave m hpc (fun x => by simp [hone]) (by simp [Pc.holds])
  | _ => exact hleft rfl (by simp [Pc.holds])

/-! ## Stops -/

/-- Who awaits a stop after a step did so before it, or calls it: an eviction, or the unload of the last reference. -/
theorem stops_effect (h : Effect P s running c s') {c' : C} {m : M} (hm : (s'.pc c').stops = some m) :
    c' ≠ c ∧ (s.pc c').stops = some m ∨ c' = c ∧
      ((∃ x session skipped rest, s.Sweeping P c x session (skipped ++ m :: rest) ∧ s.Idle P running m ∧
        s' = (s.setGate (some c)).goto c (.evicting x session m rest)) ∨
      s.pc c = .releasing m ∧ s.references m = 1 ∧ (P.workload m).hot = false ∧ s'.references m = 0 ∧ s'.pc c = .stopping m) := by
  by_cases hne : c' = c
  · refine .inr ⟨hne, ?_⟩
    subst hne
    have hplain : ∀ {pc : Pc M}, pc.plain → pc.stops ≠ some m := by
      intro pc hpc
      rw [(plain_facts hpc).2.1]
      exact nofun
    cases h with
    | moved pc _ hpc => exact absurd (by simpa using hm) (hplain hpc)
    | serial m' holder pc _ hpc => exact absurd (by simpa using hm) (hplain hpc)
    | admitted m' session => exact absurd hm (hplain (reserve_own m' session))
    | swept m' session => exact absurd hm (hplain (reserve_own m' session))
    | started m' session => exact absurd (by simpa using hm) (hplain (returned_plain m' session).1)
    | evicting x session skipped y rest hsweep hskipped hidle =>
      rw [goto_pc, if_pos rfl] at hm
      cases hm
      exact .inl ⟨x, session, skipped, rest, hsweep, hidle, rfl⟩
    | lastReleased m' hpc hlock hone hcold =>
      rw [goto_pc, if_pos rfl] at hm
      cases hm
      exact .inr ⟨hpc, hone, hcold, by simp, by simp⟩
    | _ =>
      rw [goto_pc, if_pos rfl] at hm
      cases hm
  · rw [(others_same h hne).2.2.2.1] at hm
    exact .inl ⟨hne, hm⟩

/-! ## The invariant -/

omit [DecidableEq C] [DecidableEq M] in
theorem sweeping_media (hi : Counted P s) {m : M} {session : Bool} {rest : List M} (h : s.Sweeping P c m session rest) :
    P.workload m = .media := by
  rcases h with hpc | ⟨-, -, -, hmedia, -⟩
  · exact hi.sweeps c m rest (by rw [hpc]; rfl)
  · exact hmedia

theorem sweeps_media (hi : Counted P s) (h : Effect P s running c s') (c' : C) (m : M) (rest : List M)
    (hm : (s'.pc c').sweeps = some (m, rest)) : P.workload m = .media := by
  by_cases hne : c' = c
  · subst hne
    have hplain : ∀ {pc : Pc M}, pc.plain → pc.sweeps ≠ some (m, rest) := by
      intro pc hpc
      rw [(plain_facts hpc).2.2]
      exact nofun
    cases h with
    | moved pc _ hpc => exact absurd (by simpa using hm) (hplain hpc)
    | serial m' holder pc _ hpc => exact absurd (by simpa using hm) (hplain hpc)
    | admitted m' session => exact absurd hm (hplain (reserve_own m' session))
    | swept m' session => exact absurd hm (hplain (reserve_own m' session))
    | started m' session => exact absurd (by simpa using hm) (hplain (returned_plain m' session).1)
    | evicting x session skipped y rest' hsweep =>
      rw [goto_pc, if_pos rfl] at hm
      cases hm
      exact sweeping_media hi hsweep
    | evicted x session y rest' hpc =>
      rw [goto_pc, if_pos rfl] at hm
      cases hm
      exact hi.sweeps c' m (y :: rest) (by rw [hpc]; rfl)
    | _ =>
      rw [goto_pc, if_pos rfl] at hm
      cases hm
  · rw [(others_same h hne).2.2.2.2] at hm
    exact hi.sweeps c' m rest hm

/-- What is evicted has no references. -/
theorem evicts_effect (hi : Counted P s) (h : Effect P s running c s') (c' : C) (m : M) (session : Bool) (x : M) (rest : List M)
    (hpc : s'.pc c' = .evicting m session x rest) : (P.workload x).hot = true ∧ s'.references x = 0 := by
  have hstops : (s'.pc c').stops = some x := by
    rw [hpc]
    rfl
  rcases stops_effect h hstops with ⟨hne, -⟩ | ⟨rfl, ⟨y, session', skipped, rest', -, hidle, heq⟩ | ⟨-, -, -, -, hstopping⟩⟩
  · have hold : s.pc c' = .evicting m session x rest := by
      rcases others_effect h hne with heq | ⟨y, session', -, hnotified⟩
      · exact heq ▸ hpc
      · rw [hnotified] at hpc
        cases hpc
    obtain ⟨hhot, hzero⟩ := hi.evicts c' m session x rest hold
    refine ⟨hhot, ?_⟩
    by_contra hrefs
    rcases references_effect h (Nat.pos_of_ne_zero hrefs) with hpos | ⟨session', hreserved⟩
    · omega
    · exact hne (reserved_gate hi.gate hreserved c' (by rw [hold]; rfl))
  · exact ⟨hidle.1, by rw [heq]; exact hidle.2.1⟩
  · rw [hstopping] at hpc
    cases hpc

/-- A process ends when a stop of it returns. -/
theorem alive_kept (h : Effect P s running c s') {m : M} (halive : s.alive m = true) (hstop : ¬ s.Stopping m) :
    s'.alive m = true := by
  have hstops : ∀ x (pc : Pc M), s.pc c = pc → pc.stops = some x → m ≠ x := by
    rintro x pc hpc hx rfl
    exact hstop ⟨c, hpc ▸ hx⟩
  cases h with
  | evicted y session x rest hpc => simp [hstops x _ hpc rfl, halive]
  | stopped x hpc => simp [hstops x _ hpc rfl, halive]
  | started x session hpc =>
    simp only [goto_alive, setLock_alive, setAlive_alive]
    split
    · rfl
    · exact halive
  | _ => exact halive

/-- What `c` uses after a step it used before it, or it finds the process, or starts it. -/
theorem inUse_own (h : Effect P s running c s') {m : M} (hm : (s'.pc c).inUse = some m) :
    (s.pc c).inUse = some m ∨ running m = true ∧ s'.alive = s.alive ∨ ∃ session, s.pc c = .starting m session ∧ s'.alive m = true := by
  have hjoin : ∀ x session, s' = s.reserve c x session running → running m = true ∧ s'.alive = s.alive := by
    intro x session heq
    obtain ⟨pc, -, hholds, huse, hreserve⟩ := reserve_eq s c x session running
    rw [heq, hreserve, goto_pc, if_pos rfl] at hm
    have hx : x = m := by
      cases pc <;> cases hm <;> cases hholds <;> rfl
    subst hx
    refine ⟨huse hm, ?_⟩
    rw [heq, hreserve]
    rfl
  cases h with
  | moved pc _ _ _ huse =>
    rw [goto_pc, if_pos rfl] at hm
    exact (huse m hm).imp_right fun hr => .inl ⟨hr, rfl⟩
  | serial x holder pc _ _ _ huse =>
    rw [goto_pc, if_pos rfl] at hm
    exact .inl (huse m hm)
  | admitted x session => exact .inr (.inl (hjoin x session rfl))
  | swept x session => exact .inr (.inl (hjoin x session rfl))
  | started x session hpc =>
    rw [goto_pc, if_pos rfl, (returned_plain x session).2.2] at hm
    cases hm
    exact .inr (.inr ⟨session, hpc, by simp⟩)
  | _ =>
    rw [goto_pc, if_pos rfl] at hm
    cases hm

/-- What is in use stays so. -/
theorem resident_effect (hi : Counted P s) (hexact : Exact s running) (h : Effect P s running c s') : Resident s' := by
  obtain ⟨holders, hcount, hholds⟩ := hi.holders
  have hheld : ∀ c' m, (s.pc c').holds = some m → s.references m ≠ 0 := by
    intro c' m hc' hzero
    have hmem := hholds c' m hc'
    rw [List.eq_nil_of_length_eq_zero ((hcount m).symm.trans hzero)] at hmem
    cases hmem
  have huses : ∀ (pc : Pc M) m, pc.inUse = some m → pc.holds = some m ∧ pc.stops = none := by
    intro pc m hm
    cases pc <;> cases hm <;> exact ⟨rfl, rfl⟩
  -- used before the step, by `c` or by another: no step stops it
  have hold : ∀ c' m, (s.pc c').inUse = some m → s'.alive m = true ∧ ¬ s'.Stopping m := by
    intro c' m hc'
    obtain ⟨halive, hstop⟩ := hi.resident c' m hc'
    refine ⟨alive_kept h halive hstop, ?_⟩
    rintro ⟨d, hd⟩
    rcases stops_effect h hd with ⟨-, hold⟩ | ⟨-, ⟨-, -, -, -, -, hidle, -⟩ | ⟨hpc, hone, -⟩⟩
    · exact hstop ⟨d, hold⟩
    · exact hheld c' m (huses _ _ hc').1 hidle.2.1
    · have hne : c' ≠ c := by
        rintro rfl
        rw [hpc] at hc'
        cases hc'
      have hmem := hholds c' m (huses _ _ hc').1
      have hmem' := hholds c m (by rw [hpc]; rfl)
      obtain ⟨only, honly⟩ := List.length_eq_one_iff.1 ((hcount m).symm.trans hone)
      rw [honly, List.mem_singleton] at hmem hmem'
      exact hne (hmem.trans hmem'.symm)
  intro c' m hc'
  by_cases hne : c' = c
  · subst hne
    rcases inUse_own h hc' with hin | ⟨hr, halive⟩ | ⟨session, hpc, halive⟩
    · exact hold c' m hin
    · obtain ⟨hrun, hstop⟩ := hexact m hr
      refine ⟨halive ▸ hrun, ?_⟩
      rintro ⟨d, hd⟩
      rcases stops_effect h hd with ⟨-, hd⟩ | ⟨rfl, -⟩
      · exact hstop ⟨d, hd⟩
      · rw [(huses _ _ hc').2] at hd
        cases hd
    · refine ⟨halive, ?_⟩
      rintro ⟨d, hd⟩
      rcases stops_effect h hd with ⟨hne, hd⟩ | ⟨rfl, -⟩
      · cases hpc' : s.pc d with
        | stopping x =>
          rw [hpc'] at hd
          cases hd
          have hd := hi.lock d m (by rw [hpc']; rfl)
          rw [hi.lock c' m (by rw [hpc]; rfl)] at hd
          exact hne (Option.some.inj hd).symm
        | evicting y session' x rest =>
          rw [hpc'] at hd
          cases hd
          exact hheld c' m (by rw [hpc]; rfl) (hi.evicts d y session' m rest hpc').2
        | _ =>
          rw [hpc'] at hd
          cases hd
      · rw [(huses _ _ hc').2] at hd
        cases hd
  · rw [(others_holds h hne).2] at hc'
    exact hold c' m hc'

theorem counted_step {move : Move C M} (hi : Counted P s) (hmatched : Matched s move) (h : s.step P move = some s') :
    Counted P s' := by
  have hcounted : ∀ running, Exact s running → (s.pc move.party = .idle → ∀ m, s'.pc move.party ≠ .releasing m) →
      Effect P s running move.party s' → Counted P s' := by
    intro running hexact hown heffect
    obtain ⟨holders, hholders⟩ := hi.holders
    exact ⟨gate_effect hi.gate heffect, lock_effect hi.lock heffect, holders_effect hholders hown heffect,
      sweeps_media hi heffect, evicts_effect hi heffect, resident_effect hi hexact heffect⟩
  rcases step_effect h with ⟨ok, running, hmove, hidle, heffect⟩ | ⟨-, heffect⟩
  · rw [hmove] at hmatched
    exact hcounted running hmatched (fun hpc => absurd hpc hidle) heffect
  · refine hcounted (fun _ => false) nofun (fun hidle m hpc => ?_) (heffect _)
    cases move with
    | load c m' | session c m' =>
      obtain ⟨-, rfl⟩ : s.pc c = .idle ∧ s.goto c _ = s' := by simpa [step] using h
      simp [Move.party] at hpc
    | unload c m' =>
      rw [Move.party, show s.pc c = .loaded m' from hmatched] at hidle
      cases hidle
    | resume c ok running =>
      rw [step, resume, show s.pc c = .idle from hidle] at h
      cases h

omit [DecidableEq C] [DecidableEq M] in
theorem counted_initial : Counted P (.initial : Manager C M) where
  gate := nofun
  lock := nofun
  holders := ⟨fun _ => [], fun _ => rfl, nofun⟩
  sweeps := nofun
  evicts := nofun
  resident := nofun

/-! ## Runs -/

/-- A media process is stopped by the step that drops its count to zero. -/
theorem stopCalled_media (h : Effect P s running c s') {m : M} (hm : (P.workload m).hot = false) :
    StopCalled s s' m ↔ 0 < s.references m ∧ s'.references m = 0 := by
  constructor
  · rintro ⟨d, hd, hnot⟩
    rcases stops_effect h hd with ⟨-, hd⟩ | ⟨-, ⟨-, -, -, -, -, hidle, -⟩ | ⟨-, hone, -, hzero, -⟩⟩
    · exact absurd hd hnot
    · rw [hidle.1] at hm
      cases hm
    · exact ⟨by omega, hzero⟩
  · rintro ⟨hpos, hzero⟩
    have hreserve : ∀ x session, (s.reserve c x session running).references m ≠ 0 := by
      intro x session
      simp only [reserve, goto_references, setGate_references, setReferences_references]
      split <;> omega
    cases h with
    | admitted x session => exact absurd hzero (hreserve x session)
    | swept x session => exact absurd hzero (hreserve x session)
    | released x hpc hlock hne hnot =>
      simp only [goto_references, setReferences_references] at hzero
      split at hzero
      · next heq =>
        subst heq
        exact absurd ⟨by omega, hm⟩ hnot
      · omega
    | lastReleased x hpc hlock hone hcold =>
      simp only [goto_references, setLock_references, setReferences_references] at hzero
      split at hzero
      · next heq =>
        subst heq
        refine ⟨c, by simp [Pc.stops], ?_⟩
        rw [hpc]
        exact fun hstops => by cases hstops
      · omega
    | _ => exact absurd hzero (Nat.ne_of_gt hpos)

/-- A hot process is stopped by a media load, where it has no references. -/
theorem stopCalled_hot (hi : Counted P s) (h : Effect P s running c s') {m : M} (hm : (P.workload m).hot = true)
    (hstop : StopCalled s s' m) : s.references m = 0 ∧
      ∃ c x session rest, s'.pc c = .evicting x session m rest ∧ P.workload x = .media := by
  obtain ⟨d, hd, hnot⟩ := hstop
  rcases stops_effect h hd with ⟨-, hd⟩ | ⟨rfl, ⟨x, session, skipped, rest, hsweep, hidle, rfl⟩ | ⟨-, -, hcold, -⟩⟩
  · exact absurd hd hnot
  · exact ⟨hidle.2.1, d, x, session, rest, by simp, sweeping_media hi hsweep⟩
  · rw [hm] at hcold
    cases hcold

/-- A load that raises before it takes its reference leaves the counts. -/
theorem evictFailed_references (h : Effect P s running c s') {d : C} {m x : M} {session : Bool} {rest : List M}
    (hpc : s.pc d = .evicting m session x rest) (hidle : s'.pc d = .idle) : s'.references = s.references := by
  by_cases hne : d = c
  · subst hne
    cases h <;> simp_all [Pc.plain, Pc.gated, Sweeping]
  · rcases others_effect h hne with heq | ⟨y, session', hwaiting, -⟩
    · rw [heq, hpc] at hidle
      cases hidle
    · rw [hwaiting] at hpc
      cases hpc

/-- **Reference counting**, with unloads that are matched and a controller that answers exactly: what was loaded runs until
its unload; a media process is stopped by the unload that drops its count to zero; a hot one by a media load, and only at
count zero; and a load whose eviction fails leaves the counts. -/
theorem resident_of_matched (h : Reached P Matched s) : Resident s ∧
    ∀ move s', Matched s move → s.step P move = some s' →
      (∀ m, (P.workload m).hot = false → (StopCalled s s' m ↔ 0 < s.references m ∧ s'.references m = 0)) ∧
      (∀ m, (P.workload m).hot = true → StopCalled s s' m → s.references m = 0 ∧
        ∃ c x session rest, s'.pc c = .evicting x session m rest ∧ P.workload x = .media) ∧
      ∀ c m session x rest, s.pc c = .evicting m session x rest → s'.pc c = .idle → s'.references = s.references := by
  have hcounted : Counted P s := by
    refine Interleave.Reach.invariant (I := Counted P) ?_ ?_ h
    · rintro _ rfl
      exact counted_initial
    · rintro s s' - hi ⟨move, -, hmatched, hstep⟩
      exact counted_step hi hmatched hstep
  refine ⟨hcounted.resident, fun move s' hmatched hstep => ?_⟩
  have heffect : ∃ running, Effect P s running move.party s' := by
    rcases step_effect hstep with ⟨ok, running, -, -, heffect⟩ | ⟨-, heffect⟩
    · exact ⟨running, heffect⟩
    · exact ⟨s.alive, heffect s.alive⟩
  obtain ⟨running, heffect⟩ := heffect
  exact ⟨fun _ => stopCalled_media heffect, fun _ => stopCalled_hot hcounted heffect,
    fun _ _ _ _ _ => evictFailed_references heffect⟩

/-! ## Two coroutines -/

instance (s : Pair) (move : Move (Fin 2) (Fin 2)) : Decidable (Matched s move) := by
  rcases move with ⟨⟩ <;> dsimp only [Matched, Exact, Stopping] <;> infer_instance

instance (s s' : Pair) (m : Fin 2) : Decidable (StopCalled s s' m) := by
  unfold StopCalled
  infer_instance

/-- The chat model is loaded. -/
def loadMoves : List (Move (Fin 2) (Fin 2)) :=
  [.load 0 0, .resume 0 true fun _ => false, .resume 0 true fun _ => false, .resume 0 true fun _ => false]

/-- What was loaded runs. -/
theorem resident_of_load : ∃ s : Pair, Reached chatAndMedia Matched s ∧ (s.pc 0).inUse = some 0 ∧ s.alive 0 = true := by
  have hplay : (play Matched loadMoves).any (fun s => (s.pc 0).inUse = some 0) = true := by decide +kernel
  obtain ⟨s, hs, huse⟩ := (Option.any_eq_true _ _).1 hplay
  have hreached := play_reached hs
  have hin := of_decide_eq_true huse
  exact ⟨s, hreached, hin, ((resident_of_matched hreached).1 0 0 hin).1⟩

/-- Its unload drops the count to zero, and does not stop it. -/
theorem idle_chat_kept : ∃ (s s' : Pair) (move : Move (Fin 2) (Fin 2)), Reached chatAndMedia Matched s ∧ Matched s move ∧
    s.step chatAndMedia move = some s' ∧ 0 < s.references 0 ∧ s'.references 0 = 0 ∧ ¬ StopCalled s s' 0 := by
  have hplay : (play Matched (loadMoves ++ [.unload 0 0])).any (fun s => Matched s (.resume 0 true (· = 0)) ∧
      (s.step chatAndMedia (.resume 0 true (· = 0))).any fun s' =>
        0 < s.references 0 ∧ s'.references 0 = 0 ∧ ¬ StopCalled s s' 0) = true := by
    decide +kernel
  obtain ⟨s, hs, hmove⟩ := (Option.any_eq_true _ _).1 hplay
  obtain ⟨hmatched, hstep⟩ := of_decide_eq_true hmove
  obtain ⟨s', hs', hkept⟩ := (Option.any_eq_true _ _).1 hstep
  exact ⟨s, s', _, play_reached hs, hmatched, hs', of_decide_eq_true hkept⟩

end MilpbookLM.Inference
