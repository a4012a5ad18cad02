/-
The steps of the coroutines, said once: what a step of one does to the locks, the counts and
the processes (`step_effect`), that it leaves the others where they are (`others_same`), and
that the gate and the locks have one holder each.
-/
import MilpbookLM.Workers.Inference

namespace MilpbookLM.Inference

variable {C M : Type} [DecidableEq C] [DecidableEq M]

/-! ## What a step does -/

/-- Has the gate. -/
def Pc.gated : Pc M → Bool
  | .parking .. | .evicting .. | .scanning .. => true
  | _ => false

/-- The model whose lock it has. -/
def Pc.locked : Pc M → Option M
  | .starting m _ | .stopping m => some m
  | _ => none

/-- The model of which it has a reference. -/
def Pc.holds : Pc M → Option M
  | .locking m _ | .starting m _ | .loaded m | .queueing m | .serving m | .releasing m => some m
  | _ => none

/-- The model whose load has returned, and its unload has not begun. -/
def Pc.inUse : Pc M → Option M
  | .loaded m | .queueing m | .serving m => some m
  | _ => none

/-- The model that a load under the gate waits to load, and the models it has not found stopped. -/
def Pc.sweeps : Pc M → Option (M × List M)
  | .evicting m _ h rest => some (m, h :: rest)
  | .scanning m _ rest => some (m, rest)
  | _ => none

/-- Has neither the gate nor a lock. -/
def Pc.plain (pc : Pc M) : Prop := pc.gated = false ∧ pc.locked = none

/-- A model that an eviction stops. -/
def Manager.Idle (P : Profiles M) (s : Manager C M) (running : M → Bool) (h : M) : Prop :=
  (P.workload h).hot = true ∧ s.references h = 0 ∧ running h = true

/-- A load of a media model under the gate, with `rest` to be looked at. -/
def Manager.Sweeping (P : Profiles M) (s : Manager C M) (c : C) (m : M) (session : Bool) (rest : List M) : Prop :=
  s.pc c = .scanning m session rest ∨
    (s.pc c = .entering m session ∨ s.pc c = .notified m session) ∧ s.gate = none ∧ s.hasActiveConflict P m = false ∧
      P.workload m = .media ∧ rest = P.ids

/-- What a step of `c` does. -/
inductive Effect (P : Profiles M) (s : Manager C M) (running : M → Bool) (c : C) : Manager C M → Prop
  | moved (pc) : (s.pc c).plain → pc.plain → pc.holds = (s.pc c).holds →
      (∀ m, pc.inUse = some m → (s.pc c).inUse = some m ∨ running m = true) → Effect P s running c (s.goto c pc)
  | unmatched (m) : s.pc c = .idle → Effect P s running c (s.goto c (.releasing m))
  | nothing (m) : s.pc c = .releasing m → s.references m = 0 → Effect P s running c (s.goto c .idle)
  | serial (m holder pc) : (s.pc c).plain → pc.plain → pc.holds = (s.pc c).holds →
      (∀ m, pc.inUse = some m → (s.pc c).inUse = some m) → Effect P s running c ((s.setSerial m holder).goto c pc)
  | held (m session) : (s.pc c).plain → (s.pc c).holds = none → s.gate = none →
      Effect P s running c ((s.setGate (some c)).goto c (.parking m session))
  | parked (m session) : s.pc c = .parking m session → Effect P s running c ((s.setGate none).goto c (.waiting m session))
  | admitted (m session) : (s.pc c = .entering m session ∨ s.pc c = .notified m session) → s.gate = none →
      s.hasActiveConflict P m = false → P.workload m ≠ .media → Effect P s running c (s.reserve c m session running)
  | swept (m session rest) : s.Sweeping P c m session rest → (∀ h ∈ rest, ¬ s.Idle P running h) →
      Effect P s running c (s.reserve c m session running)
  | evicting (m session skipped h rest) : s.Sweeping P c m session (skipped ++ h :: rest) →
      (∀ h ∈ skipped, ¬ s.Idle P running h) → s.Idle P running h →
        Effect P s running c ((s.setGate (some c)).goto c (.evicting m session h rest))
  | evicted (m session h rest) : s.pc c = .evicting m session h rest →
      Effect P s running c ((s.setAlive h false).goto c (.scanning m session rest))
  | evictFailed (m session h rest) : s.pc c = .evicting m session h rest → Effect P s running c ((s.setGate none).goto c .idle)
  | start (m session) : s.pc c = .locking m session → s.lock m = none → running m = false →
      Effect P s running c ((s.setLock m (some c)).goto c (.starting m session))
  | started (m session) : s.pc c = .starting m session →
      Effect P s running c (((s.setAlive m true).setLock m none).goto c (Manager.returned m session))
  | startFailed (m session) : s.pc c = .starting m session → Effect P s running c ((s.setLock m none).goto c .idle)
  | released (m) : s.pc c = .releasing m → s.lock m = none → s.references m ≠ 0 → ¬ (s.references m = 1 ∧ (P.workload m).hot = false) →
      Effect P s running c ((s.setReferences m (s.references m - 1)).goto c .notifying)
  | lastReleased (m) : s.pc c = .releasing m → s.lock m = none → s.references m = 1 → (P.workload m).hot = false →
      Effect P s running c (((s.setReferences m 0).setLock m (some c)).goto c (.stopping m))
  | stopped (m) : s.pc c = .stopping m → Effect P s running c (((s.setAlive m false).setLock m none).goto c .notifying)
  | stopFailed (m) : s.pc c = .stopping m → Effect P s running c ((s.setLock m none).goto c .idle)
  | notify : s.pc c = .notifying → s.gate = none → Effect P s running c (s.notifyAll.goto c .idle)

section Effects

variable {P : Profiles M} {s s' : Manager C M} {c : C} {running : M → Bool}

open Manager

omit [DecidableEq M] in
theorem returned_plain (m : M) (session : Bool) : (returned m session).plain ∧ (returned m session).holds = some m ∧
    (returned m session).inUse = some m := by
  cases session <;> exact ⟨⟨rfl, rfl⟩, rfl, rfl⟩

/-- What a load under the gate ends with. -/
theorem reserve_eq (s : Manager C M) (c : C) (m : M) (session : Bool) (running : M → Bool) :
    ∃ pc : Pc M, pc.plain ∧ pc.holds = some m ∧ (pc.inUse = some m → running m = true) ∧
      s.reserve c m session running = ((s.setReferences m (s.references m + 1)).setGate none).goto c pc := by
  unfold reserve
  refine ⟨_, ?_, ?_, ?_, rfl⟩
  · split
    · exact (returned_plain m session).1
    · exact ⟨rfl, rfl⟩
  · split
    · exact (returned_plain m session).2.1
    · rfl
  · split
    · next h => exact fun _ => h
    · rintro ⟨⟩

theorem evict_effect {m : M} {session : Bool} (skipped rest : List M) (hsweep : s.Sweeping P c m session (skipped ++ rest))
    (hskipped : ∀ h ∈ skipped, ¬ s.Idle P running h) :
    Effect P s running c (s.evictIdleHotModels P c m session running rest) := by
  induction rest generalizing skipped with
  | nil =>
    rw [List.append_nil] at hsweep
    exact .swept m session skipped hsweep hskipped
  | cons h rest ih =>
    rw [evictIdleHotModels]
    split
    · next hidle => exact .evicting m session skipped h rest hsweep hskipped hidle
    · next hidle =>
      refine ih (skipped ++ [h]) (by simpa using hsweep) fun x hx => ?_
      rcases List.mem_append.1 hx with hx | hx
      · exact hskipped x hx
      · rw [List.mem_singleton.1 hx]
        exact hidle

theorem enter_effect {m : M} {session : Bool} (hpc : s.pc c = .entering m session ∨ s.pc c = .notified m session)
    (hgate : s.gate = none) : Effect P s running c (s.enter P c m session running) := by
  have hplain : (s.pc c).plain ∧ (s.pc c).holds = none := by
    rcases hpc with hpc | hpc <;> rw [hpc] <;> exact ⟨⟨rfl, rfl⟩, rfl⟩
  unfold enter
  split
  · exact .held m session hplain.1 hplain.2 hgate
  · next hconflict =>
    rw [Bool.not_eq_true] at hconflict
    split
    · next hmedia => exact evict_effect [] P.ids (.inr ⟨hpc, hgate, hconflict, hmedia, rfl⟩) (by simp)
    · next hmedia => exact .admitted m session hpc hgate hconflict hmedia

theorem start_effect {m : M} {session : Bool} (hpc : s.pc c = .locking m session) (hlock : s.lock m = none) :
    Effect P s running c (s.start c m session running) := by
  unfold Manager.start
  split
  · next hrunning =>
    refine .moved _ ?_ (returned_plain m session).1 ?_ fun m' hm' => ?_
    · rw [hpc]
      exact ⟨rfl, rfl⟩
    · rw [hpc]
      exact (returned_plain m session).2.1
    · rw [(returned_plain m session).2.2, Option.some.injEq] at hm'
      exact .inr (hm' ▸ hrunning)
  · next hrunning => exact .start m session hpc hlock (Bool.not_eq_true _ ▸ hrunning)

theorem release_effect {m : M} (hpc : s.pc c = .releasing m) (hlock : s.lock m = none) :
    Effect P s running c (s.release P c m) := by
  unfold release
  split
  · next hzero => exact .nothing m hpc hzero
  · next hzero =>
    dsimp only
    have hrefs : (s.setReferences m (s.references m - 1)).references m = s.references m - 1 := Function.update_self ..
    rw [hrefs]
    split
    · next hlast =>
      have hone : s.references m = 1 := by omega
      rw [hlast.1]
      exact .lastReleased m hpc hlock hone hlast.2
    · next hlast =>
      refine .released m hpc hlock hzero fun hone => hlast ⟨?_, hone.2⟩
      rw [hone.1]

theorem resume_effect {ok : Bool} (h : s.resume P c ok running = some s') : Effect P s running c s' := by
  unfold resume at h
  split at h
  · cases h
  · cases h
  · cases h
  · next m session hpc =>
    split at h
    · next hgate =>
      cases h
      exact enter_effect (.inl hpc) hgate
    · cases h
  · next m session hpc =>
    split at h
    · next hgate =>
      cases h
      exact enter_effect (.inr hpc) hgate
    · cases h
  · next m session hpc =>
    cases h
    exact .parked m session hpc
  · next m session idle rest hpc =>
    split at h <;> cases h
    · exact .evicted m session idle rest hpc
    · exact .evictFailed m session idle rest hpc
  · next m session rest hpc =>
    cases h
    exact evict_effect [] rest (.inl hpc) (by simp)
  · next m session hpc =>
    split at h
    · next hlock =>
      cases h
      exact start_effect hpc hlock
    · cases h
  · next m session hpc =>
    split at h <;> cases h
    · exact .started m session hpc
    · exact .startFailed m session hpc
  · next m hpc =>
    split at h
    · cases h
      refine .serial m _ _ ?_ ⟨rfl, rfl⟩ ?_ ?_ <;> rw [hpc]
      · exact ⟨rfl, rfl⟩
      · rfl
      · exact fun _ => id
    · cases h
  · next m hpc =>
    cases h
    refine .serial m _ _ ?_ ⟨rfl, rfl⟩ ?_ ?_
    · rw [hpc]
      exact ⟨rfl, rfl⟩
    · rw [hpc]
      rfl
    · rintro _ ⟨⟩
  · next m hpc =>
    split at h
    · next hlock =>
      cases h
      exact release_effect hpc hlock
    · cases h
  · next m hpc =>
    split at h <;> cases h
    · exact .stopped m hpc
    · exact .stopFailed m hpc
  · next hpc =>
    split at h
    · next hgate =>
      cases h
      exact .notify hpc hgate
    · cases h

/-- A step of `c` leaves the others where they are, or notifies them. -/
theorem others_effect (h : Effect P s running c s') {c' : C} (hne : c' ≠ c) :
    s'.pc c' = s.pc c' ∨ ∃ m session, s.pc c' = .waiting m session ∧ s'.pc c' = .notified m session := by
  cases h with
  | notify =>
    simp only [goto_pc, if_neg hne, notifyAll]
    split
    · next m session hpc => exact .inr ⟨m, session, hpc, rfl⟩
    · exact .inl rfl
  | admitted m session =>
    left
    simp only [reserve, goto_pc, if_neg hne, setGate_pc, setReferences_pc]
  | swept m session =>
    left
    simp only [reserve, goto_pc, if_neg hne, setGate_pc, setReferences_pc]
  | _ => exact .inl (by simp [hne])

theorem call_effect {m : M} {session : Bool} (hpc : s.pc c = .idle) : Effect P s running c (s.goto c (.entering m session)) := by
  refine .moved _ ?_ ⟨rfl, rfl⟩ ?_ nofun <;> rw [hpc]
  · exact ⟨rfl, rfl⟩
  · rfl

theorem unload_effect {m : M} (hpc : s.pc c = .loaded m) : Effect P s running c (s.goto c (.releasing m)) := by
  refine .moved _ ?_ ⟨rfl, rfl⟩ ?_ nofun <;> rw [hpc]
  · exact ⟨rfl, rfl⟩
  · rfl

/-- **What a step does.** A call is made where the coroutine is not in one. -/
theorem step_effect {move : Move C M} (h : s.step P move = some s') :
    (∃ ok running, move = .resume move.party ok running ∧ s.pc move.party ≠ .idle ∧ Effect P s running move.party s') ∨
      (s.pc move.party = .idle ∨ ∃ m, s.pc move.party = .loaded m) ∧ ∀ running, Effect P s running move.party s' := by
  cases move with
  | load c m =>
    obtain ⟨hpc, rfl⟩ : s.pc c = .idle ∧ s.goto c (.entering m false) = s' := by simpa [step] using h
    exact .inr ⟨.inl hpc, fun _ => call_effect hpc⟩
  | session c m =>
    obtain ⟨hpc, rfl⟩ : s.pc c = .idle ∧ s.goto c (.entering m true) = s' := by simpa [step] using h
    exact .inr ⟨.inl hpc, fun _ => call_effect hpc⟩
  | unload c m =>
    obtain ⟨hpc | hpc, rfl⟩ : (s.pc c = .idle ∨ s.pc c = .loaded m) ∧ s.goto c (.releasing m) = s' := by
      simpa [step] using h
    · exact .inr ⟨.inl hpc, fun _ => .unmatched m hpc⟩
    · exact .inr ⟨.inr ⟨m, hpc⟩, fun _ => unload_effect hpc⟩
  | resume c ok running =>
    refine .inl ⟨ok, running, rfl, fun hidle => ?_, resume_effect h⟩
    rw [step, resume, show s.pc c = .idle from hidle] at h
    cases h

omit [DecidableEq M] in
theorem plain_facts {pc : Pc M} (h : pc.plain) : pc.starts = none ∧ pc.stops = none ∧ pc.sweeps = none := by
  obtain ⟨hgated, hlocked⟩ := h
  cases pc <;> simp_all [Pc.gated, Pc.locked, Pc.starts, Pc.stops, Pc.sweeps]

omit [DecidableEq M] in
theorem returned_facts (m : M) (session : Bool) : (returned m session).gated = false ∧ (returned m session).locked = none ∧
    (returned m session).starts = none ∧ (returned m session).stops = none ∧ (returned m session).sweeps = none := by
  cases session <;> exact ⟨rfl, rfl, rfl, rfl, rfl⟩

/-- The others keep the gate, their locks and what they await. -/
theorem others_same (h : Effect P s running c s') {c' : C} (hne : c' ≠ c) :
    (s'.pc c').gated = (s.pc c').gated ∧ (s'.pc c').locked = (s.pc c').locked ∧ (s'.pc c').starts = (s.pc c').starts ∧
      (s'.pc c').stops = (s.pc c').stops ∧ (s'.pc c').sweeps = (s.pc c').sweeps := by
  rcases others_effect h hne with hpc | ⟨m, session, hwaiting, hnotified⟩
  · rw [hpc]
    exact ⟨rfl, rfl, rfl, rfl, rfl⟩
  · rw [hwaiting, hnotified]
    exact ⟨rfl, rfl, rfl, rfl, rfl⟩

/-- Where a load under the gate goes. -/
theorem reserve_own (m : M) (session : Bool) : ((s.reserve c m session running).pc c).plain := by
  obtain ⟨pc, hpc, -, -, heq⟩ := reserve_eq s c m session running
  rw [heq, goto_pc, if_pos rfl]
  exact hpc

/-- The load under the gate whose reference is taken. -/
def Reserved (P : Profiles M) (s : Manager C M) (running : M → Bool) (c : C) (m : M) (session : Bool) : Prop :=
  (s.pc c = .entering m session ∨ s.pc c = .notified m session) ∧ s.gate = none ∧ P.workload m ≠ .media ∧
      s.hasActiveConflict P m = false ∨
    ∃ rest, s.Sweeping P c m session rest ∧ ∀ h ∈ rest, ¬ s.Idle P running h

/-- A model that has references after a step had some before it, or a load takes one under the gate. -/
theorem references_effect (h : Effect P s running c s') {m : M} (hm : 0 < s'.references m) :
    0 < s.references m ∨ ∃ session, Reserved P s running c m session := by
  have hreserve : ∀ m' session, Reserved P s running c m' session → 0 < (s.reserve c m' session running).references m →
      0 < s.references m ∨ ∃ session, Reserved P s running c m session := by
    intro m' session hreserved hm
    by_cases hm' : m = m'
    · subst hm'
      exact .inr ⟨session, hreserved⟩
    · exact .inl (by simpa [reserve, hm'] using hm)
  cases h with
  | admitted m' session hpc hgate hconflict hhot => exact hreserve m' session (.inl ⟨hpc, hgate, hhot, hconflict⟩) hm
  | swept m' session rest hsweep hidle => exact hreserve m' session (.inr ⟨rest, hsweep, hidle⟩) hm
  | released m' hpc hlock hne =>
    refine .inl ?_
    simp only [goto_references, setReferences_references] at hm
    split at hm
    · next heq =>
      rw [heq]
      omega
    · exact hm
  | lastReleased m' hpc hlock hone =>
    refine .inl ?_
    simp only [goto_references, setLock_references, setReferences_references] at hm
    split at hm
    · cases hm
    · exact hm
  | _ => exact .inl hm

/-- References are given back under the lock. -/
theorem references_kept (h : Effect P s running c s') {m : M} (hlock : s.lock m ≠ none) : s.references m ≤ s'.references m := by
  have hreserve : ∀ m' session, s.references m ≤ (s.reserve c m' session running).references m := by
    intro m' session
    simp only [reserve, goto_references, setGate_references, setReferences_references]
    split
    · next heq =>
      subst heq
      exact Nat.le_succ _
    · exact Nat.le_refl _
  cases h with
  | admitted m' session => exact hreserve m' session
  | swept m' session => exact hreserve m' session
  | released m' hpc hfree =>
    have hne : m ≠ m' := fun heq => hlock (heq ▸ hfree)
    simp [hne]
  | lastReleased m' hpc hfree =>
    have hne : m ≠ m' := fun heq => hlock (heq ▸ hfree)
    simp [hne]
  | _ => exact Nat.le_refl _

/-! ## Locks -/

omit [DecidableEq C] [DecidableEq M] in
/-- No other has the gate. -/
theorem reserved_gate (hi : ∀ c, (s.pc c).gated = true → s.gate = some c) {x : M} {session : Bool} (hx : Reserved P s running c x session) (c' : C)
    (hgated : (s.pc c').gated = true) : c' = c := by
  have hc' := hi c' hgated
  have hnone : s.gate ≠ none := by
    rw [hc']
    exact Option.some_ne_none _
  rcases hx with ⟨-, hgate, -⟩ | ⟨rest, hpc | ⟨-, hgate, -⟩, -⟩
  · exact absurd hgate hnone
  · have hc := hi c (by rw [hpc]; rfl)
    rw [hc'] at hc
    exact Option.some.inj hc
  · exact absurd hgate hnone

/-- Who has the gate is its holder. -/
theorem gate_effect (hi : ∀ c, (s.pc c).gated = true → s.gate = some c) (h : Effect P s running c s') :
    ∀ c, (s'.pc c).gated = true → s'.gate = some c := by
  -- no other has the gate where `c` has it or it is free
  have hfree : s.gate = none ∨ s.gate = some c → ∀ c', c' ≠ c → (s'.pc c').gated = false := by
    intro hgate c' hne
    rw [(others_same h hne).1]
    by_contra hgated
    have hc' := hi c' (Bool.not_eq_false _ ▸ hgated)
    rcases hgate with hgate | hgate <;> rw [hgate] at hc' <;> cases hc'
    exact hne rfl
  have hleft : s'.gate = s.gate → (s'.pc c).gated = false → ∀ c', (s'.pc c').gated = true → s'.gate = some c' := by
    intro hgate hown c' hc'
    by_cases hne : c' = c
    · rw [hne, hown] at hc'
      cases hc'
    · rw [(others_same h hne).1] at hc'
      rw [hgate]
      exact hi c' hc'
  have htaken : s.gate = none ∨ s.gate = some c → s'.gate = some c ∨ (s'.pc c).gated = false →
      ∀ c', (s'.pc c').gated = true → s'.gate = some c' := by
    intro hgate hown c' hc'
    by_cases hne : c' = c
    · subst hne
      exact hown.resolve_right (by rw [hc']; decide)
    · rw [hfree hgate c' hne] at hc'
      cases hc'
  have hsweeping : ∀ m session rest, s.Sweeping P c m session rest → s.gate = none ∨ s.gate = some c := by
    rintro m session rest (hpc | ⟨-, hgate, -⟩)
    · exact .inr (hi c (by rw [hpc]; rfl))
    · exact .inl hgate
  have hown : ∀ pc : Pc M, s.pc c = pc → pc.gated = true → s.gate = none ∨ s.gate = some c :=
    fun pc hpc hgated => .inr (hi c (hpc ▸ hgated))
  cases h with
  | moved pc _ hpc => exact hleft rfl (by simpa using hpc.1)
  | serial m holder pc _ hpc => exact hleft rfl (by simpa using hpc.1)
  | held m session _ _ hgate => exact htaken (.inl hgate) (.inl rfl)
  | parked m session hpc => exact htaken (hown _ hpc rfl) (.inr (by simp [Pc.gated]))
  | admitted m session _ hgate => exact htaken (.inl hgate) (.inr (reserve_own m session).1)
  | swept m session rest hsweep => exact htaken (hsweeping m session rest hsweep) (.inr (reserve_own m session).1)
  | evicting m session skipped h rest hsweep => exact htaken (hsweeping _ _ _ hsweep) (.inl rfl)
  | evicted m session h rest hpc => exact htaken (hown _ hpc rfl) (.inl (hi c (by rw [hpc]; rfl)))
  | evictFailed m session h rest hpc => exact htaken (hown _ hpc rfl) (.inr (by simp [Pc.gated]))
  | started m session hpc => exact hleft rfl (by simpa using (returned_facts m session).1)
  | _ => exact hleft rfl (by simp [Pc.gated])

/-- Who has the lock of a model is its holder. -/
theorem lock_effect (hi : ∀ c m, (s.pc c).locked = some m → s.lock m = some c) (h : Effect P s running c s') :
    ∀ c m, (s'.pc c).locked = some m → s'.lock m = some c := by
  have hleft : s'.lock = s.lock → (s'.pc c).locked = none → ∀ c' m, (s'.pc c').locked = some m → s'.lock m = some c' := by
    intro hlock hown c' m hc'
    by_cases hne : c' = c
    · rw [hne, hown] at hc'
      cases hc'
    · rw [(others_same h hne).2.1] at hc'
      rw [hlock]
      exact hi c' m hc'
  -- the lock of `m` is given to `c`, or given back by it
  have htaken : ∀ m holder, s.lock m = none ∨ s.lock m = some c → (s'.lock = fun x => if x = m then holder else s.lock x) →
      ((s'.pc c).locked = some m ∧ holder = some c ∨ (s'.pc c).locked = none) →
      ∀ c' x, (s'.pc c').locked = some x → s'.lock x = some c' := by
    intro m holder hlock hlock' hown c' x hc'
    rw [hlock']
    dsimp only
    by_cases hne : c' = c
    · subst hne
      rcases hown with ⟨hown, rfl⟩ | hown
      · rw [hown] at hc'
        cases hc'
        rw [if_pos rfl]
      · rw [hown] at hc'
        cases hc'
    · rw [(others_same h hne).2.1] at hc'
      have hx := hi c' x hc'
      rw [if_neg, hx]
      rintro rfl
      rcases hlock with hlock | hlock <;> rw [hlock] at hx <;> cases hx
      exact hne rfl
  have hown : ∀ (pc : Pc M) m, s.pc c = pc → pc.locked = some m → s.lock m = none ∨ s.lock m = some c :=
    fun pc m hpc hlocked => .inr (hi c m (hpc ▸ hlocked))
  cases h with
  | moved pc _ hpc => exact hleft rfl (by simpa using hpc.2)
  | serial m holder pc _ hpc => exact hleft rfl (by simpa using hpc.2)
  | admitted m session => exact hleft rfl (reserve_own m session).2
  | swept m session => exact hleft rfl (reserve_own m session).2
  | start m session hpc hlock =>
    exact htaken m (some c) (.inl hlock) (funext fun x => setLock_lock s m x _) (.inl ⟨by simp [Pc.locked], rfl⟩)
  | started m session hpc =>
    exact htaken m none (hown _ m hpc rfl) (funext fun x => setLock_lock _ m x _)
      (.inr (by simpa using (returned_facts m session).2.1))
  | startFailed m session hpc =>
    exact htaken m none (hown _ m hpc rfl) (funext fun x => setLock_lock s m x _) (.inr (by simp [Pc.locked]))
  | lastReleased m hpc hlock =>
    exact htaken m (some c) (.inl hlock) (funext fun x => setLock_lock _ m x _) (.inl ⟨by simp [Pc.locked], rfl⟩)
  | stopped m hpc =>
    exact htaken m none (hown _ m hpc rfl) (funext fun x => setLock_lock _ m x _) (.inr (by simp [Pc.locked]))
  | stopFailed m hpc =>
    exact htaken m none (hown _ m hpc rfl) (funext fun x => setLock_lock s m x _) (.inr (by simp [Pc.locked]))
  | _ => exact hleft rfl (by simp [Pc.locked])

end Effects

end MilpbookLM.Inference
