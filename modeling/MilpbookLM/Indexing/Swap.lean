/-
The swap of a version's ready generation. At most one generation of a version is
ready at any time. A version that has a ready generation keeps one, and a build that
returns leaves its generation ready, as long as only generations that are building
or ready are swapped in, no ready one is marked failed, and none is swapped out
behind a build that found it ready (`stays_searchable`). A build of a superseded
generation swaps the ready one out and puts none in its place (`switch_back_unsearchable`).
-/
import MilpbookLM.Indexing.Completeness

namespace MilpbookLM

open Interleave

namespace IndexWorld

/-! ## Ready generations -/

def IsReady (w : IndexWorld) (id : Uuid) : Prop := ∃ g ∈ w.generations, g.id = id ∧ g.status = .ready

/-- The version has a ready generation. -/
def Searchable (w : IndexWorld) (sourceVersionId : Uuid) : Prop :=
  ∃ g ∈ w.generations, g.sourceVersionId = sourceVersionId ∧ g.status = .ready

/-- At most one generation of a version is ready. -/
def OneReady (w : IndexWorld) : Prop :=
  ∀ g ∈ w.generations, ∀ g' ∈ w.generations, g.status = .ready → g'.status = .ready →
    g.sourceVersionId = g'.sourceVersionId → g.id = g'.id

/-- The two are generations of one version. -/
def SameVersion (w : IndexWorld) (id id' : Uuid) : Prop :=
  ∃ g ∈ w.generations, ∃ g' ∈ w.generations, g.id = id ∧ g'.id = id' ∧ g.sourceVersionId = g'.sourceVersionId

/-- The table's primary key, and its unique index over the ready ones. -/
structure Sound (w : IndexWorld) : Prop where
  keyed : Table.Keyed (fun g : IndexGeneration => g.id) w.generations
  oneReady : w.OneReady

instance {w : IndexWorld} {id : Uuid} : Decidable (w.IsReady id) := by unfold IsReady; infer_instance

instance {w : IndexWorld} {v : Uuid} : Decidable (w.Searchable v) := by unfold Searchable; infer_instance

instance {w : IndexWorld} {id id' : Uuid} : Decidable (w.SameVersion id id') := by unfold SameVersion; infer_instance

/-! ## What a call does to a generation -/

/-- A swap's effect on a row: of the swapped in one's version, or itself. -/
def swapped (id sourceVersionId : Uuid) (chunkCount : Nat) (g : IndexGeneration) : IndexGeneration :=
  if g.id = id then
    if g.status = .building then { g with status := .ready, chunkCount, errorCode := none } else g
  else if g.sourceVersionId = sourceVersionId ∧ g.status = .ready then { g with status := .superseded } else g

section Swapped

variable {id v : Uuid} {n : Nat} {g : IndexGeneration}

@[simp] theorem swapped_id : (swapped id v n g).id = g.id := by
  simp only [swapped]
  repeat' split
  all_goals rfl

@[simp] theorem swapped_version : (swapped id v n g).sourceVersionId = g.sourceVersionId := by
  simp only [swapped]
  repeat' split
  all_goals rfl

theorem swapped_self (h : g.id = id) :
    (swapped id v n g).status = .ready ↔ g.status = .building ∨ g.status = .ready := by
  simp only [swapped, if_pos h]
  split
  · next hb => simp [hb]
  · next hb => simp [hb]

theorem swapped_other (h : g.id ≠ id) :
    (swapped id v n g).status = .ready ↔ g.status = .ready ∧ g.sourceVersionId ≠ v := by
  simp only [swapped, if_neg h]
  split
  · next hs => simp [hs.1]
  · next hs => exact ⟨fun hr => ⟨hr, fun hv => hs ⟨hv, hr⟩⟩, fun hr => hr.1⟩

end Swapped

variable {w : IndexWorld}

theorem generations_swapReady {id : Uuid} {n : Nat} {g : IndexGeneration} (h : w.generation? id = some g) :
    (w.swapReady id n).2.generations = w.generations.map (swapped id g.sourceVersionId n) := by
  simp only [swapReady, h, Table.update, List.map_map]
  refine List.map_congr_left fun a _ => ?_
  by_cases hid : a.id = id
  · by_cases hb : a.status = .building <;> simp [swapped, hid, hb]
  · by_cases hr : a.sourceVersionId = g.sourceVersionId ∧ a.status = .ready
    · simp [swapped, hid, hr]
    · simp [swapped, hid, hr]

end IndexWorld

section Calls

variable {documents : Uuid → Option CanonicalDocument} {env : IndexEnv} {c : IndexCall} {w : IndexWorld}

theorem IndexCall.exec_keyed (h : Table.Keyed (fun g : IndexGeneration => g.id) w.generations) :
    Table.Keyed (fun g : IndexGeneration => g.id) (c.exec documents env w).2.generations := by
  cases hr : env.raises with
  | some e => rwa [IndexCall.exec_raises hr]
  | none =>
    rw [IndexCall.exec_returns hr]
    cases c with
    | create identity config =>
      refine Table.keyed_update (fun _ _ => by rfl) ?_
      split
      · exact h
      · next hnew => exact Table.keyed_insert h (Table.lookup_none.2 (by simpa [IndexWorld.newGeneration] using hnew))
    | swapReady id n =>
      simp only [IndexCall.effect]
      cases hg : w.generation? id with
      | none => simpa only [IndexWorld.swapReady, hg] using h
      | some g =>
        rw [IndexWorld.generations_swapReady hg]
        simpa only [Table.Keyed, List.map_map, Function.comp_def, IndexWorld.swapped_id] using h
    | markFailed id errorCode => exact Table.keyed_update (fun _ _ => by rfl) h
    | insertChunks id document cs =>
      simp only [IndexCall.effect, IndexWorld.insertChunks]
      repeat' split
      all_goals exact h
    | _ => exact h

/-- A generation stays, of its version. A ready one stays ready unless it is marked failed,
or another of its version is swapped in. -/
theorem IndexCall.exec_generation (documents : Uuid → Option CanonicalDocument) (env : IndexEnv) (c : IndexCall)
    {g : IndexGeneration} (h : g ∈ w.generations) :
    ∃ g' ∈ (c.exec documents env w).2.generations, g'.id = g.id ∧ g'.sourceVersionId = g.sourceVersionId ∧
      (g.status = .ready → g'.status = .ready ∨ env.raises = none ∧ ((∃ e, c = .markFailed g.id e) ∨
        ∃ id n a, c = .swapReady id n ∧ w.generation? id = some a ∧ id ≠ g.id ∧
          a.sourceVersionId = g.sourceVersionId)) := by
  cases hr : env.raises with
  | some e => exact ⟨g, by rwa [IndexCall.exec_raises hr], rfl, rfl, .inl⟩
  | none =>
    rw [IndexCall.exec_returns hr]
    cases c with
    | create identity config =>
      refine ⟨_, List.mem_map_of_mem (a := g) ?_, ?_⟩
      · split
        · exact h
        · exact List.mem_append_left _ h
      · split
        · next hf =>
          simp only [Bool.and_eq_true, decide_eq_true_eq] at hf
          exact ⟨rfl, rfl, fun hready => by rw [hf.2] at hready; cases hready⟩
        · exact ⟨rfl, rfl, .inl⟩
    | swapReady id n =>
      simp only [IndexCall.effect]
      cases ha : w.generation? id with
      | none => exact ⟨g, by simpa only [IndexWorld.swapReady, ha] using h, rfl, rfl, .inl⟩
      | some a =>
        rw [IndexWorld.generations_swapReady ha]
        refine ⟨_, List.mem_map_of_mem h, IndexWorld.swapped_id, IndexWorld.swapped_version, fun hready => ?_⟩
        by_cases hid : g.id = id
        · exact .inl ((IndexWorld.swapped_self hid).2 (.inr hready))
        · by_cases hv : a.sourceVersionId = g.sourceVersionId
          · exact .inr ⟨trivial, .inr ⟨id, n, a, rfl, ha, Ne.symm hid, hv⟩⟩
          · exact .inl ((IndexWorld.swapped_other hid).2 ⟨hready, Ne.symm hv⟩)
    | markFailed id errorCode =>
      refine ⟨_, List.mem_map_of_mem h, ?_⟩
      split
      · next hid => exact ⟨rfl, rfl, fun _ => .inr ⟨rfl, .inl ⟨errorCode, by rw [of_decide_eq_true hid]⟩⟩⟩
      · exact ⟨rfl, rfl, .inl⟩
    | insertChunks id document cs =>
      refine ⟨g, ?_, rfl, rfl, .inl⟩
      simp only [IndexCall.effect, IndexWorld.insertChunks]
      repeat' split
      all_goals exact h
    | _ => exact ⟨g, h, rfl, rfl, .inl⟩

/-- A swap raises and changes no generation, or finds its own and swaps it in. -/
theorem IndexCall.exec_swap (documents : Uuid → Option CanonicalDocument) (env : IndexEnv) (w : IndexWorld) (id : Uuid)
    (n : Nat) :
    (∃ e, ((IndexCall.swapReady id n).exec documents env w).1 = .error e ∧
      ((IndexCall.swapReady id n).exec documents env w).2 = w) ∨
    env.raises = none ∧ ((IndexCall.swapReady id n).exec documents env w).1 = .ok () ∧ ∃ g, w.generation? id = some g ∧
      ((IndexCall.swapReady id n).exec documents env w).2.generations =
        w.generations.map (IndexWorld.swapped id g.sourceVersionId n) := by
  cases hr : env.raises with
  | some e => exact .inl ⟨e, by rw [IndexCall.exec_raises hr], by rw [IndexCall.exec_raises hr]⟩
  | none =>
    rw [IndexCall.exec_returns hr]
    simp only [IndexCall.effect]
    cases hg : w.generation? id with
    | none =>
      have heq : w.swapReady id n = (.error (.lookup ("unknown index generation: " ++ id.str)), w) := by
        simp only [IndexWorld.swapReady, hg]
      exact .inl ⟨_, congrArg Prod.fst heq, congrArg Prod.snd heq⟩
    | some g =>
      refine .inr ⟨trivial, ?_, g, rfl, IndexWorld.generations_swapReady hg⟩
      simp only [IndexWorld.swapReady, hg]
      rfl

/-- **No call leaves two ready generations of a version.** -/
theorem IndexCall.exec_sound (h : w.Sound) : (c.exec documents env w).2.Sound := by
  refine ⟨IndexCall.exec_keyed h.keyed, ?_⟩
  by_cases hswap : ∃ id n, c = .swapReady id n
  · obtain ⟨id, n, rfl⟩ := hswap
    rcases IndexCall.exec_swap documents env w id n with ⟨e, -, hw⟩ | ⟨-, -, a, ha, hgens⟩
    · rw [hw]
      exact h.oneReady
    · obtain ⟨hmem, rfl⟩ := Table.lookup_some ha
      have same : ∀ g ∈ w.generations, g.id = a.id → g = a := fun g hg hid => List.inj_on_of_nodup_map h.keyed hg hmem hid
      intro g hg g' hg' hs hs' hv
      rw [hgens, List.mem_map] at hg hg'
      obtain ⟨g, hg, rfl⟩ := hg
      obtain ⟨g', hg', rfl⟩ := hg'
      simp only [IndexWorld.swapped_id, IndexWorld.swapped_version] at hv ⊢
      by_cases hid : g.id = a.id
      · by_cases hid' : g'.id = a.id
        · exact hid.trans hid'.symm
        · exact absurd (hv.symm.trans (by rw [same g hg hid])) ((IndexWorld.swapped_other hid').1 hs').2
      · by_cases hid' : g'.id = a.id
        · exact absurd (hv.trans (by rw [same g' hg' hid'])) ((IndexWorld.swapped_other hid).1 hs).2
        · exact h.oneReady g hg g' hg' ((IndexWorld.swapped_other hid).1 hs).1 ((IndexWorld.swapped_other hid').1 hs').1 hv
  · intro g hg g' hg' hs hs' hv
    rcases IndexCall.exec_ready hg hs with ⟨a, ha, hid, hav, has⟩ | ⟨n, hc⟩
    · rcases IndexCall.exec_ready hg' hs' with ⟨b, hb, hid', hbv, hbs⟩ | ⟨n, hc⟩
      · exact hid ▸ hid' ▸ h.oneReady a ha b hb has hbs (hav.trans (hv.trans hbv.symm))
      · exact absurd ⟨_, n, hc⟩ hswap
    · exact absurd ⟨_, n, hc⟩ hswap

end Calls

/-! ## Rules -/

/-- A build counts the chunks of a generation that it has just found ready. -/
def CountsReady (t : IndexHistory) : IndexCall → Prop
  | .chunkCount id => ∃ t', t = ⟨.getStatus id, .ok (some .ready)⟩ :: t'
  | _ => True

/-- The last call is one that a build returns behind. -/
def EndsBuild (id : Uuid) (t : IndexHistory) : Prop :=
  (∃ n t', t = ⟨.swapReady id n, .ok ()⟩ :: t') ∨ ∃ n : Nat, ∃ t', t = ⟨.chunkCount id, .ok n⟩ :: t'

section Programs

variable {rt : Runtime} {t : IndexHistory}

theorem insertPending_countsReady {identity progress document pending} :
    Prog.Ensures (fun _ _ => True) CountsReady (BuildSourceIndex.insertPending identity progress document pending)
      (fun _ _ => True) t := by
  refine ensures_when (R := fun _ => True) (fun _ => ?_) fun _ => trivial
  refine .bind (IndexCall.ensures (c := .insertChunks identity.generationId document pending) (R := fun _ _ => True)
    trivial fun _ _ => trivial) fun _ t _ _ => ensures_report fun _ => trivial

theorem embedPending_countsReady {identity config progress pending} :
    Prog.Ensures (fun _ _ => True) CountsReady (BuildSourceIndex.embedPending identity config progress pending)
      (fun _ _ => True) t := by
  refine .bind (ensures_when (R := fun _ => True) (fun _ => Prog.ensures_throw) fun _ => trivial) fun _ t _ _ => ?_
  refine .mono (Prog.Ensures.forM (fun _ => True) (fun _ _ => True) (fun _ _ _ _ _ => trivial) trivial ?_)
    fun _ _ _ _ => trivial
  rintro batch - t -
  refine .bind (R := fun _ _ => True) ?_ fun _ t _ _ => .mono (ensures_report fun _ => trivial) fun _ _ _ _ => ⟨trivial, trivial⟩
  refine .bind (IndexCall.ensures (c := .embed (batch.2.map (·.text)) config.embedding.dimension) (R := fun _ _ => True)
    trivial fun _ _ => trivial) fun (vectors : List String) t _ _ => ?_
  refine .bind (Prog.Ensures.forM (fun _ => True) (fun _ _ => True) (fun _ _ _ _ _ => trivial) trivial ?_) fun _ t _ _ => ?_
  · rintro pair - t -
    exact IndexCall.ensures (c := .setEmbedding identity.generationId pair.1.chunkId pair.2) trivial
      fun _ _ => ⟨trivial, trivial⟩
  · exact ensures_when (R := fun _ => True) (fun _ => Prog.ensures_throw) fun _ => trivial

/-- **A build returns behind the swap of its generation, or behind the count of its chunks.** -/
theorem run_endsBuild {identity config progress} :
    Prog.Ensures (fun _ _ => True) CountsReady (BuildSourceIndex.run rt identity config progress)
      (fun _ => EndsBuild identity.generationId) t := by
  refine .bind (IndexCall.ensures (c := .getStatus identity.generationId)
    (R := fun status t => ∃ t', t = ⟨.getStatus identity.generationId, .ok status⟩ :: t') trivial
      fun status _ => ⟨t, rfl⟩) fun (status : Option GenerationStatus) t _ ht => ?_
  refine Prog.ensures_ite (fun hready => ?_) fun _ => ?_
  · obtain rfl := hready
    exact IndexCall.ensures (c := .chunkCount identity.generationId) ht fun n _ => .inr ⟨n, t, rfl⟩
  refine .bind (ensures_when (R := fun _ => True) (fun _ => IndexCall.ensures (c := .create identity config) trivial
    fun _ _ => trivial) fun _ => trivial) fun _ t _ _ => ?_
  refine .bind (IndexCall.ensures (c := .load identity.canonicalDocumentId) (R := fun _ _ => True) trivial
    fun _ _ => trivial) fun (document : CanonicalDocument) t _ _ => ?_
  refine .bind (ensures_when (R := fun _ => True) (fun _ => Prog.ensures_throw) fun _ => trivial) fun _ t _ _ => ?_
  refine .bind (ensures_report fun _ => trivial) fun _ t _ _ => ?_
  cases rt.chunkDocument document config.profile with
  | none => exact Prog.ensures_throw
  | some chunks =>
    refine .bind (IndexCall.ensures (c := .existingChunkIds identity.generationId) (R := fun _ _ => True) trivial
      fun _ _ => trivial) fun (existing : List Uuid) t _ _ => ?_
    refine .bind insertPending_countsReady fun _ t _ _ => ?_
    refine .bind embedPending_countsReady fun _ t _ _ => ?_
    exact .bind (IndexCall.ensures (c := .swapReady identity.generationId chunks.length)
      (R := fun _ => EndsBuild identity.generationId) trivial fun _ _ => .inl ⟨chunks.length, t, rfl⟩)
        fun _ _ _ h => Prog.ensures_pure h

theorem program_countsReady (request : IndexRequest) :
    Prog.Along (fun _ _ => True) CountsReady (request.program rt).run (fun _ _ => True) t := by
  cases request with
  | handle identity config =>
    refine Prog.Along.seq (Prog.Along.guarded (Prog.Along.mono run_endsBuild fun r t _ => ?_))
    cases r with
    | ok n => exact ⟨trivial, fun _ _ => trivial⟩
    | error e => exact Prog.Along.seq (buildFail_along (fun _ => trivial) fun _ => trivial)
  | run identity config progress =>
    exact Prog.Along.mono (Prog.Ensures.bind (S := fun _ _ => True) run_endsBuild fun _ _ _ _ => Prog.ensures_pure trivial)
      fun _ _ _ => trivial
  | create => exact ⟨trivial, fun _ _ => trivial⟩
  | swapReady => exact ⟨trivial, fun _ _ => trivial⟩
  | markFailed => exact ⟨trivial, fun _ _ => trivial⟩

end Programs

/-! ## Runs -/

section Runs

variable {P : Type} [DecidableEq P]

/-- The generation that a call swapped in. -/
def swappedIn : Event P IndexCall IndexAnswer → Option Uuid
  | ⟨_, .swapReady id _, .ok _⟩ => some id
  | _ => none

/-- The generations that were swapped in since the last call of `p`. -/
def swapsSince (p : P) (t : List (Event P IndexCall IndexAnswer)) : List Uuid :=
  (t.takeWhile (·.party ≠ p)).filterMap swappedIn

/-- What is swapped in is building or ready, what is marked failed is not ready, and no other
generation of the version is swapped in between a build's look at its ready one and its return. -/
def KeepsReady (p : P) (c : IndexCall) (env : IndexEnv) (r : IndexRun P) : Prop :=
  env.raises = none → match c with
    | .swapReady id _ => ∀ g ∈ r.shared.generations, g.id = id → g.status = .building ∨ g.status = .ready
    | .markFailed id _ => ∀ g ∈ r.shared.generations, g.id = id → g.status ≠ .ready
    | .chunkCount id => ∀ id' ∈ swapsSince p r.trace, id' = id ∨ ¬ r.shared.SameVersion id' id
    | _ => True

/-- Where the last calls of a process are those of a build that returned, the build's generation is ready. -/
def ReturnsReady (rt : Runtime) (r : IndexRun P) : Prop :=
  ∀ (ev : Event P IndexCall IndexAnswer) rest identity config progress n s earlier, r.trace = ev :: rest →
    own ev.party r.trace = s ++ earlier →
      Prog.Returns (BuildSourceIndex.run rt identity config progress).run s (.ok n) →
        r.shared.IsReady identity.generationId

/-- A generation that a process has found ready is ready, or another of its version has been swapped in since. -/
structure SwapKept (r : IndexRun P) : Prop where
  found : ∀ p id t, own p r.trace = ⟨.getStatus id, .ok (some .ready)⟩ :: t →
    r.shared.IsReady id ∨ ∃ id' ∈ swapsSince p r.trace, id' ≠ id ∧ r.shared.SameVersion id' id
  ended : ∀ ev rest id, r.trace = ev :: rest → EndsBuild id (own ev.party r.trace) → r.shared.IsReady id

variable {rt : Runtime} {documents : Uuid → Option CanonicalDocument} {cond : P → IndexCall → IndexEnv → IndexRun P → Prop}
  {r : IndexRun P} {p : P} {c : IndexCall} {env : IndexEnv}

theorem SwapKept.returnsReady (h : SwapKept r) : ReturnsReady rt r := by
  intro ev rest identity config progress n s earlier htrace hown hs
  refine h.ended ev rest _ htrace ?_
  rw [hown]
  exact run_endsBuild.returns hs

theorem IndexWorld.SameVersion.call {w : IndexWorld} {id id' : Uuid} (h : w.SameVersion id id') :
    (c.exec documents env w).2.SameVersion id id' := by
  obtain ⟨g, hg, g', hg', rfl, rfl, hv⟩ := h
  obtain ⟨a, ha, haid, hav, -⟩ := IndexCall.exec_generation documents env c hg
  obtain ⟨b, hb, hbid, hbv, -⟩ := IndexCall.exec_generation documents env c hg'
  exact ⟨a, ha, b, hb, haid, hbid, hav.trans (hv.trans hbv.symm)⟩

/-- A ready generation stays so, or another of its version is swapped in. -/
theorem IndexWorld.IsReady.call (documents : Uuid → Option CanonicalDocument) {id : Uuid} (h : r.shared.IsReady id)
    (hc : KeepsReady p c env r) :
    (c.exec documents env r.shared).2.IsReady id ∨
      ∃ id' n, (⟨c, (c.exec documents env r.shared).1⟩ : Σ c, IndexAnswer c) = ⟨.swapReady id' n, .ok ()⟩ ∧ id' ≠ id ∧
        r.shared.SameVersion id' id := by
  obtain ⟨g, hg, rfl, hs⟩ := h
  obtain ⟨g', hg', hid, -, hready⟩ := IndexCall.exec_generation documents env c hg
  rcases hready hs with hs' | ⟨hr, ⟨e, rfl⟩ | ⟨id', n, a, rfl, ha, hne, hv⟩⟩
  · exact .inl ⟨g', hg', hid, hs'⟩
  · exact absurd hs (hc hr g hg rfl)
  · obtain ⟨hmem, haid⟩ := Table.lookup_some ha
    rcases IndexCall.exec_swap documents env r.shared id' n with ⟨e, -, hw⟩ | ⟨-, hok, -⟩
    · exact .inl ⟨g, by rwa [hw], rfl, hs⟩
    · exact .inr ⟨id', n, by rw [hok], hne, a, hmem, g, hg, haid, rfl, hv⟩

/-- A swap that goes through leaves its generation ready. -/
theorem isReady_swap {id : Uuid} {n : Nat} (hc : KeepsReady p (.swapReady id n) env r)
    (h : ((IndexCall.swapReady id n).exec documents env r.shared).1 = .ok ()) :
    ((IndexCall.swapReady id n).exec documents env r.shared).2.IsReady id := by
  rcases IndexCall.exec_swap documents env r.shared id n with ⟨e, he, -⟩ | ⟨hr, -, g, hg, hgens⟩
  · rw [he] at h
    cases h
  · obtain ⟨hmem, hid⟩ := Table.lookup_some hg
    refine ⟨_, hgens ▸ List.mem_map_of_mem hmem, by simpa using hid, ?_⟩
    exact (IndexWorld.swapped_self hid).2 (hc hr g hmem hid)

theorem mem_swapsSince_cons {q : P} {a : IndexAnswer c} {t : List (Event P IndexCall IndexAnswer)} {id : Uuid}
    (hq : p ≠ q) : id ∈ swapsSince q (⟨p, c, a⟩ :: t) ↔ swappedIn (⟨p, c, a⟩ : Event P IndexCall IndexAnswer) = some id ∨
      id ∈ swapsSince q t := by
  rw [swapsSince, List.takeWhile_cons_of_pos (by simpa using hq), List.filterMap_cons]
  cases swappedIn (⟨p, c, a⟩ : Event P IndexCall IndexAnswer) with
  | none => simp [swapsSince]
  | some id' => simp [swapsSince, eq_comm]

theorem found_call (hk : SwapKept r) (hc : KeepsReady p c env r) :
    ∀ q id t, own q (r.call documents p c env).trace = ⟨.getStatus id, .ok (some .ready)⟩ :: t →
      (r.call documents p c env).shared.IsReady id ∨ ∃ id' ∈ swapsSince q (r.call documents p c env).trace,
        id' ≠ id ∧ (r.call documents p c env).shared.SameVersion id' id := by
  intro q id t hown
  simp only [Run.call_trace, Run.call_shared] at hown ⊢
  by_cases hq : p = q
  · subst hq
    rw [own_self] at hown
    obtain ⟨rfl, h⟩ := Sigma.mk.inj (List.cons.inj hown).1
    obtain ⟨hr, h⟩ := IndexCall.exec_ok (c := .getStatus id) (eq_of_heq h).symm
    obtain ⟨g, hg, hs⟩ := Option.map_eq_some_iff.1 (Except.ok.inj h).symm
    rw [IndexCall.exec_returns hr]
    exact .inl ⟨g, (Table.lookup_some hg).1, (Table.lookup_some hg).2, hs⟩
  · rw [own_other hq] at hown
    rcases hk.found q id t hown with h | ⟨id', hmem, hne, hv⟩
    · rcases h.call documents hc with h | ⟨id', n, hev, hne, hv⟩
      · exact .inl h
      · obtain ⟨rfl, h⟩ := Sigma.mk.inj hev
        exact .inr ⟨id', (mem_swapsSince_cons hq).2 (.inl (by rw [eq_of_heq h]; rfl)), hne, hv.call⟩
    · exact .inr ⟨id', (mem_swapsSince_cons hq).2 (.inr hmem), hne, hv.call⟩

theorem ended_call (hk : SwapKept r) (hc : KeepsReady p c env r) (hf : CountsReady (own p r.trace) c) :
    ∀ ev rest id, (r.call documents p c env).trace = ev :: rest →
      EndsBuild id (own ev.party (r.call documents p c env).trace) → (r.call documents p c env).shared.IsReady id := by
  intro ev rest id htrace hends
  obtain ⟨rfl, -⟩ := List.cons.inj htrace
  simp only [Run.call_trace, Run.call_shared, own_self] at hends ⊢
  rcases hends with ⟨n, t', h⟩ | ⟨n, t', h⟩
  · obtain ⟨rfl, h⟩ := Sigma.mk.inj (List.cons.inj h).1
    exact isReady_swap hc (eq_of_heq h)
  · obtain ⟨rfl, h⟩ := Sigma.mk.inj (List.cons.inj h).1
    obtain ⟨hr, -⟩ := IndexCall.exec_ok (c := .chunkCount id) (eq_of_heq h).symm
    rw [IndexCall.exec_returns hr]
    obtain ⟨t', hown⟩ := hf
    rcases hk.found p id t' hown with h | ⟨id', hmem, hne, hv⟩
    · exact h
    · exact absurd hv ((hc hr id' hmem).resolve_left hne)

theorem swapKept_runs (h : Runs (fun c env => IndexCall.exec documents env c) IndexWorld.Sound
    (fun p c env r => KeepsReady p c env r ∧ CountsReady (own p r.trace) c) r) : SwapKept r := by
  refine Reach.invariant ?_ ?_ h
  · rintro r ⟨-, htrace⟩
    exact ⟨fun p id t h => by simp [htrace] at h, fun ev rest id h => by simp [htrace] at h⟩
  · rintro r r' - hk ⟨p, c, env, hc, hf⟩
    exact ⟨found_call hk hc, ended_call hk hc hf⟩

theorem searchable_call {v : Uuid} (h : r.shared.Searchable v) (hc : KeepsReady p c env r) :
    (c.exec documents env r.shared).2.Searchable v := by
  obtain ⟨g, hg, rfl, hs⟩ := h
  obtain ⟨g', hg', -, hv, hready⟩ := IndexCall.exec_generation documents env c hg
  rcases hready hs with hs' | ⟨hr, ⟨e, rfl⟩ | ⟨id, n, a, rfl, ha, -, hav⟩⟩
  · exact ⟨g', hg', hv, hs'⟩
  · exact absurd hs (hc hr g hg rfl)
  · obtain ⟨hmem, hid⟩ := Table.lookup_some ha
    rcases IndexCall.exec_swap documents env r.shared id n with ⟨e, -, hw⟩ | ⟨-, -, b, hb, hgens⟩
    · exact ⟨g, by rwa [hw], rfl, hs⟩
    · refine ⟨_, hgens ▸ List.mem_map_of_mem hmem, by simpa using hav, ?_⟩
      exact (IndexWorld.swapped_self hid).2 (hc hr a hmem hid)

end Runs

section Pools

variable {P : Type} [DecidableEq P] {rt : Runtime} {documents : Uuid → Option CanonicalDocument}
  {cond : P → IndexCall → IndexEnv → IndexRun P → Prop} {pool pool' : IndexPool P}

theorem sound_pool (h : (indexMachine rt documents P fun _ => True).Reach IndexWorld.Sound cond pool) :
    pool.run.shared.Sound := by
  refine Reach.invariant (I := fun pool => pool.run.shared.Sound) (fun _ hi => hi.1.1) ?_ h
  rintro pool pool' - hsound hst
  cases hst with
  | call hp =>
    simp only [Machine.move, hp, Run.call_shared]
    exact IndexCall.exec_sound hsound
  | start r hp => simpa only [Machine.move, hp] using hsound

theorem searchable_steps {v : Uuid} (h : pool.run.shared.Searchable v)
    (hs : Relation.ReflTransGen ((indexMachine rt documents P fun _ => True).Step KeepsReady) pool pool') :
    pool'.run.shared.Searchable v := by
  induction hs with
  | refl => exact h
  | tail _ hst ih =>
    cases hst with
    | call hp hc =>
      simp only [Machine.move, hp, Run.call_shared]
      exact searchable_call ih hc
    | start r hp => simpa only [Machine.move, hp] using ih

/-- **A version stays searchable**: at most one of its generations is ready, a build that returns
leaves its own ready, and from a ready one there is one in every state reached. -/
theorem stays_searchable
    (h : (indexMachine rt documents P fun _ => True).Reach IndexWorld.Sound KeepsReady pool)
    (hs : Relation.ReflTransGen ((indexMachine rt documents P fun _ => True).Step KeepsReady) pool pool') :
    pool.run.shared.OneReady ∧ ReturnsReady rt pool.run ∧
      ∀ v, pool.run.shared.Searchable v → pool'.run.shared.Searchable v := by
  have hruns := (Machine.runs_along (fun _ _ _ _ _ _ _ => trivial) (fun _ => trivial)
    (fun _ r t _ => program_countsReady r.1) h).1
  exact ⟨(sound_pool h).oneReady, (swapKept_runs hruns).returnsReady, fun v hv => searchable_steps hv hs⟩

end Pools

/-! ## Schedules -/

instance {P : Type} [DecidableEq P] (p : P) (c : IndexCall) (env : IndexEnv) (r : IndexRun P) :
    Decidable (KeepsReady p c env r) := by
  rcases c with ⟨⟩ <;> dsimp only [KeepsReady] <;> infer_instance

theorem sound_empty : ({} : IndexWorld).Sound := ⟨List.nodup_nil, fun _ h => nomatch h⟩

/-- A build of a generation. -/
def buildOf (id : Uuid) : { _r : IndexRequest // True } :=
  ⟨.run (samplePlan.identity id)
    { profile := structuralChunkerV1
      embedding := { model := "bge-m3", modelRef := none, dimension := 1, normalization := "l2" } } false, trivial⟩

/-- A build from nothing makes eight calls. -/
def buildMoves (id : Uuid) : List (Move Unit IndexEnv { _r : IndexRequest // True }) :=
  .start () (buildOf id) :: indexCalls () 8

/-- The machine of the schedules below. -/
abbrev sampleMachine : Machine Unit IndexCall IndexAnswer IndexError IndexWorld IndexEnv { _r : IndexRequest // True } :=
  indexMachine sampleRuntime sampleDocuments Unit fun _ => True

abbrev samplePool (ms : List (Move Unit IndexEnv { _r : IndexRequest // True })) : IndexPool Unit :=
  indexSchedule sampleRuntime sampleDocuments (fun _ => True) ms

/-- The second build swaps the first out, and the version stays searchable. -/
theorem stays_searchable_rebuilt :
    (samplePool (buildMoves 7#128)).run.shared.Searchable 1#128 ∧ (samplePool (buildMoves 7#128)).run.shared.OneReady ∧
      ReturnsReady sampleRuntime (samplePool (buildMoves 7#128)).run ∧
      ((buildMoves 8#128).foldl sampleMachine.move (samplePool (buildMoves 7#128))).run.shared.Searchable 1#128 := by
  have hreach : sampleMachine.Reach IndexWorld.Sound KeepsReady (samplePool (buildMoves 7#128)) :=
    reach_indexSchedule IndexWorld.Sound sound_empty (by decide +kernel)
  have hsteps : Relation.ReflTransGen (sampleMachine.Step KeepsReady) (samplePool (buildMoves 7#128))
      ((buildMoves 8#128).foldl sampleMachine.move (samplePool (buildMoves 7#128))) :=
    Machine.steps_moves (by decide +kernel)
  have hready : (samplePool (buildMoves 7#128)).run.shared.Searchable 1#128 := by decide +kernel
  obtain ⟨hone, hreturns, hkeeps⟩ := stays_searchable hreach hsteps
  exact ⟨hready, hone, hreturns, hkeeps _ hready⟩

/-- The first generation is built again when the second has taken its place. -/
theorem switch_back_unsearchable :
    ¬ ∀ (rt : Runtime) (documents : Uuid → Option CanonicalDocument) (pool pool' : IndexPool Unit),
      (indexMachine rt documents Unit fun _ => True).Reach IndexWorld.Sound (fun _ _ _ _ => True) pool →
      Relation.ReflTransGen ((indexMachine rt documents Unit fun _ => True).Step (fun _ _ _ _ => True)) pool pool' →
        pool.run.shared.OneReady ∧ ReturnsReady rt pool.run ∧
          ∀ v, pool.run.shared.Searchable v → pool'.run.shared.Searchable v := by
  intro h
  have hreach : sampleMachine.Reach IndexWorld.Sound (fun _ _ _ _ => True)
      (samplePool (buildMoves 7#128 ++ buildMoves 8#128)) :=
    reach_indexSchedule IndexWorld.Sound sound_empty Machine.meets_true
  have hsteps : Relation.ReflTransGen (sampleMachine.Step fun _ _ _ _ => True)
      (samplePool (buildMoves 7#128 ++ buildMoves 8#128))
      ((.start () (buildOf 7#128) :: indexCalls () 4).foldl sampleMachine.move
        (samplePool (buildMoves 7#128 ++ buildMoves 8#128))) :=
    Machine.steps_moves Machine.meets_true
  have hkept := (h sampleRuntime sampleDocuments _ _ hreach hsteps).2.2 1#128
  revert hkept
  decide +kernel

end MilpbookLM
