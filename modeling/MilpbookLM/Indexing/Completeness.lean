/-
A ready generation is completely embedded: its rows are the chunks of its document,
each with a vector that the endpoint answered for its text. Builds of it keep this
so, however many there are, however they interleave and wherever they stop, as long
as none of them starts from rows without a vector (`ready_complete`). A build that
does takes those rows for done (`ready_without_embedding`).
-/
import MilpbookLM.Documents.Coordinates
import MilpbookLM.Indexing.Build

namespace MilpbookLM

open Interleave

/-- What a generation is of, for every id. -/
structure GenerationPlan where
  identity : Uuid → GenerationIdentity
  profile : Uuid → ChunkerProfile

section Rules

variable (rt : Runtime) (documents : Uuid → Option CanonicalDocument) (plan : GenerationPlan)

/-- The chunks of a generation's document. -/
def GenerationPlan.chunks (generationId : Uuid) : Option (List Chunk) := do
  let document ← documents (plan.identity generationId).canonicalDocumentId
  rt.chunkDocument document (plan.profile generationId)

/-- Builds under the plan, none with a negative batch size, and no bare swap. -/
def GenerationPlan.Admits : IndexRequest → Prop
  | .handle identity config | .run identity config _ =>
    identity = plan.identity identity.generationId ∧ config.profile = plan.profile identity.generationId ∧
      0 ≤ config.embedding.batchSize
  | .swapReady .. => False
  | .create .. | .markFailed .. => True

/-! ## What the calls of a build rely on -/

/-- The row was there when the build looked, or was given its vector. -/
def Vectored (t : IndexHistory) (generationId chunkId : Uuid) : Prop :=
  (∃ ids : List Uuid, ⟨.existingChunkIds generationId, .ok ids⟩ ∈ t ∧ chunkId ∈ ids) ∨
    ∃ v, ⟨.setEmbedding generationId chunkId v, .ok ()⟩ ∈ t

/-- The chunk is one that was inserted. -/
def Inserted (t : IndexHistory) (generationId : Uuid) (chunk : Chunk) : Prop :=
  ∃ document chunks, ∃ n : Nat, ⟨.insertChunks generationId document chunks, .ok n⟩ ∈ t ∧ chunk ∈ chunks

/-- The endpoint answered the text with the vector. -/
def VectorFor (t : IndexHistory) (text : Text) (v : String) : Prop :=
  ∃ texts dimension, ∃ vectors : List String, ⟨.embed texts dimension, .ok vectors⟩ ∈ t ∧ (text, v) ∈ texts.zip vectors

def IndexFollows (t : IndexHistory) : IndexCall → Prop
  | .insertChunks id _ cs => ∃ chunks, plan.chunks rt documents id = some chunks ∧ ∀ c ∈ cs, c ∈ chunks
  | .setEmbedding id chunkId v => ∃ chunks, ∃ c ∈ chunks, plan.chunks rt documents id = some chunks ∧
      c.chunkId = chunkId ∧ Inserted t id c ∧ VectorFor t c.text v
  | .swapReady id _ => ∃ chunks, plan.chunks rt documents id = some chunks ∧ ∀ c ∈ chunks, Vectored t id c.chunkId
  | _ => True

/-- A load answers with the document. -/
def LoadsDocument : (c : IndexCall) → IndexAnswer c → Prop
  | .load id, answer => ∀ document, answer = .ok document → documents id = some document
  | _, _ => True

/-- A program of the pipeline keeps to the rules, and `R` holds where it returns. -/
abbrev IndexProgram.Ensures {α : Type} (x : IndexProgram α) (R : α → IndexHistory → Prop) (t : IndexHistory) : Prop :=
  Prog.Ensures (LoadsDocument documents) (IndexFollows rt documents plan) x R t

end Rules

section Programs

variable {rt : Runtime} {documents : Uuid → Option CanonicalDocument} {plan : GenerationPlan} {t : IndexHistory}
  {α : Type}

theorem Inserted.mono {t' : IndexHistory} {id c} (hs : t <:+ t') : Inserted t id c → Inserted t' id c :=
  fun ⟨document, chunks, n, h, hc⟩ => ⟨document, chunks, n, hs.subset h, hc⟩

theorem Vectored.mono {t' : IndexHistory} {id chunkId} (hs : t <:+ t') : Vectored t id chunkId → Vectored t' id chunkId :=
  Or.imp (fun ⟨ids, h, hid⟩ => ⟨ids, hs.subset h, hid⟩) fun ⟨v, h⟩ => ⟨v, hs.subset h⟩

/-! ## Batches -/

theorem mem_of_mem_batches {β : Type} {batchSize : Int} {pending : List β} {batch : Nat × List β} {c : β}
    (hb : batch ∈ batches batchSize pending) (hc : c ∈ batch.2) : c ∈ pending := by
  simp only [batches] at hb
  split at hb
  · cases hb
  · obtain ⟨k, -, rfl⟩ := List.mem_map.1 hb
    exact List.mem_of_mem_drop (List.mem_of_mem_take hc)

/-- Every one is in a batch. -/
theorem exists_batch {β : Type} {batchSize : Int} (hsize : 0 < batchSize) {pending : List β} {c : β} (hc : c ∈ pending) :
    ∃ batch ∈ batches batchSize pending, c ∈ batch.2 := by
  have hpos : 0 < batchSize.toNat := Int.pos_iff_toNat_pos.1 hsize
  obtain ⟨i, hi, rfl⟩ := List.mem_iff_getElem.1 hc
  rw [batches, if_neg (Int.not_le.2 hsize)]
  have hk : i / batchSize.toNat < (pending.length + batchSize.toNat - 1) / batchSize.toNat := by
    rw [Nat.lt_div_iff_mul_lt hpos]
    have := Nat.div_mul_le_self i batchSize.toNat
    omega
  refine ⟨_, List.mem_map_of_mem (List.mem_range.2 hk), List.mem_iff_getElem.2 ⟨i % batchSize.toNat, ?_, ?_⟩⟩
  · have hmod := Nat.mod_lt i hpos
    have hdiv := Nat.div_add_mod' i batchSize.toNat
    simp only [List.length_take, List.length_drop]
    omega
  · simp only [List.getElem_take, List.getElem_drop, Nat.div_add_mod']

/-! ## The build keeps to the rules -/

/-- The chunks are inserted ones of the generation. -/
def Pending (rt : Runtime) (documents : Uuid → Option CanonicalDocument) (plan : GenerationPlan) (t : IndexHistory)
    (generationId : Uuid) (pending : List Chunk) : Prop :=
  ∃ chunks, plan.chunks rt documents generationId = some chunks ∧ ∀ c ∈ pending, c ∈ chunks ∧ Inserted t generationId c

theorem Pending.mono {t' : IndexHistory} {id pending} (hs : t <:+ t') :
    Pending rt documents plan t id pending → Pending rt documents plan t' id pending :=
  fun ⟨chunks, hchunks, h⟩ => ⟨chunks, hchunks, fun c hc => ⟨(h c hc).1, (h c hc).2.mono hs⟩⟩

theorem embedBatch_ensures {generationId dimension batch} (h : Pending rt documents plan t generationId batch) :
    (BuildSourceIndex.embedBatch generationId dimension batch).Ensures rt documents plan
      (fun _ t => ∀ c ∈ batch, Vectored t generationId c.chunkId) t := by
  refine .bind (IndexCall.ensures (c := .embed (batch.map (·.text)) dimension)
    (R := fun vectors t => Pending rt documents plan t generationId batch ∧
      (⟨.embed (batch.map (·.text)) dimension, .ok vectors⟩ : Σ c, IndexAnswer c) ∈ t) trivial fun vectors _ =>
      ⟨h.mono (List.suffix_cons _ _), List.mem_cons_self⟩) fun (vectors : List String) t _ ht => ?_
  refine (Prog.Ensures.forM (fun t => Pending rt documents plan t generationId batch ∧
      (⟨.embed (batch.map (·.text)) dimension, .ok vectors⟩ : Σ c, IndexAnswer c) ∈ t)
    (fun pair t => Vectored t generationId pair.1.chunkId) (fun _ _ _ hs => Vectored.mono hs) ht ?_).bind
      fun _ t _ ht => ?_
  · rintro ⟨c, v⟩ hpair t ⟨hpending, hembed⟩
    obtain ⟨chunks, hchunks, hbatch⟩ := hpending
    obtain ⟨hmem, hinserted⟩ := hbatch c (List.of_mem_zip hpair).1
    have hzip : (c.text, v) ∈ (batch.map (·.text)).zip vectors := by
      rw [List.zip_map_left]
      exact List.mem_map_of_mem (f := Prod.map (·.text) id) hpair
    refine IndexCall.ensures ⟨chunks, c, hmem, hchunks, rfl, hinserted, _, _, _, hembed, hzip⟩ fun a _ => ?_
    have hs := List.suffix_cons (⟨.setEmbedding generationId c.chunkId v, .ok a⟩ : Σ c, IndexAnswer c) t
    exact ⟨⟨Pending.mono hs ⟨chunks, hchunks, hbatch⟩, hs.subset hembed⟩, .inr ⟨v, List.mem_cons_self⟩⟩
  · refine ensures_when (fun _ => Prog.ensures_throw) fun hlen c hc => ?_
    have hlen : batch.length = vectors.length := by simpa using hlen
    obtain ⟨i, hi, rfl⟩ := List.mem_iff_getElem.1 hc
    have hi' : i < vectors.length := hlen ▸ hi
    exact ht.2 (batch[i], vectors[i]) (List.mem_iff_getElem.2 ⟨i, by simp [hi, hi'], by simp⟩)

theorem insertPending_ensures {identity : GenerationIdentity} {progress document pending chunks}
    (hplan : plan.chunks rt documents identity.generationId = some chunks) (hsub : ∀ c ∈ pending, c ∈ chunks) :
    (BuildSourceIndex.insertPending identity progress document pending).Ensures rt documents plan
      (fun _ t => Pending rt documents plan t identity.generationId pending) t := by
  refine ensures_when (fun _ => ?_) fun hnone => ?_
  · refine .bind (IndexCall.ensures (c := .insertChunks identity.generationId document pending)
      (R := fun _ t => Pending rt documents plan t identity.generationId pending) ⟨chunks, hplan, hsub⟩ fun n _ =>
        ⟨chunks, hplan, fun c hc => ⟨hsub c hc, document, pending, n, List.mem_cons_self, hc⟩⟩) fun _ t _ hp => ?_
    exact (ensures_report fun _ => trivial).mono fun _ t' hs _ => hp.mono hs
  · obtain rfl : pending = [] := by simpa using hnone
    exact ⟨chunks, hplan, by simp⟩

theorem embedPending_ensures {identity : GenerationIdentity} {config : IndexBuildConfig} {progress pending}
    (hsize : 0 ≤ config.embedding.batchSize) (h : Pending rt documents plan t identity.generationId pending) :
    (BuildSourceIndex.embedPending identity config progress pending).Ensures rt documents plan
      (fun _ t => ∀ c ∈ pending, Vectored t identity.generationId c.chunkId) t := by
  refine (ensures_when (R := fun t => 0 < config.embedding.batchSize ∧
    Pending rt documents plan t identity.generationId pending) (fun _ => Prog.ensures_throw) fun hne => ?_).bind
      fun _ t _ ht => ?_
  · have hne : config.embedding.batchSize ≠ 0 := by simpa using hne
    exact ⟨by omega, h⟩
  refine (Prog.Ensures.forM (fun t => Pending rt documents plan t identity.generationId pending)
    (fun (batch : Nat × List Chunk) t => ∀ c ∈ batch.2, Vectored t identity.generationId c.chunkId)
    (fun _ _ _ hs hv c hc => (hv c hc).mono hs) ht.2 ?_).mono fun _ t _ hall c hc => ?_
  · intro batch hbatch t hpending
    obtain ⟨chunks, hchunks, hp⟩ := hpending
    refine (embedBatch_ensures ⟨chunks, hchunks, fun c hc => hp c (mem_of_mem_batches hbatch hc)⟩).bind
      fun _ t' hs hv => (ensures_report fun _ => trivial).mono fun _ t'' hs' _ => ?_
    exact ⟨Pending.mono (hs.trans hs') ⟨chunks, hchunks, hp⟩, fun c hc => (hv c hc).mono hs'⟩
  · obtain ⟨batch, hbatch, hmem⟩ := exists_batch ht.1 hc
    exact hall.2 batch hbatch c hmem

/-- **A build that is given the plan's document, profile and no negative batch size keeps to the rules.** -/
theorem run_ensures {identity : GenerationIdentity} {config : IndexBuildConfig} {progress : Bool}
    (hid : identity = plan.identity identity.generationId) (hprofile : config.profile = plan.profile identity.generationId)
    (hsize : 0 ≤ config.embedding.batchSize) :
    (BuildSourceIndex.run rt identity config progress).Ensures rt documents plan (fun _ _ => True) t := by
  refine .bind (IndexCall.ensures (c := .getStatus identity.generationId) (R := fun _ _ => True) trivial
    fun _ _ => trivial) fun (status : Option GenerationStatus) t _ _ => ?_
  refine Prog.ensures_ite (fun _ => IndexCall.ensures (c := .chunkCount identity.generationId) trivial
    fun _ _ => trivial) fun _ => ?_
  refine (ensures_when (R := fun _ => True) (fun _ => IndexCall.ensures (c := .create identity config) trivial
    fun _ _ => trivial) fun _ => trivial).bind fun _ t _ _ => ?_
  refine .bind (IndexCall.ensures (c := .load identity.canonicalDocumentId)
    (R := fun document _ => documents identity.canonicalDocumentId = some document) trivial
    fun document hload => hload document rfl) fun (document : CanonicalDocument) t _ hload => ?_
  refine (ensures_when (R := fun _ => True) (fun _ => Prog.ensures_throw) fun _ => trivial).bind fun _ t _ _ => ?_
  refine (ensures_report fun _ => trivial).bind fun _ t _ _ => ?_
  cases hchunks : rt.chunkDocument document config.profile with
  | none => exact Prog.ensures_throw
  | some chunks =>
    have hplan : plan.chunks rt documents identity.generationId = some chunks := by
      rw [GenerationPlan.chunks, ← hid, ← hprofile, hload]
      exact hchunks
    refine .bind (IndexCall.ensures (c := .existingChunkIds identity.generationId) (R := fun ids t =>
      (⟨.existingChunkIds identity.generationId, .ok ids⟩ : Σ c, IndexAnswer c) ∈ t) trivial
        fun ids _ => List.mem_cons_self) fun (existing : List Uuid) t _ hexisting => ?_
    have hsub : ∀ c ∈ chunks.filter (·.chunkId ∉ existing), c ∈ chunks := fun c hc => List.mem_of_mem_filter hc
    refine (insertPending_ensures hplan hsub).bind fun _ t hs hpending => ?_
    refine (embedPending_ensures hsize hpending).bind fun _ t' hs' hvectored => ?_
    refine .bind (IndexCall.ensures (c := .swapReady identity.generationId chunks.length) (R := fun _ _ => True)
      ⟨chunks, hplan, fun c hc => ?_⟩ fun _ _ => trivial) fun _ t _ _ => Prog.ensures_pure trivial
    by_cases hexists : c.chunkId ∈ existing
    · exact .inl ⟨existing, hs'.subset (hs.subset hexisting), hexists⟩
    · exact hvectored c (List.mem_filter.2 ⟨hc, by simpa using hexists⟩)

/-- **Every request the plan admits keeps to the rules.** -/
theorem program_along {request : IndexRequest} (h : plan.Admits request) :
    Prog.Along (LoadsDocument documents) (IndexFollows rt documents plan) (request.program rt).run (fun _ _ => True) t := by
  cases request with
  | handle identity config =>
    refine Prog.Along.seq (Prog.Along.guarded (Prog.Along.mono (run_ensures h.1 h.2.1 h.2.2) fun r t _ => ?_))
    cases r with
    | ok n => exact ⟨trivial, fun _ _ => trivial⟩
    | error e => exact Prog.Along.seq (buildFail_along (fun _ => trivial) fun _ => trivial)
  | run identity config progress =>
    refine Prog.Along.mono (Prog.Ensures.bind (R := fun _ _ => True) (S := fun _ _ => True)
      (run_ensures h.1 h.2.1 h.2.2) fun _ _ _ _ => Prog.ensures_pure trivial) fun _ _ _ => trivial
  | create identity config => exact ⟨trivial, fun _ _ => trivial⟩
  | swapReady => exact h.elim
  | markFailed => exact ⟨trivial, fun _ _ => trivial⟩

end Programs

/-! ## What holds of the tables -/

/-- The row is the chunk's. -/
structure IndexChunk.IsOf (row : IndexChunk) (c : Chunk) : Prop where
  id : row.id = c.chunkId
  node : row.canonicalNodeId = c.nodeId
  charStart : row.charStart = c.charStart
  charEnd : row.charEnd = c.charEnd
  language : row.language = c.language
  tokenCount : row.tokenCount = c.tokenCount
  textChecksum : row.textChecksum = c.textChecksum
  text : row.text = c.text
  sectionAncestry : row.sectionAncestry = c.sectionAncestry
  nodeSpans : row.nodeSpans = c.nodeSpans
  prevChunkId : row.prevChunkId = c.prevChunkId
  nextChunkId : row.nextChunkId = c.nextChunkId

/-- A row of the generation under the id. -/
def IndexChunk.Under (row : IndexChunk) (generationId chunkId : Uuid) : Prop :=
  row.indexGenerationId = generationId ∧ row.id = chunkId

namespace IndexWorld

/-- There is a row under the id. -/
def HasRow (w : IndexWorld) (generationId chunkId : Uuid) : Prop := ∃ row ∈ w.chunks, row.Under generationId chunkId

/-- It has a vector. -/
def HasVector (w : IndexWorld) (generationId chunkId : Uuid) : Prop :=
  ∃ row ∈ w.chunks, row.Under generationId chunkId ∧ row.embedding.isSome = true

/-- The rows of the generation all have a vector. -/
def AllVectored (w : IndexWorld) (generationId : Uuid) : Prop :=
  ∀ row ∈ w.chunks, row.indexGenerationId = generationId → row.embedding.isSome = true

variable {w w' : IndexWorld} {generationId chunkId : Uuid}

theorem mem_addRow {rows : List IndexChunk} {row r : IndexChunk} (h : r ∈ addRow rows row) : r ∈ rows ∨ r = row := by
  simp only [addRow] at h
  split at h
  · exact .inl h
  · simpa using h

theorem sublist_addRow (rows : List IndexChunk) (row : IndexChunk) : rows <+: addRow rows row := by
  simp only [addRow]
  split
  · exact List.prefix_refl _
  · exact List.prefix_append _ _

theorem mem_foldl_addRow {rows added : List IndexChunk} {r : IndexChunk} (h : r ∈ added.foldl addRow rows) :
    r ∈ rows ∨ r ∈ added := by
  induction added generalizing rows with
  | nil => exact .inl h
  | cons row added ih =>
    rcases ih h with h | h
    · rcases mem_addRow h with h | rfl
      · exact .inl h
      · exact .inr List.mem_cons_self
    · exact .inr (List.mem_cons_of_mem _ h)

theorem prefix_foldl_addRow (rows added : List IndexChunk) : rows <+: added.foldl addRow rows := by
  induction added generalizing rows with
  | nil => exact List.prefix_refl _
  | cons row added ih => exact (sublist_addRow rows row).trans (ih _)

/-- What is inserted is there, this row or one before it under the key. -/
theorem under_foldl_addRow (rows : List IndexChunk) {added : List IndexChunk} {row : IndexChunk} (h : row ∈ added) :
    ∃ r ∈ added.foldl addRow rows, r.Under row.indexGenerationId row.id := by
  induction added generalizing rows with
  | nil => cases h
  | cons row' added ih =>
    rcases List.mem_cons.1 h with rfl | h
    · have hrow : ∃ r ∈ addRow rows row, r.Under row.indexGenerationId row.id := by
        simp only [addRow]
        split
        · next hany => simpa [IndexChunk.Under] using hany
        · exact ⟨row, by simp, rfl, rfl⟩
      obtain ⟨r, hr, hunder⟩ := hrow
      exact ⟨r, (prefix_foldl_addRow (addRow rows row) added).subset hr, hunder⟩
    · exact ih _ h

end IndexWorld

section Steps

variable {documents : Uuid → Option CanonicalDocument} {env : IndexEnv} {c : IndexCall} {w : IndexWorld}

theorem loadsDocument_exec : LoadsDocument documents c (c.exec documents env w).1 := by
  cases c with
  | load id =>
    intro document h
    obtain ⟨-, h⟩ := IndexCall.exec_ok h.symm
    simp only [IndexCall.effect] at h
    split at h
    · next hd => exact hd.trans (congrArg some (Except.ok.inj h).symm)
    · cases h
  | _ => trivial

/-- A row is an old one, an inserted one, or an old one with its vector. -/
theorem IndexCall.exec_row {row : IndexChunk} (h : row ∈ (c.exec documents env w).2.chunks) :
    row ∈ w.chunks ∨
      (∃ id document cs generation, c = .insertChunks id document cs ∧ generation.id = id ∧
        ∃ chunk ∈ cs, row = IndexWorld.chunkRow generation document chunk) ∨
      ∃ id chunkId v, c = .setEmbedding id chunkId v ∧
        ∃ old ∈ w.chunks, old.Under id chunkId ∧ row = { old with embedding := some v } := by
  cases hr : env.raises with
  | some e => exact .inl (by rwa [IndexCall.exec_raises hr] at h)
  | none =>
    rw [IndexCall.exec_returns hr] at h
    cases c with
    | insertChunks id document cs =>
      simp only [IndexCall.effect, IndexWorld.insertChunks] at h
      split at h
      · exact .inl h
      · split at h
        · exact .inl h
        · next generation hg =>
          rcases IndexWorld.mem_foldl_addRow h with h | h
          · exact .inl h
          · obtain ⟨chunk, hc, rfl⟩ := List.mem_map.1 h
            exact .inr (.inl ⟨id, document, cs, generation, rfl, (Table.lookup_some hg).2, chunk, hc, rfl⟩)
    | setEmbedding id chunkId v =>
      obtain ⟨old, hold, rfl⟩ := List.mem_map.1 h
      dsimp only
      split
      · next hp =>
        simp only [Bool.and_eq_true, decide_eq_true_eq] at hp
        exact .inr (.inr ⟨id, chunkId, v, rfl, old, hold, ⟨hp.2, hp.1⟩, rfl⟩)
      · exact .inl hold
    | swapReady id n =>
      simp only [IndexCall.effect, IndexWorld.swapReady] at h
      split at h <;> exact .inl h
    | _ => exact .inl h

/-- No row goes away, and none loses its vector. -/
theorem IndexCall.exec_keeps {old : IndexChunk} (h : old ∈ w.chunks) :
    ∃ row ∈ (c.exec documents env w).2.chunks, row.indexGenerationId = old.indexGenerationId ∧ row.id = old.id ∧
      (old.embedding.isSome = true → row.embedding.isSome = true) := by
  cases hr : env.raises with
  | some e => exact ⟨old, by rwa [IndexCall.exec_raises hr], rfl, rfl, id⟩
  | none =>
    rw [IndexCall.exec_returns hr]
    cases c with
    | insertChunks id document cs =>
      refine ⟨old, ?_, rfl, rfl, fun h => h⟩
      simp only [IndexCall.effect, IndexWorld.insertChunks]
      split
      · exact h
      · split
        · exact h
        · exact (IndexWorld.prefix_foldl_addRow _ _).subset h
    | setEmbedding id chunkId v =>
      refine ⟨_, List.mem_map_of_mem h, ?_⟩
      dsimp only
      split
      · exact ⟨rfl, rfl, fun _ => rfl⟩
      · exact ⟨rfl, rfl, fun h => h⟩
    | swapReady id n =>
      refine ⟨old, ?_, rfl, rfl, fun h => h⟩
      simp only [IndexCall.effect, IndexWorld.swapReady]
      split <;> exact h
    | _ => exact ⟨old, h, rfl, rfl, fun h => h⟩

theorem IndexCall.exec_hasRow {id chunkId} (h : w.HasRow id chunkId) : (c.exec documents env w).2.HasRow id chunkId := by
  obtain ⟨old, hold, hid, hchunk⟩ := h
  obtain ⟨row, hrow, hid', hchunk', -⟩ := IndexCall.exec_keeps hold
  exact ⟨row, hrow, hid'.trans hid, hchunk'.trans hchunk⟩

theorem IndexCall.exec_hasVector {id chunkId} (h : w.HasVector id chunkId) :
    (c.exec documents env w).2.HasVector id chunkId := by
  obtain ⟨old, hold, ⟨hid, hchunk⟩, hv⟩ := h
  obtain ⟨row, hrow, hid', hchunk', hv'⟩ := IndexCall.exec_keeps hold
  exact ⟨row, hrow, ⟨hid'.trans hid, hchunk'.trans hchunk⟩, hv' hv⟩

theorem IndexWorld.nodup_addRow {rows : List IndexChunk} {row : IndexChunk} {id : Uuid}
    (h : ((rows.filter (·.indexGenerationId = id)).map (·.id)).Nodup) :
    (((addRow rows row).filter (·.indexGenerationId = id)).map (·.id)).Nodup := by
  simp only [addRow]
  split
  · exact h
  · next hany =>
    simp only [List.filter_append, List.filter_cons, List.filter_nil, List.map_append]
    split
    · next hid =>
      refine List.nodup_append.2 ⟨h, List.nodup_singleton _, fun a ha b hb => ?_⟩
      rintro rfl
      obtain ⟨r, hr, he⟩ := List.mem_map.1 ha
      obtain ⟨hr, hrid⟩ := List.mem_filter.1 hr
      refine hany (List.any_eq_true.2 ⟨r, hr, ?_⟩)
      simp only [decide_eq_true_eq, List.map_cons, List.map_nil, List.mem_singleton] at hid hrid hb
      simp [hrid, hid, he, hb]
    · simpa using h

/-- A generation has one row under an id. -/
theorem IndexCall.exec_nodup {id : Uuid} (h : (w.chunkIds id).Nodup) : ((c.exec documents env w).2.chunkIds id).Nodup := by
  cases hr : env.raises with
  | some e => rwa [IndexCall.exec_raises hr]
  | none =>
    rw [IndexCall.exec_returns hr]
    cases c with
    | insertChunks id' document cs =>
      simp only [IndexCall.effect, IndexWorld.insertChunks]
      split
      · exact h
      · split
        · exact h
        · next generation _ =>
          simp only [IndexWorld.chunkIds]
          generalize cs.map (IndexWorld.chunkRow generation document) = added
          have hfold : ∀ rows : List IndexChunk, ((rows.filter (·.indexGenerationId = id)).map (·.id)).Nodup →
              (((added.foldl IndexWorld.addRow rows).filter (·.indexGenerationId = id)).map (·.id)).Nodup := by
            induction added with
            | nil => exact fun _ h => h
            | cons row added ih => exact fun rows h => ih _ (IndexWorld.nodup_addRow h)
          exact hfold _ h
    | setEmbedding id' chunkId v =>
      have hkeep : (w.setEmbedding id' chunkId v).chunkIds id = w.chunkIds id := by
        simp only [IndexWorld.setEmbedding, IndexWorld.chunkIds]
        rw [Table.filter_update fun _ => by rfl, Table.update, List.map_map]
        refine List.map_congr_left fun row _ => ?_
        simp only [Function.comp]
        split <;> rfl
      exact hkeep ▸ h
    | swapReady id' n =>
      simp only [IndexCall.effect, IndexWorld.swapReady]
      split <;> exact h
    | _ => exact h

/-- Only a swap makes a generation ready, and only its own. -/
theorem IndexCall.exec_ready {g : IndexGeneration} (h : g ∈ (c.exec documents env w).2.generations)
    (hready : g.status = .ready) :
    (∃ old ∈ w.generations, old.id = g.id ∧ old.sourceVersionId = g.sourceVersionId ∧ old.status = .ready) ∨
      ∃ n, c = .swapReady g.id n := by
  cases hr : env.raises with
  | some e => exact .inl ⟨g, by rwa [IndexCall.exec_raises hr] at h, rfl, rfl, hready⟩
  | none =>
    rw [IndexCall.exec_returns hr] at h
    cases c with
    | create identity config =>
      rcases Table.mem_update h with ⟨h, -⟩ | ⟨old, -, -, rfl⟩
      · split at h
        · exact .inl ⟨g, h, rfl, rfl, hready⟩
        · rcases List.mem_append.1 h with h | h
          · exact .inl ⟨g, h, rfl, rfl, hready⟩
          · cases List.mem_singleton.1 h
            cases hready
      · cases hready
    | swapReady id n =>
      simp only [IndexCall.effect, IndexWorld.swapReady] at h
      split at h
      · exact .inl ⟨g, h, rfl, rfl, hready⟩
      · rcases Table.mem_update h with ⟨h, -⟩ | ⟨old, -, hp, rfl⟩
        · rcases Table.mem_update h with ⟨h, -⟩ | ⟨old, -, -, rfl⟩
          · exact .inl ⟨g, h, rfl, rfl, hready⟩
          · cases hready
        · simp only [Bool.and_eq_true, decide_eq_true_eq] at hp
          exact .inr ⟨n, by rw [hp.1]⟩
    | markFailed id errorCode =>
      rcases Table.mem_update h with ⟨h, -⟩ | ⟨old, -, -, rfl⟩
      · exact .inl ⟨g, h, rfl, rfl, hready⟩
      · cases hready
    | insertChunks id document cs =>
      simp only [IndexCall.effect, IndexWorld.insertChunks] at h
      refine .inl ⟨g, ?_, rfl, rfl, hready⟩
      split at h
      · exact h
      · split at h <;> exact h
    | _ => exact .inl ⟨g, h, rfl, rfl, hready⟩

end Steps

/-! ## What holds of every run -/

section Runs

variable {P : Type} [DecidableEq P] (rt : Runtime) (documents : Uuid → Option CanonicalDocument) (plan : GenerationPlan)

/-- Where a build looks for the rows that are there, each of them has its vector. -/
def ResumesWhole : P → IndexCall → IndexEnv → IndexRun P → Prop
  | _, .existingChunkIds id, _, r => r.shared.AllVectored id
  | _, _, _, _ => True

/-- The endpoint answered the text with the vector, to whomever. -/
def Produced (r : IndexRun P) (text : Text) (v : String) : Prop :=
  ∃ p texts dimension, ∃ vectors : List String,
    (⟨p, .embed texts dimension, .ok vectors⟩ : Event P IndexCall IndexAnswer) ∈ r.trace ∧ (text, v) ∈ texts.zip vectors

/-- A ready generation has the rows of its document's chunks and no others, one each,
with a vector produced for the text. -/
def Complete (r : IndexRun P) : Prop :=
  ∀ g ∈ r.shared.generations, g.status = .ready → ∃ chunks, plan.chunks rt documents g.id = some chunks ∧
    (r.shared.chunkIds g.id).Nodup ∧ (∀ row ∈ r.shared.chunks, row.indexGenerationId = g.id → ∃ c ∈ chunks, row.IsOf c) ∧
    ∀ c ∈ chunks, ∃ row ∈ r.shared.chunks, row.indexGenerationId = g.id ∧ row.IsOf c ∧
      ∃ v, row.embedding = some v ∧ Produced r c.text v

/-- What the tables hold, and what the calls made have left in them. -/
structure RowsKept (r : IndexRun P) : Prop where
  keyed : ∀ id, (r.shared.chunkIds id).Nodup
  rows : ∀ row ∈ r.shared.chunks, ∃ chunks, ∃ c ∈ chunks, plan.chunks rt documents row.indexGenerationId = some chunks ∧
    row.IsOf c ∧ ∀ v, row.embedding = some v → Produced r c.text v
  ready : ∀ g ∈ r.shared.generations, g.status = .ready → ∃ chunks, plan.chunks rt documents g.id = some chunks ∧
    ∀ c ∈ chunks, r.shared.HasVector g.id c.chunkId
  looked : ∀ p id, ∀ ids : List Uuid, (⟨p, .existingChunkIds id, .ok ids⟩ : Event P IndexCall IndexAnswer) ∈ r.trace →
    ∀ chunkId ∈ ids, r.shared.HasVector id chunkId
  inserted : ∀ p id document cs, ∀ n : Nat,
    (⟨p, .insertChunks id document cs, .ok n⟩ : Event P IndexCall IndexAnswer) ∈ r.trace →
      ∀ c ∈ cs, r.shared.HasRow id c.chunkId
  set : ∀ p id chunkId v, (⟨p, .setEmbedding id chunkId v, .ok ()⟩ : Event P IndexCall IndexAnswer) ∈ r.trace →
    r.shared.HasVector id chunkId

variable {rt documents plan} {r : IndexRun P} {p : P} {c : IndexCall} {env : IndexEnv}

omit [DecidableEq P] in
theorem Produced.call {text v} (h : Produced r text v) :
    Produced (r.call (fun c env => c.exec documents env) p c env) text v := by
  obtain ⟨q, texts, dimension, vectors, hmem, hzip⟩ := h
  exact ⟨q, texts, dimension, vectors, List.mem_cons_of_mem _ hmem, hzip⟩

/-- What was answered to a process was produced. -/
theorem VectorFor.produced {text v} (h : VectorFor (own p r.trace) text v) : Produced r text v := by
  obtain ⟨texts, dimension, vectors, hmem, hzip⟩ := h
  exact ⟨p, texts, dimension, vectors, mem_own.1 hmem, hzip⟩

/-- The plan gives the chunks of a generation different ids. -/
def GenerationPlan.Distinct (rt : Runtime) (documents : Uuid → Option CanonicalDocument) (plan : GenerationPlan) : Prop :=
  ∀ id chunks, plan.chunks rt documents id = some chunks → (chunks.map (·.chunkId)).Nodup

/-- The run after one more call. -/
abbrev IndexRun.call (documents : Uuid → Option CanonicalDocument) (p : P) (c : IndexCall) (env : IndexEnv)
    (r : IndexRun P) : IndexRun P := Run.call (fun c env => IndexCall.exec documents env c) p c env r

theorem rows_call (hplan : plan.Distinct rt documents) (hk : RowsKept rt documents plan r)
    (hf : IndexFollows rt documents plan (own p r.trace) c) :
    ∀ row ∈ (r.call documents p c env).shared.chunks, ∃ chunks, ∃ chunk ∈ chunks,
      plan.chunks rt documents row.indexGenerationId = some chunks ∧ row.IsOf chunk ∧
        ∀ v, row.embedding = some v → Produced (r.call documents p c env) chunk.text v := by
  intro row hrow
  rcases IndexCall.exec_row hrow with h | ⟨id, document, cs, generation, rfl, hid, chunk, hc, rfl⟩ |
    ⟨id, chunkId, v, rfl, old, hold, hunder, rfl⟩
  · obtain ⟨chunks, chunk, hc, hchunks, hof, hv⟩ := hk.rows row h
    exact ⟨chunks, chunk, hc, hchunks, hof, fun v he => (hv v he).call⟩
  · obtain ⟨chunks, hchunks, hsub⟩ := hf
    refine ⟨chunks, chunk, hsub chunk hc, ?_, ⟨rfl, rfl, rfl, rfl, rfl, rfl, rfl, rfl, rfl, rfl, rfl, rfl⟩, ?_⟩
    · exact (congrArg _ hid).trans hchunks
    · rintro v ⟨⟩
  · obtain ⟨chunks, chunk, hc, hchunks, hchunkId, -, hvector⟩ := hf
    obtain ⟨chunks', chunk', hc', hchunks', hof, -⟩ := hk.rows old hold
    rw [hunder.1, hchunks] at hchunks'
    cases hchunks'
    -- the row is under the id of the chunk that the vector is for, and no other chunk has it
    obtain rfl : chunk' = chunk := List.inj_on_of_nodup_map (hplan id chunks hchunks) hc' hc
      (hof.id.symm.trans (hunder.2.trans hchunkId.symm))
    refine ⟨chunks, chunk', hc, hunder.1 ▸ hchunks, ⟨hof.id, hof.node, hof.charStart, hof.charEnd, hof.language,
      hof.tokenCount, hof.textChecksum, hof.text, hof.sectionAncestry, hof.nodeSpans, hof.prevChunkId, hof.nextChunkId⟩, ?_⟩
    rintro _ ⟨⟩
    exact hvector.produced.call

theorem ready_call (hk : RowsKept rt documents plan r) (hf : IndexFollows rt documents plan (own p r.trace) c) :
    ∀ g ∈ (r.call documents p c env).shared.generations, g.status = .ready →
      ∃ chunks, plan.chunks rt documents g.id = some chunks ∧
        ∀ chunk ∈ chunks, (r.call documents p c env).shared.HasVector g.id chunk.chunkId := by
  intro g hg hready
  rcases IndexCall.exec_ready hg hready with ⟨old, hold, hid, -, hs⟩ | ⟨n, rfl⟩
  · obtain ⟨chunks, hchunks, hv⟩ := hk.ready old hold hs
    rw [hid] at hchunks hv
    exact ⟨chunks, hchunks, fun chunk hc => IndexCall.exec_hasVector (hv chunk hc)⟩
  · obtain ⟨chunks, hchunks, hv⟩ := hf
    refine ⟨chunks, hchunks, fun chunk hc => IndexCall.exec_hasVector ?_⟩
    rcases hv chunk hc with ⟨ids, hmem, hid⟩ | ⟨v, hmem⟩
    · exact hk.looked p g.id ids (mem_own.1 hmem) _ hid
    · exact hk.set p g.id chunk.chunkId v (mem_own.1 hmem)

omit [DecidableEq P] in
theorem looked_call (hk : RowsKept rt documents plan r) (hcond : ResumesWhole p c env r) :
    ∀ q id, ∀ ids : List Uuid,
      (⟨q, .existingChunkIds id, .ok ids⟩ : Event P IndexCall IndexAnswer) ∈ (r.call documents p c env).trace →
        ∀ chunkId ∈ ids, (r.call documents p c env).shared.HasVector id chunkId := by
  intro q id ids hmem chunkId hid
  refine IndexCall.exec_hasVector ?_
  rcases List.mem_cons.1 hmem with h | h
  · obtain ⟨rfl, rfl, h⟩ := Event.mk.inj h
    obtain ⟨hr, h⟩ := IndexCall.exec_ok (c := .existingChunkIds id) (eq_of_heq h)
    cases h
    · obtain ⟨row, hrow, rfl⟩ := List.mem_map.1 hid
      obtain ⟨hrow, hgen⟩ := List.mem_filter.1 hrow
      have hgen : row.indexGenerationId = id := by simpa using hgen
      exact ⟨row, hrow, ⟨hgen, rfl⟩, hcond row hrow hgen⟩
  · exact hk.looked q id ids h chunkId hid

omit [DecidableEq P] in
theorem inserted_call (hk : RowsKept rt documents plan r) :
    ∀ q id document cs, ∀ n : Nat,
      (⟨q, .insertChunks id document cs, .ok n⟩ : Event P IndexCall IndexAnswer) ∈ (r.call documents p c env).trace →
        ∀ chunk ∈ cs, (r.call documents p c env).shared.HasRow id chunk.chunkId := by
  intro q id document cs n hmem chunk hc
  rcases List.mem_cons.1 hmem with h | h
  · obtain ⟨rfl, rfl, h⟩ := Event.mk.inj h
    obtain ⟨hr, h⟩ := IndexCall.exec_ok (c := .insertChunks id document cs) (eq_of_heq h)
    simp only [Run.call_shared, IndexCall.exec_returns hr]
    simp only [IndexCall.effect, IndexWorld.insertChunks] at h ⊢
    split at h
    · next hnil =>
      rw [hnil] at hc
      cases hc
    · next hne =>
      rw [if_neg hne]
      split at h
      · cases h
      · next generation hg =>
        obtain ⟨row, hrow, hunder⟩ := IndexWorld.under_foldl_addRow r.shared.chunks
          (List.mem_map_of_mem (f := IndexWorld.chunkRow generation document) hc)
        exact ⟨row, hrow, hunder.1.trans (Table.lookup_some hg).2, hunder.2⟩
  · exact IndexCall.exec_hasRow (hk.inserted q id document cs n h chunk hc)

theorem set_call (hk : RowsKept rt documents plan r) (hf : IndexFollows rt documents plan (own p r.trace) c) :
    ∀ q id chunkId v,
      (⟨q, .setEmbedding id chunkId v, .ok ()⟩ : Event P IndexCall IndexAnswer) ∈ (r.call documents p c env).trace →
        (r.call documents p c env).shared.HasVector id chunkId := by
  intro q id chunkId v hmem
  rcases List.mem_cons.1 hmem with h | h
  · obtain ⟨rfl, rfl, h⟩ := Event.mk.inj h
    obtain ⟨hr, -⟩ := IndexCall.exec_ok (c := .setEmbedding id chunkId v) (eq_of_heq h)
    obtain ⟨chunks, chunk, -, -, rfl, ⟨document, cs, n, hmem, hc⟩, -⟩ := hf
    obtain ⟨row, hrow, hunder⟩ := hk.inserted q id document cs n (mem_own.1 hmem) chunk hc
    simp only [Run.call_shared, IndexCall.exec_returns hr]
    refine ⟨_, List.mem_map_of_mem hrow, ?_⟩
    rw [if_pos (by simp [hunder.1, hunder.2])]
    exact ⟨hunder, rfl⟩
  · exact IndexCall.exec_hasVector (hk.set q id chunkId v h)

/-- **Builds that start from whole rows keep the rows.** -/
theorem rows_kept (hplan : plan.Distinct rt documents)
    (h : Runs (fun c env => IndexCall.exec documents env c) (· = {})
      (fun p c env r => ResumesWhole p c env r ∧ IndexFollows rt documents plan (own p r.trace) c) r) :
    RowsKept rt documents plan r := by
  refine Reach.invariant ?_ ?_ h
  · rintro r ⟨hw, ht⟩
    constructor <;> simp [hw, ht, IndexWorld.chunkIds]
  · rintro r r' - hk ⟨p, c, env, hcond, hf⟩
    exact ⟨fun id => IndexCall.exec_nodup (hk.keyed id), rows_call hplan hk hf, ready_call hk hf, looked_call hk hcond,
      inserted_call hk, set_call hk hf⟩

omit [DecidableEq P] in
theorem RowsKept.complete (hplan : plan.Distinct rt documents) (hk : RowsKept rt documents plan r) :
    Complete rt documents plan r := by
  intro g hg hready
  obtain ⟨chunks, hchunks, hvectors⟩ := hk.ready g hg hready
  have hrows : ∀ row ∈ r.shared.chunks, row.indexGenerationId = g.id → ∃ c ∈ chunks, row.IsOf c ∧
      ∀ v, row.embedding = some v → Produced r c.text v := by
    intro row hrow hid
    obtain ⟨chunks', c, hc, hchunks', hof, hv⟩ := hk.rows row hrow
    rw [hid, hchunks] at hchunks'
    cases hchunks'
    exact ⟨c, hc, hof, hv⟩
  refine ⟨chunks, hchunks, hk.keyed g.id, fun row hrow hid => ?_, fun c hc => ?_⟩
  · obtain ⟨c, hc, hof, -⟩ := hrows row hrow hid
    exact ⟨c, hc, hof⟩
  · obtain ⟨row, hrow, ⟨hid, hchunk⟩, hv⟩ := hvectors c hc
    obtain ⟨c', hc', hof, hproduced⟩ := hrows row hrow hid
    obtain rfl : c' = c := List.inj_on_of_nodup_map (hplan g.id chunks hchunks) hc' hc (hof.id.symm.trans hchunk)
    obtain ⟨v, hv⟩ := Option.isSome_iff_exists.1 hv
    exact ⟨row, hrow, hid, hof, v, hv, hproduced v hv⟩

end Runs

/-- **A ready generation is completely embedded**, however many builds of it there are, however
they interleave and wherever they crash or raise, as long as none of them looks for the rows that
are there while one of these has no vector. -/
theorem ready_complete {rt : Runtime} {documents : Uuid → Option CanonicalDocument} {plan : GenerationPlan}
    {P : Type} [DecidableEq P] {pool : IndexPool P} (hplan : plan.Distinct rt documents)
    (h : (indexMachine rt documents P plan.Admits).Reach (· = {}) ResumesWhole pool) :
    Complete rt documents plan pool.run := by
  have halong : ∀ p (r : { r // plan.Admits r }) t, Prog.Along (LoadsDocument documents) (IndexFollows rt documents plan)
      ((indexMachine rt documents P plan.Admits).start p r) (fun _ _ => True) t := fun _ r _ => program_along r.2
  exact (rows_kept hplan (Machine.runs_along (fun _ _ _ _ _ _ _ => loadsDocument_exec) (fun _ => trivial)
    (fun p r t _ => halong p r t) h).1).complete hplan

/-! ## Schedules -/

instance {w : IndexWorld} {id : Uuid} : Decidable (w.AllVectored id) := by unfold IndexWorld.AllVectored; infer_instance

instance {P : Type} (p : P) (c : IndexCall) (env : IndexEnv) (r : IndexRun P) : Decidable (ResumesWhole p c env r) := by
  rcases c with ⟨⟩ <;> dsimp only [ResumesWhole] <;> infer_instance

/-- The text `hi`, parsed. -/
def sampleDocuments : Uuid → Option CanonicalDocument := fun _ => sampleRuntime.parseText 1#128 [0x68, 0x69]

def samplePlan : GenerationPlan where
  identity id :=
    { generationId := id, notebookId := 3#128, sourceId := 2#128, sourceVersionId := 1#128
      canonicalDocumentId := 0x0546e7448fb75825b7b3a31e1883dd5a#128 }
  profile _ := structuralChunkerV1

theorem samplePlan_chunks {id chunks} (h : samplePlan.chunks sampleRuntime sampleDocuments id = some chunks) :
    chunks.length = 1 := by
  have hlength : (samplePlan.chunks sampleRuntime sampleDocuments id).map List.length = some 1 := rfl
  rw [h] at hlength
  exact Option.some.inj hlength

theorem samplePlan_distinct : samplePlan.Distinct sampleRuntime sampleDocuments := by
  intro id chunks h
  obtain ⟨c, rfl⟩ := List.length_eq_one_iff.1 (samplePlan_chunks h)
  exact List.nodup_singleton _

/-- A build of generation 7. -/
def buildSample : { r // samplePlan.Admits r } :=
  ⟨.run (samplePlan.identity 7#128)
    { profile := structuralChunkerV1
      embedding := { model := "bge-m3", modelRef := none, dimension := 1, normalization := "l2" } } false,
    rfl, rfl, by decide⟩

/-- One build stops before its rows are inserted, the other starts over. -/
theorem ready_complete_resumed :
    (∃ g ∈ (indexSchedule sampleRuntime sampleDocuments samplePlan.Admits
      (.start false buildSample :: indexCalls false 4 ++ .start true buildSample :: indexCalls true 7)).run.shared.generations,
        g.status = .ready) ∧
    Complete sampleRuntime sampleDocuments samplePlan (indexSchedule sampleRuntime sampleDocuments samplePlan.Admits
      (.start false buildSample :: indexCalls false 4 ++ .start true buildSample :: indexCalls true 7)).run :=
  ⟨by decide +kernel, ready_complete samplePlan_distinct (reach_indexSchedule (· = {}) rfl (by decide +kernel))⟩

/-- One build stops after its rows are inserted, and the other takes them for done. -/
theorem ready_without_embedding : ¬ ∀ (rt : Runtime) (documents : Uuid → Option CanonicalDocument) (plan : GenerationPlan)
    (pool : IndexPool Bool), plan.Distinct rt documents →
      (indexMachine rt documents Bool plan.Admits).Reach (· = {}) (fun _ _ _ _ => True) pool →
        Complete rt documents plan pool.run := by
  intro h
  have hcomplete := h sampleRuntime sampleDocuments samplePlan (indexSchedule sampleRuntime sampleDocuments samplePlan.Admits
    (.start false buildSample :: indexCalls false 5 ++ .start true buildSample :: indexCalls true 4)) samplePlan_distinct
    (reach_indexSchedule (· = {}) rfl Machine.meets_true)
  generalize hpool : indexSchedule sampleRuntime sampleDocuments samplePlan.Admits
    (.start false buildSample :: indexCalls false 5 ++ .start true buildSample :: indexCalls true 4) = pool at hcomplete
  have hready : ∃ g ∈ pool.run.shared.generations, g.status = .ready := by
    rw [← hpool]
    decide +kernel
  have hnone : ∀ row ∈ pool.run.shared.chunks, row.embedding = none := by
    rw [← hpool]
    decide +kernel
  obtain ⟨g, hg, hs⟩ := hready
  obtain ⟨chunks, hchunks, -, -, hrows⟩ := hcomplete g hg hs
  obtain ⟨c, rfl⟩ := List.length_eq_one_iff.1 (samplePlan_chunks hchunks)
  obtain ⟨row, hrow, -, -, v, hv, -⟩ := hrows c (by simp)
  rw [hnone row hrow] at hv
  cases hv

end MilpbookLM
