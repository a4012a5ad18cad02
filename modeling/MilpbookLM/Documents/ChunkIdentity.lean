/-
The ids of chunks. An id is made of the revision and of the node and the span that a chunk cites, which are those of
its first unit; the text is of all its units. So the ids of a document are distinct where the walk comes to no node
twice, and under two profiles of one revision they stand for one text exactly where these have one budget
(`chunk_identity_iff`).
-/
import Mathlib.Data.Set.Function
import MilpbookLM.Documents.TokenBudget

namespace MilpbookLM

/-! ## Names -/

/-- What the id of a chunk is made of. -/
def chunkName (revision : String) (span : Uuid × Nat × Nat) : String :=
  span.1.str ++ ":" ++ revision ++ ":" ++ toString span.2.1 ++ ":" ++ toString span.2.2

/-- **The name tells the node and the span.** -/
theorem chunkName_inj {revision : String} {span other : Uuid × Nat × Nat}
    (h : chunkName revision span = chunkName revision other) : span = other := by
  have hc : (":" : String).toList = [':'] := rfl
  have h := congrArg String.toList h
  have h₁ : (span.1.str.toList ++ ':' :: revision.toList ++ ':' :: (toString span.2.1).toList) ++
        ':' :: (toString span.2.2).toList =
      (other.1.str.toList ++ ':' :: revision.toList ++ ':' :: (toString other.2.1).toList) ++
        ':' :: (toString other.2.2).toList := by
    simpa only [chunkName, String.toList_append, hc, List.append_assoc, List.cons_append, List.nil_append] using h
  obtain ⟨h₂, hstop⟩ := append_colon_inj (colon_notMem_toString _) (colon_notMem_toString _) h₁
  obtain ⟨h₃, hstart⟩ := append_colon_inj (colon_notMem_toString _) (colon_notMem_toString _) h₂
  have hid := Uuid.str_inj (String.toList_injective (List.append_cancel_right h₃))
  exact Prod.ext hid (Prod.ext (toString_inj (String.toList_injective hstart))
    (toString_inj (String.toList_injective hstop)))

/-! ## Spans of groups -/

def draftSpan (draft : ChunkUnit) : Uuid × Nat × Nat := (draft.nodeId, draft.charStart, draft.charEnd)

theorem le_of_mem_windows {text : Text} {maxTokens fuel start : Nat} {w : Nat × Nat}
    (h : w ∈ windows text maxTokens fuel start) : start ≤ w.1 := by
  induction fuel generalizing start with
  | zero => cases h
  | succ fuel ih =>
    simp only [windows] at h
    split at h
    · next hlt =>
      rcases List.mem_cons.1 h with rfl | h
      · exact Nat.le_refl _
      · exact (lt_windowEnd hlt maxTokens).le.trans (ih h)
    · cases h

theorem nodup_windows (text : Text) (maxTokens fuel start : Nat) : (windows text maxTokens fuel start).Nodup := by
  induction fuel generalizing start with
  | zero => exact List.nodup_nil
  | succ fuel ih =>
    simp only [windows]
    split
    · next hlt =>
      refine List.nodup_cons.2 ⟨fun hmem => ?_, ih _⟩
      have hle := le_of_mem_windows hmem
      have := lt_windowEnd hlt maxTokens
      omega
    · exact List.nodup_nil

theorem nodup_splitUnit (unit : ChunkUnit) (maxTokens : Nat) : ((splitUnit unit maxTokens).map draftSpan).Nodup := by
  rw [splitUnit, List.map_map]
  refine (nodup_windows unit.text maxTokens unit.text.length 0).map ?_
  intro w v h
  exact (Prod.mk.inj h).2

section

variable {maxTokens fuel : Nat} {units : List ChunkUnit}

/-- **Units of distinct nodes are grouped into distinct spans.** -/
theorem nodup_groupUnits (h : (units.map (·.nodeId)).Nodup) :
    ((groupUnits maxTokens fuel units).map draftSpan).Nodup := by
  induction fuel generalizing units with
  | zero => exact List.nodup_nil
  | succ fuel ih =>
    cases units with
    | nil => exact List.nodup_nil
    | cons unit units =>
      obtain ⟨hnot, hdup⟩ := List.nodup_cons.1 h
      have later {rest : List ChunkUnit} (hrest : rest <:+ units) {group : List ChunkUnit}
          (hgroup : (group.map draftSpan).Nodup) (hid : ∀ d ∈ group, d.nodeId = unit.nodeId) :
          ((group ++ groupUnits maxTokens fuel rest).map draftSpan).Nodup := by
        rw [List.map_append, List.nodup_append]
        refine ⟨hgroup, ih (hdup.sublist (hrest.sublist.map _)), ?_⟩
        intro x hx y hy heq
        obtain ⟨d, hd, rfl⟩ := List.mem_map.1 hx
        obtain ⟨e, he, rfl⟩ := List.mem_map.1 hy
        obtain ⟨u, hu, hspan⟩ := mem_groupUnits he
        have huid : e.nodeId = u.nodeId := by
          rcases hspan with hspan | hspan
          · exact hspan.1
          · exact hspan.2.1
        have hde : d.nodeId = e.nodeId := (Prod.mk.inj heq).1
        refine hnot (List.mem_map.2 ⟨u, hrest.subset hu, ?_⟩)
        rw [← huid, ← hde, hid d hd]
      have one {group : ChunkUnit} {rest : List ChunkUnit} (hrest : rest <:+ units) (hid : group.nodeId = unit.nodeId) :
          ((group :: groupUnits maxTokens fuel rest).map draftSpan).Nodup :=
        @later _ hrest [group] (List.nodup_singleton _) fun d hd => by rw [List.mem_singleton.1 hd, hid]
      simp only [groupUnits]
      split
      · exact one (List.suffix_refl _) rfl
      split
      · exact later (List.suffix_refl _) (nodup_splitUnit unit maxTokens) fun d hd => (mem_splitUnit hd).1
      split
      · obtain ⟨hspan, hrest⟩ := sameSpan_attachHeading maxTokens unit units
        exact one hrest hspan.1
      · exact one (mergeRun_suffix _ _ _) (sameSpan_mergeRun _ _ _).1

end

/-! ## Budgets of one token -/

/-- The groups of a unit that nothing joins. -/
def alone (unit : ChunkUnit) : List ChunkUnit :=
  if unit.kind = .table then [unit] else if estimateTokens unit.text > 1 then splitUnit unit 1 else [unit]

/-- Under a budget of one token nothing is joined. -/
theorem groupUnits_single {fuel : Nat} {units : List ChunkUnit} (hinked : ∀ u ∈ units, isBlank u.text = false)
    (hfuel : units.length ≤ fuel) : groupUnits 1 fuel units = units.flatMap alone := by
  induction fuel generalizing units with
  | zero =>
    obtain rfl := List.length_eq_zero_iff.1 (Nat.le_zero.1 hfuel)
    rfl
  | succ fuel ih =>
    cases units with
    | nil => rfl
    | cons unit units =>
      have hinked' : ∀ u ∈ units, isBlank u.text = false := fun u hu => hinked u (List.mem_cons_of_mem _ hu)
      have hrest := ih hinked' (Nat.le_of_succ_le_succ hfuel)
      have htwo {next : ChunkUnit} (hnext : next ∈ units) : 1 < estimateTokens (unit.text ++ '\n' :: next.text) := by
        have hunit := one_le_estimateTokens (hinked unit List.mem_cons_self)
        have hnext := one_le_estimateTokens (hinked' next hnext)
        rw [estimateTokens_newline]
        omega
      have hattach : attachHeading 1 unit units = (unit, units) := by
        cases units with
        | nil => rfl
        | cons next units => exact if_neg fun h => absurd h.2 (Nat.not_le.2 (htwo List.mem_cons_self))
      have hmerge : mergeRun 1 unit units = (unit, units) := by
        cases units with
        | nil => rfl
        | cons next units =>
          rw [mergeRun, if_pos (show estimateTokens (unit.text ++ '\n' :: next.text) > 1 from htwo List.mem_cons_self)]
          simp only [ite_self]
      rw [List.flatMap_cons, ← hrest]
      simp only [groupUnits, alone, hattach, hmerge, ite_self]
      split
      · rfl
      split
      · rfl
      · rfl

/-- A unit and one of the same node elsewhere in the tree have the same groups. -/
theorem alone_elsewhere (unit : ChunkUnit) (ancestry : List Uuid) :
    (alone { unit with sectionAncestry := ancestry }).map draftSpan = (alone unit).map draftSpan := by
  simp only [alone]
  split
  · rfl
  split
  · simp only [splitUnit, List.map_map]
    rfl
  · rfl

theorem alone_ne_nil {unit : ChunkUnit} (h : isBlank unit.text = false) : alone unit ≠ [] := by
  simp only [alone]
  split
  · exact List.cons_ne_nil _ _
  split
  · obtain ⟨draft, hd, -⟩ := splitUnit_head h 1
    exact List.ne_nil_of_mem hd
  · exact List.cons_ne_nil _ _

/-- **Spans that are distinct under a budget of one token are of distinct nodes.** -/
theorem nodup_of_alone {units : List ChunkUnit} (hinked : ∀ u ∈ units, isBlank u.text = false)
    (hsame : ∀ u ∈ units, ∀ v ∈ units, u.nodeId = v.nodeId → ∃ ancestry, v = { u with sectionAncestry := ancestry })
    (h : ((units.flatMap alone).map draftSpan).Nodup) : (units.map (·.nodeId)).Nodup := by
  induction units with
  | nil => exact List.nodup_nil
  | cons unit units ih =>
    rw [List.flatMap_cons, List.map_append, List.nodup_append] at h
    obtain ⟨-, hrest, hapart⟩ := h
    have hunits := ih (fun u hu => hinked u (List.mem_cons_of_mem _ hu))
      (fun u hu v hv => hsame u (List.mem_cons_of_mem _ hu) v (List.mem_cons_of_mem _ hv)) hrest
    refine List.nodup_cons.2 ⟨fun hmem => ?_, hunits⟩
    obtain ⟨v, hv, hid⟩ := List.mem_map.1 hmem
    obtain ⟨ancestry, rfl⟩ := hsame unit List.mem_cons_self v (List.mem_cons_of_mem _ hv) hid.symm
    obtain ⟨d, hd⟩ := List.exists_mem_of_ne_nil _ (alone_ne_nil (hinked unit List.mem_cons_self))
    have hspan := List.mem_map_of_mem (f := draftSpan) hd
    have hother : draftSpan d ∈ (units.flatMap alone).map draftSpan := by
      rw [List.map_flatMap]
      exact List.mem_flatMap.2 ⟨_, hv, by rwa [alone_elsewhere]⟩
    exact hapart _ hspan _ hother rfl

/-- Two units of one node differ in their ancestry alone. -/
theorem unit_elsewhere {document : CanonicalDocument} {units : List ChunkUnit}
    (h : document.collectUnits = some units) :
    ∀ u ∈ units, ∀ v ∈ units, u.nodeId = v.nodeId → ∃ ancestry, v = { u with sectionAncestry := ancestry } := by
  have hunit : ∀ u ∈ units, ∃ node, document.node? u.nodeId = some node ∧
      ∃ ancestry, u = document.unitOf node (document.ownText node) ancestry := by
    intro u hu
    obtain ⟨node, hnode, ancestry, hu⟩ := CanonicalDocument.mem_collectUnits h u hu
    simp only [CanonicalDocument.wholeUnit] at hu
    split at hu
    · cases hu
    · cases List.mem_singleton.1 hu
      exact ⟨node, hnode, ancestry, rfl⟩
  intro u hu v hv hid
  obtain ⟨node, hnode, ancestry, rfl⟩ := hunit u hu
  obtain ⟨other, hother, ancestry', rfl⟩ := hunit v hv
  rw [hid, hother] at hnode
  cases hnode
  exact ⟨ancestry', rfl⟩

/-! ## The ids of a document -/

/-- The walk comes to no node with a text twice. -/
def CanonicalDocument.VisitedOnce (document : CanonicalDocument) : Prop :=
  ∃ units, document.collectUnits = some units ∧ (units.map (·.nodeId)).Nodup

/-- The names of some chunks. -/
def chunkNames (revision : String) (chunks : List Chunk) : Set String :=
  Set.range fun c : Subtype (· ∈ chunks) => chunkName revision (Runtime.span c.1)

/-- The ids are distinct under either profile, and stand for one text. -/
structure Honest (chunks others : List Chunk) : Prop where
  distinct : (chunks.map (·.chunkId)).Nodup
  distinctOthers : (others.map (·.chunkId)).Nodup
  text : ∀ a ∈ chunks, ∀ b ∈ others, a.chunkId = b.chunkId → a.text = b.text

section

variable {rt : Runtime} {document : CanonicalDocument} {profile : ChunkerProfile} {chunks : List Chunk}

/-- The id is the UUID of the name. -/
theorem chunkId_eq (h : rt.chunkDocument document profile = some chunks) :
    ∀ c ∈ chunks, c.chunkId = rt.uuid5 chunkNamespace (chunkName profile.revision (Runtime.span c)) := by
  obtain ⟨units, hunits, -⟩ := Runtime.chunkDocument_some h
  obtain ⟨-, hmap⟩ := Runtime.map_chunkDocument (fun c => (c.chunkId, Runtime.span c))
    (fun _ _ _ => rfl) (fun _ _ => rfl) hunits h
  intro c hc
  have hmem := List.mem_map_of_mem (f := fun c : Chunk => (c.chunkId, Runtime.span c)) hc
  rw [hmap] at hmem
  obtain ⟨d, -, heq⟩ := List.mem_map.1 hmem
  obtain ⟨hid, hspan⟩ := Prod.mk.inj heq
  rw [← hid, ← hspan]
  rfl

/-- **Where the walk comes to no node twice, the ids are distinct.** -/
theorem nodup_chunkIds (honce : document.VisitedOnce) (h : rt.chunkDocument document profile = some chunks)
    (hinj : Set.InjOn (rt.uuid5 chunkNamespace) (chunkNames profile.revision chunks)) :
    (chunks.map (·.chunkId)).Nodup := by
  obtain ⟨units, hunits, hdup⟩ := honce
  obtain ⟨-, hspans⟩ := Runtime.map_chunkDocument Runtime.span (fun _ _ _ => rfl) (fun _ _ => rfl) hunits h
  have hnodup : (chunks.map Runtime.span).Nodup := by
    rw [hspans]
    exact nodup_groupUnits hdup
  have hids := chunkId_eq h
  refine (List.Nodup.of_map Runtime.span hnodup).map_on fun a ha b hb hab => ?_
  rw [hids a ha, hids b hb] at hab
  have hspan := chunkName_inj (hinj ⟨⟨a, ha⟩, rfl⟩ ⟨⟨b, hb⟩, rfl⟩ hab)
  exact List.inj_on_of_nodup_map hnodup ha hb hspan

/-- **Where it comes to one twice, two chunks of one token have one id.** -/
theorem not_nodup_chunkIds {units : List ChunkUnit} (hunits : document.collectUnits = some units)
    (htwice : ¬ (units.map (·.nodeId)).Nodup) (hone : profile.maxTokens = 1)
    (h : rt.chunkDocument document profile = some chunks) : ¬ (chunks.map (·.chunkId)).Nodup := by
  intro hids
  have hinked : ∀ u ∈ units, isBlank u.text = false := fun u hu => (fresh_collectUnits hunits u hu).inked
  obtain ⟨-, hmap⟩ := Runtime.map_chunkDocument (·.chunkId) (fun _ _ _ => rfl) (fun _ _ => rfl) hunits h
  rw [hmap, hone, groupUnits_single hinked (Nat.le_refl _)] at hids
  have hspans : (((units.flatMap alone).map draftSpan).map fun s =>
      rt.uuid5 chunkNamespace (chunkName profile.revision s)).Nodup := by
    rw [List.map_map]
    exact hids
  exact htwice (nodup_of_alone hinked (unit_elsewhere hunits) (List.Nodup.of_map _ hspans))

end

/-! ## Two budgets -/

/-- A text of this many words and one. -/
def wordsText : Nat → Text
  | 0 => ['a']
  | n + 1 => wordsText n ++ '\n' :: ['a']

theorem estimateTokens_wordsText (n : Nat) : estimateTokens (wordsText n) = n + 1 := by
  induction n with
  | zero => rfl
  | succ n ih =>
    rw [wordsText, estimateTokens_newline, ih]
    rfl

/-- A paragraph of this text, and one of a word. -/
def twoParagraphs (text : Text) : CanonicalDocument where
  documentId := 2#128
  sourceVersionId := 1#128
  mimeType := "text/plain"
  parser := sampleRuntime.textParser
  languages := []
  metadata := []
  rootNodeIds := [3#128]
  nodes :=
    [ { nodeId := 3#128, kind := .document, structuralIdentity := "document", parentId := none, childOrder := 0
        text := none, locator := { path := ["document"] } }
    , { nodeId := 4#128, kind := .paragraph, structuralIdentity := "paragraph:1", parentId := some 3#128
        childOrder := 1, text := some text, locator := { path := ["document", "paragraph", "1"] } }
    , { nodeId := 5#128, kind := .paragraph, structuralIdentity := "paragraph:2", parentId := some 3#128
        childOrder := 2, text := some ['a'], locator := { path := ["document", "paragraph", "2"] } } ]

/-- The unit of one of these paragraphs. -/
def paragraphUnit (id : Uuid) (text : Text) : ChunkUnit where
  nodeId := id
  charStart := 0
  charEnd := text.length
  text
  language := "und"
  kind := .paragraph
  sectionAncestry := []
  nodeSpans := [⟨id, 0, text.length⟩]

theorem collectUnits_twoParagraphs {text : Text} (h : isBlank text = false) :
    (twoParagraphs text).collectUnits = some [paragraphUnit 4#128 text, paragraphUnit 5#128 ['a']] := by
  have hunits : (twoParagraphs text).collectUnits =
      some [[if isBlank text then [] else [paragraphUnit 4#128 text], [paragraphUnit 5#128 ['a']]].flatten].flatten :=
    rfl
  rw [hunits, h]
  rfl

/-- Two ids: one of this name, and another. -/
def twoIds (first : String) : Runtime :=
  { sampleRuntime with uuid5 := fun _ name => if name = first then 1#128 else 2#128 }

theorem injOn_twoIds (namespace' : Uuid) (first second : String) :
    Set.InjOn ((twoIds first).uuid5 namespace') {first, second} := by
  intro a ha b hb hab
  simp only [Set.mem_insert_iff, Set.mem_singleton_iff] at ha hb
  simp only [twoIds] at hab
  rcases ha with rfl | rfl
  · rcases hb with rfl | rfl
    · rfl
    · by_contra hne
      rw [if_pos rfl, if_neg fun h => hne h.symm] at hab
      exact absurd hab (by decide)
  · rcases hb with rfl | rfl
    · by_contra hne
      rw [if_pos rfl, if_neg hne] at hab
      exact absurd hab (by decide)
    · rfl

/-- The first paragraph's name has its own id. -/
def firstId (revision : String) (n : Nat) : Runtime :=
  twoIds (chunkName revision (4#128, 0, (wordsText n).length))

section

variable {p q : ChunkerProfile}

/-- **A budget that the second paragraph fits and one that it does not**: one id stands for two texts. -/
theorem same_id_two_texts {n : Nat} (hn : p.maxTokens = n + 1) (hrev : p.revision = q.revision)
    (hlt : p.maxTokens < q.maxTokens) :
    (twoParagraphs (wordsText n)).VisitedOnce ∧ ∃ chunks others,
      (firstId p.revision n).chunkDocument (twoParagraphs (wordsText n)) p = some chunks ∧
      (firstId p.revision n).chunkDocument (twoParagraphs (wordsText n)) q = some others ∧
      Set.InjOn ((firstId p.revision n).uuid5 chunkNamespace) (chunkNames p.revision (chunks ++ others)) ∧
      ∃ a ∈ chunks, ∃ b ∈ others, a.chunkId = b.chunkId ∧ a.text ≠ b.text := by
  have hinked : isBlank (wordsText n) = false := by
    by_contra hblank
    have htokens := estimateTokens_wordsText n
    rw [estimateTokens_blank (by simpa [isBlank] using hblank)] at htokens
    omega
  have htokens := estimateTokens_wordsText n
  have hsum : estimateTokens (wordsText n ++ '\n' :: ['a']) = n + 2 := estimateTokens_wordsText (n + 1)
  have hunits := collectUnits_twoParagraphs hinked
  have hone : estimateTokens ['a'] = 1 := rfl
  -- under the first budget the two stay apart, under the second they are joined
  have hapart : groupUnits p.maxTokens 2 [paragraphUnit 4#128 (wordsText n), paragraphUnit 5#128 ['a']] =
      [paragraphUnit 4#128 (wordsText n), paragraphUnit 5#128 ['a']] := by
    simp [groupUnits, mergeRun, paragraphUnit, htokens, hsum, hone, hn]
  have hjoined : groupUnits q.maxTokens 2 [paragraphUnit 4#128 (wordsText n), paragraphUnit 5#128 ['a']] =
      [mergeUnits (paragraphUnit 4#128 (wordsText n)) (paragraphUnit 5#128 ['a'])] := by
    have h₁ : ¬ q.maxTokens < n + 1 := by omega
    have h₂ : ¬ q.maxTokens < n + 2 := by omega
    have h₃ : ¬ q.maxTokens < 1 := by omega
    simp [groupUnits, mergeRun, paragraphUnit, htokens, hsum, hone, h₁, h₂, h₃]
  have hchunks {profile : ChunkerProfile} {drafts : List ChunkUnit} (hmax : 1 ≤ profile.maxTokens)
      (h : groupUnits profile.maxTokens 2 [paragraphUnit 4#128 (wordsText n), paragraphUnit 5#128 ['a']] = drafts) :
      (firstId p.revision n).chunkDocument (twoParagraphs (wordsText n)) profile = some (Runtime.linkChunks none
        (drafts.mapIdx fun order draft => (firstId p.revision n).chunkOf profile draft order)) := by
    rw [Runtime.chunkDocument, if_neg (Nat.not_lt.2 hmax), hunits, ← h]
    rfl
  have hdup : ([4#128, 5#128] : List Uuid).Nodup := by decide
  refine ⟨⟨_, hunits, hdup⟩, _, _, hchunks (by omega) hapart, hchunks (by omega) hjoined, ?_, _, List.mem_cons_self, _,
    List.mem_cons_self, ?_, fun htext => ?_⟩
  · refine (injOn_twoIds _ _ (chunkName p.revision (5#128, 0, 1))).mono ?_
    intro name hname
    obtain ⟨⟨c, hc⟩, rfl⟩ := hname
    simp only [Runtime.linkChunks, List.mapIdx_cons, List.mapIdx_nil, List.cons_append, List.nil_append, List.mem_cons,
      List.not_mem_nil, or_false] at hc
    rcases hc with rfl | rfl | rfl
    · exact .inl rfl
    · exact .inr rfl
    · exact .inl rfl
  · simp only [Runtime.chunkOf, Runtime.canonicalChunkId, hrev]
    rfl
  · have hlen := congrArg List.length htext
    simp [Runtime.chunkOf, paragraphUnit, mergeUnits] at hlen

theorem Honest.symm {chunks others : List Chunk} (h : Honest chunks others) : Honest others chunks :=
  ⟨h.distinctOthers, h.distinct, fun a ha b hb hid => (h.text b hb a ha hid.symm).symm⟩

/-- Under one revision the ids of every document that the walk comes to once are distinct and stand for one text,
so far as UUIDs tell the names apart. -/
def TellsTexts (p q : ChunkerProfile) : Prop :=
  ∀ (rt : Runtime) (document : CanonicalDocument) (chunks others : List Chunk), document.VisitedOnce →
    rt.chunkDocument document p = some chunks → rt.chunkDocument document q = some others →
      Set.InjOn (rt.uuid5 chunkNamespace) (chunkNames p.revision (chunks ++ others)) → Honest chunks others

theorem TellsTexts.le (h : TellsTexts p q) (hrev : p.revision = q.revision) (hp : 1 ≤ p.maxTokens) :
    q.maxTokens ≤ p.maxTokens := by
  by_contra hlt
  obtain ⟨n, hn⟩ : ∃ n, p.maxTokens = n + 1 := ⟨p.maxTokens - 1, by omega⟩
  obtain ⟨honce, chunks, others, hchunks, hothers, hinj, a, ha, b, hb, hid, htext⟩ :=
    same_id_two_texts hn hrev (Nat.not_le.1 hlt)
  exact htext ((h _ _ chunks others honce hchunks hothers hinj).text a ha b hb hid)

theorem TellsTexts.symm (h : TellsTexts p q) (hrev : p.revision = q.revision) : TellsTexts q p := by
  intro rt document chunks others honce hchunks hothers hinj
  refine (h rt document others chunks honce hothers hchunks ?_).symm
  rw [hrev]
  refine hinj.mono ?_
  intro name hname
  obtain ⟨⟨c, hc⟩, rfl⟩ := hname
  exact ⟨⟨c, List.mem_append.2 (List.mem_append.1 hc).symm⟩, rfl⟩

theorem tellsTexts_of_eq (hrev : p.revision = q.revision) (hmax : p.maxTokens = q.maxTokens) : TellsTexts p q := by
  intro rt document chunks others honce hchunks hothers hinj
  obtain rfl : chunks = others := by
    have hsame : rt.chunkDocument document p = rt.chunkDocument document q := by
      simp only [Runtime.chunkDocument, Runtime.chunkOf, hrev, hmax]
    exact Option.some.inj (hchunks.symm.trans (hsame.trans hothers))
  have hdup := nodup_chunkIds honce hchunks (hinj.mono fun name hname => by
    obtain ⟨⟨c, hc⟩, rfl⟩ := hname
    exact ⟨⟨c, List.mem_append_left _ hc⟩, rfl⟩)
  refine ⟨hdup, hdup, fun a ha b hb hid => ?_⟩
  rw [List.inj_on_of_nodup_map hdup ha hb hid]

end

end MilpbookLM
