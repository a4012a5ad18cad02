/-
The token budget of the chunks. What is merged fits, a window takes a token at least and no more than the budget,
and a text is split into no more windows than it has tokens, with one exception: where an overflowing text ends
in spaces, each of these after its last token is a window of its own without a token (`token_budget_iff`).
-/
import Mathlib.Data.List.TakeWhile
import MilpbookLM.Documents.Lossless

namespace MilpbookLM

/-! ## Tokens -/

/-- The text does not end in a space. -/
def endsInked (t : Text) : Bool := t.getLast?.all fun c => !isSpace c

theorem estimateTokens_gap {gap t : Text} (h : ∀ c ∈ gap, isSpace c = true) :
    estimateTokens (gap ++ t) = estimateTokens t := by
  induction gap with
  | nil => rfl
  | cons c gap ih =>
    simp only [estimateTokens, List.cons_append, countWords, h c List.mem_cons_self, if_true]
    exact ih fun c' hc' => h c' (List.mem_cons_of_mem _ hc')

theorem estimateTokens_blank {t : Text} (h : ∀ c ∈ t, isSpace c = true) : estimateTokens t = 0 := by
  simpa [estimateTokens, countWords] using estimateTokens_gap (t := []) h

theorem countWords_inWord {word : Text} (h : ∀ c ∈ word, isSpace c = false) : countWords true word = 0 := by
  induction word with
  | nil => rfl
  | cons c word ih =>
    simp only [countWords, h c List.mem_cons_self, Bool.false_eq_true, if_false, if_true, Nat.zero_add]
    exact ih fun c' hc' => h c' (List.mem_cons_of_mem _ hc')

theorem estimateTokens_word {word : Text} (hne : word ≠ []) (h : ∀ c ∈ word, isSpace c = false) :
    estimateTokens word = 1 := by
  cases word with
  | nil => exact absurd rfl hne
  | cons c word =>
    simp only [estimateTokens, countWords, h c List.mem_cons_self, Bool.false_eq_true, if_false]
    rw [countWords_inWord fun c' hc' => h c' (List.mem_cons_of_mem _ hc')]

/-- The spaces before a word, the word, and what follows. -/
structure FirstWord (t gap word rest : Text) : Prop where
  split : t = gap ++ word ++ rest
  spaces : ∀ c ∈ gap, isSpace c = true
  inked : ∀ c ∈ word, isSpace c = false
  some : word ≠ []
  breaks : breaksWord rest = true

theorem drop_takeWhile (p : Char → Bool) (t : Text) : t.drop (t.takeWhile p).length = t.dropWhile p := by
  calc t.drop (t.takeWhile p).length
      = (t.takeWhile p ++ t.dropWhile p).drop (t.takeWhile p).length := by rw [List.takeWhile_append_dropWhile]
    _ = t.dropWhile p := List.drop_left

theorem breaksWord_dropWhile (t : Text) : breaksWord (t.dropWhile fun c => !isSpace c) = true := by
  induction t with
  | nil => rfl
  | cons c t ih =>
    rw [List.dropWhile_cons]
    split
    · exact ih
    · next hc => simpa [breaksWord] using hc

/-- A text is blank, or has a first word, which the end of the first tokens is past. -/
theorem lastTokenEnd_cases (t : Text) :
    (isBlank t = true ∧ ∀ n, lastTokenEnd n t = 0) ∨
      ∃ gap word rest, FirstWord t gap word rest ∧
        ∀ n, lastTokenEnd (n + 1) t = (gap ++ word).length + lastTokenEnd n rest := by
  have hsucc (n : Nat) : lastTokenEnd (n + 1) t =
      if ((t.dropWhile isSpace).takeWhile fun c => !isSpace c).length = 0 then 0
      else (t.takeWhile isSpace).length + ((t.dropWhile isSpace).takeWhile fun c => !isSpace c).length +
        lastTokenEnd n ((t.dropWhile isSpace).dropWhile fun c => !isSpace c) := by
    simp only [lastTokenEnd, ← List.drop_drop, drop_takeWhile]
  by_cases hword : ((t.dropWhile isSpace).takeWhile fun c => !isSpace c) = []
  · refine .inl ⟨?_, fun n => ?_⟩
    · have hblank : t.dropWhile isSpace = [] := by
        cases hdrop : t.dropWhile isSpace with
        | nil => rfl
        | cons c rest =>
          have hc := List.head?_dropWhile_not isSpace t
          rw [hdrop] at hc
          simp_all
      simpa [isBlank] using List.dropWhile_eq_nil_iff.1 hblank
    · cases n with
      | zero => rfl
      | succ n => rw [hsucc, if_pos (by simp [hword])]
  · refine .inr ⟨t.takeWhile isSpace, _, (t.dropWhile isSpace).dropWhile fun c => !isSpace c,
      ⟨?_, ?_, ?_, hword, breaksWord_dropWhile _⟩, fun n => ?_⟩
    · rw [List.append_assoc, List.takeWhile_append_dropWhile, List.takeWhile_append_dropWhile]
    · exact fun c hc => List.mem_takeWhile_imp hc
    · exact fun c hc => by simpa using List.mem_takeWhile_imp hc
    · rw [hsucc, if_neg (by simpa using hword), List.length_append]

/-- **What the first `n` tokens are**: no more than `n` of all, ended by a character that is no space, and the text
breaks there. -/
theorem take_lastTokenEnd (n : Nat) (t : Text) :
    estimateTokens (t.take (lastTokenEnd n t)) = min n (estimateTokens t) ∧
      endsInked (t.take (lastTokenEnd n t)) = true ∧
      (breaksWord t = true ∨ 0 < n → breaksWord (t.drop (lastTokenEnd n t)) = true) := by
  induction n generalizing t with
  | zero => simp [lastTokenEnd, estimateTokens, countWords, endsInked]
  | succ n ih =>
    rcases lastTokenEnd_cases t with ⟨hblank, hend⟩ | ⟨gap, word, rest, h, hend⟩
    · have htokens : estimateTokens t = 0 := estimateTokens_blank (by simpa [isBlank] using hblank)
      have hbreaks : breaksWord t = true := by
        cases t with
        | nil => rfl
        | cons c t =>
          simp only [isBlank, List.all_cons, Bool.and_eq_true] at hblank
          exact hblank.1
      rw [hend, htokens]
      exact ⟨rfl, rfl, fun _ => hbreaks⟩
    · obtain ⟨htokens, hinked, hbreaks⟩ := ih rest
      have hbreaks := hbreaks (.inl h.breaks)
      have htakeBreaks : breaksWord (rest.take (lastTokenEnd n rest)) = true := by
        cases hr : rest.take (lastTokenEnd n rest) with
        | nil => rfl
        | cons c r =>
          have hrest := h.breaks
          rw [← List.take_append_drop (lastTokenEnd n rest) rest, hr] at hrest
          exact hrest
      have hword {r : Text} (hr : breaksWord r = true) : estimateTokens (gap ++ word ++ r) = 1 + estimateTokens r := by
        rw [List.append_assoc, estimateTokens_gap h.spaces, estimateTokens_append _ hr,
          estimateTokens_word h.some h.inked]
      rw [hend, h.split, List.take_length_add_append, List.drop_length_add_append]
      refine ⟨?_, ?_, fun _ => hbreaks⟩
      · rw [hword htakeBreaks, hword h.breaks, htokens]
        omega
      · unfold endsInked at hinked ⊢
        rw [List.getLast?_append]
        cases hlast : (rest.take (lastTokenEnd n rest)).getLast? with
        | some c => simpa [hlast] using hinked
        | none =>
          rw [Option.none_or, List.getLast?_append, List.getLast?_eq_some_getLast h.some]
          simp [h.inked _ (List.getLast_mem h.some)]

/-! ## Windows -/

section

variable {text : Text} {maxTokens fuel start : Nat}

/-- The text at a window. -/
def windowText (text : Text) (window : Nat × Nat) : Text := (text.drop window.1).take (window.2 - window.1)

theorem endsInked_drop (hstart : start < text.length) : endsInked (text.drop start) = endsInked text := by
  rw [endsInked, endsInked, List.getLast?_drop, if_neg (Nat.not_le.2 hstart)]

/-- Text that is left and ends in no space has a token. -/
theorem one_le_tokens_drop (h : endsInked text = true) (hstart : start < text.length) :
    1 ≤ estimateTokens (text.drop start) := by
  refine one_le_estimateTokens (Bool.eq_false_iff.2 fun hblank => ?_)
  have hne : text.drop start ≠ [] := by simpa using hstart
  have hinked := (endsInked_drop hstart).trans h
  rw [endsInked, List.getLast?_eq_some_getLast hne] at hinked
  rw [isBlank, List.all_eq_true] at hblank
  rw [Option.all_some, hblank _ (List.getLast_mem hne)] at hinked
  cases hinked

/-- **Of a text that ends in no space, a window takes a token at least and no more than the budget**, and there are no
more windows than tokens. -/
theorem windows_budget (hmax : 1 ≤ maxTokens) (h : endsInked text = true) :
    (∀ w ∈ windows text maxTokens fuel start, 1 ≤ estimateTokens (windowText text w) ∧
        estimateTokens (windowText text w) ≤ maxTokens) ∧
      (windows text maxTokens fuel start).length ≤ estimateTokens (text.drop start) := by
  induction fuel generalizing start with
  | zero => exact ⟨fun _ hw => absurd hw List.not_mem_nil, Nat.zero_le _⟩
  | succ fuel ih =>
    simp only [windows]
    split
    · next hlt =>
      obtain ⟨htake, -, hbreaks⟩ := take_lastTokenEnd maxTokens (text.drop start)
      have htokens := one_le_tokens_drop h hlt
      have hpos : 1 ≤ lastTokenEnd maxTokens (text.drop start) := by
        by_contra hzero
        rw [Nat.lt_one_iff.1 (Nat.not_le.1 hzero), List.take_zero] at htake
        change 0 = _ at htake
        omega
      have hstop : windowEnd text start maxTokens = start + lastTokenEnd maxTokens (text.drop start) := by
        simp only [windowEnd]
        omega
      have hwindow : windowText text (start, windowEnd text start maxTokens) =
          (text.drop start).take (lastTokenEnd maxTokens (text.drop start)) := by
        rw [windowText, hstop, Nat.add_sub_cancel_left]
      have hsplit := estimateTokens_append ((text.drop start).take (lastTokenEnd maxTokens (text.drop start)))
        (hbreaks (.inr hmax))
      rw [List.take_append_drop, List.drop_drop, ← hstop] at hsplit
      obtain ⟨hrest, hcount⟩ := @ih (windowEnd text start maxTokens)
      refine ⟨List.forall_mem_cons.2 ⟨?_, hrest⟩, ?_⟩
      · rw [hwindow, htake]
        omega
      · rw [List.length_cons]
        omega
    · exact ⟨fun _ hw => absurd hw List.not_mem_nil, Nat.zero_le _⟩

/-- **Of a text that ends in a space the last window has no token.** -/
theorem windows_blank (h : endsInked text = false) (hstart : start < text.length) (hfuel : text.length ≤ start + fuel) :
    ∃ w ∈ windows text maxTokens fuel start, estimateTokens (windowText text w) = 0 := by
  induction fuel generalizing start with
  | zero => omega
  | succ fuel ih =>
    rw [windows, if_pos hstart]
    have hlt := lt_windowEnd hstart maxTokens
    have hle := windowEnd_le hstart maxTokens
    by_cases hlast : windowEnd text start maxTokens = text.length
    · refine ⟨_, List.mem_cons_self, ?_⟩
      obtain ⟨-, hinked, -⟩ := take_lastTokenEnd maxTokens (text.drop start)
      have hall : windowText text (start, windowEnd text start maxTokens) = text.drop start := by
        rw [windowText, hlast]
        exact List.take_of_length_le (by rw [List.length_drop])
      have hshort : text.length = start + 1 := by
        by_contra hlong
        have hend : lastTokenEnd maxTokens (text.drop start) = (text.drop start).length := by
          rw [List.length_drop]
          simp only [windowEnd] at hlast
          omega
        rw [hend, List.take_length, endsInked_drop hstart, h] at hinked
        cases hinked
      obtain ⟨c, hc⟩ : ∃ c, text.drop start = [c] := List.length_eq_one_iff.1 (by rw [List.length_drop]; omega)
      have hspace : isSpace c = true := by
        have hdrop := (endsInked_drop hstart).trans h
        simpa [hc, endsInked] using hdrop
      rw [hall, hc]
      exact estimateTokens_blank fun c' hc' => List.mem_singleton.1 hc' ▸ hspace
    · obtain ⟨w, hw, htokens⟩ := @ih (windowEnd text start maxTokens) (by omega) (by omega)
      exact ⟨w, List.mem_cons_of_mem _ hw, htokens⟩

end

/-! ## Groups -/

section

variable {maxTokens fuel : Nat} {unit cursor draft : ChunkUnit} {units : List ChunkUnit}

/-- A unit that is split. -/
def Overflows (maxTokens : Nat) (unit : ChunkUnit) : Prop :=
  unit.kind ≠ .table ∧ maxTokens < estimateTokens unit.text

theorem le_tokens_mergeRun : estimateTokens cursor.text ≤ estimateTokens (mergeRun maxTokens cursor units).1.text := by
  induction units generalizing cursor with
  | nil => exact Nat.le_refl _
  | cons candidate units ih =>
    simp only [mergeRun]
    split
    · exact Nat.le_refl _
    split
    · exact Nat.le_refl _
    split
    · exact Nat.le_refl _
    · refine Nat.le_trans ?_ ih
      rw [mergeUnits, estimateTokens_newline]
      exact Nat.le_add_right _ _

theorem tokens_attachHeading (h : estimateTokens unit.text ≤ maxTokens) :
    estimateTokens unit.text ≤ estimateTokens (attachHeading maxTokens unit units).1.text ∧
      estimateTokens (attachHeading maxTokens unit units).1.text ≤ maxTokens := by
  cases units with
  | nil => exact ⟨Nat.le_refl _, h⟩
  | cons next units =>
    simp only [attachHeading]
    split
    · next hfits =>
      refine ⟨?_, hfits.2⟩
      rw [mergeUnits, estimateTokens_newline]
      exact Nat.le_add_right _ _
    · exact ⟨Nat.le_refl _, h⟩

/-- **What a group is**: a table, a window of an overflowing unit, or units that fit together. -/
theorem groupUnits_cases (hinked : ∀ u ∈ units, isBlank u.text = false) (hd : draft ∈ groupUnits maxTokens fuel units) :
    (draft ∈ units ∧ draft.kind = .table) ∨ (∃ u ∈ units, Overflows maxTokens u ∧ draft ∈ splitUnit u maxTokens) ∨
      ∃ u ∈ units, u.kind ≠ .table ∧ draft.nodeId = u.nodeId ∧
        1 ≤ estimateTokens draft.text ∧ estimateTokens draft.text ≤ maxTokens := by
  induction fuel generalizing units with
  | zero => cases hd
  | succ fuel ih =>
    cases units with
    | nil => cases hd
    | cons unit units =>
      have later {rest} (hrest : rest <:+ units) (hd : draft ∈ groupUnits maxTokens fuel rest) :=
        @ih rest (fun u hu => hinked u (List.mem_cons_of_mem _ (hrest.subset hu))) hd
      have widen {P : ChunkUnit → Prop} {rest} (hrest : rest <:+ units) (h : ∃ u ∈ rest, P u) :
          ∃ u ∈ unit :: units, P u := by
        obtain ⟨u, hu, hp⟩ := h
        exact ⟨u, List.mem_cons_of_mem _ (hrest.subset hu), hp⟩
      have found {rest} (hrest : rest <:+ units) (hd : draft ∈ groupUnits maxTokens fuel rest) :
          (draft ∈ unit :: units ∧ draft.kind = .table) ∨
            (∃ u ∈ unit :: units, Overflows maxTokens u ∧ draft ∈ splitUnit u maxTokens) ∨
            ∃ u ∈ unit :: units, u.kind ≠ .table ∧ draft.nodeId = u.nodeId ∧
              1 ≤ estimateTokens draft.text ∧ estimateTokens draft.text ≤ maxTokens := by
        rcases later hrest hd with ⟨hmem, hkind⟩ | h | h
        · exact .inl ⟨List.mem_cons_of_mem _ (hrest.subset hmem), hkind⟩
        · exact .inr (.inl (widen hrest h))
        · exact .inr (.inr (widen hrest h))
      have hunit := one_le_estimateTokens (hinked unit List.mem_cons_self)
      simp only [groupUnits] at hd
      split at hd
      · next htable =>
        rcases List.mem_cons.1 hd with rfl | hd
        · exact .inl ⟨List.mem_cons_self, htable⟩
        · exact found (List.suffix_refl _) hd
      next htable =>
      split at hd
      · next hlarge =>
        rcases List.mem_append.1 hd with hd | hd
        · exact .inr (.inl ⟨unit, List.mem_cons_self, ⟨htable, hlarge⟩, hd⟩)
        · exact found (List.suffix_refl _) hd
      next hfits =>
      have hfits := Nat.le_of_not_gt hfits
      split at hd
      · obtain ⟨hspan, hrest⟩ := sameSpan_attachHeading maxTokens unit units
        rcases List.mem_cons.1 hd with rfl | hd
        · obtain ⟨hle, hmax⟩ := @tokens_attachHeading maxTokens unit units hfits
          exact .inr (.inr ⟨unit, List.mem_cons_self, htable, hspan.1, hunit.trans hle, hmax⟩)
        · exact found hrest hd
      · rcases List.mem_cons.1 hd with rfl | hd
        · exact .inr (.inr ⟨unit, List.mem_cons_self, htable, (sameSpan_mergeRun _ _ _).1,
            hunit.trans le_tokens_mergeRun, (tokens_mergeRun hfits units).1⟩)
        · exact found (mergeRun_suffix _ _ _) hd

/-- What overflows joins no group. -/
theorem Overflows.mem_mergeRun (h : Overflows maxTokens unit) (hmem : unit ∈ units) :
    unit ∈ (mergeRun maxTokens cursor units).2 := by
  induction units generalizing cursor with
  | nil => cases hmem
  | cons candidate units ih =>
    simp only [mergeRun]
    split
    · exact hmem
    split
    · exact hmem
    next hsmall =>
    split
    · exact hmem
    · refine ih ?_
      rcases List.mem_cons.1 hmem with rfl | hmem
      · exact absurd ⟨h.2, h.1⟩ hsmall
      · exact hmem

theorem Overflows.mem_attachHeading (h : Overflows maxTokens unit) (hmem : unit ∈ units) :
    unit ∈ (attachHeading maxTokens cursor units).2 := by
  cases units with
  | nil => cases hmem
  | cons next units =>
    simp only [attachHeading]
    split
    · next hfits =>
      rcases List.mem_cons.1 hmem with rfl | hmem
      · have hlarge := h.2
        rw [estimateTokens_newline] at hfits
        omega
      · exact hmem
    · exact hmem

/-- **Every window of a unit that overflows is a group.** -/
theorem Overflows.splitUnit_subset (h : Overflows maxTokens unit) (hmem : unit ∈ units) (hfuel : units.length ≤ fuel) :
    splitUnit unit maxTokens ⊆ groupUnits maxTokens fuel units := by
  induction fuel generalizing units with
  | zero =>
    obtain rfl := List.length_eq_zero_iff.1 (Nat.le_zero.1 hfuel)
    cases hmem
  | succ fuel ih =>
    cases units with
    | nil => cases hmem
    | cons first units =>
      have hfuel : units.length ≤ fuel := Nat.le_of_succ_le_succ hfuel
      simp only [groupUnits]
      rcases List.mem_cons.1 hmem with rfl | hmem
      · rw [if_neg h.1, if_pos h.2]
        exact List.subset_append_left _ _
      split
      · exact List.subset_cons_of_subset _ (ih hmem hfuel)
      split
      · exact List.subset_append_of_subset_right _ (ih hmem hfuel)
      split
      · have hlen := (sameSpan_attachHeading maxTokens first units).2.length_le
        exact List.subset_cons_of_subset _ (ih (h.mem_attachHeading hmem) (hlen.trans hfuel))
      · have hlen := (mergeRun_suffix maxTokens first units).length_le
        exact List.subset_cons_of_subset _ (ih (h.mem_mergeRun hmem) (hlen.trans hfuel))

end

/-! ## The chunks -/

/-- The node under this id is a table. -/
def CanonicalDocument.IsTable (document : CanonicalDocument) (id : Uuid) : Prop :=
  ∃ node, document.node? id = some node ∧ node.kind = .table

/-- The chunks of these units respect the budget. -/
structure WithinBudget (document : CanonicalDocument) (maxTokens : Nat) (units : List ChunkUnit) (chunks : List Chunk) :
    Prop where
  budget : ∀ c ∈ chunks, ¬ document.IsTable c.nodeId → 1 ≤ estimateTokens c.text ∧ estimateTokens c.text ≤ maxTokens
  counted : ∀ c ∈ chunks, c.tokenCount = estimateTokens c.text
  /-- A table together with others. -/
  mixed : ∀ c ∈ chunks, 2 ≤ c.nodeSpans.length → (∃ span ∈ c.nodeSpans, document.IsTable span.nodeId) →
    estimateTokens c.text ≤ maxTokens
  /-- The splitting ends at the end of the text, after no more windows than tokens. -/
  split : ∀ u ∈ units, Overflows maxTokens u →
    Covers u.nodeId 0 ((splitUnit u maxTokens).flatMap (·.nodeSpans)) u.text.length ∧
      (splitUnit u maxTokens).length ≤ estimateTokens u.text

/-- A unit is of the kind of its node. -/
theorem isTable_unit {document : CanonicalDocument} {units : List ChunkUnit} (h : document.collectUnits = some units) :
    ∀ u ∈ units, document.IsTable u.nodeId ↔ u.kind = .table := by
  intro u hu
  obtain ⟨node, hnode, ancestry, hu⟩ := CanonicalDocument.mem_collectUnits h u hu
  simp only [CanonicalDocument.wholeUnit] at hu
  split at hu
  · cases hu
  · cases List.mem_singleton.1 hu
    constructor
    · intro htable
      obtain ⟨other, hother, hkind⟩ := htable
      obtain rfl : node = other := Option.some.inj (hnode.symm.trans hother)
      exact hkind
    · exact fun hkind => ⟨node, hnode, hkind⟩

/-- The chunk has the node, the text, the tokens and the spans of the group. -/
structure WrittenOf (draft : ChunkUnit) (chunk : Chunk) : Prop where
  nodeId : chunk.nodeId = draft.nodeId
  text : chunk.text = draft.text
  tokenCount : chunk.tokenCount = estimateTokens draft.text
  spans : chunk.nodeSpans = draft.nodeSpans

/-- A window of a unit is the text there. -/
theorem mem_splitUnit_text {unit draft : ChunkUnit} {maxTokens : Nat} (h : draft ∈ splitUnit unit maxTokens) :
    draft.nodeSpans.length = 1 ∧
      ∃ w ∈ windows unit.text maxTokens unit.text.length 0, draft.text = windowText unit.text w := by
  obtain ⟨w, hw, rfl⟩ := List.mem_map.1 h
  exact ⟨rfl, w, hw, rfl⟩

theorem splitUnit_of_window {unit : ChunkUnit} {maxTokens : Nat} {w : Nat × Nat}
    (h : w ∈ windows unit.text maxTokens unit.text.length 0) :
    ∃ draft ∈ splitUnit unit maxTokens, draft.nodeId = unit.nodeId ∧ draft.text = windowText unit.text w :=
  ⟨_, List.mem_map_of_mem h, rfl, rfl⟩

section

variable {rt : Runtime} {document : CanonicalDocument} {profile : ChunkerProfile} {units : List ChunkUnit}
  {chunks : List Chunk}

/-- The chunks are those of the groups. -/
theorem chunkDocument_written (hunits : document.collectUnits = some units)
    (h : rt.chunkDocument document profile = some chunks) :
    1 ≤ profile.maxTokens ∧
      (∀ c ∈ chunks, ∃ d ∈ groupUnits profile.maxTokens units.length units, WrittenOf d c) ∧
      ∀ d ∈ groupUnits profile.maxTokens units.length units, ∃ c ∈ chunks, WrittenOf d c := by
  obtain ⟨hmax, hmap⟩ := Runtime.map_chunkDocument (fun c => (c.nodeId, c.text, c.tokenCount, c.nodeSpans))
    (fun _ _ _ => rfl) (fun _ _ => rfl) hunits h
  refine ⟨hmax, fun c hc => ?_, fun d hd => ?_⟩
  · have hmem := List.mem_map_of_mem (f := fun c : Chunk => (c.nodeId, c.text, c.tokenCount, c.nodeSpans)) hc
    rw [hmap] at hmem
    obtain ⟨d, hd, heq⟩ := List.mem_map.1 hmem
    simp only [Prod.mk.injEq] at heq
    exact ⟨d, hd, heq.1.symm, heq.2.1.symm, heq.2.2.1.symm, heq.2.2.2.symm⟩
  · have hmem := List.mem_map_of_mem (f := fun d => (d.nodeId, d.text, estimateTokens d.text, d.nodeSpans)) hd
    have hmem : (d.nodeId, d.text, estimateTokens d.text, d.nodeSpans) ∈
        chunks.map fun c => (c.nodeId, c.text, c.tokenCount, c.nodeSpans) := hmap ▸ hmem
    obtain ⟨c, hc, heq⟩ := List.mem_map.1 hmem
    simp only [Prod.mk.injEq] at heq
    exact ⟨c, hc, heq.1, heq.2.1, heq.2.2.1, heq.2.2.2⟩

/-- **The budget is kept exactly where no text that is split ends in a space.** -/
theorem token_budget_iff (hunits : document.collectUnits = some units)
    (h : rt.chunkDocument document profile = some chunks) :
    WithinBudget document profile.maxTokens units chunks ↔
      ∀ u ∈ units, Overflows profile.maxTokens u → endsInked u.text = true := by
  obtain ⟨hmax, hgroups, hwritten⟩ := chunkDocument_written hunits h
  have hfresh := fresh_collectUnits hunits
  have hinked : ∀ u ∈ units, isBlank u.text = false := fun u hu => (hfresh u hu).inked
  constructor
  · intro hwithin u hu hover
    by_contra hspace
    obtain ⟨w, hw, htokens⟩ := @windows_blank _ profile.maxTokens _ _ (Bool.eq_false_iff.2 hspace)
      (hfresh u hu).length_pos (Nat.zero_add u.text.length).ge
    obtain ⟨d, hd, hid, htext⟩ := splitUnit_of_window hw
    obtain ⟨c, hc, hwrite⟩ := hwritten d (hover.splitUnit_subset hu (Nat.le_refl _) hd)
    have htable : ¬ document.IsTable c.nodeId := by
      rw [hwrite.nodeId, hid, isTable_unit hunits u hu]
      exact hover.1
    have hpos := (hwithin.budget c hc htable).1
    rw [hwrite.text, htext, htokens] at hpos
    omega
  · intro hends
    have hsplit : ∀ u ∈ units, Overflows profile.maxTokens u →
        (∀ w ∈ windows u.text profile.maxTokens u.text.length 0,
            1 ≤ estimateTokens (windowText u.text w) ∧ estimateTokens (windowText u.text w) ≤ profile.maxTokens) ∧
          (splitUnit u profile.maxTokens).length ≤ estimateTokens u.text := by
      intro u hu hover
      obtain ⟨hwindows, hcount⟩ := @windows_budget _ _ u.text.length 0 hmax (hends u hu hover)
      exact ⟨hwindows, by rwa [splitUnit, List.length_map]⟩
    refine ⟨fun c hc htable => ?_, fun c hc => ?_, fun c hc htwo _ => ?_, fun u hu hover => ?_⟩
    · obtain ⟨d, hd, hwrite⟩ := hgroups c hc
      rw [hwrite.text]
      rcases groupUnits_cases hinked hd with ⟨hmem, hkind⟩ | ⟨u, hu, hover, hd⟩ | ⟨u, -, -, -, hle⟩
      · exact absurd (hwrite.nodeId ▸ (isTable_unit hunits d hmem).2 hkind) htable
      · obtain ⟨-, w, hw, htext⟩ := mem_splitUnit_text hd
        rw [htext]
        exact (hsplit u hu hover).1 w hw
      · exact hle
    · obtain ⟨d, -, hwrite⟩ := hgroups c hc
      rw [hwrite.tokenCount, hwrite.text]
    · obtain ⟨d, hd, hwrite⟩ := hgroups c hc
      rw [hwrite.text]
      rw [hwrite.spans] at htwo
      rcases groupUnits_cases hinked hd with ⟨hmem, -⟩ | ⟨u, -, -, hd⟩ | ⟨u, -, -, -, hle⟩
      · rw [(hfresh d hmem).spans] at htwo
        simp at htwo
      · rw [(mem_splitUnit_text hd).1] at htwo
        omega
      · exact hle.2
    · exact ⟨spans_splitUnit u profile.maxTokens, (hsplit u hu hover).2⟩

end

/-- The structural profile with this budget. -/
def structuralOf (maxTokens : Nat) : ChunkerProfile := { structuralChunkerV1 with maxTokens }

/-- A Markdown text that is one block of code. -/
def codeDocument (text : Text) : CanonicalDocument where
  documentId := 2#128
  sourceVersionId := 1#128
  mimeType := "text/markdown"
  parser := sampleRuntime.markdownParser
  languages := []
  metadata := []
  rootNodeIds := [3#128]
  nodes :=
    [ { nodeId := 3#128, kind := .document, structuralIdentity := "document", parentId := none, childOrder := 0
        text := none, locator := { path := ["document"] } }
    , { nodeId := 4#128, kind := .code, structuralIdentity := "code:1", parentId := some 3#128, childOrder := 1
        text := some text, locator := { path := ["document", "block", "1"] } } ]

theorem token_budget_code : ∃ units chunks, (codeDocument ['a', ' ', 'b']).collectUnits = some units ∧
    sampleRuntime.chunkDocument (codeDocument ['a', ' ', 'b']) (structuralOf 1) = some chunks ∧
      (WithinBudget (codeDocument ['a', ' ', 'b']) 1 units chunks ↔
        ∀ u ∈ units, Overflows 1 u → endsInked u.text = true) :=
  ⟨_, _, rfl, rfl, @token_budget_iff sampleRuntime (codeDocument _) (structuralOf 1) _ _ rfl rfl⟩

/-- A block of code that ends in a space: the last of its chunks is this space. -/
theorem trailing_space_chunk : ∃ units chunks, (codeDocument ['a', ' ', 'b', ' ']).collectUnits = some units ∧
    sampleRuntime.chunkDocument (codeDocument ['a', ' ', 'b', ' ']) (structuralOf 1) = some chunks ∧
      chunks.map (fun c => (c.text, c.tokenCount)) = [(['a'], 1), ([' ', 'b'], 1), ([' '], 0)] ∧
      ¬ WithinBudget (codeDocument ['a', ' ', 'b', ' ']) 1 units chunks := by
  refine ⟨_, _, rfl, rfl, rfl, fun h => ?_⟩
  have hlast := h.budget _ (List.mem_of_getElem? (i := 2) rfl) ?_
  · exact absurd hlast.1 (by decide)
  · intro htable
    obtain ⟨node, hnode, hkind⟩ := htable
    cases hnode
    cases hkind

end MilpbookLM
