/-
Whether the loop of `parse_markdown` ends. Every block takes its first line at least,
except a paragraph that starts with the row of a table: the loop stays at such a line
for good. So the parser ends, within as many iterations as there are lines, if and only
if every table row outside fenced code is part of a table (`parse_progress_iff`).
-/
import Mathlib.Logic.Relation
import MilpbookLM.Documents.Coordinates

namespace MilpbookLM

/-! ## The loop -/

namespace NodeBuilder

variable (rt : Runtime)

/-- One iteration, at a line: the builder after it, and the lines left. -/
def parseBlock (b : NodeBuilder) (line : Text) (lines : List Text) : NodeBuilder × List Text :=
  if isBlank line then (b, lines)
  else match fence line with
  | some (marker, language) => b.emitCode rt marker language lines
  | none => match atxHeading line with
    | some (level, title) => (b.emit rt .heading (strip title) { extra := [("heading_level", .int level)] }, lines)
    | none =>
      if isTableStart (line :: lines) then b.emitTable rt (line :: lines)
      else if (rt.listItem line).isSome then b.emitList rt (line :: lines)
      else if (quoteLine line).isSome then b.emitQuote rt (line :: lines)
      else b.emitParagraph rt (line :: lines)

/-- From one iteration to the next. -/
inductive LoopStep : NodeBuilder × List Text → NodeBuilder × List Text → Prop
  | next (b : NodeBuilder) (line : Text) (lines : List Text) : LoopStep (b, line :: lines) (parseBlock rt b line lines)

/-- Every iteration leaves fewer of the lines that it was given. -/
def Progress (b : NodeBuilder) (lines : List Text) : Prop :=
  ∀ b' line rest, Relation.ReflTransGen (LoopStep rt) (b, lines) (b', line :: rest) →
    (parseBlock rt b' line rest).2 <:+ line :: rest ∧ (parseBlock rt b' line rest).2.length < (line :: rest).length

variable {rt}

theorem parseBlocks_succ (fuel : Nat) (b : NodeBuilder) (line : Text) (lines : List Text) :
    parseBlocks rt (fuel + 1) b (line :: lines) =
      parseBlocks rt fuel (parseBlock rt b line lines).1 (parseBlock rt b line lines).2 := by
  simp only [parseBlocks, parseBlock]
  split
  · rfl
  · cases fence line with
    | some _ => rfl
    | none =>
      cases atxHeading line with
      | some _ => rfl
      | none => rfl

end NodeBuilder

/-! ## The condition -/

/-- How a line is read: as the start of a block, in fenced code, as the separator below a header,
or among the rows of a table. -/
inductive LineMode
  | block
  | code (marker : Text)
  | separator
  | table

/-- How the next line is read; none at a row that no table has. -/
def readsNext : LineMode → Text → List Text → Option LineMode
  | .code marker, line, _ => some (if marker.isPrefixOf line then .block else .code marker)
  | .separator, _, _ => some .table
  | .table, line, lines => if (tableRow line).isSome then some .table else atBlock line lines
  | .block, line, lines => atBlock line lines
where
  atBlock (line : Text) (lines : List Text) : Option LineMode :=
    match fence line with
    | some (marker, _) => some (.code marker)
    | none =>
      if isTableStart (line :: lines) then some .separator
      else if (tableRow line).isSome then none
      else some .block

/-- Outside fenced code, every row of a table is a header above a separator, or among the rows below one. -/
def rowsInTables : LineMode → List Text → Bool
  | _, [] => true
  | mode, line :: lines =>
    match readsNext mode line lines with
    | some mode => rowsInTables mode lines
    | none => false

/-- `\d` matches no character that another pattern starts with. -/
def Runtime.DecimalOnly (rt : Runtime) : Prop := ∀ c, rt.isDecimal c = true → c ≠ '|' ∧ c ≠ '`' ∧ c ≠ '~'

/-! ## The first character of a line that is no space -/

def firstInk (line : Text) : Option Char := (line.dropWhile isSpace).head?

theorem firstInk_cons {c : Char} {t : Text} (h : isSpace c = false) : firstInk (c :: t) = some c := by
  simp [firstInk, h]

theorem firstInk_blank {line : Text} (h : isBlank line = true) : firstInk line = none := by
  induction line with
  | nil => rfl
  | cons c t ih =>
    simp only [isBlank, List.all_cons, Bool.and_eq_true] at h
    simpa only [firstInk, List.dropWhile_cons, h.1, if_true] using ih h.2

theorem firstInk_fence {line : Text} {found} (h : fence line = some found) :
    firstInk line = some '`' ∨ firstInk line = some '~' := by
  obtain ⟨marker, hm, -⟩ := Option.map_eq_some_iff.1 h
  have hpre := List.find?_some hm
  have hmem := List.mem_of_find?_eq_some hm
  obtain ⟨t, rfl⟩ := List.isPrefixOf_iff_prefix.1 hpre
  simp only [List.mem_cons, List.not_mem_nil, or_false] at hmem
  rcases hmem with rfl | rfl
  · exact .inl (firstInk_cons rfl)
  · exact .inr (firstInk_cons rfl)

theorem firstInk_atxHeading {line : Text} {found} (h : atxHeading line = some found) : firstInk line = some '#' := by
  simp only [atxHeading] at h
  split at h
  · next hl =>
    cases line with
    | nil => simp at hl
    | cons c t =>
      by_cases hc : c = '#'
      · subst hc
        exact firstInk_cons rfl
      · simp [hc] at hl
  · cases h

theorem firstInk_tableRow {line : Text} (h : (tableRow line).isSome = true) : firstInk line = some '|' := by
  simp only [tableRow] at h
  split at h
  · next hrow =>
    obtain ⟨-, hhead, -⟩ := hrow
    simp only [strip, List.head?_reverse] at hhead
    cases hd : line.dropWhile isSpace with
    | nil => simp [hd] at hhead
    | cons c t =>
      have hc : isSpace c = false := by simpa [hd] using List.head?_dropWhile_not isSpace line
      rw [hd, List.reverse_cons, List.dropWhile_append] at hhead
      rw [firstInk, hd, List.head?_cons]
      split at hhead
      · simpa [hc] using hhead
      · simpa using hhead
  · cases h

theorem firstInk_listItem {rt : Runtime} {line : Text} (h : (rt.listItem line).isSome = true) :
    ∃ c, firstInk line = some c ∧ (c = '-' ∨ c = '*' ∨ c = '+' ∨ rt.isDecimal c = true) := by
  simp only [Runtime.listItem] at h
  split at h
  · cases h
  · next c t ht =>
    refine ⟨c, by rw [firstInk, ht]; rfl, ?_⟩
    split at h
    · tauto
    · by_cases hd : rt.isDecimal c = true
      · exact .inr (.inr (.inr hd))
      · simp [hd] at h

theorem firstInk_quoteLine {line : Text} (h : (quoteLine line).isSome = true) : firstInk line = some '>' := by
  simp only [quoteLine] at h
  split at h
  · exact firstInk_cons rfl
  · exact firstInk_cons rfl
  · cases h

/-- Neither a fence nor the row of a table. -/
def ProseLine (line : Text) : Prop := fence line = none ∧ tableRow line = none

theorem proseLine_of_firstInk {line : Text} {c : Option Char} (h : firstInk line = c)
    (hc : c ≠ some '|' ∧ c ≠ some '`' ∧ c ≠ some '~') : ProseLine line := by
  subst h
  refine ⟨Option.eq_none_iff_forall_ne_some.2 fun m hm => ?_, Option.not_isSome_iff_eq_none.1 fun hrow => ?_⟩
  · exact (firstInk_fence hm).elim hc.2.1 hc.2.2
  · exact hc.1 (firstInk_tableRow hrow)

theorem rowsInTables_cons_prose {line : Text} {lines : List Text} (h : ProseLine line) :
    rowsInTables .block (line :: lines) = rowsInTables .block lines := by
  have hstart : isTableStart (line :: lines) = false := by cases lines <;> simp [isTableStart, h.2]
  simp [rowsInTables, readsNext, readsNext.atBlock, h.1, h.2, hstart]

theorem proseLine_listItem {rt : Runtime} (hrt : rt.DecimalOnly) {line : Text} (h : (rt.listItem line).isSome = true) :
    ProseLine line := by
  obtain ⟨c, hc, hkind⟩ := firstInk_listItem h
  refine proseLine_of_firstInk hc ?_
  rcases hkind with rfl | rfl | rfl | hd
  · simp
  · simp
  · simp
  · simpa using hrt c hd

/-! ## What a run of lines leaves -/

section Runs

variable {lines : List Text}

theorem rowsInTables_code (marker : Text) : rowsInTables (.code marker) lines =
    rowsInTables .block ((lines.dropWhile fun line => !marker.isPrefixOf line).drop 1) := by
  induction lines with
  | nil => rfl
  | cons line lines ih =>
    simp only [rowsInTables, readsNext, List.dropWhile_cons]
    cases marker.isPrefixOf line with
    | true => rfl
    | false => exact ih

theorem rowsInTables_table : rowsInTables .table lines =
    rowsInTables .block (lines.dropWhile fun line => (tableRow line).isSome) := by
  induction lines with
  | nil => rfl
  | cons line lines ih =>
    by_cases hrow : (tableRow line).isSome = true
    · simp only [rowsInTables, readsNext, List.dropWhile_cons, hrow, if_true]
      exact ih
    · simp only [rowsInTables, readsNext, List.dropWhile_cons, hrow]
      rfl

theorem rowsInTables_prose {p : Text → Bool} (hp : ∀ line, p line = true → ProseLine line) :
    rowsInTables .block lines = rowsInTables .block (lines.dropWhile p) := by
  induction lines with
  | nil => rfl
  | cons line lines ih =>
    rw [List.dropWhile_cons]
    split
    · next h => exact (rowsInTables_cons_prose (hp line h)).trans ih
    · rfl

/-- A run of such lines, with the first one in it. -/
theorem rest_prose {p : Text → Bool} (hp : ∀ line, p line = true → ProseLine line) {line : Text} (h : p line = true) :
    (line :: lines).dropWhile p <:+ lines ∧
      rowsInTables .block ((line :: lines).dropWhile p) = rowsInTables .block (line :: lines) := by
  refine ⟨?_, (rowsInTables_prose hp).symm⟩
  rw [List.dropWhile_cons_of_pos h]
  exact List.dropWhile_suffix p

end Runs

/-! ## What a block leaves -/

namespace NodeBuilder

variable {rt : Runtime} {b : NodeBuilder} {line : Text} {lines : List Text}

/-- The row of a table that no table has. -/
def StrayRow (line : Text) (lines : List Text) : Prop :=
  (tableRow line).isSome = true ∧ isTableStart (line :: lines) = false

theorem fence_stray (h : StrayRow line lines) : fence line = none :=
  Option.eq_none_iff_forall_ne_some.2 fun m hm => by
    have hink := firstInk_tableRow h.1
    rcases firstInk_fence hm with hm | hm
    · simp [hm] at hink
    · simp [hm] at hink

theorem rowsInTables_stray (h : StrayRow line lines) : rowsInTables .block (line :: lines) = false := by
  simp [rowsInTables, readsNext, readsNext.atBlock, fence_stray h, h.1, h.2]

/-- The loop stays at a stray row. -/
theorem parseBlock_stray (hrt : rt.DecimalOnly) (h : StrayRow line lines) :
    (parseBlock rt b line lines).2 = line :: lines := by
  have hfence := fence_stray h
  obtain ⟨hrow, hstart⟩ := h
  have hink := firstInk_tableRow hrow
  have hblank : isBlank line = false := Bool.eq_false_iff.2 fun h => by simp [firstInk_blank h] at hink
  have hheading : atxHeading line = none := Option.eq_none_iff_forall_ne_some.2 fun m hm => by
    simp [firstInk_atxHeading hm] at hink
  have hquote : (quoteLine line).isSome = false := Bool.eq_false_iff.2 fun h => by simp [firstInk_quoteLine h] at hink
  have hlist : (rt.listItem line).isSome = false := Bool.eq_false_iff.2 fun h => by
    obtain ⟨c, hc, hkind⟩ := firstInk_listItem h
    obtain rfl : c = '|' := Option.some.inj (hc.symm.trans hink)
    exact (hrt '|' (by simpa using hkind)).1 rfl
  have hmore : rt.isPlainContinuation line = false := by simp [Runtime.isPlainContinuation, hrow]
  simp [parseBlock, hblank, hfence, hheading, hstart, hlist, hquote, emitParagraph, hmore]

/-- At any other line the block takes the line, and leaves lines of which the same holds. -/
theorem parseBlock_rest (hrt : rt.DecimalOnly) (h : ¬ StrayRow line lines) :
    (parseBlock rt b line lines).2 <:+ lines ∧
      rowsInTables .block (parseBlock rt b line lines).2 = rowsInTables .block (line :: lines) := by
  simp only [parseBlock]
  split
  · next hblank =>
    exact ⟨List.suffix_refl _, (rowsInTables_cons_prose (proseLine_of_firstInk (firstInk_blank hblank) (by simp))).symm⟩
  next hblank =>
  split
  · next marker language hfence =>
    refine ⟨(List.drop_suffix _ _).trans (List.dropWhile_suffix _), ?_⟩
    rw [rowsInTables, readsNext, readsNext.atBlock, hfence]
    exact (rowsInTables_code marker).symm
  next hfence =>
  split
  · next hheading =>
    exact ⟨List.suffix_refl _, (rowsInTables_cons_prose (proseLine_of_firstInk (firstInk_atxHeading hheading) (by simp))).symm⟩
  next hheading =>
  split
  · next hstart =>
    cases lines with
    | nil => simp [isTableStart] at hstart
    | cons second rest =>
      refine ⟨(List.dropWhile_suffix _).trans (List.suffix_cons _ _), ?_⟩
      rw [rowsInTables, readsNext, readsNext.atBlock, hfence]
      simp only [hstart, if_true]
      exact rowsInTables_table.symm
  next hstart =>
  split
  · next hlist => exact rest_prose (fun _ => proseLine_listItem hrt) hlist
  next hlist =>
  split
  · next hquote =>
    exact rest_prose (fun _ h => proseLine_of_firstInk (firstInk_quoteLine h) (by simp)) hquote
  next hquote =>
  have hrow : (tableRow line).isSome = false := Bool.eq_false_iff.2 fun hrow => h ⟨hrow, by simpa using hstart⟩
  simp only [emitParagraph]
  refine rest_prose (fun line h => ?_) ?_
  · simp only [Runtime.isPlainContinuation, Bool.and_eq_true, Bool.not_eq_true', Bool.or_eq_false_iff] at h
    exact ⟨by simpa using h.2.1.1.1.2, by simpa using h.2.2⟩
  · simp [Runtime.isPlainContinuation, hblank, hheading, hfence, hlist, hquote, hrow]

/-! ## The loop ends, or stays -/

theorem not_stray (h : rowsInTables .block (line :: lines) = true) : ¬ StrayRow line lines :=
  fun hstray => Bool.false_ne_true ((rowsInTables_stray hstray).symm.trans h)

/-- Where every row is in a table, it is in every state of the loop. -/
theorem rowsInTables_reached (hrt : rt.DecimalOnly) (h : rowsInTables .block lines = true) {b' lines'}
    (hs : Relation.ReflTransGen (LoopStep rt) (b, lines) (b', lines')) : rowsInTables .block lines' = true := by
  generalize hend : (b', lines') = s at hs
  induction hs generalizing b' lines' with
  | refl =>
    cases hend
    exact h
  | tail _ hst ih =>
    cases hst with
    | next b line lines =>
      have hlines := ih rfl
      have hrest := (parseBlock_rest (b := b) hrt (not_stray hlines)).2
      rw [← hend] at hrest
      exact hrest.trans hlines

theorem progress_of_rows (hrt : rt.DecimalOnly) (h : rowsInTables .block lines = true) : b.Progress rt lines := by
  intro b' line rest hs
  have hrows := rowsInTables_reached hrt h hs
  have hsuffix := (parseBlock_rest (b := b') hrt (not_stray hrows)).1
  exact ⟨hsuffix.trans (List.suffix_cons _ _), Nat.lt_succ_of_le hsuffix.length_le⟩

/-- Enough fuel for an iteration a line. -/
theorem parseBlocks_ends (hrt : rt.DecimalOnly) {fuel : Nat} (hfuel : lines.length ≤ fuel)
    (h : rowsInTables .block lines = true) : ∃ b', parseBlocks rt fuel b lines = some b' := by
  induction fuel generalizing b lines with
  | zero =>
    obtain rfl := List.length_eq_zero_iff.1 (Nat.le_zero.1 hfuel)
    exact ⟨b, rfl⟩
  | succ fuel ih =>
    cases lines with
    | nil => exact ⟨b, rfl⟩
    | cons line lines =>
      obtain ⟨hsuffix, hrest⟩ := parseBlock_rest (b := b) hrt (not_stray h)
      rw [parseBlocks_succ]
      exact ih (hsuffix.length_le.trans (Nat.le_of_succ_le_succ hfuel)) (hrest.trans h)

theorem rows_of_progress (hrt : rt.DecimalOnly) (h : b.Progress rt lines) : rowsInTables .block lines = true := by
  generalize hn : lines.length = n
  induction n using Nat.strong_induction_on generalizing b lines with
  | _ n ih =>
    cases lines with
    | nil => rfl
    | cons line lines =>
      have hfirst := h b line lines .refl
      by_cases hstray : StrayRow line lines
      · rw [parseBlock_stray hrt hstray] at hfirst
        exact absurd hfirst.2 (Nat.lt_irrefl _)
      · rw [← (parseBlock_rest (b := b) hrt hstray).2]
        have hrest : (parseBlock rt b line lines).1.Progress rt (parseBlock rt b line lines).2 :=
          fun b' line' rest hs => h b' line' rest (.head (.next b line lines) hs)
        exact ih _ (hn ▸ hfirst.2) hrest rfl

end NodeBuilder

/-- **The parser takes lines off in every iteration, and ends within as many as there are, if and
only if every row of a table outside fenced code is in a table.** -/
theorem parse_progress_iff {rt : Runtime} (hrt : rt.DecimalOnly) (builder : NodeBuilder) (text : Text) :
    (builder.Progress rt (text.splitOn '\n') ∧
      ∃ b, NodeBuilder.parseBlocks rt (text.splitOn '\n').length builder (text.splitOn '\n') = some b) ↔
    rowsInTables .block (text.splitOn '\n') = true :=
  ⟨fun h => NodeBuilder.rows_of_progress hrt h.1,
    fun h => ⟨NodeBuilder.progress_of_rows hrt h, NodeBuilder.parseBlocks_ends hrt (Nat.le_refl _) h⟩⟩

theorem sampleRuntime_decimalOnly : sampleRuntime.DecimalOnly := by
  intro c hc
  refine ⟨?_, ?_, ?_⟩ <;>
    · rintro rfl
      exact absurd hc (by decide)

/-- A table, and a line behind it. -/
theorem parse_progress_table :
    (sampleRuntime.newBuilder 1#128 16).Progress sampleRuntime ("|a|\n|-|\n|b|\nhi".toList.splitOn '\n') ∧
      ∃ b, NodeBuilder.parseBlocks sampleRuntime ("|a|\n|-|\n|b|\nhi".toList.splitOn '\n').length
        (sampleRuntime.newBuilder 1#128 16) ("|a|\n|-|\n|b|\nhi".toList.splitOn '\n') = some b :=
  (parse_progress_iff sampleRuntime_decimalOnly (sampleRuntime.newBuilder 1#128 16) "|a|\n|-|\n|b|\nhi".toList).2
    (by decide)

/-- A row alone: the loop stays at it. -/
theorem parse_stays_at_row :
    ¬ ∀ (rt : Runtime) (builder : NodeBuilder) (text : Text), rt.DecimalOnly → builder.Progress rt (text.splitOn '\n') ∧
      ∃ b, NodeBuilder.parseBlocks rt (text.splitOn '\n').length builder (text.splitOn '\n') = some b := by
  intro h
  obtain ⟨b, hb⟩ := (h sampleRuntime (sampleRuntime.newBuilder 1#128 3) "|a|".toList sampleRuntime_decimalOnly).2
  have hnone : NodeBuilder.parseBlocks sampleRuntime ("|a|".toList.splitOn '\n').length
      (sampleRuntime.newBuilder 1#128 3) ("|a|".toList.splitOn '\n') = none := rfl
  rw [hnone] at hb
  cases hb

end MilpbookLM
