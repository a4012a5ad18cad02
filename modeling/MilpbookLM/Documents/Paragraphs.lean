/-
The paragraphs of a plain text against its blocks, the stretches between blank
lines. Whatever the text, the paragraphs are disjoint slices of it that start and
end on ink, cover all of it, and have a blank line between them. They are the blocks
exactly when every block that another follows has two characters of ink at least and
no space after its last (`paragraphs_are_blocks`): the pattern tries its tail before
it tries to close, and closes at a newline only.
-/
import Mathlib.Data.List.Chain
import Mathlib.Data.List.TakeWhile
import MilpbookLM.Documents.Coordinates

namespace MilpbookLM

/-- `\n\s*\n` is found in the text. -/
def hasBlankLine : Text → Bool
  | [] => false
  | c :: t => (c == '\n' && (t.takeWhile isSpace).contains '\n') || hasBlankLine t

/-- The text from one place to another. -/
def slice (text : Text) (start stop : Nat) : Text := (text.drop start).take (stop - start)

/-- A character that is no whitespace stands there. -/
def InkAt (text : Text) (i : Nat) : Prop := ∃ c, text[i]? = some c ∧ isSpace c = false

def CanonicalNode.Spans (node : CanonicalNode) (start stop : Nat) : Prop :=
  node.locator.charStart = some start ∧ node.locator.charEnd = some stop

/-- The nodes are the blocks of the text that blank lines separate. -/
structure BlankLineBlocks (text : Text) (nodes : List CanonicalNode) : Prop where
  spans : ∀ node ∈ nodes, ∃ start stop, node.Spans start stop ∧ start < stop ∧
    node.text = some (slice text start stop) ∧ InkAt text start ∧ InkAt text (stop - 1)
  increasing : nodes.Pairwise fun m n => ∀ a b c d, m.Spans a b → n.Spans c d → b ≤ c
  covers : ∀ i, InkAt text i → ∃ node ∈ nodes, ∃ start stop, node.Spans start stop ∧ start ≤ i ∧ i < stop
  unbroken : ∀ node ∈ nodes, hasBlankLine node.textOrEmpty = false
  separated : nodes.IsChain fun m n => ∀ a b c d, m.Spans a b → n.Spans c d → hasBlankLine (slice text b c) = true

/-- A blank line comes next, and more of the text after it. -/
def endsBlock (rest : Text) : Bool := !isBlank rest && hasBlankLine (rest.takeWhile isSpace)

/-- Every blank line starts right after a block, and after one of more than one character of ink; `opens`: none
of the block was read yet. -/
def blocksClose : Bool → Text → Bool
  | _, [] => true
  | opens, c :: t =>
    if isSpace c then blocksClose opens t
    else if endsBlock t then (t.head? == some '\n' && !opens) && blocksClose true t
    else blocksClose false t

/-! ## Blank lines -/

theorem ne_newline {c : Char} (h : isSpace c = false) : c ≠ '\n' := by
  intro he
  subst he
  cases h

theorem hasBlankLine_cons {c : Char} {t : Text} (h : c ≠ '\n') : hasBlankLine (c :: t) = hasBlankLine t := by
  simp [hasBlankLine, h]

theorem mem_takeWhile_append {s t : Text} {p : Char → Bool} {x : Char} (h : x ∈ s.takeWhile p) :
    x ∈ (s ++ t).takeWhile p := by
  induction s with
  | nil => cases h
  | cons c s ih =>
    rw [List.cons_append]
    cases hc : p c <;> simp only [List.takeWhile_cons, hc, if_true, List.mem_cons] at h ⊢
    · cases h
    · exact h.imp_right ih

theorem hasBlankLine_append {s t : Text} (h : hasBlankLine s = true) : hasBlankLine (s ++ t) = true := by
  induction s with
  | nil => cases h
  | cons c s ih =>
    simp only [hasBlankLine, Bool.or_eq_true, Bool.and_eq_true, List.cons_append, List.contains_iff_mem] at h ⊢
    exact h.imp (And.imp_right mem_takeWhile_append) ih

theorem newline_mem {s : Text} (h : hasBlankLine s = true) : '\n' ∈ s := by
  induction s with
  | nil => cases h
  | cons c s ih =>
    simp only [hasBlankLine, Bool.or_eq_true, Bool.and_eq_true, beq_iff_eq] at h
    rcases h with ⟨rfl, -⟩ | h
    · exact List.mem_cons_self
    · exact List.mem_cons_of_mem _ (ih h)

/-- In a run of spaces that a newline starts, a blank line is another newline. -/
theorem hasBlankLine_newline (t : Text) :
    hasBlankLine ('\n' :: t.takeWhile isSpace) = (t.takeWhile isSpace).contains '\n' := by
  cases hb : (t.takeWhile isSpace).contains '\n' with
  | true => simp only [hasBlankLine, List.takeWhile_idem, hb, beq_self_eq_true, Bool.and_self, Bool.true_or]
  | false =>
    have hrest : hasBlankLine (t.takeWhile isSpace) = false := by
      refine Bool.eq_false_iff.2 fun h => ?_
      rw [List.contains_iff_mem.2 (newline_mem h)] at hb
      cases hb
    simp only [hasBlankLine, List.takeWhile_idem, hb, hrest, Bool.and_false, Bool.or_self]

/-- The end of a paragraph that is not the end of the text: a blank line, at once. -/
theorem closesParagraph_iff {t : Text} (h : isBlank t = false) :
    closesParagraph t = true ↔ endsBlock t = true ∧ t.head? = some '\n' := by
  cases t with
  | nil => cases h
  | cons c t =>
    by_cases hc : c = '\n'
    · subst hc
      have hgap : ('\n' :: t).takeWhile isSpace = '\n' :: t.takeWhile isSpace := rfl
      simp [closesParagraph, endsBlock, h, hgap, hasBlankLine_newline]
    · simp [closesParagraph, h, hc]

theorem endsBlock_blank {t : Text} (h : isBlank t = true) : endsBlock t = false := by simp [endsBlock, h]

theorem blocksClose_blank {t : Text} (h : isBlank t = true) (opens : Bool) : blocksClose opens t = true := by
  induction t with
  | nil => rfl
  | cons c t ih =>
    simp only [isBlank, List.all_cons, Bool.and_eq_true] at h
    simpa only [blocksClose, h.1, if_true] using ih h.2

/-! ## The tail of a match -/

theorem shortestTail_ink {t : Text} {n : Nat} (h : shortestTail t = some n) :
    ∃ body c, t.take n = body ++ [c] ∧ isSpace c = false ∧ n = body.length + 1 := by
  induction t generalizing n with
  | nil => cases h
  | cons c t ih =>
    simp only [shortestTail] at h
    split at h
    · next hc =>
      cases h
      rw [Bool.and_eq_true, Bool.not_eq_true'] at hc
      exact ⟨[], c, rfl, hc.1, rfl⟩
    · obtain ⟨m, hm, rfl⟩ := Option.map_eq_some_iff.1 h
      obtain ⟨body, d, htake, hd, hlen⟩ := ih hm
      exact ⟨c :: body, d, by rw [List.take_succ_cons, htake]; rfl, hd, by rw [hlen]; rfl⟩

theorem shortestTail_le {t : Text} {n : Nat} (h : shortestTail t = some n) : n ≤ t.length := by
  obtain ⟨body, c, htake, -, hn⟩ := shortestTail_ink h
  have hlen := congrArg List.length htake
  rw [List.length_take, List.length_append, List.length_singleton] at hlen
  omega

theorem not_blank_of_tail {t : Text} {n : Nat} (h : shortestTail t = some n) : isBlank t = false := by
  obtain ⟨body, c, htake, hc, -⟩ := shortestTail_ink h
  have hmem : c ∈ t := List.mem_of_mem_take (htake ▸ List.mem_append_right body List.mem_cons_self)
  exact Bool.eq_false_iff.2 fun hblank => by simp [List.all_eq_true.1 hblank c hmem] at hc

/-- The tail has all the space it starts with. -/
theorem takeWhile_tail {t : Text} {n : Nat} (h : shortestTail t = some n) :
    (t.take n).takeWhile isSpace = t.takeWhile isSpace := by
  induction t generalizing n with
  | nil => cases h
  | cons c t ih =>
    simp only [shortestTail] at h
    split at h
    · next hc =>
      cases h
      simp only [Bool.and_eq_true, Bool.not_eq_true'] at hc
      simp [hc.1]
    · obtain ⟨m, hm, rfl⟩ := Option.map_eq_some_iff.1 h
      simp [List.takeWhile_cons, ih hm]

/-- A tail past the end of a block has a blank line. -/
theorem hasBlankLine_tail {t : Text} {n : Nat} (h : shortestTail t = some n) (hends : endsBlock t = true) :
    hasBlankLine (t.take n) = true := by
  have hgap : (t.take n).takeWhile isSpace ++ (t.take n).dropWhile isSpace = t.take n := List.takeWhile_append_dropWhile
  rw [← hgap, takeWhile_tail h]
  exact hasBlankLine_append (Bool.and_eq_true_iff.1 hends).2

/-- **In a block that does not end with its first character, the tail ends with the block exactly when the block
closes.** -/
theorem tail_unbroken_iff {t : Text} {n : Nat} (h : shortestTail t = some n) (hends : endsBlock t = false) :
    hasBlankLine (t.take n) = false ∧ blocksClose true (t.drop n) = true ↔ blocksClose false t = true := by
  induction t generalizing n with
  | nil => cases h
  | cons c t ih =>
    simp only [shortestTail] at h
    split at h
    · next hc =>
      cases h
      rw [Bool.and_eq_true, Bool.not_eq_true'] at hc
      have hone : hasBlankLine [c] = false := hasBlankLine_cons (ne_newline hc.1)
      cases hblank : isBlank t with
      | true => simp [blocksClose, hc.1, endsBlock_blank hblank, blocksClose_blank hblank, hone]
      | false =>
        obtain ⟨he, hhead⟩ := (closesParagraph_iff hblank).1 hc.2
        simp [blocksClose, hc.1, he, hhead, hone]
    · next hnot =>
      obtain ⟨m, hm, rfl⟩ := Option.map_eq_some_iff.1 h
      have hblank := not_blank_of_tail hm
      simp only [List.take_succ_cons, List.drop_succ_cons]
      cases hc : isSpace c with
      | true =>
        -- the space goes on, and is as far as the block is concerned what follows it
        simp only [endsBlock, isBlank, List.all_cons, hc, Bool.true_and, List.takeWhile_cons, if_true] at hends
        rw [show t.all isSpace = false from hblank, Bool.not_false, Bool.true_and] at hends
        have hgap : hasBlankLine (c :: t.take m) = hasBlankLine (t.take m) := by
          simp only [hasBlankLine, List.takeWhile_idem, Bool.or_eq_false_iff] at hends
          simp only [hasBlankLine, takeWhile_tail hm, hends.1, Bool.false_or]
        have hend : endsBlock t = false := by
          simp only [hasBlankLine, Bool.or_eq_false_iff] at hends
          simp [endsBlock, hends.2]
        simpa only [blocksClose, hc, if_true, hgap] using ih hm hend
      | false =>
        have hopen : closesParagraph t = false := by simpa [hc] using hnot
        rw [hasBlankLine_cons (ne_newline hc)]
        cases he : endsBlock t with
        | true =>
          have hhead : t.head? ≠ some '\n' := fun hhead => by
            simp [(closesParagraph_iff hblank).2 ⟨he, hhead⟩] at hopen
          simp [blocksClose, hc, he, hhead, hasBlankLine_tail hm he]
        | false => simpa only [blocksClose, hc, Bool.false_eq_true, if_false, he] using ih hm he

/-! ## All matches -/

theorem finditer_skip (skip pos : Nat) (t : Text) : finditer skip pos t = finditer 0 (pos + skip) (t.drop skip) := by
  induction t generalizing skip pos with
  | nil => cases skip <;> rfl
  | cons c t ih =>
    cases skip with
    | zero => rfl
    | succ skip => rw [finditer, ih skip (pos + 1), List.drop_succ_cons, Nat.add_right_comm, Nat.add_assoc]

/-- What holds of an empty text, and of one more space or match before it, holds of every text. -/
theorem finditer_induction {P : Nat → Text → List Paragraph → Prop} (nil : ∀ pos, P pos [] [])
    (space : ∀ pos c t, isSpace c = true → P (pos + 1) t (finditer 0 (pos + 1) t) →
      P pos (c :: t) (finditer 0 (pos + 1) t))
    (last : ∀ pos c t, isSpace c = false → isBlank t = true → P pos (c :: t) [⟨pos, [c]⟩])
    (tail : ∀ pos c t n, isSpace c = false → shortestTail t = some n →
      P (pos + 1 + n) (t.drop n) (finditer 0 (pos + 1 + n) (t.drop n)) →
      P pos (c :: t) (⟨pos, c :: t.take n⟩ :: finditer 0 (pos + 1 + n) (t.drop n)))
    (pos : Nat) (t : Text) : P pos t (finditer 0 pos t) := by
  induction hlen : t.length using Nat.strong_induction_on generalizing pos t with
  | _ k ih =>
    cases t with
    | nil => exact nil pos
    | cons c t =>
      have hlt : t.length < k := by simp [← hlen]
      cases hc : isSpace c with
      | true => simpa only [finditer, hc, if_true] using space pos c t hc (ih _ hlt _ _ rfl)
      | false =>
        simp only [finditer, hc, Bool.false_eq_true, if_false]
        cases hn : shortestTail t with
        | some n =>
          have hdrop : (t.drop n).length < k := by
            rw [List.length_drop]
            omega
          simpa only [finditer_skip n] using tail pos c t n hc hn (ih _ hdrop _ _ rfl)
        | none =>
          have hblank := shortestTail_none hn
          have hcloses : closesParagraph t = true := by simp [closesParagraph, hblank]
          simpa only [hcloses, if_true, finditer_blank hblank] using last pos c t hc hblank

/-- **No paragraph has a blank line exactly when the blocks close.** -/
theorem unbroken_iff (text : Text) :
    (∀ p ∈ paragraphs text, hasBlankLine p.text = false) ↔ blocksClose true text = true := by
  refine @finditer_induction (fun _ t ps => (∀ p ∈ ps, hasBlankLine p.text = false) ↔ blocksClose true t = true)
    ?_ ?_ ?_ ?_ 0 text
  · intro pos
    simp [blocksClose]
  · intro pos c t hc ih
    simpa only [blocksClose, hc, if_true] using ih
  · intro pos c t hc hblank
    have hone : hasBlankLine [c] = false := hasBlankLine_cons (ne_newline hc)
    simp [blocksClose, hc, endsBlock_blank hblank, blocksClose_blank hblank, hone]
  · intro pos c t n hc hn ih
    rw [List.forall_mem_cons, ih, hasBlankLine_cons (ne_newline hc)]
    cases he : endsBlock t with
    | true => simp [blocksClose, hc, he, hasBlankLine_tail hn he]
    | false => simpa only [blocksClose, hc, Bool.false_eq_true, if_false, he] using tail_unbroken_iff hn he

/-- A match is a piece of the text, with ink at both its ends. -/
theorem finditer_piece {p : Paragraph} {pos : Nat} {t : Text} (h : p ∈ finditer 0 pos t) :
    ∃ before after, t = before ++ p.text ++ after ∧ p.start = pos + before.length ∧
      (∃ c, p.text.head? = some c ∧ isSpace c = false) ∧ ∃ c, p.text.getLast? = some c ∧ isSpace c = false := by
  revert p
  refine @finditer_induction (fun pos t ps => ∀ {p}, p ∈ ps → ∃ before after, t = before ++ p.text ++ after ∧
    p.start = pos + before.length ∧ (∃ c, p.text.head? = some c ∧ isSpace c = false) ∧
      ∃ c, p.text.getLast? = some c ∧ isSpace c = false) ?_ ?_ ?_ ?_ pos t
  · intro pos p hp
    cases hp
  · intro pos c t _ ih p hp
    obtain ⟨before, after, ht, hstart, hink⟩ := ih hp
    exact ⟨c :: before, after, by rw [ht]; rfl, by rw [hstart, List.length_cons]; omega, hink⟩
  · intro pos c t hc _ p hp
    obtain rfl := List.mem_singleton.1 hp
    exact ⟨[], t, rfl, rfl, ⟨c, rfl, hc⟩, ⟨c, rfl, hc⟩⟩
  · intro pos c t n hc hn ih p hp
    obtain ⟨body, d, htake, hd, hlen⟩ := shortestTail_ink hn
    rcases List.mem_cons.1 hp with rfl | hp
    · refine ⟨[], t.drop n, by simp, rfl, ⟨c, rfl, hc⟩, ⟨d, ?_, hd⟩⟩
      simp [htake, List.getLast?_cons]
    · obtain ⟨before, after, ht, hstart, hink⟩ := ih hp
      refine ⟨c :: (t.take n ++ before), after, ?_, ?_, hink⟩
      · rw [List.cons_append, List.cons_append, List.append_assoc, List.append_assoc, ← List.append_assoc before,
          ← ht, List.take_append_drop]
      · have htaken : (t.take n).length = n := by rw [htake, hlen]; simp
        rw [hstart, List.length_cons, List.length_append, htaken]
        omega

theorem finditer_increasing (pos : Nat) (t : Text) :
    (finditer 0 pos t).Pairwise fun p q => p.stop ≤ q.start := by
  refine @finditer_induction (fun _ _ ps => ps.Pairwise fun p q => p.stop ≤ q.start) ?_ ?_ ?_ ?_ pos t
  · exact fun _ => .nil
  · exact fun _ _ _ _ ih => ih
  · exact fun _ _ _ _ _ => List.pairwise_singleton _ _
  · intro pos c t n _ hn ih
    refine .cons (fun q hq => ?_) ih
    have hstart := le_start_of_mem_finditer hq
    simp only [Paragraph.stop, List.length_cons, List.length_take, Nat.min_eq_left (shortestTail_le hn)]
    omega

/-- All ink is in a match. -/
theorem finditer_covers {pos : Nat} {t : Text} {i : Nat} (h : InkAt t i) :
    ∃ p ∈ finditer 0 pos t, p.start ≤ pos + i ∧ pos + i < p.stop := by
  revert i
  refine @finditer_induction (fun pos t ps => ∀ {i}, InkAt t i → ∃ p ∈ ps, p.start ≤ pos + i ∧ pos + i < p.stop)
    ?_ ?_ ?_ ?_ pos t
  · rintro pos i ⟨c, hc, -⟩
    cases hc
  · rintro pos c t hc ih (_ | i) ⟨d, hd, hink⟩
    · cases hd
      simp [hc] at hink
    · obtain ⟨p, hp, hstart, hstop⟩ := ih ⟨d, hd, hink⟩
      exact ⟨p, hp, by omega, by omega⟩
  · rintro pos c t - hblank (_ | i) ⟨d, hd, hink⟩
    · exact ⟨_, List.mem_cons_self, Nat.le_refl _, by simp [Paragraph.stop]⟩
    · have hmem : d ∈ t := List.mem_of_getElem? hd
      simp [List.all_eq_true.1 hblank d hmem] at hink
  · rintro pos c t n - hn ih i ⟨d, hd, hink⟩
    have hle := shortestTail_le hn
    by_cases hi : i ≤ n
    · refine ⟨_, List.mem_cons_self, Nat.le_add_right _ _, ?_⟩
      simp only [Paragraph.stop, List.length_cons, List.length_take, Nat.min_eq_left hle]
      omega
    · obtain ⟨k, rfl⟩ := Nat.exists_eq_add_of_lt (Nat.lt_of_not_le hi)
      have hk : InkAt (t.drop n) k := ⟨d, by rw [List.getElem?_drop]; exact hd, hink⟩
      obtain ⟨p, hp, hstart, hstop⟩ := ih hk
      exact ⟨p, List.mem_cons_of_mem _ hp, by omega, by omega⟩

/-- The first match starts where the space at the front ends. -/
theorem finditer_head {q : Paragraph} {pos : Nat} {t : Text} (h : q ∈ (finditer 0 pos t).head?) :
    q.start = pos + (t.takeWhile isSpace).length ∧ isBlank t = false := by
  revert q
  refine @finditer_induction (fun pos t ps => ∀ {q}, q ∈ ps.head? →
    q.start = pos + (t.takeWhile isSpace).length ∧ isBlank t = false) ?_ ?_ ?_ ?_ pos t
  · intro pos q hq
    cases hq
  · intro pos c t hc ih q hq
    obtain ⟨hstart, hblank⟩ := ih hq
    refine ⟨?_, ?_⟩
    · simp only [List.takeWhile_cons, hc, if_true, List.length_cons]
      omega
    · simpa only [isBlank, List.all_cons, hc, Bool.true_and] using hblank
  · intro pos c t hc _ q hq
    cases hq
    simp [hc, isBlank]
  · intro pos c t n hc _ _ q hq
    cases hq
    simp [hc, isBlank]

/-- A blank line lies between two matches. -/
theorem finditer_separated (pos : Nat) (t : Text) : ∀ before : Text, before.length = pos →
    (finditer 0 pos t).IsChain fun p q => hasBlankLine (slice (before ++ t) p.stop q.start) = true := by
  refine @finditer_induction (fun pos t ps => ∀ before : Text, before.length = pos →
    ps.IsChain fun p q => hasBlankLine (slice (before ++ t) p.stop q.start) = true) ?_ ?_ ?_ ?_ pos t
  · exact fun _ _ _ => .nil
  · intro pos c t _ ih before hlen
    have h := ih (before ++ [c]) (by simp [hlen])
    rwa [List.append_assoc] at h
  · exact fun _ _ _ _ _ _ _ => .singleton _
  · intro pos c t n _ hn ih before hlen
    have hle := shortestTail_le hn
    have htext : before ++ c :: t = (before ++ c :: t.take n) ++ t.drop n := by simp
    have hfront : (before ++ c :: t.take n).length = pos + 1 + n := by
      simp only [List.length_append, List.length_cons, List.length_take, Nat.min_eq_left hle, hlen]
      omega
    refine List.isChain_cons.2 ⟨fun q hq => ?_, htext ▸ ih _ hfront⟩
    obtain ⟨hstart, hblank⟩ := finditer_head hq
    have hstop : (⟨pos, c :: t.take n⟩ : Paragraph).stop = pos + 1 + n := by
      simp only [Paragraph.stop, List.length_cons, List.length_take, Nat.min_eq_left hle]
      omega
    have hgap : slice (before ++ c :: t) (pos + 1 + n) q.start = (t.drop n).takeWhile isSpace := by
      rw [slice, htext, List.drop_left' hfront, hstart, Nat.add_sub_cancel_left]
      exact (List.prefix_iff_eq_take.1 (List.takeWhile_prefix _)).symm
    rw [hstop, hgap]
    exact (Bool.and_eq_true_iff.1 ((closesParagraph_iff hblank).1 (shortestTail_some hn)).1).2

/-! ## parse_text -/

theorem slice_piece {text before piece after : Text} (h : text = before ++ piece ++ after) :
    slice text before.length (before.length + piece.length) = piece := by
  simp [slice, h]

namespace Runtime

variable {rt : Runtime} {documentId : Uuid}

theorem paragraphNodes_eq (number : Nat) (ps : List Paragraph) :
    rt.paragraphNodes documentId number ps = (ps.zipIdx number).map fun p => rt.paragraphNode documentId p.2 p.1 := by
  induction ps generalizing number with
  | nil => rfl
  | cons p ps ih => rw [paragraphNodes, ih, List.zipIdx_cons, List.map_cons]

theorem spans_paragraphNode {k : Nat} {p : Paragraph} {start stop : Nat} :
    (rt.paragraphNode documentId k p).Spans start stop ↔ p.start = start ∧ p.stop = stop := by
  simp [CanonicalNode.Spans, paragraphNode]

theorem exists_paragraphNode {p : Paragraph} {ps : List Paragraph} (number : Nat) (h : p ∈ ps) :
    ∃ k, rt.paragraphNode documentId k p ∈ rt.paragraphNodes documentId number ps := by
  rw [← List.zipIdx_map_fst number ps] at h
  obtain ⟨x, hx, rfl⟩ := List.mem_map.1 h
  exact ⟨x.2, by rw [paragraphNodes_eq]; exact List.mem_map_of_mem hx⟩

/-- **The paragraph nodes are the blocks exactly when these close.** -/
theorem blankLineBlocks_iff (text : Text) :
    BlankLineBlocks text (rt.paragraphNodes documentId 1 (paragraphs text)) ↔ blocksClose true text = true := by
  rw [← unbroken_iff]
  refine ⟨fun h p hp => ?_, fun h => ⟨fun node hn => ?_, ?_, fun i hi => ?_, fun node hn => ?_, ?_⟩⟩
  · obtain ⟨k, hk⟩ := @exists_paragraphNode rt documentId p _ 1 hp
    exact h.unbroken _ hk
  · obtain ⟨k, p, -, hp, rfl⟩ := mem_paragraphNodes hn
    obtain ⟨before, after, htext, hstart, ⟨c, hhead, hc⟩, d, hlast, hd⟩ := finditer_piece hp
    obtain ⟨w, hw⟩ := List.head?_eq_some_iff.1 hhead
    have hlen : p.text.length = w.length + 1 := by rw [hw]; rfl
    rw [Nat.zero_add] at hstart
    refine ⟨p.start, p.stop, spans_paragraphNode.2 ⟨rfl, rfl⟩, ?_, ?_, ⟨c, ?_, hc⟩, ⟨d, ?_, hd⟩⟩
    · simp only [Paragraph.stop, hlen]
      omega
    · rw [Paragraph.stop, hstart, slice_piece htext]
      rfl
    · rw [htext, hstart, List.append_assoc, List.getElem?_append_right (Nat.le_refl _), Nat.sub_self, hw]
      rfl
    · rw [List.getLast?_eq_getElem?] at hlast
      have hplace : p.stop - 1 = before.length + (p.text.length - 1) := by
        simp only [Paragraph.stop, hlen, hstart]
        omega
      rw [hplace, htext, List.append_assoc, List.getElem?_append_right (Nat.le_add_right _ _), Nat.add_sub_cancel_left,
        List.getElem?_append_left (by omega), hlast]
  · rw [paragraphNodes_eq, List.pairwise_map]
    have hps := finditer_increasing 0 text
    rw [← paragraphs, ← List.zipIdx_map_fst 1 (paragraphs text), List.pairwise_map] at hps
    refine hps.imp fun {m n} hmn a b c d hm hn => ?_
    rw [← (spans_paragraphNode.1 hm).2, ← (spans_paragraphNode.1 hn).1]
    exact hmn
  · obtain ⟨p, hp, hstart, hstop⟩ := @finditer_covers 0 text i hi
    obtain ⟨k, hk⟩ := @exists_paragraphNode rt documentId p _ 1 hp
    rw [Nat.zero_add] at hstart hstop
    exact ⟨_, hk, p.start, p.stop, spans_paragraphNode.2 ⟨rfl, rfl⟩, hstart, hstop⟩
  · obtain ⟨k, p, -, hp, rfl⟩ := mem_paragraphNodes hn
    exact h p hp
  · rw [paragraphNodes_eq, List.isChain_map]
    have hps := finditer_separated 0 text [] rfl
    rw [List.nil_append, ← paragraphs, ← List.zipIdx_map_fst 1 (paragraphs text), List.isChain_map] at hps
    refine hps.imp fun m n hmn a b c d hm hn => ?_
    rw [← (spans_paragraphNode.1 hm).2, ← (spans_paragraphNode.1 hn).1]
    exact hmn

/-- **The paragraphs of a plain text are its blocks exactly when every block that another follows has more than
one character of ink and a newline right after it.** -/
theorem paragraphs_are_blocks {sourceVersionId : Uuid} {data : List UInt8} {text : Text}
    (h : rt.plainText data = some text) : ∃ document, rt.parseText sourceVersionId data = some document ∧
      (BlankLineBlocks text (document.nodes.filter (·.kind = .paragraph)) ↔ blocksClose true text = true) := by
  refine ⟨_, by rw [parseText, h]; rfl, ?_⟩
  rw [← @blankLineBlocks_iff rt (rt.canonicalDocumentId sourceVersionId rt.textParser) text]
  have hparagraphs : (rt.textDocument sourceVersionId text).nodes.filter (·.kind = .paragraph) =
      rt.paragraphNodes (rt.canonicalDocumentId sourceVersionId rt.textParser) 1 (paragraphs text) := by
    refine (List.filter_cons_of_neg (by simp [documentNode])).trans (List.filter_eq_self.2 fun node hn => ?_)
    obtain ⟨k, p, -, -, rfl⟩ := mem_paragraphNodes hn
    rfl
  rw [hparagraphs]

/-- The two blocks of `ab`, a blank line and `c`. -/
theorem paragraphs_are_blocks_two : ∃ document,
    sampleRuntime.parseText 1#128 [0x61, 0x62, 0x0A, 0x0A, 0x63] = some document ∧
    (BlankLineBlocks ['a', 'b', '\n', '\n', 'c'] (document.nodes.filter (·.kind = .paragraph)) ↔
      blocksClose true ['a', 'b', '\n', '\n', 'c'] = true) :=
  paragraphs_are_blocks (by decide)

end Runtime

/-- A block of one character, and one with a space after it: each takes the next block along. -/
theorem blank_line_inside :
    (∃ document, sampleRuntime.parseText 1#128 [0x61, 0x0A, 0x0A, 0x62] = some document ∧
      ¬ BlankLineBlocks ['a', '\n', '\n', 'b'] (document.nodes.filter (·.kind = .paragraph))) ∧
    ∃ document, sampleRuntime.parseText 1#128 [0x61, 0x62, 0x20, 0x0A, 0x0A, 0x63] = some document ∧
      ¬ BlankLineBlocks ['a', 'b', ' ', '\n', '\n', 'c'] (document.nodes.filter (·.kind = .paragraph)) :=
  ⟨⟨_, rfl, fun h => absurd (h.unbroken _ List.mem_cons_self) (by decide)⟩,
    _, rfl, fun h => absurd (h.unbroken _ List.mem_cons_self) (by decide)⟩

end MilpbookLM
