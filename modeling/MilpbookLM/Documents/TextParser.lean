/-
The plain-text parser. A paragraph is a match of `\S(?:.*?\S)?(?=\n\s*\n|\s*\Z)`,
and its locator is the place of the match in the whole text.

`estimateTokens_paragraphs`: the paragraphs have all words of the text.
`paragraphs_head`: the first of them starts the text unless a space does, and no
other does.
-/
import MilpbookLM.Documents.TextCodec

namespace MilpbookLM

/-! ## Paragraphs -/

/-- `(?=\n\s*\n|\s*\Z)`. -/
def closesParagraph (rest : Text) : Bool :=
  isBlank rest || match rest with
    | '\n' :: rest => (rest.takeWhile isSpace).contains '\n'
    | _ => false

/-- What `.*?\S` takes before the end of a paragraph. -/
def shortestTail : Text → Option Nat
  | [] => none
  | c :: t => if !isSpace c && closesParagraph t then some 1 else (shortestTail t).map (· + 1)

/-- A match: where it starts, and its text. -/
structure Paragraph where
  start : Nat
  text : Text
  deriving DecidableEq

/-- Where it ends. -/
def Paragraph.stop (p : Paragraph) : Nat := p.start + p.text.length

/-- `_PARAGRAPH.finditer`, at a position, with the first `skip` characters matched already. -/
def finditer : Nat → Nat → Text → List Paragraph
  | _, _, [] => []
  | skip + 1, pos, _ :: t => finditer skip (pos + 1) t
  | 0, pos, c :: t =>
    if isSpace c then finditer 0 (pos + 1) t
    else match shortestTail t with
      | some n => ⟨pos, c :: t.take n⟩ :: finditer n (pos + 1) t
      | none => if closesParagraph t then ⟨pos, [c]⟩ :: finditer 0 (pos + 1) t else finditer 0 (pos + 1) t

def paragraphs (text : Text) : List Paragraph := finditer 0 0 text

/-! ## parse_text -/

namespace Runtime

variable (rt : Runtime)

def textParser : ParserDescriptor where
  identity := "milpbooklm.text"
  version := "1"
  profile := "text-paragraphs-v1"
  toolVersions := rt.toolVersions

/-- The text of the bytes, as the parser reads it. -/
def plainText (data : List UInt8) : Option Text := (decodeUtf8 data).map fun text => rt.nfc (replaceCrLf text)

def documentNode (documentId : Uuid) (textLength : Nat) : CanonicalNode where
  nodeId := rt.canonicalNodeId documentId "document"
  kind := .document
  structuralIdentity := "document"
  parentId := none
  childOrder := 0
  text := none
  locator := { path := ["document"], charStart := some 0, charEnd := some textLength }

def paragraphNode (documentId : Uuid) (number : Nat) (p : Paragraph) : CanonicalNode where
  nodeId := rt.canonicalNodeId documentId ("paragraph:" ++ toString number)
  kind := .paragraph
  structuralIdentity := "paragraph:" ++ toString number
  parentId := some (rt.canonicalNodeId documentId "document")
  childOrder := number
  text := some p.text
  locator := { path := ["document", "paragraph", toString number], charStart := some p.start, charEnd := some p.stop }

/-- The nodes of the paragraphs from `number` on. -/
def paragraphNodes (documentId : Uuid) : Nat → List Paragraph → List CanonicalNode
  | _, [] => []
  | number, p :: ps => rt.paragraphNode documentId number p :: paragraphNodes documentId (number + 1) ps

/-- The document of a text. -/
def textDocument (sourceVersionId : Uuid) (text : Text) : CanonicalDocument :=
  let documentId := rt.canonicalDocumentId sourceVersionId rt.textParser
  { documentId
    sourceVersionId
    mimeType := "text/plain"
    parser := rt.textParser
    languages := []
    metadata := [("normalization", .str "NFC+LF")]
    rootNodeIds := [rt.canonicalNodeId documentId "document"]
    nodes := rt.documentNode documentId text.length :: rt.paragraphNodes documentId 1 (paragraphs text) }

def parseText (sourceVersionId : Uuid) (data : List UInt8) : Option CanonicalDocument :=
  (rt.plainText data).map (rt.textDocument sourceVersionId)

end Runtime

/-! ## What the matches are -/

theorem breaksWord_of_closes {rest : Text} (h : closesParagraph rest = true) : breaksWord rest = true := by
  cases rest with
  | nil => rfl
  | cons c rest =>
    simp only [closesParagraph, Bool.or_eq_true] at h
    rcases h with h | h
    · simp only [isBlank, List.all_cons, Bool.and_eq_true] at h
      exact h.1
    · split at h
      · next he =>
        cases he
        rfl
      · cases h

theorem shortestTail_some {t : Text} {n : Nat} (h : shortestTail t = some n) : closesParagraph (t.drop n) = true := by
  induction t generalizing n with
  | nil => cases h
  | cons c t ih =>
    simp only [shortestTail] at h
    split at h
    · next hc =>
      cases h
      exact (Bool.and_eq_true_iff.1 hc).2
    · obtain ⟨m, hm, rfl⟩ := Option.map_eq_some_iff.1 h
      exact ih hm

theorem shortestTail_none {t : Text} (h : shortestTail t = none) : isBlank t = true := by
  induction t with
  | nil => rfl
  | cons c t ih =>
    simp only [shortestTail] at h
    split at h
    · cases h
    · next hc =>
      have ht := ih (Option.map_eq_none_iff.1 h)
      simp only [closesParagraph, ht, Bool.true_or, Bool.and_true, Bool.not_eq_true, Bool.not_eq_false'] at hc
      simpa [isBlank, hc] using ht

theorem finditer_blank {t : Text} {skip pos : Nat} (h : isBlank t = true) : finditer skip pos t = [] := by
  induction t generalizing skip pos with
  | nil => cases skip <;> rfl
  | cons c t ih =>
    simp only [isBlank, List.all_cons, Bool.and_eq_true] at h
    cases skip with
    | zero => simpa only [finditer, h.1, if_true] using ih h.2
    | succ skip => exact ih h.2

theorem le_start_of_mem_finditer {t : Text} {skip pos : Nat} {p : Paragraph} (h : p ∈ finditer skip pos t) :
    pos ≤ p.start := by
  induction t generalizing skip pos with
  | nil => cases skip <;> cases h
  | cons c t ih =>
    have hrest : ∀ {skip}, p ∈ finditer skip (pos + 1) t → pos ≤ p.start := fun h => (Nat.le_succ pos).trans (ih h)
    cases skip with
    | succ skip => exact hrest h
    | zero =>
      simp only [finditer] at h
      split at h
      · exact hrest h
      · split at h
        · rcases List.mem_cons.1 h with rfl | h
          · exact Nat.le_refl _
          · exact hrest h
        · split at h
          · rcases List.mem_cons.1 h with rfl | h
            · exact Nat.le_refl _
            · exact hrest h
          · exact hrest h

theorem isBlank_of_mem_finditer {t : Text} {skip pos : Nat} {p : Paragraph} (h : p ∈ finditer skip pos t) :
    isBlank p.text = false := by
  induction t generalizing skip pos with
  | nil => cases skip <;> cases h
  | cons c t ih =>
    cases skip with
    | succ skip => exact ih h
    | zero =>
      simp only [finditer] at h
      split at h
      · exact ih h
      · next hc =>
        split at h
        · rcases List.mem_cons.1 h with rfl | h
          · simp [isBlank, hc]
          · exact ih h
        · split at h
          · rcases List.mem_cons.1 h with rfl | h
            · simp [isBlank, hc]
            · exact ih h
          · exact ih h

theorem estimateTokens_finditer (t : Text) (skip pos : Nat) :
    ((finditer skip pos t).map fun p => estimateTokens p.text).sum = estimateTokens (t.drop skip) := by
  induction t generalizing skip pos with
  | nil => cases skip <;> rfl
  | cons c t ih =>
    cases skip with
    | succ skip => exact ih skip (pos + 1)
    | zero =>
      have hsplit : ∀ n, closesParagraph (t.drop n) = true →
          estimateTokens (c :: t) = estimateTokens (c :: t.take n) + estimateTokens (t.drop n) := by
        intro n hn
        have h := estimateTokens_append (c :: t.take n) (breaksWord_of_closes hn)
        rwa [List.cons_append, List.take_append_drop] at h
      simp only [finditer, List.drop_zero]
      split
      · next hc =>
        rw [ih 0 (pos + 1), List.drop_zero]
        simp [estimateTokens, countWords, hc]
      · split
        · next n hn =>
          rw [List.map_cons, List.sum_cons, ih n (pos + 1), hsplit n (shortestTail_some hn)]
        · next hn =>
          have hclose : closesParagraph t = true := by simp [closesParagraph, shortestTail_none hn]
          rw [if_pos hclose, List.map_cons, List.sum_cons, ih 0 (pos + 1), hsplit 0 hclose, List.take_zero]

/-- **The paragraphs have all words of the text.** -/
theorem estimateTokens_paragraphs (text : Text) :
    ((paragraphs text).map fun p => estimateTokens p.text).sum = estimateTokens text :=
  estimateTokens_finditer text 0 0

/-- **The first paragraph starts the text unless a space does, and no other does.** -/
theorem paragraphs_head {text : Text} (h : isBlank text = false) :
    ∃ p ps, paragraphs text = p :: ps ∧ (p.start = 0 ↔ ¬ text.head?.any isSpace) ∧ ∀ q ∈ ps, 0 < q.start := by
  cases text with
  | nil => cases h
  | cons c t =>
    by_cases hc : isSpace c = true
    · have hlist : paragraphs (c :: t) = finditer 0 1 t := by simp [paragraphs, finditer, hc]
      have hpos : ∀ q ∈ finditer 0 1 t, 0 < q.start := fun q hq => le_start_of_mem_finditer hq
      have hsum := estimateTokens_paragraphs (c :: t)
      rw [hlist] at hsum ⊢
      cases hps : finditer 0 1 t with
      | nil =>
        rw [hps] at hsum
        have := one_le_estimateTokens h
        simp only [List.map_nil, List.sum_nil] at hsum
        omega
      | cons p ps =>
        rw [hps] at hpos
        refine ⟨p, ps, rfl, ?_, fun q hq => hpos q (by simp [hq])⟩
        have := hpos p (by simp)
        simp [hc, Nat.ne_of_gt this]
    · simp only [paragraphs, finditer, hc, Bool.false_eq_true, if_false, List.head?_cons, Option.any_some,
        not_false_eq_true, iff_true]
      split
      · exact ⟨_, _, rfl, rfl, fun q hq => le_start_of_mem_finditer hq⟩
      · next hn =>
        rw [if_pos (by simp [closesParagraph, shortestTail_none hn])]
        exact ⟨_, _, rfl, rfl, fun q hq => le_start_of_mem_finditer hq⟩

end MilpbookLM
