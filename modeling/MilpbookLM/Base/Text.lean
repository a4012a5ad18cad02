/-
Text as Python's `str` holds it, a list of code points: whitespace, `strip`,
`join`, and the words that `\S+` finds. Words are counted across a newline
(`estimateTokens_newline`), and the end of the first so many of them is never past
the text (`lastTokenEnd_le`).
-/
import Mathlib.Data.List.Basic

namespace MilpbookLM

abbrev Text := List Char

/-- `c.isspace()`, which is also `\s`. -/
def isSpace (c : Char) : Bool :=
  let n := c.toNat
  9 ≤ n && n ≤ 13 || 28 ≤ n && n ≤ 32 || n = 0x85 || n = 0xA0 || n = 0x1680 || 0x2000 ≤ n && n ≤ 0x200A ||
    n = 0x2028 || n = 0x2029 || n = 0x202F || n = 0x205F || n = 0x3000

/-- `text.strip()`. -/
def strip (t : Text) : Text := ((t.dropWhile isSpace).reverse.dropWhile isSpace).reverse

/-- `text.strip()` is empty. -/
def isBlank (t : Text) : Bool := t.all isSpace

/-- `text.replace("\r\n", "\n")`. -/
def replaceCrLf : Text → Text
  | '\r' :: '\n' :: t => '\n' :: replaceCrLf t
  | c :: t => c :: replaceCrLf t
  | [] => []

/-- `sep.join(parts)`. -/
def joinWith (sep : Text) : List Text → Text
  | [] => []
  | [t] => t
  | t :: parts => t ++ sep ++ joinWith sep parts

theorem toString_inj {m n : Nat} (h : toString m = toString n) : m = n := by
  have h' := congrArg (fun s => Nat.ofDigitChars 10 s.toList 0) h
  simpa [Nat.toString_eq_ofList_toDigits, Nat.ofDigitChars_toDigits] using h'

/-! ## Words -/

/-- The matches of `\S+`, one of them open already or not. -/
def countWords : Bool → Text → Nat
  | _, [] => 0
  | inWord, c :: t => if isSpace c then countWords false t else (if inWord then 0 else 1) + countWords true t

/-- `estimate_tokens`. -/
def estimateTokens (t : Text) : Nat := countWords false t

/-- The first character, if there is one, is a space. -/
def breaksWord : Text → Bool
  | [] => true
  | c :: _ => isSpace c

theorem countWords_append (inWord : Bool) (s : Text) {t : Text} (h : breaksWord t = true) :
    countWords inWord (s ++ t) = countWords inWord s + countWords false t := by
  induction s generalizing inWord with
  | nil =>
    cases t with
    | nil => simp [countWords]
    | cons c t =>
      simp only [breaksWord] at h
      simp [countWords, h]
  | cons c s ih =>
    simp only [List.cons_append, countWords]
    split
    · exact ih false
    · rw [ih true, Nat.add_assoc]

/-- Words are counted apart where a space ends a word. -/
theorem estimateTokens_append (s : Text) {t : Text} (h : breaksWord t = true) :
    estimateTokens (s ++ t) = estimateTokens s + estimateTokens t := countWords_append false s h

/-- **A newline ends a word.** -/
theorem estimateTokens_newline (s t : Text) :
    estimateTokens (s ++ '\n' :: t) = estimateTokens s + estimateTokens t :=
  (estimateTokens_append s (t := '\n' :: t) rfl).trans rfl

/-- What is not blank has a word. -/
theorem one_le_estimateTokens {t : Text} (h : isBlank t = false) : 1 ≤ estimateTokens t := by
  induction t with
  | nil => cases h
  | cons c t ih =>
    simp only [estimateTokens, countWords]
    split
    · next hc =>
      rw [isBlank, List.all_cons, hc, Bool.true_and] at h
      exact ih h
    · simp

/-- Where the last of the first `n` words ends; at the start when there is none. -/
def lastTokenEnd : Nat → Text → Nat
  | 0, _ => 0
  | n + 1, t =>
    let gap := (t.takeWhile isSpace).length
    let word := ((t.drop gap).takeWhile fun c => !isSpace c).length
    if word = 0 then 0 else gap + word + lastTokenEnd n (t.drop (gap + word))

theorem lastTokenEnd_le (n : Nat) (t : Text) : lastTokenEnd n t ≤ t.length := by
  induction n generalizing t with
  | zero => exact Nat.zero_le _
  | succ n ih =>
    simp only [lastTokenEnd]
    split
    · exact Nat.zero_le _
    · have hgap := ( List.takeWhile_prefix (l := t) isSpace).length_le
      have hword := ( List.takeWhile_prefix (l := t.drop (t.takeWhile isSpace).length) fun c => !isSpace c).length_le
      have hrest := ih (t.drop ((t.takeWhile isSpace).length +
        ((t.drop (t.takeWhile isSpace).length).takeWhile fun c => !isSpace c).length))
      rw [List.length_drop] at hword hrest
      omega

end MilpbookLM
