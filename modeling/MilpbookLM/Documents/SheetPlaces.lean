/-
Where the nodes of a workbook stand: a coordinate is that of one row and one column
(`coordinate_inj`), and no two places of a workbook have the same identity, whatever the
names of its sheets are (`identity_inj`).
-/
import MilpbookLM.Documents.ParsedTrees
import MilpbookLM.Documents.XlsxParser

namespace MilpbookLM

/-! ## Coordinates -/

/-- The number of a column, of its letters. -/
def lettersColumn (letters : List Char) : Nat := letters.foldl (fun n c => 26 * n + (c.toNat - 64)) 0

theorem columnLetters_pos {n : Nat} (h : n ≠ 0) :
    columnLetters n = columnLetters ((n - 1) / 26) ++ [Char.ofNat (65 + (n - 1) % 26)] := by
  rw [columnLetters, dif_neg h]

theorem letter_toNat (d : Nat) : (Char.ofNat (65 + d % 26)).toNat = 65 + d % 26 := by
  have hvalid : (65 + d % 26).isValidChar := .inl (by omega)
  rw [Char.ofNat, dif_pos hvalid]
  exact UInt32.toNat_ofNatLT ..

/-- The letters of a column are read back. -/
theorem lettersColumn_columnLetters (n : Nat) : lettersColumn (columnLetters n) = n := by
  induction n using Nat.strong_induction_on with
  | _ n ih =>
    by_cases h : n = 0
    · subst h
      simp [columnLetters, lettersColumn]
    · have hhigh := ih ((n - 1) / 26) (by omega)
      rw [columnLetters_pos h, lettersColumn, List.foldl_append]
      change 26 * lettersColumn (columnLetters ((n - 1) / 26)) + ((Char.ofNat (65 + (n - 1) % 26)).toNat - 64) = n
      rw [hhigh, letter_toNat]
      omega

theorem letter_le_columnLetters (n : Nat) : ∀ c ∈ columnLetters n, 65 ≤ c.toNat := by
  induction n using Nat.strong_induction_on with
  | _ n ih =>
    by_cases h : n = 0
    · subst h
      simp [columnLetters]
    · rw [columnLetters_pos h]
      refine List.forall_mem_append.2 ⟨ih _ (by omega), ?_⟩
      intro c hc
      rw [List.mem_singleton.1 hc, letter_toNat]
      omega

theorem not_isDigit_of_le {c : Char} (h : 65 ≤ c.toNat) : c.isDigit = false := by
  have hle : ¬ c.toNat ≤ 57 := by omega
  simp only [Char.isDigit, Bool.and_eq_false_iff, decide_eq_false_iff_not]
  exact .inr hle

theorem isDigit_toString (n : Nat) : ∀ c ∈ (toString n).toList, c.isDigit = true := by
  rw [Nat.toString_eq_ofList_toDigits, String.toList_ofList]
  exact fun c hc => Nat.isDigit_of_mem_toDigits (by decide) (by decide) hc

theorem toList_coordinate (row column : Nat) :
    (coordinate row column).toList = columnLetters column ++ (toString row).toList := by
  simp [coordinate]

/-- **A coordinate is that of one place.** -/
theorem coordinate_inj {row column row' column' : Nat} (h : coordinate row column = coordinate row' column') :
    row = row' ∧ column = column' := by
  have hlist := congrArg String.toList h
  rw [toList_coordinate, toList_coordinate] at hlist
  have hdigits : ∀ r c : Nat, (columnLetters c ++ (toString r).toList).filter Char.isDigit = (toString r).toList := by
    intro r c
    rw [List.filter_append, List.filter_eq_self.2 (isDigit_toString r),
      List.filter_eq_nil_iff.2 fun x hx => ?_, List.nil_append]
    rw [not_isDigit_of_le (letter_le_columnLetters c x hx)]
    exact Bool.false_ne_true
  have hrow : (toString row).toList = (toString row').toList := by rw [← hdigits row column, hlist, hdigits]
  rw [hrow] at hlist
  have hcolumn := congrArg lettersColumn (List.append_cancel_right hlist)
  rw [lettersColumn_columnLetters, lettersColumn_columnLetters] at hcolumn
  exact ⟨toString_inj (String.toList_injective hrow), hcolumn⟩

theorem identityParts_coordinate (row column : Nat) :
    identityParts (coordinate row column) = [(coordinate row column).toList] := by
  refine List.splitOn_eq_singleton fun hmem => ?_
  rw [toList_coordinate] at hmem
  rcases List.mem_append.1 hmem with hmem | hmem
  · exact absurd (letter_le_columnLetters column _ hmem) (by decide)
  · exact absurd (isDigit_toString row _ hmem) (by decide)

/-! ## Identities -/

theorem identityParts_inj {s t : String} (h : identityParts s = identityParts t) : s = t := by
  have hjoin := congrArg ([':'].intercalate ·) h
  simp only [identityParts, List.intercalate_splitOn] at hjoin
  exact String.toList_injective hjoin

/-- What a node of the workbook below its root stands for. -/
inductive SheetPlace
  | sheet (number : Nat)
  | table (name : String)
  | row (name : String) (row : Nat)
  | cell (name : String) (row column : Nat)

namespace SheetPlace

def identity : SheetPlace → String
  | sheet number => xlsxSheetIdentity number
  | table name => xlsxTableIdentity name
  | row name r => xlsxRowIdentity name r
  | cell name r c => xlsxCellIdentity name r (coordinate r c)

/-- What stands before the last two parts of the identity. -/
def stem : SheetPlace → List (List Char)
  | sheet _ => []
  | table name => identityParts ("sheet" ++ ":" ++ name)
  | row name _ => identityParts (xlsxTableIdentity name)
  | cell name r _ => identityParts (xlsxRowIdentity name r)

def tag : SheetPlace → String
  | sheet _ => "sheet"
  | table _ => "table"
  | row .. => "row"
  | cell .. => "cell"

def last : SheetPlace → String
  | sheet number => toString number
  | table _ => "1"
  | row _ r => toString r
  | cell _ r c => coordinate r c

theorem parts_identity (p : SheetPlace) : identityParts p.identity = p.stem ++ [p.tag.toList, p.last.toList] := by
  cases p with
  | sheet number =>
    have hbase : xlsxSheetIdentity number = "sheet" ++ ":" ++ toString number := rfl
    have htag : identityParts "sheet" = ["sheet".toList] := by decide
    rw [identity, hbase, identityParts_append, identityParts_nat, htag]
    rfl
  | table name =>
    have hbase : xlsxTableIdentity name = ("sheet" ++ ":" ++ name) ++ ":" ++ ("table" ++ ":" ++ "1") := by
      simp only [xlsxTableIdentity, String.append_assoc]
      rfl
    have htag : identityParts ("table" ++ ":" ++ "1") = ["table".toList, "1".toList] := by decide
    rw [identity, hbase, identityParts_append, htag]
    rfl
  | row name r =>
    have hbase : xlsxRowIdentity name r = xlsxTableIdentity name ++ ":" ++ ("row" ++ ":" ++ toString r) := by
      simp only [xlsxRowIdentity, String.append_assoc]
      rfl
    have htag : identityParts "row" = ["row".toList] := by decide
    rw [identity, hbase, identityParts_append, identityParts_append, identityParts_nat, htag]
    rfl
  | cell name r c =>
    have hbase : xlsxCellIdentity name r (coordinate r c) =
        xlsxRowIdentity name r ++ ":" ++ ("cell" ++ ":" ++ coordinate r c) := by
      simp only [xlsxCellIdentity, String.append_assoc]
      rfl
    have htag : identityParts "cell" = ["cell".toList] := by decide
    rw [identity, hbase, identityParts_append, identityParts_append, identityParts_coordinate, htag]
    rfl

theorem table_inj {name name' : String} (h : xlsxTableIdentity name = xlsxTableIdentity name') : name = name' :=
  (String.append_right_inj _).1 ((String.append_left_inj _).1 h)

/-- **No two places have the same identity.** -/
theorem identity_inj {p q : SheetPlace} (h : p.identity = q.identity) : p = q := by
  have hparts := congrArg identityParts h
  rw [parts_identity, parts_identity] at hparts
  obtain ⟨hstem, hends⟩ := List.append_inj' hparts rfl
  simp only [List.cons.injEq, and_true] at hends
  have htag := String.toList_injective hends.1
  have hlast := String.toList_injective hends.2
  cases p with
  | sheet number =>
    cases q with
    | sheet number' => rw [toString_inj hlast]
    | table name => exact absurd htag (by simp [tag])
    | row name r => exact absurd htag (by simp [tag])
    | cell name r c => exact absurd htag (by simp [tag])
  | table name =>
    cases q with
    | sheet number => exact absurd htag (by simp [tag])
    | table name' => rw [table_inj h]
    | row name' r => exact absurd htag (by simp [tag])
    | cell name' r c => exact absurd htag (by simp [tag])
  | row name r =>
    cases q with
    | sheet number => exact absurd htag (by simp [tag])
    | table name' => exact absurd htag (by simp [tag])
    | row name' r' => rw [table_inj (identityParts_inj hstem), toString_inj hlast]
    | cell name' r' c => exact absurd htag (by simp [tag])
  | cell name r c =>
    cases q with
    | sheet number => exact absurd htag (by simp [tag])
    | table name' => exact absurd htag (by simp [tag])
    | row name' r' => exact absurd htag (by simp [tag])
    | cell name' r' c' =>
      obtain ⟨rfl, rfl⟩ := coordinate_inj hlast
      have hrow := identityParts_inj hstem
      rw [xlsxRowIdentity, xlsxRowIdentity, String.append_left_inj, String.append_left_inj] at hrow
      rw [table_inj hrow]

theorem identity_ne_document (p : SheetPlace) : p.identity ≠ "document" := by
  intro h
  have hlen := congrArg (fun s => (identityParts s).length) h
  simp only [parts_identity, List.length_append, List.length_cons, List.length_nil] at hlen
  have hdocument : (identityParts "document").length = 1 := rfl
  omega

end SheetPlace

end MilpbookLM
