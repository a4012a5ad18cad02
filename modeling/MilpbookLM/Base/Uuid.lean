/-
UUIDs and their text: `Uuid.str` is Python's `str(uuid)` (32 lower-case hex
digits in groups of 8, 4, 4, 4 and 12), `Uuid.parse` reads it back
(`parse_str`), so the text names one UUID (`str_inj`) and has no colon in it
(`colon_notMem_str`).
-/
import Mathlib.Data.BitVec

namespace MilpbookLM

abbrev Uuid := BitVec 128

instance : LawfulBEq Uuid := inferInstance

namespace Uuid

/-- A hex digit below 16, lower case. -/
def hexChar (n : Nat) : Char := if n < 10 then Char.ofNat (48 + n) else Char.ofNat (87 + n)

def hexVal (c : Char) : Option Nat :=
  if '0' ≤ c ∧ c ≤ '9' then some (c.toNat - 48)
  else if 'a' ≤ c ∧ c ≤ 'f' then some (c.toNat - 87)
  else if 'A' ≤ c ∧ c ≤ 'F' then some (c.toNat - 55)
  else none

/-- The last `n` hex digits of `v`, most significant first. -/
def hexDigits : Nat → Nat → List Nat
  | 0, _ => []
  | n + 1, v => hexDigits n (v / 16) ++ [v % 16]

def ofHexDigits (ds : List Nat) : Nat := ds.foldl (fun a d => 16 * a + d) 0

/-- Groups of 8, 4, 4, 4 and the rest, with dashes between. -/
def dashed (h : List Char) : List Char :=
  h.take 8 ++ '-' :: ((h.drop 8).take 4 ++ '-' :: ((h.drop 12).take 4 ++
    '-' :: ((h.drop 16).take 4 ++ '-' :: h.drop 20)))

/-- `str(uuid)`. -/
def str (u : Uuid) : String := String.ofList (dashed ((hexDigits 32 u.toNat).map hexChar))

/-- `uuid.UUID(text)`, of the forms it accepts the one `str` writes: 32 hex
digits, dashes ignored. -/
def parse (s : String) : Option Uuid := do
  let ds ← (s.toList.filter (· ≠ '-')).mapM hexVal
  if ds.length = 32 then some (BitVec.ofNat 128 (ofHexDigits ds)) else none

theorem hexDigits_length (n v : Nat) : (hexDigits n v).length = n := by
  induction n generalizing v with
  | zero => rfl
  | succ n ih => simp [hexDigits, ih]

theorem hexDigits_lt {n v d : Nat} (h : d ∈ hexDigits n v) : d < 16 := by
  induction n generalizing v with
  | zero => simp [hexDigits] at h
  | succ n ih =>
    simp only [hexDigits, List.mem_append, List.mem_singleton] at h
    rcases h with h | rfl
    · exact ih h
    · exact Nat.mod_lt _ (by decide)

theorem ofHexDigits_hexDigits (n v : Nat) : ofHexDigits (hexDigits n v) = v % 16 ^ n := by
  induction n generalizing v with
  | zero => simp [hexDigits, ofHexDigits, Nat.mod_one]
  | succ n ih =>
    have h : ofHexDigits (hexDigits (n + 1) v) = 16 * ofHexDigits (hexDigits n (v / 16)) + v % 16 := by
      simp [ofHexDigits, hexDigits, List.foldl_append]
    rw [h, ih, Nat.pow_succ, Nat.mul_comm (16 ^ n) 16, Nat.mod_mul]
    omega

theorem hexVal_hexChar {d : Nat} (h : d < 16) : hexVal (hexChar d) = some d := by
  have all : ∀ d : Fin 16, hexVal (hexChar d) = some d.val := by decide
  exact all ⟨d, h⟩

theorem hexChar_ne {d : Nat} (h : d < 16) : hexChar d ≠ '-' ∧ hexChar d ≠ ':' ∧ hexChar d ≠ '*' := by
  have all : ∀ d : Fin 16, hexChar d ≠ '-' ∧ hexChar d ≠ ':' ∧ hexChar d ≠ '*' := by decide
  exact all ⟨d, h⟩

theorem mapM_hexVal {ds : List Nat} (h : ∀ d ∈ ds, d < 16) : (ds.map hexChar).mapM hexVal = some ds := by
  induction ds with
  | nil => rfl
  | cons d ds ih =>
    simp [List.mapM_cons, hexVal_hexChar (h d (by simp)), ih fun e he => h e (by simp [he])]

theorem mem_dashed {h : List Char} {c : Char} (hc : c ∈ dashed h) : c = '-' ∨ c ∈ h := by
  simp only [dashed, List.mem_append, List.mem_cons] at hc
  rcases hc with hc | hc | hc | hc | hc | hc | hc | hc | hc
  all_goals first
    | exact .inl hc
    | exact .inr (List.mem_of_mem_drop hc)
    | exact .inr (List.mem_of_mem_drop (List.mem_of_mem_take hc))
    | exact .inr (List.mem_of_mem_take hc)

/-- Every character of the text is a hex digit or a dash. -/
theorem mem_str {u : Uuid} {c : Char} (h : c ∈ u.str.toList) : c = '-' ∨ ∃ d < 16, c = hexChar d := by
  rw [str, String.toList_ofList] at h
  refine (mem_dashed h).imp_right fun hc => ?_
  obtain ⟨d, hd, rfl⟩ := List.mem_map.1 hc
  exact ⟨d, hexDigits_lt hd, rfl⟩

theorem colon_notMem_str (u : Uuid) : ':' ∉ u.str.toList := by
  intro h
  rcases mem_str h with h | ⟨d, hd, h⟩
  · simp at h
  · exact (hexChar_ne hd).2.1 h.symm

theorem star_ne_str (u : Uuid) : u.str ≠ "*" := by
  intro h
  have hm : '*' ∈ u.str.toList := by rw [h]; decide
  rcases mem_str hm with h | ⟨d, hd, h⟩
  · simp at h
  · exact (hexChar_ne hd).2.2 h.symm

theorem filter_dashed {h : List Char} (hh : '-' ∉ h) : (dashed h).filter (· ≠ '-') = h := by
  have keep : ∀ l : List Char, l.Sublist h → l.filter (· ≠ '-') = l := by
    intro l hl
    refine List.filter_eq_self.2 fun c hc => ?_
    simpa using fun he : c = '-' => hh (he ▸ hl.subset hc)
  have h1 := keep _ (List.take_sublist 8 h)
  have h2 := keep _ ((List.take_sublist 4 _).trans (List.drop_sublist 8 h))
  have h3 := keep _ ((List.take_sublist 4 _).trans (List.drop_sublist 12 h))
  have h4 := keep _ ((List.take_sublist 4 _).trans (List.drop_sublist 16 h))
  have h5 := keep _ (List.drop_sublist 20 h)
  have e16 : (h.drop 16).take 4 ++ h.drop 20 = h.drop 16 := by
    simpa [List.drop_drop] using List.take_append_drop 4 (h.drop 16)
  have e12 : (h.drop 12).take 4 ++ h.drop 16 = h.drop 12 := by
    simpa [List.drop_drop] using List.take_append_drop 4 (h.drop 12)
  have e8 : (h.drop 8).take 4 ++ h.drop 12 = h.drop 8 := by
    simpa [List.drop_drop] using List.take_append_drop 4 (h.drop 8)
  have hd : decide ('-' ≠ '-') = false := by decide
  simp only [dashed, List.filter_append, List.filter_cons, hd, Bool.false_eq_true, if_false, h1, h2, h3, h4, h5,
    e16, e12, e8, List.take_append_drop]

/-- The digits of the text, the dashes left out. -/
theorem filter_str (u : Uuid) : u.str.toList.filter (· ≠ '-') = (hexDigits 32 u.toNat).map hexChar := by
  rw [str, String.toList_ofList]
  refine filter_dashed fun h => ?_
  obtain ⟨d, hd, h⟩ := List.mem_map.1 h
  exact (hexChar_ne (hexDigits_lt hd)).1 h

theorem parse_str (u : Uuid) : parse u.str = some u := by
  have hm := @mapM_hexVal (hexDigits 32 u.toNat) fun _ => hexDigits_lt
  have hlt : u.toNat < 16 ^ 32 := u.isLt
  simp only [parse, filter_str, hm, Option.bind_eq_bind, Option.bind_some, hexDigits_length, if_true,
    ofHexDigits_hexDigits, Nat.mod_eq_of_lt hlt, BitVec.ofNat_toNat, BitVec.setWidth_eq]

theorem str_inj {u v : Uuid} (h : u.str = v.str) : u = v := by
  have := parse_str u
  rw [h, parse_str] at this
  exact (Option.some.inj this).symm

end Uuid

theorem notMem_toString {c : Char} (hc : c.isDigit = false) (n : Nat) : c ∉ (toString n).toList := by
  intro h
  have hdigit := Nat.isDigit_of_mem_toDigits (b := 10) (by decide) (by decide) (by simpa using h)
  rw [hc] at hdigit
  cases hdigit

theorem colon_notMem_toString (n : Nat) : ':' ∉ (toString n).toList := notMem_toString rfl n

/-- The last colon of a text divides it one way. -/
theorem append_colon_inj {a b x y : List Char} (hx : ':' ∉ x) (hy : ':' ∉ y) (h : a ++ ':' :: x = b ++ ':' :: y) :
    a = b ∧ x = y := by
  rcases List.append_eq_append_iff.1 h with ⟨c, rfl, hc⟩ | ⟨c, rfl, hc⟩
  · rcases c with _ | ⟨d, c⟩
    · simpa using hc
    · simp only [List.cons_append, List.cons.injEq] at hc
      exact absurd (hc.2 ▸ List.mem_append_right c List.mem_cons_self) hx
  · rcases c with _ | ⟨d, c⟩
    · simpa [eq_comm] using hc
    · simp only [List.cons_append, List.cons.injEq] at hc
      exact absurd (hc.2 ▸ List.mem_append_right c List.mem_cons_self) hy

/-- So does the first one. -/
theorem colon_append_inj {a b x y : List Char} (ha : ':' ∉ a) (hb : ':' ∉ b) (h : a ++ ':' :: x = b ++ ':' :: y) :
    a = b ∧ x = y := by
  have hreverse := congrArg List.reverse h
  simp only [List.reverse_append, List.reverse_cons, List.append_assoc, List.cons_append, List.nil_append] at hreverse
  obtain ⟨hx, ha⟩ := append_colon_inj (by simpa using ha) (by simpa using hb) hreverse
  exact ⟨List.reverse_injective ha, List.reverse_injective hx⟩

end MilpbookLM
