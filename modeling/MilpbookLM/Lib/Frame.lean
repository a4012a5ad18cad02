/-
What a statement over a table leaves alone: `SameOutside inside t t'` says that
the rows `inside` does not select are in `t'` as they were in `t`, in their order,
and that no others joined them. For a delete, an update and a delete after an
update, as for any rewriting row by row, it holds exactly when each row outside
is kept as it is (`same_rewrite`); for statements in sequence it composes.
-/
import MilpbookLM.Lib.Table

namespace MilpbookLM.Table

variable {α : Type}

def SameOutside (inside : α → Bool) (t t' : List α) : Prop := (t'.filter fun r => !inside r) = t.filter fun r => !inside r

instance [DecidableEq α] {inside : α → Bool} {t t' : List α} : Decidable (SameOutside inside t t') :=
  inferInstanceAs (Decidable (_ = _))

/-- `_delete`, without its count. -/
def deleteWhere (p : α → Bool) (t : List α) : List α := t.filter fun r => !p r

variable {inside : α → Bool} {t t' t'' : List α}

theorem mem_deleteWhere {p : α → Bool} {t : List α} {r : α} : r ∈ deleteWhere p t ↔ r ∈ t ∧ p r = false := by
  simp [deleteWhere]

theorem deleteWhere_none {p : α → Bool} {t : List α} (h : ∀ r ∈ t, p r = false) : deleteWhere p t = t :=
  List.filter_eq_self.2 fun r hr => by rw [h r hr]; rfl

theorem deleteWhere_false {t : List α} : deleteWhere (fun _ => false) t = t := deleteWhere_none fun _ _ => rfl

namespace SameOutside

@[refl] theorem refl (t : List α) : SameOutside inside t t := rfl

theorem trans (h : SameOutside inside t t') (h' : SameOutside inside t' t'') : SameOutside inside t t'' :=
  Eq.trans h' h

theorem symm (h : SameOutside inside t t') : SameOutside inside t' t := Eq.symm h

/-- The rows outside are the same. -/
theorem mem {r : α} (h : SameOutside inside t t') (hr : inside r = false) : r ∈ t' ↔ r ∈ t := by
  have hm := congrArg (r ∈ ·) h
  simpa [List.mem_filter, hr] using hm

end SameOutside

/-- A rewriting that gives a list back gives every member back. -/
theorem filterMap_eq_self {g : α → Option α} {l : List α} : l.filterMap g = l ↔ ∀ r ∈ l, g r = some r := by
  refine ⟨fun h => ?_, fun h => (List.filterMap_congr h).trans List.filterMap_some⟩
  induction l with
  | nil => simp
  | cons a l ih =>
    cases hg : g a with
    | none =>
      have hle := List.length_filterMap_le g l
      rw [List.filterMap_cons_none hg] at h
      rw [h, List.length_cons] at hle
      omega
    | some b =>
      rw [List.filterMap_cons_some hg, List.cons.injEq] at h
      obtain ⟨rfl, h⟩ := h
      exact List.forall_mem_cons.2 ⟨hg, ih h⟩

/-- **A rewriting row by row is a frame exactly when each row outside is kept.** -/
theorem same_rewrite {g : α → Option α} (hg : ∀ r r', g r = some r' → inside r' = inside r) :
    SameOutside inside t (t.filterMap g) ↔ ∀ r ∈ t, inside r = false → g r = some r := by
  have hcomm : ((t.filterMap g).filter fun r => !inside r) = (t.filter fun r => !inside r).filterMap g := by
    induction t with
    | nil => rfl
    | cons a t ih =>
      cases h : g a with
      | none => cases hi : inside a <;> simp [h, hi, ih]
      | some b => cases hi : inside a <;> simp [h, hi, hg a b h, ih]
  rw [SameOutside, hcomm, filterMap_eq_self]
  simp only [List.mem_filter, Bool.not_eq_true', and_imp]

/-- An update and then a delete. -/
theorem same_update_delete {p q : α → Bool} {f : α → α} (hf : ∀ r, inside (f r) = inside r) (hq : ∀ r, q (f r) = q r) :
    SameOutside inside t (deleteWhere q (update p f t)) ↔
      ∀ r ∈ t, inside r = false → (p r → f r = r) ∧ q r = false := by
  have hrewrite : deleteWhere q (update p f t) =
      t.filterMap fun r => if q r then none else some (if p r then f r else r) := by
    induction t with
    | nil => rfl
    | cons a t ih =>
      have ha : q (if p a then f a else a) = q a := by split <;> simp [hq]
      rw [deleteWhere, update] at ih ⊢
      rw [List.map_cons, List.filter_cons, List.filterMap_cons, ih, ha]
      cases q a <;> rfl
  rw [hrewrite, same_rewrite]
  · refine forall₃_congr fun r _ _ => ?_
    cases q r <;> by_cases hp : p r <;> simp [hp]
  · intro r r' hr
    split at hr
    · cases hr
    · obtain rfl := Option.some.inj hr
      split
      · exact hf r
      · rfl

theorem same_update {p : α → Bool} {f : α → α} (hf : ∀ r, inside (f r) = inside r) :
    SameOutside inside t (update p f t) ↔ ∀ r ∈ t, inside r = false → p r → f r = r := by
  have h := same_update_delete (t := t) (p := p) hf (q := fun _ => false) fun _ => rfl
  simpa [deleteWhere] using h

theorem same_delete {p : α → Bool} :
    SameOutside inside t (deleteWhere p t) ↔ ∀ r ∈ t, inside r = false → p r = false := by
  have h : SameOutside inside t (deleteWhere p (update (fun _ => false) id t)) ↔ _ :=
    same_update_delete (fun _ => rfl) fun _ => rfl
  simpa [update] using h

/-- What is deleted was inside. -/
theorem SameOutside.delete {p : α → Bool} (h : ∀ r ∈ t, p r → inside r) : SameOutside inside t (deleteWhere p t) :=
  same_delete.2 fun r hr hi => Bool.eq_false_iff.2 fun hp => by rw [h r hr hp] at hi; cases hi

/-- What is updated was inside. -/
theorem SameOutside.update {p : α → Bool} {f : α → α} (hf : ∀ r, inside (f r) = inside r)
    (h : ∀ r ∈ t, p r → inside r) : SameOutside inside t (update p f t) :=
  (same_update hf).2 fun r hr hi hp => by rw [h r hr hp] at hi; cases hi

/-- With nothing inside, nothing changes. -/
theorem same_nothing : SameOutside (fun _ => false) t t' ↔ t' = t := by simp [SameOutside]

end MilpbookLM.Table
