/-
Tables as lists of rows under a key: lookup by key, an update of the rows a
predicate selects, an insert under a new key, and what each of them does to
every other key. Counting is compared key by key (`countP_le_add`).
-/
import Mathlib.Data.List.Nodup
import Mathlib.Data.List.Perm.Subperm
import MilpbookLM.Lib.Outcomes

namespace MilpbookLM

/-- The filter of a list that one of its elements, and no other, passes. -/
theorem filter_eq_singleton {α β : Type} {f : α → β} {p : α → Bool} {l : List α} {a : α} (hl : (l.map f).Nodup)
    (ha : a ∈ l) (h : ∀ x ∈ l, p x = true ↔ f x = f a) : l.filter p = [a] := by
  induction l with
  | nil => cases ha
  | cons b l ih =>
    rw [List.map_cons, List.nodup_cons] at hl
    rcases List.mem_cons.1 ha with rfl | ha
    · rw [List.filter_cons_of_pos ((h a List.mem_cons_self).2 rfl), List.filter_eq_nil_iff.2]
      exact fun x hx hp => hl.1 (List.mem_map.2 ⟨x, hx, (h x (List.mem_cons_of_mem _ hx)).1 hp⟩)
    · rw [List.filter_cons_of_neg, ih hl.2 ha fun x hx => h x (List.mem_cons_of_mem _ hx)]
      exact fun hp => hl.1 (List.mem_map.2 ⟨a, ha, ((h b List.mem_cons_self).1 hp).symm⟩)

namespace Table

variable {α κ : Type} [DecidableEq κ] (key : α → κ)

/-- The row under `k`. -/
def lookup (t : List α) (k : κ) : Option α := t.find? (key · == k)

/-- `f` applied to the rows `p` selects. -/
def update (p : α → Bool) (f : α → α) (t : List α) : List α := t.map fun r => if p r then f r else r

/-- `row` in place of the row under its key. -/
def put (row : α) (t : List α) : List α := update (key · == key row) (fun _ => row) t

/-- A key names at most one row. -/
def Keyed (t : List α) : Prop := (t.map key).Nodup

instance (t : List α) : Decidable (Keyed key t) := inferInstanceAs (Decidable (t.map key).Nodup)

variable {key}

theorem lookup_some {t : List α} {k r} (h : lookup key t k = some r) : r ∈ t ∧ key r = k :=
  ⟨List.mem_of_find?_eq_some h, by simpa using List.find?_some h⟩

theorem lookup_none {t : List α} {k} : lookup key t k = none ↔ ∀ r ∈ t, key r ≠ k := by
  simp [lookup, List.find?_eq_none]

/-- Under a key, the row found is the row that is there. -/
theorem lookup_of_mem {t : List α} (ht : Keyed key t) {r} (hr : r ∈ t) : lookup key t (key r) = some r := by
  induction t with
  | nil => simp at hr
  | cons a t ih =>
    simp only [Keyed, List.map_cons, List.nodup_cons, List.mem_map, not_exists, not_and] at ht
    simp only [lookup, List.find?_cons]
    rcases List.mem_cons.1 hr with rfl | hr
    · simp
    · have hne : (key a == key r) = false := by
        simp only [beq_eq_false_iff_ne]; exact fun he => ht.1 r hr he.symm
      rw [hne]; exact ih ht.2 hr

theorem lookup_update {p : α → Bool} {f : α → α} (hf : ∀ r, p r = true → key (f r) = key r) (t : List α) (k : κ) :
    lookup key (update p f t) k = (lookup key t k).map fun r => if p r then f r else r := by
  have hk : ∀ r, key (if p r then f r else r) = key r := fun r => by split <;> simp [*]
  simp only [lookup, update, List.find?_map]
  congr 1
  exact congrArg (fun q => t.find? q) (funext fun r => by simp [hk])

omit [DecidableEq κ] in
theorem keyed_update {p : α → Bool} {f : α → α} (hf : ∀ r, p r = true → key (f r) = key r) {t : List α}
    (ht : Keyed key t) : Keyed key (update p f t) := by
  have hk : key ∘ (fun r => if p r then f r else r) = key := funext fun r => by
    simp only [Function.comp]; split <;> simp [*]
  simpa [Keyed, update, hk] using ht

omit [DecidableEq κ] in
/-- An update that keeps what a filter looks at may be done after it. -/
theorem filter_update {p q : α → Bool} {f : α → α} (hf : ∀ a, q (f a) = q a) (t : List α) :
    (update p f t).filter q = update p f (t.filter q) := by
  have h : ∀ a, q (if p a then f a else a) = q a := fun a => by split <;> simp [hf]
  simp only [update, List.filter_map]
  congr 1
  exact List.filter_congr fun a _ => by simp [h]

omit [DecidableEq κ] in
/-- An update that keeps what is counted leaves the count. -/
theorem countP_update {p q : α → Bool} {f : α → α} (hf : ∀ a, q (f a) = q a) (t : List α) :
    (update p f t).countP q = t.countP q := by
  rw [List.countP_eq_length_filter, filter_update hf, List.countP_eq_length_filter]
  exact List.length_map _

omit [DecidableEq κ] in
theorem update_congr {p p' : α → Bool} {f : α → α} {t : List α} (h : ∀ a ∈ t, p a = p' a) :
    update p f t = update p' f t :=
  List.map_congr_left fun a ha => by simp [h a ha]

omit [DecidableEq κ] in
/-- A row after an update is one it left, or one it changed. -/
theorem mem_update {p : α → Bool} {f : α → α} {t : List α} {r : α} (h : r ∈ update p f t) :
    (r ∈ t ∧ p r = false) ∨ ∃ old ∈ t, p old = true ∧ r = f old := by
  obtain ⟨old, hold, rfl⟩ := List.mem_map.1 h
  split
  · next hp => exact .inr ⟨old, hold, hp, rfl⟩
  · next hp => exact .inl ⟨hold, by simpa using hp⟩

omit [DecidableEq κ] in
/-- An update that selects nothing. -/
theorem update_none {p : α → Bool} {f : α → α} {t : List α} (h : ∀ a ∈ t, p a = false) : update p f t = t := by
  conv_rhs => rw [← List.map_id t]
  exact List.map_congr_left fun a ha => by simp [h a ha]

omit [DecidableEq κ] in
theorem update_false {f : α → α} {t : List α} : update (fun _ => false) f t = t := update_none fun _ _ => rfl

/-- A row of the table with `row` put in is `row`, or under another key. -/
theorem mem_put {row r' : α} {t : List α} (h : r' ∈ put key row t) :
    r' = row ∨ r' ∈ t ∧ key r' ≠ key row := by
  obtain ⟨r, hr, rfl⟩ := List.mem_map.1 h
  by_cases hk : key r = key row
  · exact .inl (by simp [hk])
  · exact .inr (by simpa [hk] using hr)

theorem mem_put_other {row r : α} {t : List α} (hr : r ∈ t) (hk : key r ≠ key row) : r ∈ put key row t :=
  List.mem_map.2 ⟨r, hr, by simp [hk]⟩

theorem mem_put_self {row r : α} {t : List α} (hr : r ∈ t) (hk : key r = key row) : row ∈ put key row t :=
  List.mem_map.2 ⟨r, hr, by simp [hk]⟩

theorem keyed_put {row : α} {t : List α} (ht : Keyed key t) : Keyed key (put key row t) :=
  keyed_update (f := fun _ => row) (fun _ hr => (beq_iff_eq.1 hr).symm) ht

theorem lookup_put {row : α} {t : List α} (k : κ) :
    lookup key (put key row t) k = (lookup key t k).map fun r => if key r == key row then row else r :=
  lookup_update (f := fun _ => row) (fun _ hr => (beq_iff_eq.1 hr).symm) t k

/-- A new row is found under its own key and nowhere else. -/
theorem lookup_insert {t : List α} {r} (h : lookup key t (key r) = none) (k : κ) :
    lookup key (t ++ [r]) k = if k = key r then some r else lookup key t k := by
  simp only [lookup, List.find?_append] at h ⊢
  by_cases hk : k = key r
  · subst hk; simp [h]
  · have : (key r == k) = false := by simpa using fun he : key r = k => hk he.symm
    simp [this, hk]

theorem keyed_insert {t : List α} {r} (ht : Keyed key t) (h : lookup key t (key r) = none) :
    Keyed key (t ++ [r]) := by
  rw [lookup_none] at h
  simp only [Keyed, List.map_append, List.map_cons, List.map_nil]
  refine List.Nodup.append ht (by simp) ?_
  simp only [List.disjoint_singleton, List.mem_map, not_exists, not_and]
  exact h

/-- An update keyed by `k` selects nothing unless it selects the row under `k`. -/
theorem countP_key {t : List α} (ht : Keyed key t) {p : α → Bool} {k : κ} (hp : ∀ r, p r = true → key r = k) :
    t.countP p = 0 ↔ ∀ r, lookup key t k = some r → p r = false := by
  rw [List.countP_eq_zero]
  constructor
  · intro h r hr
    simpa using h r (lookup_some hr).1
  · intro h r hr hpr
    have := h r (by rw [← hp r hpr]; exact lookup_of_mem ht hr)
    simp [this] at hpr

/-- Rows `p'` selects in `t'`, beyond those `p` selects in `t`, are under `ks`. -/
theorem countP_le_add {t t' : List α} {p p' : α → Bool} (ks : List κ) (ht' : Keyed key t')
    (h : ∀ r' ∈ t', p' r' = true → key r' ∉ ks → ∃ r ∈ t, key r = key r' ∧ p r = true) :
    t'.countP p' ≤ t.countP p + ks.length := by
  have hsub : (t'.filter p').map key ⊆ (t.filter p).map key ++ ks := by
    intro k hk
    obtain ⟨r', hr', rfl⟩ := List.mem_map.1 hk
    obtain ⟨hmem, hp⟩ := List.mem_filter.1 hr'
    by_cases hks : key r' ∈ ks
    · exact List.mem_append_right _ hks
    · obtain ⟨r, hr, hkey, hpr⟩ := h r' hmem hp hks
      exact List.mem_append_left _ (List.mem_map.2 ⟨r, List.mem_filter.2 ⟨hr, hpr⟩, hkey⟩)
  have hnd : ((t'.filter p').map key).Nodup := ht'.sublist (List.filter_sublist.map key)
  simpa [List.countP_eq_length_filter] using (List.subperm_of_subset hnd hsub).length_le

end Table

end MilpbookLM
