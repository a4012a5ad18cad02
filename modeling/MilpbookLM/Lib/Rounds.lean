/-
Walking a finite multigraph in rounds. Its edges lead from points to keys, and each key is of a point: the edges out of
a frontier of keys are those out of their points, and the keys that were not visited are the next frontier. An edge is
found once for each round in which a key of its source is first led to (`rounds_perm`), so exactly once where all keys
of its source are first led to in the same round (`rounds_perm_of_level`).
-/
import Mathlib.Algebra.Order.BigOperators.Group.List
import Mathlib.Algebra.Order.Group.Nat
import Mathlib.Algebra.Order.Ring.Nat
import Mathlib.Data.List.Perm.Basic
import Mathlib.Data.Nat.Find

namespace MilpbookLM

structure Multigraph (E P K : Type) where
  rows : List E
  source : E → P
  target : E → K
  point : K → P

namespace Multigraph

variable {E P K : Type} [DecidableEq P] (G : Multigraph E P K) (start : K)

/-- The edges out of the points of the keys. -/
def outgoing (frontier : List K) : List E := G.rows.filter fun e => frontier.any fun k => G.point k = G.source e

/-- The edges that are found in at most so many rounds. -/
def rounds [DecidableEq K] : Nat → List K → List K → List E
  | 0, _, _ => []
  | depth + 1, visited, frontier =>
    if frontier.isEmpty then []
    else
      let edges := G.outgoing frontier
      let next := (edges.map G.target).filter (· ∉ visited)
      edges ++ rounds depth (visited ++ next) next

/-! ## Distances -/

/-- The keys that `n` edges lead to. -/
def led : Nat → List K
  | 0 => [start]
  | n + 1 => (G.outgoing (led n)).map G.target

/-- `n` edges lead to the point. -/
def Reaches (n : Nat) (p : P) : Prop := ∃ k ∈ G.led start n, G.point k = p

/-- `n` edges lead to the point, and no fewer. -/
def Distance (n : Nat) (p : P) : Prop := G.Reaches start n p ∧ ∀ m < n, ¬ G.Reaches start m p

/-- `n` edges lead to the key, and no fewer. -/
def First (n : Nat) (k : K) : Prop := k ∈ G.led start n ∧ ∀ m < n, k ∉ G.led start m

/-- Fewer than `depth` edges lead to the source of the edge. -/
def within (depth : Nat) (e : E) : Bool :=
  (List.range depth).any fun n => (G.led start n).any fun k => G.point k = G.source e

/-- All keys of the edge's source that are near enough are first led to in the same round. -/
def Level (depth : Nat) (e : E) : Prop :=
  ∀ n < depth, ∀ m < depth, ∀ k k', G.First start n k → G.First start m k' →
    G.point k = G.source e → G.point k' = G.source e → n = m

section

variable {G start} {n depth : Nat} {k : K} {p : P} {e : E} {frontier : List K}

theorem mem_outgoing : e ∈ G.outgoing frontier ↔ e ∈ G.rows ∧ ∃ k ∈ frontier, G.point k = G.source e := by
  simp [outgoing]

theorem mem_led_succ : k ∈ G.led start (n + 1) ↔ ∃ e ∈ G.rows, G.Reaches start n (G.source e) ∧ G.target e = k := by
  simp only [led, List.mem_map, mem_outgoing, Reaches, and_assoc]

theorem within_iff : G.within start depth e = true ↔ ∃ n < depth, G.Reaches start n (G.source e) := by
  simp [within, Reaches]

theorem Reaches.distance (h : G.Reaches start n p) : ∃ d ≤ n, G.Distance start d p := by
  classical
  have hex : ∃ n, G.Reaches start n p := ⟨n, h⟩
  exact ⟨Nat.find hex, Nat.find_min' hex h, Nat.find_spec hex, fun m hm => Nat.find_min hex hm⟩

/-- A point at its distance has a key that is first led to there. -/
theorem Distance.first (h : G.Distance start n p) : ∃ k, G.First start n k ∧ G.point k = p := by
  obtain ⟨⟨k, hk, hpoint⟩, hmin⟩ := h
  exact ⟨k, ⟨hk, fun m hm hmem => hmin m hm ⟨k, hmem, hpoint⟩⟩, hpoint⟩

end

variable [DecidableEq K]

/-- The edge is out of a key that is first led to in round `n`. -/
def meets (n : Nat) (e : E) : Bool :=
  (G.led start n).any fun k => G.point k = G.source e && (List.range n).all fun m => k ∉ G.led start m

/-- The number of rounds in which the edge is found. -/
def times (depth : Nat) (e : E) : Nat := (List.range depth).countP (G.meets start · e)

variable {G start} {n m depth : Nat} {k : K} {p : P} {e : E} {visited frontier : List K}

theorem meets_iff : G.meets start n e = true ↔ ∃ k, G.First start n k ∧ G.point k = G.source e := by
  simp only [meets, First, List.any_eq_true, Bool.and_eq_true, decide_eq_true_eq, List.all_eq_true, List.mem_range]
  constructor
  · intro h
    obtain ⟨k, hk, hpoint, hfirst⟩ := h
    exact ⟨k, ⟨hk, hfirst⟩, hpoint⟩
  · intro h
    obtain ⟨k, ⟨hk, hfirst⟩, hpoint⟩ := h
    exact ⟨k, hk, hpoint, hfirst⟩

/-- A key that is first led to by `n + 1` edges is so by one out of a key that is first led to by `n`. -/
theorem First.before (h : G.First start (n + 1) k) :
    ∃ e ∈ G.rows, G.meets start n e = true ∧ G.target e = k := by
  obtain ⟨hmem, hmin⟩ := h
  obtain ⟨e, he, hreach, rfl⟩ := mem_led_succ.1 hmem
  obtain ⟨d, hd, hdist⟩ := hreach.distance
  have hdn : d = n := by
    by_contra hne
    exact hmin (d + 1) (by omega) (mem_led_succ.2 ⟨e, he, hdist.1, rfl⟩)
  exact ⟨e, he, meets_iff.2 (hdn ▸ hdist.first), rfl⟩

/-! ## The rounds -/

/-- What is visited before round `n`, and its frontier. -/
structure Walked (G : Multigraph E P K) (start : K) (n : Nat) (visited frontier : List K) : Prop where
  visited : ∀ k, k ∈ visited ↔ ∃ m ≤ n, k ∈ G.led start m
  frontier : ∀ k, k ∈ frontier ↔ G.First start n k

omit [DecidableEq K] in
theorem walked_start : Walked G start 0 [start] [start] :=
  ⟨fun k => by simp [led], fun k => by simp [First, led]⟩

theorem Walked.outgoing_eq (h : Walked G start n visited frontier) :
    G.outgoing frontier = G.rows.filter (G.meets start n) := by
  refine List.filter_congr fun e _ => ?_
  rw [Bool.eq_iff_iff, meets_iff, List.any_eq_true]
  simp only [h.frontier, decide_eq_true_eq]

theorem Walked.next (h : Walked G start n visited frontier) :
    Walked G start (n + 1) (visited ++ ((G.outgoing frontier).map G.target).filter (· ∉ visited))
      (((G.outgoing frontier).map G.target).filter (· ∉ visited)) := by
  have hnext (k : K) : k ∈ ((G.outgoing frontier).map G.target).filter (· ∉ visited) ↔ G.First start (n + 1) k := by
    rw [List.mem_filter, List.mem_map, h.outgoing_eq, decide_eq_true_eq, h.visited]
    constructor
    · intro hk
      obtain ⟨⟨e, he, rfl⟩, hnew⟩ := hk
      obtain ⟨he, hmeets⟩ := List.mem_filter.1 he
      obtain ⟨k, hfirst, hpoint⟩ := meets_iff.1 hmeets
      exact ⟨mem_led_succ.2 ⟨e, he, ⟨k, hfirst.1, hpoint⟩, rfl⟩, fun m hm hmem => hnew ⟨m, by omega, hmem⟩⟩
    · intro hfirst
      obtain ⟨e, he, hmeets, rfl⟩ := hfirst.before
      refine ⟨⟨e, List.mem_filter.2 ⟨he, hmeets⟩, rfl⟩, fun hold => ?_⟩
      obtain ⟨m, hm, hmem⟩ := hold
      exact hfirst.2 m (by omega) hmem
  refine ⟨fun k => ?_, hnext⟩
  rw [List.mem_append, h.visited, hnext]
  constructor
  · intro hk
    rcases hk with ⟨m, hm, hmem⟩ | hfirst
    · exact ⟨m, by omega, hmem⟩
    · exact ⟨n + 1, le_rfl, hfirst.1⟩
  · intro hk
    obtain ⟨m, hm, hmem⟩ := hk
    by_cases hold : ∃ m ≤ n, k ∈ G.led start m
    · exact .inl hold
    · have hm' : m = n + 1 := by
        by_contra hne
        exact hold ⟨m, by omega, hmem⟩
      exact .inr ⟨hm' ▸ hmem, fun m' hm' hmem' => hold ⟨m', by omega, hmem'⟩⟩

theorem rounds_nil (depth : Nat) (visited : List K) : G.rounds depth visited [] = [] := by
  cases depth <;> rfl

theorem rounds_succ (depth : Nat) (visited frontier : List K) : G.rounds (depth + 1) visited frontier =
    G.outgoing frontier ++ G.rounds depth
      (visited ++ ((G.outgoing frontier).map G.target).filter (· ∉ visited))
      (((G.outgoing frontier).map G.target).filter (· ∉ visited)) := by
  rw [rounds]
  split
  · next hempty =>
    obtain rfl := List.isEmpty_iff.1 hempty
    have hnone : G.outgoing [] = [] := by simp [outgoing]
    simp [hnone, rounds_nil]
  · rfl

theorem Walked.rounds (h : Walked G start n visited frontier) (depth : Nat) : G.rounds depth visited frontier =
    (List.range' n depth).flatMap fun r => G.rows.filter (G.meets start r) := by
  induction depth generalizing n visited frontier with
  | zero => rfl
  | succ depth ih => rw [rounds_succ, ih h.next, h.outgoing_eq, List.range'_succ, List.flatMap_cons]

/-- **The rounds**: in round `n`, the edges out of the keys that are first led to by `n` edges. -/
theorem rounds_eq (depth : Nat) : G.rounds depth [start] [start] =
    (List.range depth).flatMap fun r => G.rows.filter (G.meets start r) := by
  rw [walked_start.rounds depth, List.range_eq_range']

/-! ## How often an edge is found -/

omit [DecidableEq P] [DecidableEq K] in
theorem filter_eq_flatMap (rows : List E) (f : E → Bool) :
    rows.filter f = rows.flatMap fun e => if f e then [e] else [] := by
  induction rows with
  | nil => rfl
  | cons e rows ih => by_cases he : f e = true <;> simp [he, ih]

omit [DecidableEq P] [DecidableEq K] in
theorem flatMap_filter_perm {R : Type} (l : List R) (rows : List E) (f : R → E → Bool) :
    (l.flatMap fun r => rows.filter (f r)).Perm
      (rows.flatMap fun e => List.replicate (l.countP (f · e)) e) := by
  induction l with
  | nil => simp
  | cons r l ih =>
    rw [List.flatMap_cons, filter_eq_flatMap rows (f r)]
    refine (ih.append_left _).trans ((List.flatMap_append_perm rows _ _).trans (List.Perm.of_eq ?_))
    refine List.flatMap_congr fun e _ => ?_
    by_cases he : f r e = true
    · simp [he, List.countP_cons_of_pos, List.replicate_succ]
    · simp [he, List.countP_cons_of_neg]

theorem rounds_perm (depth : Nat) : (G.rounds depth [start] [start]).Perm
    (G.rows.flatMap fun e => List.replicate (G.times start depth e) e) := by
  rw [rounds_eq]
  exact flatMap_filter_perm _ _ _

/-- The edges that are found are those whose source is near enough. -/
theorem times_pos : 0 < G.times start depth e ↔ G.within start depth e = true := by
  simp only [times, List.countP_pos_iff, List.mem_range, within_iff, meets_iff]
  constructor
  · intro h
    obtain ⟨n, hn, k, hfirst, hpoint⟩ := h
    exact ⟨n, hn, k, hfirst.1, hpoint⟩
  · intro h
    obtain ⟨n, hn, hreach⟩ := h
    obtain ⟨d, hd, hdist⟩ := hreach.distance
    exact ⟨d, by omega, hdist.first⟩

theorem times_le_one : G.times start depth e ≤ 1 ↔ G.Level start depth e := by
  have hmem (n : Nat) : n ∈ (List.range depth).filter (G.meets start · e) ↔
      n < depth ∧ ∃ k, G.First start n k ∧ G.point k = G.source e := by
    rw [List.mem_filter, List.mem_range, meets_iff]
  have hnodup : ((List.range depth).filter (G.meets start · e)).Nodup := List.nodup_range.filter _
  rw [times, List.countP_eq_length_filter]
  constructor
  · intro hle n hn m hm k k' hk hk' hpoint hpoint'
    have hn := (hmem n).2 ⟨hn, k, hk, hpoint⟩
    have hm := (hmem m).2 ⟨hm, k', hk', hpoint'⟩
    cases hl : (List.range depth).filter (G.meets start · e) with
    | nil => rw [hl] at hn; cases hn
    | cons a rest =>
      rw [hl] at hn hm hle
      obtain rfl : rest = [] := List.length_eq_zero_iff.1 (by simpa using hle)
      exact (List.mem_singleton.1 hn).trans (List.mem_singleton.1 hm).symm
  · intro hlevel
    by_contra hlt
    cases hl : (List.range depth).filter (G.meets start · e) with
    | nil => rw [hl] at hlt; exact hlt (by simp)
    | cons a rest =>
      cases rest with
      | nil => rw [hl] at hlt; exact hlt (by simp)
      | cons b rest =>
        rw [hl] at hnodup hmem
        obtain ⟨ha, k, hk, hpoint⟩ := (hmem a).1 (by simp)
        obtain ⟨hb, k', hk', hpoint'⟩ := (hmem b).1 (by simp)
        obtain rfl := hlevel a ha b hb k k' hk hk' hpoint hpoint'
        simp at hnodup

/-- Where each row is level, each edge that is near enough is found once, and no other. -/
theorem rounds_perm_of_level (h : ∀ e ∈ G.rows, G.Level start depth e) :
    (G.rounds depth [start] [start]).Perm (G.rows.filter (G.within start depth)) := by
  refine (rounds_perm depth).trans (List.Perm.of_eq ?_)
  rw [filter_eq_flatMap]
  refine List.flatMap_congr fun e he => ?_
  have hle := times_le_one.2 (h e he)
  by_cases hwithin : G.within start depth e = true
  · have htimes : G.times start depth e = 1 := by
      have hpos := times_pos.2 hwithin
      omega
    simp [hwithin, htimes]
  · have htimes : G.times start depth e = 0 := by
      have hpos : ¬ 0 < G.times start depth e := fun h => hwithin (times_pos.1 h)
      omega
    simp [hwithin, htimes]

omit [DecidableEq P] [DecidableEq K] in
theorem eq_of_sum_eq {l : List E} {f g : E → Nat} (hle : ∀ e ∈ l, g e ≤ f e)
    (heq : (l.map f).sum = (l.map g).sum) : ∀ e ∈ l, f e = g e := by
  induction l with
  | nil => simp
  | cons a l ih =>
    have hsum : (l.map g).sum ≤ (l.map f).sum := List.sum_le_sum fun e he => hle e (List.mem_cons_of_mem _ he)
    have ha := hle a List.mem_cons_self
    simp only [List.map_cons, List.sum_cons] at heq
    intro e he
    rcases List.mem_cons.1 he with rfl | he
    · omega
    · exact ih (fun e he => hle e (List.mem_cons_of_mem _ he)) (by omega) e he

/-- As many edges are found as there are near enough, only where each row is level. -/
theorem level_of_length (h : (G.rounds depth [start] [start]).length = (G.rows.filter (G.within start depth)).length) :
    ∀ e ∈ G.rows, G.Level start depth e := by
  have hfound : (G.rounds depth [start] [start]).length = (G.rows.map (G.times start depth)).sum := by
    rw [(rounds_perm depth).length_eq, List.length_flatMap]
    simp
  have hnear : (G.rows.filter (G.within start depth)).length =
      (G.rows.map fun e => if G.within start depth e then 1 else 0).sum := by
    rw [filter_eq_flatMap, List.length_flatMap]
    congr 1
    refine List.map_congr_left fun e _ => ?_
    split <;> rfl
  have htimes := eq_of_sum_eq (fun e _ => ?_) (hfound.symm.trans (h.trans hnear))
  · intro e he
    refine times_le_one.1 ?_
    rw [htimes e he]
    split <;> decide
  · split
    · next hwithin => exact times_pos.2 hwithin
    · exact Nat.zero_le _

/-- Where each row is level, the edges are found in the order of the distances of their sources. -/
theorem rounds_ordered (h : ∀ e ∈ G.rows, G.Level start depth e) :
    (G.rounds depth [start] [start]).Pairwise fun e e' =>
      ∀ d d', G.Distance start d (G.source e) → G.Distance start d' (G.source e') → d ≤ d' := by
  have hround (r : Nat) (hr : r < depth) (e : E) (he : e ∈ G.rows.filter (G.meets start r)) (d : Nat)
      (hd : G.Distance start d (G.source e)) : d = r := by
    obtain ⟨he, hmeets⟩ := List.mem_filter.1 he
    obtain ⟨k, hk, hpoint⟩ := meets_iff.1 hmeets
    obtain ⟨k', hk', hpoint'⟩ := hd.first
    have hle : d ≤ r := by
      by_contra hlt
      exact hd.2 r (by omega) ⟨k, hk.1, hpoint⟩
    exact h e he d (by omega) r hr k' k hk' hk hpoint' hpoint
  rw [rounds_eq, List.pairwise_flatMap]
  constructor
  · intro r hr
    have hr := List.mem_range.1 hr
    refine List.pairwise_of_forall_mem_list fun e he e' he' d d' hd hd' => ?_
    rw [hround r hr e he d hd, hround r hr e' he' d' hd']
  · refine (List.pairwise_lt_range (n := depth)).imp_of_mem fun {r r'} hr hr' hlt e he e' he' d d' hd hd' => ?_
    rw [hround r (List.mem_range.1 hr) e he d hd, hround r' (List.mem_range.1 hr') e' he' d' hd']
    exact Nat.le_of_lt hlt

end Multigraph

end MilpbookLM
