/-
Outlines: lists of items that link to their parents, in which an item is followed at
once by all that is below it, and the items under one parent stand in a strictly
increasing order.

`Below.increasing`: the items under one parent are in that order throughout the list.
`Below.walk`: a depth-first walk over the children meets the items in the order of
the list.
-/
import Mathlib.Data.List.Nodup

namespace MilpbookLM.Outline

/-- What is read of an item: its id, its parent's, its order among its siblings, and which items it may hold. -/
structure Links (N I : Type) where
  id : N → I
  parent : N → Option I
  order : N → Nat
  holds : N → N → Prop

variable {N I : Type} {links : Links N I} {p n m : N} {lo mid hi : Nat} {items items' : List N}

/-- The outline of what is below `p`; the orders of what stands right under it are above `lo` and up to `hi`. -/
inductive Below (links : Links N I) : N → Nat → Nat → List N → Prop
  | nil {p : N} {lo hi : Nat} : lo ≤ hi → Below links p lo hi []
  | cons {p n : N} {lo hi top : Nat} {sub rest : List N} : links.parent n = some (links.id p) → links.holds p n → lo < links.order n →
      Below links n 0 top sub → Below links p (links.order n) hi rest → Below links p lo hi (n :: (sub ++ rest))

namespace Below

theorem weaken (h : Below links p mid hi items) (hlo : lo ≤ mid) : Below links p lo hi items := by
  cases h with
  | nil hle => exact .nil (Nat.le_trans hlo hle)
  | cons hp hholds hlt hsub hrest => exact .cons hp hholds (Nat.lt_of_le_of_lt hlo hlt) hsub hrest

/-- More items under the same parent, of higher orders. -/
theorem append (h : Below links p lo mid items) (h' : Below links p mid hi items') :
    Below links p lo hi (items ++ items') := by
  induction h with
  | nil hle => exact h'.weaken hle
  | cons hp hholds hlt hsub _ _ ih =>
    rw [List.cons_append, List.append_assoc]
    exact .cons hp hholds hlt hsub (ih h')

/-- One item and what is below it. -/
theorem one {top : Nat} (hp : links.parent n = some (links.id p)) (hholds : links.holds p n) (hlt : lo < links.order n)
    (hle : links.order n ≤ hi) (hsub : Below links n 0 top items) : Below links p lo hi (n :: items) := by
  have h : Below links p lo hi (n :: (items ++ [])) := .cons hp hholds hlt hsub (.nil hle)
  rwa [List.append_nil] at h

/-- The parent of an item is `p` or an item. -/
theorem holder (h : Below links p lo hi items) (hn : n ∈ items) :
    ∃ m ∈ p :: items, links.parent n = some (links.id m) ∧ links.holds m n := by
  induction h with
  | nil => cases hn
  | @cons p k _ _ _ sub rest hp hholds _ _ _ ihsub ihrest =>
    rcases List.mem_cons.1 hn with rfl | hn
    · exact ⟨p, List.mem_cons_self, hp, hholds⟩
    · rcases List.mem_append.1 hn with hn | hn
      · obtain ⟨m, hm, hlink⟩ := ihsub hn
        have hsub : k :: sub ⊆ k :: (sub ++ rest) := List.cons_subset_cons k (List.subset_append_left sub rest)
        exact ⟨m, List.mem_cons_of_mem _ (hsub hm), hlink⟩
      · obtain ⟨m, hm, hlink⟩ := ihrest hn
        rcases List.mem_cons.1 hm with rfl | hm
        · exact ⟨m, List.mem_cons_self, hlink⟩
        · exact ⟨m, List.mem_cons_of_mem _ (List.mem_cons_of_mem _ (List.mem_append_right _ hm)), hlink⟩

theorem parent_mem (h : Below links p lo hi items) (hn : n ∈ items) :
    ∃ q ∈ links.id p :: items.map links.id, links.parent n = some q := by
  obtain ⟨m, hm, hlink, -⟩ := h.holder hn
  exact ⟨links.id m, List.mem_map_of_mem (f := links.id) hm, hlink⟩

theorem not_parent {q : I} (h : Below links p lo hi items) (hq : q ∉ links.id p :: items.map links.id) (hn : n ∈ items) :
    links.parent n ≠ some q := by
  obtain ⟨q', hq', hlink⟩ := h.parent_mem hn
  intro heq
  rw [hlink] at heq
  cases heq
  exact hq hq'

/-- Where the ids are distinct, an item and what is below it are apart from what comes after that. -/
theorem apart {sub rest : List N} (hdup : ((p :: n :: (sub ++ rest)).map links.id).Nodup) :
    ((n :: sub).map links.id).Nodup ∧ ((p :: rest).map links.id).Nodup ∧ links.id p ∉ (n :: sub).map links.id ∧
      links.id n ∉ (p :: rest).map links.id ∧ ∀ q ∈ sub.map links.id, q ∉ (p :: rest).map links.id := by
  simp only [List.map_cons, List.map_append, List.nodup_cons, List.nodup_append, List.mem_cons, List.mem_append,
    not_or] at hdup ⊢
  obtain ⟨⟨hpn, hps, hpr⟩, ⟨hns, hnr⟩, hs, hr, hsr⟩ := hdup
  exact ⟨⟨hns, hs⟩, ⟨hpr, hr⟩, ⟨hpn, hps⟩, ⟨Ne.symm hpn, hnr⟩, fun q hq =>
    ⟨fun he => hps (he ▸ hq), fun hq' => hsr q hq q hq' rfl⟩⟩

/-- What stands right under `p` has an order above the bound. -/
theorem lt_order (h : Below links p lo hi items) (hdup : ((p :: items).map links.id).Nodup) (hn : n ∈ items)
    (hp : links.parent n = some (links.id p)) : lo < links.order n := by
  induction h with
  | nil => cases hn
  | cons _ _ hlt hsub _ _ ih =>
    obtain ⟨-, hrest, hpsub, -, -⟩ := apart hdup
    rcases List.mem_cons.1 hn with rfl | hn
    · exact hlt
    · rcases List.mem_append.1 hn with hn | hn
      · exact absurd hp (hsub.not_parent hpsub hn)
      · exact Nat.lt_trans hlt (ih hrest hn hp)

/-- **The items under one parent are in a strictly increasing order.** -/
theorem increasing (h : Below links p lo hi items) (hdup : ((p :: items).map links.id).Nodup) :
    items.Pairwise fun m n => links.parent m = links.parent n → links.order m < links.order n := by
  induction h with
  | nil => exact .nil
  | cons hp _ _ hsub hrest ihsub ihrest =>
    obtain ⟨hdsub, hdrest, hpsub, hn, hapart⟩ := apart hdup
    refine .cons (fun y hy heq => ?_) (List.pairwise_append.2 ⟨ihsub hdsub, ihrest hdrest, fun x hx y hy heq => ?_⟩)
    · rw [hp] at heq
      rcases List.mem_append.1 hy with hy | hy
      · exact absurd heq.symm (hsub.not_parent hpsub hy)
      · exact hrest.lt_order hdrest hy heq.symm
    · obtain ⟨q, hq, hx⟩ := hsub.parent_mem hx
      rw [hx] at heq
      rcases List.mem_cons.1 hq with rfl | hq
      · exact absurd heq.symm (hrest.not_parent hn hy)
      · exact absurd heq.symm (hrest.not_parent (hapart q hq) hy)

end Below

/-! ## Walks -/

variable [DecidableEq I]

/-- The items under a parent. -/
def under (links : Links N I) (items : List N) (q : I) : List N := items.filter fun n => links.parent n = some q

theorem under_append (q : I) : under links (items ++ items') q = under links items q ++ under links items' q :=
  List.filter_append ..

theorem under_eq_nil {q : I} (h : ∀ n ∈ items, links.parent n ≠ some q) : under links items q = [] :=
  List.filter_eq_nil_iff.2 fun n hn => by simpa using h n hn

/-- A depth-first walk over the children. -/
def walk (links : Links N I) (children : I → List N) : Nat → I → List I
  | 0, _ => []
  | fuel + 1, q => q :: (children q).flatMap fun n => walk links children fuel (links.id n)

/-- **The walk meets the items in the order of the list.** -/
theorem Below.walk {children : I → List N} {fuel : Nat} (h : Below links p lo hi items)
    (hdup : ((p :: items).map links.id).Nodup)
    (hchildren : ∀ q ∈ items.map links.id, children q = under links items q) (hfuel : items.length ≤ fuel) :
    (under links items (links.id p)).flatMap (fun n => Outline.walk links children fuel (links.id n)) =
      items.map links.id := by
  induction h generalizing fuel with
  | nil => rfl
  | @cons p n lo hi top sub rest hp _ _ hsub hrest ihsub ihrest =>
    obtain ⟨hdsub, hdrest, hpsub, hn, hapart⟩ := apart hdup
    have hsubNone : under links sub (links.id p) = [] := under_eq_nil fun y hy => hsub.not_parent hpsub hy
    have hself : links.parent n ≠ some (links.id n) := by
      rw [hp]
      exact fun he => hpsub (Option.some.inj he ▸ List.mem_cons_self)
    rw [List.length_cons, List.length_append] at hfuel
    obtain ⟨fuel, rfl⟩ : ∃ k, fuel = k + 1 := ⟨fuel - 1, by omega⟩
    -- the children of the item and of what is below it are found below it
    have hbelow : ∀ q ∈ (n :: sub).map links.id, children q = under links sub q := by
      intro q hq
      have hqrest : q ∉ (p :: rest).map links.id := by
        rcases List.mem_cons.1 hq with rfl | hq
        · exact hn
        · exact hapart q hq
      have hqn : links.parent n ≠ some q := by
        rw [hp]
        exact fun he => hqrest (Option.some.inj he ▸ List.mem_cons_self)
      rw [hchildren q (by
        rw [← List.cons_append, List.map_append]
        exact List.mem_append_left _ hq), under, List.filter_cons_of_neg (by simpa using hqn), ← under, under_append,
        under_eq_nil fun y hy => hrest.not_parent hqrest hy, List.append_nil]
    have hafter : ∀ q ∈ rest.map links.id, children q = under links rest q := by
      intro q hq
      have hqp : links.id p ≠ q := fun he => (List.nodup_cons.1 hdrest).1 (he ▸ hq)
      have hqsub : q ∉ (n :: sub).map links.id := by
        intro hmem
        rcases List.mem_cons.1 hmem with rfl | hmem
        · exact hn (List.mem_cons_of_mem _ hq)
        · exact hapart q hmem (List.mem_cons_of_mem _ hq)
      have hqn : links.parent n ≠ some q := by
        rw [hp]
        exact fun he => hqp (Option.some.inj he)
      rw [hchildren q (by
        rw [List.map_cons, List.map_append]
        exact List.mem_cons_of_mem _ (List.mem_append_right _ hq)), under, List.filter_cons_of_neg (by simpa using hqn),
        ← under, under_append, under_eq_nil fun y hy => hsub.not_parent hqsub hy, List.nil_append]
    have hunder : under links (n :: (sub ++ rest)) (links.id p) = n :: under links rest (links.id p) := by
      rw [under, List.filter_cons_of_pos (by simpa using hp), ← under, under_append, hsubNone, List.nil_append]
    rw [hunder, List.flatMap_cons, ihrest hdrest hafter (by omega), Outline.walk, hbelow _ List.mem_cons_self,
      ihsub hdsub (fun q hq => hbelow q (List.mem_cons_of_mem _ hq)) (by omega), List.map_cons, List.map_append,
      List.cons_append]

end MilpbookLM.Outline
