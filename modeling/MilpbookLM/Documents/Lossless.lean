/-
Chunking loses nothing. The spans of the chunks, one after the other, are those of the
units of the document in the order of the walk, each unit covered from its start to its
end; a chunk's text is that of its spans, a newline between any two; and the chunks are
linked in this order (`chunking_lossless`).

This is so for every document that is a forest below its roots: the walk comes to each
node once, along a path without repetitions.
-/
import Mathlib.Logic.Relation
import MilpbookLM.Documents.Coordinates

namespace MilpbookLM

open Relation

/-! ## Forests -/

namespace CanonicalDocument

/-- `p` is the parent of `id`. -/
def ParentOf (document : CanonicalDocument) (id p : Uuid) : Prop :=
  ∃ node ∈ document.nodes, node.nodeId = id ∧ node.parentId = some p

/-- The ids are distinct, and the parent links lead from every node to one of the roots. -/
structure Forest (document : CanonicalDocument) : Prop where
  ids : (document.nodes.map (·.nodeId)).Nodup
  roots : document.rootNodeIds.Nodup
  top : ∀ root ∈ document.rootNodeIds, ∃ node ∈ document.nodes, node.nodeId = root ∧ node.parentId = none
  rooted : ∀ node ∈ document.nodes, ∃ root ∈ document.rootNodeIds, ReflTransGen document.ParentOf node.nodeId root

variable {document : CanonicalDocument}

theorem eq_of_nodeId (h : document.Forest) {n m : CanonicalNode} (hn : n ∈ document.nodes) (hm : m ∈ document.nodes)
    (hid : n.nodeId = m.nodeId) : n = m := List.inj_on_of_nodup_map h.ids hn hm hid

theorem parentOf_unique (h : document.Forest) : Relator.RightUnique document.ParentOf := by
  rintro id p q ⟨n, hn, rfl, hp⟩ ⟨m, hm, hid, hq⟩
  rw [eq_of_nodeId h hm hn hid, hp] at hq
  exact Option.some.inj hq

theorem not_parentOf_root (h : document.Forest) {root p : Uuid} (hroot : root ∈ document.rootNodeIds) :
    ¬ document.ParentOf root p := by
  rintro ⟨n, hn, rfl, hp⟩
  obtain ⟨m, hm, hid, hnone⟩ := h.top _ hroot
  rw [eq_of_nodeId h hm hn hid, hp] at hnone
  cases hnone

/-- No node is above itself: whatever is above such a node is so too, up to a root. -/
theorem acyclic (h : document.Forest) (id : Uuid) : ¬ TransGen document.ParentOf id id := by
  intro hcycle
  have above : ∀ y, ReflTransGen document.ParentOf id y → TransGen document.ParentOf y y := by
    intro y hy
    induction hy with
    | refl => exact hcycle
    | tail _ hyz ih =>
      obtain ⟨z, hyz', hzy⟩ := TransGen.head'_iff.1 ih
      rw [parentOf_unique h hyz' hyz] at hzy
      exact .tail' hzy hyz
  obtain ⟨p, ⟨n, hn, hid, -⟩, -⟩ := TransGen.head'_iff.1 hcycle
  obtain ⟨root, hroot, hpath⟩ := h.rooted n hn
  obtain ⟨q, hq, -⟩ := TransGen.head'_iff.1 (above root (hid ▸ hpath))
  exact not_parentOf_root h hroot hq

/-- Nothing is below two siblings. -/
theorem siblings_apart (h : document.Forest) {a b p u : Uuid} (ha : document.ParentOf a p) (hb : document.ParentOf b p)
    (hua : ReflTransGen document.ParentOf u a) (hub : ReflTransGen document.ParentOf u b) : a = b := by
  have apart : ∀ {a b}, document.ParentOf a p → document.ParentOf b p → ReflTransGen document.ParentOf a b → a = b := by
    intro a b ha hb hab
    rcases hab.cases_head with rfl | ⟨c, hac, hcb⟩
    · rfl
    · rw [parentOf_unique h hac ha] at hcb
      exact absurd (.tail' hcb hb) (acyclic h p)
  rcases ReflTransGen.total_of_right_unique (parentOf_unique h) hua hub with hab | hba
  · exact apart ha hb hab
  · exact (apart hb ha hba).symm

/-- Nothing is below two roots. -/
theorem roots_apart (h : document.Forest) {a b u : Uuid} (ha : a ∈ document.rootNodeIds) (hb : b ∈ document.rootNodeIds)
    (hua : ReflTransGen document.ParentOf u a) (hub : ReflTransGen document.ParentOf u b) : a = b := by
  have apart : ∀ {a b}, a ∈ document.rootNodeIds → ReflTransGen document.ParentOf a b → a = b := by
    intro a b ha hab
    rcases hab.cases_head with rfl | ⟨c, hac, -⟩
    · rfl
    · exact absurd hac (not_parentOf_root h ha)
  rcases ReflTransGen.total_of_right_unique (parentOf_unique h) hua hub with hab | hba
  · exact apart ha hab
  · exact (apart hb hba).symm

theorem mem_children {id : Uuid} {child : CanonicalNode} (hc : child ∈ document.children id) :
    child ∈ document.nodes ∧ document.ParentOf child.nodeId id := by
  obtain ⟨hmem, hparent⟩ := List.mem_filter.1 ((List.mem_insertionSort _).1 hc)
  exact ⟨hmem, child, hmem, rfl, by simpa using hparent⟩

theorem nodup_children (h : document.Forest) (id : Uuid) : ((document.children id).map (·.nodeId)).Nodup := by
  rw [children, ((List.perm_insertionSort _ _).map _).nodup_iff]
  exact h.ids.sublist (List.filter_sublist.map _)

/-! ## The walk -/

/-- A tree is walked with more fuel than there are nodes off the path to it. -/
theorem walkUnits_forest (h : document.Forest) {fuel : Nat} {ancestry path : List Uuid} {node : CanonicalNode}
    (hn : node ∈ document.nodes) (hpath : path.Nodup) (habove : ∀ a ∈ path, TransGen document.ParentOf node.nodeId a)
    (hids : path ⊆ document.nodes.map (·.nodeId)) (hfuel : document.nodes.length < path.length + 1 + fuel) :
    ∃ units, document.walkUnits fuel ancestry node.nodeId = some units := by
  induction fuel generalizing ancestry path node with
  | zero =>
    have hnot : node.nodeId ∉ path := fun hmem => acyclic h _ (habove _ hmem)
    have hsub : node.nodeId :: path ⊆ document.nodes.map (·.nodeId) :=
      List.cons_subset.2 ⟨List.mem_map_of_mem hn, hids⟩
    have hle := ((List.nodup_cons.2 ⟨hnot, hpath⟩).subperm hsub).length_le
    rw [List.length_cons, List.length_map] at hle
    exact absurd hfuel (Nat.not_lt.2 hle)
  | succ fuel ih =>
    have below : ∀ ancestry, ∃ us,
        ((document.children node.nodeId).map (·.nodeId)).mapM (document.walkUnits fuel ancestry) = some us := by
      refine fun ancestry => mapM_isSome fun id hid => ?_
      obtain ⟨child, hchild, rfl⟩ := List.mem_map.1 hid
      obtain ⟨hmem, hparent⟩ := mem_children hchild
      refine @ih ancestry (node.nodeId :: path) child hmem ?_ ?_ ?_ ?_
      · exact List.nodup_cons.2 ⟨fun hmem => acyclic h _ (habove _ hmem), hpath⟩
      · intro a ha
        rcases List.mem_cons.1 ha with rfl | ha
        · exact .single hparent
        · exact .head hparent (habove a ha)
      · exact List.cons_subset.2 ⟨List.mem_map_of_mem hn, hids⟩
      · rw [List.length_cons]
        omega
    obtain ⟨us, hus⟩ := below ancestry
    obtain ⟨us', hus'⟩ := below (if isSection node.kind then ancestry ++ [node.nodeId] else ancestry)
    simp only [walkUnits, node?_of_mem h.ids hn, Option.bind_eq_bind, Option.bind_some, hus, hus', pure]
    repeat' split
    all_goals exact ⟨_, rfl⟩

theorem collectUnits_forest (h : document.Forest) : ∃ units, document.collectUnits = some units := by
  have hwalk : ∀ root ∈ document.rootNodeIds,
      ∃ units, document.walkUnits (document.nodes.length + 1) [] root = some units := by
    intro root hroot
    obtain ⟨node, hn, rfl, -⟩ := h.top root hroot
    exact walkUnits_forest h hn List.nodup_nil (fun _ h => nomatch h) (List.nil_subset _) (by rw [List.length_nil]; omega)
  obtain ⟨us, hus⟩ := mapM_isSome hwalk
  exact ⟨us.flatten, by rw [collectUnits, hus]; rfl⟩

theorem nodeId_of_wholeUnit {node : CanonicalNode} {text ancestry u} (hu : u ∈ document.wholeUnit node text ancestry) :
    u.nodeId = node.nodeId := by
  simp only [wholeUnit] at hu
  split at hu
  · cases hu
  · cases List.mem_singleton.1 hu
    rfl

/-- What is walked from a node is below it. -/
theorem below_walkUnits {fuel ancestry id units} (h : document.walkUnits fuel ancestry id = some units) :
    ∀ u ∈ units, ReflTransGen document.ParentOf u.nodeId id := by
  induction fuel generalizing ancestry id units with
  | zero => cases h
  | succ fuel ih =>
    obtain ⟨node, hnode, hcases⟩ := walkUnits_cases h
    obtain ⟨-, rfl⟩ := node?_some hnode
    obtain ⟨ancestry', us, hus, rfl⟩ | ⟨ancestry', rfl⟩ := hcases
    · intro u hu
      obtain ⟨l, hl, hu⟩ := List.mem_flatten.1 hu
      obtain ⟨c, hc, hchild⟩ := mem_of_mapM hus hl
      obtain ⟨child, hmem, rfl⟩ := List.mem_map.1 hc
      exact .tail (ih hchild u hu) (mem_children hmem).2
    · intro u hu
      rw [nodeId_of_wholeUnit hu]

/-- Units taken from apart are distinct together. -/
theorem nodup_flatten_mapM {f : Uuid → Option (List ChunkUnit)} {ids : List Uuid} {us : List (List ChunkUnit)}
    (hids : ids.Nodup) (hown : ∀ id ∈ ids, ∀ l, f id = some l → (l.map (·.nodeId)).Nodup)
    (hapart : ∀ a ∈ ids, ∀ b ∈ ids, ∀ la lb, f a = some la → f b = some lb →
      ∀ u ∈ la, ∀ v ∈ lb, u.nodeId = v.nodeId → a = b)
    (h : ids.mapM f = some us) : (us.flatten.map (·.nodeId)).Nodup := by
  induction ids generalizing us with
  | nil =>
    cases h
    exact List.nodup_nil
  | cons id ids ih =>
    simp only [List.mapM_cons, Option.bind_eq_bind, Option.bind_eq_some_iff] at h
    obtain ⟨l, hl, us', hus', h⟩ := h
    cases h
    obtain ⟨hnot, hids⟩ := List.nodup_cons.1 hids
    rw [List.flatten_cons, List.map_append, List.nodup_append]
    refine ⟨hown id List.mem_cons_self l hl, ih hids (fun a ha => hown a (List.mem_cons_of_mem _ ha))
      (fun a ha b hb => hapart a (List.mem_cons_of_mem _ ha) b (List.mem_cons_of_mem _ hb)) hus', ?_⟩
    rintro x hx y hy rfl
    obtain ⟨u, hu, rfl⟩ := List.mem_map.1 hx
    obtain ⟨v, hv, hid⟩ := List.mem_map.1 hy
    obtain ⟨l', hl', hv⟩ := List.mem_flatten.1 hv
    obtain ⟨b, hb, hfb⟩ := mem_of_mapM hus' hl'
    have := hapart id List.mem_cons_self b (List.mem_cons_of_mem _ hb) l l' hl hfb u hu v hv hid.symm
    exact hnot (this ▸ hb)

theorem nodup_walkUnits (h : document.Forest) {fuel ancestry id units}
    (hw : document.walkUnits fuel ancestry id = some units) : (units.map (·.nodeId)).Nodup := by
  induction fuel generalizing ancestry id units with
  | zero => cases hw
  | succ fuel ih =>
    obtain ⟨node, hnode, hcases⟩ := walkUnits_cases hw
    obtain ⟨-, rfl⟩ := node?_some hnode
    obtain ⟨ancestry', us, hus, rfl⟩ | ⟨ancestry', rfl⟩ := hcases
    · refine nodup_flatten_mapM (nodup_children h _) (fun _ _ _ hl => ih hl) ?_ hus
      intro a ha b hb la lb hla hlb u hu v hv hid
      obtain ⟨n, hn, rfl⟩ := List.mem_map.1 ha
      obtain ⟨m, hm, rfl⟩ := List.mem_map.1 hb
      exact siblings_apart h (mem_children hn).2 (mem_children hm).2 (below_walkUnits hla u hu)
        (hid ▸ below_walkUnits hlb v hv)
    · simp only [wholeUnit]
      split
      · exact List.nodup_nil
      · exact List.nodup_singleton _

/-- **No node is a unit twice.** -/
theorem nodup_collectUnits (h : document.Forest) {units} (hu : document.collectUnits = some units) :
    (units.map (·.nodeId)).Nodup := by
  obtain ⟨us, hus, rfl⟩ := Option.map_eq_some_iff.1 hu
  refine nodup_flatten_mapM h.roots (fun _ _ _ hl => nodup_walkUnits h hl) ?_ hus
  intro a ha b hb la lb hla hlb u hu v hv hid
  exact roots_apart h ha hb (below_walkUnits hla u hu) (hid ▸ below_walkUnits hlb v hv)

end CanonicalDocument

/-! ## Spans -/

/-- Spans of one node from `start` to `stop`: each starts where the one before it ends, and none is empty. -/
inductive Covers (id : Uuid) : Nat → List NodeSpan → Nat → Prop
  | nil {stop : Nat} : Covers id stop [] stop
  | cons {start next stop : Nat} {spans : List NodeSpan} : start < next → Covers id next spans stop →
      Covers id start (⟨id, start, next⟩ :: spans) stop

/-- The spans are those of the units, in their order, each unit covered from its start to its end. -/
inductive Covered : List ChunkUnit → List NodeSpan → Prop
  | nil : Covered [] []
  | cons {unit : ChunkUnit} {units : List ChunkUnit} {own spans : List NodeSpan} :
      Covers unit.nodeId 0 own unit.text.length → Covered units spans → Covered (unit :: units) (own ++ spans)

/-- The text at a span: of the unit of its node. -/
def sliceOf (units : List ChunkUnit) (span : NodeSpan) : Text :=
  match units.find? (·.nodeId = span.nodeId) with
  | some unit => (unit.text.drop span.charStart).take (span.charEnd - span.charStart)
  | none => []

/-- A unit as the walk makes it: with a text, and the span of all of it. -/
structure Fresh (unit : ChunkUnit) : Prop where
  spans : unit.nodeSpans = [⟨unit.nodeId, 0, unit.text.length⟩]
  inked : isBlank unit.text = false

theorem fresh_collectUnits {document : CanonicalDocument} {units} (h : document.collectUnits = some units) :
    ∀ u ∈ units, Fresh u := by
  intro u hu
  obtain ⟨node, -, ancestry, hu⟩ := CanonicalDocument.mem_collectUnits h u hu
  simp only [CanonicalDocument.wholeUnit] at hu
  split at hu
  · cases hu
  · next hblank =>
    cases List.mem_singleton.1 hu
    exact ⟨rfl, Bool.eq_false_iff.2 hblank⟩

theorem Fresh.length_pos {unit : ChunkUnit} (h : Fresh unit) : 0 < unit.text.length :=
  List.length_pos_iff.2 fun hnil => by simpa [isBlank, hnil] using h.inked

theorem Fresh.covers {unit : ChunkUnit} (h : Fresh unit) : Covers unit.nodeId 0 unit.nodeSpans unit.text.length := by
  rw [h.spans]
  exact .cons h.length_pos .nil

theorem covered_append {us vs : List ChunkUnit} {ss ts : List NodeSpan} (hs : Covered us ss) (ht : Covered vs ts) :
    Covered (us ++ vs) (ss ++ ts) := by
  induction hs with
  | nil => exact ht
  | cons hown _ ih =>
    rw [List.append_assoc]
    exact .cons hown ih

theorem covered_fresh {units : List ChunkUnit} (h : ∀ u ∈ units, Fresh u) : Covered units (units.flatMap (·.nodeSpans)) := by
  induction units with
  | nil => exact .nil
  | cons unit units ih =>
    exact .cons (h unit List.mem_cons_self).covers (ih fun u hu => h u (List.mem_cons_of_mem _ hu))

/-! ## Splitting -/

theorem lt_windowEnd {text : Text} {start : Nat} (h : start < text.length) (maxTokens : Nat) :
    start < windowEnd text start maxTokens := by
  simp only [windowEnd]
  omega

/-- The windows cover the text. -/
theorem covers_windows (id : Uuid) {text : Text} (maxTokens : Nat) {fuel start : Nat} (hstart : start ≤ text.length)
    (hfuel : text.length ≤ start + fuel) :
    Covers id start ((windows text maxTokens fuel start).map fun w => ⟨id, w.1, w.2⟩) text.length := by
  induction fuel generalizing start with
  | zero =>
    obtain rfl : start = text.length := Nat.le_antisymm hstart hfuel
    exact .nil
  | succ fuel ih =>
    simp only [windows]
    split
    · next hlt =>
      have hnext := lt_windowEnd hlt maxTokens
      exact .cons hnext (ih (windowEnd_le hlt maxTokens) (by omega))
    · next hge =>
      obtain rfl : start = text.length := Nat.le_antisymm hstart (Nat.le_of_not_lt hge)
      exact .nil

theorem spans_splitUnit (unit : ChunkUnit) (maxTokens : Nat) :
    Covers unit.nodeId 0 ((splitUnit unit maxTokens).flatMap (·.nodeSpans)) unit.text.length := by
  have h := covers_windows unit.nodeId maxTokens (Nat.zero_le unit.text.length) (Nat.zero_add _).ge
  rw [List.map_eq_flatMap] at h
  simpa only [splitUnit, List.flatMap_map] using h

/-! ## Joining -/

theorem joinWith_append (sep a b : Text) (parts : List Text) :
    joinWith sep ((a ++ sep ++ b) :: parts) = joinWith sep (a :: b :: parts) := by
  cases parts with
  | nil => rfl
  | cons t parts => simp only [joinWith, List.append_assoc]

/-- The group is made of whole units. -/
structure Joins (group : ChunkUnit) (units : List ChunkUnit) : Prop where
  spans : group.nodeSpans = units.flatMap (·.nodeSpans)
  text : group.text = joinWith ['\n'] (units.map (·.text))

theorem joins_one (unit : ChunkUnit) : Joins unit [unit] := ⟨by simp, rfl⟩

theorem Joins.merge {cursor u v : ChunkUnit} {units : List ChunkUnit} (h : Joins cursor (mergeUnits u v :: units)) :
    Joins cursor (u :: v :: units) := by
  refine ⟨?_, ?_⟩
  · simpa only [List.flatMap_cons, mergeUnits, List.append_assoc] using h.spans
  · have hjoin := joinWith_append ['\n'] u.text v.text (units.map (·.text))
    rw [List.append_assoc] at hjoin
    exact h.text.trans hjoin

/-- The cursor takes units off the front. -/
theorem joins_mergeRun (maxTokens : Nat) (cursor : ChunkUnit) (units : List ChunkUnit) :
    ∃ taken, units = taken ++ (mergeRun maxTokens cursor units).2 ∧
      Joins (mergeRun maxTokens cursor units).1 (cursor :: taken) := by
  induction units generalizing cursor with
  | nil => exact ⟨[], rfl, joins_one cursor⟩
  | cons candidate units ih =>
    simp only [mergeRun]
    split
    · exact ⟨[], rfl, joins_one cursor⟩
    · split
      · exact ⟨[], rfl, joins_one cursor⟩
      · split
        · exact ⟨[], rfl, joins_one cursor⟩
        · obtain ⟨taken, he, h⟩ := ih (mergeUnits cursor candidate)
          exact ⟨candidate :: taken, congrArg (candidate :: ·) he, h.merge⟩

theorem joins_attachHeading (maxTokens : Nat) (heading : ChunkUnit) (units : List ChunkUnit) :
    ∃ taken, units = taken ++ (attachHeading maxTokens heading units).2 ∧
      Joins (attachHeading maxTokens heading units).1 (heading :: taken) := by
  cases units with
  | nil => exact ⟨[], rfl, joins_one heading⟩
  | cons next units =>
    simp only [attachHeading]
    split
    · exact ⟨[next], rfl, (joins_one (mergeUnits heading next)).merge⟩
    · exact ⟨[], rfl, joins_one heading⟩

/-! ## Grouping -/

section Groups

variable {all units : List ChunkUnit} {maxTokens fuel : Nat}

/-- The text of a group is that of its spans, a newline between any two. -/
def Spelled (all : List ChunkUnit) (text : Text) (spans : List NodeSpan) : Prop :=
  text = joinWith ['\n'] (spans.map (sliceOf all))

theorem sliceOf_unit (hall : (all.map (·.nodeId)).Nodup) {unit : ChunkUnit} (hu : unit ∈ all) (start stop : Nat) :
    sliceOf all ⟨unit.nodeId, start, stop⟩ = (unit.text.drop start).take (stop - start) := by
  have hkeyed : Table.Keyed (fun u : ChunkUnit => u.nodeId) all := hall
  have hfind : all.find? (·.nodeId = unit.nodeId) = some unit := Table.lookup_of_mem hkeyed hu
  simp only [sliceOf, hfind]

theorem Joins.spelled (hall : (all.map (·.nodeId)).Nodup) {group : ChunkUnit} (h : Joins group units)
    (hsub : ∀ u ∈ units, u ∈ all ∧ Fresh u) : Spelled all group.text group.nodeSpans := by
  rw [Spelled, h.spans, h.text, List.map_flatMap]
  congr 1
  rw [List.map_eq_flatMap]
  refine List.flatMap_congr fun u hu => ?_
  obtain ⟨hmem, hfresh⟩ := hsub u hu
  simp [hfresh.spans, sliceOf_unit hall hmem]

/-- **Every unit is in the groups, in its place.** -/
theorem covered_groupUnits (hfuel : units.length ≤ fuel) (hfresh : ∀ u ∈ units, Fresh u) :
    Covered units ((groupUnits maxTokens fuel units).flatMap (·.nodeSpans)) := by
  induction fuel generalizing units with
  | zero =>
    obtain rfl := List.length_eq_zero_iff.1 (Nat.le_zero.1 hfuel)
    exact .nil
  | succ fuel ih =>
    cases units with
    | nil => exact .nil
    | cons unit units =>
      have hfuel : units.length ≤ fuel := Nat.le_of_succ_le_succ hfuel
      have hunit := hfresh unit List.mem_cons_self
      have hunits : ∀ u ∈ units, Fresh u := fun u hu => hfresh u (List.mem_cons_of_mem _ hu)
      -- a group of the first unit and what it takes along
      have joined : ∀ {group rest}, (∃ taken, units = taken ++ rest ∧ Joins group (unit :: taken)) →
          Covered (unit :: units) (group.nodeSpans ++ (groupUnits maxTokens fuel rest).flatMap (·.nodeSpans)) := by
        rintro group rest ⟨taken, rfl, hjoins⟩
        have hle : rest.length ≤ fuel := (List.suffix_append taken rest).length_le.trans hfuel
        have hrest := @ih rest hle fun u hu => hunits u (List.mem_append_right _ hu)
        have htaken : Covered (unit :: taken) ((unit :: taken).flatMap (·.nodeSpans)) :=
          covered_fresh fun u hu => by
            rcases List.mem_cons.1 hu with rfl | hu
            · exact hunit
            · exact hunits u (List.mem_append_left _ hu)
        rw [hjoins.spans]
        exact covered_append htaken hrest
      simp only [groupUnits]
      split
      · exact .cons hunit.covers (ih hfuel hunits)
      · split
        · rw [List.flatMap_append]
          exact .cons (spans_splitUnit unit maxTokens) (ih hfuel hunits)
        · split
          · exact joined (joins_attachHeading maxTokens unit units)
          · exact joined (joins_mergeRun maxTokens unit units)

theorem spelled_groupUnits (hall : (all.map (·.nodeId)).Nodup) (hsub : ∀ u ∈ units, u ∈ all ∧ Fresh u) :
    ∀ draft ∈ groupUnits maxTokens fuel units, Spelled all draft.text draft.nodeSpans := by
  induction fuel generalizing units with
  | zero => exact fun _ h => nomatch h
  | succ fuel ih =>
    cases units with
    | nil => exact fun _ h => nomatch h
    | cons unit units =>
      have hunits : ∀ u ∈ units, u ∈ all ∧ Fresh u := fun u hu => hsub u (List.mem_cons_of_mem _ hu)
      have hunit := hsub unit List.mem_cons_self
      have whole : Spelled all unit.text unit.nodeSpans :=
        (joins_one unit).spelled hall fun u hu => List.mem_singleton.1 hu ▸ hunit
      have joined : ∀ {group rest}, (∃ taken, units = taken ++ rest ∧ Joins group (unit :: taken)) →
          ∀ draft ∈ group :: groupUnits maxTokens fuel rest, Spelled all draft.text draft.nodeSpans := by
        rintro group rest ⟨taken, rfl, hjoins⟩ draft hd
        rcases List.mem_cons.1 hd with rfl | hd
        · refine hjoins.spelled hall fun u hu => hsub u ?_
          simp only [List.mem_cons, List.mem_append] at hu ⊢
          tauto
        · exact ih (fun u hu => hunits u (List.mem_append_right _ hu)) draft hd
      simp only [groupUnits]
      split
      · intro draft hd
        rcases List.mem_cons.1 hd with rfl | hd
        · exact whole
        · exact ih hunits draft hd
      · split
        · intro draft hd
          rcases List.mem_append.1 hd with hd | hd
          · obtain ⟨window, -, rfl⟩ := List.mem_map.1 hd
            exact (sliceOf_unit hall hunit.1 window.1 window.2).symm
          · exact ih hunits draft hd
        · split
          · exact joined (joins_attachHeading maxTokens unit units)
          · exact joined (joins_mergeRun maxTokens unit units)

end Groups

/-! ## Links -/

/-- Each chunk names the one before it and the one after it. -/
def ChunksLinked (chunks : List Chunk) : Prop :=
  ∀ i c, chunks[i]? = some c →
    c.prevChunkId = (if i = 0 then none else chunks[i - 1]?.map (·.chunkId)) ∧
      c.nextChunkId = chunks[i + 1]?.map (·.chunkId)

namespace Runtime

theorem getElem?_linkChunks (previous : Option Uuid) (chunks : List Chunk) (i : Nat) :
    (linkChunks previous chunks)[i]? = chunks[i]?.map fun c =>
      { c with
        prevChunkId := if i = 0 then previous else chunks[i - 1]?.map (·.chunkId)
        nextChunkId := chunks[i + 1]?.map (·.chunkId) } := by
  induction chunks generalizing previous i with
  | nil => rfl
  | cons c chunks ih =>
    cases i with
    | zero => simp [linkChunks, List.head?_eq_getElem?]
    | succ i =>
      simp only [linkChunks, List.getElem?_cons_succ, ih, Nat.succ_ne_zero, if_false, Nat.add_sub_cancel]
      cases i with
      | zero => simp
      | succ i => simp

theorem linked_linkChunks (chunks : List Chunk) : ChunksLinked (linkChunks none chunks) := by
  have hid : ∀ i : Nat, (linkChunks none chunks)[i]?.map (fun c => c.chunkId) = chunks[i]?.map (fun c => c.chunkId) := by
    intro i
    rw [getElem?_linkChunks, Option.map_map]
    rfl
  intro i c hc
  rw [getElem?_linkChunks] at hc
  obtain ⟨c', -, rfl⟩ := Option.map_eq_some_iff.1 hc
  rw [hid, hid]
  exact ⟨rfl, rfl⟩

theorem map_linkChunks {α : Type} (f : Chunk → α) (hf : ∀ c p n, f { c with prevChunkId := p, nextChunkId := n } = f c)
    (previous : Option Uuid) (chunks : List Chunk) : (linkChunks previous chunks).map f = chunks.map f := by
  induction chunks generalizing previous with
  | nil => rfl
  | cons c chunks ih => simp only [linkChunks, List.map_cons, hf, ih]

/-- What is read of a chunk other than its place and its neighbours is that of its group. -/
theorem map_chunkDocument {α : Type} {rt : Runtime} {document : CanonicalDocument} {profile : ChunkerProfile}
    {units : List ChunkUnit} {chunks : List Chunk} (f : Chunk → α)
    (hlinks : ∀ c p n, f { c with prevChunkId := p, nextChunkId := n } = f c)
    (hplace : ∀ draft i, f (rt.chunkOf profile draft i) = f (rt.chunkOf profile draft 0))
    (hunits : document.collectUnits = some units) (h : rt.chunkDocument document profile = some chunks) :
    1 ≤ profile.maxTokens ∧ chunks.map f =
      (groupUnits profile.maxTokens units.length units).map fun draft => f (rt.chunkOf profile draft 0) := by
  simp only [chunkDocument] at h
  split at h
  · cases h
  next hmax =>
  rw [hunits] at h
  cases h
  refine ⟨Nat.le_of_not_lt hmax, ?_⟩
  rw [map_linkChunks f hlinks]
  refine List.ext_getElem? fun i => ?_
  simp only [List.getElem?_map, List.getElem?_mapIdx, Option.map_map]
  cases (groupUnits profile.maxTokens units.length units)[i]? with
  | none => rfl
  | some draft => exact congrArg some (hplace draft i)

/-- The texts and the spans of the chunks are those of the groups. -/
theorem map_chunks (rt : Runtime) (profile : ChunkerProfile) (drafts : List ChunkUnit) :
    (linkChunks none (drafts.mapIdx fun order draft => rt.chunkOf profile draft order)).map (fun c => (c.text, c.nodeSpans)) =
      drafts.map fun d => (d.text, d.nodeSpans) := by
  rw [map_linkChunks _ (fun _ _ _ => rfl)]
  refine List.ext_getElem? fun i => ?_
  simp only [List.getElem?_map, List.getElem?_mapIdx, Option.map_map]
  rfl

end Runtime

/-- **Chunking is lossless and in order.** -/
theorem chunking_lossless {rt : Runtime} {document : CanonicalDocument} {profile : ChunkerProfile} (hforest : document.Forest)
    (hmax : 1 ≤ profile.maxTokens) :
    ∃ units chunks, document.collectUnits = some units ∧ (units.map (·.nodeId)).Nodup ∧
      rt.chunkDocument document profile = some chunks ∧ Covered units (chunks.flatMap (·.nodeSpans)) ∧
      (∀ c ∈ chunks, Spelled units c.text c.nodeSpans) ∧ ChunksLinked chunks := by
  obtain ⟨units, hunits⟩ := CanonicalDocument.collectUnits_forest hforest
  have hdup := CanonicalDocument.nodup_collectUnits hforest hunits
  have hfresh := fresh_collectUnits hunits
  have hmap := rt.map_chunks profile (groupUnits profile.maxTokens units.length units)
  have hchunks : rt.chunkDocument document profile = some (Runtime.linkChunks none
      ((groupUnits profile.maxTokens units.length units).mapIdx fun order draft => rt.chunkOf profile draft order)) := by
    rw [Runtime.chunkDocument, if_neg (Nat.not_lt.2 hmax), hunits]
    rfl
  refine ⟨units, _, hunits, hdup, hchunks, ?_, ?_, Runtime.linked_linkChunks _⟩
  · have hspans := congrArg (List.flatMap Prod.snd) hmap
    simp only [List.flatMap_map] at hspans
    rw [hspans]
    exact covered_groupUnits (Nat.le_refl _) hfresh
  · intro c hc
    have hmem := List.mem_map_of_mem (f := fun c : Chunk => (c.text, c.nodeSpans)) hc
    rw [hmap] at hmem
    obtain ⟨draft, hd, he⟩ := List.mem_map.1 hmem
    obtain ⟨htext, hspans⟩ := Prod.mk.inj he
    rw [← htext, ← hspans]
    exact spelled_groupUnits hdup (fun u hu => ⟨hu, hfresh u hu⟩) draft hd

/-- The text `hi`, parsed, is a root and a paragraph. -/
theorem forest_hi : (sampleRuntime.textDocument 1#128 ['h', 'i']).Forest where
  ids := by decide
  roots := by decide
  top := by
    intro root hroot
    cases List.mem_singleton.1 hroot
    exact ⟨_, List.mem_cons_self, rfl, rfl⟩
  rooted := by
    intro node hn
    refine ⟨_, List.mem_singleton.2 rfl, ?_⟩
    rcases List.mem_cons.1 hn with rfl | hn
    · exact .refl
    · cases List.mem_singleton.1 hn
      exact .single ⟨_, List.mem_cons_of_mem _ List.mem_cons_self, rfl, rfl⟩

theorem chunking_lossless_hi : ∃ units chunks,
    (sampleRuntime.textDocument 1#128 ['h', 'i']).collectUnits = some units ∧ (units.map (·.nodeId)).Nodup ∧
      sampleRuntime.chunkDocument (sampleRuntime.textDocument 1#128 ['h', 'i']) structuralChunkerV1 = some chunks ∧
      Covered units (chunks.flatMap (·.nodeSpans)) ∧ (∀ c ∈ chunks, Spelled units c.text c.nodeSpans) ∧ ChunksLinked chunks :=
  chunking_lossless forest_hi (by decide)

end MilpbookLM
