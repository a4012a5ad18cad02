/-
The trees that the parsers make. Each of them emits a node, then all that is below it,
and numbers the children of a node upwards (`Below`), and gives every node an identity
of its own. So, unless two of these identities have the same UUID, a parsed document
is one tree: it is persisted in its order, and the chunker walks it in its order
(`parsed_wellFormed`).
-/
import MilpbookLM.Documents.CsvParser
import MilpbookLM.Documents.Lossless
import MilpbookLM.Documents.MarkdownProgress
import MilpbookLM.Lib.Outline

namespace MilpbookLM

open Outline Relation

/-! ## Well-formed trees -/

namespace CanonicalDocument

variable (document : CanonicalDocument)

/-- What `_table_text` reads below a table. -/
def tableVisits (id : Uuid) : List Uuid :=
  let children := document.children id
  let rows := children.filter (·.kind = .row)
  if rows ≠ [] then
    rows.flatMap fun row => row.nodeId :: ((document.children row.nodeId).filter (·.kind = .cell)).map (·.nodeId)
  else children.map (·.nodeId)

/-- The nodes that `_walk_units` comes to, in its order. -/
def visits : Nat → Uuid → Option (List Uuid)
  | 0, _ => none
  | fuel + 1, id => do
    let node ← document.node? id
    if holdsNodes node.kind ∨ node.kind = .list then
      let below ← ((document.children id).map (·.nodeId)).mapM (visits fuel)
      pure (id :: below.flatten)
    else if node.kind = .table then pure (id :: document.tableVisits id)
    else pure [id]

end CanonicalDocument

/-- One tree, in depth-first order. -/
structure WellFormedTree (rt : Runtime) (document : CanonicalDocument) : Prop where
  ids : (document.nodes.map (·.nodeId)).Nodup
  root : ∃ root, document.nodes.filter (·.parentId = none) = [root] ∧ document.rootNodeIds = [root.nodeId]
  parents : ParentsFirst [] document.nodes
  stored : ∀ db, rt.insertDocument db document ≠ .error .parentOrder
  acyclic : ∀ id, ¬ TransGen document.ParentOf id id
  siblings : document.nodes.Pairwise fun m n => m.parentId = n.parentId → m.childOrder < n.childOrder
  walked : ∀ fuel, document.nodes.length + 3 < fuel →
    document.rootNodeIds.mapM (document.visits fuel) = some [document.nodes.map (·.nodeId)]
  units : ∀ units, document.collectUnits = some units → (units.map (·.nodeId)).Sublist (document.nodes.map (·.nodeId))

/-! ## Outlines of nodes -/

/-- Which kinds of nodes the parsers put below which. -/
def mayHold : NodeKind → NodeKind → Bool
  | .document, kind => kind ≠ .row ∧ kind ≠ .document
  | .list, kind => kind = .listItem
  | .table, kind => kind = .row
  | .row, kind => kind = .cell
  | _, _ => false

def treeLinks : Links CanonicalNode Uuid where
  id := CanonicalNode.nodeId
  parent := CanonicalNode.parentId
  order := CanonicalNode.childOrder
  holds m n := mayHold m.kind n.kind = true

theorem ParentsFirst.mono {seen seen' : List Uuid} {nodes : List CanonicalNode} (h : ParentsFirst seen nodes)
    (hsub : seen ⊆ seen') : ParentsFirst seen' nodes := by
  induction nodes generalizing seen seen' with
  | nil => trivial
  | cons node nodes ih => exact ⟨fun p hp => hsub (h.1 p hp), ih h.2 (List.cons_subset_cons _ hsub)⟩

theorem parentsFirst_of_below {p : CanonicalNode} {lo hi : Nat} {nodes tail : List CanonicalNode} {seen : List Uuid}
    (h : Below treeLinks p lo hi nodes) (hp : p.nodeId ∈ seen)
    (htail : ∀ seen', seen ⊆ seen' → ParentsFirst seen' tail) : ParentsFirst seen (nodes ++ tail) := by
  induction h generalizing seen tail with
  | nil => exact htail seen (List.Subset.refl _)
  | @cons p n _ _ _ sub rest hparent _ _ _ _ ihsub ihrest =>
    rw [List.cons_append, List.append_assoc]
    refine ⟨fun q hq => ?_, ihsub List.mem_cons_self fun seen' hseen => ihrest ?_ fun seen'' hseen' => ?_⟩
    · have hparent' : n.parentId = some p.nodeId := hparent
      rw [hparent'] at hq
      cases hq
      exact hp
    · exact hseen (List.mem_cons_of_mem _ hp)
    · exact htail seen'' fun q hq => hseen' (hseen (List.mem_cons_of_mem _ hq))

/-- Every node below `p` leads up to it. -/
theorem reaches_of_below {document : CanonicalDocument} {p : CanonicalNode} {lo hi : Nat} {nodes : List CanonicalNode}
    (h : Below treeLinks p lo hi nodes) (hsub : ∀ n ∈ nodes, n ∈ document.nodes) :
    ∀ n ∈ nodes, ReflTransGen document.ParentOf n.nodeId p.nodeId := by
  induction h with
  | nil =>
    intro n hn
    cases hn
  | @cons p n _ _ _ sub rest hparent _ _ _ _ ihsub ihrest =>
    have hup : document.ParentOf n.nodeId p.nodeId := ⟨n, hsub n List.mem_cons_self, rfl, hparent⟩
    intro m hm
    rcases List.mem_cons.1 hm with rfl | hm
    · exact .single hup
    · rcases List.mem_append.1 hm with hm | hm
      · exact (ihsub (fun x hx => hsub x (List.mem_cons_of_mem _ (List.mem_append_left _ hx))) m hm).tail hup
      · exact ihrest (fun x hx => hsub x (List.mem_cons_of_mem _ (List.mem_append_right _ hx))) m hm

/-- A document that is the outline of its root. -/
structure Outlined (document : CanonicalDocument) (root : CanonicalNode) (sub : List CanonicalNode) : Prop where
  nodes : document.nodes = root :: sub
  roots : document.rootNodeIds = [root.nodeId]
  kind : root.kind = .document
  top : root.parentId = none
  below : ∃ hi, Below treeLinks root 0 hi sub
  ids : (document.nodes.map (·.nodeId)).Nodup

namespace Outlined

variable {document : CanonicalDocument} {root n child : CanonicalNode} {sub : List CanonicalNode} {fuel : Nat}

theorem siblings (h : Outlined document root sub) :
    document.nodes.Pairwise fun m n => m.parentId = n.parentId → m.childOrder < n.childOrder := by
  obtain ⟨hi, hbelow⟩ := h.below
  have hdup := h.ids
  rw [h.nodes] at hdup ⊢
  refine .cons (fun n hn heq => ?_) (hbelow.increasing hdup)
  obtain ⟨q, -, hlink⟩ := hbelow.parent_mem hn
  rw [h.top] at heq
  exact absurd (heq.trans hlink) (by simp)

theorem children_eq (h : Outlined document root sub) (q : Uuid) : document.children q = under treeLinks sub q := by
  have hsorted : (document.nodes.filter (·.parentId = some q)).Pairwise fun m n => m.childOrder ≤ n.childOrder := by
    refine (h.siblings.filter _).imp_of_mem fun {m n} hm hn hmn => Nat.le_of_lt (hmn ?_)
    simp only [List.mem_filter, decide_eq_true_eq] at hm hn
    rw [hm.2, hn.2]
  rw [CanonicalDocument.children, hsorted.insertionSort_eq, h.nodes, List.filter_cons_of_neg (by simp [h.top])]
  rfl

/-- What is found as a child of a node may stand there. -/
theorem mem_children (h : Outlined document root sub) (hn : n ∈ document.nodes)
    (hchild : child ∈ document.children n.nodeId) : child ∈ document.nodes ∧ mayHold n.kind child.kind = true := by
  obtain ⟨hi, hbelow⟩ := h.below
  rw [h.children_eq] at hchild
  obtain ⟨hmem, hparent⟩ := List.mem_filter.1 hchild
  obtain ⟨m, hm, hlink, hholds⟩ := hbelow.holder hmem
  rw [← h.nodes] at hm
  have hid : m.nodeId = n.nodeId := Option.some.inj (hlink.symm.trans (by simpa using hparent))
  obtain rfl : m = n := List.inj_on_of_nodup_map h.ids hm hn hid
  exact ⟨by rw [h.nodes]; exact List.mem_cons_of_mem _ hmem, hholds⟩

theorem children_leaf (h : Outlined document root sub) (hn : n ∈ document.nodes)
    (hleaf : ∀ kind, mayHold n.kind kind = false) : document.children n.nodeId = [] := by
  refine List.eq_nil_iff_forall_not_mem.2 fun child hchild => ?_
  have hmay := (h.mem_children hn hchild).2
  rw [hleaf] at hmay
  cases hmay

theorem forest (h : Outlined document root sub) : document.Forest := by
  obtain ⟨hi, hbelow⟩ := h.below
  have hroot : root ∈ document.nodes := by
    rw [h.nodes]
    exact List.mem_cons_self
  refine ⟨h.ids, by simp [h.roots], fun r hr => ?_, fun n hn => ⟨root.nodeId, by simp [h.roots], ?_⟩⟩
  · rw [h.roots, List.mem_singleton] at hr
    exact ⟨root, hroot, hr.symm, h.top⟩
  · rw [h.nodes] at hn
    rcases List.mem_cons.1 hn with rfl | hn
    · exact .refl
    · exact reaches_of_below hbelow (fun m hm => by rw [h.nodes]; exact List.mem_cons_of_mem _ hm) n hn

/-- The depth-first walk over the children, without regard to kinds. -/
theorem walk_eq (h : Outlined document root sub) (hfuel : document.nodes.length ≤ fuel) :
    walk treeLinks document.children fuel root.nodeId = document.nodes.map (·.nodeId) := by
  obtain ⟨hi, hbelow⟩ := h.below
  have hdup := h.ids
  rw [h.nodes] at hdup hfuel
  obtain ⟨fuel, rfl⟩ : ∃ k, fuel = k + 1 := ⟨fuel - 1, by simp at hfuel; omega⟩
  have hwalk := @Below.walk _ _ treeLinks root 0 hi sub _ document.children fuel hbelow hdup (fun q _ => h.children_eq q)
    (by simpa using hfuel)
  rw [walk, h.children_eq, h.nodes, List.map_cons]
  exact congrArg _ hwalk

theorem walk_leaf (h : Outlined document root sub) (hn : n ∈ document.nodes) (hleaf : ∀ kind, mayHold n.kind kind = false)
    (fuel : Nat) : walk treeLinks document.children (fuel + 1) n.nodeId = [n.nodeId] := by
  rw [walk, h.children_leaf hn hleaf, List.flatMap_nil]

/-- Below a table, everything is read. -/
theorem tableVisits_eq (h : Outlined document root sub) (hn : n ∈ document.nodes) (hkind : n.kind = .table) (fuel : Nat) :
    document.tableVisits n.nodeId =
      (document.children n.nodeId).flatMap fun row => walk treeLinks document.children (fuel + 2) row.nodeId := by
  have hrow : ∀ row ∈ document.children n.nodeId, row ∈ document.nodes ∧ row.kind = .row := by
    intro row hr
    obtain ⟨hmem, hmay⟩ := h.mem_children hn hr
    exact ⟨hmem, by simpa [hkind, mayHold] using hmay⟩
  have hrows : (document.children n.nodeId).filter (·.kind = .row) = document.children n.nodeId :=
    List.filter_eq_self.2 fun row hr => by simp [(hrow row hr).2]
  have hread : ∀ row ∈ document.children n.nodeId,
      row.nodeId :: ((document.children row.nodeId).filter (·.kind = .cell)).map (·.nodeId) =
        walk treeLinks document.children (fuel + 2) row.nodeId := by
    intro row hr
    obtain ⟨hmem, hk⟩ := hrow row hr
    have hcell : ∀ cell ∈ document.children row.nodeId, cell ∈ document.nodes ∧ cell.kind = .cell := by
      intro cell hc
      obtain ⟨hcmem, hmay⟩ := h.mem_children hmem hc
      exact ⟨hcmem, by simpa [hk, mayHold] using hmay⟩
    rw [List.filter_eq_self.2 fun cell hc => by simp [(hcell cell hc).2], walk, List.map_eq_flatMap]
    refine congrArg _ (List.flatMap_congr fun cell hc => ?_)
    obtain ⟨hcmem, hck⟩ := hcell cell hc
    exact (h.walk_leaf hcmem (by simp [hck, mayHold]) fuel).symm
  simp only [CanonicalDocument.tableVisits, hrows]
  split
  · exact List.flatMap_congr hread
  · next hnone =>
    rw [ne_eq, not_not] at hnone
    rw [hnone, List.map_nil, List.flatMap_nil]

/-- What may be visited: every kind but a row, which only a table holds. -/
theorem visits_eq (h : Outlined document root sub) (hn : n ∈ document.nodes) (hkind : n.kind ≠ .row ∧ n.kind ≠ .document) :
    document.visits (fuel + 3) n.nodeId = some (walk treeLinks document.children (fuel + 3) n.nodeId) := by
  rw [CanonicalDocument.visits, CanonicalDocument.node?_of_mem h.ids hn, Option.bind_eq_bind, Option.bind_some]
  by_cases hlist : n.kind = .list
  · have hitem : ∀ item ∈ document.children n.nodeId,
        document.visits (fuel + 2) item.nodeId = some (walk treeLinks document.children (fuel + 2) item.nodeId) := by
      intro item hi
      obtain ⟨hmem, hmay⟩ := h.mem_children hn hi
      have hk : item.kind = .listItem := by simpa [hlist, mayHold] using hmay
      rw [h.walk_leaf hmem (by simp [hk, mayHold]), CanonicalDocument.visits, CanonicalDocument.node?_of_mem h.ids hmem]
      simp [hk, CanonicalDocument.holdsNodes]
    rw [if_pos (.inr hlist), Runtime.mapM_map_some hitem, walk]
    rfl
  · by_cases htable : n.kind = .table
    · rw [if_neg (by simp [htable, CanonicalDocument.holdsNodes]), if_pos htable, h.tableVisits_eq hn htable fuel, walk]
      rfl
    · have hleaf : ∀ kind, mayHold n.kind kind = false := by
        intro kind
        unfold mayHold
        split <;> simp_all
      rw [h.walk_leaf hn hleaf, h.children_leaf hn hleaf, if_neg htable]
      split <;> rfl

/-- **The chunker walks the document in its order.** -/
theorem visits_root (h : Outlined document root sub) (hfuel : document.nodes.length + 3 < fuel) :
    document.visits fuel root.nodeId = some (document.nodes.map (·.nodeId)) := by
  obtain ⟨fuel, rfl⟩ : ∃ k, fuel = k + 4 := ⟨fuel - 4, by omega⟩
  have hroot : root ∈ document.nodes := by
    rw [h.nodes]
    exact List.mem_cons_self
  have hchild : ∀ child ∈ document.children root.nodeId,
      document.visits (fuel + 3) child.nodeId = some (walk treeLinks document.children (fuel + 3) child.nodeId) := by
    intro child hc
    obtain ⟨hmem, hmay⟩ := h.mem_children hroot hc
    exact h.visits_eq hmem (by simpa [h.kind, mayHold] using hmay)
  rw [CanonicalDocument.visits, CanonicalDocument.node?_of_mem h.ids hroot, Option.bind_eq_bind, Option.bind_some,
    if_pos (.inl (by rw [h.kind]; rfl)), Runtime.mapM_map_some hchild,
    ← h.walk_eq (show document.nodes.length ≤ fuel + 4 by omega), walk]
  rfl

theorem sublist_wholeUnit (node : CanonicalNode) (text : Text) (ancestry : List Uuid) :
    ((document.wholeUnit node text ancestry).map (·.nodeId)).Sublist [node.nodeId] := by
  rw [CanonicalDocument.wholeUnit]
  split
  · exact List.nil_sublist _
  · exact List.Sublist.refl _

theorem sublist_mapM {walkOf : Uuid → Option (List ChunkUnit)} {visit : CanonicalNode → List Uuid}
    (hwalk : ∀ node units, walkOf node.nodeId = some units → (units.map (·.nodeId)).Sublist (visit node))
    {nodes : List CanonicalNode} {us : List (List ChunkUnit)} (hus : (nodes.map (·.nodeId)).mapM walkOf = some us) :
    (us.flatten.map (·.nodeId)).Sublist (nodes.flatMap visit) := by
  induction nodes generalizing us with
  | nil =>
    cases hus
    exact List.Sublist.refl _
  | cons node nodes ih =>
    simp only [List.map_cons, List.mapM_cons, Option.bind_eq_bind, Option.bind_eq_some_iff] at hus
    obtain ⟨u, hu, us', hus', h⟩ := hus
    cases h
    rw [List.flatten_cons, List.map_append, List.flatMap_cons]
    exact (hwalk node u hu).append (ih hus')

/-- The units of a walk are of nodes it comes to, in the same order. -/
theorem sublist_walkUnits {ancestry : List Uuid} {id : Uuid} {units : List ChunkUnit}
    (h : document.walkUnits fuel ancestry id = some units) :
    (units.map (·.nodeId)).Sublist (walk treeLinks document.children fuel id) := by
  induction fuel generalizing ancestry id units with
  | zero => cases h
  | succ fuel ih =>
    obtain ⟨node, hnode, ⟨ancestry', us, hus, rfl⟩ | ⟨ancestry', rfl⟩⟩ := CanonicalDocument.walkUnits_cases h
    · exact (sublist_mapM (fun child _ hchild => ih hchild) hus).cons id
    · obtain ⟨-, hid⟩ := CanonicalDocument.node?_some hnode
      rw [← hid, walk]
      exact (sublist_wholeUnit node (document.ownText node) ancestry').trans (List.singleton_sublist.2 List.mem_cons_self)

/-- **The units come in the order of their nodes.** -/
theorem sublist_collectUnits (h : Outlined document root sub) {units : List ChunkUnit}
    (hunits : document.collectUnits = some units) :
    (units.map (·.nodeId)).Sublist (document.nodes.map (·.nodeId)) := by
  obtain ⟨us, hus, rfl⟩ := Option.map_eq_some_iff.1 hunits
  rw [h.roots, List.mapM_cons] at hus
  simp only [List.mapM_nil, Option.bind_eq_bind, Option.bind_eq_some_iff] at hus
  obtain ⟨u, hu, _, hnil, hus⟩ := hus
  cases hnil
  cases hus
  rw [List.flatten_cons, List.flatten_nil, List.append_nil, ← h.walk_eq (Nat.le_succ _)]
  exact sublist_walkUnits hu

end Outlined

/-! ## Persisting -/

namespace Runtime

variable {rt : Runtime}

theorem insertNode_order (db : CanonicalDb) (documentId : Uuid) (node : CanonicalNode) (sequence : Nat) :
    rt.insertNode db documentId node sequence ≠ .error .parentOrder := by
  intro h
  simp only [insertNode] at h
  split_ifs at h <;> cases h

/-- No parent is missing where every one comes first. -/
theorem insertNodes_order {documentId : Uuid} {db : CanonicalDb} {inserted : List Uuid} {sequence : Nat}
    {nodes : List CanonicalNode} (h : ParentsFirst inserted nodes) :
    rt.insertNodes documentId db inserted sequence nodes ≠ .error .parentOrder := by
  induction nodes generalizing db inserted sequence with
  | nil => nofun
  | cons node nodes ih =>
    have hparent : ¬ node.parentId.any (· ∉ inserted) = true := by
      intro hany
      obtain ⟨p, hp, hnot⟩ := (Option.any_eq_true ..).1 hany
      exact of_decide_eq_true hnot (h.1 p hp)
    rw [insertNodes, if_neg hparent]
    cases hinsert : rt.insertNode db documentId node sequence with
    | error e =>
      intro he
      cases he
      exact insertNode_order db documentId node sequence hinsert
    | ok db' => exact ih h.2

end Runtime

/-- **An outline is a well-formed tree.** -/
theorem Outlined.wellFormed {rt : Runtime} {document : CanonicalDocument} {root : CanonicalNode}
    {sub : List CanonicalNode} (h : Outlined document root sub) : WellFormedTree rt document := by
  obtain ⟨hi, hbelow⟩ := h.below
  have hparents : ParentsFirst [] document.nodes := by
    rw [h.nodes, ← List.append_nil sub]
    refine ⟨fun p hp => ?_, parentsFirst_of_below hbelow List.mem_cons_self fun _ _ => trivial⟩
    rw [h.top] at hp
    cases hp
  have hone : document.nodes.filter (·.parentId = none) = [root] := by
    rw [h.nodes, List.filter_cons_of_pos (by simp [h.top]), List.filter_eq_nil_iff.2]
    intro n hn
    obtain ⟨q, -, hlink⟩ := hbelow.parent_mem hn
    have hlink' : n.parentId = some q := hlink
    simp [hlink']
  refine ⟨h.ids, ⟨root, hone, h.roots⟩, hparents, fun db => ?_, fun id => CanonicalDocument.acyclic h.forest id, h.siblings,
    fun fuel hfuel => ?_, fun units => h.sublist_collectUnits⟩
  · exact Runtime.insertNodes_order hparents
  · rw [h.roots, List.mapM_cons, h.visits_root hfuel]
    rfl

end MilpbookLM
