import Swayr.Tree.Index
import Swayr.Tree.Position

/-!
# The node tree

`NodeIter` runs through a tree in pre-order, position by position, and
`get_tree` builds maps that mirror the tree, so that the walks along them end at
the nearest ancestor.
-/

namespace Swayr.Theorems.NodeTree

open Swayr.Ipc Swayr.Tree

/-! ## Node iteration -/

/-- The calls of `next` return the nodes of the list one by one, and then `None`. -/
inductive Yields : NodeIter → List Node → Prop
  | done {it : NodeIter} : it.next = none → Yields it []
  | next {it it' : NodeIter} {n : Node} {ns : List Node} :
      it.next = some (n, it') → Yields it' ns → Yields it (n :: ns)

/-- The iterator is run to its end. -/
theorem yields_collect (it : NodeIter) : Yields it it.collect := by
  fun_induction NodeIter.collect it with
  | case1 it h => exact .done h
  | case2 it n it' h ih => exact .next h ih

/-- The iterator ends after yielding the node at every position of the tree
exactly once: each position is followed by the block of those below it, tiled
children's blocks before floating ones'. -/
theorem iter_preorder (n : Node) :
    Yields (NodeIter.new n) n.iter ∧ n.iter = n.preorder ∧
    ∃ ps : List Position, n.iter.map some = ps.map n.at? ∧
      ps.Nodup ∧ (∀ p, p ∈ ps ↔ (n.at? p).isSome) ∧
      (∀ p ∈ ps, ∃ before below after, ps = before ++ (p :: below) ++ after ∧
        ∀ q, q ∈ p :: below ↔ q ∈ ps ∧ p <+: q) ∧
      ∀ p i q j r, p ++ .tiled i :: q ∈ ps → p ++ .floating j :: r ∈ ps →
        [p ++ .tiled i :: q, p ++ .floating j :: r].Sublist ps := by
  refine ⟨yields_collect (NodeIter.new n), n.iter_eq_preorder, n.positions, ?_,
    n.nodup_positions, fun p => Node.mem_positions, fun p hp => Node.positions_block hp,
    fun p i q j r hq hr => Node.tiled_before_floating hq hr⟩
  rw [n.iter_eq_preorder, n.map_at?_positions]

/-! ## The index -/

/-- Ids that do not occur are not in the index. -/
theorem idNode_foreign (t : Tree) {i : Int} (h : ¬ HasId t.root i) :
    t.index.idNode i = none ∧ t.index.idParent i = none := by
  rw [t.built]
  exact initIdParent_agreeAt h none .empty

/-- The index holds the nodes of the tree and nothing else. -/
theorem idNode_eq_some (t : Tree) {i : Int} {n : Node} :
    t.index.idNode i = some n ↔ n ∈ t.root.preorder ∧ n.id = i := by
  constructor
  · intro h
    by_cases hi : HasId t.root i
    · obtain ⟨m, hm, rfl⟩ := hi
      rw [t.idNode_mem hm] at h
      obtain rfl := Option.some.inj h
      exact ⟨hm, rfl⟩
    · rw [(idNode_foreign t hi).1] at h
      simp at h
  · rintro ⟨hn, rfl⟩
    exact t.idNode_mem hn

theorem idParent_eq_some (t : Tree) {i j : Int} :
    t.index.idParent i = some j ↔
      ∃ p ∈ t.root.preorder, ∃ c ∈ p.nodes ++ p.floatingNodes, c.id = i ∧ p.id = j := by
  constructor
  · intro h
    by_cases hi : HasId t.root i
    · obtain ⟨m, hm, rfl⟩ := hi
      rcases eq_root_or_child hm with rfl | ⟨p, hp, hmp⟩
      · rw [t.idParent_root] at h
        simp at h
      · rw [t.idParent_child hp hmp] at h
        exact ⟨p, hp, m, mem_nodes_append.mpr hmp, rfl, Option.some.inj h⟩
    · rw [(idNode_foreign t hi).2] at h
      simp at h
  · rintro ⟨p, hp, c, hc, rfl, rfl⟩
    exact t.idParent_child hp (mem_nodes_append.mp hc)

/-- All nodes but the root have a parent. -/
theorem idParent_isSome (t : Tree) {i : Int} :
    (t.index.idParent i).isSome ↔ HasId t.root i ∧ i ≠ t.root.id := by
  constructor
  · intro h
    obtain ⟨j, hj⟩ := Option.isSome_iff_exists.mp h
    obtain ⟨p, hp, c, hc, rfl, -⟩ := (idParent_eq_some t).mp hj
    refine ⟨⟨c, mem_preorder_trans hp (mem_preorder_of_mem_children (mem_nodes_append.mp hc)
      (mem_preorder_self c)), rfl⟩, ?_⟩
    intro heq
    rw [heq, t.idParent_root] at hj
    simp at hj
  · rintro ⟨⟨n, hn, rfl⟩, hne⟩
    rcases eq_root_or_child hn with rfl | ⟨p, hp, hc⟩
    · exact absurd rfl hne
    · rw [t.idParent_child hp hc]
      rfl

/-- `m` is the nearest node of type `k` among `n` and its ancestors. -/
def Nearest (root n : Node) (k : Kind) (m : Node) : Prop :=
  m ∈ root.preorder ∧ n ∈ m.preorder ∧ m.getType = k ∧
    ∀ v ∈ root.preorder, n ∈ v.preorder → v.getType = k → m ∈ v.preorder

/-- Lines of ancestors are unique, so there is one nearest ancestor. -/
theorem nearest_unique {root n m m' : Node} {k : Kind} (h : Nearest root n k m)
    (h' : Nearest root n k m') : m = m' := by
  have hm : m ∈ m'.preorder := h.2.2.2 m' h'.1 h'.2.1 h'.2.2.1
  have hm' : m' ∈ m.preorder := h'.2.2.2 m h.1 h.2.1 h.2.2.1
  -- each contains the other, so neither is strictly smaller
  have hle := size_le_of_mem_preorder hm'
  rcases mem_preorder_iff.mp hm with heq | ⟨c, hc, hmc⟩
  · exact heq
  · have hlt := Node.size_lt_of_mem_children hc
    have hle' := size_le_of_mem_preorder hmc
    omega

/-- With fuel for every node of the tree the walk returns, and what it returns
is the nearest ancestor. -/
theorem lookup_nearest (t : Tree) {n : Node} (hn : n ∈ t.root.preorder) (k : Kind) :
    ∃ r, (∀ fuel, t.root.size ≤ fuel → t.lookup fuel n.id k = .ok r) ∧
      (∀ m, r = some m ↔ Nearest t.root n k m) ∧
      (r = none ↔ ∀ m ∈ t.root.preorder, n ∈ m.preorder → m.getType ≠ k) := by
  obtain ⟨rest, hl⟩ := exists_lineage hn
  have hlen := hl.length_le
  have hsize : 0 < n.size := by
    rw [Node.size_eq]
    omega
  have hfound : ∀ m, (n :: rest).find? (fun m => m.getType == k) = some m →
      Nearest t.root n k m := by
    intro m hm
    have hmem := List.mem_of_find?_eq_some hm
    exact ⟨hl.mem_all m hmem, hl.head_mem n rest rfl m hmem, by simpa using List.find?_some hm,
      fun v hv hnv hk => t.nearest_mem hl hm hv hk hnv⟩
  -- The lookup is a search along the line of ancestors.
  refine ⟨(n :: rest).find? fun m => m.getType == k, ?_, ?_, ?_⟩
  · intro fuel hfuel
    refine t.lookup_lineage hl k fuel ?_ rfl
    simp only [List.length_cons]
    omega
  · intro m
    refine ⟨hfound m, ?_⟩
    intro hm
    cases hfind : (n :: rest).find? fun m => m.getType == k with
    | none =>
        rw [List.find?_eq_none] at hfind
        have := hfind m (t.mem_lineage hl hm.1 hm.2.1)
        simp [hm.2.2.1] at this
    | some m' => rw [nearest_unique (hfound m' hfind) hm]
  · rw [List.find?_eq_none]
    constructor
    · intro h m hm hnm
      simpa using h m (t.mem_lineage hl hm hnm)
    · intro h m hm
      simpa using h m (hl.mem_all m hm) (hl.head_mem n rest rfl m hm)

/-- The maps of `get_tree` mirror the tree, and `get_parent_node_of_type`
returns the nearest ancestor-or-self of the wanted type. -/
theorem getTree_index (root : Node) (h : DistinctIds root) :
    (∀ i n, (getTree root h).index.idNode i = some n ↔ n ∈ root.preorder ∧ n.id = i) ∧
    (∀ i j, (getTree root h).index.idParent i = some j ↔
      ∃ p ∈ root.preorder, ∃ c ∈ p.nodes ++ p.floatingNodes, c.id = i ∧ p.id = j) ∧
    (∀ i, ((getTree root h).index.idParent i).isSome ↔ HasId root i ∧ i ≠ root.id) ∧
    ∀ n ∈ root.preorder, ∀ k, ∃ r,
      (∀ fuel, root.size ≤ fuel → (getTree root h).lookup fuel n.id k = .ok r) ∧
      (∀ m, r = some m ↔ Nearest root n k m) ∧
      (r = none ↔ ∀ m ∈ root.preorder, n ∈ m.preorder → m.getType ≠ k) :=
  ⟨fun _ _ => idNode_eq_some (getTree root h), fun _ _ => idParent_eq_some (getTree root h),
    fun _ => idParent_isSome (getTree root h), fun _ hn k => lookup_nearest (getTree root h) hn k⟩

/-- A tiled and a floating window on one workspace. -/
def twoWindows : Node :=
  .mk ⟨{ id := 900, nodeType := .root }, rfl⟩
    [.mk ⟨{ id := 901, nodeType := .workspace }, rfl⟩
      [.mk ⟨{ id := 902, nodeType := .con, pid := some 700 }, rfl⟩ [] []]
      [.mk ⟨{ id := 903, nodeType := .floatingCon, pid := some 701 }, rfl⟩ [] []]] []

/-- A tree with two windows. -/
theorem getTree_index_twoWindows : ∃ h : DistinctIds twoWindows,
    (∀ i n, (getTree twoWindows h).index.idNode i = some n ↔
      n ∈ twoWindows.preorder ∧ n.id = i) ∧
    ((getTree twoWindows h).index.idParent 903).isSome := by
  have hdistinct : DistinctIds twoWindows := by decide
  have hindex := getTree_index twoWindows hdistinct
  refine ⟨hdistinct, hindex.1, ?_⟩
  rw [hindex.2.2.1]
  exact ⟨⟨.mk ⟨{ id := 903, nodeType := .floatingCon, pid := some 701 }, rfl⟩ [] [],
    by decide, rfl⟩, by decide⟩

end Swayr.Theorems.NodeTree
