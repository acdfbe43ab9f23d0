import Mathlib.Data.List.Perm.Basic
import Swayr.Kit.Outline
import Swayr.Menu.Display

/-!
# The lists the menus show (`tree.rs`)

Workspaces alone, and the outlines of whole outputs or workspaces. The outlines
are pushed onto one vector by a recursion over the children in sorted order,
while their indentation is computed from the depth in the tree.
-/

namespace Swayr

open Ipc Swayr.Tree Focus

namespace Tree

variable (t : Tree) (ticks : TickMap)

/-- Urgent nodes first, then by descending tick. -/
def UrgentThenRecent (a b : Node) : Prop :=
  (a.urgent = true ∧ b.urgent = false) ∨
    (a.urgent = b.urgent ∧ ticks.lastFocusTick b.id ≤ ticks.lastFocusTick a.id)

instance : DecidableRel (UrgentThenRecent ticks) := fun a b => by
  unfold UrgentThenRecent
  infer_instance

/-- Urgent nodes come first, recently focused ones before others. -/
theorem pairwise_sorted (v : List Node) :
    (sortByUrgencyAndLruTime1 ticks v).Pairwise (UrgentThenRecent ticks) :=
  (pairwise_sortByUrgencyAndLruTime1 ticks v).imp urgencyAndLruCmp_isLE.mp

/-- `sorted_nodes_of_type`. -/
def sortedNodesOfType (k : Kind) : List Node := sortedNodesOfType1 ticks t.root k

/-- No node is listed twice. -/
theorem nodup_sortedNodesOfType (k : Kind) : (t.sortedNodesOfType ticks k).Nodup := by
  rw [sortedNodesOfType, sortedNodesOfType1, sortByUrgencyAndLruTime1,
    (Kit.sortBy_perm _ _).nodup_iff, Node.nodesOfType_eq]
  exact (List.Nodup.of_map Node.id t.distinct).filter _

/-- The nodes of `get_workspaces`. -/
def workspaceNodes : List Node :=
  let v := t.sortedNodesOfType ticks .workspace
  if !v.isEmpty then v.rotate 1 else v

/-- The most recent workspace, which is the current one, is put last. -/
theorem workspaceNodes_eq :
    t.workspaceNodes ticks = (t.sortedNodesOfType ticks .workspace).rotate 1 := by
  unfold workspaceNodes
  cases h : t.sortedNodesOfType ticks .workspace <;> simp

theorem mem_workspaceNodes {n : Node} :
    n ∈ t.workspaceNodes ticks ↔ n ∈ t.root.preorder ∧ n.getType = .workspace := by
  rw [workspaceNodes_eq, List.mem_rotate, sortedNodesOfType, mem_sortedNodesOfType1]

def getWorkspaces : List DisplayNode :=
  t.asDisplayNodes (t.workspaceNodes ticks) (.fixed 0)
    fun _ hn => ((t.mem_workspaceNodes ticks).mp hn).1

def getOutputs : List DisplayNode :=
  t.asDisplayNodes
    (t.root.iter.filter fun n => n.getType == .output && !n.isScratchpad) (.fixed 0)
    fun _ hn => by
      rw [Node.iter_eq_preorder] at hn
      exact (List.mem_filter.mp hn).1

/-! ## Subtrees -/

/-- The children in the order in which they are pushed. -/
def sortedChildren (n : Node) : List Node :=
  sortByUrgencyAndLruTime1 ticks (n.nodes ++ n.floatingNodes)

theorem mem_sortedChildren {n c : Node} : c ∈ sortedChildren ticks n ↔ c ∈ n.children := by
  rw [sortedChildren, sortByUrgencyAndLruTime1, Kit.mem_sortBy, mem_nodes_append]

/-- `push_subtree_sorted`, which returns the vector it pushes onto. -/
def pushSubtreeSorted (n : Node) (v : List Node) : List Node :=
  (sortedChildren ticks n).attach.foldl (fun v c => pushSubtreeSorted c.1 v) (v ++ [n])
termination_by n.size
decreasing_by exact Node.size_lt_of_mem_children ((mem_sortedChildren ticks).mp c.2)

/-- What is pushed for a node. -/
def subtreeSorted (n : Node) : List Node := pushSubtreeSorted ticks n []

/-- Pushing in a loop appends what each turn appends. -/
theorem foldl_push_append {α : Type} {push : α → List Node → List Node} {f : α → List Node}
    {cs : List α} (h : ∀ c ∈ cs, ∀ v, push c v = v ++ f c) (v : List Node) :
    cs.foldl (fun v c => push c v) v = v ++ cs.flatMap f := by
  induction cs generalizing v with
  | nil => simp
  | cons c cs ih =>
      rw [List.foldl_cons, h c List.mem_cons_self, ih fun d hd => h d (List.mem_cons_of_mem c hd)]
      simp

/-- The accumulator is only appended to. -/
theorem pushSubtreeSorted_eq (n : Node) (v : List Node) :
    pushSubtreeSorted ticks n v = v ++ subtreeSorted ticks n := by
  induction n using Node.induct generalizing v with
  | h n ih =>
      have hpush : ∀ v, pushSubtreeSorted ticks n v =
          v ++ [n] ++ (sortedChildren ticks n).attach.flatMap fun c => subtreeSorted ticks c.1 := by
        intro v
        rw [pushSubtreeSorted]
        exact foldl_push_append
          (fun c _ v => ih c.1 ((mem_sortedChildren ticks).mp c.2) v) (v ++ [n])
      rw [subtreeSorted, hpush, hpush]
      simp

/-- A node stands before its children, which come sorted. -/
theorem subtreeSorted_eq (n : Node) :
    subtreeSorted ticks n = n :: (sortedChildren ticks n).flatMap (subtreeSorted ticks) := by
  rw [subtreeSorted, pushSubtreeSorted, foldl_push_append (f := fun c => subtreeSorted ticks c.1)
    (fun c _ v => pushSubtreeSorted_eq ticks c.1 v)]
  simp [List.flatMap_subtype]

/-- Sorting the children at every level loses no node. -/
theorem subtreeSorted_perm (n : Node) : (subtreeSorted ticks n).Perm n.preorder := by
  induction n using Node.induct with
  | h n ih =>
      rw [subtreeSorted_eq, Node.preorder_eq]
      apply List.Perm.cons
      have hchildren : (sortedChildren ticks n).Perm n.children :=
        (Kit.sortBy_perm _ _).trans
          ((List.reverse_perm _).symm.append (List.reverse_perm _).symm)
      refine (hchildren.flatMap_right _).trans ?_
      exact List.Perm.flatMap_left _ ih

/-- The vector after the subtrees of `tops` have been pushed. -/
def pushSubtrees (tops : List Node) : List Node :=
  tops.foldl (fun v o => pushSubtreeSorted ticks o v) []

theorem pushSubtrees_eq (tops : List Node) :
    pushSubtrees ticks tops = tops.flatMap (subtreeSorted ticks) := by
  rw [pushSubtrees, foldl_push_append (f := subtreeSorted ticks)
    (fun n _ v => pushSubtreeSorted_eq ticks n v)]
  simp

/-- What is below one of the given nodes. -/
theorem mem_pushSubtrees {tops : List Node} {n : Node} :
    n ∈ pushSubtrees ticks tops ↔ ∃ o ∈ tops, n ∈ o.preorder := by
  rw [pushSubtrees_eq, List.mem_flatMap]
  simp only [(subtreeSorted_perm ticks _).mem_iff]

theorem mem_pushSubtrees_sorted {k : Kind} {n : Node} :
    n ∈ pushSubtrees ticks (t.sortedNodesOfType ticks k) ↔
      ∃ o ∈ t.root.preorder, o.getType = k ∧ n ∈ o.preorder := by
  simp only [mem_pushSubtrees, sortedNodesOfType, mem_sortedNodesOfType1, and_assoc]

/-- The body the two outline functions share. -/
def subtreesOfType (k : Kind) (offset : Nat) : List DisplayNode :=
  t.asDisplayNodes (pushSubtrees ticks (t.sortedNodesOfType ticks k)) (.treeDepth offset)
    fun _ hn => by
      obtain ⟨o, ho, -, hno⟩ := (t.mem_pushSubtrees_sorted ticks).mp hn
      exact mem_preorder_trans ho hno

def getOutputsWorkspacesContainersAndWindows : List DisplayNode :=
  t.subtreesOfType ticks .output 1

def getWorkspacesContainersAndWindows : List DisplayNode :=
  t.subtreesOfType ticks .workspace 2

/-! ## Depth -/

/-- How many nodes the climb of `get_indent_level` passes above a node. -/
def depthOf (n : Node) : Nat := ((t.climb t.root.size n.id 0).toOption).getD 0

/-- The depth is the number of ancestors. -/
theorem depthOf_lineage {n : Node} {rest : List Node} (hl : Lineage t.root (n :: rest)) :
    t.depthOf n = rest.length := by
  have hlen := hl.length_le
  have hsize := Node.size_eq n
  rw [depthOf, t.climb_lineage hl _ 0 (by simp only [List.length_cons]; omega) rfl]
  simp [Except.toOption]

theorem depthOf_root : t.depthOf t.root = 0 := t.depthOf_lineage .root

/-- A child is one level below its parent. -/
theorem depthOf_child {p c : Node} (hp : p ∈ t.root.preorder) (hc : c ∈ p.children) :
    t.depthOf c = t.depthOf p + 1 := by
  obtain ⟨rest, hl⟩ := exists_lineage hp
  rw [t.depthOf_lineage hl, t.depthOf_lineage (hl.child hc), List.length_cons]

/-- A node is above those below it. -/
theorem depthOf_below {n m : Node} (hn : n ∈ t.root.preorder) (hm : m ∈ n.preorder) :
    m = n ∨ t.depthOf n < t.depthOf m := by
  induction n using Node.induct with
  | h n ih =>
      rcases mem_preorder_iff.mp hm with heq | ⟨c, hc, hmc⟩
      · exact .inl heq
      · have hstep := t.depthOf_child hn hc
        have hcroot := mem_preorder_trans hn (mem_preorder_of_mem_children hc (mem_preorder_self c))
        refine .inr ?_
        rcases ih c hc hcroot hmc with rfl | hlt
        · omega
        · omega

/-- Subtrees of nodes at one depth are disjoint. -/
theorem eq_of_depthOf_eq {a b m : Node} (ha : a ∈ t.root.preorder) (hb : b ∈ t.root.preorder)
    (hma : m ∈ a.preorder) (hmb : m ∈ b.preorder) (hdepth : t.depthOf a = t.depthOf b) :
    a = b := by
  obtain ⟨rest, hl⟩ := exists_lineage (mem_preorder_trans ha hma)
  obtain ⟨below, above, heq⟩ := List.append_of_mem (t.mem_lineage hl ha hma)
  obtain ⟨below', above', heq'⟩ := List.append_of_mem (t.mem_lineage hl hb hmb)
  -- the depth is the length of what is above
  have hla : Lineage t.root (a :: above) := Lineage.drop (heq ▸ hl)
  have hlb : Lineage t.root (b :: above') := Lineage.drop (heq' ▸ hl)
  rw [t.depthOf_lineage hla, t.depthOf_lineage hlb] at hdepth
  have hsplit := List.append_inj' (heq.symm.trans heq') (by simp [hdepth])
  exact (List.cons.inj hsplit.2).1

end Tree

namespace Tree

/-! ## Sway's trees -/

/-- The root holds outputs, these hold workspaces, and below them are containers
and windows. -/
structure SwayShaped (root : Node) : Prop where
  top : root.getType = .root
  outputs : ∀ o ∈ root.children, o.getType = .output
  workspaces : ∀ o ∈ root.children, ∀ ws ∈ o.children, ws.getType = .workspace
  inner : ∀ o ∈ root.children, ∀ ws ∈ o.children, ∀ c ∈ ws.children, ∀ n ∈ c.preorder,
    n.getType = .container ∨ n.getType = .window

variable (t : Tree)

/-- The type of a node of sway's tree says how deep it is, down to the
workspaces. -/
theorem SwayShaped.depthOf {n : Node} (h : SwayShaped t.root) (hn : n ∈ t.root.preorder) :
    n.getType = .root ∧ t.depthOf n = 0 ∨ n.getType = .output ∧ t.depthOf n = 1 ∨
    n.getType = .workspace ∧ t.depthOf n = 2 ∨
    (n.getType = .container ∨ n.getType = .window) ∧ 2 < t.depthOf n := by
  have hchild : ∀ {p c : Node}, p ∈ t.root.preorder → c ∈ p.children → c ∈ t.root.preorder := by
    intro p c hp hc
    exact mem_preorder_trans hp (mem_preorder_of_mem_children hc (mem_preorder_self c))
  have hself := mem_preorder_self t.root
  -- Down the tree one level at a time: root, output, workspace, and what is below.
  rcases mem_preorder_iff.mp hn with rfl | ⟨o, ho, hno⟩
  · exact .inl ⟨h.top, t.depthOf_root⟩
  have hdo : t.depthOf o = 1 := by rw [t.depthOf_child hself ho, t.depthOf_root]
  rcases mem_preorder_iff.mp hno with rfl | ⟨ws, hws, hnws⟩
  · exact .inr (.inl ⟨h.outputs n ho, hdo⟩)
  have hoo := hchild hself ho
  have hdws : t.depthOf ws = 2 := by rw [t.depthOf_child hoo hws, hdo]
  rcases mem_preorder_iff.mp hnws with rfl | ⟨c, hc, hnc⟩
  · exact .inr (.inr (.inl ⟨h.workspaces o ho n hws, hdws⟩))
  refine .inr (.inr (.inr ⟨h.inner o ho ws hws c hc n hnc, ?_⟩))
  have hwsr := hchild hoo hws
  have hdc : t.depthOf c = 3 := by rw [t.depthOf_child hwsr hc, hdws]
  rcases t.depthOf_below (hchild hwsr hc) hnc with rfl | hlt
  · omega
  · omega

theorem SwayShaped.depthOf_output {n : Node} (h : SwayShaped t.root)
    (hn : n ∈ t.root.preorder) : n.getType = .output ↔ t.depthOf n = 1 := by
  rcases h.depthOf t hn with ⟨hk, hd⟩ | ⟨hk, hd⟩ | ⟨hk, hd⟩ | ⟨hk | hk, hd⟩ <;>
    simp only [hk, reduceCtorEq, false_iff, true_iff] <;> omega

/-- In sway's trees workspaces, and only they, are two levels below the root. -/
theorem SwayShaped.depthOf_workspace {n : Node} (h : SwayShaped t.root)
    (hn : n ∈ t.root.preorder) : n.getType = .workspace ↔ t.depthOf n = 2 := by
  rcases h.depthOf t hn with ⟨hk, hd⟩ | ⟨hk, hd⟩ | ⟨hk, hd⟩ | ⟨hk | hk, hd⟩ <;>
    simp only [hk, reduceCtorEq, false_iff, true_iff] <;> omega

end Tree

theorem DisplayNode.depth_eq (d : DisplayNode) : d.depth = d.tree.depthOf d.node := by
  unfold DisplayNode.depth
  split
  · rename_i depth h
    rw [Tree.depthOf, h]
    rfl
  · rename_i e h
    obtain ⟨rest, -, hok⟩ := d.climb_ok
    rw [hok] at h
    simp at h

end Swayr
