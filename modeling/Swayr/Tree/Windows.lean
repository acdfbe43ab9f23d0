import Mathlib.Data.List.Flatten
import Swayr.Focus.FocusData
import Swayr.Kit.Slice
import Swayr.Tree.Index

/-!
# Display nodes and the window list (`tree.rs`)

A display node is a node together with the tree it was found in; it carries
the proof that it belongs there, so that its lookups are total. The window
list is built as the source builds it: stable sort, urgent windows split off
the front, the rest rotated by one.
-/

namespace Swayr

open Ipc Swayr.Tree Focus

/-- `get_root_node`, applied to the tree sway sent. -/
def getRootNode (includeScratchpad : Bool) (root : Node) : Node :=
  if includeScratchpad then root
  else .mk root.props (root.nodes.filter fun o => !o.isScratchpad) root.floatingNodes

theorem getRootNode_preorder_sublist (includeScratchpad : Bool) (root : Node) :
    ((getRootNode includeScratchpad root).preorder.map Node.id).Sublist
      (root.preorder.map Node.id) := by
  unfold getRootNode
  split
  · exact List.Sublist.refl _
  · rw [Node.preorder_eq root, Node.preorder_eq]
    refine List.Sublist.cons_cons _ (List.Sublist.map _ (List.Sublist.flatMap ?_ _))
    simp only [Node.children, Node.nodes, Node.floatingNodes]
    exact (List.filter_sublist.reverse).append (List.Sublist.refl _)

/-- Dropping the scratchpad keeps ids distinct. -/
theorem Tree.DistinctIds.getRootNode {root : Node} (h : DistinctIds root)
    (includeScratchpad : Bool) : DistinctIds (getRootNode includeScratchpad root) :=
  List.Nodup.sublist (getRootNode_preorder_sublist includeScratchpad root) h

inductive IndentLevel
  | fixed (level : Nat)
  | workspacesZeroWindowsOne
  | treeDepth (offset : Nat)
deriving DecidableEq, Repr

structure DisplayNode where
  node : Node
  tree : Tree
  indentLevel : IndentLevel
  mem : node ∈ tree.root.preorder
deriving DecidableEq

namespace DisplayNode

variable (d : DisplayNode)

/-- The search upwards has fuel for all ancestors. -/
theorem lookup_ok (k : Kind) : ∃ rest, Lineage d.tree.root (d.node :: rest) ∧
    d.tree.lookup d.tree.root.size d.node.id k =
      .ok ((d.node :: rest).find? fun m => m.getType == k) := by
  obtain ⟨rest, hl⟩ := exists_lineage d.mem
  refine ⟨rest, hl, d.tree.lookup_lineage hl k _ ?_ rfl⟩
  have := hl.length_le
  have := Node.size_eq d.node
  simp only [List.length_cons]
  omega

/-- `dn.tree.get_parent_node_of_type(dn.node.id, k)`, which does not panic. -/
def getParentNodeOfType (k : Kind) : Option Node :=
  match h : d.tree.lookup d.tree.root.size d.node.id k with
  | .ok r => r
  | .error _ => absurd h (by obtain ⟨rest, -, hok⟩ := d.lookup_ok k; rw [hok]; simp)

/-- What is found is the nearest ancestor of the kind, or the node itself. -/
theorem getParentNodeOfType_eq (k : Kind) : ∃ rest, Lineage d.tree.root (d.node :: rest) ∧
    d.getParentNodeOfType k = (d.node :: rest).find? fun m => m.getType == k := by
  obtain ⟨rest, hl, hok⟩ := d.lookup_ok k
  refine ⟨rest, hl, ?_⟩
  unfold getParentNodeOfType
  split
  · rename_i r h
    rw [hok] at h
    exact (Except.ok.inj h).symm
  · rename_i e h
    rw [hok] at h
    simp at h

end DisplayNode

namespace Tree

variable (t : Tree)

def asDisplayNodes (v : List Node) (indentLevel : IndentLevel)
    (h : ∀ n ∈ v, n ∈ t.root.preorder) : List DisplayNode :=
  v.pmap (fun n hn => ⟨n, t, indentLevel, hn⟩) h

@[simp] theorem asDisplayNodes_node (v : List Node) (lvl : IndentLevel)
    (h : ∀ n ∈ v, n ∈ t.root.preorder) :
    (t.asDisplayNodes v lvl h).map DisplayNode.node = v := by
  rw [asDisplayNodes, List.map_pmap]
  simp

/-! ## Sorting -/

/-- The comparison of `sort_by_urgency_and_lru_time_1`. -/
def urgencyAndLruCmp (ticks : TickMap) (a b : Node) : Ordering :=
  if a.urgent && !b.urgent then .lt
  else if !a.urgent && b.urgent then .gt
  else (compare (ticks.lastFocusTick a.id) (ticks.lastFocusTick b.id)).swap

/-- Urgency counts first, then the tick. -/
theorem urgencyAndLruCmp_isLE {ticks : TickMap} {a b : Node} :
    (urgencyAndLruCmp ticks a b).isLE = true ↔
      (a.urgent = true ∧ b.urgent = false) ∨
      (a.urgent = b.urgent ∧ ticks.lastFocusTick b.id ≤ ticks.lastFocusTick a.id) := by
  unfold urgencyAndLruCmp
  cases a.urgent <;> cases b.urgent <;> simp [Ordering.isLE_swap, Nat.isGE_compare]

def sortByUrgencyAndLruTime1 (ticks : TickMap) (v : List Node) : List Node :=
  Kit.sortBy (urgencyAndLruCmp ticks) v

theorem pairwise_sortByUrgencyAndLruTime1 (ticks : TickMap) (v : List Node) :
    (sortByUrgencyAndLruTime1 ticks v).Pairwise fun a b =>
      (urgencyAndLruCmp ticks a b).isLE = true := by
  refine Kit.pairwise_sortBy (fun a b => ?_) (fun a b c hab hbc => ?_) v
  · rw [urgencyAndLruCmp_isLE, urgencyAndLruCmp_isLE]
    cases a.urgent <;> cases b.urgent <;> simp <;> omega
  · rw [urgencyAndLruCmp_isLE] at hab hbc ⊢
    cases ha : a.urgent <;> cases hb : b.urgent <;> cases hc : c.urgent <;>
      simp_all <;> omega

def sortedNodesOfType1 (ticks : TickMap) (node : Node) (k : Kind) : List Node :=
  sortByUrgencyAndLruTime1 ticks (node.nodesOfType k)

/-- The loop of `get_windows` that moves urgent windows off the front of `v`
to the end of `x`. -/
def splitUrgent (x : List Node) : List Node → List Node × List Node
  | [] => (x, [])
  | n :: v => if n.urgent then splitUrgent (x ++ [n]) v else (x, n :: v)

theorem splitUrgent_eq (x v : List Node) :
    splitUrgent x v = (x ++ v.takeWhile Node.urgent, v.dropWhile Node.urgent) := by
  induction v generalizing x with
  | nil => simp [splitUrgent]
  | cons n v ih => by_cases hu : n.urgent <;> simp [splitUrgent, hu, ih]

/-- The order in which `get_windows` returns the sorted windows `v`. -/
def rotateNonUrgent (v : List Node) : List Node :=
  if v.isEmpty then v
  else
    match splitUrgent [] v with
    | (x, v) => if v.isEmpty then x else x ++ v.rotate 1

/-- The urgent nodes stay in front; of the others the first one is put last. -/
theorem rotateNonUrgent_eq (v : List Node) :
    rotateNonUrgent v =
      v.takeWhile Node.urgent ++ (v.dropWhile Node.urgent).rotate 1 := by
  cases v with
  | nil => simp [rotateNonUrgent]
  | cons n v =>
      rw [rotateNonUrgent, splitUrgent_eq]
      cases h : (n :: v).dropWhile Node.urgent <;> simp

theorem rotateNonUrgent_perm (v : List Node) : (rotateNonUrgent v).Perm v := by
  rw [rotateNonUrgent_eq]
  calc v.takeWhile Node.urgent ++ (v.dropWhile Node.urgent).rotate 1
      |>.Perm (v.takeWhile Node.urgent ++ v.dropWhile Node.urgent) :=
        (List.rotate_perm _ 1).append_left _
    _ = v := List.takeWhile_append_dropWhile

/-- With urgent windows in front, none is left behind the urgent ones. -/
theorem dropWhile_urgent {v : List Node}
    (h : v.Pairwise fun a b => b.urgent = true → a.urgent = true) {n : Node}
    (hn : n ∈ v.dropWhile Node.urgent) : n.urgent = false := by
  cases hd : v.dropWhile Node.urgent with
  | nil => simp [hd] at hn
  | cons m rest =>
      have hm : m.urgent = false := by
        have := List.head?_dropWhile_not Node.urgent v
        simpa [hd] using this
      have hpair := h.sublist (List.dropWhile_sublist Node.urgent)
      rw [hd] at hn hpair
      rcases List.mem_cons.mp hn with rfl | hn
      · exact hm
      · by_contra hu
        have := (List.pairwise_cons.mp hpair).1 n hn (by simpa using hu)
        simp [hm] at this

/-- Urgent windows stay in front. -/
theorem rotateNonUrgent_urgentFirst {v : List Node}
    (h : v.Pairwise fun a b => b.urgent = true → a.urgent = true) :
    (rotateNonUrgent v).Pairwise fun a b => b.urgent = true → a.urgent = true := by
  have hrest : ∀ n ∈ v.dropWhile Node.urgent, n.urgent = false := fun n hn => dropWhile_urgent h hn
  rw [rotateNonUrgent_eq]
  refine List.pairwise_append.mpr ⟨?_, ?_, ?_⟩
  · exact h.sublist (List.takeWhile_sublist Node.urgent)
  · refine List.pairwise_of_forall_mem_list fun a _ b hb hu => ?_
    rw [hrest b (List.mem_rotate.mp hb)] at hu
    simp at hu
  · intro a ha b hb hu
    rw [hrest b (List.mem_rotate.mp hb)] at hu
    simp at hu

/-- The window nodes in the order of `get_windows`. -/
def windowNodes (ticks : TickMap) (root : Node) : List Node :=
  rotateNonUrgent (sortedNodesOfType1 ticks root .window)

/-- All windows are listed, each once. -/
theorem windowNodes_perm (ticks : TickMap) (root : Node) :
    (windowNodes ticks root).Perm (root.nodesOfType .window) :=
  (rotateNonUrgent_perm _).trans (Kit.sortBy_perm _ _)

/-- No window that is not urgent stands before an urgent one. -/
theorem windowNodes_urgentFirst (ticks : TickMap) (root : Node) :
    (windowNodes ticks root).Pairwise fun a b => b.urgent = true → a.urgent = true := by
  refine rotateNonUrgent_urgentFirst ((pairwise_sortByUrgencyAndLruTime1 ticks _).imp ?_)
  intro a b hle hu
  rcases urgencyAndLruCmp_isLE.mp hle with ⟨ha, -⟩ | ⟨heq, -⟩
  · exact ha
  · rw [heq, hu]

theorem mem_windowNodes {ticks : TickMap} {root n : Node} :
    n ∈ windowNodes ticks root ↔ n ∈ root.preorder ∧ n.getType = .window := by
  rw [(windowNodes_perm ticks root).mem_iff, Node.mem_nodesOfType]

def getWindows (ticks : TickMap) : List DisplayNode :=
  t.asDisplayNodes (windowNodes ticks t.root) (.fixed 0)
    fun _ hn => (mem_windowNodes.mp hn).1

@[simp] theorem getWindows_node (ticks : TickMap) :
    (t.getWindows ticks).map DisplayNode.node = windowNodes ticks t.root :=
  t.asDisplayNodes_node _ _ _

theorem getWindows_ids_nodup (ticks : TickMap) :
    ((t.getWindows ticks).map fun w => w.node.id).Nodup := by
  have hsub : ((t.root.preorder.filter fun m => m.getType == .window).map Node.id).Nodup :=
    (t.distinct).sublist (List.filter_sublist.map _)
  have hperm := (windowNodes_perm ticks t.root).map Node.id
  rw [Node.nodesOfType_eq] at hperm
  have := hperm.nodup_iff.mpr hsub
  rwa [← t.getWindows_node ticks, List.map_map] at this

/-- `get_current_workspace`. -/
def getCurrentWorkspace : Except Panic Node :=
  match t.root.iter.find? fun n => n.getType == .workspace && n.isCurrent with
  | some ws => .ok ws
  | none => .error .noCurrentWorkspace

end Tree

end Swayr
