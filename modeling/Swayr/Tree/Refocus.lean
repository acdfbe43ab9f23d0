import Swayr.Tree.Windows

/-!
# Moving the focus

`refocus g` is the tree after the focus has gone to the node with id `g`: the
focused flags change and nothing else does. Every function of the tree that
does not read the flags commutes with it.
-/

namespace Swayr

open Ipc Swayr.Tree Focus

namespace Ipc.Node

/-- The properties of a node once `g` is focused. -/
def refocusProps (g : Int) (p : NodeProps) : NodeProps where
  toNodeInfo := { p.toNodeInfo with focused := p.id == g }
  known := p.known

mutual
def refocus (g : Int) : Node → Node
  | mk p ns fs => mk (refocusProps g p) (refocusAll g ns) (refocusAll g fs)
def refocusAll (g : Int) : List Node → List Node
  | [] => []
  | n :: ns => refocus g n :: refocusAll g ns
end

theorem refocusAll_eq (g : Int) (ns : List Node) : refocusAll g ns = ns.map (refocus g) := by
  induction ns with
  | nil => rfl
  | cons n ns ih => simp [refocusAll, ih]

variable (g : Int) (n : Node)

theorem props_refocus : (n.refocus g).props = refocusProps g n.props := by
  cases n; rfl

theorem nodes_refocus : (n.refocus g).nodes = n.nodes.map (refocus g) := by
  cases n
  exact refocusAll_eq g _

theorem floatingNodes_refocus :
    (n.refocus g).floatingNodes = n.floatingNodes.map (refocus g) := by
  cases n
  exact refocusAll_eq g _

theorem children_refocus : (n.refocus g).children = n.children.map (refocus g) := by
  simp [children, nodes_refocus, floatingNodes_refocus]

@[simp] theorem id_refocus : (n.refocus g).id = n.id := by
  cases n; rfl

@[simp] theorem urgent_refocus : (n.refocus g).urgent = n.urgent := by
  cases n; rfl

@[simp] theorem focused_refocus : (n.refocus g).focused = (n.id == g) := by
  cases n; rfl

@[simp] theorem getType_refocus : (n.refocus g).getType = n.getType := by
  cases n; rfl

@[simp] theorem isScratchpad_refocus : (n.refocus g).isScratchpad = n.isScratchpad := by
  cases n; rfl

/-- The tree keeps its shape. -/
theorem preorder_refocus : (n.refocus g).preorder = n.preorder.map (refocus g) := by
  induction n using Node.induct with
  | h n ih =>
      rw [preorder_eq, preorder_eq, children_refocus, List.map_cons, List.map_flatMap,
        List.flatMap_map]
      congr 1
      exact List.flatMap_congr fun c hc => ih c hc

theorem nodesOfType_refocus (k : Kind) :
    (n.refocus g).nodesOfType k = (n.nodesOfType k).map (refocus g) := by
  simp only [nodesOfType_eq, preorder_refocus, List.filter_map]
  congr 2
  funext m
  simp

/-- What is current after the focus has moved to `g` is what holds `g`. -/
theorem isCurrent_refocus : (n.refocus g).isCurrent = n.preorder.any (·.id == g) := by
  rw [isCurrent, iter_eq_preorder, preorder_refocus, List.any_map]
  congr 1
  funext m
  simp

/-- Refocusing the node that is focused changes nothing. -/
theorem refocus_eq_self (h : ∀ m ∈ n.preorder, m.focused = true ↔ m.id = g) :
    n.refocus g = n := by
  induction n using Node.induct with
  | h n ih =>
      have hchild : ∀ c ∈ n.children, c.refocus g = c := fun c hc =>
        ih c hc fun m hm => h m (mem_preorder_of_mem_children hc hm)
      have hself := h n (mem_preorder_self n)
      cases n with
      | mk p ns fs =>
          have hmap : ∀ ms : List Node, (∀ m ∈ ms, m ∈ (mk p ns fs).children) →
              refocusAll g ms = ms := by
            intro ms hms
            rw [refocusAll_eq, List.map_congr_left fun m hm => hchild m (hms m hm)]
            exact List.map_id' ms
          -- The only field that is set is the one `h` speaks of.
          have hprops : refocusProps g p = p := by
            have hfoc : (p.id == g) = p.focused := by
              rw [Bool.eq_iff_iff, beq_iff_eq]
              exact hself.symm
            simp only [refocusProps, hfoc]
          rw [refocus, hprops, hmap ns (by simp +contextual [children, nodes]),
            hmap fs (by simp +contextual [children, floatingNodes])]

end Ipc.Node

open Ipc.Node

variable (g : Int) (root : Node)

/-- Leaving out the scratchpad does not look at the focus. -/
theorem getRootNode_refocus (includeScratchpad : Bool) :
    getRootNode includeScratchpad (root.refocus g) =
      (getRootNode includeScratchpad root).refocus g := by
  cases includeScratchpad with
  | true => rfl
  | false =>
      have hfilter : (root.refocus g).nodes.filter (fun o => !o.isScratchpad) =
          (root.nodes.filter fun o => !o.isScratchpad).map (refocus g) := by
        rw [nodes_refocus, List.filter_map]
        congr 2
        funext o
        simp
      simp only [getRootNode, Bool.false_eq_true, if_false, hfilter, props_refocus,
        floatingNodes_refocus, refocus, refocusAll_eq]

theorem Tree.DistinctIds.refocus {root : Node} (h : DistinctIds root) (g : Int) :
    DistinctIds (root.refocus g) := by
  unfold DistinctIds
  rw [preorder_refocus, List.map_map]
  have : Node.id ∘ Node.refocus g = Node.id := funext fun n => id_refocus g n
  rwa [this]

/-! ## The window list -/

theorem Tree.rotateNonUrgent_refocus (v : List Node) :
    rotateNonUrgent (v.map (refocus g)) = (rotateNonUrgent v).map (refocus g) := by
  have hurgent : Node.urgent ∘ refocus g = Node.urgent := funext fun n => urgent_refocus g n
  rw [rotateNonUrgent_eq, rotateNonUrgent_eq, List.map_append, List.takeWhile_map,
    List.dropWhile_map, hurgent, List.map_rotate]

/-- The order of the windows does not depend on the focus. -/
theorem Tree.windowNodes_refocus (ticks : TickMap) :
    windowNodes ticks (root.refocus g) = (windowNodes ticks root).map (refocus g) := by
  have hcmp : ∀ a b, urgencyAndLruCmp ticks (refocus g a) (refocus g b) =
      urgencyAndLruCmp ticks a b := by
    intro a b
    simp [urgencyAndLruCmp]
  rw [windowNodes, windowNodes, sortedNodesOfType1, sortedNodesOfType1, nodesOfType_refocus,
    sortByUrgencyAndLruTime1, ← Kit.map_sortBy (refocus g) hcmp, rotateNonUrgent_refocus]
  rfl

theorem Tree.Lineage.refocus {root : Node} {l : List Node} (h : Lineage root l) (g : Int) :
    Lineage (root.refocus g) (l.map (Node.refocus g)) := by
  induction h with
  | root => exact .root
  | child _ hc ih =>
      refine .child ih ?_
      rw [children_refocus]
      exact List.mem_map_of_mem hc

/-! ## Display nodes -/

section view

variable {root} (h : DistinctIds root)

/-- The tree index once `g` is focused. -/
def focusTree : Tree := getTree (root.refocus g) (h.refocus g)

/-- A node of the tree as the window list shows it once `g` is focused. -/
def focusView (n : Node) (hn : n ∈ root.preorder) : DisplayNode where
  node := n.refocus g
  tree := focusTree g h
  indentLevel := .fixed 0
  mem := by
    show n.refocus g ∈ (root.refocus g).preorder
    rw [preorder_refocus]
    exact List.mem_map_of_mem hn

/-- The windows listed are the same, seen with the focus on `g`. -/
theorem getWindows_focusTree (ticks : TickMap) :
    (focusTree g h).getWindows ticks =
      (windowNodes ticks root).pmap (focusView g h) fun _ hn => (mem_windowNodes.mp hn).1 := by
  have hnodes : windowNodes ticks (focusTree g h).root =
      (windowNodes ticks root).map (refocus g) := windowNodes_refocus g root ticks
  unfold Tree.getWindows asDisplayNodes
  simp only [hnodes, List.pmap_map]
  exact List.pmap_congr_left _ fun n _ _ _ => rfl

/-- The lookups of a display node do not depend on the focus. -/
theorem getParentNodeOfType_focusView (k : Kind) {n : Node} {rest : List Node}
    (hl : Lineage root (n :: rest)) (hn : n ∈ root.preorder) :
    (focusView g h n hn).getParentNodeOfType k =
      ((n :: rest).find? fun m => m.getType == k).map (refocus g) := by
  obtain ⟨rest', hl', heq⟩ := (focusView g h n hn).getParentNodeOfType_eq k
  have hsame := (focusTree g h).lineage_unique (hl.refocus g) hl' rfl
  rw [heq]
  change (n.refocus g :: rest').find? _ = _
  rw [← show (n :: rest).map (refocus g) = n.refocus g :: rest' from hsame, List.find?_map]
  congr 2
  funext m
  simp

theorem getCurrentWorkspace_focusTree :
    (focusTree g h).getCurrentWorkspace =
      match root.preorder.find? fun n =>
        n.getType == .workspace && n.preorder.any (·.id == g) with
      | some ws => .ok (ws.refocus g)
      | none => .error .noCurrentWorkspace := by
  have hfind : (focusTree g h).root.iter.find?
      (fun n => n.getType == .workspace && n.isCurrent) =
      (root.preorder.find? fun n => n.getType == .workspace && n.preorder.any (·.id == g)).map
        (refocus g) := by
    change (root.refocus g).iter.find? _ = _
    rw [iter_eq_preorder, preorder_refocus, List.find?_map]
    congr 2
    funext n
    simp [isCurrent_refocus]
  rw [getCurrentWorkspace, hfind]
  cases root.preorder.find? _ <;> rfl

end view

end Swayr
