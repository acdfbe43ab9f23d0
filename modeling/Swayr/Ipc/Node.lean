import Mathlib.Data.List.Basic

/-!
# Sway's nodes (`shared/ipc.rs`)

A node is a record of properties with tiled and floating children. The record
carries the one fact the code relies on without checking it everywhere: its
type is known, so that `get_type` does not panic.

`NodeIter` is the explicit-stack iterator of the source; `preorder` is the
recursive traversal it computes (`iter_eq_preorder`), and every later module
reasons about the latter through `preorder_eq` and `Node.induct` only.
-/

namespace Swayr.Ipc

/-- `swayipc::NodeType`. -/
inductive NodeType
  | root | output | workspace | con | floatingCon | dockarea
deriving DecidableEq, Repr

/-- `swayipc::NodeLayout`. -/
inductive NodeLayout
  | splitH | splitV | stacked | tabbed | output | none
deriving DecidableEq, Repr

/-- `swayipc::ShellType`. -/
inductive ShellType
  | xdgShell | xwayland
deriving DecidableEq, Repr

/-- The fields of `swayipc::WindowProperties` the daemon reads. -/
structure WindowProperties where
  class_ : Option String := none
  instance_ : Option String := none
deriving DecidableEq, Repr

/-- The fields of `swayipc::Node` the daemon reads, the children apart. -/
structure NodeInfo where
  id : Int
  nodeType : NodeType
  name : Option String := none
  layout : NodeLayout := .none
  focused : Bool := false
  urgent : Bool := false
  marks : List String := []
  appId : Option String := none
  pid : Option Int := none
  shell : Option ShellType := none
  windowProperties : Option WindowProperties := none
  /-- `rect.width`. -/
  width : Int := 0
deriving DecidableEq, Repr

/-- `ipc::Type`. -/
inductive Kind
  | root | output | workspace | container | window
deriving DecidableEq, Repr

/-- `get_type`; `none` is its panic on a node of unknown type. -/
def NodeInfo.getType? (n : NodeInfo) : Option Kind :=
  match n.nodeType with
  | .root => some .root
  | .output => some .output
  | .workspace => some .workspace
  | .floatingCon => some .window
  | _ =>
      if n.nodeType = .con ∧ n.name.isNone ∧ n.appId.isNone ∧ n.pid.isNone ∧
          n.shell.isNone ∧ n.windowProperties.isNone ∧ n.layout ≠ .none then
        some .container
      else if (n.nodeType = .con ∨ n.nodeType = .floatingCon) ∧ n.pid.isSome then
        some .window
      else none

/-- A node's properties, its type being known. -/
structure NodeProps extends NodeInfo where
  known : toNodeInfo.getType?.isSome
deriving DecidableEq, Repr

inductive Node where
  | mk (props : NodeProps) (nodes floatingNodes : List Node)
deriving Repr

namespace Node

def props : Node → NodeProps
  | mk p _ _ => p

/-- The tiled children. -/
def nodes : Node → List Node
  | mk _ ns _ => ns

def floatingNodes : Node → List Node
  | mk _ _ fs => fs

/-- A node's properties stand for the node where only they matter. -/
abbrev id (n : Node) : Int := n.props.id
abbrev focused (n : Node) : Bool := n.props.focused
abbrev urgent (n : Node) : Bool := n.props.urgent
abbrev layout (n : Node) : NodeLayout := n.props.layout
abbrev width (n : Node) : Int := n.props.width

mutual
/-- Equality of nodes: of their properties and of both lists of children. -/
def decEq : (a b : Node) → Decidable (a = b)
  | mk p ns fs, mk q ms gs =>
      match instDecidableEqNodeProps p q, decEqAll ns ms, decEqAll fs gs with
      | .isTrue hp, .isTrue hn, .isTrue hf => .isTrue (by rw [hp, hn, hf])
      | .isFalse h, _, _ => .isFalse fun e => h (by injection e)
      | _, .isFalse h, _ => .isFalse fun e => h (by injection e)
      | _, _, .isFalse h => .isFalse fun e => h (by injection e)
def decEqAll : (as bs : List Node) → Decidable (as = bs)
  | [], [] => .isTrue rfl
  | [], _ :: _ => .isFalse (by simp)
  | _ :: _, [] => .isFalse (by simp)
  | a :: as, b :: bs =>
      match decEq a b, decEqAll as bs with
      | .isTrue h, .isTrue hs => .isTrue (by rw [h, hs])
      | .isFalse h, _ => .isFalse fun e => h (by injection e)
      | _, .isFalse h => .isFalse fun e => h (by injection e)
end

instance : DecidableEq Node := decEq

/-! ## `NodeMethods` -/

def getType (n : Node) : Kind := n.props.getType?.get n.props.known

def getName (n : Node) : String := n.props.name.getD "<unnamed>"

def getAppName (n : Node) : String :=
  match n.props.appId with
  | some appId => appId
  | none =>
      match n.props.windowProperties.bind (·.class_) with
      | some wpClass => wpClass
      | none =>
          match n.props.windowProperties.bind (·.instance_) with
          | some wpInstance => wpInstance
          | none => "<unknown_app>"

def isScratchpad (n : Node) : Bool :=
  n.getName == "__i3" || n.getName == "__i3_scratch"

def isFloating (n : Node) : Bool := n.props.nodeType == .floatingCon

/-! ## Induction and size -/

/-- The children in the order in which the iterator reaches them: the stack
reverses siblings and puts tiled children before floating ones. -/
def children (n : Node) : List Node := n.nodes.reverse ++ n.floatingNodes.reverse

mutual
/-- The number of nodes of the subtree. -/
def size : Node → Nat
  | mk _ ns fs => sizes ns + sizes fs + 1
def sizes : List Node → Nat
  | [] => 0
  | n :: ns => size n + sizes ns
end

theorem sizes_append (xs ys : List Node) : sizes (xs ++ ys) = sizes xs + sizes ys := by
  induction xs with
  | nil => simp [sizes]
  | cons x xs ih => simp only [List.cons_append, sizes, ih]; omega

theorem sizes_reverse (xs : List Node) : sizes xs.reverse = sizes xs := by
  induction xs with
  | nil => rfl
  | cons x xs ih => simp only [List.reverse_cons, sizes_append, sizes, ih]; omega

theorem size_eq (n : Node) : n.size = sizes n.children + 1 := by
  cases n with
  | mk p ns fs =>
      simp only [size, children, nodes, floatingNodes, sizes_append, sizes_reverse]

theorem size_le_sizes {n : Node} {ns : List Node} (h : n ∈ ns) : n.size ≤ sizes ns := by
  induction ns with
  | nil => simp at h
  | cons m ns ih =>
      rcases List.mem_cons.mp h with rfl | h
      · simp [sizes]
      · have := ih h
        simp only [sizes]
        omega

/-- The measure by which recursion over a tree ends. -/
theorem size_lt_of_mem_children {n c : Node} (h : c ∈ n.children) : c.size < n.size := by
  have := size_le_sizes h
  rw [size_eq n]
  omega

/-- Induction over the tree, children given in iteration order. -/
theorem induct {P : Node → Prop} (h : ∀ n, (∀ c ∈ n.children, P c) → P n) (n : Node) :
    P n := by
  induction hk : n.size using Nat.strongRecOn generalizing n with
  | ind k ih =>
      subst hk
      exact h n fun c hc => ih c.size (size_lt_of_mem_children hc) c rfl

/-! ## Traversal -/

mutual
/-- The recursive traversal: a node, then its tiled children's subtrees, then
its floating children's, siblings last to first. -/
def preorder : Node → List Node
  | mk p ns fs => mk p ns fs :: (preorderRev ns ++ preorderRev fs)
def preorderRev : List Node → List Node
  | [] => []
  | n :: ns => preorderRev ns ++ preorder n
end

theorem preorderRev_eq (ns : List Node) : preorderRev ns = ns.reverse.flatMap preorder := by
  induction ns with
  | nil => rfl
  | cons n ns ih => simp [preorderRev, ih]

/-- A node comes before its children. -/
theorem preorder_eq (n : Node) : n.preorder = n :: n.children.flatMap preorder := by
  cases n with
  | mk p ns fs => simp [preorder, preorderRev_eq, children, nodes, floatingNodes]

end Node

/-- `NodeIter`: the stack, top first. -/
structure NodeIter where
  stack : List Node

def NodeIter.new (n : Node) : NodeIter := ⟨[n]⟩

/-- Pop a node and push its floating, then its tiled children. -/
def NodeIter.next (it : NodeIter) : Option (Node × NodeIter) :=
  match it.stack with
  | [] => none
  | n :: stack =>
      let stack := n.floatingNodes.foldl (fun st c => c :: st) stack
      let stack := n.nodes.foldl (fun st c => c :: st) stack
      some (n, ⟨stack⟩)

/-- Pushing nodes one by one puts the last of them on top. -/
theorem foldl_push (ns stack : List Node) :
    ns.foldl (fun st c => c :: st) stack = ns.reverse ++ stack := by
  induction ns generalizing stack with
  | nil => rfl
  | cons n ns ih => simp [ih]

/-- The children take the place of the node that is returned. -/
theorem NodeIter.next_stack {it it' : NodeIter} {n : Node} (h : it.next = some (n, it')) :
    ∃ rest, it.stack = n :: rest ∧ it'.stack = n.children ++ rest := by
  unfold next at h
  split at h
  · simp at h
  · rename_i m rest hstack
    simp only [foldl_push, Option.some.injEq, Prod.mk.injEq] at h
    obtain ⟨rfl, rfl⟩ := h
    exact ⟨rest, hstack, by simp [Node.children]⟩

/-- Everything the iterator yields before it is exhausted. -/
def NodeIter.collect (it : NodeIter) : List Node :=
  match _h : it.next with
  | none => []
  | some (n, it') => n :: it'.collect
termination_by Node.sizes it.stack
decreasing_by
  obtain ⟨rest, h₁, h₂⟩ := NodeIter.next_stack _h
  rw [h₁, h₂, Node.sizes_append, Node.sizes, Node.size_eq]
  omega

/-- `NodeMethods::iter`. -/
def Node.iter (n : Node) : List Node := (NodeIter.new n).collect

/-- The iterator works off its stack subtree by subtree. -/
theorem NodeIter.collect_eq (it : NodeIter) :
    it.collect = it.stack.flatMap Node.preorder := by
  fun_induction NodeIter.collect it with
  | case1 it h =>
      cases hs : it.stack with
      | nil => rfl
      | cons n rest => simp [NodeIter.next, hs] at h
  | case2 it n it' h ih =>
      obtain ⟨rest, h₁, h₂⟩ := NodeIter.next_stack h
      rw [ih, h₁, h₂, List.flatMap_append, List.flatMap_cons, Node.preorder_eq]
      simp

/-- The iterator visits the nodes in the order of `preorder`. -/
theorem Node.iter_eq_preorder (n : Node) : n.iter = n.preorder := by
  rw [iter, NodeIter.collect_eq]
  simp [NodeIter.new]

namespace Node

def nodesOfType (n : Node) (t : Kind) : List Node :=
  n.iter.filter fun m => m.getType == t

theorem nodesOfType_eq (n : Node) (t : Kind) :
    n.nodesOfType t = n.preorder.filter fun m => m.getType == t := by
  rw [nodesOfType, iter_eq_preorder]

/-- The nodes of a kind below a node, and the node itself. -/
theorem mem_nodesOfType {n m : Node} {t : Kind} :
    m ∈ n.nodesOfType t ↔ m ∈ n.preorder ∧ m.getType = t := by
  rw [nodesOfType_eq, List.mem_filter, beq_iff_eq]

def isCurrent (n : Node) : Bool := n.iter.any (·.focused)

end Node

end Swayr.Ipc
