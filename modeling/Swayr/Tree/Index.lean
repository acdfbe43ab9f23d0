import Mathlib.Data.List.Pairwise
import Mathlib.Logic.Function.Basic
import Swayr.Tree.Lineage

/-!
# The tree index (`tree.rs`: `get_tree`, `get_parent_node_of_type`)

`get_tree` fills two maps, from ids to nodes and from ids to parent ids, and
the lookups walk them upwards. The walk itself is translated as it stands: it
may hit an id without a node, and on maps that do not come from a tree it may
never end. Both are ruled out by `lookup_lineage`: on the maps of a tree with
distinct ids the walk follows the lineage.
-/

namespace Swayr

namespace Tree

open Ipc

/-- The two maps `id_node` and `id_parent`. -/
structure Index where
  idNode : Int → Option Node
  idParent : Int → Option Int

namespace Index

def empty : Index := ⟨fun _ => none, fun _ => none⟩

/-- The inserts made for one node. -/
def insert (ix : Index) (n : Node) (parent : Option Node) : Index where
  idNode := Function.update ix.idNode n.id (some n)
  idParent :=
    match parent with
    | some p => Function.update ix.idParent n.id (some p.id)
    | none => ix.idParent

/-- Two indices hold the same entries for an id. -/
def AgreeAt (a b : Index) (i : Int) : Prop :=
  a.idNode i = b.idNode i ∧ a.idParent i = b.idParent i

theorem AgreeAt.trans {a b c : Index} {i : Int} (h₁ : AgreeAt a b i) (h₂ : AgreeAt b c i) :
    AgreeAt a c i :=
  ⟨h₁.1.trans h₂.1, h₁.2.trans h₂.2⟩

/-- An entry concerns only its own id. -/
theorem insert_agreeAt (ix : Index) (n : Node) (parent : Option Node) {i : Int}
    (h : i ≠ n.id) : AgreeAt (ix.insert n parent) ix i := by
  refine ⟨Function.update_of_ne h _ _, ?_⟩
  cases parent with
  | none => rfl
  | some p => exact Function.update_of_ne h _ _

end Index

mutual
/-- `init_id_parent`. -/
def initIdParent (n : Node) (parent : Option Node) (ix : Index) : Index :=
  match n with
  | .mk p ns fs =>
      let ix := ix.insert (.mk p ns fs) parent
      let ix := initIdParents ns (.mk p ns fs) ix
      initIdParents fs (.mk p ns fs) ix
/-- The loop over the children of `parent`. -/
def initIdParents (cs : List Node) (parent : Node) (ix : Index) : Index :=
  match cs with
  | [] => ix
  | c :: cs => initIdParents cs parent (initIdParent c (some parent) ix)
end

theorem initIdParents_append (xs ys : List Node) (p : Node) (ix : Index) :
    initIdParents (xs ++ ys) p ix = initIdParents ys p (initIdParents xs p ix) := by
  induction xs generalizing ix with
  | nil => rw [List.nil_append, initIdParents]
  | cons x xs ih => rw [List.cons_append, initIdParents, initIdParents, ih]

/-- A node is entered before its children. -/
theorem initIdParent_eq (n : Node) (parent : Option Node) (ix : Index) :
    initIdParent n parent ix =
      initIdParents (n.nodes ++ n.floatingNodes) n (ix.insert n parent) := by
  cases n with
  | mk p ns fs => rw [initIdParents_append, initIdParent]; rfl

theorem mem_nodes_append {n c : Node} : c ∈ n.nodes ++ n.floatingNodes ↔ c ∈ n.children := by
  simp [Node.children]

/-- `i` is the id of a node of the subtree. -/
def HasId (n : Node) (i : Int) : Prop := ∃ m ∈ n.preorder, m.id = i

theorem hasId_self (n : Node) : HasId n n.id := ⟨n, mem_preorder_self n, rfl⟩

theorem HasId.of_child {n c : Node} {i : Int} (hc : c ∈ n.children) (h : HasId c i) :
    HasId n i := by
  obtain ⟨m, hm, hid⟩ := h
  exact ⟨m, mem_preorder_of_mem_children hc hm, hid⟩

/-! ## Inserting a subtree leaves other ids alone -/

theorem initIdParents_agreeAt_of {cs : List Node} {p : Node} {i : Int}
    (h : ∀ c ∈ cs, ∀ ix, (initIdParent c (some p) ix).AgreeAt ix i) (ix : Index) :
    (initIdParents cs p ix).AgreeAt ix i := by
  induction cs generalizing ix with
  | nil => rw [initIdParents]; exact ⟨rfl, rfl⟩
  | cons c cs ih =>
      rw [initIdParents]
      exact (ih (fun d hd => h d (List.mem_cons_of_mem _ hd)) _).trans
        (h c List.mem_cons_self ix)

/-- Entering a subtree concerns only the ids in it. -/
theorem initIdParent_agreeAt {n : Node} {i : Int} (h : ¬ HasId n i) (parent : Option Node)
    (ix : Index) : (initIdParent n parent ix).AgreeAt ix i := by
  induction n using Node.induct generalizing parent ix with
  | h n ih =>
      rw [initIdParent_eq]
      have hn : i ≠ n.id := fun e => h (e ▸ hasId_self n)
      refine (initIdParents_agreeAt_of (fun c hc ix => ?_) _).trans
        (ix.insert_agreeAt n parent hn)
      have hc' := mem_nodes_append.mp hc
      exact ih c hc' (fun hi => h (hi.of_child hc')) (some n) ix

/-- Among siblings with disjoint subtrees, the entries for a sibling's ids are
the ones made when that sibling was inserted. -/
theorem initIdParents_agreeAt_child {cs : List Node} {p c : Node}
    (hdisj : cs.Pairwise fun a b => ∀ i, HasId a i → ¬ HasId b i) (hc : c ∈ cs) (ix : Index) :
    ∃ ix', ∀ i, HasId c i →
      (initIdParents cs p ix).AgreeAt (initIdParent c (some p) ix') i := by
  induction cs generalizing ix with
  | nil => simp at hc
  | cons d cs ih =>
      rw [List.pairwise_cons] at hdisj
      rcases List.mem_cons.mp hc with rfl | hc
      · refine ⟨ix, fun i hi => ?_⟩
        rw [initIdParents]
        exact initIdParents_agreeAt_of
          (fun e he ix => initIdParent_agreeAt (hdisj.1 e he i hi) _ ix) _
      · rw [initIdParents]
        exact ih hdisj.2 hc _

/-! ## The entries of a tree with distinct ids -/

/-- Subtrees side by side have no id in common. -/
theorem DistinctIds.children_disjoint {n : Node} (h : DistinctIds n) :
    (n.nodes ++ n.floatingNodes).Pairwise fun a b => ∀ i, HasId a i → ¬ HasId b i := by
  have hperm : (n.nodes ++ n.floatingNodes).Perm n.children :=
    (List.reverse_perm _).symm.append (List.reverse_perm _).symm
  have hsymm : ∀ a b : Node, (∀ i, HasId a i → ¬ HasId b i) → ∀ i, HasId b i → ¬ HasId a i :=
    fun a b hab i hb ha => hab i ha hb
  rw [hperm.pairwise_iff (hsymm _ _)]
  unfold DistinctIds at h
  rw [Node.preorder_eq, List.map_cons, List.nodup_cons, List.map_flatMap,
    List.nodup_flatMap] at h
  refine h.2.2.imp fun {a b} hab i ⟨m, hm, hmi⟩ ⟨m', hm', hmi'⟩ => ?_
  exact hab (List.mem_map.mpr ⟨m, hm, hmi⟩) (List.mem_map.mpr ⟨m', hm', hmi'⟩)

/-- Subtrees of different children have no node in common. -/
theorem DistinctIds.child_unique {n a b m : Node} (h : DistinctIds n) (ha : a ∈ n.children)
    (hb : b ∈ n.children) (hma : m ∈ a.preorder) (hmb : m ∈ b.preorder) : a = b := by
  by_contra hne
  have : Std.Symm fun a b : Node => ∀ i, HasId a i → ¬ HasId b i :=
    ⟨fun a b hab i hb ha => hab i ha hb⟩
  exact h.children_disjoint.forall (mem_nodes_append.mpr ha) (mem_nodes_append.mpr hb) hne m.id
    ⟨m, hma, rfl⟩ ⟨m, hmb, rfl⟩

theorem DistinctIds.not_hasId_child {n c : Node} (h : DistinctIds n) (hc : c ∈ n.children) :
    ¬ HasId c n.id := by
  rintro ⟨m, hm, hid⟩
  -- A node with `n`'s id would be `n`, strictly inside itself.
  have hmn := h.node_eq (mem_preorder_of_mem_children hc hm) (mem_preorder_self n) hid
  have hle := size_le_of_mem_preorder hm
  have hlt := Node.size_lt_of_mem_children hc
  rw [hmn] at hle
  omega

/-- What `init_id_parent` records for a subtree with distinct ids, whatever the
maps held before. -/
structure Recorded (n : Node) (ix : Index) : Prop where
  node : ∀ m ∈ n.preorder, ix.idNode m.id = some m
  parent : ∀ m ∈ n.preorder, ∀ c ∈ m.children, ix.idParent c.id = some m.id

/-- Later entries do not touch a node's own. -/
theorem initIdParent_self {n : Node} (h : DistinctIds n) (parent : Option Node) (ix : Index) :
    (initIdParent n parent ix).AgreeAt (ix.insert n parent) n.id := by
  rw [initIdParent_eq]
  exact initIdParents_agreeAt_of (fun c hc ix => initIdParent_agreeAt
    (h.not_hasId_child (mem_nodes_append.mp hc)) _ ix) _

/-- Every node of the tree is entered with its parent. -/
theorem initIdParent_recorded {n : Node} (h : DistinctIds n) (parent : Option Node)
    (ix : Index) : Recorded n (initIdParent n parent ix) := by
  induction n using Node.induct generalizing parent ix with
  | h n ih =>
      have hself := initIdParent_self h parent ix
      have hchild : ∀ c ∈ n.children, DistinctIds c ∧ ∃ ix', ∀ i, HasId c i →
          (initIdParent n parent ix).AgreeAt (initIdParent c (some n) ix') i := by
        intro c hc
        refine ⟨h.subtree (mem_preorder_of_mem_children hc (mem_preorder_self c)), ?_⟩
        rw [initIdParent_eq]
        exact initIdParents_agreeAt_child h.children_disjoint (mem_nodes_append.mpr hc) _
      constructor
      · -- A node below a child is entered with that child, and not touched afterwards.
        intro m hm
        rcases mem_preorder_iff.mp hm with rfl | ⟨c, hc, hmc⟩
        · rw [hself.1]
          exact Function.update_self _ _ _
        · obtain ⟨hdc, ix', hagree⟩ := hchild c hc
          rw [(hagree m.id ⟨m, hmc, rfl⟩).1]
          exact (ih c hc hdc (some n) ix').node m hmc
      · intro m hm d hd
        rcases mem_preorder_iff.mp hm with rfl | ⟨c, hc, hmc⟩
        · obtain ⟨hdd, ix', hagree⟩ := hchild d hd
          rw [(hagree d.id (hasId_self d)).2, (initIdParent_self hdd _ ix').2]
          exact Function.update_self _ _ _
        · obtain ⟨hdc, ix', hagree⟩ := hchild c hc
          have hdmem : d ∈ c.preorder :=
            mem_preorder_trans hmc (mem_preorder_of_mem_children hd (mem_preorder_self d))
          rw [(hagree d.id ⟨d, hdmem, rfl⟩).2]
          exact (ih c hc hdc (some n) ix').parent m hmc d hd

/-! ## `Tree` and its lookups -/

end Tree

open Ipc Swayr.Tree

/-- `Tree`: the root and the maps `get_tree`, its only constructor, builds from
it. Sway's trees have distinct ids. -/
structure Tree where
  root : Node
  index : Index
  built : index = initIdParent root none .empty
  distinct : DistinctIds root

def getTree (root : Node) (h : DistinctIds root) : Tree where
  root := root
  index := initIdParent root none .empty
  built := rfl
  distinct := h

/-- A tree is determined by its root. -/
theorem Tree.ext_root {s t : Tree} (h : s.root = t.root) : s = t := by
  obtain ⟨r, _, rfl, _⟩ := s
  obtain ⟨r', _, rfl, _⟩ := t
  cases h
  rfl

instance : DecidableEq Tree := fun s t =>
  decidable_of_iff (s.root = t.root) ⟨Tree.ext_root, congrArg Tree.root⟩

/-- The ways in which a function of the daemon fails to return. -/
inductive Panic
  | noNodeWithId (id : Int)
  | noCurrentWorkspace
  | unwrapNone
  | outOfFuel
deriving DecidableEq, Repr

namespace Tree

variable (t : Tree)

def getNodeById (id : Int) : Except Panic Node :=
  match t.index.idNode id with
  | some n => .ok n
  | none => .error (.noNodeWithId id)

/-- `get_parent_node`. -/
def getParentNode (id : Int) : Except Panic (Option Node) :=
  match t.index.idParent id with
  | some pid => (t.getNodeById pid).map some
  | none => .ok none

/-- `get_parent_node_of_type`, the recursion bounded by `fuel`. -/
def lookup : (fuel : Nat) → Int → Kind → Except Panic (Option Node)
  | 0, _, _ => .error .outOfFuel
  | fuel + 1, id, k =>
      match t.getNodeById id with
      | .error e => .error e
      | .ok n =>
          if n.getType = k then .ok (some n)
          else
            match t.index.idParent id with
            | some pid => lookup fuel pid k
            | none => .ok none

theorem recorded : Recorded t.root t.index := by
  rw [t.built]
  exact initIdParent_recorded t.distinct none .empty

/-- The index finds every node of the tree. -/
theorem idNode_mem {n : Node} (h : n ∈ t.root.preorder) : t.index.idNode n.id = some n :=
  t.recorded.node n h

/-- The index has every node's parent. -/
theorem idParent_child {p c : Node} (hp : p ∈ t.root.preorder) (hc : c ∈ p.children) :
    t.index.idParent c.id = some p.id :=
  t.recorded.parent p hp c hc

/-- The root has no parent. -/
theorem idParent_root : t.index.idParent t.root.id = none := by
  rw [t.built, (initIdParent_self t.distinct none .empty).2]
  rfl

/-- A node has one parent. -/
theorem parent_unique {p q c : Node} (hp : p ∈ t.root.preorder) (hq : q ∈ t.root.preorder)
    (hcp : c ∈ p.children) (hcq : c ∈ q.children) : p = q := by
  have hid := (t.idParent_child hp hcp).symm.trans (t.idParent_child hq hcq)
  exact t.distinct.node_eq hp hq (Option.some.inj hid)

theorem getNodeById_mem {n : Node} (h : n ∈ t.root.preorder) : t.getNodeById n.id = .ok n := by
  rw [getNodeById, t.idNode_mem h]

theorem getParentNode_child {p c : Node} (hp : p ∈ t.root.preorder) (hc : c ∈ p.children) :
    t.getParentNode c.id = .ok (some p) := by
  rw [getParentNode, t.idParent_child hp hc]
  simp only [t.getNodeById_mem hp]
  rfl

theorem getParentNode_root : t.getParentNode t.root.id = .ok none := by
  rw [getParentNode, t.idParent_root]

/-- The walk over the maps follows the lineage. -/
theorem lookup_lineage {l : List Node} (hl : Lineage t.root l) (k : Kind) (fuel : Nat)
    (hfuel : l.length ≤ fuel) {n : Node} (hn : l.head? = some n) :
    t.lookup fuel n.id k = .ok (l.find? fun m => m.getType == k) := by
  induction hl generalizing fuel n with
  | root =>
      obtain rfl : t.root = n := by simpa using hn
      obtain ⟨fuel, rfl⟩ : ∃ f, fuel = f + 1 := ⟨fuel - 1, by simp at hfuel; omega⟩
      rw [lookup, t.getNodeById_mem (mem_preorder_self _), t.idParent_root]
      by_cases hk : t.root.getType = k <;> simp [hk]
  | @child p c rest hp hc ih =>
      obtain rfl : c = n := by simpa using hn
      obtain ⟨fuel, rfl⟩ : ∃ f, fuel = f + 1 := ⟨fuel - 1, by simp at hfuel; omega⟩
      rw [lookup, t.getNodeById_mem (hp.child hc).mem, t.idParent_child hp.mem hc]
      by_cases hk : c.getType = k
      · simp [hk]
      · simpa [hk] using ih fuel (by simpa using hfuel) rfl

/-- A node has one lineage. -/
theorem lineage_unique {l l' : List Node} (hl : Lineage t.root l) (hl' : Lineage t.root l')
    (hhead : l.head? = l'.head?) : l = l' := by
  -- The root has no parent, so a lineage that starts there is over; elsewhere the parent
  -- is determined by the node.
  induction hl generalizing l' with
  | root =>
      cases hl' with
      | root => rfl
      | child hp hc =>
          obtain rfl : t.root = _ := by simpa using hhead
          have := t.idParent_child hp.mem hc
          rw [t.idParent_root] at this
          simp at this
  | child hp hc ih =>
      cases hl' with
      | root =>
          obtain rfl : _ = t.root := by simpa using hhead
          have := t.idParent_child hp.mem hc
          rw [t.idParent_root] at this
          simp at this
      | child hp' hc' =>
          obtain rfl : _ = _ := by simpa using hhead
          have hpp := t.parent_unique hp.mem hp'.mem hc hc'
          rw [ih hp' (by simp [hpp])]

/-- The lineage of a node lists all nodes that contain it. -/
theorem mem_lineage {n v : Node} {rest : List Node} (hl : Lineage t.root (n :: rest))
    (hv : v ∈ t.root.preorder) (hn : n ∈ v.preorder) : v ∈ n :: rest := by
  obtain ⟨above, hlv⟩ := exists_lineage hv
  obtain ⟨below, hln, hhead⟩ := hlv.extend hn
  have hsame : (n :: rest).head? = (below ++ v :: above).head? := by
    cases below with
    | nil => simpa using hhead.symm
    | cons b below => simpa using hhead.symm
  rw [t.lineage_unique hl hln hsame]
  simp

/-- A node of type `k` that contains `n` also contains the nearest node of type
`k` above `n`. -/
theorem nearest_mem {n m v : Node} {rest : List Node} {k : Kind}
    (hl : Lineage t.root (n :: rest))
    (hm : (n :: rest).find? (fun m => m.getType == k) = some m)
    (hv : v ∈ t.root.preorder) (hk : v.getType = k) (hn : n ∈ v.preorder) :
    m ∈ v.preorder := by
  obtain ⟨-, below, above, heq, hbelow⟩ := List.find?_eq_some_iff_append.mp hm
  have hvl := t.mem_lineage hl hv hn
  rw [heq] at hvl hl
  have habove : v ∈ m :: above := by
    rcases List.mem_append.mp hvl with h | h
    · have := hbelow v h
      simp [hk] at this
    · exact h
  exact hl.drop.head_mem m above rfl v habove

end Tree

end Swayr
