import Mathlib.Data.List.Nodup
import Swayr.Ipc.Node

/-!
# Subtrees and lineages

The shape facts of a node tree that the index of `tree.rs` rests on: a subtree
is a contiguous block of the traversal, a node of a tree with distinct ids is
determined by its id, and every node has a *lineage*, itself and its ancestors
up to the root, whose members contain one another.
-/

namespace Swayr.Tree

open Swayr.Ipc

/-- Sway's promise about the trees it sends: ids are unique. -/
def DistinctIds (root : Node) : Prop := (root.preorder.map Node.id).Nodup

instance (root : Node) : Decidable (DistinctIds root) := by
  unfold DistinctIds
  infer_instance

/-! ## Subtrees -/

theorem mem_preorder_self (n : Node) : n ∈ n.preorder := by
  rw [Node.preorder_eq]
  exact List.mem_cons_self

/-- A node of a tree is its root or is below one of its children. -/
theorem mem_preorder_iff {n m : Node} :
    m ∈ n.preorder ↔ m = n ∨ ∃ c ∈ n.children, m ∈ c.preorder := by
  rw [Node.preorder_eq, List.mem_cons, List.mem_flatMap]

theorem mem_preorder_of_mem_children {n c m : Node} (hc : c ∈ n.children)
    (hm : m ∈ c.preorder) : m ∈ n.preorder :=
  mem_preorder_iff.mpr (.inr ⟨c, hc, hm⟩)

/-- Below what is below. -/
theorem mem_preorder_trans {a b c : Node} (hb : b ∈ a.preorder) (hc : c ∈ b.preorder) :
    c ∈ a.preorder := by
  induction a using Node.induct with
  | h a ih =>
      rcases mem_preorder_iff.mp hb with rfl | ⟨d, hd, hbd⟩
      · exact hc
      · exact mem_preorder_of_mem_children hd (ih d hd hbd)

theorem size_le_of_mem_preorder {n m : Node} (hm : m ∈ n.preorder) : m.size ≤ n.size := by
  induction n using Node.induct with
  | h n ih =>
      rcases mem_preorder_iff.mp hm with rfl | ⟨c, hc, hmc⟩
      · exact Nat.le_refl _
      · exact Nat.le_of_lt (Nat.lt_of_le_of_lt (ih c hc hmc) (Node.size_lt_of_mem_children hc))

/-- A subtree is a contiguous block of the traversal. -/
theorem preorder_block {n m : Node} (hm : m ∈ n.preorder) :
    ∃ before after, n.preorder = before ++ m.preorder ++ after := by
  induction n using Node.induct with
  | h n ih =>
      rcases mem_preorder_iff.mp hm with rfl | ⟨c, hc, hmc⟩
      · exact ⟨[], [], by simp⟩
      · obtain ⟨before, after, heq⟩ := ih c hc hmc
        obtain ⟨left, right, hsplit⟩ := List.append_of_mem hc
        refine ⟨n :: left.flatMap Node.preorder ++ before,
          after ++ right.flatMap Node.preorder, ?_⟩
        rw [Node.preorder_eq, hsplit, List.flatMap_append, List.flatMap_cons, heq]
        simp

/-- Part of a tree with distinct ids. -/
theorem DistinctIds.subtree {n m : Node} (h : DistinctIds n) (hm : m ∈ n.preorder) :
    DistinctIds m := by
  obtain ⟨before, after, heq⟩ := preorder_block hm
  unfold DistinctIds at h
  rw [heq, List.map_append, List.map_append] at h
  exact (List.nodup_append.mp (List.nodup_append.mp h).1).2.1

/-- In a tree with distinct ids a node is determined by its id. -/
theorem DistinctIds.node_eq {root a b : Node} (h : DistinctIds root)
    (ha : a ∈ root.preorder) (hb : b ∈ root.preorder) (hid : a.id = b.id) : a = b :=
  List.inj_on_of_nodup_map h ha hb hid

/-! ## Ancestors -/

/-- `Lineage root l`: `l` lists a node of the tree and its ancestors, up to the
root. -/
inductive Lineage (root : Node) : List Node → Prop
  | root : Lineage root [root]
  | child {p c : Node} {rest : List Node} : Lineage root (p :: rest) →
      c ∈ p.children → Lineage root (c :: p :: rest)

theorem Lineage.mem {root n : Node} {rest : List Node} (h : Lineage root (n :: rest)) :
    n ∈ root.preorder := by
  generalize hl : n :: rest = l at h
  induction h generalizing n rest with
  | root =>
      obtain ⟨rfl, -⟩ := List.cons.inj hl
      exact mem_preorder_self _
  | child hp hc ih =>
      obtain ⟨rfl, -⟩ := List.cons.inj hl
      exact mem_preorder_trans (ih rfl)
        (mem_preorder_of_mem_children hc (mem_preorder_self _))

/-- All ancestors belong to the tree. -/
theorem Lineage.mem_all {root : Node} {l : List Node} (h : Lineage root l) :
    ∀ n ∈ l, n ∈ root.preorder := by
  induction h with
  | root =>
      intro n hn
      rw [List.mem_singleton.mp hn]
      exact mem_preorder_self _
  | child hp hc ih =>
      intro n hn
      rcases List.mem_cons.mp hn with rfl | hn
      · exact (hp.child hc).mem
      · exact ih n hn

/-- Every node below a node with a lineage has one that passes through it. -/
theorem Lineage.extend {root n : Node} {rest : List Node} (h : Lineage root (n :: rest))
    {m : Node} (hm : m ∈ n.preorder) :
    ∃ below, Lineage root (below ++ n :: rest) ∧ (below ++ [n]).head? = some m := by
  induction n using Node.induct generalizing rest with
  | h n ih =>
      rcases mem_preorder_iff.mp hm with rfl | ⟨c, hc, hmc⟩
      · exact ⟨[], h, rfl⟩
      · obtain ⟨below, hlin, hhead⟩ := ih c hc (h.child hc) hmc
        refine ⟨below ++ [c], by simpa using hlin, ?_⟩
        simpa [List.head?_append] using hhead

/-- Every node of a tree has a line of ancestors up to the root. -/
theorem exists_lineage {root n : Node} (hn : n ∈ root.preorder) :
    ∃ rest, Lineage root (n :: rest) := by
  obtain ⟨below, hlin, hhead⟩ := Lineage.root.extend hn
  cases below with
  | nil =>
      obtain rfl : root = n := by simpa using hhead
      exact ⟨[], .root⟩
  | cons a below =>
      obtain rfl : a = n := by simpa using hhead
      exact ⟨_, hlin⟩

/-- A node of the tree is the root or a child. -/
theorem eq_root_or_child {root n : Node} (hn : n ∈ root.preorder) :
    n = root ∨ ∃ p ∈ root.preorder, n ∈ p.children := by
  obtain ⟨rest, hl⟩ := exists_lineage hn
  cases hl with
  | root => exact .inl rfl
  | child hp hc => exact .inr ⟨_, hp.mem, hc⟩

/-- A lineage is no longer than the tree has nodes. -/
theorem Lineage.length_le {root n : Node} {rest : List Node}
    (h : Lineage root (n :: rest)) : rest.length + n.size ≤ root.size := by
  generalize hl : n :: rest = l at h
  induction h generalizing n rest with
  | root =>
      obtain ⟨rfl, rfl⟩ := List.cons.inj hl
      simp
  | child hp hc ih =>
      obtain ⟨rfl, rfl⟩ := List.cons.inj hl
      have := ih rfl
      have := Node.size_lt_of_mem_children hc
      simp only [List.length_cons]
      omega

/-- Every member of a lineage contains the node it starts with. -/
theorem Lineage.head_mem {root : Node} {l : List Node} (h : Lineage root l) :
    ∀ n rest, l = n :: rest → ∀ b ∈ l, n ∈ b.preorder := by
  induction h with
  | root =>
      rintro n rest heq b hb
      obtain ⟨rfl, rfl⟩ := List.cons.inj heq
      rw [List.mem_singleton.mp hb]
      exact mem_preorder_self _
  | child hp hc ih =>
      rintro n rest heq b hb
      obtain ⟨rfl, rfl⟩ := List.cons.inj heq
      rcases List.mem_cons.mp hb with rfl | hb
      · exact mem_preorder_self _
      · exact mem_preorder_trans (ih _ _ rfl b hb)
          (mem_preorder_of_mem_children hc (mem_preorder_self _))

/-- From any member on a lineage is that member's lineage. -/
theorem Lineage.drop {root n : Node} {above below : List Node}
    (h : Lineage root (below ++ n :: above)) : Lineage root (n :: above) := by
  induction below with
  | nil => exact h
  | cons b below ih =>
      cases below with
      | nil => cases h with
          | child hp _ => exact ih hp
      | cons _ _ => cases h with
          | child hp _ => exact ih hp

end Swayr.Tree
