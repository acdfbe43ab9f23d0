import Swayr.Menu.Lists

/-!
# The tree menus are outlines

The list is built by a sorted traversal, the indentation by climbing to the
root. Both agree: a line's indentation says which line above it is its parent.
-/

namespace Swayr.Theorems.MenuOutline

open Swayr.Ipc Swayr.Tree Swayr.Focus

section forest

variable (t : Tree) (ticks : TickMap)

/-- Children of one node. -/
def Siblings (a b : Node) : Prop :=
  ∃ p ∈ t.root.preorder, a ∈ p.children ∧ b ∈ p.children

variable {t}

/-- Siblings are on one level. -/
theorem Siblings.depthOf_eq {a b : Node} (h : Siblings t a b) : t.depthOf a = t.depthOf b := by
  obtain ⟨p, hp, ha, hb⟩ := h
  rw [t.depthOf_child hp ha, t.depthOf_child hp hb]

/-- The siblings of a node that lies below `n` lie below `n`. -/
theorem Siblings.mem_preorder {n a b : Node} (h : Siblings t a b) (hn : n ∈ t.root.preorder)
    (ha : a ∈ n.preorder) (hne : a ≠ n) : b ∈ n.preorder := by
  obtain ⟨p, hp, hap, hbp⟩ := h
  obtain ⟨q, hq, haq⟩ := (eq_root_or_child ha).resolve_left hne
  rw [t.parent_unique hp (mem_preorder_trans hn hq) hap haq] at hbp
  exact mem_preorder_trans hq (mem_preorder_of_mem_children hbp (mem_preorder_self b))

theorem mem_subtreeSorted {n m : Node} : m ∈ subtreeSorted ticks n ↔ m ∈ n.preorder :=
  (subtreeSorted_perm ticks n).mem_iff

/-! ## The subtrees of nodes at one depth -/

variable {tops : List Node} {k : Nat}

/-- Subtrees on one level have no node in common. -/
theorem nodup_pushSubtrees (hmem : ∀ o ∈ tops, o ∈ t.root.preorder)
    (hdepth : ∀ o ∈ tops, t.depthOf o = k) (hnodup : tops.Nodup) :
    (pushSubtrees ticks tops).Nodup := by
  rw [pushSubtrees_eq, List.nodup_flatMap]
  constructor
  · intro o ho
    rw [(subtreeSorted_perm ticks o).nodup_iff]
    exact List.Nodup.of_map Node.id (t.distinct.subtree (hmem o ho))
  · refine (List.nodup_iff_pairwise_ne.mp hnodup).imp_of_mem ?_
    intro a b ha hb hne m hma hmb
    rw [mem_subtreeSorted] at hma hmb
    exact hne (t.eq_of_depthOf_eq (hmem a ha) (hmem b hb) hma hmb
      ((hdepth a ha).trans (hdepth b hb).symm))

/-- Siblings inside the subtrees are in order if they are inside each subtree,
and the tops are. -/
theorem pairwise_pushSubtrees (hmem : ∀ o ∈ tops, o ∈ t.root.preorder)
    (hdepth : ∀ o ∈ tops, t.depthOf o = k) (hnodup : tops.Nodup)
    (hsorted : tops.Pairwise (UrgentThenRecent ticks))
    (hsub : ∀ o ∈ tops, (subtreeSorted ticks o).Pairwise fun a b =>
      (Siblings t a b → UrgentThenRecent ticks a b) ∧ t.depthOf o < t.depthOf b) :
    (tops.flatMap (subtreeSorted ticks)).Pairwise fun a b =>
      Siblings t a b ∨ t.depthOf a = k ∧ t.depthOf b = k → UrgentThenRecent ticks a b := by
  apply List.pairwise_flatMap.mpr
  constructor
  · intro o ho
    refine (hsub o ho).imp ?_
    rintro a b ⟨hsib, hlt⟩ (h | ⟨-, hb⟩)
    · exact hsib h
    · have := hdepth o ho
      omega
  · refine (hsorted.and (List.nodup_iff_pairwise_ne.mp hnodup)).imp_of_mem ?_
    rintro c d hc hd ⟨hcd, hne⟩ a ha b hb hab
    rw [mem_subtreeSorted] at ha hb
    have hdc := hdepth c hc
    have hdd := hdepth d hd
    have hdab : t.depthOf a = t.depthOf b := by
      rcases hab with h | ⟨h, h'⟩
      · exact h.depthOf_eq
      · rw [h, h']
    have hac : a = c := by
      by_contra hac
      have hlt := (t.depthOf_below (hmem c hc) ha).resolve_left hac
      have hsib : Siblings t a b := hab.resolve_right fun h => by omega
      -- the sibling is below `c` as well, and below `d`
      exact hne (t.eq_of_depthOf_eq (hmem c hc) (hmem d hd)
        (hsib.mem_preorder (hmem c hc) ha hac) hb (hdc.trans hdd.symm))
    have hbd : b = d := by
      rcases t.depthOf_below (hmem d hd) hb with h | h
      · exact h
      · rw [hac] at hdab
        omega
    rwa [hac, hbd]

theorem mem_of_mem_sortedChildren {n c : Node} (hn : n ∈ t.root.preorder)
    (hc : c ∈ sortedChildren ticks n) : c ∈ t.root.preorder :=
  mem_preorder_trans hn
    (mem_preorder_of_mem_children ((mem_sortedChildren ticks).mp hc) (mem_preorder_self c))

theorem nodup_sortedChildren {n : Node} (hn : n ∈ t.root.preorder) :
    (sortedChildren ticks n).Nodup := by
  rw [sortedChildren, sortByUrgencyAndLruTime1, (Kit.sortBy_perm _ _).nodup_iff]
  refine (t.distinct.subtree hn).children_disjoint.imp ?_
  rintro a b hab rfl
  exact hab a.id (hasId_self a) (hasId_self a)

/-- Siblings come in their order, and everything below its root. -/
theorem pairwise_subtreeSorted {n : Node} (hn : n ∈ t.root.preorder) :
    (subtreeSorted ticks n).Pairwise fun a b =>
      (Siblings t a b → UrgentThenRecent ticks a b) ∧ t.depthOf n < t.depthOf b := by
  induction n using Node.induct with
  | h n ih =>
      have hchild : ∀ c ∈ sortedChildren ticks n, t.depthOf c = t.depthOf n + 1 := by
        intro c hc
        exact t.depthOf_child hn ((mem_sortedChildren ticks).mp hc)
      have hbelow : ∀ m ∈ (sortedChildren ticks n).flatMap (subtreeSorted ticks),
          t.depthOf n < t.depthOf m := by
        intro m hm
        obtain ⟨c, hc, hmc⟩ := List.mem_flatMap.mp hm
        rw [mem_subtreeSorted] at hmc
        have := hchild c hc
        rcases t.depthOf_below (mem_of_mem_sortedChildren ticks hn hc) hmc with rfl | hlt
        · omega
        · omega
      rw [subtreeSorted_eq]
      refine List.pairwise_cons.mpr ⟨?_, ?_⟩
      · -- The root has no sibling below it.
        intro m hm
        refine ⟨fun hsib => ?_, hbelow m hm⟩
        have := hsib.depthOf_eq
        have := hbelow m hm
        omega
      · have hforest := pairwise_pushSubtrees ticks
          (fun c hc => mem_of_mem_sortedChildren ticks hn hc) hchild
          (nodup_sortedChildren ticks hn) (pairwise_sorted ticks _) fun c hc =>
            ih c ((mem_sortedChildren ticks).mp hc) (mem_of_mem_sortedChildren ticks hn hc)
        refine hforest.imp_of_mem ?_
        intro a b _ hb hab
        exact ⟨fun hsib => hab (.inl hsib), hbelow b hb⟩

/-- One case per node: the node, then the outlines of its children. -/
theorem outline_subtreeSorted {n : Node} (hn : n ∈ t.root.preorder) :
    Kit.Outline (fun p c => c ∈ p.children) t.depthOf (t.depthOf n) (subtreeSorted ticks n) := by
  induction n using Node.induct with
  | h n ih =>
      rw [subtreeSorted_eq]
      refine .cons rfl ?_ ?_
      · apply Kit.Outline.flatMap
        intro c hc
        have hcn := (mem_sortedChildren ticks).mp hc
        have := ih c hcn (mem_of_mem_sortedChildren ticks hn hc)
        rwa [t.depthOf_child hn hcn] at this
      · intro e he hdepth
        obtain ⟨c, hc, hec⟩ := List.mem_flatMap.mp he
        have hcn := (mem_sortedChildren ticks).mp hc
        have hdc := t.depthOf_child hn hcn
        rw [mem_subtreeSorted] at hec
        rcases t.depthOf_below (mem_of_mem_sortedChildren ticks hn hc) hec with rfl | hlt
        · exact hcn
        · omega

/-- Every entry stands below its parent. -/
theorem outline_pushSubtrees (hmem : ∀ o ∈ tops, o ∈ t.root.preorder)
    (hdepth : ∀ o ∈ tops, t.depthOf o = k) :
    Kit.Outline (fun p c => c ∈ p.children) t.depthOf k (pushSubtrees ticks tops) := by
  rw [pushSubtrees_eq]
  apply Kit.Outline.flatMap
  intro o ho
  rw [← hdepth o ho]
  exact outline_subtreeSorted ticks (hmem o ho)

end forest

/-! ## The menu lists -/

/-- The list of the subtrees of the nodes of type `top`. -/
structure ListsSubtrees (t : Tree) (ticks : TickMap) (top : Kind) (v : List DisplayNode) :
    Prop where
  /-- Nothing is listed twice. -/
  once : (v.map fun d => d.node.id).Nodup
  /-- The nodes of the subtrees are listed, and no others. -/
  all : ∀ n, n ∈ v.map DisplayNode.node ↔
    ∃ o ∈ t.root.preorder, o.getType = top ∧ n ∈ o.preorder
  /-- Siblings, and the tops of the subtrees, are in order. -/
  sorted : v.Pairwise fun a b =>
    Siblings t a.node b.node ∨ a.node.getType = top ∧ b.node.getType = top →
      UrgentThenRecent ticks a.node b.node
  /-- The tops have indent 0. The parent of any other entry is the nearest one
  before it with a smaller indent, and that is smaller by one. -/
  outline : ∀ before e after, v = before ++ e :: after →
    e.node.getType = top ∧ e.getIndentLevel = some 0 ∨
    e.node.getType ≠ top ∧ ∃ above p between i, before = above ++ p :: between ∧
      e.node ∈ p.node.children ∧ p.getIndentLevel = some i ∧ e.getIndentLevel = some (i + 1) ∧
      ∀ m ∈ between, ∃ j, m.getIndentLevel = some j ∧ i + 1 ≤ j

variable (t : Tree) (ticks : TickMap)

theorem getIndentLevel_subtreesOfType {top : Kind} {offset : Nat} {d : DisplayNode}
    (hd : d ∈ t.subtreesOfType ticks top offset) :
    d.getIndentLevel = some (t.depthOf d.node - offset) := by
  obtain ⟨n, hn, rfl⟩ := List.mem_pmap.mp hd
  unfold DisplayNode.getIndentLevel
  rw [DisplayNode.depth_eq]
  simp only [Option.some.injEq]
  split
  · omega
  · rfl

section subtrees

variable (top : Kind) (k : Nat)

theorem node_subtreesOfType :
    (t.subtreesOfType ticks top k).map DisplayNode.node =
      pushSubtrees ticks (t.sortedNodesOfType ticks top) := t.asDisplayNodes_node _ _ _

theorem mem_of_mem_pushSubtrees :
    ∀ n ∈ pushSubtrees ticks (t.sortedNodesOfType ticks top), n ∈ t.root.preorder := by
  intro n hn
  obtain ⟨o, ho, -, hno⟩ := (t.mem_pushSubtrees_sorted ticks).mp hn
  exact mem_preorder_trans ho hno

variable {top k} (htop : ∀ n ∈ t.root.preorder, n.getType = top ↔ t.depthOf n = k)

include htop

theorem depthOf_sortedNodesOfType :
    ∀ o ∈ t.sortedNodesOfType ticks top, o ∈ t.root.preorder ∧ t.depthOf o = k := by
  intro o ho
  obtain ⟨hmem, htype⟩ := mem_sortedNodesOfType1.mp ho
  exact ⟨hmem, (htop o hmem).mp htype⟩

/-- The parent of an entry that is no top is the nearest one before it with a smaller
indent. -/
theorem outline_subtreesOfType {before after : List DisplayNode} {e : DisplayNode}
    (hsplit : t.subtreesOfType ticks top k = before ++ e :: after) :
    e.node.getType = top ∧ e.getIndentLevel = some 0 ∨
    e.node.getType ≠ top ∧ ∃ above p between i, before = above ++ p :: between ∧
      e.node ∈ p.node.children ∧ p.getIndentLevel = some i ∧ e.getIndentLevel = some (i + 1) ∧
      ∀ m ∈ between, ∃ j, m.getIndentLevel = some j ∧ i + 1 ≤ j := by
  have hsorted := depthOf_sortedNodesOfType t ticks htop
  have hindent : ∀ d ∈ before ++ e :: after,
      d.getIndentLevel = some (t.depthOf d.node - k) := by
    intro d hd
    exact getIndentLevel_subtreesOfType t ticks (hsplit ▸ hd)
  have he : e.node ∈ t.root.preorder := by
    apply mem_of_mem_pushSubtrees t ticks top
    rw [← node_subtreesOfType t ticks top k, hsplit]
    simp
  have houtline := outline_pushSubtrees ticks (fun o ho => (hsorted o ho).1)
    fun o ho => (hsorted o ho).2
  rw [← node_subtreesOfType t ticks top k] at houtline
  have hentry := houtline.of_map before e after hsplit
  beta_reduce at hentry
  -- An entry on the top level, or one with its parent above it.
  rcases hentry with hk | ⟨hlt, above, p, between, rfl, hparent, hlevel, hbetween⟩
  · refine .inl ⟨(htop e.node he).mpr hk, ?_⟩
    rw [hindent e (by simp), hk, Nat.sub_self]
  · have hnot : e.node.getType ≠ top := by
      intro h
      have := (htop e.node he).mp h
      omega
    refine .inr ⟨hnot, above, p, between, t.depthOf p.node - k, rfl, hparent,
      hindent p (by simp), ?_, ?_⟩
    · rw [hindent e (by simp)]
      exact congrArg some (by omega)
    · intro m hm
      refine ⟨_, hindent m (by simp [hm]), ?_⟩
      have := hbetween m hm
      omega

/-- A list of subtrees whose tops are the nodes at depth `k` is an outline. -/
theorem listsSubtrees_of_depthOf :
    ListsSubtrees t ticks top (t.subtreesOfType ticks top k) := by
  have hsorted := depthOf_sortedNodesOfType t ticks htop
  have hmem := fun o ho => (hsorted o ho).1
  have hdepth := fun o ho => (hsorted o ho).2
  have hnodup := t.nodup_sortedNodesOfType ticks top
  have hnode := node_subtreesOfType t ticks top k
  have hin := mem_of_mem_pushSubtrees t ticks top
  constructor
  · have hids := (nodup_pushSubtrees ticks hmem hdepth hnodup).map_on
      fun a ha b hb => t.distinct.node_eq (hin a ha) (hin b hb)
    rwa [← hnode, List.map_map] at hids
  · intro n
    rw [hnode, t.mem_pushSubtrees_sorted ticks]
  · have hpair := pairwise_pushSubtrees ticks hmem hdepth hnodup (pairwise_sorted ticks _)
      fun o ho => pairwise_subtreeSorted ticks (hmem o ho)
    rw [← pushSubtrees_eq] at hpair
    have htops : (pushSubtrees ticks (t.sortedNodesOfType ticks top)).Pairwise fun a b =>
        Siblings t a b ∨ a.getType = top ∧ b.getType = top → UrgentThenRecent ticks a b := by
      refine hpair.imp_of_mem ?_
      intro a b ha hb h
      rwa [htop a (hin a ha), htop b (hin b hb)]
    rw [← hnode, List.pairwise_map] at htops
    exact htops
  · intro before e after hsplit
    exact outline_subtreesOfType t ticks htop hsplit

end subtrees

/-- For sway's trees and any ticks both menu lists are outlines of the tree. -/
theorem menuLists_outline (root : Node) (hdistinct : DistinctIds root) (hshape : SwayShaped root)
    (ticks : TickMap) :
    ListsSubtrees (getTree root hdistinct) ticks .workspace
      ((getTree root hdistinct).getWorkspacesContainersAndWindows ticks) ∧
    ListsSubtrees (getTree root hdistinct) ticks .output
      ((getTree root hdistinct).getOutputsWorkspacesContainersAndWindows ticks) :=
  ⟨listsSubtrees_of_depthOf _ ticks fun _ hn => hshape.depthOf_workspace _ hn,
    listsSubtrees_of_depthOf _ ticks fun _ hn => hshape.depthOf_output _ hn⟩

/-- A window inside a container and a floating one. -/
def nestedWindow : Node :=
  .mk ⟨{ id := 910, nodeType := .root }, rfl⟩
    [.mk ⟨{ id := 911, nodeType := .output }, rfl⟩
      [.mk ⟨{ id := 912, nodeType := .workspace }, rfl⟩
        [.mk ⟨{ id := 913, nodeType := .con, layout := .splitV }, rfl⟩
          [.mk ⟨{ id := 914, nodeType := .con, pid := some 710 }, rfl⟩ [] []] []]
        [.mk ⟨{ id := 915, nodeType := .floatingCon, pid := some 711 }, rfl⟩ [] []]] []] []

/-- A window in a container on a workspace. -/
theorem menuLists_outline_nestedWindow :
    ∃ (hdistinct : DistinctIds nestedWindow) (_ : SwayShaped nestedWindow),
      ListsSubtrees (getTree nestedWindow hdistinct) (fun _ => none) .output
        ((getTree nestedWindow hdistinct).getOutputsWorkspacesContainersAndWindows
          fun _ => none) := by
  have hdistinct : DistinctIds nestedWindow := by decide
  have hshape : SwayShaped nestedWindow :=
    ⟨by decide, by decide, by decide, by decide⟩
  exact ⟨hdistinct, hshape, (menuLists_outline nestedWindow hdistinct hshape fun _ => none).2⟩

end Swayr.Theorems.MenuOutline
