import Swayr.Layout.AutoTile

/-!
# What `split` does to sway's tree

A window that is the only tiled child of its parent passes the new layout on to
the parent; otherwise it is put into a new container with that layout. In a
larger tree this happens at one place and leaves the rest alone, which
`Splits.somewhere` says once for all facts about the nodes of a tree.
-/

namespace Swayr.Layout

open Ipc Swayr.Tree Kit

/-- The layout a split asks for. -/
def Split.layout : Split → NodeLayout
  | .splitv => .splitV
  | .splith => .splitH

theorem getType?_withLayout (p : NodeInfo) (split : Split) (h : p.getType?.isSome) :
    ({ p with layout := split.layout } : NodeInfo).getType? = p.getType? := by
  have hne : split.layout ≠ .none := by cases split <;> simp [Split.layout]
  unfold NodeInfo.getType? at h ⊢
  cases hty : p.nodeType with
  | con =>
      simp only [hty] at h ⊢
      by_cases hpid : p.pid.isNone
      · -- without a process it is a container, before as after
        simp only [Option.isNone_iff_eq_none] at hpid
        split at h
        · rename_i hc
          simp_all
        · simp [hpid] at h
      · simp_all
  | root | output | workspace | floatingCon | dockarea => simp_all

/-- A node's properties with the layout of a split. -/
def withLayout (p : NodeProps) (split : Split) : NodeProps where
  toNodeInfo := { p.toNodeInfo with layout := split.layout }
  known := by
    rw [getType?_withLayout _ _ p.known]
    exact p.known

/-- `split` on the node `i` turns one tree into the other. If a new container is
made, its properties are `c`. -/
inductive Splits (i : Int) (split : Split) (c : NodeProps) : Node → Node → Prop
  | alone {p : NodeProps} {w : Node} {fs : List Node} : w.id = i →
      Splits i split c (.mk p [w] fs) (.mk (withLayout p split) [w] fs)
  | wrap {p : NodeProps} {before after fs : List Node} {w : Node} : w.id = i →
      Splits i split c (.mk p (before ++ w :: after) fs)
        (.mk p (before ++ .mk c [w] [] :: after) fs)
  | nodes {p : NodeProps} {before after fs : List Node} {n n' : Node} : Splits i split c n n' →
      Splits i split c (.mk p (before ++ n :: after) fs) (.mk p (before ++ n' :: after) fs)
  | floating {p : NodeProps} {ns before after : List Node} {n n' : Node} :
      Splits i split c n n' →
      Splits i split c (.mk p ns (before ++ n :: after)) (.mk p ns (before ++ n' :: after))

/-! ## The nodes of the tree -/

theorem getType_mk_eq {p q : NodeProps} (h : p.getType? = q.getType?) (ns ms fs gs : List Node) :
    (Node.mk p ns fs).getType = (Node.mk q ms gs).getType := by
  have hp : some (Node.mk p ns fs).getType = p.getType? := Option.some_get _
  have hq : some (Node.mk q ms gs).getType = q.getType? := Option.some_get _
  exact Option.some.inj (hp.trans (h.trans hq.symm))

/-- A layout does not change what kind of node it is. -/
theorem getType_withLayout (p : NodeProps) (split : Split) (ns ms fs gs : List Node) :
    (Node.mk (withLayout p split) ns fs).getType = (Node.mk p ms gs).getType :=
  getType_mk_eq (getType?_withLayout p.toNodeInfo split p.known) ..

/-- What is seen of a node from above. -/
structure SameTop (n n' : Node) : Prop where
  id : n'.id = n.id
  width : n'.width = n.width
  getType : n'.getType = n.getType
  nodeType : n'.props.nodeType = n.props.nodeType

variable {i : Int} {split : Split} {c : NodeProps} {n n' : Node}

theorem Splits.sameTop (h : Splits i split c n n') : SameTop n n' := by
  cases h with
  | alone hw => exact ⟨rfl, rfl, getType_withLayout .., rfl⟩
  | wrap hw => exact ⟨rfl, rfl, rfl, rfl⟩
  | nodes h => exact ⟨rfl, rfl, rfl, rfl⟩
  | floating h => exact ⟨rfl, rfl, rfl, rfl⟩

/-- `here` holds of some node of the tree. -/
def Somewhere (here : Node → Prop) (n : Node) : Prop := ∃ x ∈ n.preorder, here x

theorem somewhere_mk {here : Node → Prop} {p : NodeProps} {ns fs : List Node} :
    Somewhere here (.mk p ns fs) ↔
      here (.mk p ns fs) ∨ ∃ x ∈ ns ++ fs, Somewhere here x := by
  constructor
  · rintro ⟨x, hx, hhere⟩
    rcases mem_preorder_iff.mp hx with rfl | ⟨d, hd, hxd⟩
    · exact .inl hhere
    · exact .inr ⟨d, mem_nodes_append.mpr hd, x, hxd, hhere⟩
  · rintro (hhere | ⟨d, hd, x, hx, hhere⟩)
    · exact ⟨_, mem_preorder_self _, hhere⟩
    · exact ⟨x, mem_preorder_of_mem_children (mem_nodes_append.mp hd) hx, hhere⟩

/-- One tiled child replaced. -/
theorem somewhere_nodes {here : Node → Prop} {p : NodeProps} {before after fs : List Node}
    {x x' : Node} (htop : here (.mk p (before ++ x :: after) fs) →
      Somewhere here (.mk p (before ++ x' :: after) fs))
    (hx : Somewhere here x → Somewhere here x')
    (h : Somewhere here (.mk p (before ++ x :: after) fs)) :
    Somewhere here (.mk p (before ++ x' :: after) fs) := by
  rcases somewhere_mk.mp h with hhere | ⟨y, hy, hhere⟩
  · exact htop hhere
  · simp only [List.append_assoc, List.cons_append, List.mem_append, List.mem_cons] at hy
    rcases hy with hy | rfl | hy
    · exact somewhere_mk.mpr (.inr ⟨y, by simp [hy], hhere⟩)
    · exact somewhere_mk.mpr (.inr ⟨x', by simp, hx hhere⟩)
    · exact somewhere_mk.mpr (.inr ⟨y, by simp [hy], hhere⟩)

/-- One floating child replaced. -/
theorem somewhere_floating {here : Node → Prop} {p : NodeProps} {ns before after : List Node}
    {x x' : Node} (htop : here (.mk p ns (before ++ x :: after)) →
      here (.mk p ns (before ++ x' :: after)))
    (hx : Somewhere here x → Somewhere here x')
    (h : Somewhere here (.mk p ns (before ++ x :: after))) :
    Somewhere here (.mk p ns (before ++ x' :: after)) := by
  rcases somewhere_mk.mp h with hhere | ⟨y, hy, hhere⟩
  · exact somewhere_mk.mpr (.inl (htop hhere))
  · simp only [List.mem_append, List.mem_cons] at hy
    rcases hy with hy | hy | rfl | hy
    · exact somewhere_mk.mpr (.inr ⟨y, by simp [hy], hhere⟩)
    · exact somewhere_mk.mpr (.inr ⟨y, by simp [hy], hhere⟩)
    · exact somewhere_mk.mpr (.inr ⟨x', by simp, hx hhere⟩)
    · exact somewhere_mk.mpr (.inr ⟨y, by simp [hy], hhere⟩)

/-- What holds of a node after the split held of one before, if that can be said
of the place where the split happened and of the nodes above it. -/
theorem Splits.somewhere {here : Node → Prop} (h : Splits i split c n n')
    (halone : ∀ p w fs, w.id = i → here (.mk (withLayout p split) [w] fs) → here (.mk p [w] fs))
    (hwrap : ∀ p before w after fs, w.id = i →
      here (.mk p (before ++ .mk c [w] [] :: after) fs) → here (.mk p (before ++ w :: after) fs))
    (hnew : ∀ w, w.id = i → ¬ here (.mk c [w] []))
    (hnodes : ∀ p before x x' after fs, SameTop x x' →
      here (.mk p (before ++ x' :: after) fs) → here (.mk p (before ++ x :: after) fs))
    (hfloating : ∀ p ns fs fs', here (.mk p ns fs') → here (.mk p ns fs))
    (hn' : Somewhere here n') : Somewhere here n := by
  induction h with
  | alone hw =>
      exact somewhere_mk.mpr ((somewhere_mk.mp hn').imp_left (halone _ _ _ hw))
  | @wrap p before after fs w hw =>
      refine somewhere_nodes (fun hhere => ?_) (fun hhere => ?_) hn'
      · exact somewhere_mk.mpr (.inl (hwrap _ _ _ _ _ hw hhere))
      · rcases somewhere_mk.mp hhere with htop | ⟨y, hy, hinside⟩
        · exact absurd htop (hnew w hw)
        · obtain rfl : y = w := by simpa using hy
          exact hinside
  | nodes h ih =>
      refine somewhere_nodes (fun hhere => ?_) ih hn'
      exact somewhere_mk.mpr (.inl (hnodes _ _ _ _ _ _ h.sameTop hhere))
  | floating h ih => exact somewhere_floating (hfloating _ _ _ _) ih hn'

/-! ## Ids -/

/-- No id is lost, and at most that of the new container is added. -/
theorem Splits.count_ids (h : Splits i split c n n') : ∃ k ≤ 1, ∀ j,
    (n'.preorder.map Node.id).count j =
      (n.preorder.map Node.id).count j + if j = c.id then k else 0 := by
  have hids : ∀ (p : NodeProps) (ns fs : List Node), ((Node.mk p ns fs).preorder.map Node.id) =
      p.id :: ((ns.reverse ++ fs.reverse).flatMap fun x => x.preorder.map Node.id) := by
    intro p ns fs
    rw [Node.preorder_eq, List.map_cons, List.map_flatMap]
    rfl
  induction h with
  | alone hw =>
      refine ⟨0, by omega, fun j => ?_⟩
      rw [hids, hids]
      simp [withLayout]
  -- Only here is there a new node.
  | wrap hw =>
      refine ⟨1, by omega, fun j => ?_⟩
      rw [hids, hids]
      simp only [List.reverse_append, List.reverse_cons, List.flatMap_append, List.flatMap_cons,
        List.flatMap_nil, List.count_cons, List.count_append, hids, List.append_nil,
        List.reverse_nil, List.nil_append]
      simp only [beq_iff_eq, eq_comm (a := j)]
      omega
  | nodes h ih =>
      obtain ⟨k, hk, hcount⟩ := ih
      refine ⟨k, hk, fun j => ?_⟩
      rw [hids, hids]
      simp only [List.reverse_append, List.reverse_cons, List.flatMap_append, List.flatMap_cons,
        List.flatMap_nil, List.count_cons, List.count_append, hcount, List.append_nil]
      omega
  | floating h ih =>
      obtain ⟨k, hk, hcount⟩ := ih
      refine ⟨k, hk, fun j => ?_⟩
      rw [hids, hids]
      simp only [List.reverse_append, List.reverse_cons, List.flatMap_append, List.flatMap_cons,
        List.flatMap_nil, List.count_cons, List.count_append, hcount, List.append_nil]
      omega

/-- The new container has an id of its own. -/
theorem Splits.distinctIds (h : Splits i split c n n') (hd : DistinctIds n)
    (hfresh : ¬ HasId n c.id) : DistinctIds n' := by
  obtain ⟨k, hk, hcount⟩ := h.count_ids
  refine List.nodup_iff_count_le_one.mpr fun j => ?_
  rw [hcount]
  split
  · rename_i hj
    have hzero : (n.preorder.map Node.id).count j = 0 := by
      refine List.count_eq_zero.mpr fun hmem => hfresh ?_
      obtain ⟨m, hm, rfl⟩ := List.mem_map.mp hmem
      exact ⟨m, hm, hj⟩
    omega
  · exact List.nodup_iff_count_le_one.mp hd j

/-! ## Tiled children -/

/-- `i` is a tiled child of some node, of which `here` holds. -/
def TiledIn (here : Node → Prop) (i : Int) (n : Node) : Prop :=
  Somewhere (fun p => here p ∧ ∃ w ∈ p.nodes, w.id = i) n

/-- Afterwards the node is a tiled child of one that has the new layout. -/
theorem Splits.tiledIn_self (h : Splits i split c n n') (hc : c.layout = split.layout) :
    TiledIn (fun p => p.layout = split.layout) i n' := by
  induction h with
  | @alone p w fs hw =>
      exact somewhere_mk.mpr (.inl ⟨rfl, w, List.mem_cons_self, hw⟩)
  | @wrap p before after fs w hw =>
      refine somewhere_mk.mpr (.inr ⟨.mk c [w] [], by simp, ?_⟩)
      exact somewhere_mk.mpr (.inl ⟨hc, w, List.mem_cons_self, hw⟩)
  | @nodes p before after fs m m' h ih => exact somewhere_mk.mpr (.inr ⟨m', by simp, ih⟩)
  | @floating p ns before after m m' h ih => exact somewhere_mk.mpr (.inr ⟨m', by simp, ih⟩)

/-- Tiled children stay tiled children. -/
theorem Splits.tiledIn (h : Splits i split c n n') {j : Int} (hj : TiledIn (fun _ => True) j n) :
    TiledIn (fun _ => True) j n' := by
  induction h with
  | alone hw => exact somewhere_mk.mpr ((somewhere_mk.mp hj).imp_left id)
  | @wrap p before after fs w hw =>
      refine somewhere_nodes ?_ (fun hhere => somewhere_mk.mpr (.inr ⟨w, by simp, hhere⟩)) hj
      rintro ⟨-, x, hx, hid⟩
      rcases List.mem_append.mp hx with hx | hx
      · exact somewhere_mk.mpr (.inl ⟨trivial, x, List.mem_append_left _ hx, hid⟩)
      rcases List.mem_cons.mp hx with rfl | hx
      · -- the node itself is now a child of the new container
        exact somewhere_mk.mpr (.inr ⟨.mk c [x] [], by simp,
          somewhere_mk.mpr (.inl ⟨trivial, x, List.mem_cons_self, hid⟩)⟩)
      · exact somewhere_mk.mpr
          (.inl ⟨trivial, x, List.mem_append_right _ (List.mem_cons_of_mem _ hx), hid⟩)
  | @nodes p before after fs m m' h ih =>
      refine somewhere_nodes ?_ ih hj
      rintro ⟨-, x, hx, hid⟩
      refine somewhere_mk.mpr (.inl ⟨trivial, ?_⟩)
      rcases List.mem_append.mp hx with hx | hx
      · exact ⟨x, List.mem_append_left _ hx, hid⟩
      rcases List.mem_cons.mp hx with rfl | hx
      · exact ⟨m', List.mem_append_right _ List.mem_cons_self, h.sameTop.id.trans hid⟩
      · exact ⟨x, List.mem_append_right _ (List.mem_cons_of_mem _ hx), hid⟩
  | floating h ih =>
      refine somewhere_floating (fun hhere => ?_) ih hj
      exact hhere

/-- Every tiled child can be split. -/
theorem exists_splits (split : Split) (c : NodeProps) (h : TiledIn (fun _ => True) i n) :
    ∃ n', Splits i split c n n' := by
  induction n using Node.induct with
  | h n ih =>
      obtain ⟨p, ns, fs⟩ := n
      rcases somewhere_mk.mp h with ⟨-, w, hw, hid⟩ | ⟨x, hx, hhere⟩
      · obtain ⟨before, after, rfl⟩ := List.append_of_mem (show w ∈ ns from hw)
        exact ⟨_, .wrap hid⟩
      · obtain ⟨x', hx'⟩ := ih x (mem_nodes_append.mp hx) hhere
        rcases List.mem_append.mp hx with hx | hx
        · obtain ⟨before, after, rfl⟩ := List.append_of_mem hx
          exact ⟨_, .nodes hx'⟩
        · obtain ⟨before, after, rfl⟩ := List.append_of_mem hx
          exact ⟨_, .floating hx'⟩

end Swayr.Layout
