import Swayr.Menu.Lists

/-!
# The order of the window and workspace menus

What one has in front of them should come last, so the sorted lists are rotated.
`get_windows` rotates behind the urgent windows. The other two lists rotate
whatever the sort put first, which need not be the current workspace nor the
focused window.
-/

namespace Swayr.Theorems.MenuOrder

open Swayr.Ipc Swayr.Tree Swayr.Focus

variable (t : Tree) (ticks : TickMap)

/-! ## `get_windows` -/

/-- By descending tick. -/
def Recent (a b : Node) : Prop := ticks.lastFocusTick b.id ≤ ticks.lastFocusTick a.id

/-- Urgent windows stay in front; the most recent of the others is put last. -/
theorem windowNodes_split : ∃ urgent rest,
    sortedNodesOfType1 ticks t.root .window = urgent ++ rest ∧
    windowNodes ticks t.root = urgent ++ rest.rotate 1 ∧
    (∀ u ∈ urgent, u.urgent = true) ∧ ∀ r ∈ rest, r.urgent = false := by
  have hsorted := pairwise_sorted ticks (t.root.nodesOfType .window)
  have hurgent : (sortedNodesOfType1 ticks t.root .window).Pairwise fun a b =>
      b.urgent = true → a.urgent = true := by
    refine hsorted.imp ?_
    rintro a b (⟨ha, -⟩ | ⟨heq, -⟩) hb
    · exact ha
    · rw [heq, hb]
  refine ⟨_, _, List.takeWhile_append_dropWhile.symm, rotateNonUrgent_eq _, ?_, ?_⟩
  · intro u hu
    exact List.mem_takeWhile_imp hu
  · exact fun r hr => dropWhile_urgent hurgent hr

/-- Among equals in urgency recency decides. -/
theorem pairwise_recent_of_urgent_eq {v : List Node} {u : Bool} (h : ∀ n ∈ v, n.urgent = u)
    (hv : v.Pairwise (UrgentThenRecent ticks)) : v.Pairwise (Recent ticks) := by
  refine hv.imp_of_mem ?_
  rintro a b ha hb (⟨hau, hbu⟩ | ⟨-, hle⟩)
  · rw [h a ha] at hau
    rw [h b hb, hau] at hbu
    simp at hbu
  · exact hle

/-- After the rotation the first is the last. -/
theorem rotate_one_recent {rest others : List Node} {last : Node}
    (hrest : rest.Pairwise (Recent ticks)) (heq : rest.rotate 1 = others ++ [last]) :
    others.Pairwise (Recent ticks) ∧ ∀ r ∈ others, Recent ticks last r := by
  cases rest with
  | nil => simp at heq
  | cons x rest =>
      rw [List.rotate_cons_succ, List.rotate_zero] at heq
      obtain ⟨rfl, hlast⟩ := List.append_inj' heq rfl
      obtain rfl : x = last := by simpa using hlast
      exact ⟨hrest.of_cons, (List.pairwise_cons.mp hrest).1⟩

/-- What has the strictly greatest tick is the first. -/
theorem eq_head_of_greatest {x f : Node} {rest : List Node}
    (hrest : (x :: rest).Pairwise (Recent ticks)) (hf : f ∈ x :: rest)
    (hmax : x ≠ f → ticks.lastFocusTick x.id < ticks.lastFocusTick f.id) : x = f := by
  by_contra hne
  have hle : Recent ticks x f :=
    (List.pairwise_cons.mp hrest).1 f ((List.mem_cons.mp hf).resolve_left (Ne.symm hne))
  unfold Recent at hle
  have := hmax hne
  omega

/-- The order of the window menu. -/
theorem getWindows_order :
    ((t.getWindows ticks).map DisplayNode.node).Perm
      (t.root.preorder.filter fun n => n.getType == .window) ∧
    (∃ urgent rest, (t.getWindows ticks).map DisplayNode.node = urgent ++ rest ∧
      (∀ u ∈ urgent, u.urgent = true) ∧ urgent.Pairwise (Recent ticks) ∧
      (∀ r ∈ rest, r.urgent = false) ∧
      ∀ others last, rest = others ++ [last] →
        others.Pairwise (Recent ticks) ∧ ∀ r ∈ others, Recent ticks last r) ∧
    ∀ f ∈ t.root.preorder, f.getType = .window → f.focused = true → f.urgent = false →
      (∀ w ∈ t.root.preorder, w.getType = .window → w.urgent = false → w ≠ f →
        ticks.lastFocusTick w.id < ticks.lastFocusTick f.id) →
      ∃ others, (t.getWindows ticks).map DisplayNode.node = others ++ [f] ∧
        others.Pairwise (UrgentThenRecent ticks) := by
  obtain ⟨urgent, rest, hsorted, hnodes, hurgent, hrest⟩ := windowNodes_split t ticks
  have hpair := pairwise_sorted ticks (t.root.nodesOfType .window)
  rw [← sortedNodesOfType1, hsorted] at hpair
  obtain ⟨hpu, hpr, -⟩ := List.pairwise_append.mp hpair
  have hrecent := pairwise_recent_of_urgent_eq ticks hrest hpr
  rw [getWindows_node]
  refine ⟨?_, ⟨urgent, rest.rotate 1, hnodes, hurgent,
    pairwise_recent_of_urgent_eq ticks hurgent hpu, ?_, ?_⟩, ?_⟩
  · rw [← Node.nodesOfType_eq]
    exact windowNodes_perm ticks t.root
  · intro r hr
    exact hrest r (List.mem_rotate.mp hr)
  · intro others last heq
    exact rotate_one_recent ticks hrecent heq
  · -- The focused window heads those that are not urgent, so the rotation puts it last.
    intro f hf hwin _ hnot hmax
    have hfrest : f ∈ rest := by
      have hmem : f ∈ sortedNodesOfType1 ticks t.root .window :=
        mem_sortedNodesOfType1.mpr ⟨hf, hwin⟩
      rw [hsorted] at hmem
      rcases List.mem_append.mp hmem with h | h
      · rw [hurgent f h] at hnot
        simp at hnot
      · exact h
    cases rest with
    | nil => simp at hfrest
    | cons x rest =>
        have hxwin := mem_sortedNodesOfType1.mp
          (show x ∈ sortedNodesOfType1 ticks t.root .window by simp [hsorted])
        have hx : x = f := eq_head_of_greatest ticks hrecent hfrest
          (hmax x hxwin.1 hxwin.2 (hrest x List.mem_cons_self))
        refine ⟨urgent ++ rest, by simp [hnodes, hx], ?_⟩
        exact hpair.sublist ((List.sublist_cons_self x rest).append_left urgent)

/-! ## The rotations of the other lists -/

theorem urgentThenRecent_refl (a : Node) : UrgentThenRecent ticks a a := .inr ⟨rfl, le_rfl⟩

theorem urgentThenRecent_trans (a b c : Node) (hab : UrgentThenRecent ticks a b)
    (hbc : UrgentThenRecent ticks b c) : UrgentThenRecent ticks a c := by
  rcases hab with ⟨ha, hb⟩ | ⟨hab, hle⟩
  · rcases hbc with ⟨hb', hc⟩ | ⟨hbc, -⟩
    · exact .inl ⟨ha, hc⟩
    · exact .inl ⟨ha, hbc ▸ hb⟩
  · rcases hbc with ⟨hb, hc⟩ | ⟨hbc, hle'⟩
    · exact .inl ⟨hab ▸ hb, hc⟩
    · exact .inr ⟨hab.trans hbc, hle'.trans hle⟩

/-- The first entry is one of those left out, or the others tie. -/
def RotatesOut (p : Node → Bool) (v : List Node) : Prop :=
  (∃ x, v.head? = some x ∧ p x = true) ∨
    ∀ a ∈ v, p a = false → ∀ b ∈ v, p b = false → UrgentThenRecent ticks a b

/-- When putting the first one last keeps the order. -/
theorem pairwise_rotate_iff {v : List Node} (hv : v.Pairwise (UrgentThenRecent ticks))
    (p : Node → Bool) :
    ((v.rotate 1).filter fun n => !p n).Pairwise (UrgentThenRecent ticks) ↔
      RotatesOut ticks p v := by
  rw [Kit.pairwise_filter_rotate_one (urgentThenRecent_refl ticks)
    (urgentThenRecent_trans ticks) hv]
  simp only [Bool.not_eq_false', Bool.not_eq_true', RotatesOut]

/-- The windows of `ws` in a list. -/
def windowsOf (ws : Node) (v : List Node) : List Node :=
  v.filter fun n => n.getType == .window && decide (n ∈ ws.preorder)

def hasWindows (ws : Node) : Bool := !(ws.nodesOfType .window).isEmpty

theorem hasWindows_eq (ws : Node) :
    hasWindows ws = !(sortedNodesOfType1 ticks ws .window).isEmpty := by
  have hperm := Kit.sortBy_perm (urgencyAndLruCmp ticks) (ws.nodesOfType .window)
  rw [hasWindows, sortedNodesOfType1, sortByUrgencyAndLruTime1, hperm.isEmpty_eq]

theorem windowsOf_append (ws : Node) (v v' : List Node) :
    windowsOf ws (v ++ v') = windowsOf ws v ++ windowsOf ws v' := List.filter_append ..

/-- Windows of other workspaces do not count. -/
theorem windowsOf_foreign {ws : Node} {v : List Node}
    (h : ∀ n ∈ v, n.getType = .window → n ∉ ws.preorder) : windowsOf ws v = [] := by
  apply List.filter_eq_nil_iff.mpr
  intro n hn hkeep
  simp only [Bool.and_eq_true, beq_iff_eq, decide_eq_true_eq] at hkeep
  exact h n hn hkeep.1 hkeep.2

/-- The windows of a workspace as the loop pushes them. -/
def pushedWins (rotated : Bool) (ws : Node) : List Node :=
  if rotated then (sortedNodesOfType1 ticks ws .window).rotate 1
  else sortedNodesOfType1 ticks ws .window

theorem mem_pushedWins {rotated : Bool} {ws n : Node} :
    n ∈ pushedWins ticks rotated ws ↔ n ∈ ws.preorder ∧ n.getType = .window := by
  unfold pushedWins
  cases rotated with
  | false => exact mem_sortedNodesOfType1
  | true => exact List.mem_rotate.trans mem_sortedNodesOfType1

theorem pushedWins_of_not_hasWindows {ws : Node} (h : hasWindows ws = false) (rotated : Bool) :
    pushedWins ticks rotated ws = [] := by
  rw [hasWindows_eq ticks, Bool.not_eq_false', List.isEmpty_iff] at h
  unfold pushedWins
  rw [h]
  cases rotated <;> rfl

/-- What is pushed below a workspace are its windows. -/
theorem windowsOf_pushedWins (rotated : Bool) (ws : Node) :
    windowsOf ws (pushedWins ticks rotated ws) = pushedWins ticks rotated ws := by
  apply List.filter_eq_self.mpr
  intro n hn
  obtain ⟨hmem, hwin⟩ := (mem_pushedWins ticks).mp hn
  simp [hmem, hwin]

/-- One round of the loop. -/
theorem pushWorkspaces_cons (first : Bool) (ws : Node) (workspaces : List Node) :
    pushWorkspaces ticks first (ws :: workspaces) =
      [ws] ++ (pushedWins ticks (first && hasWindows ws) ws ++
        pushWorkspaces ticks (first && !hasWindows ws) workspaces) := by
  rw [hasWindows_eq ticks, pushWorkspaces, pushedWins]
  cases first <;> cases sortedNodesOfType1 ticks ws .window <;> simp

/-- The windows of a workspace, as they are listed: rotated for the first
workspace that has windows. -/
theorem windowsOf_pushWorkspaces {workspaces : List Node} (first : Bool)
    (htype : ∀ ws ∈ workspaces, ws.getType = .workspace)
    (hdisj : workspaces.Pairwise fun a b => ∀ n ∈ a.preorder, n ∉ b.preorder)
    {ws : Node} (hws : ws ∈ workspaces) :
    windowsOf ws (pushWorkspaces ticks first workspaces) =
      pushedWins ticks (first && workspaces.find? hasWindows == some ws) ws := by
  induction workspaces generalizing first with
  | nil => simp at hws
  | cons x rest ih =>
      obtain ⟨hx, hrest⟩ := List.pairwise_cons.mp hdisj
      have hhead : windowsOf ws [x] = [] := by
        apply windowsOf_foreign
        intro n hn hwin
        rw [List.mem_singleton.mp hn, htype x List.mem_cons_self] at hwin
        simp at hwin
      rw [pushWorkspaces_cons, windowsOf_append, windowsOf_append, hhead, List.nil_append,
        List.find?_cons]
      rcases List.mem_cons.mp hws with rfl | hws
      · -- its own windows are kept, those of later workspaces are not its own
        have hlater : windowsOf ws (pushWorkspaces ticks (first && !hasWindows ws) rest) = [] := by
          apply windowsOf_foreign
          intro n hn hwin hmem
          obtain ⟨ws', hws', rfl | ⟨hn', -⟩⟩ := mem_pushWorkspaces hn
          · rw [htype n (List.mem_cons_of_mem ws hws')] at hwin
            simp at hwin
          · exact hx ws' hws' n hmem hn'
        rw [hlater, List.append_nil, windowsOf_pushedWins]
        cases hw : hasWindows ws with
        | true => simp
        | false => rw [pushedWins_of_not_hasWindows ticks hw, pushedWins_of_not_hasWindows ticks hw]
      · have hne : x ≠ ws := by
          rintro rfl
          exact hx x hws x (mem_preorder_self x) (mem_preorder_self x)
        have hearlier : windowsOf ws (pushedWins ticks (first && hasWindows x) x) = [] := by
          apply windowsOf_foreign
          intro n hn _
          exact hx ws hws n ((mem_pushedWins ticks).mp hn).1
        rw [hearlier, List.nil_append,
          ih _ (fun ws' hws' => htype ws' (List.mem_cons_of_mem x hws')) hrest hws]
        have hother : (some x == some ws) = false := beq_eq_false_iff_ne.mpr (by simpa using hne)
        cases hasWindows x with
        | false => simp
        | true => simp only [Bool.not_true, Bool.and_false, Bool.false_and, hother]

/-- Workspaces have no window in common. -/
theorem pairwise_disjoint_workspaces (hshape : SwayShaped t.root) :
    (t.sortedNodesOfType ticks .workspace).Pairwise fun a b =>
      ∀ n ∈ a.preorder, n ∉ b.preorder := by
  refine (List.nodup_iff_pairwise_ne.mp (t.nodup_sortedNodesOfType ticks .workspace)).imp_of_mem ?_
  intro a b ha hb hne n hna hnb
  obtain ⟨ha, hta⟩ := mem_sortedNodesOfType1.mp ha
  obtain ⟨hb, htb⟩ := mem_sortedNodesOfType1.mp hb
  apply hne
  apply t.eq_of_depthOf_eq ha hb hna hnb
  rw [(hshape.depthOf_workspace t ha).mp hta, (hshape.depthOf_workspace t hb).mp htb]

/-- What is left of `get_workspaces` without the current workspace, and of each
workspace's windows in `get_workspaces_and_windows` without the focused one, is
in order exactly if the rotations move these, or nothing distinguishes the
others. -/
theorem rotation_iff (hshape : SwayShaped t.root) :
    ((((t.getWorkspaces ticks).map DisplayNode.node).filter fun ws => !ws.isCurrent).Pairwise
        (UrgentThenRecent ticks) ↔
      RotatesOut ticks Node.isCurrent (t.sortedNodesOfType ticks .workspace)) ∧
    ((∀ ws ∈ t.root.preorder, ws.getType = .workspace →
      ((windowsOf ws ((t.getWorkspacesAndWindows ticks).map DisplayNode.node)).filter
        fun w => !w.focused).Pairwise (UrgentThenRecent ticks)) ↔
      ∀ ws, (t.sortedNodesOfType ticks .workspace).find? hasWindows = some ws →
        RotatesOut ticks Node.focused (sortedNodesOfType1 ticks ws .window)) := by
  constructor
  · rw [getWorkspaces, asDisplayNodes_node, workspaceNodes_eq]
    exact pairwise_rotate_iff ticks (pairwise_sorted ticks _) Node.isCurrent
  · have hwindows : ∀ ws ∈ t.sortedNodesOfType ticks .workspace,
        windowsOf ws ((t.getWorkspacesAndWindows ticks).map DisplayNode.node) =
          pushedWins ticks ((t.sortedNodesOfType ticks .workspace).find? hasWindows == some ws)
            ws := by
      intro ws hws
      rw [getWorkspacesAndWindows, asDisplayNodes_node]
      exact windowsOf_pushWorkspaces ticks true (fun ws' hws' => (mem_sortedNodesOfType1.mp hws').2)
        (pairwise_disjoint_workspaces t ticks hshape) hws
    -- Only the windows of the first workspace that has any are rotated.
    constructor
    · intro h ws hfind
      have hws := List.mem_of_find?_eq_some hfind
      obtain ⟨hmem, htype⟩ := mem_sortedNodesOfType1.mp hws
      have hlist := h ws hmem htype
      rw [hwindows ws hws, hfind, beq_self_eq_true, pushedWins, if_pos rfl] at hlist
      exact (pairwise_rotate_iff ticks (pairwise_sorted ticks _) Node.focused).mp hlist
    · intro h ws hmem htype
      rw [hwindows ws (mem_sortedNodesOfType1.mpr ⟨hmem, htype⟩), pushedWins]
      split
      · rename_i hfind
        exact (pairwise_rotate_iff ticks (pairwise_sorted ticks _) Node.focused).mpr
          (h ws (by simpa using hfind))
      · exact (pairwise_sorted ticks _).filter _

/-- The focused window is on workspace 921. Workspace 923 has two windows, and it
and the first of them may be urgent. -/
def threeWorkspaces (urgent : Bool) : Node :=
  .mk ⟨{ id := 920, nodeType := .root }, rfl⟩
    [.mk ⟨{ id := 925, nodeType := .output }, rfl⟩
      [.mk ⟨{ id := 921, nodeType := .workspace }, rfl⟩
        [.mk ⟨{ id := 922, nodeType := .con, pid := some 720, focused := true }, rfl⟩ [] []] [],
       .mk ⟨{ id := 923, nodeType := .workspace, urgent := urgent }, rfl⟩
        [.mk ⟨{ id := 926, nodeType := .con, pid := some 721, urgent := urgent }, rfl⟩ [] [],
         .mk ⟨{ id := 927, nodeType := .con, pid := some 722 }, rfl⟩ [] []] [],
       .mk ⟨{ id := 924, nodeType := .workspace }, rfl⟩ [] []] []] []

/-- The current workspace and its window were focused last. -/
def currentLatest : TickMap := fun i =>
  if i = 921 ∨ i = 922 then some 9 else if i = 924 ∨ i = 926 then some 3 else some 1

/-- While nothing is urgent, the current workspace is the one that is moved. -/
theorem rotation_iff_threeWorkspaces : ∃ h : DistinctIds (threeWorkspaces false),
    SwayShaped (threeWorkspaces false) ∧
    ((((getTree _ h).getWorkspaces currentLatest).map DisplayNode.node).filter
      fun ws => !ws.isCurrent).Pairwise (UrgentThenRecent currentLatest) := by
  have hdistinct : DistinctIds (threeWorkspaces false) := by decide
  have hshape : SwayShaped (threeWorkspaces false) :=
    ⟨by decide, by decide, by decide, by decide⟩
  refine ⟨hdistinct, hshape, ?_⟩
  rw [(rotation_iff (getTree _ hdistinct) currentLatest hshape).1]
  have hfirst : (sortedNodesOfType1 currentLatest (threeWorkspaces false) .workspace).head?.any
      Node.isCurrent = true := by decide +kernel
  cases hhead : (sortedNodesOfType1 currentLatest (threeWorkspaces false) .workspace).head? with
  | none => simp [hhead] at hfirst
  | some ws => exact .inl ⟨ws, hhead, by simpa [hhead] using hfirst⟩

/-- An urgent workspace is moved in place of the current one, and so is its
urgent window. -/
theorem rotation_urgent : ∃ h : DistinctIds (threeWorkspaces true),
    SwayShaped (threeWorkspaces true) ∧
    (∀ w ∈ (threeWorkspaces true).preorder, w.getType = .window → w.focused = false →
      currentLatest.lastFocusTick w.id < currentLatest.lastFocusTick 922) ∧
    (∀ ws ∈ (threeWorkspaces true).preorder, ws.getType = .workspace → ws.isCurrent = false →
      currentLatest.lastFocusTick ws.id < currentLatest.lastFocusTick 921) ∧
    ((getTree _ h).getWorkspaces currentLatest).map (fun d => d.node.id) = [921, 924, 923] ∧
    ¬ ((((getTree _ h).getWorkspaces currentLatest).map DisplayNode.node).filter
      fun ws => !ws.isCurrent).Pairwise (UrgentThenRecent currentLatest) ∧
    ((getTree _ h).getWorkspacesAndWindows currentLatest).map (fun d => d.node.id) =
      [923, 927, 926, 921, 922, 924] ∧
    ¬ ∀ ws ∈ (threeWorkspaces true).preorder, ws.getType = .workspace →
      ((windowsOf ws (((getTree _ h).getWorkspacesAndWindows currentLatest).map
        DisplayNode.node)).filter fun w => !w.focused).Pairwise
          (UrgentThenRecent currentLatest) := by
  refine ⟨by decide, ⟨by decide, by decide, by decide, by decide⟩, ?_⟩
  decide +kernel

end Swayr.Theorems.MenuOrder
