import Swayr.Cmds.Direction
import Swayr.Tree.Refocus

/-!
# Next and previous window

With the tree, the ticks and the urgency flags fixed and only the focus moving,
the next/prev commands walk a fixed cyclic order of the matching windows. The
window list is rebuilt and sorted by every call, so the point is that the calls
agree: which windows match, and in which order they stand, does not depend on
which of them is focused.
-/

namespace Swayr.Theorems.Cycling

open Ipc Ipc.Node Swayr.Tree Focus Cmds

/-! ## The current workspace -/

section workspace

variable {root : Node} (h : DistinctIds root)

include h

theorem any_id_iff {v n : Node} (hv : v ∈ root.preorder) (hn : n ∈ root.preorder) :
    v.preorder.any (·.id == n.id) = true ↔ n ∈ v.preorder := by
  constructor
  · intro hany
    obtain ⟨m, hm, hid⟩ := List.any_eq_true.mp hany
    rwa [← h.node_eq (mem_preorder_trans hv hm) hn (beq_iff_eq.mp hid)]
  · exact fun hmem => List.any_eq_true.mpr ⟨n, hmem, beq_self_eq_true _⟩

/-- Two nodes with the same nearest workspace lie in the same workspaces. -/
theorem mem_workspace_of_nearest {n m ws v : Node} {ns ms : List Node}
    (hn : Lineage root (n :: ns)) (hm : Lineage root (m :: ms))
    (hnws : (n :: ns).find? (fun a => a.getType == .workspace) = some ws)
    (hmws : (m :: ms).find? (fun a => a.getType == .workspace) = some ws)
    (hv : v ∈ root.preorder) (hk : v.getType = .workspace) (hmem : n ∈ v.preorder) :
    m ∈ v.preorder := by
  have hwsv : ws ∈ v.preorder := (getTree root h).nearest_mem hn hnws hv hk hmem
  exact mem_preorder_trans hwsv (hm.head_mem m ms rfl ws (List.mem_of_find?_eq_some hmws))

/-- Moving the focus between two windows of the current workspace does not
change the current workspace. -/
theorem current_workspace_eq {n m ws : Node} {ns ms : List Node}
    (hn : Lineage root (n :: ns)) (hm : Lineage root (m :: ms))
    (hnws : (n :: ns).find? (fun a => a.getType == .workspace) = some ws)
    (hmws : (m :: ms).find? (fun a => a.getType == .workspace) = some ws) :
    (root.preorder.find? fun v => v.getType == .workspace && v.preorder.any (·.id == n.id)) =
      root.preorder.find? fun v => v.getType == .workspace && v.preorder.any (·.id == m.id) := by
  rw [← List.head?_filter, ← List.head?_filter]
  refine congrArg _ (List.filter_congr fun v hv => ?_)
  rw [Bool.eq_iff_iff, Bool.and_eq_true, Bool.and_eq_true, beq_iff_eq,
    any_id_iff h hv hn.mem, any_id_iff h hv hm.mem]
  refine and_congr_right fun hk => ⟨?_, ?_⟩
  · exact mem_workspace_of_nearest h hn hm hnws hmws hv hk
  · exact mem_workspace_of_nearest h hm hn hmws hnws hv hk

end workspace

/-! ## The matching windows -/

section matching

variable {root : Node} (h : DistinctIds root) {f g : Int}

/-- If a window is considered, its nearest workspace is the current one. -/
theorem nearest_of_considered {n : Node} {ns : List Node} (hl : Lineage root (n :: ns))
    (hn : n ∈ root.preorder)
    (hc : considered (focusTree f h) .currentWorkspace (focusView f h n hn) = true) :
    ∃ ws, (root.preorder.find? fun v =>
        v.getType == .workspace && v.preorder.any (·.id == f)) = some ws ∧
      (n :: ns).find? (fun a => a.getType == .workspace) = some ws := by
  rw [considered, getCurrentWorkspace_focusTree] at hc
  cases hcur : root.preorder.find? fun v =>
      v.getType == .workspace && v.preorder.any (·.id == f) with
  | none => simp [hcur] at hc
  | some cur =>
      refine ⟨cur, rfl, ?_⟩
      simp only [hcur, onWorkspace, getParentNodeOfType_focusView f h _ hl hn] at hc
      cases hws : (n :: ns).find? fun a => a.getType == .workspace with
      | none => simp [hws] at hc
      | some ws =>
          have hid : ws.id = cur.id := by simpa [hws] using hc
          rw [h.node_eq (hl.mem_all ws (List.mem_of_find?_eq_some hws))
            (List.mem_of_find?_eq_some hcur) hid]

/-- Which windows are considered does not depend on which of them is focused. -/
theorem considered_focusView {c : ConsiderWindows} {nf ng : Node}
    (hnf : nf ∈ root.preorder) (hng : ng ∈ root.preorder)
    (hf : considered (focusTree nf.id h) c (focusView nf.id h nf hnf) = true)
    (hg : considered (focusTree nf.id h) c (focusView nf.id h ng hng) = true)
    {n : Node} (hn : n ∈ root.preorder) :
    considered (focusTree ng.id h) c (focusView ng.id h n hn) =
      considered (focusTree nf.id h) c (focusView nf.id h n hn) := by
  cases c with
  | allWorkspaces => rfl
  | currentWorkspace =>
      obtain ⟨fs, hlf⟩ := exists_lineage hnf
      obtain ⟨gs, hlg⟩ := exists_lineage hng
      obtain ⟨ns, hl⟩ := exists_lineage hn
      obtain ⟨cur, hcur, hfcur⟩ := nearest_of_considered h hlf hnf hf
      obtain ⟨cur', hcur', hgcur⟩ := nearest_of_considered h hlg hng hg
      -- Both windows are on the current workspace, so it stays the same when the focus moves.
      obtain rfl : cur = cur' := Option.some.inj (hcur.symm.trans hcur')
      have hsame := current_workspace_eq h hlg hlf hgcur hfcur
      simp only [considered, getCurrentWorkspace_focusTree, hsame, hcur, onWorkspace,
        getParentNodeOfType_focusView _ h _ hl hn, id_refocus, Option.map_map]
      congr 2
      funext a
      simp

variable {ticks : TickMap} {c : ConsiderWindows} {pred : DisplayNode → Bool}

/-- A window takes part if it matches, seen with the focus on `f`. -/
theorem mem_matchingIds_focusTree {i : Int} :
    i ∈ matchingIds (focusTree f h) ticks c pred ↔
      ∃ (n : Node) (hn : n ∈ root.preorder), n.getType = .window ∧ n.id = i ∧
        pred (focusView f h n hn) = true ∧
        considered (focusTree f h) c (focusView f h n hn) = true := by
  simp only [matchingIds, matchingWindows, getWindows_focusTree, List.mem_map, List.mem_filter,
    List.mem_pmap, Bool.and_eq_true]
  constructor
  · rintro ⟨_, ⟨⟨n, hn, rfl⟩, hkeep⟩, rfl⟩
    exact ⟨n, (mem_windowNodes.mp hn).1, (mem_windowNodes.mp hn).2, (id_refocus f n).symm, hkeep⟩
  · rintro ⟨n, hn, hk, rfl, hkeep⟩
    exact ⟨focusView f h n hn, ⟨⟨n, mem_windowNodes.mpr ⟨hn, hk⟩, rfl⟩, hkeep⟩, id_refocus f n⟩

/-- The windows that match, and their order in the window list, do not depend
on which of them is focused. -/
theorem matchingIds_focusTree (hf : f ∈ matchingIds (focusTree f h) ticks c pred)
    (hg : g ∈ matchingIds (focusTree f h) ticks c pred)
    (hpred : ∀ (n : Node) (hn : n ∈ root.preorder), n.getType = .window →
      pred (focusView g h n hn) = pred (focusView f h n hn)) :
    matchingIds (focusTree g h) ticks c pred = matchingIds (focusTree f h) ticks c pred := by
  obtain ⟨nf, hnf, -, rfl, -, hfc⟩ := (mem_matchingIds_focusTree h).mp hf
  obtain ⟨ng, hng, -, rfl, -, hgc⟩ := (mem_matchingIds_focusTree h).mp hg
  simp only [matchingIds, matchingWindows, getWindows_focusTree, List.pmap_eq_map_attach,
    List.filter_map, List.map_map]
  have hkeep : ∀ x ∈ (windowNodes ticks root).attach,
      (pred (focusView ng.id h x.1 (mem_windowNodes.mp x.2).1) &&
        considered (focusTree ng.id h) c (focusView ng.id h x.1 (mem_windowNodes.mp x.2).1)) =
      (pred (focusView nf.id h x.1 (mem_windowNodes.mp x.2).1) &&
        considered (focusTree nf.id h) c (focusView nf.id h x.1 (mem_windowNodes.mp x.2).1)) := by
    intro x _
    rw [hpred x.1 _ (mem_windowNodes.mp x.2).2, considered_focusView h hnf hng hfc hgc]
  refine Eq.trans (congrArg _ (List.filter_congr hkeep)) (List.map_congr_left fun x _ => ?_)
  exact (id_refocus _ x.1).trans (id_refocus _ x.1).symm

end matching

/-! ## Following the focus -/

/-- The id of the focused window after `k` commands, each of which sees the
focus where the one before it put it. -/
def focusAfter (fuel : Nat) (dir : Direction) (c : ConsiderWindows) (ticks : TickMap)
    (pred : DisplayNode → Bool) (swayRoot : Node) (h : DistinctIds swayRoot) :
    Nat → Int → Except Panic Int
  | 0, g => .ok g
  | k + 1, g =>
      match focusWindowInDirection fuel dir c ticks pred (swayRoot.refocus g) (h.refocus g) with
      | .error e => .error e
      | .ok none => focusAfter fuel dir c ticks pred swayRoot h k g
      | .ok (some g') => focusAfter fuel dir c ticks pred swayRoot h k g'

/-- By induction on the number of commands. -/
theorem focusAfter_eq {fuel : Nat} {dir : Direction} {c : ConsiderWindows} {ticks : TickMap}
    {pred : DisplayNode → Bool} {swayRoot : Node} {h : DistinctIds swayRoot}
    {σ : Equiv.Perm Int} {s : Set Int} (hs : ∀ g ∈ s, σ g ∈ s)
    (hstep : ∀ g ∈ s, focusWindowInDirection fuel dir c ticks pred (swayRoot.refocus g)
      (h.refocus g) = .ok (some (σ g))) (k : Nat) {g : Int} (hg : g ∈ s) :
    focusAfter fuel dir c ticks pred swayRoot h k g = .ok ((σ ^ k) g) := by
  induction k generalizing g with
  | zero => rfl
  | succ k ih =>
      rw [focusAfter, hstep g hg, pow_succ, Equiv.Perm.mul_apply]
      exact ih (hs g hg)

theorem focused_of_mem_getWindows {root : Node} (h : DistinctIds root) {g : Int}
    {ticks : TickMap} {w : DisplayNode} (hw : w ∈ (focusTree g h).getWindows ticks) :
    w.node.focused = true ↔ w.node.id = g := by
  rw [getWindows_focusTree] at hw
  obtain ⟨n, hn, rfl⟩ := List.mem_pmap.mp hw
  simp [focusView]

/-- Whether every window lies under a workspace does not depend on the focus. -/
theorem workspace_of_mem_getWindows {root : Node} (h : DistinctIds root) {f : Int}
    {ticks : TickMap}
    (hws : ∀ w ∈ (focusTree f h).getWindows ticks, (w.getParentNodeOfType .workspace).isSome)
    {g : Int} {w : DisplayNode} (hw : w ∈ (focusTree g h).getWindows ticks) :
    (w.getParentNodeOfType .workspace).isSome := by
  rw [getWindows_focusTree] at hw hws
  obtain ⟨n, hn, rfl⟩ := List.mem_pmap.mp hw
  have hmem : n ∈ root.preorder := (mem_windowNodes.mp hn).1
  obtain ⟨ns, hl⟩ := exists_lineage hmem
  have hsome := hws (focusView f h n hmem) (List.mem_pmap.mpr ⟨n, hn, rfl⟩)
  rw [getParentNodeOfType_focusView f h _ hl hmem, Option.isSome_map] at hsome
  rwa [getParentNodeOfType_focusView g h _ hl hmem, Option.isSome_map]

theorem readTree_refocus (swayRoot : Node) (h : DistinctIds swayRoot) (g : Int) :
    readTree (swayRoot.refocus g) (h.refocus g) = focusTree g (h.getRootNode false) :=
  Tree.ext_root (getRootNode_refocus g swayRoot false)

/-- One command after the focus has moved to a matching window `g`: which windows
match is as it was, and the command focuses the neighbour of `g` among them. -/
theorem focusWindowInDirection_refocus {swayRoot : Node} {h : DistinctIds swayRoot} {f g : Int}
    {ticks : TickMap} {c : ConsiderWindows} {pred : DisplayNode → Bool}
    (htree : readTree swayRoot h = focusTree f (h.getRootNode false))
    (hws : ∀ w ∈ (readTree swayRoot h).getWindows ticks,
      (w.getParentNodeOfType .workspace).isSome)
    (hpred : ∀ (n : Node) (hn : n ∈ (getRootNode false swayRoot).preorder),
      n.getType = .window → pred (focusView g (h.getRootNode false) n hn) =
        pred (focusView f (h.getRootNode false) n hn))
    (hf : f ∈ matchingIds (readTree swayRoot h) ticks c pred)
    (hg : g ∈ matchingIds (readTree swayRoot h) ticks c pred) (dir : Direction) {fuel : Nat}
    (hfuel : (windowNodes ticks (getRootNode false swayRoot)).length ≤ fuel) :
    focusWindowInDirection fuel dir c ticks pred (swayRoot.refocus g) (h.refocus g) =
      .ok (some (cyclicOrder ticks dir (matchingIds (readTree swayRoot h) ticks c pred) g)) := by
  have hread := readTree_refocus swayRoot h g
  have hids : matchingIds (readTree (swayRoot.refocus g) (h.refocus g)) ticks c pred =
      matchingIds (readTree swayRoot h) ticks c pred := by
    simp only [hread, htree] at hf hg ⊢
    exact matchingIds_focusTree _ hf hg hpred
  -- With the focus on `g` the search reads the same tree and so considers the same windows.
  rw [htree] at hws
  rw [focusWindowInDirection_eq ?_ (hids ▸ hg) ?_ dir ?_, hids]
  all_goals rw [hread]
  · exact fun w hw => workspace_of_mem_getWindows _ hws hw
  · exact fun w hw => focused_of_mem_getWindows _ hw
  · simpa [getWindows_focusTree] using hfuel

/-- **Next and previous are one cycle.** While only the focus moves, between
windows matching a predicate that does not see which of them has it, Forward
follows one cycle `σ` through all matching windows and Backward follows it the
other way; no search runs forever, and following the focus for as many steps as
there are matching windows visits each of them once and ends where it began. -/
theorem next_prev_single_cycle (swayRoot : Node) (h : DistinctIds swayRoot) (f : Int)
    (hone : ∀ n ∈ swayRoot.preorder, n.focused = true ↔ n.id = f)
    (ticks : TickMap) (c : ConsiderWindows) (pred : DisplayNode → Bool)
    (hws : ∀ w ∈ (readTree swayRoot h).getWindows ticks,
      (w.getParentNodeOfType .workspace).isSome)
    (hpred : ∀ g ∈ matchingIds (readTree swayRoot h) ticks c pred,
      ∀ (n : Node) (hn : n ∈ (getRootNode false swayRoot).preorder), n.getType = .window →
        pred (focusView g (h.getRootNode false) n hn) =
          pred (focusView f (h.getRootNode false) n hn))
    (hf : f ∈ matchingIds (readTree swayRoot h) ticks c pred) :
    let ids := matchingIds (readTree swayRoot h) ticks c pred
    ∃ σ : Equiv.Perm Int, σ.IsCycleOn { i | i ∈ ids } ∧
      ∃ N, ∀ fuel ≥ N, ∀ g ∈ ids,
        focusWindowInDirection fuel .forward c ticks pred (swayRoot.refocus g) (h.refocus g) =
          .ok (some (σ g)) ∧
        focusWindowInDirection fuel .backward c ticks pred (swayRoot.refocus g) (h.refocus g) =
          .ok (some (σ⁻¹ g)) ∧
        ((List.range ids.length).map fun k =>
          focusAfter fuel .forward c ticks pred swayRoot h k g).Perm (ids.map .ok) ∧
        focusAfter fuel .forward c ticks pred swayRoot h ids.length g = .ok g := by
  intro ids
  have htree : readTree swayRoot h = focusTree f (h.getRootNode false) := by
    rw [← readTree_refocus swayRoot h]
    exact Tree.ext_root (congrArg (getRootNode false) (refocus_eq_self f swayRoot hone).symm)
  have hnodup : ids.Nodup := matchingIds_nodup _ _ _ _
  have hcycle := fun dir => cyclicOrder_isCycleOn ticks dir hnodup
  have hstep : ∀ fuel ≥ (windowNodes ticks (getRootNode false swayRoot)).length, ∀ dir,
      ∀ g ∈ ids, focusWindowInDirection fuel dir c ticks pred (swayRoot.refocus g)
        (h.refocus g) = .ok (some (cyclicOrder ticks dir ids g)) := fun fuel hfuel dir g hg =>
    focusWindowInDirection_refocus htree hws (hpred g hg) hf hg dir hfuel
  refine ⟨cyclicOrder ticks .forward ids, hcycle .forward, _, fun fuel hfuel g hg =>
    ⟨hstep fuel hfuel .forward g hg, ?_, ?_, ?_⟩⟩
  · rw [hstep fuel hfuel .backward g hg]
    simp [cyclicOrder]
  -- Repeated commands run along the orbit of `g`, which is all of the cycle.
  all_goals
    have hafter := fun k => focusAfter_eq (h := h) (s := { i | i ∈ ids })
      (fun g hg => (hcycle .forward).1.mapsTo hg) (hstep fuel hfuel .forward) k hg
    obtain ⟨hvisit, hreturn⟩ := Kit.cycle_orbit hnodup (hcycle .forward) hg
    simp only [hafter]
  · have hmap := hvisit.map (@Except.ok Panic Int)
    rwa [List.map_map] at hmap
  · rw [hreturn]

/-! ## An instance -/

def window (id : Int) (focused : Bool) : Node :=
  .mk ⟨{ id, nodeType := .con, pid := some 100, focused }, rfl⟩ [] []

/-- Two workspaces; the current one has three windows, the second of them
focused. -/
def twoWorkspaces : Node :=
  .mk ⟨{ id := 10, nodeType := .root }, rfl⟩
    [.mk ⟨{ id := 20, nodeType := .output }, rfl⟩
      [.mk ⟨{ id := 30, nodeType := .workspace }, rfl⟩
          [window 5 false, window 6 true, window 7 false] [],
        .mk ⟨{ id := 40, nodeType := .workspace }, rfl⟩ [window 8 false] []] []]
    []

theorem twoWorkspaces_distinct : DistinctIds twoWorkspaces := by decide

/-- Three windows of the current workspace, around in one cycle. -/
theorem next_prev_single_cycle_two_workspaces :
    matchingIds (readTree twoWorkspaces twoWorkspaces_distinct) TickMap.empty .currentWorkspace
        (fun _ => true) = [7, 6, 5] ∧
      ∃ σ : Equiv.Perm Int, ∃ N, ∀ fuel ≥ N, ∀ g ∈ [7, 6, 5],
        focusWindowInDirection fuel .forward .currentWorkspace TickMap.empty (fun _ => true)
          (twoWorkspaces.refocus g) (twoWorkspaces_distinct.refocus g) = .ok (some (σ g)) := by
  have hids : matchingIds (readTree twoWorkspaces twoWorkspaces_distinct) TickMap.empty
      .currentWorkspace (fun _ => true) = [7, 6, 5] := by decide +kernel
  obtain ⟨σ, -, N, hN⟩ := next_prev_single_cycle twoWorkspaces twoWorkspaces_distinct 6
    (by decide) TickMap.empty .currentWorkspace (fun _ => true) (by decide +kernel)
    (fun _ _ _ _ _ => rfl) (by decide +kernel)
  rw [hids] at hN
  exact ⟨hids, σ, N, fun fuel hfuel g hg => (hN fuel hfuel g hg).1⟩

end Swayr.Theorems.Cycling
