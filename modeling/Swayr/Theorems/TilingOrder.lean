import Swayr.Layout.Relayout

/-!
# Rearranging keeps the order of the windows

The iterator visits siblings from the last to the first and tiled nodes before
floating ones. The windows are moved away in that order and brought back in the
opposite one: first the floating windows, then the tiled ones, each from left to
right, at every depth of the tree (`reverse_windows`).
-/

namespace Swayr.Theorems.TilingOrder

open Ipc Swayr.Tree Kit Layout Cmds

/-! ## Leaves -/

mutual

/-- The leaves of the tiled part of a tree, from left to right. -/
def leaves : Node → List Node
  | .mk props nodes floatingNodes =>
      if nodes.isEmpty then [.mk props nodes floatingNodes] else leavesAll nodes

def leavesAll : List Node → List Node
  | [] => []
  | n :: ns => leaves n ++ leavesAll ns

end

theorem leavesAll_eq (ns : List Node) : leavesAll ns = ns.flatMap leaves := by
  induction ns with
  | nil => rfl
  | cons n ns ih => rw [leavesAll, ih, List.flatMap_cons]

/-- A node without children is a leaf. -/
theorem leaves_eq (n : Node) :
    leaves n = if n.nodes.isEmpty then [n] else n.nodes.flatMap leaves := by
  obtain ⟨props, nodes, floatingNodes⟩ := n
  rw [leaves, leavesAll_eq]
  rfl

def isWindow (n : Node) : Bool := n.getType == .window

/-- The tiled windows of a workspace, from left to right. -/
def tiledWindows (ws : Node) : List Node := (ws.nodes.flatMap leaves).filter isWindow

/-- Windows are leaves, and the floating nodes are the workspace's own. -/
structure Plain (ws : Node) : Prop where
  leaf : ∀ n ∈ ws.preorder, n.getType = .window → n.nodes = [] ∧ n.floatingNodes = []
  nested : ∀ c ∈ ws.children, ∀ n ∈ c.preorder, n.floatingNodes = []
  floating : ∀ n ∈ ws.floatingNodes, n.isFloating = true
  tiled : ∀ c ∈ ws.nodes, ∀ n ∈ c.preorder, n.isFloating = false

/-- The windows of some siblings, from left to right. -/
theorem reverse_siblings (ns : List Node) :
    ((ns.reverse.flatMap Node.preorder).filter isWindow).reverse =
      ns.flatMap fun n => (n.preorder.filter isWindow).reverse := by
  rw [List.filter_flatMap, List.reverse_flatMap, List.reverse_reverse]
  rfl

/-- The two reversals cancel at every depth. -/
theorem reverse_windows (n : Node)
    (hleaf : ∀ m ∈ n.preorder, m.getType = .window → m.nodes = [] ∧ m.floatingNodes = [])
    (hfloat : ∀ m ∈ n.preorder, m.floatingNodes = []) :
    (n.preorder.filter isWindow).reverse = (leaves n).filter isWindow := by
  induction n using Node.induct with
  | h n ih =>
      have hchildren : n.children = n.nodes.reverse := by
        rw [Node.children, hfloat n (mem_preorder_self n), List.reverse_nil, List.append_nil]
      rw [Node.preorder_eq, leaves_eq, hchildren]
      -- A window is a leaf; any other node is left out, and its children are walked backwards.
      by_cases hwin : n.getType = .window
      · rw [(hleaf n (mem_preorder_self n) hwin).1]
        simp [isWindow, hwin]
      · have hnot : isWindow n = false := by simpa [isWindow] using hwin
        rw [List.filter_cons_of_neg (by simp [hnot]), reverse_siblings]
        have hsub : ∀ c ∈ n.nodes, (c.preorder.filter isWindow).reverse =
            (leaves c).filter isWindow := by
          intro c hc
          have hmem : c ∈ n.children := by rw [hchildren]; simpa using hc
          exact ih c hmem (fun m hm => hleaf m (mem_preorder_of_mem_children hmem hm))
            fun m hm => hfloat m (mem_preorder_of_mem_children hmem hm)
        rw [List.flatMap_congr hsub]
        split
        · rename_i hempty
          rw [List.isEmpty_iff.mp hempty]
          simp [hnot]
        · rw [List.filter_flatMap]

/-! ## The windows that are moved -/

/-- Floating nodes count as windows. -/
theorem getType_of_isFloating {n : Node} (h : n.isFloating = true) : n.getType = .window := by
  have htype : n.props.nodeType = .floatingCon := by simpa [Node.isFloating] using h
  have hget : n.props.getType? = some .window := by rw [NodeInfo.getType?, htype]
  exact Option.get_of_eq_some _ hget

/-- The windows in the opposite order: the floating ones, then the tiled ones. -/
theorem Plain.reverse_windows {ws : Node} (h : Plain ws) (hws : ws.getType = .workspace) :
    (ws.nodesOfType .window).reverse = ws.floatingNodes ++ tiledWindows ws := by
  have hnot : isWindow ws = false := by simp [isWindow, hws]
  have hmem : ∀ c, c ∈ ws.nodes ∨ c ∈ ws.floatingNodes → c ∈ ws.children := by
    intro c hc
    rw [Node.children]
    simpa using hc
  -- Floating nodes are windows themselves; below the tiled ones it is the leaves.
  have hfloating : (ws.floatingNodes.flatMap fun n => (n.preorder.filter isWindow).reverse) =
      ws.floatingNodes.flatMap fun n => [n] := by
    refine List.flatMap_congr fun n hn => ?_
    have hwin := getType_of_isFloating (h.floating n hn)
    obtain ⟨hnodes, hfloat⟩ :=
      h.leaf n (mem_preorder_of_mem_children (hmem n (.inr hn)) (mem_preorder_self n)) hwin
    rw [Node.preorder_eq, Node.children, hnodes, hfloat]
    simp [isWindow, hwin]
  have htiled : (ws.nodes.flatMap fun n => (n.preorder.filter isWindow).reverse) =
      tiledWindows ws := by
    rw [tiledWindows, List.filter_flatMap]
    refine List.flatMap_congr fun n hn => ?_
    have hc := hmem n (.inl hn)
    exact TilingOrder.reverse_windows n
      (fun m hm => h.leaf m (mem_preorder_of_mem_children hc hm)) (h.nested n hc)
  rw [Node.nodesOfType_eq, Node.preorder_eq]
  show ((ws :: ws.children.flatMap Node.preorder).filter isWindow).reverse = _
  rw [List.filter_cons_of_neg (by simp [hnot]), Node.children, List.flatMap_append,
    List.filter_append, List.reverse_append, reverse_siblings, reverse_siblings, hfloating, htiled,
    List.flatMap_singleton']

theorem mem_preorder_of_mem_leaves {n m : Node} (h : m ∈ leaves n) : m ∈ n.preorder := by
  induction n using Node.induct with
  | h n ih =>
      rw [leaves_eq] at h
      split at h
      · rw [List.mem_singleton.mp h]
        exact mem_preorder_self n
      · obtain ⟨c, hc, hm⟩ := List.mem_flatMap.mp h
        have hchild : c ∈ n.children := by
          rw [Node.children]
          simp [hc]
        exact mem_preorder_of_mem_children hchild (ih c hchild hm)

theorem Plain.tiled_of_mem {ws : Node} (h : Plain ws) {n : Node} (hn : n ∈ tiledWindows ws) :
    n.isFloating = false := by
  obtain ⟨c, hc, hm⟩ := List.mem_flatMap.mp (List.mem_filter.mp hn).1
  exact h.tiled c hc n (mem_preorder_of_mem_leaves hm)

/-- First the floating windows, then the tiled ones. -/
theorem Plain.reverse_moved {ws : Node} (h : Plain ws) (hws : ws.getType = .workspace)
    (includeFloating : Bool) :
    (moved includeFloating (ws.nodesOfType .window)).reverse =
      (if includeFloating then ws.floatingNodes else []) ++ tiledWindows ws := by
  rw [moved, ← List.filter_reverse, h.reverse_windows hws, List.filter_append]
  congr 1
  · cases includeFloating with
    | true => simp
    | false => simpa using h.floating
  · rw [List.filter_eq_self]
    intro n hn
    simp [h.tiled_of_mem hn]

/-! ## The commands -/

section script

variable {σ : Type} (P : Peer σ Command SwayError)

/-- What is sent to bring a window back. -/
def backScript (win : Node) : List Command :=
  (if win.isFloating then [.floatingDisable win.id] else []) ++
    [.moveToWorkspace win.id "current"]

/-- What is sent to move a window away. -/
def awayScript (includeFloating : Bool) (win : Node) : List Command :=
  if includeFloating || !win.isFloating then [.moveToWorkspace win.id swayrTmpWorkspace] else []

theorem follows_bringBack (win : Node) : Follows (bringBack P win) (backScript win) () := by
  unfold bringBack backScript
  split
  · exact (Follows.send P _).bind (.send P _)
  · exact .send P _

/-- Without a shuffle the script is known. -/
theorem follows_tileWins (rng : Rng Node) (wins : List Node) :
    Follows (tileWins P rng false wins)
      (.focusParent :: .layout .splith :: wins.reverse.flatMap backScript) () := by
  refine (Follows.send P .focusParent).bind ((Follows.send P (.layout .splith)).bind ?_)
  refine .for_pure (k := fun win placed => placed ++ [win]) ?_ _ ()
  intro win _ placed
  exact (follows_bringBack P win).bind_pure _

theorem follows_tabWins (wins : List Node) :
    Follows (tabWins P wins)
      (.focusParent :: .layout .tabbed :: wins.reverse.flatMap backScript) () := by
  refine (Follows.send P .focusParent).bind ((Follows.send P (.layout .tabbed)).bind ?_)
  refine .for_pure (k := fun _ b => b) ?_ _ ()
  intro win _ b
  exact (follows_bringBack P win).bind_pure _

/-- What one turn of the loop over the windows makes of its variables. -/
def take (includeFloating : Bool) (win : Node) (b : List Node × Option Node) :
    List Node × Option Node :=
  (if includeFloating || !win.isFloating then b.1 ++ [win] else b.1,
    if win.focused then some win else b.2)

theorem foldl_take (includeFloating : Bool) (wins : List Node) (b : List Node × Option Node) :
    (wins.foldl (fun b win => take includeFloating win b) b).1 =
      b.1 ++ moved includeFloating wins := by
  induction wins generalizing b with
  | nil => simp [moved]
  | cons win wins ih =>
      rw [List.foldl_cons, ih, moved, moved, List.filter_cons, take]
      split <;> simp

/-- The windows are moved away in the iterator's order; the call ends with the
function that brings them back, and the focus. -/
theorem follows_relayout {tree ws : Node}
    (hws : currentWorkspace? (getRootNode false tree) = some ws) (includeFloating : Bool)
    {insertWinFn : List Node → SwayM σ Unit} {cs : List Command}
    (hinsert : Follows
      (insertWinFn (moved includeFloating (ws.nodesOfType .window))) cs ()) :
    ∃ focus : List Int,
      Follows (relayoutCurrentWorkspace P true tree includeFloating insertWinFn)
        ((ws.nodesOfType .window).flatMap (awayScript includeFloating) ++
          (cs ++ focus.map .focus)) () := by
  have hloop := foldl_take includeFloating (ws.nodesOfType .window) ([], none)
  generalize hb : (ws.nodesOfType .window).foldl (fun b win => take includeFloating win b)
    ([], none) = b at hloop
  rw [List.nil_append] at hloop
  refine ⟨(b.2.map Node.id).toList, ?_⟩
  unfold relayoutCurrentWorkspace
  simp only [hws, if_true]
  refine (Follows.forIn (g := awayScript includeFloating) (k := take includeFloating) ?_ _).bind ?_
  · intro win _ b
    have hmove : ∀ f : Option Node, Follows
        (do P.send (.moveToWorkspace win.id swayrTmpWorkspace)
            pure (ForInStep.yield (b.1 ++ [win], f)))
        [.moveToWorkspace win.id swayrTmpWorkspace] (.yield (b.1 ++ [win], f)) :=
      fun f => (Follows.send P _).bind (.pure _)
    -- The code asks when to skip a window, `moved` when to take it.
    have hskip : (!includeFloating && win.isFloating) = !(includeFloating || !win.isFloating) := by
      rw [Bool.not_or, Bool.not_not]
    unfold awayScript take
    rw [hskip]
    cases includeFloating || !win.isFloating with
    | true =>
        simp only [Bool.not_true, Bool.false_eq_true, if_false, if_true]
        split <;> exact hmove _
    | false =>
        simp only [Bool.not_false, Bool.false_eq_true, if_false, if_true]
        split <;> exact .pure _
  · rw [hb]
    rw [← hloop] at hinsert
    refine hinsert.bind ?_
    cases b.2 with
    | none => exact .pure ()
    | some win => exact .send P _

/-! ## Which windows are brought back -/

/-- The window a command moves to the current workspace. -/
def insertion? : Command → Option Int
  | .moveToWorkspace id name => if name = "current" then some id else none
  | _ => none

def insertions (cs : List Command) : List Int := cs.filterMap insertion?

theorem insertions_append (cs cs' : List Command) :
    insertions (cs ++ cs') = insertions cs ++ insertions cs' := List.filterMap_append

/-- Each window is inserted once. -/
theorem insertions_back (wins : List Node) :
    insertions (wins.flatMap backScript) = wins.map Node.id := by
  induction wins with
  | nil => rfl
  | cons win wins ih =>
      have hwin : insertions (backScript win) = [win.id] := by
        unfold backScript
        split <;> rfl
      rw [List.flatMap_cons, insertions_append, hwin, ih]
      rfl

/-- Moving away inserts nothing. -/
theorem insertions_away (includeFloating : Bool) (wins : List Node) :
    insertions (wins.flatMap (awayScript includeFloating)) = [] := by
  unfold insertions
  rw [List.filterMap_eq_nil_iff]
  intro c hc
  obtain ⟨win, -, hc⟩ := List.mem_flatMap.mp hc
  unfold awayScript at hc
  split at hc
  · rw [List.mem_singleton.mp hc]
    rfl
  · simp at hc

/-- The windows `ids` are brought back in this order, all of them if the command
succeeds and the first ones if it fails. -/
def InOrder (ids : List Int) (run : Option SwayError × Session σ Command) : Prop :=
  insertions run.2.sent <+: ids ∧ (run.1 = none → insertions run.2.sent = ids)

theorem inOrder_of_follows {run : SwayM σ Unit} {cs : List Command} (h : Follows run cs ())
    (x : σ) : InOrder (insertions cs) (logError run ⟨x, []⟩) := by
  rcases h ⟨x, []⟩ with ⟨t, ht, hsent⟩ | ⟨e, t, sent, ht, hsent, hpre⟩
  · rw [logError_of_ok ht]
    rw [List.nil_append] at hsent
    exact ⟨by rw [hsent], fun _ => by rw [hsent]⟩
  · rw [logError_of_error ht]
    rw [List.nil_append] at hsent
    refine ⟨?_, fun h => absurd h (by simp)⟩
    rw [hsent]
    exact hpre.filterMap insertion?

/-- A script that brings the windows back in their order, with or without an error on
the way. -/
theorem inOrder_relayout {tree ws : Node}
    (hws : currentWorkspace? (getRootNode false tree) = some ws) (includeFloating : Bool)
    {insertWinFn : List Node → SwayM σ Unit} {mode : LayoutMode}
    (hinsert : ∀ wins, Follows (insertWinFn wins)
      (.focusParent :: .layout mode :: wins.reverse.flatMap backScript) ())
    (connects : Bool) (x : σ) :
    InOrder ((moved includeFloating (ws.nodesOfType .window)).reverse.map Node.id)
      (logError (relayoutCurrentWorkspace P connects tree includeFloating insertWinFn)
        ⟨x, []⟩) := by
  cases connects with
  | false =>
      have hrun : relayoutCurrentWorkspace P false tree includeFloating insertWinFn ⟨x, []⟩ =
          (.error (.commandFailed "Cannot create connection."), ⟨x, []⟩) := by
        unfold relayoutCurrentWorkspace
        simp only [hws]
        rfl
      rw [logError_of_error hrun]
      exact ⟨List.nil_prefix, fun h => absurd h (by simp)⟩
  | true =>
      obtain ⟨focus, hrun⟩ := follows_relayout P hws includeFloating (hinsert _)
      have hscript := inOrder_of_follows hrun x
      -- Of the three parts of the script only the middle one inserts windows.
      have hfocus : insertions (focus.map .focus) = [] := by
        rw [insertions, List.filterMap_map, List.filterMap_eq_nil_iff]
        exact fun _ _ => rfl
      have hinsertions : insertions (.focusParent :: .layout mode ::
          (moved includeFloating (ws.nodesOfType .window)).reverse.flatMap backScript) =
            (moved includeFloating (ws.nodesOfType .window)).reverse.map Node.id :=
        insertions_back _
      rwa [insertions_append, insertions_append, insertions_away, hfocus, hinsertions,
        List.append_nil, List.nil_append] at hscript

end script

/-- **Rearranging keeps the order.** On a workspace whose windows are leaves and whose
floating nodes are its own, tiling without shuffling and tabbing bring the tiled
windows back from left to right, behind the floating ones if these are included. -/
theorem rearranging_keeps_order (tree ws : Node)
    (hws : currentWorkspace? (getRootNode false tree) = some ws) (hplain : Plain ws) {σ : Type}
    (P : Peer σ Command SwayError) (rng : Rng Node) (connects : Bool) (x : σ)
    (floating : ConsiderFloating) :
    InOrder (((if floating = .includeFloating then ws.floatingNodes else []) ++
        tiledWindows ws).map Node.id)
      (tileCurrentWorkspace P rng connects tree floating false ⟨x, []⟩) ∧
    InOrder (((if floating = .includeFloating then ws.floatingNodes else []) ++
        tiledWindows ws).map Node.id)
      (tabCurrentWorkspace P connects tree floating ⟨x, []⟩) := by
  have htype : ws.getType = .workspace :=
    (Node.mem_nodesOfType.mp (List.mem_of_find?_eq_some hws)).2
  have horder := hplain.reverse_moved htype (floating == .includeFloating)
  simp only [beq_iff_eq] at horder
  rw [← horder]
  exact ⟨inOrder_relayout P hws _ (follows_tileWins P rng) connects x,
    inOrder_relayout P hws _ (follows_tabWins P) connects x⟩

/-- A container with two windows and a window beside it, and two floating windows. -/
def nestedWorkspace : Node :=
  .mk ⟨{ id := 972, nodeType := .workspace }, rfl⟩
    [.mk ⟨{ id := 973, nodeType := .con, layout := .splitV }, rfl⟩
      [.mk ⟨{ id := 974, nodeType := .con, pid := some 770 }, rfl⟩ [] [],
       .mk ⟨{ id := 975, nodeType := .con, pid := some 771, focused := true }, rfl⟩ [] []] [],
     .mk ⟨{ id := 976, nodeType := .con, pid := some 772 }, rfl⟩ [] []]
    [.mk ⟨{ id := 977, nodeType := .floatingCon, pid := some 773 }, rfl⟩ [] [],
     .mk ⟨{ id := 978, nodeType := .floatingCon, pid := some 774 }, rfl⟩ [] []]

def nestedTree : Node :=
  .mk ⟨{ id := 970, nodeType := .root }, rfl⟩
    [.mk ⟨{ id := 971, nodeType := .output }, rfl⟩ [nestedWorkspace] []] []

/-- Containers within containers. -/
theorem rearranging_keeps_order_nested : Plain nestedWorkspace ∧
    insertions (tabCurrentWorkspace ⟨fun _ _ => (.ok (), ())⟩ true nestedTree .includeFloating
      ⟨(), []⟩).2.sent = [977, 978, 974, 975, 976] := by
  have hws : currentWorkspace? (getRootNode false nestedTree) = some nestedWorkspace := by
    decide +kernel
  have hplain : Plain nestedWorkspace := ⟨by decide, by decide, by decide, by decide⟩
  refine ⟨hplain, ?_⟩
  exact (rearranging_keeps_order nestedTree nestedWorkspace hws hplain _ Rng.lastFirst true ()
    .includeFloating).2.2 (by decide +kernel)

end Swayr.Theorems.TilingOrder
