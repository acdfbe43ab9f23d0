import Swayr.Layout.Relayout

/-!
# Rearranging without the floating windows

With `ExcludeFloating` a window is left out if it is itself a `floating_con`. The
windows inside a floating container are ordinary ones, and are taken out of it.
-/

namespace Swayr.Theorems.ExcludeFloating

open Ipc Swayr.Tree Kit Layout Cmds

/-- The command moves the node `i` or makes it a tiled one. -/
def Touches (i : Int) : Command → Prop
  | .moveToWorkspace j _ | .floatingDisable j => j = i
  | _ => False

/-- The command touches no node other than the windows `wins` that are not
`floating_con`s. -/
def TouchesOnly (wins : List Node) (c : Command) : Prop :=
  ∀ i, Touches i c → ∃ w ∈ wins, w.isFloating = false ∧ w.id = i

/-- The windows of `ws` that are moved with `ExcludeFloating`. -/
def Movable (ws w : Node) : Prop := w ∈ ws.nodesOfType .window ∧ w.isFloating = false

/-- What is sent for such a window touches that window. -/
theorem Movable.touchesOnly {ws w : Node} (h : Movable ws w) :
    (∀ name, TouchesOnly (ws.nodesOfType .window) (.moveToWorkspace w.id name)) ∧
      TouchesOnly (ws.nodesOfType .window) (.floatingDisable w.id) := by
  have htouch : ∀ i, w.id = i → ∃ v ∈ ws.nodesOfType .window, v.isFloating = false ∧ v.id = i :=
    fun i hi => ⟨w, h.1, h.2, hi⟩
  exact ⟨fun _ => htouch, htouch⟩

variable {σ : Type} (P : Peer σ Command SwayError)

/-! ## The commands of a rearrangement -/

section bounds

variable {Q : Command → Prop} (hfocus : ∀ i, Q (.focus i)) (hparent : Q .focusParent)
  (hlayout : ∀ mode, Q (.layout mode)) {wins : List Node}
  (hwins : ∀ w ∈ wins, (∀ name, Q (.moveToWorkspace w.id name)) ∧ Q (.floatingDisable w.id))

include hwins in
theorem bringBack_sendsOnly {win : Node} (hwin : win ∈ wins) :
    SendsOnly Q (fun _ => True) (bringBack P win) := by
  obtain ⟨hmove, hdisable⟩ := hwins win hwin
  unfold bringBack
  split
  · exact (SendsOnly.send P hdisable).bind fun _ _ => .send P (hmove _)
  · exact .send P (hmove _)

include hfocus hparent hlayout hwins

/-- A shuffle changes the order, not the windows. -/
theorem tileWins_sendsOnly (rng : Rng Node) (shuffle : Bool) :
    SendsOnly Q (fun _ => True) (tileWins P rng shuffle wins) := by
  have hmem : ∀ w ∈ (if shuffle then rng.shuffle wins else wins.reverse), w ∈ wins := by
    intro w hw
    split at hw
    · exact (rng.shuffle_perm wins).mem_iff.mp hw
    · exact List.mem_reverse.mp hw
  unfold tileWins
  refine (SendsOnly.send P hparent).bind fun _ _ => ?_
  refine (SendsOnly.send P (hlayout _)).bind fun _ _ => ?_
  refine (SendsOnly.forIn (J := fun _ => True) trivial ?_).bind fun _ _ => .pure trivial
  intro w hw placedWins _
  refine (bringBack_sendsOnly P hwins (hmem w hw)).bind fun _ _ => ?_
  split
  · simp only []
    split
    · exact (SendsOnly.send P (hfocus _)).bind fun _ _ => .pure trivial
    · exact .pure trivial
  · exact .pure trivial

omit hfocus in
theorem tabWins_sendsOnly : SendsOnly Q (fun _ => True) (tabWins P wins) := by
  unfold tabWins
  refine (SendsOnly.send P hparent).bind fun _ _ => ?_
  refine (SendsOnly.send P (hlayout _)).bind fun _ _ => ?_
  refine (SendsOnly.forIn (J := fun _ => True) trivial ?_).bind fun _ _ => .pure trivial
  intro w hw _ _
  exact (bringBack_sendsOnly P hwins (List.mem_reverse.mp hw)).bind fun _ _ => .pure trivial

end bounds

/-- A rearrangement touches only windows of the current workspace that are not
`floating_con`s, if the function that brings them back touches only those. -/
theorem relayout_sendsOnly {connects : Bool} {tree ws : Node}
    (hws : currentWorkspace? (getRootNode false tree) = some ws)
    {insertWinFn : List Node → SwayM σ Unit}
    (hinsert : ∀ moved, (∀ w ∈ moved, Movable ws w) →
      SendsOnly (TouchesOnly (ws.nodesOfType .window)) (fun _ => True) (insertWinFn moved)) :
    SendsOnly (TouchesOnly (ws.nodesOfType .window)) (fun _ => True)
      (relayoutCurrentWorkspace P connects tree false insertWinFn) := by
  unfold relayoutCurrentWorkspace
  simp only [hws]
  cases connects with
  | false => exact .throw _
  | true =>
      refine (SendsOnly.forIn (J := fun b : List Node × Option Node => ∀ w ∈ b.1, Movable ws w)
        (by simp) ?_).bind ?_
      · -- a window that is moved is remembered
        intro win hwin b hb
        have hmove : Movable ws win → ∀ f : Option Node,
            SendsOnly (TouchesOnly (ws.nodesOfType .window))
              (fun r => ∀ w ∈ r.value.1, Movable ws w)
              (do P.send (.moveToWorkspace win.id swayrTmpWorkspace)
                  pure (ForInStep.yield (b.1 ++ [win], f))) := by
          intro hmovable f
          refine (SendsOnly.send P (hmovable.touchesOnly.1 _)).bind fun _ _ => .pure ?_
          intro w hw
          rcases List.mem_append.mp hw with hw | hw
          · exact hb w hw
          · exact List.mem_singleton.mp hw ▸ hmovable
        cases hf : win.isFloating with
        | true =>
            simp only [Bool.not_false, Bool.true_and, if_true]
            split <;> exact .pure hb
        | false =>
            simp only [Bool.and_false, Bool.false_eq_true, if_false]
            split <;> exact hmove ⟨hwin, hf⟩ _
      · intro b hb
        refine (hinsert b.1 hb).bind fun _ _ => ?_
        split
        · exact .send P fun i h => h.elim
        · exact .pure trivial

theorem mem_sent_of_sendsOnly {Q : Command → Prop} {x : SwayM σ Unit}
    (hx : SendsOnly Q (fun _ => True) x) {s : Session σ Command} {c : Command} (hc : c ∈ s.sent) :
    c ∈ (x s).2.sent := by
  obtain ⟨cs, hsent, -⟩ := hx.sent s
  rw [hsent]
  exact List.mem_append_left cs hc

/-- A peer that never fails is told to move every window that is not a
`floating_con`. -/
theorem relayout_moves (hP : ∀ c s, (P.exec c s).1 = .ok ()) {tree ws : Node}
    (hws : currentWorkspace? (getRootNode false tree) = some ws)
    {insertWinFn : List Node → SwayM σ Unit}
    (hinsert : ∀ moved, SendsOnly (fun _ => True) (fun _ => True) (insertWinFn moved))
    {win : Node} (hwin : win ∈ ws.nodesOfType .window) (hnot : win.isFloating = false)
    (s : Session σ Command) :
    .moveToWorkspace win.id swayrTmpWorkspace ∈
      (relayoutCurrentWorkspace P true tree false insertWinFn s).2.sent := by
  unfold relayoutCurrentWorkspace
  simp only [hws, if_true]
  rw [bind_apply _ (Emits.forIn_state (P := P)
    (g := fun w => if w.isFloating then [] else [.moveToWorkspace w.id swayrTmpWorkspace])
    (k := fun w b => (if w.isFloating then b.1 else b.1 ++ [w],
      if w.focused then some w else b.2)) ?_ _ s)]
  · -- what follows the loop does not take the command back
    refine mem_sent_of_sendsOnly ((hinsert _).bind fun _ _ => ?_) ?_
    · split
      · exact .send P trivial
      · exact .pure trivial
    · rw [Session.sent_after]
      exact List.mem_append_right _ (List.mem_flatMap.mpr ⟨win, hwin, by simp [hnot]⟩)
  · intro w _ b
    cases hf : w.isFloating with
    | true =>
        simp only [Bool.not_false, Bool.true_and, if_true]
        split <;> exact Emits.pure _
    | false =>
        simp only [Bool.and_false, Bool.false_eq_true, if_false]
        split <;> exact (Emits.send hP _).bind (Emits.pure _)

theorem logError_snd (run : SwayM σ Unit) (s : Session σ Command) :
    (logError run s).2 = (run s).2 := by
  rcases hrun : run s with ⟨_ | _, t⟩
  · rw [logError_of_error hrun]
  · rw [logError_of_ok hrun]

/-! ## Floating subtrees -/

/-- No command that was sent touches a node of the floating subtrees of `ws`. -/
def LeavesFloating (ws : Node) (s : Session σ Command) : Prop :=
  ∀ c ∈ s.sent, ∀ f ∈ ws.floatingNodes, ∀ n ∈ f.preorder, ¬ Touches n.id c

/-- A floating container belongs to its workspace. -/
theorem mem_of_floating {ws f n : Node} (hf : f ∈ ws.floatingNodes) (hn : n ∈ f.preorder) :
    n ∈ ws.preorder :=
  mem_preorder_of_mem_children (mem_nodes_append.mp (List.mem_append_right _ hf)) hn

/-- What is touched is a window of the workspace and no `floating_con`, so it is
in no floating subtree if the windows there are. -/
theorem leavesFloating_of_sendsOnly {ws : Node} (hd : DistinctIds ws)
    (h : ∀ f ∈ ws.floatingNodes, ∀ n ∈ f.preorder, n.getType = .window → n.isFloating = true)
    {run : SwayM σ Unit}
    (hrun : SendsOnly (TouchesOnly (ws.nodesOfType .window)) (fun _ => True) run) (x : σ) :
    LeavesFloating ws (logError run ⟨x, []⟩).2 := by
  intro c hc f hf n hn htouch
  obtain ⟨cs, hsent, hcs⟩ := hrun.sent ⟨x, []⟩
  rw [logError_snd, hsent] at hc
  obtain ⟨w, hw, hnot, hid⟩ := hcs c hc n.id htouch
  obtain ⟨hw, hwin⟩ := Node.mem_nodesOfType.mp hw
  obtain rfl : w = n := hd.node_eq hw (mem_of_floating hf hn) hid
  rw [h f hf w hn hwin] at hnot
  simp at hnot

/-- With `ExcludeFloating` the floating subtrees of the current workspace are left
alone exactly if all windows in them are `floating_con`s themselves. -/
theorem excludeFloating_iff (tree ws : Node) (hd : DistinctIds tree)
    (hws : currentWorkspace? (getRootNode false tree) = some ws) :
    (∀ (σ : Type) (P : Peer σ Command SwayError) (x : σ) (connects : Bool),
      (∀ (rng : Rng Node) (shuffle : Bool), LeavesFloating ws
        (tileCurrentWorkspace P rng connects tree .excludeFloating shuffle ⟨x, []⟩).2) ∧
      LeavesFloating ws (tabCurrentWorkspace P connects tree .excludeFloating ⟨x, []⟩).2) ↔
    ∀ f ∈ ws.floatingNodes, ∀ n ∈ f.preorder, n.getType = .window → n.isFloating = true := by
  constructor
  · -- A window inside a floating container that is no `floating_con` itself is moved.
    intro h f hf n hn hn'
    by_contra hnot
    have hwindow := Node.mem_nodesOfType.mpr ⟨mem_of_floating hf hn, hn'⟩
    have hrun := (h Unit ⟨fun _ _ => (.ok (), ())⟩ () true).2
    rw [tabCurrentWorkspace, logError_snd] at hrun
    refine hrun (.moveToWorkspace n.id swayrTmpWorkspace) ?_ f hf n hn rfl
    refine relayout_moves _ (fun _ _ => rfl) hws ?_ hwindow (by simpa using hnot) _
    intro moved
    exact tabWins_sendsOnly _ trivial (fun _ => trivial) fun _ _ => ⟨fun _ => trivial, trivial⟩
  · intro h σ P x connects
    have hdistinct := (hd.getRootNode false).subtree (currentWorkspace_mem hws)
    constructor
    · intro rng shuffle
      refine leavesFloating_of_sendsOnly hdistinct h (relayout_sendsOnly P hws ?_) x
      intro moved hmoved
      exact tileWins_sendsOnly P (fun _ _ => False.elim) (fun _ => False.elim)
        (fun _ _ => False.elim) (fun w hw => (hmoved w hw).touchesOnly) rng shuffle
    · refine leavesFloating_of_sendsOnly hdistinct h (relayout_sendsOnly P hws ?_) x
      intro moved hmoved
      exact tabWins_sendsOnly P (fun _ => False.elim) (fun _ _ => False.elim)
        fun w hw => (hmoved w hw).touchesOnly

/-- A workspace with a floating window and, next to it, a floating container. -/
def floatingWorkspace (inner : List Node) : Node :=
  .mk ⟨{ id := 952, nodeType := .workspace, focused := true }, rfl⟩ []
    [.mk ⟨{ id := 953, nodeType := .floatingCon, pid := some 750 }, rfl⟩ [] [],
     .mk ⟨{ id := 954, nodeType := .floatingCon }, rfl⟩ inner []]

def floatingTree (inner : List Node) : Node :=
  .mk ⟨{ id := 950, nodeType := .root }, rfl⟩
    [.mk ⟨{ id := 951, nodeType := .output }, rfl⟩ [floatingWorkspace inner] []] []

def innerWindow : Node := .mk ⟨{ id := 955, nodeType := .con, pid := some 751 }, rfl⟩ [] []

/-- Nothing floats. -/
theorem excludeFloating_iff_empty : DistinctIds (floatingTree []) ∧
    ∀ (σ : Type) (P : Peer σ Command SwayError) (x : σ) (connects : Bool),
      LeavesFloating (floatingWorkspace [])
        (tabCurrentWorkspace P connects (floatingTree []) .excludeFloating ⟨x, []⟩).2 := by
  have hd : DistinctIds (floatingTree []) := by decide
  have hws : currentWorkspace? (getRootNode false (floatingTree [])) =
      some (floatingWorkspace []) := by decide +kernel
  refine ⟨hd, fun σ P x connects => ?_⟩
  exact ((excludeFloating_iff (floatingTree []) (floatingWorkspace []) hd hws).mpr (by decide)
    σ P x connects).2

/-- The window inside the floating container is moved. -/
theorem excludeFloating_inner : DistinctIds (floatingTree [innerWindow]) ∧
    currentWorkspace? (getRootNode false (floatingTree [innerWindow])) =
      some (floatingWorkspace [innerWindow]) ∧
    (∃ f ∈ (floatingWorkspace [innerWindow]).floatingNodes, innerWindow ∈ f.preorder) ∧
    (tabCurrentWorkspace ⟨fun _ _ => (.ok (), ())⟩ true (floatingTree [innerWindow])
      .excludeFloating ⟨(), []⟩).2.sent =
      [.moveToWorkspace 955 "✨", .focusParent, .layout .tabbed,
        .moveToWorkspace 955 "current"] ∧
    (tileCurrentWorkspace ⟨fun _ _ => (.ok (), ())⟩ Rng.lastFirst true
      (floatingTree [innerWindow]) .excludeFloating false ⟨(), []⟩).2.sent =
      [.moveToWorkspace 955 "✨", .focusParent, .layout .splith,
        .moveToWorkspace 955 "current"] := by
  refine ⟨by decide, ?_⟩
  decide +kernel

end Swayr.Theorems.ExcludeFloating
