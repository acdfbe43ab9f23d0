import Swayr.Layout.Relayout

/-!
# Auto-tiling (`layout.rs`: `auto_tile`)

After most window events `auto_tile` walks over a snapshot of sway's tree and
decides for each tiled window whether the next window should go beside it or
below it. Which commands it sends depends on the snapshot only: what becomes of
them is logged and otherwise ignored.
-/

namespace Swayr.Layout

open Ipc Swayr.Tree Kit

/-- `splitv` and `splith`. -/
inductive Split
  | splitv
  | splith
deriving DecidableEq, Repr

/-- `[con_id=ID] SPLIT`. -/
structure SplitCommand where
  id : Int
  split : Split
deriving DecidableEq, Repr

/-- A natural number as `f32`: rounded to the 24 bits of the significand, to the
even neighbour if it lies between two. -/
def roundF32 (n : Nat) : Nat :=
  let excess := n.log2 - 23
  let q := n >>> excess
  let rest := n - (q <<< excess)
  let ulp := 1 <<< excess
  if ulp < 2 * rest ∨ (ulp = 2 * rest ∧ q % 2 = 1) then (q + 1) <<< excess else q <<< excess

/-- `as f32`, the value of which is an integer. -/
def asF32 (i : Int) : Int := if i < 0 then -(roundF32 i.natAbs) else roundF32 i.natAbs

/-- The split for a window, from its parent's layout, the minimal width and its
own. Halving an `f32` is exact, so that the comparisons with the estimated width
are made with both sides doubled. -/
def splitOf (layout : NodeLayout) (minWindowWidth width : Int) : Option Split :=
  if layout = .splitH ∧ asF32 width ≤ 2 * asF32 minWindowWidth then some .splitv
  else if layout = .splitV ∧ asF32 width > 2 * asF32 minWindowWidth then some .splith
  else none

/-- Auto-tiling; the error is the type of a child of the root that is no output,
which makes the source panic. -/
abbrev AutoTileM (σ : Type) := SessionM σ SplitCommand NodeType

variable {σ : Type} (P : Peer σ SplitCommand SwayError)

/-- The loop over the child windows of a container. -/
def tileChildWins (minWindowWidth : Int) (container : Node) : AutoTileM σ Unit := do
  for childWin in container.nodes.filter fun n => n.getType == .window do
    match splitOf container.layout minWindowWidth childWin.width with
    | some split => P.trySend ⟨childWin.id, split⟩
    | none => pure ()

/-- The loop over the workspaces and containers of an output. -/
def tileContainers (minWindowWidth : Int) (output : Node) : AutoTileM σ Unit := do
  for container in output.iter.filter fun n =>
      n.getType == .workspace || n.getType == .container do
    if container.isScratchpad then
      continue
    tileChildWins P minWindowWidth container

/-- What is done for a child of the root. -/
def tileOutput (resToMinWidth : Int → Option Int) (output : Node) : AutoTileM σ Unit := do
  if output.props.nodeType ≠ .output then
    throw output.props.nodeType
  match resToMinWidth output.width with
  | some minWindowWidth => tileContainers P minWindowWidth output
  | none => pure ()

/-- `auto_tile`, with what `get_tree` returned, `none` if there is no connection
or the request failed. -/
def autoTile (tree : Option Node) (resToMinWidth : Int → Option Int) : AutoTileM σ Unit := do
  match tree with
  | some tree =>
      for output in tree.nodes do
        tileOutput P resToMinWidth output
  | none => pure ()

/-! ## The commands -/

/-- The outputs that are reached. -/
def outputs (tree : Node) : List Node :=
  tree.nodes.takeWhile fun o => o.props.nodeType == .output

/-- The workspaces and containers of an output. -/
def containers (output : Node) : List Node :=
  output.iter.filter fun n => n.getType == .workspace || n.getType == .container

def tiledWindows (container : Node) : List Node :=
  container.nodes.filter fun n => n.getType == .window

/-- The command for a window of a container on an output. -/
def command? (resToMinWidth : Int → Option Int) (output container win : Node) :
    Option SplitCommand :=
  if container.isScratchpad then none
  else (resToMinWidth output.width).bind fun m =>
    (splitOf container.layout m win.width).map fun split => ⟨win.id, split⟩

/-- The commands of one output. -/
def commandsOn (resToMinWidth : Int → Option Int) (output : Node) : List SplitCommand :=
  (containers output).flatMap fun container =>
    (tiledWindows container).flatMap fun win =>
      (command? resToMinWidth output container win).toList

def commands (resToMinWidth : Int → Option Int) (tree : Node) : List SplitCommand :=
  (outputs tree).flatMap (commandsOn resToMinWidth)

/-- An output for whose width nothing is configured is left alone. -/
theorem commandsOn_of_none {resToMinWidth : Int → Option Int} {output : Node}
    (h : resToMinWidth output.width = none) : commandsOn resToMinWidth output = [] := by
  simp [commandsOn, command?, h]

/-- The panic at the first child of the root that is no output. -/
def outcome (tree : Node) : Except NodeType Unit :=
  match tree.nodes.dropWhile fun o => o.props.nodeType == .output with
  | o :: _ => .error o.props.nodeType
  | [] => .ok ()

theorem emits_tileChildWins {resToMinWidth : Int → Option Int} {m : Int} {output container : Node}
    (hm : resToMinWidth output.width = some m) (hs : container.isScratchpad = false) :
    Emits P (tileChildWins P m container) ((tiledWindows container).flatMap fun win =>
      (command? resToMinWidth output container win).toList) (.ok ()) := by
  refine Emits.for_pure ?_ ()
  intro win _
  rw [command?, hs, if_neg Bool.false_ne_true, hm, Option.bind_some]
  cases splitOf container.layout m win.width with
  | some split => exact (Emits.trySend _).bind (Emits.pure _)
  | none => exact Emits.pure _

theorem emits_tileContainers {resToMinWidth : Int → Option Int} {m : Int} {output : Node}
    (hm : resToMinWidth output.width = some m) :
    Emits P (tileContainers P m output) (commandsOn resToMinWidth output) (.ok ()) := by
  refine Emits.for_pure ?_ ()
  intro container _
  cases hs : container.isScratchpad with
  | true =>
      have hnone : ((tiledWindows container).flatMap fun win =>
          (command? resToMinWidth output container win).toList) = [] := by
        simp [command?, hs]
      rw [hnone, if_pos rfl]
      exact Emits.pure _
  | false =>
      have h := (emits_tileChildWins P hm hs).bind
        (f := fun _ => pure (ForInStep.yield PUnit.unit)) (Emits.pure _)
      rwa [List.append_nil] at h

/-- An output's commands are those of its containers. -/
theorem emits_tileOutput (resToMinWidth : Int → Option Int) {output : Node}
    (h : output.props.nodeType = .output) :
    Emits P (tileOutput P resToMinWidth output) (commandsOn resToMinWidth output) (.ok ()) := by
  rw [tileOutput, if_neg (not_not_intro h)]
  cases hm : resToMinWidth output.width with
  | some m => exact emits_tileContainers P hm
  | none =>
      rw [commandsOn_of_none hm]
      exact Emits.pure ()

/-- The root's children ought to be outputs. -/
theorem emits_tileOutput_error (resToMinWidth : Int → Option Int) {output : Node}
    (h : output.props.nodeType ≠ .output) :
    Emits P (tileOutput P resToMinWidth output) [] (.error output.props.nodeType) := by
  rw [tileOutput, if_pos h]
  exact (Emits.throw _).bind_error

/-- Sending the commands is all that `auto_tile` does. -/
theorem emits_autoTile (tree : Node) (resToMinWidth : Int → Option Int) :
    Emits P (autoTile P (some tree) resToMinWidth) (commands resToMinWidth tree)
      (outcome tree) := by
  have hloop : ∀ o ∈ outputs tree, Emits P
      (do tileOutput P resToMinWidth o; pure (ForInStep.yield PUnit.unit))
      (commandsOn resToMinWidth o) (.ok (.yield ⟨⟩)) := by
    intro o ho
    have h := (emits_tileOutput P resToMinWidth (by simpa using List.mem_takeWhile_imp ho)).bind
        (f := fun _ => pure (ForInStep.yield PUnit.unit)) (Emits.pure _)
    rwa [List.append_nil] at h
  have hsplit : outputs tree ++ (tree.nodes.dropWhile fun o => o.props.nodeType == .output) =
      tree.nodes := List.takeWhile_append_dropWhile
  unfold autoTile outcome
  -- The loop ends at the first child of the root that is not an output.
  cases hrest : tree.nodes.dropWhile fun o => o.props.nodeType == .output with
  | nil =>
      rw [hrest, List.append_nil] at hsplit
      simp only [← hsplit]
      exact Emits.for_pure hloop ()
  | cons o rest =>
      have ho : o.props.nodeType ≠ .output := by
        have := List.head?_dropWhile_not (fun o : Node => o.props.nodeType == .output) tree.nodes
        simpa [hrest] using this
      rw [hrest] at hsplit
      simp only [← hsplit]
      have herror := emits_tileOutput_error P resToMinWidth ho
      exact (Emits.forIn_error hloop herror.bind_error).bind_error

/-- What is sent depends on the tree and on the configuration only. -/
theorem sent_autoTile (tree : Node) (resToMinWidth : Int → Option Int)
    (s : Session σ SplitCommand) :
    (autoTile P (some tree) resToMinWidth s).2.sent = s.sent ++ commands resToMinWidth tree := by
  rw [emits_autoTile P tree resToMinWidth s, Session.sent_after]

/-! ## The windows they are for -/

/-- The window `w` is a tiled child of the workspace or container `p` on the
output `o`, which is reached. -/
structure Tiled (tree o p w : Node) : Prop where
  output : o ∈ outputs tree
  container : p ∈ o.preorder
  kind : p.getType = .workspace ∨ p.getType = .container
  child : w ∈ p.nodes
  window : w.getType = .window

/-- Every command is about a tiled window of a container on an output. -/
theorem mem_commands {tree : Node} {resToMinWidth : Int → Option Int} {c : SplitCommand} :
    c ∈ commands resToMinWidth tree ↔
      ∃ o p w, Tiled tree o p w ∧ command? resToMinWidth o p w = some c := by
  constructor
  · intro h
    obtain ⟨o, ho, h⟩ := List.mem_flatMap.mp h
    obtain ⟨p, hp, h⟩ := List.mem_flatMap.mp h
    obtain ⟨w, hw, h⟩ := List.mem_flatMap.mp h
    obtain ⟨hpo, hkind⟩ := List.mem_filter.mp hp
    obtain ⟨hwp, hwindow⟩ := List.mem_filter.mp hw
    rw [Node.iter_eq_preorder] at hpo
    exact ⟨o, p, w, ⟨ho, hpo, by simpa using hkind, hwp, by simpa using hwindow⟩, by simpa using h⟩
  · rintro ⟨o, p, w, h, hc⟩
    refine List.mem_flatMap.mpr ⟨o, h.output, List.mem_flatMap.mpr ⟨p, ?_,
      List.mem_flatMap.mpr ⟨w, ?_, by simp [hc]⟩⟩⟩
    · refine List.mem_filter.mpr ⟨?_, by simpa using h.kind⟩
      rw [Node.iter_eq_preorder]
      exact h.container
    · exact List.mem_filter.mpr ⟨h.child, by simpa using h.window⟩

/-- When a window's container is to be split, and how. -/
theorem command?_eq_some {resToMinWidth : Int → Option Int} {o p w : Node} {c : SplitCommand} :
    command? resToMinWidth o p w = some c ↔ p.isScratchpad = false ∧ c.id = w.id ∧
      ∃ m, resToMinWidth o.width = some m ∧ splitOf p.layout m w.width = some c.split := by
  unfold command?
  cases hs : p.isScratchpad with
  | true => simp
  | false =>
      cases hm : resToMinWidth o.width with
      | none => simp
      | some m =>
          cases hsplit : splitOf p.layout m w.width with
          | none => simp [hsplit]
          | some split =>
              obtain ⟨i, split'⟩ := c
              simp [hsplit, eq_comm]

end Swayr.Layout
