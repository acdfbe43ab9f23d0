import Swayr.Cmds.Command
import Swayr.Kit.Session
import Swayr.Tree.Windows

/-!
# Rearranging the current workspace (`layout.rs`, `cmds.rs`)

`relayout_current_workspace` moves the windows of the current workspace to a
temporary one and hands them to a function that moves them back. The commands
go to sway over one connection; the first that fails ends the call. The pauses
between commands are left out.
-/

namespace Swayr.Layout

open Ipc Swayr.Tree Kit

/-- The layouts the commands ask for. -/
inductive LayoutMode
  | splith
  | tabbed
deriving DecidableEq, Repr

/-- The commands sent to sway. -/
inductive Command
  /-- `[con_id=ID] move to workspace NAME`. -/
  | moveToWorkspace (id : Int) (name : String)
  /-- `[con_id=ID] focus`. -/
  | focus (id : Int)
  /-- `[con_id=ID] floating disable`. -/
  | floatingDisable (id : Int)
  /-- `focus parent`. -/
  | focusParent
  /-- `layout MODE`. -/
  | layout (mode : LayoutMode)
deriving DecidableEq, Repr

/-- `swayipc::Error`, the other kinds summed up in one. -/
inductive SwayError
  | commandFailed (msg : String)
  | other (msg : String)
deriving DecidableEq, Repr

abbrev SwayM (σ : Type) := SessionM σ Command SwayError

def swayrTmpWorkspace : String := "✨"

variable {σ : Type} (P : Peer σ Command SwayError)

/-- The first workspace with a focused node in it. -/
def currentWorkspace? (root : Node) : Option Node :=
  (root.nodesOfType .workspace).find? (·.isCurrent)

theorem currentWorkspace_mem {root ws : Node} (h : currentWorkspace? root = some ws) :
    ws ∈ root.preorder :=
  (Node.mem_nodesOfType.mp (List.mem_of_find?_eq_some h)).1

/-- `relayout_current_workspace`, applied to the tree sway sent. Without
`connects` no connection can be created. -/
def relayoutCurrentWorkspace (connects : Bool) (tree : Node) (includeFloating : Bool)
    (insertWinFn : List Node → SwayM σ Unit) : SwayM σ Unit := do
  let root := getRootNode false tree
  match currentWorkspace? root with
  | some curWs =>
      if connects then
        let mut movedWins : List Node := []
        let mut focusedWin : Option Node := none
        for win in curWs.nodesOfType .window do
          if win.focused then
            focusedWin := some win
          if !includeFloating && win.isFloating then
            continue
          movedWins := movedWins ++ [win]
          P.send (.moveToWorkspace win.id swayrTmpWorkspace)
        insertWinFn movedWins
        if let some win := focusedWin then
          P.send (.focus win.id)
      else
        throw (.commandFailed "Cannot create connection.")
  | none => throw (.commandFailed "No workspace is focused.")

/-- The windows of `wins` that `relayout_current_workspace` moves. -/
def moved (includeFloating : Bool) (wins : List Node) : List Node :=
  wins.filter fun win => includeFloating || !win.isFloating

/-- What `SliceRandom` makes of a slice: any permutation, and any element of a
slice that is not empty. -/
structure Rng (α : Type) where
  shuffle : List α → List α
  shuffle_perm : ∀ xs, (shuffle xs).Perm xs
  choose : List α → Option α
  choose_mem : ∀ xs x, choose xs = some x → x ∈ xs
  choose_isSome : ∀ xs, xs ≠ [] → (choose xs).isSome

/-- A choice without chance: the slice backwards, and its last element. -/
def Rng.lastFirst {α : Type} : Rng α where
  shuffle := List.reverse
  shuffle_perm := List.reverse_perm
  choose := List.getLast?
  choose_mem _ _ := List.mem_of_getLast?
  choose_isSome _ h := List.getLast?_isSome.mpr h

/-- What both rearrangements do to bring a window back. -/
def bringBack (win : Node) : SwayM σ Unit := do
  if win.isFloating then
    P.send (.floatingDisable win.id)
  P.send (.moveToWorkspace win.id "current")

/-- The function `tile_current_workspace` gives to `relayout_current_workspace`. -/
def tileWins (rng : Rng Node) (shuffle : Bool) (wins : List Node) : SwayM σ Unit := do
  P.send .focusParent
  P.send (.layout .splith)
  let mut placedWins : List Node := []
  for win in (if shuffle then rng.shuffle wins else wins.reverse) do
    bringBack P win
    placedWins := placedWins ++ [win]
    if shuffle then
      if let some win := rng.choose placedWins then
        P.send (.focus win.id)

/-- The function `tab_current_workspace` gives to `relayout_current_workspace`. -/
def tabWins (wins : List Node) : SwayM σ Unit := do
  P.send .focusParent
  P.send (.layout .tabbed)
  for win in wins.reverse do
    bringBack P win

end Swayr.Layout

namespace Swayr.Cmds

open Ipc Swayr.Tree Kit Layout

variable {σ : Type} (P : Peer σ Command SwayError) (rng : Rng Node) (connects : Bool)
  (tree : Node) (floating : ConsiderFloating)

/-- An error is logged and otherwise ignored. -/
def logError (run : SwayM σ Unit) : StateM (Session σ Command) (Option SwayError) := do
  match ← run.run with
  | .ok _ => return none
  | .error err => return some err

theorem logError_of_error {run : SwayM σ Unit} {s t : Session σ Command} {err : SwayError}
    (h : run s = (.error err, t)) : logError run s = (some err, t) := by
  simp only [logError, ExceptT.run, bind, StateT.bind, h]
  rfl

theorem logError_of_ok {run : SwayM σ Unit} {s t : Session σ Command}
    (h : run s = (.ok (), t)) : logError run s = (none, t) := by
  simp only [logError, ExceptT.run, bind, StateT.bind, h]
  rfl

/-- Nothing is logged only if there was no error. -/
theorem run_of_logError_eq_none {run : SwayM σ Unit} {s t : Session σ Command}
    (h : logError run s = (none, t)) : run s = (.ok (), t) := by
  rcases hrun : run s with ⟨_ | _, _⟩
  · rw [logError_of_error hrun] at h
    exact absurd (Prod.mk.inj h).1 (by simp)
  · rw [logError_of_ok hrun] at h
    obtain ⟨-, rfl⟩ := Prod.mk.inj h
    rfl

/-- `tile_current_workspace`, with the error it logs. -/
def tileCurrentWorkspace (shuffle : Bool) : StateM (Session σ Command) (Option SwayError) :=
  logError (relayoutCurrentWorkspace P connects tree (floating == .includeFloating)
    (tileWins P rng shuffle))

/-- `tab_current_workspace`, with the error it logs. -/
def tabCurrentWorkspace : StateM (Session σ Command) (Option SwayError) :=
  logError (relayoutCurrentWorkspace P connects tree (floating == .includeFloating) (tabWins P))

/-- `toggle_tab_tile_current_workspace`; `none` is the panic of its `unwrap`
when no workspace is current. -/
def toggleTabTileCurrentWorkspace :
    Option (StateM (Session σ Command) (Option SwayError)) :=
  (currentWorkspace? (getRootNode false tree)).map fun curWs =>
    if curWs.props.layout = .tabbed then tileCurrentWorkspace P rng connects tree floating true
    else tabCurrentWorkspace P connects tree floating

/-- The commands that rearrange the current workspace, as `exec_swayr_cmd`
dispatches them; `none` for every other command. -/
def execRelayout : SwayrCommand → Option (StateM (Session σ Command) (Option SwayError))
  | .tileWorkspace floating => some (tileCurrentWorkspace P rng connects tree floating false)
  | .tabWorkspace floating => some (tabCurrentWorkspace P connects tree floating)
  | .shuffleTileWorkspace floating =>
      some (tileCurrentWorkspace P rng connects tree floating true)
  | .toggleTabShuffleTileWorkspace floating =>
      toggleTabTileCurrentWorkspace P rng connects tree floating
  | _ => none

end Swayr.Cmds
