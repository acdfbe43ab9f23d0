import Swayr.Cmds.Menus
import Swayr.Cmds.Variants
import Swayr.Layout.Relayout

/-!
# The arms of the dispatcher (`cmds.rs`: `exec_swayr_cmd`)

What each command that does not use the switch data does. The search of the
next/prev commands is bounded by the number of windows, which it never exceeds
(`focusWindowInDirection1_ok`).

Sway is taken to be there: `get_root_node`, `get_outputs` and `run_sway_command_1` panic
if they cannot connect to it, which is left out. Only the connection that rearranges a
workspace may fail, since its errors are handled.
-/

namespace Swayr.Cmds

open Ipc Swayr.Tree Focus Criteria Kit Layout

/-- What leaves the daemon while a command is executed, besides the switch commands'
requests. -/
inductive Outgoing
  | request (r : SwayRequest)
  /-- A command of the connection that rearranges the workspace. -/
  | relayout (c : Command)
  /-- The thread panics. -/
  | panicked
deriving DecidableEq, Repr

/-- The connection `relayout_current_workspace` opens. -/
structure SwayConnection (σ : Type) where
  peer : Peer σ Command SwayError
  state : σ
  connects : Bool
  rng : Rng Node

section

variable {σ : Type} (E : RegexEngine) (S : Surroundings) (C : SwayConnection σ)

def outgoing : Option (List SwayRequest) → List Outgoing
  | some rs => rs.map .request
  | none => [.panicked]

/-- What a next/prev command asks for. -/
def focusOutgoing : Except Panic (Option Int) → List Outgoing
  | .ok (some id) => [.request (.focusWindow id)]
  | .ok none => []
  | .error _ => [.panicked]

/-- What is sent over the connection, also if it ends with an error. -/
def relayoutOutgoing (run : StateM (Session σ Command) (Option SwayError)) : List Outgoing :=
  (run ⟨C.state, []⟩).2.sent.map .relayout

def nextOrPrev (w : World) (dir : Direction) (considerWins : ConsiderWindows)
    (pred : DisplayNode → Bool) : List Outgoing :=
  focusOutgoing (focusWindowInDirection w.wins.length dir considerWins w.ticks pred w.swayRoot
    w.distinct)

def nextOrPrevOfSameLayout (w : World) (dir : Direction) (considerWins : ConsiderWindows) :
    List Outgoing :=
  focusOutgoing (focusWindowOfSameLayoutInDirection w.wins.length dir considerWins w.ticks
    w.swayRoot w.distinct)

def nextOrPrevMatching (w : World) (dir : Direction) (criteria : String) : List Outgoing :=
  focusOutgoing (focusMatchingWindowInDirection E w.wins.length dir criteria w.ticks w.swayRoot
    w.distinct)

/-- The arms of `exec_swayr_cmd`. Those of `Nop`, of the switch commands and of
`ExecuteSwayrCommand` are in `execSwayrCmd`. -/
def runCommand (cmd : SwayrCommand) (w : World) : List Outgoing :=
  match cmd with
  | .nop | .switchToUrgentOrLRUWindow .. | .switchToAppOrUrgentOrLRUWindow ..
  | .switchToMarkOrUrgentOrLRUWindow .. | .switchToMatchingOrUrgentOrLRUWindow ..
  | .executeSwayrCommand => []
  | .switchWindow => outgoing ((switchWindow S w).run S)
  | .stealWindow => outgoing ((stealWindow w).run S)
  | .stealWindowOrContainer => outgoing ((stealWindowOrContainer w).run S)
  | .switchWorkspace => outgoing ((switchWorkspace S w).run S)
  | .switchOutput => outgoing ((switchOutput S w).run S)
  | .switchWorkspaceOrWindow => outgoing ((switchWorkspaceOrWindow S w).run S)
  | .switchWorkspaceContainerOrWindow => outgoing ((switchWorkspaceContainerOrWindow S w).run S)
  | .switchTo => outgoing ((switchTo S w).run S)
  | .quitWindow kill => outgoing ((quitWindow w kill).run S)
  | .quitWorkspaceOrWindow => outgoing ((quitWorkspaceOrWindow w).run S)
  | .quitWorkspaceContainerOrWindow => outgoing ((quitWorkspaceContainerOrWindow w).run S)
  | .moveFocusedToWorkspace => outgoing ((moveFocusedToWorkspace S w).run S)
  | .moveFocusedTo => outgoing ((moveFocusedTo S w).run S)
  | .swapFocusedWith => outgoing ((swapFocusedWith S w).run S)
  | .nextWindow windows => nextOrPrev w .forward windows alwaysTrue
  | .prevWindow windows => nextOrPrev w .backward windows alwaysTrue
  | .nextTiledWindow windows => nextOrPrev w .forward windows tiledWindow
  | .prevTiledWindow windows => nextOrPrev w .backward windows tiledWindow
  | .nextTabbedOrStackedWindow windows => nextOrPrev w .forward windows tabbedOrStackedWindow
  | .prevTabbedOrStackedWindow windows => nextOrPrev w .backward windows tabbedOrStackedWindow
  | .nextFloatingWindow windows => nextOrPrev w .forward windows floatingWindow
  | .prevFloatingWindow windows => nextOrPrev w .backward windows floatingWindow
  | .nextWindowOfSameLayout windows => nextOrPrevOfSameLayout w .forward windows
  | .prevWindowOfSameLayout windows => nextOrPrevOfSameLayout w .backward windows
  | .nextMatchingWindow criteria => nextOrPrevMatching E w .forward criteria
  | .prevMatchingWindow criteria => nextOrPrevMatching E w .backward criteria
  | .tileWorkspace floating =>
      relayoutOutgoing C
        (tileCurrentWorkspace C.peer C.rng C.connects w.swayRoot floating false)
  | .tabWorkspace floating =>
      relayoutOutgoing C (tabCurrentWorkspace C.peer C.connects w.swayRoot floating)
  | .shuffleTileWorkspace floating =>
      relayoutOutgoing C
        (tileCurrentWorkspace C.peer C.rng C.connects w.swayRoot floating true)
  | .toggleTabShuffleTileWorkspace floating =>
      match toggleTabTileCurrentWorkspace C.peer C.rng C.connects w.swayRoot floating with
      | some run => relayoutOutgoing C run
      | none => [.panicked]
  | .configureOutputs => outgoing (configureOutputs S)
  | .executeSwaymsgCommand => outgoing (execSwaymsgCommand S)

end

end Swayr.Cmds
