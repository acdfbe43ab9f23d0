import Swayr.Cmds.Direction

/-!
# Swayr's commands (`cmds.rs`: `SwayrCommand`)
-/

namespace Swayr.Cmds

inductive ConsiderFloating
  | includeFloating
  | excludeFloating
deriving DecidableEq, Repr

inductive SwayrCommand
  | nop
  | switchToUrgentOrLRUWindow (skipUrgent skipLru skipOrigin : Bool)
  | switchToAppOrUrgentOrLRUWindow (name : String) (skipUrgent skipLru skipOrigin : Bool)
  | switchToMarkOrUrgentOrLRUWindow (conMark : String) (skipUrgent skipLru skipOrigin : Bool)
  | switchToMatchingOrUrgentOrLRUWindow (criteria : String)
      (skipUrgent skipLru skipOrigin : Bool)
  | switchWindow
  | stealWindow
  | stealWindowOrContainer
  | switchWorkspace
  | switchOutput
  | switchWorkspaceOrWindow
  | switchWorkspaceContainerOrWindow
  | switchTo
  | quitWindow (kill : Bool)
  | quitWorkspaceOrWindow
  | quitWorkspaceContainerOrWindow
  | nextWindow (windows : ConsiderWindows)
  | prevWindow (windows : ConsiderWindows)
  | nextTiledWindow (windows : ConsiderWindows)
  | prevTiledWindow (windows : ConsiderWindows)
  | nextTabbedOrStackedWindow (windows : ConsiderWindows)
  | prevTabbedOrStackedWindow (windows : ConsiderWindows)
  | nextFloatingWindow (windows : ConsiderWindows)
  | prevFloatingWindow (windows : ConsiderWindows)
  | nextWindowOfSameLayout (windows : ConsiderWindows)
  | prevWindowOfSameLayout (windows : ConsiderWindows)
  | nextMatchingWindow (criteria : String)
  | prevMatchingWindow (criteria : String)
  | moveFocusedToWorkspace
  | moveFocusedTo
  | swapFocusedWith
  | toggleTabShuffleTileWorkspace (floating : ConsiderFloating)
  | tileWorkspace (floating : ConsiderFloating)
  | tabWorkspace (floating : ConsiderFloating)
  | shuffleTileWorkspace (floating : ConsiderFloating)
  | executeSwaymsgCommand
  | executeSwayrCommand
  | configureOutputs
deriving DecidableEq, Repr

namespace SwayrCommand

def isPrevNextWindowVariant : SwayrCommand → Bool
  | nextWindow _ | prevWindow _ | nextTiledWindow _ | prevTiledWindow _
  | nextTabbedOrStackedWindow _ | prevTabbedOrStackedWindow _
  | nextFloatingWindow _ | prevFloatingWindow _
  | nextWindowOfSameLayout _ | prevWindowOfSameLayout _
  | nextMatchingWindow _ | prevMatchingWindow _ => true
  | _ => false

/-- The commands `ExecuteSwayrCommand` offers in its menu. -/
def offered : List SwayrCommand :=
  [moveFocusedToWorkspace, moveFocusedTo, swapFocusedWith, quitWorkspaceOrWindow,
    switchWindow, stealWindow, stealWindowOrContainer, switchWorkspace, switchOutput,
    switchWorkspaceOrWindow, switchToUrgentOrLRUWindow false false false, configureOutputs,
    executeSwaymsgCommand]
  ++ [ConsiderFloating.excludeFloating, .includeFloating].flatMap (fun f =>
    [toggleTabShuffleTileWorkspace f, tileWorkspace f, tabWorkspace f, shuffleTileWorkspace f])
  ++ [false, true].map quitWindow
  ++ [ConsiderWindows.allWorkspaces, .currentWorkspace].flatMap (fun w =>
    [nextWindow w, prevWindow w, nextTiledWindow w, prevTiledWindow w,
      nextTabbedOrStackedWindow w, prevTabbedOrStackedWindow w, nextFloatingWindow w,
      prevFloatingWindow w])

end SwayrCommand

/-- What `select_from_menu` gives `ExecuteSwayrCommand`: one of the offered
commands, or none if the answer names none of them. -/
abbrev MenuAnswer := Option { c : SwayrCommand // c ∈ SwayrCommand.offered }

end Swayr.Cmds
