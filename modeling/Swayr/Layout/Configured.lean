import Swayr.Config
import Swayr.Focus.Monitor
import Swayr.Layout.AutoTile

/-!
# When auto-tiling happens (`layout.rs`: `maybe_auto_tile`, `daemon.rs`)

The monitor thread calls `maybe_auto_tile` from its handler of window events. It has
the configuration that was loaded when the daemon was started.
-/

namespace Swayr.Layout

open Ipc Kit Cfg Focus

variable {σ : Type} (P : Peer σ SplitCommand SwayError) (layout : Option LayoutConfig)

/-- `maybe_auto_tile`, with what `get_tree` returned. -/
def maybeAutoTile (tree : Option Node) : AutoTileM σ Unit :=
  if isLayoutAutoTile layout then autoTile P tree (getLayoutMinWindowWidthsAsMap layout)
  else pure ()

/-- What a handler's operations send to sway. -/
def tileOps (tree : Option Node) : List MonitorOp → AutoTileM σ Unit
  | [] => pure ()
  | .maybeAutoTile :: ops => do maybeAutoTile P layout tree; tileOps tree ops
  | _ :: ops => tileOps tree ops

/-- What the monitor thread sends for a stream of events, with the tree at each; the
panic of `auto_tile` ends it. -/
def tileEvents (focusCounter : Nat) : List (SwayEvent × Option Node) → AutoTileM σ Unit
  | [] => pure ()
  | (ev, tree) :: rest =>
      match monitorEvent focusCounter ev with
      | (focusCounter, .handled ops) => do
          tileOps P layout tree ops
          tileEvents focusCounter rest
      | (_, .ended) => pure ()

end Swayr.Layout
