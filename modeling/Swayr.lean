import Swayr.Theorems.AutoNop
import Swayr.Theorems.AutoTile
import Swayr.Theorems.AutoTileConfigured
import Swayr.Theorems.AutoTileStable
import Swayr.Theorems.BarLines
import Swayr.Theorems.BarWindow
import Swayr.Theorems.Blocking
import Swayr.Theorems.Clicks
import Swayr.Theorems.ClosedOnRequest
import Swayr.Theorems.ClosedWindows
import Swayr.Theorems.ConfigFile
import Swayr.Theorems.CriteriaAccepted
import Swayr.Theorems.CriteriaBlanks
import Swayr.Theorems.CriteriaSpelling
import Swayr.Theorems.Cycling
import Swayr.Theorems.DesktopFile
import Swayr.Theorems.ExcludeFloating
import Swayr.Theorems.FocusedMeaning
import Swayr.Theorems.Formatting
import Swayr.Theorems.FrozenOrder
import Swayr.Theorems.GiveUp
import Swayr.Theorems.IconCache
import Swayr.Theorems.IconMap
import Swayr.Theorems.LockIn
import Swayr.Theorems.LockInDelay
import Swayr.Theorems.MenuActions
import Swayr.Theorems.MenuChoice
import Swayr.Theorems.MenuLines
import Swayr.Theorems.MenuOrder
import Swayr.Theorems.MenuOutline
import Swayr.Theorems.NetworkLine
import Swayr.Theorems.NextPrev
import Swayr.Theorems.NoWindowTwice
import Swayr.Theorems.NodeTree
import Swayr.Theorems.Relayout
import Swayr.Theorems.Requests
import Swayr.Theorems.Sweeps
import Swayr.Theorems.SwitchSequence
import Swayr.Theorems.SwitchStep
import Swayr.Theorems.TilingOrder
import Swayr.Theorems.UrgentFirst
import Swayr.Theorems.Volume
