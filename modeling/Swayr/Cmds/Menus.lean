import Swayr.Cmds.Exec
import Swayr.Menu.Lists
import Swayr.Menu.Select

/-!
# The commands that ask the user (`cmds.rs`)

Each of them shows a menu of nodes, of sway commands or of output settings, and
turns the answer into requests to sway. What the menu programs answer, and what
else the commands find outside the tree and the ticks, are their *surroundings*.
A result `none` is a panic of `select_from_menu`.
-/

namespace Swayr.Cmds

open Cfg Ipc Swayr.Tree Focus Shared Menu Kit.Text

/-! ## Requests -/

/-- What the commands ask for. All but `killProcess` are texts sent to sway. -/
inductive SwayRequest
  | focusWindow (id : Int)
  | stealWindow (id : Int)
  | quitWindow (id : Int)
  /-- `kill -9 PID`. -/
  | killProcess (pid : Int)
  | focusOutput (name : Text)
  | workspace (name : Text)
  | workspaceNumber (name : Text)
  | moveToScratchpad
  | moveToOutput (name : Text)
  | moveToWorkspace (name : Text)
  | moveToWorkspaceNumber (name : Text)
  | markMoveTarget (id : Int)
  | moveToMoveTarget
  | unmarkMoveTarget
  | swapWith (id : Int)
  /-- A command picked from the menu or typed by the user. -/
  | sway (cmd : Text)
deriving DecidableEq, Repr

/-- `run_sway_command`: the arguments joined by blanks. -/
def runSwayCommand (args : List Text) : Text := [' '].intercalate args

def conId (id : Int) : Text := "[con_id=".toList ++ decimal id ++ [']']

def swayrMoveTarget : Text := "__SWAYR_MOVE_TARGET__".toList

/-- The text sent to sway. -/
def SwayRequest.text : SwayRequest → Option Text
  | focusWindow id => some (runSwayCommand [conId id, "focus".toList])
  | stealWindow id => some (runSwayCommand [conId id, "move to workspace current".toList])
  | quitWindow id => some (runSwayCommand [conId id, "kill".toList])
  | killProcess _ => none
  | focusOutput name => some (runSwayCommand ["focus output".toList, name])
  | workspace name => some (runSwayCommand ["workspace".toList, name])
  | workspaceNumber name => some (runSwayCommand ["workspace".toList, "number".toList, name])
  | moveToScratchpad => some "move container to scratchpad".toList
  | moveToOutput name => some (runSwayCommand ["move container to output".toList, name])
  | moveToWorkspace name =>
      some (runSwayCommand ["move".toList, "container".toList, "to".toList, "workspace".toList,
        name])
  | moveToWorkspaceNumber name =>
      some (runSwayCommand ["move".toList, "container".toList, "to".toList, "workspace".toList,
        "number".toList, name])
  | markMoveTarget id =>
      some (runSwayCommand ["[con_id=\"".toList ++ decimal id ++ "\"]".toList, "mark".toList,
        "--add".toList, swayrMoveTarget])
  | moveToMoveTarget =>
      some (runSwayCommand ["move".toList, "to".toList, "mark".toList, swayrMoveTarget])
  | unmarkMoveTarget => some (runSwayCommand ["unmark".toList, swayrMoveTarget])
  | swapWith id =>
      some (runSwayCommand ["swap".toList, "container".toList, "with".toList, "con_id".toList,
        decimal id])
  | sway cmd => some cmd

/-! ## Surroundings -/

/-- `swayipc::Mode` and `swayipc::Output`, the fields that are read. -/
structure Mode where
  width : Int
  height : Int
deriving DecidableEq, Repr

structure OutputInfo where
  name : Text
  modes : List Mode
deriving DecidableEq, Repr

/-- What a command finds besides the tree and the ticks. -/
structure Surroundings where
  format : RtFormat
  desktop : Desktop
  config : Config
  /-- The menu programs the command starts, one after the other. -/
  program : Nat → Program
  /-- A bound on the menus `configure_outputs` opens; its loop has none. -/
  rounds : Nat
  outputs : List OutputInfo
  /-- `\d` of the regex crate. -/
  isDecimalDigit : Char → Bool

/-- `select_from_menu` on nodes. -/
def Surroundings.select (S : Surroundings) (prompt : String) (choices : List DisplayNode) :
    Option (Except Text DisplayNode) :=
  selectFromMenu S.config (S.program 0) (·.formatForDisplay S.format S.desktop S.config)
    prompt.toList choices

def World.tree (w : World) (includeScratchpad : Bool) : Tree :=
  getTree (getRootNode includeScratchpad w.swayRoot) (w.distinct.getRootNode includeScratchpad)

/-! ## Input that is no line of the menu -/

section input

variable (S : Surroundings)

/-- `DIGIT_AND_NAME`: `^(\d):(.*)`. -/
def isDigitAndName : Text → Bool
  | d :: ':' :: _ => S.isDecimalDigit d
  | _ => false

/-- The group of `^#*X:(.*)`. -/
def specialCapture (x : Char) (input : Text) : Option Text :=
  match input.dropWhile (· == '#') with
  | c :: ':' :: rest => if c = x then some (rest.takeWhile (· != '\n')) else none
  | _ => none

def chopWorkspaceShortcut (input : Text) : Text := (specialCapture 'w' input).getD input

def chopSwayShortcut (input : Text) : Text := (specialCapture 's' input).getD input

def createWorkspace (wsName : Text) : List SwayRequest :=
  if isDigitAndName S wsName then [.workspaceNumber wsName] else [.workspace wsName]

def isAsciiWhitespace (c : Char) : Bool :=
  c == ' ' || c == '\t' || c == '\n' || c == '\x0c' || c == '\r'

def splitAsciiWhitespace (s : Text) : List Text :=
  (s.splitOnP isAsciiWhitespace).filter (· ≠ [])

def handleNonMatchingInput (input : Text) : List SwayRequest :=
  if input.isEmpty then []
  else
    match specialCapture 's' input with
    | some cmd => [.sway (runSwayCommand (splitAsciiWhitespace cmd))]
    | none => createWorkspace S (chopWorkspaceShortcut input)

def moveFocusedToWorkspace1 (wsName : Text) : List SwayRequest :=
  if isDigitAndName S wsName then [.moveToWorkspaceNumber wsName] else [.moveToWorkspace wsName]

end input

/-! ## What is done with a chosen node -/

/-- The choice of `select_and_focus`. -/
def focusChoice (n : Node) : List SwayRequest :=
  match n.getType with
  | .output => if !n.isScratchpad then [.focusOutput n.getName.toList] else []
  | .workspace => if !n.isScratchpad then [.workspace n.getName.toList] else []
  | .window | .container => [.focusWindow n.id]
  | .root => []

/-- The choice of `select_and_steal`. -/
def stealChoice (n : Node) : List SwayRequest :=
  match n.getType with
  | .window | .container => [.stealWindow n.id]
  | _ => []

def killProcessByPid : Option Int → List SwayRequest
  | some pid => [.killProcess pid]
  | none => []

/-- The choice of `select_and_quit`. -/
def quitChoice (kill : Bool) (n : Node) : List SwayRequest :=
  match n.getType with
  | .workspace | .container =>
      (n.iter.filter (·.getType == .window)).map fun win => .quitWindow win.id
  | .window => if kill then killProcessByPid n.props.pid else [.quitWindow n.id]
  | _ => []

def moveFocusedToContainerOrWindow (id : Int) : List SwayRequest :=
  [.markMoveTarget id, .moveToMoveTarget, .unmarkMoveTarget]

/-- The choice of `select_and_move_focused_to`. -/
def moveChoice (S : Surroundings) (n : Node) : List SwayRequest :=
  match n.getType with
  | .output => if n.isScratchpad then [.moveToScratchpad] else [.moveToOutput n.getName.toList]
  | .workspace =>
      if n.isScratchpad then [.moveToScratchpad]
      else moveFocusedToWorkspace1 S n.getName.toList
  | .container | .window => moveFocusedToContainerOrWindow n.id
  | .root => []

/-- The choice of `swap_focused_with`. -/
def swapChoice (n : Node) : List SwayRequest :=
  match n.getType with
  | .workspace | .container | .window => [.swapWith n.id]
  | _ => []

/-- Input of the commands that move: a workspace, also if nothing was typed. -/
def moveInput (S : Surroundings) (input : Text) : List SwayRequest :=
  moveFocusedToWorkspace1 S (chopWorkspaceShortcut input)

/-! ## Menus of nodes -/

/-- A menu of nodes and what is done with its answer: a node, or input that is none of
the lines. -/
structure NodeMenu where
  onChoice : Node → List SwayRequest
  onInput : Text → List SwayRequest
  prompt : String
  choices : List DisplayNode

/-- The menu is shown and its answer acted on. -/
def NodeMenu.run (S : Surroundings) (m : NodeMenu) : Option (List SwayRequest) :=
  (S.select m.prompt m.choices).map fun
    | .ok d => m.onChoice d.node
    | .error input => m.onInput input

section select

variable (S : Surroundings)

def selectAndFocus : String → List DisplayNode → NodeMenu :=
  .mk focusChoice (handleNonMatchingInput S)

def selectAndSteal : String → List DisplayNode → NodeMenu :=
  .mk stealChoice fun _ => []

def selectAndQuit (kill : Bool) : String → List DisplayNode → NodeMenu :=
  .mk (quitChoice kill) fun _ => []

def selectAndMoveFocusedTo : String → List DisplayNode → NodeMenu :=
  .mk (moveChoice S) (moveInput S)

variable (w : World)

def switchWindow : NodeMenu :=
  selectAndFocus S "Select window" ((w.tree true).getWindows w.ticks)

def stealWindow : NodeMenu :=
  selectAndSteal "Select window" ((w.tree true).getWindows w.ticks)

def stealWindowOrContainer : NodeMenu :=
  selectAndSteal "Select window or container"
    ((w.tree true).getWorkspacesContainersAndWindows w.ticks)

def switchWorkspace : NodeMenu :=
  selectAndFocus S "Select workspace" ((w.tree false).getWorkspaces w.ticks)

def switchOutput : NodeMenu :=
  selectAndFocus S "Select output" (w.tree false).getOutputs

def switchWorkspaceOrWindow : NodeMenu :=
  selectAndFocus S "Select workspace or window" ((w.tree true).getWorkspacesAndWindows w.ticks)

def switchWorkspaceContainerOrWindow : NodeMenu :=
  selectAndFocus S "Select workspace, container or window"
    ((w.tree true).getWorkspacesContainersAndWindows w.ticks)

def switchTo : NodeMenu :=
  selectAndFocus S "Select output, workspace, container or window"
    ((w.tree true).getOutputsWorkspacesContainersAndWindows w.ticks)

def quitWindow (kill : Bool) : NodeMenu :=
  selectAndQuit kill "Quit window" ((w.tree true).getWindows w.ticks)

def quitWorkspaceOrWindow : NodeMenu :=
  selectAndQuit false "Quit workspace or window" ((w.tree true).getWorkspacesAndWindows w.ticks)

def quitWorkspaceContainerOrWindow : NodeMenu :=
  selectAndQuit false "Quit workspace, container or window"
    ((w.tree true).getWorkspacesContainersAndWindows w.ticks)

def moveFocusedToWorkspace : NodeMenu :=
  selectAndMoveFocusedTo S "Move focused container to workspace"
    ((w.tree true).getWorkspaces w.ticks)

def moveFocusedTo : NodeMenu :=
  selectAndMoveFocusedTo S "Move focused container to workspace or container"
    ((w.tree true).getOutputsWorkspacesContainersAndWindows w.ticks)

def swapFocusedWith : NodeMenu :=
  .mk swapChoice (moveInput S) "Swap focused with"
    ((w.tree true).getWorkspacesContainersAndWindows w.ticks)

/-- The menu of a command that shows nodes. -/
def nodeMenu : SwayrCommand → Option NodeMenu
  | .switchWindow => some (switchWindow S w)
  | .stealWindow => some (stealWindow w)
  | .stealWindowOrContainer => some (stealWindowOrContainer w)
  | .switchWorkspace => some (switchWorkspace S w)
  | .switchOutput => some (switchOutput S w)
  | .switchWorkspaceOrWindow => some (switchWorkspaceOrWindow S w)
  | .switchWorkspaceContainerOrWindow => some (switchWorkspaceContainerOrWindow S w)
  | .switchTo => some (switchTo S w)
  | .quitWindow kill => some (quitWindow w kill)
  | .quitWorkspaceOrWindow => some (quitWorkspaceOrWindow w)
  | .quitWorkspaceContainerOrWindow => some (quitWorkspaceContainerOrWindow w)
  | .moveFocusedToWorkspace => some (moveFocusedToWorkspace S w)
  | .moveFocusedTo => some (moveFocusedTo S w)
  | .swapFocusedWith => some (swapFocusedWith S w)
  | _ => none

end select

/-! ## Menus of sway commands -/

/-- `Vec<String>::sort`. -/
def sortTexts (ts : List Text) : List Text := Kit.sortBy compare ts

/-- Every option behind the command, as one text each. -/
def withOptions (cmd : String) (options : List String) : List Text :=
  options.map fun x => (cmd ++ " " ++ x).toList

def getSwaymsgCommands : List Text :=
  sortTexts (withOptions "border" ["none", "normal", "csd", "pixel"]
    ++ ["exit", "floating toggle", "focus child", "focus parent", "focus tiling",
      "focus floating", "focus mode_toggle", "fullscreen toggle", "reload", "sticky toggle",
      "kill", "tiling_drag toggle"].map String.toList
    ++ withOptions "inhibit_idle" ["focus", "fullscreen", "open", "none", "visible"]
    ++ withOptions "layout" ["default", "splith", "splitv", "stacking", "tiling"]
    ++ withOptions "shortcuts_inhibitor" ["enable", "disable"]
    ++ withOptions "focus_follows_mouse" ["yes", "no", "always"]
    ++ withOptions "focus_on_window_activation" ["smart", "urgent", "focus", "none"]
    ++ withOptions "focus_wrapping" ["yes", "no", "force", "workspace"]
    ++ withOptions "hide_edge_borders" ["none", "vertical", "horizontal", "both", "smart",
      "smart_no_gaps"]
    ++ withOptions "smart_borders" ["on", "no_gaps", "off"]
    ++ withOptions "smart_gaps" ["on", "off"]
    ++ withOptions "mouse_warping" ["output", "container", "none"]
    ++ withOptions "popup_during_fullscreen" ["smart", "ignore", "leave_fullscreen"]
    ++ ["yes", "no"].flatMap (fun x =>
      [("show_marks " ++ x).toList, ("workspace_auto_back_and_forth " ++ x).toList])
    ++ withOptions "title_align" ["left", "center", "right"]
    ++ withOptions "urgent" ["enable", "disable", "allow", "deny"])

/-- `select_from_menu` on sway commands, which are shown as they are. -/
def Surroundings.selectCommand (S : Surroundings) (k : Nat) (prompt : String)
    (cmds : List Text) : Option (Except Text Text) :=
  selectFromMenu S.config (S.program k) some prompt.toList cmds

def execSwaymsgCommand (S : Surroundings) : Option (List SwayRequest) :=
  (S.selectCommand 0 "Execute swaymsg command" getSwaymsgCommands).map fun
    | .ok cmd => [.sway cmd]
    | .error input => if input.isEmpty then [] else [.sway (chopSwayShortcut input)]

/-- The settings offered for every output, without its name. -/
def commonSettings : List Text :=
  ["on", "off"].flatMap (fun onOff =>
      [" dpms ".toList ++ onOff.toList, " adaptive_sync ".toList ++ onOff.toList])
    ++ ["normal", "90", "180", "270", "360", "flipped", "flipped-90", "flipped-180",
      "flipped-270"].flatMap (fun transform =>
        ["clockwise", "anticlockwise"].map fun dir =>
          " transform ".toList ++ transform.toList ++ ' ' :: dir.toList)
    ++ ["rgb", "bgr", "vrbg", "vbgr", "none"].map (fun pix => " subpixel ".toList ++ pix.toList)
    ++ ["linear", "nearest", "smart"].map (fun pix => " scale_filter ".toList ++ pix.toList)

/-- The commands offered for one output. -/
def outputCommands (o : OutputInfo) : List Text :=
  (" toggle".toList ::
    o.modes.map (fun mode => " mode ".toList ++ decimal mode.width ++ 'x' :: decimal mode.height)
    ++ commonSettings).map fun setting => "output ".toList ++ o.name ++ setting

/-- The loop of `configure_outputs` from its `k`-th menu on. -/
def outputMenus (S : Surroundings) (cmds : List Text) : (rounds k : Nat) → Option (List SwayRequest)
  | 0, _ => some []
  | rounds + 1, k => do
      match ← S.selectCommand k "Output command" cmds with
      | .ok cmd => do
          let rest ← outputMenus S cmds rounds (k + 1)
          return .sway cmd :: rest
      | .error _ => return []

def configureOutputs (S : Surroundings) : Option (List SwayRequest) :=
  outputMenus S (sortTexts (S.outputs.flatMap outputCommands)) S.rounds 0

end Swayr.Cmds
