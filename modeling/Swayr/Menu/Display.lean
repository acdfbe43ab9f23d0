import Swayr.Config
import Swayr.Shared.Placeholder
import Swayr.Tree.Windows

/-!
# The lines of the menu (`tree.rs`: `DisplayFormat for DisplayNode`)

What a node looks like in the menu. Icons are looked up in a map built from the
desktop entries and the icon directories; the files themselves are not modelled.
-/

namespace Swayr

open Cfg Ipc Swayr.Tree Focus Shared Kit.Text

namespace Tree

variable (t : Tree)

/-- The loop of `get_indent_level` that climbs to the root, bounded by `fuel`. -/
def climb : (fuel : Nat) → Int → Nat → Except Panic Nat
  | 0, _, _ => .error .outOfFuel
  | fuel + 1, id, depth =>
      match t.getParentNode id with
      | .error e => .error e
      | .ok (some p) => climb fuel p.id (depth + 1)
      | .ok none => .ok depth

/-- Climbing counts the ancestors if there is fuel for all of them. -/
theorem climb_lineage {l : List Node} (hl : Lineage t.root l) (fuel depth : Nat)
    (hfuel : l.length ≤ fuel) {n : Node} (hn : l.head? = some n) :
    t.climb fuel n.id depth = .ok (depth + (l.length - 1)) := by
  induction hl generalizing fuel depth n with
  | root =>
      obtain rfl : t.root = n := by simpa using hn
      obtain ⟨fuel, rfl⟩ : ∃ f, fuel = f + 1 := ⟨fuel - 1, by simp at hfuel; omega⟩
      rw [climb, t.getParentNode_root]
      rfl
  | @child p c rest hp hc ih =>
      obtain rfl : c = n := by simpa using hn
      obtain ⟨fuel, rfl⟩ : ∃ f, fuel = f + 1 := ⟨fuel - 1, by simp at hfuel; omega⟩
      rw [climb, t.getParentNode_child hp.mem hc]
      simp only
      rw [ih fuel (depth + 1) (by simpa using hfuel) rfl]
      simp only [List.length_cons]
      exact congrArg Except.ok (by omega)

end Tree

namespace DisplayNode

variable (d : DisplayNode)

/-- The size of the tree is fuel enough. -/
theorem climb_ok : ∃ rest, Lineage d.tree.root (d.node :: rest) ∧
    d.tree.climb d.tree.root.size d.node.id 0 = .ok rest.length := by
  obtain ⟨rest, hl⟩ := exists_lineage d.mem
  refine ⟨rest, hl, ?_⟩
  have := hl.length_le
  have := Node.size_eq d.node
  rw [d.tree.climb_lineage hl _ 0 (by simp only [List.length_cons]; omega) rfl]
  simp

/-- How many nodes are above the node. -/
def depth : Nat :=
  match h : d.tree.climb d.tree.root.size d.node.id 0 with
  | .ok depth => depth
  | .error _ => absurd h (by obtain ⟨rest, -, hok⟩ := d.climb_ok; rw [hok]; simp)

/-- `get_indent_level`; `none` is its panic on a node that is neither a workspace
nor a window. -/
def getIndentLevel : Option Nat :=
  match d.indentLevel with
  | .fixed level => some level
  | .workspacesZeroWindowsOne =>
      match d.node.getType with
      | .workspace => some 0
      | .window => some 1
      | _ => none
  | .treeDepth offset => some (if offset > d.depth then 0 else d.depth - offset)

end DisplayNode

/-! ## Workspaces and windows -/

namespace Tree

/-- The loop of `get_workspaces_and_windows`: each workspace is followed by its
windows, and those of the first workspace that has some are rotated. -/
def pushWorkspaces (ticks : TickMap) : (first : Bool) → List Node → List Node
  | _, [] => []
  | first, ws :: workspaces =>
      let wins := sortedNodesOfType1 ticks ws .window
      if first && !wins.isEmpty then
        ws :: (wins.rotate 1 ++ pushWorkspaces ticks false workspaces)
      else ws :: (wins ++ pushWorkspaces ticks first workspaces)

theorem mem_sortedNodesOfType1 {ticks : TickMap} {node n : Node} {k : Kind} :
    n ∈ sortedNodesOfType1 ticks node k ↔ n ∈ node.preorder ∧ n.getType = k := by
  rw [sortedNodesOfType1, sortByUrgencyAndLruTime1, Kit.mem_sortBy, Node.mem_nodesOfType]

/-- What is pushed are workspaces and their windows. -/
theorem mem_pushWorkspaces {ticks : TickMap} {first : Bool} {workspaces : List Node} {n : Node}
    (h : n ∈ pushWorkspaces ticks first workspaces) :
    ∃ ws ∈ workspaces, n = ws ∨ n ∈ ws.preorder ∧ n.getType = .window := by
  induction workspaces generalizing first with
  | nil => simp [pushWorkspaces] at h
  | cons ws workspaces ih =>
      have hcases : n = ws ∨ n ∈ sortedNodesOfType1 ticks ws .window ∨
          ∃ first, n ∈ pushWorkspaces ticks first workspaces := by
        rw [pushWorkspaces] at h
        split at h
        · simp only [List.mem_cons, List.mem_append, List.mem_rotate] at h
          exact h.imp_right (Or.imp_right fun h => ⟨_, h⟩)
        · simp only [List.mem_cons, List.mem_append] at h
          exact h.imp_right (Or.imp_right fun h => ⟨_, h⟩)
      rcases hcases with rfl | hwin | ⟨first, hrest⟩
      · exact ⟨n, List.mem_cons_self, .inl rfl⟩
      · exact ⟨ws, List.mem_cons_self, .inr (mem_sortedNodesOfType1.mp hwin)⟩
      · obtain ⟨ws', hmem, hws'⟩ := ih hrest
        exact ⟨ws', List.mem_cons_of_mem ws hmem, hws'⟩

variable (t : Tree)

theorem mem_workspacesAndWindows {ticks : TickMap} {n : Node}
    (h : n ∈ pushWorkspaces ticks true (sortedNodesOfType1 ticks t.root .workspace)) :
    n ∈ t.root.preorder ∧ (n.getType = .workspace ∨ n.getType = .window) := by
  obtain ⟨ws, hws, hn⟩ := mem_pushWorkspaces h
  obtain ⟨hroot, htype⟩ := mem_sortedNodesOfType1.mp hws
  rcases hn with rfl | ⟨hn, hwin⟩
  · exact ⟨hroot, .inl htype⟩
  · exact ⟨mem_preorder_trans hroot hn, .inr hwin⟩

def getWorkspacesAndWindows (ticks : TickMap) : List DisplayNode :=
  t.asDisplayNodes (pushWorkspaces ticks true (sortedNodesOfType1 ticks t.root .workspace))
    .workspacesZeroWindowsOne fun _ hn => (t.mem_workspacesAndWindows hn).1

/-- The list the indentation that panics is made for does not make it panic. -/
theorem getIndentLevel_workspacesAndWindows {ticks : TickMap} {d : DisplayNode}
    (hd : d ∈ t.getWorkspacesAndWindows ticks) : d.getIndentLevel.isSome := by
  obtain ⟨n, hn, rfl⟩ := List.mem_pmap.mp hd
  rcases (t.mem_workspacesAndWindows hn).2 with htype | htype <;>
    simp [DisplayNode.getIndentLevel, htype]

end Tree

/-! ## App names -/

def isVersionChar (c : Char) : Bool := c.isDigit || c == '.'

/-- The first match of `(.+)(-[0-9.]+)` in a line replaced by its first group: the
last `-` that has something before it and begins a version goes, with the
version. -/
def cutVersion : Text → Option Text
  | [] => none
  | c :: rest =>
      match cutVersion rest with
      | some cut => some (c :: cut)
      | none =>
          match rest with
          | '-' :: v :: _ =>
              if isVersionChar v then some (c :: (rest.drop 1).dropWhile isVersionChar) else none
          | _ => none

/-- The first line with a match is replaced: `.` does not match a newline. -/
def cutFirst : List Text → List Text
  | [] => []
  | line :: lines =>
      match cutVersion line with
      | some cut => cut :: lines
      | none => line :: cutFirst lines

/-- `APP_NAME_AND_VERSION_RX.replace(app_name, "$1")`. -/
def appNameNoVersion (appName : Text) : Text :=
  ['\n'].intercalate (cutFirst (appName.splitOn '\n'))

example : appNameNoVersion "gimp-2.10".toList = "gimp".toList := by decide

/-! ## `format_for_display` -/

/-- What the display asks of the system. -/
structure Desktop where
  home : Option Text
  /-- `get_icon`. The source builds its map once, from the directories of the first
  call, and looks every later call up in it. -/
  getIcon : Text → List Text → Option Text
  /-- A path is in the map only if it is that of a file. -/
  getIcon_nulFree : ∀ app dirs path, getIcon app dirs = some path → NulFree path
  /-- `str::to_lowercase`. -/
  toLowercase : Text → Text

def formatMarks (marks : List Text) : Text :=
  if marks.isEmpty then [] else '[' :: ", ".toList.intercalate marks ++ [']']

/-- The derived `Debug` of `NodeLayout`. -/
def Ipc.NodeLayout.debug : NodeLayout → Text
  | .splitH => "SplitH".toList
  | .splitV => "SplitV".toList
  | .stacked => "Stacked".toList
  | .tabbed => "Tabbed".toList
  | .output => "Output".toList
  | .none => "None".toList

namespace DisplayNode

variable (d : DisplayNode)

def appIcon (desk : Desktop) (cfg : Config) (iconDirs : List Text) : Text :=
  let appName := d.node.getAppName.toList
  let noVersion := appNameNoVersion appName
  ((((desk.getIcon appName iconDirs).or
    (desk.getIcon noVersion iconDirs)).or
    (desk.getIcon (desk.toLowercase noVersion) iconDirs)).or
    cfg.getFormatFallbackIcon).getD []

/-- The format for a node of the given type. -/
def formatOf (cfg : Config) : Kind → Text
  | .root => "Cannot format Root".toList
  | .output => cfg.getFormatOutputFormat
  | .workspace => cfg.getFormatWorkspaceFormat
  | .container => cfg.getFormatContainerFormat
  | .window => cfg.getFormatWindowFormat

/-- The four replacements made before the placeholders. -/
def expand (indent urgencyStart urgencyEnd appIcon fmt : Text) : Text :=
  replaceText "\x7bapp_icon\x7d".toList appIcon
    (replaceText "\x7burgency_end\x7d".toList urgencyEnd
      (replaceText "\x7burgency_start\x7d".toList urgencyStart
        (replaceText "\x7bindent\x7d".toList indent fmt)))

/-- The arms of `subst_placeholders`. -/
def placeholderValue (name : Text) : Option FmtArg :=
  if name = "id".toList then some (.i64 d.node.id)
  else if name = "app_name".toList then some (.string d.node.getAppName.toList)
  else if name = "layout".toList then some (.string d.node.props.layout.debug)
  else if name = "name".toList ∨ name = "title".toList then some (.string d.node.getName.toList)
  else if name = "output_name".toList then
    some (.string ((d.getParentNodeOfType .output).elim "<no_output>" Node.getName).toList)
  else if name = "workspace_name".toList then
    some (.string ((d.getParentNodeOfType .workspace).elim "<no_workspace>" Node.getName).toList)
  else if name = "marks".toList then
    some (.string (formatMarks (d.node.props.marks.map String.toList)))
  else none

/-- `format_for_display`; `none` is a panic. -/
def formatForDisplay (R : RtFormat) (desk : Desktop) (cfg : Config) : Option Text := do
  let iconDirs ← cfg.getFormatIconDirs desk.home
  let level ← d.getIndentLevel
  let fmt := expand (List.replicate level cfg.getFormatIndent).flatten
    (if d.node.urgent then cfg.getFormatUrgencyStart else [])
    (if d.node.urgent then cfg.getFormatUrgencyEnd else [])
    (d.appIcon desk cfg iconDirs) (formatOf cfg d.node.getType)
  substPlaceholders R fmt cfg.getFormatHtmlEscape d.placeholderValue

end DisplayNode

end Swayr
