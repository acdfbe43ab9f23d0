import Swayr.Shared.Fmt

/-!
# The configuration (`config.rs`)

The sections for the menu program, for the format of its lines and for the
layout. Each option that is not set, or whose section is missing, takes the value
of the default configuration, in which all of them but the fallback icon are set.
-/

namespace Swayr.Cfg

open Shared

structure Menu where
  executable : Option Text
  args : Option (List Text)

structure Format where
  outputFormat : Option Text
  workspaceFormat : Option Text
  containerFormat : Option Text
  windowFormat : Option Text
  indent : Option Text
  urgencyStart : Option Text
  urgencyEnd : Option Text
  htmlEscape : Option Bool
  iconDirs : Option (List Text)
  fallbackIcon : Option Text

structure Config where
  menu : Option Menu
  format : Option Format

def Menu.default : Menu where
  executable := some "wofi".toList
  args := some ["--show=dmenu".toList, "--allow-markup".toList, "--allow-images".toList,
    "--insensitive".toList, "--cache-file=/dev/null".toList, "--parse-search".toList,
    "--height=40%".toList, "--prompt=\x7bprompt\x7d".toList]

def Format.default : Format where
  outputFormat := some ("\x7bindent\x7d".toList ++
    ("<b>Output \x7bname\x7d</b>    <span alpha=\"20000\">".toList ++
    "(\x7bid\x7d)</span>".toList))
  workspaceFormat := some ("\x7bindent\x7d<b>Workspace \x7bname\x7d".toList ++
    (" [\x7blayout\x7d]</b> on output \x7boutput_name\x7d    <span alpha=\"20000\">".toList ++
    "(\x7bid\x7d)</span>".toList))
  containerFormat := some ("\x7bindent\x7d<b>Container [\x7blayout\x7d]</b>".toList ++
    (" <i>\x7bmarks\x7d</i> on workspace \x7bworkspace_name\x7d    <span alpha=\"20000\">".toList
    ++ "(\x7bid\x7d)</span>".toList))
  windowFormat := some (
    ("img:\x7bapp_icon\x7d:text:\x7bindent\x7d<i>\x7bapp_name\x7d</i> — ".toList ++
    "\x7burgency_start\x7d<b>“\x7btitle\x7d”</b>\x7burgency_end\x7d <i>\x7bmarks\x7d</i>".toList) ++
    (" on workspace \x7bworkspace_name\x7d / \x7boutput_name\x7d    <span alpha=\"20000\">".toList
    ++ "(\x7bid\x7d)</span>".toList))
  indent := some "    ".toList
  urgencyStart := some "<span background=\"darkred\" foreground=\"yellow\">".toList
  urgencyEnd := some "</span>".toList
  htmlEscape := some true
  iconDirs := some ["/usr/share/icons/hicolor/scalable/apps".toList,
    "/usr/share/icons/hicolor/64x64/apps".toList, "/usr/share/icons/hicolor/48x48/apps".toList,
    "/usr/share/icons/Adwaita/64x64/apps".toList, "/usr/share/icons/Adwaita/48x48/apps".toList,
    "/usr/share/pixmaps".toList]
  fallbackIcon := none

/-- `tilde_expand_file_names`; `none` is its panic if `$HOME` is needed and not
defined. -/
def tildeExpandFileNames (home : Option Text) (fileNames : List Text) : Option (List Text) :=
  fileNames.mapM fun
    | '~' :: rest => home.map (· ++ rest)
    | fileName => some fileName

namespace Config

variable (cfg : Config)

/-- An option of the menu section; the default sets it. -/
def menuOption {α : Type} (field : Menu → Option α) (h : (field .default).isSome) : α :=
  (cfg.menu.bind field).getD ((field .default).get h)

/-- An option of the format section; the default sets it. -/
def formatOption {α : Type} (field : Format → Option α) (h : (field .default).isSome) : α :=
  (cfg.format.bind field).getD ((field .default).get h)

/-- Nothing in the format section differs from the default. -/
def DefaultFormat : Prop := ∀ f ∈ cfg.format, f = .default

/-- A configuration without a `[format]` section. -/
theorem defaultFormat_of_none (menu : Option Menu) : DefaultFormat ⟨menu, none⟩ := by
  intro f hf
  simp at hf

variable {cfg} in
/-- Every option of a default format has its default value. -/
theorem DefaultFormat.option_eq (hcfg : cfg.DefaultFormat) {α : Type} (field : Format → Option α)
    (h : (field .default).isSome) : cfg.formatOption field h = (field .default).get h := by
  unfold formatOption
  cases hf : cfg.format with
  | none => rfl
  | some f =>
      obtain rfl := hcfg f hf
      obtain ⟨a, ha⟩ := Option.isSome_iff_exists.mp h
      simp [ha]

def getMenuExecutable : Text := cfg.menuOption Menu.executable rfl
def getMenuArgs : List Text := cfg.menuOption Menu.args rfl
def getFormatOutputFormat : Text := cfg.formatOption Format.outputFormat rfl
def getFormatWorkspaceFormat : Text := cfg.formatOption Format.workspaceFormat rfl
def getFormatContainerFormat : Text := cfg.formatOption Format.containerFormat rfl
def getFormatWindowFormat : Text := cfg.formatOption Format.windowFormat rfl
def getFormatIndent : Text := cfg.formatOption Format.indent rfl
def getFormatUrgencyStart : Text := cfg.formatOption Format.urgencyStart rfl
def getFormatUrgencyEnd : Text := cfg.formatOption Format.urgencyEnd rfl
def getFormatHtmlEscape : Bool := cfg.formatOption Format.htmlEscape rfl

def getFormatIconDirs (home : Option Text) : Option (List Text) :=
  tildeExpandFileNames home (cfg.formatOption Format.iconDirs rfl)

/-- The fallback icon has no default. -/
def getFormatFallbackIcon : Option Text :=
  (cfg.format.bind Format.fallbackIcon).or Format.default.fallbackIcon

variable {cfg} in
theorem DefaultFormat.fallbackIcon_eq (hcfg : cfg.DefaultFormat) :
    cfg.getFormatFallbackIcon = none := by
  unfold getFormatFallbackIcon
  cases hf : cfg.format with
  | none => rfl
  | some f =>
      obtain rfl := hcfg f hf
      rfl

end Config

/-! ## The layout section -/

/-- `Layout`; the pairs are those of `auto_tile_min_window_width_per_output_width`. -/
structure LayoutConfig where
  autoTile : Option Bool
  minWindowWidths : Option (List (Int × Int))
deriving DecidableEq, Repr

namespace LayoutConfig

def default : LayoutConfig where
  autoTile := some false
  minWindowWidths := some [(800, 400), (1024, 500), (1280, 600), (1400, 680), (1440, 700),
    (1600, 780), (1920, 920), (2560, 1000), (3440, 1000), (4096, 1200)]

/-- The loop that fills the map. -/
def insertAll (pairs : List (Int × Int)) : Int → Option Int :=
  pairs.foldl (fun map pair outputWidth => if outputWidth = pair.1 then some pair.2
    else map outputWidth) fun _ => none

/-- `auto_tile_min_window_width_per_output_width_as_map`. -/
def minWindowWidthsAsMap (l : LayoutConfig) : Option (Int → Option Int) :=
  l.minWindowWidths.map insertAll

end LayoutConfig

variable (layout : Option LayoutConfig)

/-- `is_layout_auto_tile`, of the layout section. -/
def isLayoutAutoTile : Bool :=
  (layout.bind LayoutConfig.autoTile).getD (LayoutConfig.default.autoTile.get rfl)

/-- `get_layout_auto_tile_min_window_width_per_output_width_as_map`. -/
def getLayoutMinWindowWidthsAsMap : Int → Option Int :=
  (layout.bind LayoutConfig.minWindowWidthsAsMap).getD
    (LayoutConfig.default.minWindowWidthsAsMap.get rfl)

end Swayr.Cfg
