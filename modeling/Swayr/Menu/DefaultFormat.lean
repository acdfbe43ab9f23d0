import Swayr.Menu.Display
import Swayr.Shared.Template

/-!
# The default formats

The formats a configuration without settings shows the nodes with, as templates.
What is put into them before the placeholders are looked for, an indentation, the
marks of urgency and a path, becomes part of the format: without an opening brace it
stays what it is, and every placeholder is one of the format's own, without a width
that could make the formatting panic.
-/

namespace Swayr.Menu

open Cfg Ipc Swayr.Tree Shared Kit.Text DisplayNode Piece

/-! ## The default formats as templates -/

/-- What a format may name, the texts replaced before the placeholders first. -/
inductive Placeholder
  | indent | urgencyStart | urgencyEnd | appIcon
  | id | appName | layout | name | title | outputName | workspaceName | marks
deriving DecidableEq

namespace Placeholder

def key : Placeholder → Text
  | indent => "indent".toList
  | urgencyStart => "urgency_start".toList
  | urgencyEnd => "urgency_end".toList
  | appIcon => "app_icon".toList
  | id => "id".toList
  | appName => "app_name".toList
  | layout => "layout".toList
  | name => "name".toList
  | title => "title".toList
  | outputName => "output_name".toList
  | workspaceName => "workspace_name".toList
  | marks => "marks".toList

def all : List Placeholder :=
  [indent, urgencyStart, urgencyEnd, appIcon, id, appName, layout, name, title, outputName,
    workspaceName, marks]

theorem mem_all (p : Placeholder) : p ∈ all := by
  cases p <;> decide

theorem isName_key (p : Placeholder) : IsName p.key := by
  have hall : ∀ p ∈ all, IsName p.key := by decide +kernel
  exact hall p p.mem_all

/-- Placeholders have different names. -/
theorem key_injective : Function.Injective key := by
  have hall : ∀ p ∈ all, ∀ q ∈ all, p.key = q.key → p = q := by decide +kernel
  intro p q
  exact hall p p.mem_all q q.mem_all

end Placeholder

open Placeholder

/-- What all formats but the root's end with. -/
def idPieces : List (Piece Placeholder) :=
  [.lit "    <span alpha=\"20000\">(".toList, .hole .id, .lit ")</span>".toList]

def defaultPieces : Kind → List (Piece Placeholder)
  | .root => [.lit "Cannot format Root".toList]
  | .output =>
      [.hole .indent, .lit "<b>Output ".toList, .hole .name, .lit "</b>".toList] ++ idPieces
  | .workspace =>
      [.hole .indent, .lit "<b>Workspace ".toList, .hole .name, .lit " [".toList, .hole .layout,
        .lit "]</b> on output ".toList, .hole .outputName] ++ idPieces
  | .container =>
      [.hole .indent, .lit "<b>Container [".toList, .hole .layout, .lit "]</b> <i>".toList,
        .hole .marks, .lit "</i> on workspace ".toList, .hole .workspaceName] ++ idPieces
  | .window =>
      [.lit "img:".toList, .hole .appIcon, .lit ":text:".toList, .hole .indent,
        .lit "<i>".toList, .hole .appName, .lit "</i> — ".toList, .hole .urgencyStart,
        .lit "<b>“".toList, .hole .title, .lit "”</b>".toList, .hole .urgencyEnd,
        .lit " <i>".toList, .hole .marks, .lit "</i> on workspace ".toList,
        .hole .workspaceName, .lit " / ".toList, .hole .outputName] ++ idPieces

variable {cfg : Config}

/-- The default formats, as templates. -/
theorem formatOf_default (hcfg : cfg.DefaultFormat) (k : Kind) :
    formatOf cfg k = (defaultPieces k).flatMap (source key) := by
  cases k with
  | root =>
      show "Cannot format Root".toList = _
      decide +kernel
  | output => exact (hcfg.option_eq Format.outputFormat rfl).trans (by decide +kernel)
  | workspace => exact (hcfg.option_eq Format.workspaceFormat rfl).trans (by decide +kernel)
  | container => exact (hcfg.option_eq Format.containerFormat rfl).trans (by decide +kernel)
  | window => exact (hcfg.option_eq Format.windowFormat rfl).trans (by decide +kernel)

theorem defaultPieces_avoids (k : Kind) :
    Avoids '{' (defaultPieces k) ∧ Avoids '\n' (defaultPieces k) := by
  cases k <;> decide +kernel

/-! ## Filling them in -/

section expand

variable {indent urgencyStart urgencyEnd appIcon : Text}

/-- What the replacements make of a piece. -/
def expandPiece (indent urgencyStart urgencyEnd appIcon : Text) (p : Piece Placeholder) :
    Piece Placeholder :=
  fill .appIcon appIcon (fill .urgencyEnd urgencyEnd
    (fill .urgencyStart urgencyStart (fill .indent indent p)))

/-- The text in the place of a placeholder. -/
def shown (d : DisplayNode) (htmlEscape : Bool)
    (indent urgencyStart urgencyEnd appIcon : Text) : Placeholder → Text
  | .indent => indent
  | .urgencyStart => urgencyStart
  | .urgencyEnd => urgencyEnd
  | .appIcon => appIcon
  | p => maybeHtmlEscape htmlEscape ((d.placeholderValue p.key).elim [] FmtArg.toString)

/-- What `format_for_display` replaces itself are some of the placeholders, and what it
puts there brings no new ones. -/
theorem expand_source {ps : List (Piece Placeholder)} (hps : Avoids '{' ps)
    (hindent : '{' ∉ indent) (hstart : '{' ∉ urgencyStart) (hend : '{' ∉ urgencyEnd)
    (hicon : .appIcon ∈ holes ps → '{' ∉ appIcon) :
    expand indent urgencyStart urgencyEnd appIcon (ps.flatMap (source key)) =
        (ps.map (expandPiece indent urgencyStart urgencyEnd appIcon)).flatMap (source key) ∧
      Avoids '{' (ps.map (expandPiece indent urgencyStart urgencyEnd appIcon)) := by
  have hreplace : ∀ (p : Placeholder) (new : Text) {qs : List (Piece Placeholder)},
      Avoids '{' qs → replaceText (braced p.key) new (qs.flatMap (source key)) =
        (qs.map (fill p new)).flatMap (source key) :=
    replaceText_source isName_key key_injective
  -- Each of the four replacements inserts a text without an opening brace, so the next
  -- one finds only placeholders that were in the format from the start.
  have h₁ : Avoids '{' (ps.map (fill .indent indent)) := hps.map_fill fun _ => hindent
  have h₂ := h₁.map_fill (i := .urgencyStart) fun _ => hstart
  have h₃ := h₂.map_fill (i := .urgencyEnd) fun _ => hend
  have h₄ := h₃.map_fill fun hmem =>
    hicon (mem_holes.mpr (mem_of_mem_map_fill (mem_of_mem_map_fill (mem_of_mem_map_fill hmem))))
  have hmap : ps.map (expandPiece indent urgencyStart urgencyEnd appIcon) =
      (((ps.map (fill .indent indent)).map (fill .urgencyStart urgencyStart)).map
        (fill .urgencyEnd urgencyEnd)).map (fill .appIcon appIcon) := by
    simp only [List.map_map]
    rfl
  rw [hmap]
  refine ⟨?_, h₄⟩
  rw [← hreplace .appIcon _ h₃, ← hreplace .urgencyEnd _ h₂, ← hreplace .urgencyStart _ h₁,
    ← hreplace .indent _ hps]
  rfl

/-- A format made of pieces, filled in. -/
theorem substPlaceholders_expand (R : RtFormat) (d : DisplayNode) (htmlEscape : Bool)
    {ps : List (Piece Placeholder)} (hps : Avoids '{' ps) (hindent : '{' ∉ indent)
    (hstart : '{' ∉ urgencyStart) (hend : '{' ∉ urgencyEnd)
    (hicon : .appIcon ∈ holes ps → '{' ∉ appIcon) :
    substPlaceholders R (expand indent urgencyStart urgencyEnd appIcon (ps.flatMap (source key)))
        htmlEscape d.placeholderValue =
      some (ps.flatMap (render (shown d htmlEscape indent urgencyStart urgencyEnd appIcon))) := by
  obtain ⟨hexpand, havoids⟩ := expand_source hps hindent hstart hend hicon
  have hrender : ∀ p, render (shown d htmlEscape indent urgencyStart urgencyEnd appIcon)
      (expandPiece indent urgencyStart urgencyEnd appIcon p) =
        render (shown d htmlEscape indent urgencyStart urgencyEnd appIcon) p := by
    intro p
    cases p with
    | lit s => rfl
    | hole i => cases i <;> rfl
  rw [hexpand, substPlaceholders_source isName_key havoids, List.flatMap_map]
  · exact congrArg some (List.flatMap_congr fun p _ => hrender p)
  · -- the four that are replaced are gone, and the others have a value
    intro i hi
    obtain ⟨p, -, hp⟩ := List.mem_map.mp hi
    cases p with
    | lit s => exact absurd hp (by simp [expandPiece, fill])
    | hole j =>
        cases j with
        | indent | urgencyStart | urgencyEnd | appIcon =>
            exact absurd hp (by simp [expandPiece, fill])
        | id | appName | layout | name | title | outputName | workspaceName | marks =>
            obtain rfl := hole.inj hp
            exact ⟨_, rfl, rfl⟩

end expand

/-! ## The lines -/

/-- The default indentation is made of blanks. -/
theorem not_mem_indent (hcfg : cfg.DefaultFormat) (level : Nat) {c : Char} (hc : c ≠ ' ') :
    c ∉ (List.replicate level cfg.getFormatIndent).flatten := by
  have hindent : cfg.getFormatIndent = "    ".toList := hcfg.option_eq _ rfl
  intro hmem
  obtain ⟨l, hl, hcl⟩ := List.mem_flatten.mp hmem
  rw [List.eq_of_mem_replicate hl, hindent] at hcl
  exact hc (List.eq_of_mem_replicate (n := 4) hcl)

theorem getFormatIconDirs_default (hcfg : cfg.DefaultFormat) (home : Option Text) :
    ∃ dirs, cfg.getFormatIconDirs home = some dirs := by
  have hdirs := hcfg.option_eq Format.iconDirs rfl
  exact ⟨_, (congrArg (tildeExpandFileNames home) hdirs).trans rfl⟩

/-- A node has an icon in its line only if it is a window. -/
theorem appIcon_mem_holes {k : Kind} (h : .appIcon ∈ holes (defaultPieces k)) : k = .window := by
  cases k with
  | window => rfl
  | root | output | workspace | container => exact absurd h (by decide +kernel)

/-- The path of a window's icon has no opening brace. -/
def PlainIcon (desk : Desktop) (cfg : Config) (d : DisplayNode) : Prop :=
  ∀ dirs, cfg.getFormatIconDirs desk.home = some dirs → d.node.getType = .window →
    '{' ∉ d.appIcon desk cfg dirs

/-- The default marks for urgency are markup without braces and line breaks. -/
theorem getFormatUrgency_avoids (hcfg : cfg.DefaultFormat) {c : Char} (hc : c = '{' ∨ c = '\n') :
    c ∉ cfg.getFormatUrgencyStart ∧ c ∉ cfg.getFormatUrgencyEnd := by
  have hstart : cfg.getFormatUrgencyStart = Format.default.urgencyStart.get rfl :=
    hcfg.option_eq _ rfl
  have hend : cfg.getFormatUrgencyEnd = Format.default.urgencyEnd.get rfl :=
    hcfg.option_eq _ rfl
  rw [hstart, hend]
  rcases hc with rfl | rfl <;> decide +kernel

/-- With a plain icon a line is its format with the values filled in. -/
theorem formatForDisplay_eq (R : RtFormat) {desk : Desktop} {d : DisplayNode} {dirs : List Text}
    {level : Nat} (hcfg : cfg.DefaultFormat) (hdirs : cfg.getFormatIconDirs desk.home = some dirs)
    (hlevel : d.getIndentLevel = some level) (hicon : PlainIcon desk cfg d) :
    d.formatForDisplay R desk cfg =
      some ((defaultPieces d.node.getType).flatMap
        (render (shown d cfg.getFormatHtmlEscape
          (List.replicate level cfg.getFormatIndent).flatten
          (if d.node.urgent then cfg.getFormatUrgencyStart else [])
          (if d.node.urgent then cfg.getFormatUrgencyEnd else [])
          (d.appIcon desk cfg dirs)))) := by
  obtain ⟨hstart, hend⟩ := getFormatUrgency_avoids hcfg (.inl rfl)
  unfold formatForDisplay
  simp only [hdirs, hlevel, Option.bind_eq_bind, Option.bind_some]
  rw [formatOf_default hcfg, substPlaceholders_expand R d _ (defaultPieces_avoids _).1
    (not_mem_indent hcfg level (by decide)) (not_mem_ite_nil hstart _) (not_mem_ite_nil hend _)
    fun h => hicon dirs hdirs (appIcon_mem_holes h)]

/-- A node has a line unless its indentation panics, if the crate does not panic or
has no reason to. -/
theorem exists_line {R : RtFormat} {desk : Desktop} {d : DisplayNode} (hcfg : cfg.DefaultFormat)
    (hlevel : d.getIndentLevel.isSome) (hicon : R.Total ∨ PlainIcon desk cfg d) :
    ∃ s, d.formatForDisplay R desk cfg = some s := by
  obtain ⟨dirs, hdirs⟩ := getFormatIconDirs_default hcfg desk.home
  obtain ⟨level, hlevel⟩ := Option.isSome_iff_exists.mp hlevel
  rcases hicon with htotal | hplain
  · obtain ⟨s, hs⟩ := htotal.exists_substPlaceholders
      (expand (List.replicate level cfg.getFormatIndent).flatten
        (if d.node.urgent then cfg.getFormatUrgencyStart else [])
        (if d.node.urgent then cfg.getFormatUrgencyEnd else [])
        (d.appIcon desk cfg dirs) (formatOf cfg d.node.getType))
      cfg.getFormatHtmlEscape d.placeholderValue
    refine ⟨s, ?_⟩
    unfold formatForDisplay
    simp only [hdirs, hlevel, Option.bind_eq_bind, Option.bind_some, hs]
  · exact ⟨_, formatForDisplay_eq R hcfg hdirs hlevel hplain⟩

end Swayr.Menu
