import Swayr.Theorems.MenuChoice

/-!
# The lines the menu reads

The choices are joined by line breaks, and the menu program takes the text apart
again. The default formats have no line break of their own, but nothing escapes
one in a title, a name, a mark or a path: the lines are the choices exactly if
none of the texts that are shown has one.
-/

namespace Swayr.Theorems.MenuLines

open Cfg Ipc Swayr.Tree Shared Kit.Text Swayr.Menu DisplayNode Piece
open MenuChoice (exists_lines bareDesktop plainIcon_bareDesktop)

/-! ## Line breaks -/

/-- The name of the nearest node of the given type, from the node up. -/
def nearestName (d : DisplayNode) (k : Kind) (other : String) : Text :=
  ((d.getParentNodeOfType k).elim other Node.getName).toList

/-- The texts of others that a placeholder stands for. -/
def textsOf (d : DisplayNode) (appIcon : Text) : Placeholder → List Text
  | .indent | .urgencyStart | .urgencyEnd | .id | .layout => []
  | .appIcon => [appIcon]
  | .appName => [d.node.getAppName.toList]
  | .name | .title => [d.node.getName.toList]
  | .outputName => [nearestName d .output "<no_output>"]
  | .workspaceName => [nearestName d .workspace "<no_workspace>"]
  | .marks => d.node.props.marks.map String.toList

/-- The texts of others that the default formats show. -/
def shownTexts (d : DisplayNode) (appIcon : Text) : List Text :=
  let name := d.node.getName.toList
  let marks := d.node.props.marks.map String.toList
  let workspaceName := nearestName d .workspace "<no_workspace>"
  let outputName := nearestName d .output "<no_output>"
  match d.node.getType with
  | .root => []
  | .output => [name]
  | .workspace => [name, outputName]
  | .container => marks ++ [workspaceName]
  | .window =>
      appIcon :: d.node.getAppName.toList :: name :: (marks ++ [workspaceName, outputName])

theorem flatMap_textsOf (d : DisplayNode) (appIcon : Text) :
    (holes (defaultPieces d.node.getType)).flatMap (textsOf d appIcon) = shownTexts d appIcon := by
  unfold shownTexts
  cases d.node.getType <;> rfl

/-- Marks are joined by commas, so a line break is one of a mark. -/
theorem mem_formatMarks {marks : List Text} :
    '\n' ∈ formatMarks marks ↔ ∃ mark ∈ marks, '\n' ∈ mark := by
  unfold formatMarks
  split
  · rename_i hempty
    simp [List.isEmpty_iff.mp hempty]
  · rw [List.mem_append, List.mem_cons, mem_intercalate (by decide)]
    simp

section shown

variable {d : DisplayNode} {indent urgencyStart urgencyEnd appIcon : Text} {htmlEscape : Bool}

/-- A line break in the place of a placeholder comes with a text of others. -/
theorem mem_shown (hindent : '\n' ∉ indent) (hstart : '\n' ∉ urgencyStart)
    (hend : '\n' ∉ urgencyEnd) (p : Placeholder) :
    '\n' ∈ shown d htmlEscape indent urgencyStart urgencyEnd appIcon p ↔
      ∃ v ∈ textsOf d appIcon p, '\n' ∈ v := by
  have hescape : ∀ {s : Text}, '\n' ∈ maybeHtmlEscape htmlEscape s ↔ '\n' ∈ s :=
    mem_maybeHtmlEscape (by decide)
  have hone : ∀ {s : Text}, ('\n' ∈ maybeHtmlEscape htmlEscape s ↔ ∃ v ∈ [s], '\n' ∈ v) := by
    intro s
    simp [hescape]
  have hnone : ∀ {s : Text}, '\n' ∉ s → ('\n' ∈ s ↔ ∃ v ∈ ([] : List Text), '\n' ∈ v) := by
    intro s hs
    simp [hs]
  -- Escaping adds no line break, so it is the texts themselves that count.
  cases p with
  | indent => exact hnone hindent
  | urgencyStart => exact hnone hstart
  | urgencyEnd => exact hnone hend
  | appIcon =>
      show '\n' ∈ appIcon ↔ ∃ v ∈ [appIcon], '\n' ∈ v
      simp
  | id => exact hescape.trans (hnone (not_mem_decimal (by decide) (by decide) d.node.id))
  | layout =>
      have hdebug : '\n' ∉ d.node.props.layout.debug := by
        cases d.node.props.layout <;> decide
      exact hescape.trans (hnone hdebug)
  | appName | name | title | outputName | workspaceName => exact hone
  | marks => exact hescape.trans mem_formatMarks

/-- A line break comes from the values that are filled in. -/
theorem mem_render_default (hindent : '\n' ∉ indent) (hstart : '\n' ∉ urgencyStart)
    (hend : '\n' ∉ urgencyEnd) :
    '\n' ∈ (defaultPieces d.node.getType).flatMap
        (render (shown d htmlEscape indent urgencyStart urgencyEnd appIcon)) ↔
      ∃ v ∈ shownTexts d appIcon, '\n' ∈ v := by
  rw [mem_flatMap_render (defaultPieces_avoids _).2, ← flatMap_textsOf]
  simp only [mem_shown hindent hstart hend, List.mem_flatMap]
  constructor
  · rintro ⟨p, hp, v, hv, hmem⟩
    exact ⟨v, ⟨p, hp, hv⟩, hmem⟩
  · rintro ⟨v, ⟨p, hp, hv⟩, hmem⟩
    exact ⟨p, hp, v, hv, hmem⟩

end shown

theorem mem_formatForDisplay {R : RtFormat} {desk : Desktop} {cfg : Config}
    (hcfg : cfg.DefaultFormat) {d : DisplayNode} {s : Text} {dirs : List Text}
    (hs : d.formatForDisplay R desk cfg = some s)
    (hdirs : cfg.getFormatIconDirs desk.home = some dirs)
    (hicon : d.node.getType = .window → '{' ∉ d.appIcon desk cfg dirs) :
    '\n' ∈ s ↔ ∃ v ∈ shownTexts d (d.appIcon desk cfg dirs), '\n' ∈ v := by
  have hplain : PlainIcon desk cfg d := by
    intro dirs' hdirs'
    obtain rfl := Option.some.inj (hdirs.symm.trans hdirs')
    exact hicon
  obtain ⟨hstart, hend⟩ := getFormatUrgency_avoids hcfg (.inr rfl)
  obtain ⟨level, hlevel⟩ : ∃ level, d.getIndentLevel = some level := by
    unfold formatForDisplay at hs
    simp only [Option.bind_eq_bind, Option.bind_eq_some_iff] at hs
    obtain ⟨-, -, level, hlevel, -⟩ := hs
    exact ⟨level, hlevel⟩
  rw [formatForDisplay_eq R hcfg hdirs hlevel hplain] at hs
  obtain rfl := Option.some.inj hs
  exact mem_render_default (not_mem_indent hcfg level (by decide)) (not_mem_ite_nil hstart _)
    (not_mem_ite_nil hend _)

/-! ## The lines -/

/-- **The lines are the choices if no text breaks a line.** With the default
formats, splitting the input of the menu program gives back the display strings
exactly if none of them has a line break, which is to say that none of the titles,
names, marks and icons shown in them has one. In that case whichever line the
program prints is a choice. The icon of a window is put into the format before the
placeholders are looked for: what is said of its line is for icons without an opening
brace, and only an icon with one could make the crate panic. -/
theorem menu_lines_iff (R : RtFormat) (desk : Desktop) (cfg : Config) (hcfg : cfg.DefaultFormat)
    (choices : List DisplayNode) (hne : choices ≠ []) :
    ((∀ d ∈ choices, d.getIndentLevel.isSome) →
        (R.Total ∨ ∀ d ∈ choices, PlainIcon desk cfg d) →
        ∃ strs, choices.mapM (·.formatForDisplay R desk cfg) = some strs) ∧
      ∀ strs, choices.mapM (·.formatForDisplay R desk cfg) = some strs →
        ((['\n'].intercalate strs).splitOn '\n' = strs ↔ ∀ s ∈ strs, '\n' ∉ s) ∧
        (∀ d ∈ choices, ∀ s dirs, d.formatForDisplay R desk cfg = some s →
          cfg.getFormatIconDirs desk.home = some dirs →
          (d.node.getType = .window → '{' ∉ d.appIcon desk cfg dirs) →
          ('\n' ∈ s ↔ ∃ v ∈ shownTexts d (d.appIcon desk cfg dirs), '\n' ∈ v)) ∧
        ((∀ s ∈ strs, '\n' ∉ s) → ∀ program prompt,
          ∀ l ∈ (['\n'].intercalate strs).splitOn '\n',
            program cfg.getMenuExecutable (menuArgs cfg prompt) (['\n'].intercalate strs) =
              some (l ++ ['\n']) →
            ∃ c ∈ choices, selectFromMenu cfg program (·.formatForDisplay R desk cfg) prompt
              choices = some (.ok c)) := by
  refine ⟨exists_lines hcfg, fun strs hstrs => ?_⟩
  obtain ⟨hline, rfl⟩ := mapM_formatForDisplay_eq_some hstrs
  have hsplit := splitOn_intercalate_iff (c := '\n')
    (show (choices.map fun d => (d.formatForDisplay R desk cfg).getD []) ≠ [] by simpa using hne)
  refine ⟨hsplit, ?_, ?_⟩
  · intro d _ s dirs hs hdirs hicon
    exact mem_formatForDisplay hcfg hs hdirs hicon
  · intro hbreak program prompt l hl hprints
    rw [hsplit.mpr hbreak] at hl
    exact exists_selectFromMenu_ok hline hl hprints

def oneLine : Node :=
  .mk ⟨{ id := 963, nodeType := .con, name := some "a b", pid := some 760 }, rfl⟩ [] []

/-- A window whose title has a line break. -/
def twoLines : Node :=
  .mk ⟨{ id := 964, nodeType := .con, name := some "a\nb", pid := some 761 }, rfl⟩ [] []

def linesTree : Tree :=
  getTree (.mk ⟨{ id := 960, nodeType := .root }, rfl⟩
    [.mk ⟨{ id := 961, nodeType := .output, name := some "eDP-1" }, rfl⟩
      [.mk ⟨{ id := 962, nodeType := .workspace, name := some "1" }, rfl⟩ [oneLine, twoLines] []]
      []] []) (by decide)

def oneLineChoice : DisplayNode := ⟨oneLine, linesTree, .treeDepth 1, by decide⟩

def twoLinesChoice : DisplayNode := ⟨twoLines, linesTree, .treeDepth 1, by decide⟩

/-- A choice that fills one line. -/
theorem menu_lines_iff_oneLine :
    ∃ strs, [oneLineChoice].mapM (·.formatForDisplay .basic bareDesktop ⟨none, none⟩) = some strs ∧
      (['\n'].intercalate strs).splitOn '\n' = strs := by
  have hcfg := Config.defaultFormat_of_none none
  obtain ⟨hexists, hlines⟩ := menu_lines_iff .basic bareDesktop ⟨none, none⟩ hcfg
    [oneLineChoice] (by simp)
  obtain ⟨strs, hstrs⟩ := hexists (by decide +kernel) (.inr fun d _ => plainIcon_bareDesktop d)
  obtain ⟨hsplit, hbreak, -⟩ := hlines strs hstrs
  obtain ⟨dirs, hdirs⟩ := getFormatIconDirs_default hcfg none
  refine ⟨strs, hstrs, hsplit.mpr ?_⟩
  intro s hs
  have hone : oneLineChoice.formatForDisplay .basic bareDesktop ⟨none, none⟩ = some s := by
    rw [List.mapM_cons, List.mapM_nil] at hstrs
    obtain ⟨t, ht, hstrs⟩ := Option.bind_eq_some_iff.mp hstrs
    obtain rfl : [t] = strs := Option.some.inj hstrs
    rw [List.mem_singleton.mp hs]
    exact ht
  rw [hbreak oneLineChoice List.mem_cons_self s dirs hone hdirs fun _ => List.not_mem_nil]
  show ¬ ∃ v ∈ shownTexts oneLineChoice [], '\n' ∈ v
  decide +kernel

/-- The window's line is two lines for the menu program, and the first of them is
no choice. -/
theorem menu_lines_twoLines :
    ∃ s, twoLinesChoice.formatForDisplay .basic bareDesktop ⟨none, none⟩ = some s ∧
      (['\n'].intercalate [s]).splitOn '\n' ≠ [s] ∧
      ∃ l ∈ (['\n'].intercalate [s]).splitOn '\n',
        selectFromMenu ⟨none, none⟩ (fun _ _ _ => some (l ++ ['\n']))
          (·.formatForDisplay .basic bareDesktop ⟨none, none⟩) "Select".toList [twoLinesChoice] =
            some (.error l) := by
  let first := "img::text:        <i>&amp;lt;unknown_app&amp;gt;</i> — <b>“a".toList
  let second :=
    "b”</b> <i></i> on workspace 1 / eDP-1    <span alpha=\"20000\">(964)</span>".toList
  have hs : twoLinesChoice.formatForDisplay .basic bareDesktop ⟨none, none⟩ =
      some (first ++ '\n' :: second) := by decide +kernel
  have hfirst : '\n' ∉ first := by decide +kernel
  have hsecond : '\n' ∉ second := by decide +kernel
  have hsplit : (['\n'].intercalate [first ++ '\n' :: second]).splitOn '\n' =
      [first, second] := by
    have hjoin : ['\n'].intercalate [first ++ '\n' :: second] =
        ['\n'].intercalate [first, second] := by
      simp [List.intercalate_cons_cons]
    rw [hjoin]
    exact List.splitOn_intercalate '\n' (by simp [hfirst, hsecond]) (by simp)
  refine ⟨_, hs, ?_, first, ?_, ?_⟩
  · rw [hsplit]
    simp
  · rw [hsplit]
    exact List.mem_cons_self
  · have hline : ∀ c ∈ [twoLinesChoice],
        c.formatForDisplay .basic bareDesktop ⟨none, none⟩ = some (first ++ '\n' :: second) := by
      intro c hc
      rw [List.mem_singleton.mp hc, hs]
    have hnul : NulFree (first ++ '\n' :: second) := by decide +kernel
    exact selectFromMenu_eq_error hline (fun _ _ => hnul) (by simp) rfl

end Swayr.Theorems.MenuLines
