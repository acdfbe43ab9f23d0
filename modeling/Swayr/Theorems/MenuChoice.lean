import Swayr.Menu.DefaultFormat
import Swayr.Menu.Select

/-!
# The menu's choice

With the default formats a line of the menu ends with the node's id in
parentheses. Whatever titles, marks and icons put before it, nothing of it is
lost in them: the replacements do not reach across a blank, and no placeholder
reaches across two closing braces. The last opening parenthesis of a line is
therefore that of the id, lines of different nodes differ, and a line that is
printed leads back to its node.
-/

namespace Swayr.Theorems.MenuChoice

open Cfg Ipc Swayr.Tree Shared Kit.Text Swayr.Menu DisplayNode

/-- What the default formats end with. -/
def idSpan : Text := "(\x7bid\x7d)</span>".toList

/-- The end of a line for the node with the given id. -/
def lineEnd (id : Int) : Text := '(' :: decimal id ++ ")</span>".toList

/-! ## The end of a line -/

/-- A line ends with the id, in markup that no number contains. -/
theorem lineEnd_injective {p q : Text} {i j : Int} (h : p ++ lineEnd i = q ++ lineEnd j) :
    i = j := by
  have hparen : ∀ k : Int, '(' ∉ decimal k ++ ")</span>".toList := by
    intro k hmem
    rcases List.mem_append.mp hmem with hmem | hmem
    · exact not_mem_decimal (by decide) (by decide) k hmem
    · exact absurd hmem (by decide)
  have := eq_of_append_cons_eq (hparen i) (hparen j) h
  exact decimal_injective (List.append_cancel_right this)

/-- No character of a number is escaped. -/
theorem maybeHtmlEscape_decimal (doIt : Bool) (i : Int) :
    maybeHtmlEscape doIt (decimal i) = decimal i := by
  have hkeep : ∀ c new, c ≠ '-' → c.isDigit = false →
      replaceChar c new (decimal i) = decimal i := by
    intro c new hminus hdigit
    have hsame : ∀ x ∈ decimal i, (if x = c then new else [x]) = [x] := by
      intro x hx
      refine if_neg ?_
      rintro rfl
      exact not_mem_decimal hminus hdigit i hx
    rw [replaceChar, List.flatMap_congr hsame, List.flatMap_singleton']
  cases doIt with
  | false => rfl
  | true =>
      simp only [maybeHtmlEscape, if_true]
      rw [hkeep '<' _ (by decide) (by decide), hkeep '>' _ (by decide) (by decide),
        hkeep '&' _ (by decide) (by decide)]

variable {R : RtFormat} {desk : Desktop} {cfg : Config} {d : DisplayNode}

theorem substPlaceholders_idSpan (htmlEscape : Bool) :
    substPlaceholders R idSpan htmlEscape d.placeholderValue = some (lineEnd d.node.id) := by
  have hid : idSpan = '(' :: ('{' :: "id".toList ++ '}' :: ")</span>".toList) := rfl
  have hrest : substPlaceholders R ")</span>".toList htmlEscape d.placeholderValue =
      some ")</span>".toList := by
    have hnil : substPlaceholders R (")</span>".toList ++ []) htmlEscape d.placeholderValue =
        some (")</span>".toList ++ []) := substPlaceholders_append_of_not_mem (by decide) []
    rwa [List.append_nil] at hnil
  have hval : d.placeholderValue "id".toList = some (.i64 d.node.id) := rfl
  rw [hid, substPlaceholders_cons_of_ne (by decide),
    substPlaceholders_name (by decide) (by decide) hval, hrest]
  simp only [FmtArg.toString, maybeHtmlEscape_decimal, Option.map_some]
  rfl

/-- A format that ends with the id and contains its other placeholders. -/
theorem exists_substPlaceholders_idSpan {fmt out : Text} {htmlEscape : Bool}
    (hfmt : SelfContained fmt)
    (hout : substPlaceholders R (fmt ++ idSpan) htmlEscape d.placeholderValue = some out) :
    ∃ p, out = p ++ lineEnd d.node.id :=
  exists_substPlaceholders_append hfmt hout (substPlaceholders_idSpan htmlEscape)

/-! ## The replacements before the placeholders -/

/-- None of the four patterns occurs. -/
structure Unexpanded (s : Text) : Prop where
  indent : ¬ "\x7bindent\x7d".toList <:+: s
  urgencyStart : ¬ "\x7burgency_start\x7d".toList <:+: s
  urgencyEnd : ¬ "\x7burgency_end\x7d".toList <:+: s
  appIcon : ¬ "\x7bapp_icon\x7d".toList <:+: s

instance (s : Text) : Decidable (Unexpanded s) :=
  decidable_of_iff (¬ "\x7bindent\x7d".toList <:+: s ∧ ¬ "\x7burgency_start\x7d".toList <:+: s ∧
      ¬ "\x7burgency_end\x7d".toList <:+: s ∧ ¬ "\x7bapp_icon\x7d".toList <:+: s)
    ⟨fun ⟨h₁, h₂, h₃, h₄⟩ => ⟨h₁, h₂, h₃, h₄⟩, fun ⟨h₁, h₂, h₃, h₄⟩ => ⟨h₁, h₂, h₃, h₄⟩⟩

section expand

variable {indent urgencyStart urgencyEnd appIcon : Text}

/-- A text that begins with a blank is not reached by a pattern without. -/
theorem exists_replaceText_blank {pat new s t : Text} (hblank : t.head? = some ' ')
    (hpat : pat ≠ []) (hno : ' ' ∉ pat) (ht : ¬ pat <:+: t) :
    ∃ p, replaceText pat new (s ++ t) = p ++ t := by
  obtain ⟨p, hp⟩ := exists_replaceText_append (s := s) hblank hpat hno
  exact ⟨p, by rw [hp, replaceText_eq_self ht]⟩

/-- What begins with a blank stays, if there is nothing to replace in it. -/
theorem exists_expand_blank {t : Text} (hblank : t.head? = some ' ') (ht : Unexpanded t)
    (s : Text) :
    ∃ p, expand indent urgencyStart urgencyEnd appIcon (s ++ t) = p ++ t := by
  obtain ⟨p₁, h₁⟩ := exists_replaceText_blank (s := s) hblank (by decide) (by decide) ht.indent
  obtain ⟨p₂, h₂⟩ := exists_replaceText_blank (s := p₁) hblank (by decide) (by decide)
    ht.urgencyStart
  obtain ⟨p₃, h₃⟩ := exists_replaceText_blank (s := p₂) hblank (by decide) (by decide)
    ht.urgencyEnd
  obtain ⟨p₄, h₄⟩ := exists_replaceText_blank (s := p₃) hblank (by decide) (by decide) ht.appIcon
  exact ⟨p₄, by rw [expand, h₁, h₂, h₃, h₄]⟩

/-- A format that begins with the indentation and has nothing else to replace. -/
theorem expand_indent {t : Text} (ht : Unexpanded t) (hindent : '{' ∉ indent) :
    expand indent urgencyStart urgencyEnd appIcon ("\x7bindent\x7d".toList ++ t) =
      indent ++ t := by
  have hrest : ∀ pat new, pat.head? = some '{' → ¬ pat <:+: t →
      replaceText pat new (indent ++ t) = indent ++ t := by
    intro pat new hhead hpat
    rw [replaceText_append_of_not_mem hhead hindent, replaceText_eq_self hpat]
  rw [expand, replaceText_append_self (by decide), replaceText_eq_self ht.indent,
    hrest _ _ (by decide) ht.urgencyStart, hrest _ _ (by decide) ht.urgencyEnd,
    hrest _ _ (by decide) ht.appIcon]

end expand

/-! ## The default formats -/

/-- The part of a default format from which on nothing is replaced before the
placeholders, up to the id. -/
def middle : Kind → Text
  | .root => []
  | .output => "<b>Output \x7bname\x7d</b>    <span alpha=\"20000\">".toList
  | .workspace =>
      " [\x7blayout\x7d]</b> on output \x7boutput_name\x7d    <span alpha=\"20000\">".toList
  | .container =>
      " <i>\x7bmarks\x7d</i> on workspace \x7bworkspace_name\x7d    <span alpha=\"20000\">".toList
  | .window =>
      " on workspace \x7bworkspace_name\x7d / \x7boutput_name\x7d    <span alpha=\"20000\">".toList

theorem middle_unexpanded (k : Kind) : Unexpanded (middle k ++ idSpan) := by
  cases k <;> decide +kernel

theorem middle_selfContained (k : Kind) : SelfContained (middle k) := by
  cases k <;> exact selfContained_of_check (by decide +kernel)

section formatOf

variable {k : Kind} {indent : Text} (urgencyStart urgencyEnd appIcon : Text)

/-- With two placeholders in the middle anything may stand before them. -/
theorem exists_expand_of_blank {front : Text} (hblank : (middle k ++ idSpan).head? = some ' ')
    (hcount : 2 ≤ (middle k).count '}') :
    ∃ fmt, SelfContained fmt ∧
      expand indent urgencyStart urgencyEnd appIcon (front ++ (middle k ++ idSpan)) =
        fmt ++ idSpan := by
  obtain ⟨p, hp⟩ := exists_expand_blank hblank (middle_unexpanded k) front
  exact ⟨p ++ middle k, (middle_selfContained k).append hcount, by rw [hp, List.append_assoc]⟩

/-- Expanding the format leaves the place of the id at its end. -/
theorem exists_expand_formatOf (hcfg : cfg.DefaultFormat) (hroot : k ≠ .root)
    (hindent : '{' ∉ indent) :
    ∃ fmt, SelfContained fmt ∧
      expand indent urgencyStart urgencyEnd appIcon (formatOf cfg k) = fmt ++ idSpan := by
  cases k with
  | root => exact absurd rfl hroot
  | output =>
      -- only the indentation comes first
      refine ⟨indent ++ middle .output, (middle_selfContained _).append_of_not_mem hindent, ?_⟩
      have hfmt : formatOf cfg .output =
          "\x7bindent\x7d".toList ++ (middle .output ++ idSpan) := hcfg.option_eq _ rfl
      rw [hfmt, expand_indent (middle_unexpanded _) hindent, List.append_assoc]
  | workspace =>
      have hfmt : formatOf cfg .workspace = _ ++ (middle .workspace ++ idSpan) :=
        hcfg.option_eq _ rfl
      rw [hfmt]
      exact exists_expand_of_blank _ _ _ (by decide +kernel) (by decide +kernel)
  | container =>
      have hfmt : formatOf cfg .container = _ ++ (middle .container ++ idSpan) :=
        hcfg.option_eq _ rfl
      rw [hfmt]
      exact exists_expand_of_blank _ _ _ (by decide +kernel) (by decide +kernel)
  | window =>
      have hfmt : formatOf cfg .window = _ ++ (middle .window ++ idSpan) := hcfg.option_eq _ rfl
      rw [hfmt]
      exact exists_expand_of_blank _ _ _ (by decide +kernel) (by decide +kernel)

end formatOf

/-- A node's line ends with its id. -/
theorem exists_lineEnd (hcfg : cfg.DefaultFormat) (hroot : d.node.getType ≠ .root) {s : Text}
    (hs : d.formatForDisplay R desk cfg = some s) : ∃ p, s = p ++ lineEnd d.node.id := by
  unfold formatForDisplay at hs
  simp only [Option.bind_eq_bind, Option.bind_eq_some_iff] at hs
  obtain ⟨dirs, -, level, -, hs⟩ := hs
  obtain ⟨fmt, hfmt, hexpand⟩ := exists_expand_formatOf
    (if d.node.urgent then cfg.getFormatUrgencyStart else [])
    (if d.node.urgent then cfg.getFormatUrgencyEnd else []) (d.appIcon desk cfg dirs) hcfg hroot
    (not_mem_indent hcfg level (c := '{') (by decide))
  rw [hexpand] at hs
  exact exists_substPlaceholders_idSpan hfmt hs

/-! ## NUL -/

/-- The texts sway reports for a node contain no NUL. -/
structure NodeNulFree (n : Node) : Prop where
  name : NulFree n.getName.toList
  appName : NulFree n.getAppName.toList
  marks : ∀ mark ∈ n.props.marks, NulFree mark.toList

instance (n : Node) : Decidable (NodeNulFree n) :=
  decidable_of_iff (NulFree n.getName.toList ∧ NulFree n.getAppName.toList ∧
      ∀ mark ∈ n.props.marks, NulFree mark.toList)
    ⟨fun ⟨h₁, h₂, h₃⟩ => ⟨h₁, h₂, h₃⟩, fun ⟨h₁, h₂, h₃⟩ => ⟨h₁, h₂, h₃⟩⟩

theorem formatMarks_nulFree {marks : List Text} (h : ∀ mark ∈ marks, NulFree mark) :
    NulFree (formatMarks marks) := by
  unfold formatMarks
  split
  · simp [NulFree]
  · have hjoin : NulFree (", ".toList.intercalate marks) := .intercalate (by decide) h
    exact .append (fun hmem => (List.mem_cons.mp hmem).elim (by decide) hjoin) (by decide)

theorem getParentNodeOfType_nulFree (hnodes : ∀ n ∈ d.tree.root.preorder, NodeNulFree n)
    (k : Kind) {other : String} (hother : NulFree other.toList) :
    NulFree ((d.getParentNodeOfType k).elim other Node.getName).toList := by
  obtain ⟨rest, hl, heq⟩ := d.getParentNodeOfType_eq k
  rw [heq]
  cases hfind : (d.node :: rest).find? fun m => m.getType == k with
  | none => exact hother
  | some n => exact (hnodes n (hl.mem_all n (List.mem_of_find?_eq_some hfind))).name

/-- What sway says about the nodes is all that is shown of them. -/
theorem placeholderValue_nulFree (hnodes : ∀ n ∈ d.tree.root.preorder, NodeNulFree n)
    (name : Text) (val : FmtArg) (h : d.placeholderValue name = some val) :
    NulFree val.toString := by
  have hd := hnodes d.node d.mem
  -- Each name is replaced by a number, a fixed word or one of the node's own texts.
  unfold placeholderValue at h
  split at h
  · obtain rfl := Option.some.inj h
    exact not_mem_decimal (by decide) (by decide) d.node.id
  split at h
  · obtain rfl := Option.some.inj h
    exact hd.appName
  split at h
  · obtain rfl := Option.some.inj h
    show NulFree d.node.props.layout.debug
    cases d.node.props.layout <;> decide
  split at h
  · obtain rfl := Option.some.inj h
    exact hd.name
  split at h
  · obtain rfl := Option.some.inj h
    exact getParentNodeOfType_nulFree hnodes .output (by decide)
  split at h
  · obtain rfl := Option.some.inj h
    exact getParentNodeOfType_nulFree hnodes .workspace (by decide)
  split at h
  · obtain rfl := Option.some.inj h
    refine formatMarks_nulFree fun mark hmark => ?_
    obtain ⟨m, hm, rfl⟩ := List.mem_map.mp hmark
    exact hd.marks m hm
  · simp at h

theorem appIcon_nulFree (hcfg : cfg.DefaultFormat) (dirs : List Text) :
    NulFree (d.appIcon desk cfg dirs) := by
  unfold appIcon
  simp only [hcfg.fallbackIcon_eq, Option.or_none]
  generalize hicon : Option.or (Option.or _ _) _ = icon
  cases icon with
  | none => simp [NulFree]
  | some path =>
      simp only [Option.or_eq_some_iff] at hicon
      rcases hicon with (h | ⟨-, h⟩) | ⟨-, h⟩ <;> exact desk.getIcon_nulFree _ _ _ h

theorem option_nulFree (hcfg : cfg.DefaultFormat) (field : Format → Option Text)
    (h : (field .default).isSome) (hnul : NulFree ((field .default).get h)) :
    NulFree (cfg.formatOption field h) := by
  rwa [hcfg.option_eq]

theorem formatOf_nulFree (hcfg : cfg.DefaultFormat) (k : Kind) : NulFree (formatOf cfg k) := by
  cases k with
  | root =>
      show NulFree "Cannot format Root".toList
      decide +kernel
  | output => exact option_nulFree hcfg _ _ (by decide +kernel)
  | workspace => exact option_nulFree hcfg _ _ (by decide +kernel)
  | container => exact option_nulFree hcfg _ _ (by decide +kernel)
  | window => exact option_nulFree hcfg _ _ (by decide +kernel)

/-- No line has a NUL in it. -/
theorem formatForDisplay_nulFree (hR : R.KeepsNulFree) (hcfg : cfg.DefaultFormat)
    (hnodes : ∀ n ∈ d.tree.root.preorder, NodeNulFree n) {s : Text}
    (h : d.formatForDisplay R desk cfg = some s) : NulFree s := by
  have hstart : NulFree cfg.getFormatUrgencyStart := option_nulFree hcfg _ _ (by decide +kernel)
  have hend : NulFree cfg.getFormatUrgencyEnd := option_nulFree hcfg _ _ (by decide +kernel)
  unfold formatForDisplay at h
  simp only [Option.bind_eq_bind, Option.bind_eq_some_iff] at h
  obtain ⟨dirs, -, level, -, h⟩ := h
  refine .substPlaceholders hR ?_ (placeholderValue_nulFree hnodes) h
  exact .replaceText (appIcon_nulFree hcfg dirs) (.replaceText (not_mem_ite_nil hend _)
    (.replaceText (not_mem_ite_nil hstart _) (.replaceText (not_mem_indent hcfg level (by decide))
      (formatOf_nulFree hcfg _) _) _) _) _

/-! ## The choice -/

/-- Choices whose indentation does not panic have their lines, if the crate does not
panic or has no reason to. -/
theorem exists_lines {R : RtFormat} {desk : Desktop} {cfg : Config} {choices : List DisplayNode}
    (hcfg : cfg.DefaultFormat) (hlevel : ∀ d ∈ choices, d.getIndentLevel.isSome)
    (hicon : R.Total ∨ ∀ d ∈ choices, PlainIcon desk cfg d) :
    ∃ strs, choices.mapM (·.formatForDisplay R desk cfg) = some strs := by
  have hline : ∀ d ∈ choices, d.formatForDisplay R desk cfg =
      some ((d.formatForDisplay R desk cfg).getD []) := by
    intro d hd
    obtain ⟨s, hs⟩ := exists_line hcfg (hlevel d hd) (hicon.imp_right fun h => h d hd)
    rw [hs, Option.getD_some]
  exact ⟨_, mapM_formatForDisplay hline⟩

/-- **The choice identifies its node.** With the default formats, nodes with
distinct ids have distinct lines, and the node whose line the menu program prints
is the one that is chosen, whatever the icons are. There are such lines unless the
indentation of a choice panics, which that of the lists that `tree.rs` makes does not
(`getIndentLevel_workspacesAndWindows`), or the crate does. The default formats have
no widths that could make it panic; only the path of an icon, if it has an opening
brace, could bring one in. -/
theorem menu_choice_identifies (R : RtFormat) (hR : R.KeepsNulFree) (desk : Desktop)
    (cfg : Config) (hcfg : cfg.DefaultFormat) (choices : List DisplayNode)
    (hids : (choices.map (·.node.id)).Nodup) (hroot : ∀ d ∈ choices, d.node.getType ≠ .root)
    (hnodes : ∀ d ∈ choices, ∀ n ∈ d.tree.root.preorder, NodeNulFree n) :
    ((∀ d ∈ choices, d.getIndentLevel.isSome) →
        (R.Total ∨ ∀ d ∈ choices, PlainIcon desk cfg d) →
        ∃ strs, choices.mapM (·.formatForDisplay R desk cfg) = some strs) ∧
      ∀ strs, choices.mapM (·.formatForDisplay R desk cfg) = some strs → strs.Nodup ∧
        ∀ d ∈ choices, ∀ s, d.formatForDisplay R desk cfg = some s → ∀ program prompt,
          program cfg.getMenuExecutable (menuArgs cfg prompt) (['\n'].intercalate strs) =
            some (s ++ ['\n']) →
          selectFromMenu cfg program (·.formatForDisplay R desk cfg) prompt choices =
            some (.ok d) := by
  refine ⟨exists_lines hcfg, fun strs hstrs => ?_⟩
  obtain ⟨hline, rfl⟩ := mapM_formatForDisplay_eq_some hstrs
  -- Lines end with the ids, which differ.
  have hdistinct : (choices.map fun d => (d.formatForDisplay R desk cfg).getD []).Nodup := by
    rw [List.Nodup, List.pairwise_map] at hids ⊢
    refine hids.imp_of_mem fun {a b} ha hb hne heq => hne ?_
    obtain ⟨p, hp⟩ := exists_lineEnd hcfg (hroot a ha) (hline a ha)
    obtain ⟨q, hq⟩ := exists_lineEnd hcfg (hroot b hb) (hline b hb)
    rw [hp, hq] at heq
    exact lineEnd_injective heq
  have hnul : ∀ d ∈ choices, NulFree ((d.formatForDisplay R desk cfg).getD []) := fun d hd =>
    formatForDisplay_nulFree hR hcfg (hnodes d hd) (hline d hd)
  refine ⟨hdistinct, ?_⟩
  intro d hd s hs program prompt hprints
  obtain rfl := Option.some.inj ((hline d hd).symm.trans hs)
  exact selectFromMenu_eq_ok hline hnul hdistinct hd hprints

/-- A window whose title imitates the end of another line. -/
def imitator : Node :=
  .mk ⟨{ id := 804, nodeType := .con, name := some "(803)</span>", pid := some 600,
         marks := ["\x7bid"] }, rfl⟩ [] []

def imitated : Node :=
  .mk ⟨{ id := 803, nodeType := .con, layout := .splitH }, rfl⟩ [imitator] []

def imitationTree : Tree :=
  getTree (.mk ⟨{ id := 800, nodeType := .root }, rfl⟩
    [.mk ⟨{ id := 801, nodeType := .output, name := some "eDP-1" }, rfl⟩
      [.mk ⟨{ id := 802, nodeType := .workspace, name := some "1" }, rfl⟩ [imitated] []] []] [])
    (by decide)

def imitatorChoice : DisplayNode := ⟨imitator, imitationTree, .treeDepth 1, by decide⟩

def imitations : List DisplayNode :=
  [⟨imitated, imitationTree, .treeDepth 1, by decide⟩, imitatorChoice]

/-- No icons and no settings. -/
def bareDesktop : Desktop where
  home := none
  getIcon _ _ := none
  getIcon_nulFree := by simp
  toLowercase := id

/-- Without icons there is none with a brace. -/
theorem plainIcon_bareDesktop (d : DisplayNode) : PlainIcon bareDesktop ⟨none, none⟩ d :=
  fun _ _ _ => List.not_mem_nil

/-- A window whose title imitates the line of another one. -/
theorem menu_choice_identifies_imitator :
    ∃ s, imitatorChoice.formatForDisplay .basic bareDesktop ⟨none, none⟩ = some s ∧
      selectFromMenu ⟨none, none⟩ (fun _ _ _ => some (s ++ ['\n']))
        (·.formatForDisplay .basic bareDesktop ⟨none, none⟩) "Select".toList imitations =
          some (.ok imitatorChoice) := by
  have hcfg := Config.defaultFormat_of_none none
  obtain ⟨hexists, hdistinct⟩ := menu_choice_identifies .basic RtFormat.basic_keepsNulFree
    bareDesktop ⟨none, none⟩ hcfg imitations (by decide) (by decide) (by decide +kernel)
  obtain ⟨strs, hstrs⟩ := hexists (by decide +kernel) (.inr fun d _ => plainIcon_bareDesktop d)
  obtain ⟨-, hchoice⟩ := hdistinct strs hstrs
  obtain ⟨s, hs⟩ := exists_line (R := .basic) (d := imitatorChoice) hcfg (by decide +kernel)
    (.inr (plainIcon_bareDesktop _))
  exact ⟨s, hs, hchoice imitatorChoice (by simp [imitations]) _ hs _ _ rfl⟩

end Swayr.Theorems.MenuChoice
