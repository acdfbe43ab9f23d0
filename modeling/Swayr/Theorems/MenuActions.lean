import Swayr.Cmds.Dispatch
import Swayr.Theorems.MenuChoice

/-!
# What a menu's answer leads to

Fourteen commands show nodes in a menu. With the default formats the line the user
picks belongs to one node, and the command acts on that node and on nothing else.
-/

namespace Swayr.Theorems.MenuActions

open Cfg Ipc Swayr.Tree Focus Shared Kit.Text Menu Cmds Criteria MenuChoice

section

variable {σ : Type} (E : RegexEngine) {S : Surroundings} (C : SwayConnection σ) {w : World}
  {cmd : SwayrCommand} {m : NodeMenu}

/-- The fourteen commands show their menu and act on the answer. -/
theorem runCommand_nodeMenu (hmenu : nodeMenu S w cmd = some m) :
    runCommand E S C cmd w = outgoing (m.run S) := by
  cases cmd <;> first
    | exact Option.some.inj hmenu ▸ rfl
    | cases hmenu

end

/-! ## What is offered -/

/-- Nodes of the tree that can be shown. -/
structure Showable (t : Tree) (l : List DisplayNode) : Prop where
  tree : ∀ d ∈ l, d.tree = t
  level : ∀ d ∈ l, d.getIndentLevel.isSome
  type : ∀ d ∈ l, d.node.getType ≠ .root

section lists

variable {t : Tree} {ticks : TickMap}

/-- Nodes of the tree other than its root can be shown. -/
theorem showable_asDisplayNodes {v : List Node} {lvl : IndentLevel}
    (h : ∀ n ∈ v, n ∈ t.root.preorder) (hlvl : lvl ≠ .workspacesZeroWindowsOne)
    (htype : ∀ n ∈ v, n.getType ≠ .root) : Showable t (t.asDisplayNodes v lvl h) where
  tree d hd := by
    obtain ⟨n, hn, rfl⟩ := List.mem_pmap.mp hd
    rfl
  level d hd := by
    obtain ⟨n, hn, rfl⟩ := List.mem_pmap.mp hd
    cases lvl with
    | workspacesZeroWindowsOne => exact absurd rfl hlvl
    | fixed level => rfl
    | treeDepth offset => rfl
  type d hd := by
    obtain ⟨n, hn, rfl⟩ := List.mem_pmap.mp hd
    exact htype n hn

theorem showable_getWindows : Showable t (t.getWindows ticks) := by
  refine showable_asDisplayNodes _ (by simp) fun n hn => ?_
  simp [(mem_windowNodes.mp hn).2]

theorem showable_getWorkspaces : Showable t (t.getWorkspaces ticks) := by
  refine showable_asDisplayNodes _ (by simp) fun n hn => ?_
  simp [((t.mem_workspaceNodes ticks).mp hn).2]

theorem showable_getOutputs : Showable t t.getOutputs := by
  refine showable_asDisplayNodes _ (by simp) fun n hn => ?_
  have hout := (List.mem_filter.mp hn).2
  rw [Bool.and_eq_true, beq_iff_eq] at hout
  simp [hout.1]

theorem showable_getWorkspacesAndWindows : Showable t (t.getWorkspacesAndWindows ticks) where
  tree d hd := by
    obtain ⟨n, hn, rfl⟩ := List.mem_pmap.mp hd
    rfl
  level d hd := t.getIndentLevel_workspacesAndWindows hd
  type d hd := by
    obtain ⟨n, hn, rfl⟩ := List.mem_pmap.mp hd
    rcases (t.mem_workspacesAndWindows hn).2 with htype | htype <;> simp [htype]

/-- The root is in no subtree of another node. -/
theorem showable_subtreesOfType (hshape : SwayShaped t.root) {k : Kind} (hk : k ≠ .root)
    (offset : Nat) : Showable t (t.subtreesOfType ticks k offset) := by
  refine showable_asDisplayNodes _ (by simp) fun n hn hroot => ?_
  obtain ⟨o, ho, htype, hno⟩ := (t.mem_pushSubtrees_sorted ticks).mp hn
  have hdepth : t.depthOf n = 0 := by
    rcases hshape.depthOf t (mem_preorder_trans ho hno) with h | h | h | h
    · exact h.2
    all_goals simp [hroot] at h
  rcases hshape.depthOf t ho with h | h | h | h
  · exact hk (htype.symm.trans h.1)
  all_goals
    rcases t.depthOf_below ho hno with rfl | hlt
    · omega
    · omega

end lists

section

variable {S : Surroundings} {w : World} {cmd : SwayrCommand} {m : NodeMenu}

/-- Whatever menu is shown, its entries can be. -/
theorem showable_nodeMenu (hshape : SwayShaped w.swayRoot) (hmenu : nodeMenu S w cmd = some m) :
    ∃ b, Showable (w.tree b) m.choices := by
  have houtline : ∀ k ≠ Kind.root, ∀ offset,
      Showable (w.tree true) ((w.tree true).subtreesOfType w.ticks k offset) :=
    fun k hk offset => showable_subtreesOfType hshape hk offset
  have hworkspaces := houtline .workspace (by simp) 2
  have houtputs := houtline .output (by simp) 1
  -- Every command's list is made from the one tree it read, with the scratchpad or not.
  unfold nodeMenu at hmenu
  split at hmenu
  all_goals cases hmenu
  · exact ⟨true, showable_getWindows⟩
  · exact ⟨true, showable_getWindows⟩
  · exact ⟨true, hworkspaces⟩
  · exact ⟨false, showable_getWorkspaces⟩
  · exact ⟨false, showable_getOutputs⟩
  · exact ⟨true, showable_getWorkspacesAndWindows⟩
  · exact ⟨true, hworkspaces⟩
  · exact ⟨true, houtputs⟩
  · exact ⟨true, showable_getWindows⟩
  · exact ⟨true, showable_getWorkspacesAndWindows⟩
  · exact ⟨true, hworkspaces⟩
  · exact ⟨true, showable_getWorkspaces⟩
  · exact ⟨true, houtputs⟩
  · exact ⟨true, hworkspaces⟩

/-- Leaving out the scratchpad adds no text. -/
theorem nodeNulFree_getRootNode {root : Node} (h : ∀ n ∈ root.preorder, NodeNulFree n) (b : Bool)
    {n : Node} (hn : n ∈ (getRootNode b root).preorder) : NodeNulFree n := by
  cases b with
  | true => exact h n hn
  | false =>
      rcases mem_preorder_iff.mp hn with rfl | ⟨c, hc, hnc⟩
      · have hroot := h root (mem_preorder_self root)
        exact ⟨hroot.name, hroot.appName, hroot.marks⟩
      · have hchild : c ∈ root.children := by
          simp only [getRootNode, Node.children, Node.nodes, Node.floatingNodes, List.mem_append,
            List.mem_reverse, List.mem_filter, Bool.false_eq_true, if_false] at hc ⊢
          exact hc.imp_left And.left
        exact h n (mem_preorder_of_mem_children hchild hnc)

end

/-! ## The lines -/

/-- The line of a node, where there is one. -/
def lineOf (S : Surroundings) (d : DisplayNode) : Text :=
  (d.formatForDisplay S.format S.desktop S.config).getD []

/-- The default formats, a tree of sway's shape, texts without NULs, and icons without
an opening brace unless the formatting crate never panics. -/
structure Ordinary (S : Surroundings) (w : World) : Prop where
  format : S.format.KeepsNulFree
  icons : S.format.Total ∨ ∀ d, PlainIcon S.desktop S.config d
  config : S.config.DefaultFormat
  shape : SwayShaped w.swayRoot
  nodes : ∀ n ∈ w.swayRoot.preorder, NodeNulFree n
  outputs : ∀ o ∈ S.outputs, NulFree o.name

/-- Every choice has a line of its own. -/
structure Lines (S : Surroundings) (choices : List DisplayNode) : Prop where
  line : ∀ d ∈ choices, d.formatForDisplay S.format S.desktop S.config = some (lineOf S d)
  nulFree : ∀ d ∈ choices, NulFree (lineOf S d)
  ne_nil : ∀ d ∈ choices, lineOf S d ≠ []
  node : ∀ c ∈ choices, ∀ d ∈ choices, lineOf S c = lineOf S d → c.node = d.node

section

variable {S : Surroundings} {w : World} {cmd : SwayrCommand} {m : NodeMenu}

/-- Every entry of a menu has a line of its own. -/
theorem Ordinary.lines (h : Ordinary S w) (hmenu : nodeMenu S w cmd = some m) :
    Lines S m.choices := by
  obtain ⟨b, hshow⟩ := showable_nodeMenu h.shape hmenu
  have hends : ∀ d ∈ m.choices, ∃ p, d.formatForDisplay S.format S.desktop S.config =
      some (lineOf S d) ∧ lineOf S d = p ++ lineEnd d.node.id := by
    intro d hd
    obtain ⟨s, hs⟩ := exists_line h.config (hshow.level d hd) (h.icons.imp_right fun hp => hp d)
    obtain ⟨p, rfl⟩ := exists_lineEnd h.config (hshow.type d hd) hs
    exact ⟨p, by simp [lineOf, hs], by simp [lineOf, hs]⟩
  refine ⟨fun d hd => (hends d hd).choose_spec.1, fun d hd => ?_, fun d hd => ?_, ?_⟩
  · refine formatForDisplay_nulFree h.format h.config (fun n hn => ?_)
      (hends d hd).choose_spec.1
    rw [hshow.tree d hd] at hn
    exact nodeNulFree_getRootNode h.nodes b hn
  · obtain ⟨p, -, hp⟩ := hends d hd
    simp [hp, lineEnd]
  · -- equal lines end with equal ids, and an id belongs to one node
    intro c hc d hd heq
    obtain ⟨p, -, hp⟩ := hends c hc
    obtain ⟨q, -, hq⟩ := hends d hd
    rw [hp, hq] at heq
    have hmem : c.node ∈ d.tree.root.preorder := by
      rw [hshow.tree d hd, ← hshow.tree c hc]
      exact c.mem
    exact d.tree.distinct.node_eq hmem d.mem (lineEnd_injective heq)

end

/-! ## The choice -/

section

variable {σ : Type} (E : RegexEngine) (S : Surroundings) (C : SwayConnection σ) (w : World)
  (cmd : SwayrCommand) (m : NodeMenu)

/-- Nothing but a panic is reported as one. -/
theorem panicked_mem_outgoing {rs? : Option (List SwayRequest)} :
    .panicked ∈ outgoing rs? ↔ rs? = none := by
  cases rs? <;> simp [outgoing]

end

/-- Two windows with one title, in a container of a workspace. -/
def twinsContainer : Node :=
  .mk ⟨{ id := 983, nodeType := .con, layout := .splitH }, rfl⟩
    [.mk ⟨{ id := 984, nodeType := .con, name := some "term", pid := some 780 }, rfl⟩ [] [],
     .mk ⟨{ id := 985, nodeType := .con, name := some "term", pid := some 780 }, rfl⟩ [] []] []

def twins : World where
  swayRoot := .mk ⟨{ id := 980, nodeType := .root }, rfl⟩
    [.mk ⟨{ id := 981, nodeType := .output, name := some "eDP-1" }, rfl⟩
      [.mk ⟨{ id := 982, nodeType := .workspace, name := some "1" }, rfl⟩
        [twinsContainer] []] []] []
  distinct := by decide
  ticks := .empty
  answer := none

/-- No settings, and menus that all print one text. -/
def printing (t : Text) : Surroundings where
  format := .basic
  desktop := bareDesktop
  config := ⟨none, none⟩
  program _ _ _ _ := some t
  rounds := 0
  outputs := []
  isDecimalDigit _ := false

theorem ordinary_twins (t : Text) : Ordinary (printing t) twins where
  format := RtFormat.basic_keepsNulFree
  icons := .inr plainIcon_bareDesktop
  config := Config.defaultFormat_of_none none
  shape := ⟨by decide, by decide, by decide, by decide⟩
  nodes := by decide +kernel
  outputs := by simp [printing]

/-- A connection that is refused. -/
def refused : SwayConnection Unit where
  peer := ⟨fun _ s => (.ok (), s)⟩
  state := ()
  connects := false
  rng := ⟨id, fun _ => .rfl, List.head?, fun _ _ => List.mem_of_mem_head?, fun xs hxs => by
    simpa [List.isSome_head?] using hxs⟩

/-- The container of the twins is offered, and has a line. -/
theorem exists_line_twins (t : Text) :
    ∃ d ∈ (twins.tree true).getWorkspacesContainersAndWindows twins.ticks,
      d.node = twinsContainer ∧
      d.formatForDisplay .basic bareDesktop ⟨none, none⟩ = some (lineOf (printing t) d) := by
  have hoffered : twinsContainer ∈
      pushSubtrees twins.ticks ((twins.tree true).sortedNodesOfType twins.ticks .workspace) := by
    decide +kernel
  have hlines := (ordinary_twins t).lines
    (show nodeMenu (printing t) twins .quitWorkspaceContainerOrWindow = some _ from rfl)
  refine ⟨_, List.mem_pmap.mpr ⟨twinsContainer, hoffered, rfl⟩, rfl, hlines.line _ ?_⟩
  exact List.mem_pmap.mpr ⟨twinsContainer, hoffered, rfl⟩

/-- Sorting the commands loses none. -/
theorem mem_sortTexts {ts : List Text} {t : Text} : t ∈ sortTexts ts ↔ t ∈ ts := by
  rw [sortTexts, Kit.mem_sortBy]

/-- A line that can be shown and is not empty. -/
def isLine (t : Text) : Bool := !t.isEmpty && !t.contains '\x00'

theorem isLine_iff {t : Text} : isLine t = true ↔ t ≠ [] ∧ NulFree t := by
  simp [isLine, NulFree]

theorem isLine_getSwaymsgCommands {t : Text} (h : t ∈ getSwaymsgCommands) : isLine t = true := by
  rw [getSwaymsgCommands, mem_sortTexts] at h
  revert t
  rw [← List.all_eq_true]
  decide +kernel

theorem commonSettings_nulFree : commonSettings.all (!·.contains '\x00') = true := by
  decide +kernel

/-- The commands offered for an output, if its name has no NUL. -/
theorem isLine_outputCommands {o : OutputInfo} (ho : NulFree o.name) {t : Text}
    (h : t ∈ outputCommands o) : isLine t = true := by
  obtain ⟨setting, hmem, rfl⟩ := List.mem_map.mp h
  have hfree : NulFree setting := by
    simp only [List.mem_append, List.mem_cons, List.mem_map] at hmem
    rcases hmem with (rfl | ⟨mode, -, rfl⟩) | hcommon
    · decide
    · have hdec : ∀ i, '\x00' ∉ decimal i := not_mem_decimal (by decide) (by decide)
      simp [NulFree, hdec]
    · simpa [NulFree] using List.all_eq_true.mp commonSettings_nulFree setting hcommon
  exact isLine_iff.mpr ⟨by simp, NulFree.append (NulFree.append (by decide) ho) hfree⟩

section

variable {S : Surroundings} {w : World} {cmd : SwayrCommand} {m : NodeMenu}

/-- The user closes every menu without an answer. -/
structure Cancels (S : Surroundings) (w : World) : Prop where
  program : ∀ k exe args inp, S.program k exe args inp = some []
  swayrCommands : w.answer = none

theorem selectCommand_cancelled (hcancel : Cancels S w) {cmds : List Text}
    (hcmds : ∀ t ∈ cmds, isLine t = true) (k : Nat) (prompt : String) :
    S.selectCommand k prompt cmds = some (.error []) := by
  refine selectFromMenu_of_not_line (fun c _ => rfl)
    (fun c hc => (isLine_iff.mp (hcmds c hc)).2) ?_ (hcancel.program k _ _ _)
  intro hmem
  obtain ⟨t, ht, hnil⟩ := List.mem_map.mp hmem
  exact (isLine_iff.mp (hcmds t ht)).1 hnil

/-- Nothing that is offered is an empty line. -/
theorem select_cancelled (h : Ordinary S w) (hcancel : Cancels S w)
    (hmenu : nodeMenu S w cmd = some m) : S.select m.prompt m.choices = some (.error []) := by
  have hlines := h.lines hmenu
  refine selectFromMenu_of_not_line hlines.line hlines.nulFree ?_ (hcancel.program 0 _ _ _)
  intro hmem
  obtain ⟨d, hd, hnil⟩ := List.mem_map.mp hmem
  exact hlines.ne_nil d hd hnil

end

/-- The commands that open a menu. -/
def opensMenu : SwayrCommand → Bool
  | .executeSwaymsgCommand | .configureOutputs | .executeSwayrCommand => true
  | .switchWindow | .stealWindow | .stealWindowOrContainer | .switchWorkspace | .switchOutput
  | .switchWorkspaceOrWindow | .switchWorkspaceContainerOrWindow | .switchTo | .quitWindow _
  | .quitWorkspaceOrWindow | .quitWorkspaceContainerOrWindow | .moveFocusedToWorkspace
  | .moveFocusedTo | .swapFocusedWith => true
  | _ => false

/-- The commands that take input for the name of a workspace without looking whether
there is any. -/
def movesFocused : SwayrCommand → Bool
  | .moveFocusedToWorkspace | .moveFocusedTo | .swapFocusedWith => true
  | _ => false

section

variable {σ : Type} (E : RegexEngine) {S : Surroundings} (C : SwayConnection σ) {w : World}
  {cmd : SwayrCommand}

/-- What is asked of sway after a menu is closed. -/
theorem runCommand_cancelled (h : Ordinary S w) (hcancel : Cancels S w)
    (hopens : opensMenu cmd = true) :
    runCommand E S C cmd w =
      if movesFocused cmd then [.request (.moveToWorkspace [])] else [] := by
  cases hmenu : nodeMenu S w cmd with
  | some m =>
      rw [runCommand_nodeMenu E C hmenu, NodeMenu.run, select_cancelled h hcancel hmenu]
      -- what is left is what each command does with an empty input
      cases cmd <;> first
        | (cases hmenu; rfl)
        | cases hmenu
  | none =>
      cases cmd with
      | executeSwayrCommand => rfl
      | executeSwaymsgCommand =>
          have hselect := selectCommand_cancelled hcancel
            (fun t ht => isLine_getSwaymsgCommands ht) 0 "Execute swaymsg command"
          simp [runCommand, execSwaymsgCommand, hselect, outgoing, movesFocused]
      | configureOutputs =>
          have hcmds : ∀ t ∈ sortTexts (S.outputs.flatMap outputCommands), isLine t = true := by
            intro t ht
            obtain ⟨o, ho, hto⟩ := List.mem_flatMap.mp (mem_sortTexts.mp ht)
            exact isLine_outputCommands (h.outputs o ho) hto
          have hselect := selectCommand_cancelled hcancel hcmds 0 "Output command"
          rw [runCommand, configureOutputs]
          cases S.rounds with
          | zero => rfl
          | succ rounds => rw [outputMenus, hselect]; rfl
      | _ => simp [nodeMenu, opensMenu] at hmenu hopens

/-- The switch data are left alone. -/
theorem runSwitch_cancelled (hcancel : Cancels S w) (hopens : opensMenu cmd = true)
    (stm : SwitchToMatchingData) : runSwitch E w cmd stm = some (stm, []) := by
  cases cmd with
  | executeSwayrCommand => simp only [runSwitch, hcancel.swayrCommands]
  | switchToUrgentOrLRUWindow | switchToAppOrUrgentOrLRUWindow | switchToMarkOrUrgentOrLRUWindow
  | switchToMatchingOrUrgentOrLRUWindow => cases hopens
  | _ => rfl

end

section

variable {σ : Type} (E : RegexEngine) (S : Surroundings) (C : SwayConnection σ) (w : World)
  (cmd : SwayrCommand)

/-- **A menu closed without an answer.** The command does what every command begins
with, and then nothing, except for the commands that move or swap the focused
container: these ask sway to move it to the workspace with the empty name. -/
theorem cancelled_menu (h : Ordinary S w) (hcancel : Cancels S w) (hopens : opensMenu cmd = true)
    (s : CmdState) :
    execSwayrCmd E (runCommand E S C) w cmd s =
      (some ⟨cmd, s.startData cmd⟩,
        (s.startActions cmd).map .switch ++ [.sent .tickUpdateActivate] ++
          if movesFocused cmd then [.other (.request (.moveToWorkspace []))] else []) := by
  have hsent : cmd.isPrevNextWindowVariant = false := by
    cases cmd <;> first
      | rfl
      | cases hopens
  have hother : otherEvents (runCommand E S C) w cmd =
      if movesFocused cmd then [.other (.request (.moveToWorkspace []))] else [] := by
    have hrun := runCommand_cancelled E C h hcancel hopens
    cases cmd <;> first
      | (cases hopens; done)
      | (simp only [otherEvents, hrun]; rfl)
  simp only [execSwayrCmd, runSwitch_cancelled E hcancel hopens, hsent, hother, List.map_nil,
    List.append_nil, Bool.false_eq_true, if_false]

end

theorem cancels_printing_nil : Cancels (printing []) twins := ⟨fun _ _ _ _ => rfl, rfl⟩

/-- A cancelled menu, after which the command is still the last one. -/
theorem cancelled_menu_moveFocusedTo :
    Ordinary (printing []) twins ∧
      execSwayrCmd .matchAll (runCommand .matchAll (printing []) refused) twins .moveFocusedTo
          .init =
        (some ⟨.moveFocusedTo, CmdState.init.startData .moveFocusedTo⟩,
          [.switch .reset, .sent .tickUpdateActivate,
            .other (.request (.moveToWorkspace []))]) :=
  ⟨ordinary_twins [], cancelled_menu .matchAll (printing []) refused twins .moveFocusedTo
    (ordinary_twins []) cancels_printing_nil rfl .init⟩

end Swayr.Theorems.MenuActions
