import Swayr.Cmds.Dispatch
import Swayr.Tree.Refocus

/-!
# Sweeps

A *sweep* is what a run of next/prev commands goes through: the windows of one
kind, or those matching one query. Several commands belong to the same sweep, the
two directions and, for three of the kinds, those "of the same layout". Which
windows are in a sweep does not depend on which of them is focused, and their
order depends on the ticks of the windows only.
-/

namespace Swayr

open Ipc Ipc.Node Swayr.Tree Focus

/-! ## What the predicates see of the focus -/

section view

variable (g : Int) {root : Node} (h : DistinctIds root)

theorem Ipc.Node.layout_refocus (n : Node) : (n.refocus g).layout = n.layout := by
  cases n; rfl

theorem Ipc.Node.isFloating_refocus (n : Node) : (n.refocus g).isFloating = n.isFloating := by
  cases n; rfl

/-- The parent's layout, as the predicates look it up. -/
theorem layout_getParentNode_focusView {n : Node} (hn : n ∈ root.preorder) (f : Int) :
    ((focusView g h n hn).getParentNode).map Node.layout =
      ((focusView f h n hn).getParentNode).map Node.layout := by
  have hparent : ∃ l : Option NodeLayout, ∀ g : Int,
      ((focusView g h n hn).getParentNode).map Node.layout = l := by
    obtain ⟨rest, hl⟩ := exists_lineage hn
    generalize hnodes : n :: rest = nodes at hl
    cases hl with
    | root =>
        obtain ⟨rfl, -⟩ := List.cons.inj hnodes
        refine ⟨none, fun g => ?_⟩
        rw [(focusView g h n hn).getParentNode_eq (r := none)]
        · rfl
        · exact (focusTree g h).getParentNode_root
    | @child p c l hp hc =>
        obtain ⟨rfl, -⟩ := List.cons.inj hnodes
        refine ⟨some p.layout, fun g => ?_⟩
        have hpg : p.refocus g ∈ (focusTree g h).root.preorder := by
          show p.refocus g ∈ (root.refocus g).preorder
          rw [preorder_refocus]
          exact List.mem_map_of_mem hp.mem
        have hcg : n.refocus g ∈ (p.refocus g).children := by
          rw [children_refocus]
          exact List.mem_map_of_mem hc
        rw [(focusView g h n hn).getParentNode_eq ((focusTree g h).getParentNode_child hpg hcg)]
        exact congrArg some (layout_refocus g p)
  obtain ⟨l, hl⟩ := hparent
  rw [hl g, hl f]

/-- Layouts do not depend on the focus. -/
theorem isChildOfTiledContainer_focusView {n : Node} (hn : n ∈ root.preorder) (f : Int) :
    (focusView g h n hn).isChildOfTiledContainer =
      (focusView f h n hn).isChildOfTiledContainer := by
  have hlayout := layout_getParentNode_focusView g h hn f
  unfold DisplayNode.isChildOfTiledContainer
  cases hg : (focusView g h n hn).getParentNode <;>
    cases hf : (focusView f h n hn).getParentNode <;> simp_all

theorem isChildOfTabbedOrStackedContainer_focusView {n : Node} (hn : n ∈ root.preorder)
    (f : Int) :
    (focusView g h n hn).isChildOfTabbedOrStackedContainer =
      (focusView f h n hn).isChildOfTabbedOrStackedContainer := by
  have hlayout := layout_getParentNode_focusView g h hn f
  unfold DisplayNode.isChildOfTabbedOrStackedContainer
  cases hg : (focusView g h n hn).getParentNode <;>
    cases hf : (focusView f h n hn).getParentNode <;> simp_all

end view

namespace Criteria

variable {E : RegexEngine}

def RegexOrFocused.fixed : RegexOrFocused E → Bool
  | .regex _ => true
  | .focused => false

mutual
/-- The query does not mention the focused window. -/
def Criterion.fixed : Criterion E → Bool
  | .and cs => fixedAll cs
  | .or cs => fixedAll cs
  | .not c => c.fixed
  | .appId v | .class_ v | .instance_ v | .appName v | .title v | .workspace v => v.fixed
  | .conId (.i64 _) | .shell (.shellType _) => true
  | .conId .focused | .shell .focused => false
  | .conMark _ | .pid _ | .floating | .tiling => true
def Criterion.fixedAll : List (Criterion E) → Bool
  | [] => true
  | c :: cs => c.fixed && fixedAll cs
end

theorem Criterion.fixedAll_iff {cs : List (Criterion E)} :
    fixedAll cs = true ↔ ∀ c ∈ cs, c.fixed = true := by
  induction cs with
  | nil => simp [fixedAll]
  | cons c cs ih => simp [fixedAll, ih]

theorem Criterion.fixed_parts {c : Criterion E} (h : c.fixed = true) :
    ∀ d ∈ c.parts, d.fixed = true := by
  cases c with
  | and cs => exact fixedAll_iff.mp (by simpa [fixed, parts] using h)
  | or cs => exact fixedAll_iff.mp (by simpa [fixed, parts] using h)
  | not c => simpa [parts, fixed] using h
  | _ => simp [parts]

section view

variable (g f : Int) {root : Node} (h : DistinctIds root)

/-- Nor does the workspace a window is on. -/
theorem workspaceName_focusView {n : Node} (hn : n ∈ root.preorder) :
    (workspaceOf (focusView g h n hn)).map Node.getName =
      (workspaceOf (focusView f h n hn)).map Node.getName := by
  have hname : ∀ g, Node.getName ∘ Node.refocus g = Node.getName := by
    intro g
    funext m
    cases m; rfl
  obtain ⟨rest, hl⟩ := exists_lineage hn
  rw [workspaceOf, workspaceOf, getParentNodeOfType_focusView g h _ hl hn,
    getParentNodeOfType_focusView f h _ hl hn, Option.map_map, Option.map_map, hname, hname]

/-- The windows differ in the focus at most, as far as queries see them. -/
structure SameAttributes (w w' : DisplayNode) : Prop where
  props : refocusProps 0 w.node.props = refocusProps 0 w'.node.props
  workspace : (workspaceOf w).map Node.getName = (workspaceOf w').map Node.getName

theorem sameAttributes_focusView {n : Node} (hn : n ∈ root.preorder) :
    SameAttributes (focusView g h n hn) (focusView f h n hn) where
  props := by
    show refocusProps 0 (n.refocus g).props = refocusProps 0 (n.refocus f).props
    rw [props_refocus, props_refocus]
    rfl
  workspace := workspaceName_focusView g f h hn

end view

/-- Without `__focused__` only the window itself is looked at. -/
theorem evalText_fixed (attr : DisplayNode → Option String) {v : RegexOrFocused E}
    (hv : v.fixed = true) {w w' : DisplayNode} (hattr : attr w = attr w')
    (focused focused' : Option DisplayNode) :
    evalText attr v w focused = evalText attr v w' focused' := by
  cases v with
  | regex rx => simp [evalText, hattr]
  | focused => cases hv

/-- A query that does not mention the focused window does not depend on it. -/
theorem evalCriterion_fixed {c : Criterion E} (hc : c.fixed = true) {w w' : DisplayNode}
    (h : SameAttributes w w') (focused focused' : Option DisplayNode) :
    evalCriterion c w focused = evalCriterion c w' focused' := by
  have hprops : ∀ {α : Type} (attr : NodeProps → α),
      attr (refocusProps 0 w.node.props) = attr (refocusProps 0 w'.node.props) :=
    fun attr => congrArg attr h.props
  induction c using Criterion.induct with
  | h c ih =>
      have hparts : ∀ d ∈ c.parts, evalCriterion d w focused = evalCriterion d w' focused' :=
        fun d hd => ih d hd (Criterion.fixed_parts hc d hd)
      clear ih
      -- A leaf reads the window's attributes; those with `__focused__` are not fixed.
      cases c with
      | and cs =>
          rw [evalCriterion, evalCriterion, evalCriteria_eq, evalCriteria_eq]
          exact congrArg (List.all · _) (List.map_congr_left hparts)
      | or cs =>
          rw [evalCriterion, evalCriterion, evalCriteria_eq, evalCriteria_eq]
          exact congrArg (List.any · _) (List.map_congr_left hparts)
      | not c => rw [evalCriterion, evalCriterion, hparts c List.mem_cons_self]
      | appId v =>
          rw [evalCriterion, evalCriterion]
          exact evalText_fixed _ hc (hprops fun p => p.appId) _ _
      | class_ v =>
          rw [evalCriterion, evalCriterion]
          exact evalText_fixed _ hc (hprops fun p => p.windowProperties.bind (·.class_)) _ _
      | instance_ v =>
          rw [evalCriterion, evalCriterion]
          exact evalText_fixed _ hc (hprops fun p => p.windowProperties.bind (·.instance_)) _ _
      | title v =>
          rw [evalCriterion, evalCriterion]
          exact evalText_fixed _ hc (hprops fun p => p.name) _ _
      | appName v =>
          cases v with
          | regex rx =>
              rw [evalCriterion, evalCriterion]
              exact congrArg rx.isMatch
                (hprops fun p => (Node.mk p [] []).getAppName)
          | focused => cases hc
      | workspace v =>
          cases v with
          | regex rx =>
              rw [evalCriterion, evalCriterion]
              exact congrArg (isSomeAndRxMatches · rx) h.workspace
          | focused => cases hc
      | conId v =>
          cases v with
          | i64 id =>
              rw [evalCriterion, evalCriterion]
              exact hprops fun p => p.id == id.1
          | focused => cases hc
      | shell v =>
          cases v with
          | shellType t =>
              rw [evalCriterion, evalCriterion]
              exact hprops fun p => p.shell == some t
          | focused => cases hc
      | conMark rx =>
          rw [evalCriterion, evalCriterion]
          exact hprops fun p => p.marks.any fun m => rx.isMatch m
      | pid pid =>
          rw [evalCriterion, evalCriterion]
          exact hprops fun p => p.pid == some pid.1
      | floating =>
          rw [evalCriterion, evalCriterion]
          exact hprops fun p => p.nodeType == .floatingCon
      | tiling =>
          rw [evalCriterion, evalCriterion]
          exact hprops fun p => !(p.nodeType == .floatingCon)

end Criteria

namespace Cmds

open Criteria

/-! ## Sweeps -/

def SwayrCommand.direction : SwayrCommand → Option Direction
  | nextWindow _ | nextTiledWindow _ | nextTabbedOrStackedWindow _ | nextFloatingWindow _
  | nextWindowOfSameLayout _ | nextMatchingWindow _ => some .forward
  | prevWindow _ | prevTiledWindow _ | prevTabbedOrStackedWindow _ | prevFloatingWindow _
  | prevWindowOfSameLayout _ | prevMatchingWindow _ => some .backward
  | _ => none

/-- The kinds of windows the commands tell apart. -/
inductive WindowKind
  | any
  | tiled
  | tabbedOrStacked
  | floating
deriving DecidableEq, Repr

def WindowKind.pred : WindowKind → DisplayNode → Bool
  | any => alwaysTrue
  | tiled => tiledWindow
  | tabbedOrStacked => tabbedOrStackedWindow
  | floating => floatingWindow

inductive Sweep
  | windows (kind : WindowKind) (considerWins : ConsiderWindows)
  | matching (criteria : String)
deriving DecidableEq, Repr

namespace Sweep

def considerWins : Sweep → ConsiderWindows
  | windows _ c => c
  | matching _ => .allWorkspaces

/-- The windows that take part; a query that does not parse has none. -/
def pred (E : RegexEngine) : Sweep → DisplayNode → Bool
  | windows kind _, d => kind.pred d
  | matching criteria, d =>
      match (parseCriteria criteria : Option (Criterion E)) with
      | some crit => evalCriterion crit d none
      | none => false

/-- Queries do not mention the focused window. -/
def Fixed (E : RegexEngine) : Sweep → Prop
  | windows _ _ => True
  | matching criteria =>
      ∀ crit, (parseCriteria criteria : Option (Criterion E)) = some crit → crit.fixed = true

/-- The commands of a sweep. A window of none of the three kinds sends the commands
"of the same layout" to windows of any kind, so these are not for `any`. -/
def commands : Sweep → Direction → List SwayrCommand
  | windows .any c, .forward => [.nextWindow c]
  | windows .any c, .backward => [.prevWindow c]
  | windows .tiled c, .forward => [.nextTiledWindow c, .nextWindowOfSameLayout c]
  | windows .tiled c, .backward => [.prevTiledWindow c, .prevWindowOfSameLayout c]
  | windows .tabbedOrStacked c, .forward =>
      [.nextTabbedOrStackedWindow c, .nextWindowOfSameLayout c]
  | windows .tabbedOrStacked c, .backward =>
      [.prevTabbedOrStackedWindow c, .prevWindowOfSameLayout c]
  | windows .floating c, .forward => [.nextFloatingWindow c, .nextWindowOfSameLayout c]
  | windows .floating c, .backward => [.prevFloatingWindow c, .prevWindowOfSameLayout c]
  | matching q, .forward => [.nextMatchingWindow q]
  | matching q, .backward => [.prevMatchingWindow q]

/-- The ids of the windows of the sweep, in the order of the window list. -/
def ids (E : RegexEngine) (r : Sweep) (t : Tree) (ticks : TickMap) : List Int :=
  matchingIds t ticks r.considerWins (r.pred E)

/-- The commands of a sweep go in one direction. -/
theorem direction_of_mem {r : Sweep} {dir : Direction} {cmd : SwayrCommand}
    (h : cmd ∈ r.commands dir) : cmd.direction = some dir := by
  cases r with
  | windows kind c =>
      cases kind <;> cases dir <;>
        simp only [commands, List.mem_cons, List.not_mem_nil, or_false] at h
      case any.backward => subst h; rfl
      case any.forward => subst h; rfl
      all_goals rcases h with rfl | rfl <;> rfl
  | matching q =>
      cases dir <;>
        · obtain rfl := List.mem_singleton.mp h
          rfl

/-- The windows of a sweep do not depend on the focus. -/
theorem pred_focusView {E : RegexEngine} {r : Sweep} (hfixed : r.Fixed E) (g f : Int)
    {root : Node} (h : DistinctIds root) {n : Node} (hn : n ∈ root.preorder) :
    r.pred E (focusView g h n hn) = r.pred E (focusView f h n hn) := by
  have hfloating : (focusView g h n hn).node.isFloating = (focusView f h n hn).node.isFloating :=
    (isFloating_refocus g n).trans (isFloating_refocus f n).symm
  cases r with
  | windows kind c =>
      cases kind with
      | any => rfl
      | tiled =>
          simp only [pred, WindowKind.pred, tiledWindow, hfloating,
            isChildOfTiledContainer_focusView g h hn f]
      | tabbedOrStacked =>
          simp only [pred, WindowKind.pred, tabbedOrStackedWindow, hfloating,
            isChildOfTabbedOrStackedContainer_focusView g h hn f]
      | floating => exact hfloating
  | matching criteria =>
      simp only [pred]
      cases hparse : (parseCriteria criteria : Option (Criterion E)) with
      | none => rfl
      | some crit =>
          exact evalCriterion_fixed (hfixed crit hparse) (sameAttributes_focusView g f h hn) _ _

end Sweep

/-! ## The order and the ticks -/

/-- The two tick maps agree on the nodes of a tree. -/
def SameTicks (root : Node) (a b : TickMap) : Prop :=
  ∀ n ∈ root.preorder, a.lastFocusTick n.id = b.lastFocusTick n.id

section ticks

variable {a b : TickMap}

/-- Ticks matter only for the nodes of the tree. -/
theorem windowNodes_congr {root : Node} (h : SameTicks root a b) :
    windowNodes a root = windowNodes b root := by
  have hcmp : ∀ m ∈ root.nodesOfType .window, ∀ n ∈ root.nodesOfType .window,
      urgencyAndLruCmp a m n = urgencyAndLruCmp b m n := by
    intro m hm n hn
    rw [urgencyAndLruCmp, urgencyAndLruCmp, h m (Node.mem_nodesOfType.mp hm).1,
      h n (Node.mem_nodesOfType.mp hn).1]
  rw [windowNodes, windowNodes, sortedNodesOfType1, sortedNodesOfType1, sortByUrgencyAndLruTime1,
    sortByUrgencyAndLruTime1, Kit.sortBy_congr hcmp]

theorem getWindows_congr {t : Tree} (h : SameTicks t.root a b) :
    t.getWindows a = t.getWindows b := by
  unfold Tree.getWindows
  simp only [windowNodes_congr h]

theorem matchingIds_congr {t : Tree} (h : SameTicks t.root a b) (c : ConsiderWindows)
    (pred : DisplayNode → Bool) : matchingIds t a c pred = matchingIds t b c pred := by
  rw [matchingIds, matchingIds, matchingWindows, matchingWindows, getWindows_congr h]

/-- Ticks matter only for the windows in the cycle. -/
theorem cyclicOrder_congr {ids : List Int}
    (h : ∀ i ∈ ids, a.lastFocusTick i = b.lastFocusTick i) (dir : Direction) :
    cyclicOrder a dir ids = cyclicOrder b dir ids := by
  have hsort : Kit.sortBy (lruIdCmp a) ids = Kit.sortBy (lruIdCmp b) ids :=
    Kit.sortBy_congr fun i hi j hj => by rw [lruIdCmp, lruIdCmp, h i hi, h j hj]
  cases dir with
  | forward => rw [cyclicOrder, cyclicOrder, hsort]
  | backward => rw [cyclicOrder, cyclicOrder, hsort]

theorem mem_preorder_of_mem_matchingIds {t : Tree} {c : ConsiderWindows}
    {pred : DisplayNode → Bool} {i : Int} (h : i ∈ matchingIds t a c pred) :
    ∃ n ∈ t.root.preorder, n.id = i := by
  obtain ⟨d, hd, rfl⟩ := List.mem_map.mp h
  have hnode : d.node ∈ windowNodes a t.root := by
    rw [← t.getWindows_node a]
    exact List.mem_map_of_mem (List.mem_filter.mp hd).1
  exact ⟨d.node, (mem_windowNodes.mp hnode).1, rfl⟩

end ticks

/-! ## The commands of a sweep -/

/-- The search looks at the windows that match and at no others. -/
theorem focusWindowInDirection1_congr {wins : List DisplayNode} {p q : DisplayNode → Bool}
    (h : ∀ d ∈ wins, p d = q d) (fuel : Nat) (dir : Direction) (ticks : TickMap) :
    focusWindowInDirection1 fuel wins dir ticks p =
      focusWindowInDirection1 fuel wins dir ticks q := by
  have hfilter : wins.filter p = wins.filter q := List.filter_congr h
  unfold focusWindowInDirection1
  by_cases hq : wins.filter q = []
  · rw [dif_pos hq, dif_pos (hfilter.trans hq)]
  · have hp : wins.filter p ≠ [] := by rwa [hfilter]
    have hcycle := Kit.cycleAt_congr
      (congrArg (fun matching => iterated dir (Kit.sortBy (lruCmp ticks) matching)) hfilter)
      (iterated_ne_nil hp) (iterated_ne_nil hq)
    rw [dif_neg hq, dif_neg hp]
    simp only [hcycle, hfilter]

/-- The world with the focus on `g`, and other ticks. -/
def World.focusing (w : World) (g : Int) (ticks : TickMap) : World where
  swayRoot := w.swayRoot.refocus g
  distinct := w.distinct.refocus g
  ticks := ticks
  answer := w.answer

section commands

variable {σ : Type} {E : RegexEngine} {S : Surroundings} {C : SwayConnection σ} {r : Sweep}
  {cmd : SwayrCommand} {dir : Direction}

theorem readTree_focusing (w : World) (g : Int) (ticks : TickMap) :
    readTree (w.focusing g ticks).swayRoot (w.focusing g ticks).distinct =
      focusTree g (w.distinct.getRootNode false) :=
  Tree.ext_root (getRootNode_refocus g w.swayRoot false)

/-- The windows after the focus has moved to `g`. -/
theorem wins_focusing (w : World) (g : Int) (ticks : TickMap) :
    (w.focusing g ticks).wins = (focusTree g (w.distinct.getRootNode false)).getWindows ticks := by
  rw [World.wins, readTree_focusing]
  rfl

/-- The focused window is of the kind that its predicate says. -/
theorem sameLayoutAs_eq {kind : WindowKind} (hkind : kind ≠ .any) {d : DisplayNode}
    (h : kind.pred d = true) : sameLayoutAs d = kind.pred := by
  cases kind with
  | any => exact absurd rfl hkind
  | floating =>
      have hfloating : d.node.isFloating = true := h
      rw [sameLayoutAs, if_pos hfloating]
      rfl
  | tabbedOrStacked =>
      obtain ⟨hfloating, htabbed⟩ := (Bool.and_eq_true _ _).mp h
      rw [Bool.not_eq_true'] at hfloating
      simp only [sameLayoutAs, hfloating, htabbed]
      rfl
  | tiled =>
      obtain ⟨hfloating, htiled⟩ := (Bool.and_eq_true _ _).mp h
      rw [Bool.not_eq_true'] at hfloating
      have htabbed : d.isChildOfTabbedOrStackedContainer = false := by
        revert htiled
        unfold DisplayNode.isChildOfTiledContainer DisplayNode.isChildOfTabbedOrStackedContainer
        cases d.getParentNode with
        | none => simp
        | some p => cases hl : p.layout <;> simp [hl]
      simp only [sameLayoutAs, hfloating, htiled, htabbed]
      rfl

/-- "Of the same layout" is of the kind of the focused window. -/
theorem nextOrPrevOfSameLayout_eq {kind : WindowKind} (hkind : kind ≠ .any) {w : World} {g : Int}
    (hfocused : ∀ d ∈ w.wins, d.node.focused = true ↔ d.node.id = g) {d : DisplayNode}
    (hd : d ∈ w.wins) (hg : d.node.id = g) (hpred : kind.pred d = true) (dir : Direction)
    (c : ConsiderWindows) : nextOrPrevOfSameLayout w dir c = nextOrPrev w dir c kind.pred := by
  obtain ⟨cur, hcur⟩ : ∃ cur, w.wins.find? (·.node.focused) = some cur := by
    rw [← Option.isSome_iff_exists, List.find?_isSome]
    exact ⟨d, hd, (hfocused d hd).mpr hg⟩
  have hmem := List.mem_of_find?_eq_some hcur
  have hfoc := List.find?_some hcur
  obtain rfl : cur = d := List.inj_on_of_nodup_map w.wins_ids_nodup hmem hd
    (((hfocused cur hmem).mp hfoc).trans hg.symm)
  rw [nextOrPrevOfSameLayout, focusWindowOfSameLayoutInDirection, ← World.wins, hcur]
  simp only [sameLayoutAs_eq hkind hpred]
  rfl

/-- A query that does not mention the focused window need not look for it. -/
theorem nextOrPrevMatching_eq {criteria : String} (hfixed : (Sweep.matching criteria).Fixed E)
    (w : World) (dir : Direction) :
    nextOrPrevMatching E w dir criteria =
      nextOrPrev w dir .allWorkspaces ((Sweep.matching criteria).pred E) := by
  rw [nextOrPrevMatching, nextOrPrev, focusMatchingWindowInDirection, focusWindowInDirection,
    ← World.wins]
  cases hparse : (parseCriteria criteria : Option (Criterion E)) with
  | some crit =>
      have hpred : ∀ d ∈ w.wins,
          criterionToPredicate crit w.wins d = (Sweep.matching criteria).pred E d := by
        intro d _
        simp only [Sweep.pred, hparse]
        exact evalCriterion_fixed (hfixed crit hparse) ⟨rfl, rfl⟩ _ _
      simp only
      rw [focusWindowInDirection1_congr hpred]
  | none =>
      have hnone : w.wins.filter ((Sweep.matching criteria).pred E) = [] := by
        rw [List.filter_eq_nil_iff]
        intro d _
        simp [Sweep.pred, hparse]
      rw [focusWindowInDirection1, dif_pos hnone]

end commands

end Cmds

end Swayr
