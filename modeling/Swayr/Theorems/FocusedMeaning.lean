import Swayr.Criteria.Eval

/-!
# What `__focused__` means

The reference semantics of queries: combinators are the logical connectives, a
regex matches the attribute's value, and `k=__focused__` holds if the window
and the focused window both have the attribute and the values are equal. Workspaces
may be compared by whatever tells them apart, as their names do in sway.

The code departs from it in one place: `app_name=__focused__` compares with
`!=`. So the code gives a query the reference value that the query has with
these leaves negated, and the two agree on exactly those windows on which the
query does not depend on them (`focused_meaning`).
-/

namespace Swayr.Theorems.FocusedMeaning

open Criteria Ipc Swayr.Tree

variable {E : RegexEngine} {β : Type}

/-! ## Reference semantics -/

/-- Both windows have the attribute, with equal values. -/
def BothEqual {α : Type} (attr : DisplayNode → Option α) (w f : DisplayNode) : Prop :=
  ∃ v, attr w = some v ∧ attr f = some v

def TextHolds (attr : DisplayNode → Option String) (v : RegexOrFocused E)
    (w f : DisplayNode) : Prop :=
  match v with
  | .regex rx => ∃ s, attr w = some s ∧ rx.isMatch s = true
  | .focused => BothEqual attr w f

/-- An attribute every window has. -/
theorem bothEqual_some {α : Type} (g : DisplayNode → α) (w f : DisplayNode) :
    BothEqual (fun d => some (g d)) w f ↔ g w = g f := by
  constructor
  · rintro ⟨v, hw, hf⟩
    exact (Option.some.inj hw).trans (Option.some.inj hf).symm
  · exact fun h => ⟨g f, congrArg some h, rfl⟩

/-- Equal keys mean equal workspaces of the tree. -/
def TellsApart (t : Tree) (key : Node → β) : Prop :=
  ∀ v ∈ t.root.preorder, ∀ u ∈ t.root.preorder,
    v.getType = .workspace → u.getType = .workspace → key v = key u → v = u

/-- Every window has an application name: the code has a fallback for it. -/
def appNameOf (d : DisplayNode) : Option String := some d.node.getAppName

def conIdOf (d : DisplayNode) : Option Int := some d.node.id

mutual
/-- The query holds of `w` while `f` is focused, workspaces being compared by `key`. -/
def Holds (key : Node → β) (w f : DisplayNode) (c : Criterion E) : Prop :=
  match c with
  | .and cs => ∀ p ∈ HoldsEach key w f cs, p
  | .or cs => ∃ p ∈ HoldsEach key w f cs, p
  | .not c => ¬ Holds key w f c
  | .appId v => TextHolds appIdOf v w f
  | .appName v => TextHolds appNameOf v w f
  | .class_ v => TextHolds classOf v w f
  | .instance_ v => TextHolds instanceOf v w f
  | .title v => TextHolds titleOf v w f
  | .shell (.shellType t) => shellOf w = some t
  | .shell .focused => BothEqual shellOf w f
  | .conId (.i64 id) => conIdOf w = some id.1
  | .conId .focused => BothEqual conIdOf w f
  | .workspace (.regex rx) => ∃ ws, workspaceOf w = some ws ∧ rx.isMatch ws.getName = true
  | .workspace .focused => BothEqual (fun d => (workspaceOf d).map key) w f
  | .conMark rx => ∃ m ∈ w.node.props.marks, rx.isMatch m = true
  | .pid pid => w.node.props.pid = some pid.1
  | .floating => w.node.isFloating = true
  | .tiling => w.node.isFloating = false
def HoldsEach (key : Node → β) (w f : DisplayNode) (cs : List (Criterion E)) : List Prop :=
  match cs with
  | [] => []
  | c :: cs => Holds key w f c :: HoldsEach key w f cs
end

theorem holdsEach_eq (key : Node → β) (w f : DisplayNode) (cs : List (Criterion E)) :
    HoldsEach key w f cs = cs.map (Holds key w f) := by
  induction cs with
  | nil => rw [HoldsEach, List.map_nil]
  | cons c cs ih => rw [HoldsEach, ih, List.map_cons]

/-- Conjunction of the parts. -/
theorem holds_and {key : Node → β} {w f : DisplayNode} {cs : List (Criterion E)} :
    Holds key w f (.and cs) ↔ ∀ c ∈ cs, Holds key w f c := by
  rw [Holds, holdsEach_eq, List.forall_mem_map]

/-- Disjunction of the parts. -/
theorem holds_or {key : Node → β} {w f : DisplayNode} {cs : List (Criterion E)} :
    Holds key w f (.or cs) ↔ ∃ c ∈ cs, Holds key w f c := by
  rw [Holds, holdsEach_eq]
  constructor
  · rintro ⟨p, hp, h⟩
    obtain ⟨c, hc, rfl⟩ := List.mem_map.mp hp
    exact ⟨c, hc, h⟩
  · rintro ⟨c, hc, h⟩
    exact ⟨_, List.mem_map.mpr ⟨c, hc, rfl⟩, h⟩

theorem holds_not {key : Node → β} {w f : DisplayNode} {c : Criterion E} :
    Holds key w f (.not c) ↔ ¬ Holds key w f c := by
  rw [Holds]

/-- Every window has an application name, so only the values count. -/
theorem holds_appName_focused {key : Node → β} {w f : DisplayNode} :
    Holds key w f (.appName (.focused : RegexOrFocused E)) ↔
      w.node.getAppName = f.node.getAppName := by
  rw [Holds]
  exact bothEqual_some (·.node.getAppName) w f

/-- Being on the focused window's workspace, by whatever tells workspaces apart. -/
theorem bothEqual_workspace {t : Tree} {key : Node → β} (hkey : TellsApart t key)
    {w f : DisplayNode} (hw : w.tree = t) (hf : f.tree = t) :
    BothEqual (fun d => (workspaceOf d).map key) w f ↔ BothEqual workspaceOf w f := by
  have hmem : ∀ d : DisplayNode, ∀ v, workspaceOf d = some v →
      v ∈ d.tree.root.preorder ∧ v.getType = .workspace := by
    intro d v hv
    obtain ⟨rest, hl, heq⟩ := d.getParentNodeOfType_eq .workspace
    rw [workspaceOf, heq] at hv
    exact ⟨hl.mem_all v (List.mem_of_find?_eq_some hv), by simpa using List.find?_some hv⟩
  constructor
  · rintro ⟨k, hwk, hfk⟩
    obtain ⟨v, hv, hvk⟩ := Option.map_eq_some_iff.mp hwk
    obtain ⟨u, hu, huk⟩ := Option.map_eq_some_iff.mp hfk
    obtain ⟨hvm, hvt⟩ := hmem w v hv
    obtain ⟨hum, hut⟩ := hmem f u hu
    rw [hw] at hvm
    rw [hf] at hum
    obtain rfl := hkey v hvm u hum hvt hut (hvk.trans huk.symm)
    exact ⟨v, hv, hu⟩
  · rintro ⟨v, hwv, hfv⟩
    exact ⟨key v, by simp [hwv], by simp [hfv]⟩

/-! ## Replacing the leaves in question -/

mutual
/-- The query with `r` in place of every `app_name=__focused__`. -/
def replaceAppNameFocused (r : Criterion E) (c : Criterion E) : Criterion E :=
  match c with
  | .and cs => .and (replaceEach r cs)
  | .or cs => .or (replaceEach r cs)
  | .not c => .not (replaceAppNameFocused r c)
  | .appName .focused => r
  | c => c
def replaceEach (r : Criterion E) (cs : List (Criterion E)) : List (Criterion E) :=
  match cs with
  | [] => []
  | c :: cs => replaceAppNameFocused r c :: replaceEach r cs
end

theorem replaceEach_eq (r : Criterion E) (cs : List (Criterion E)) :
    replaceEach r cs = cs.map (replaceAppNameFocused r) := by
  induction cs with
  | nil => rw [replaceEach, List.map_nil]
  | cons c cs ih => rw [replaceEach, ih, List.map_cons]

/-- `[and]`, which always matches. -/
def always : Criterion E := .and []

/-- `[or]`, which never matches. -/
def never : Criterion E := .or []

theorem holds_always (key : Node → β) (w f : DisplayNode) : Holds key w f (always : Criterion E) :=
  holds_and.mpr (by simp)

theorem not_holds_never (key : Node → β) (w f : DisplayNode) :
    ¬ Holds key w f (never : Criterion E) := by
  rw [never, holds_or]
  simp

theorem holds_replace_and {key : Node → β} {w f : DisplayNode} {r : Criterion E}
    {cs : List (Criterion E)} :
    Holds key w f (replaceAppNameFocused r (.and cs)) ↔
      ∀ c ∈ cs, Holds key w f (replaceAppNameFocused r c) := by
  rw [replaceAppNameFocused, replaceEach_eq, holds_and, List.forall_mem_map]

theorem holds_replace_or {key : Node → β} {w f : DisplayNode} {r : Criterion E}
    {cs : List (Criterion E)} :
    Holds key w f (replaceAppNameFocused r (.or cs)) ↔
      ∃ c ∈ cs, Holds key w f (replaceAppNameFocused r c) := by
  rw [replaceAppNameFocused, replaceEach_eq, holds_or]
  simp

/-- Replacing the leaves by a query of the same value changes nothing. -/
theorem holds_replace {key : Node → β} {w f : DisplayNode} {r : Criterion E}
    (hr : Holds key w f r ↔ Holds key w f (.appName (.focused : RegexOrFocused E)))
    (c : Criterion E) :
    Holds key w f (replaceAppNameFocused r c) ↔ Holds key w f c := by
  induction c using Criterion.induct with
  | h c ih =>
      cases c with
      | and cs =>
          rw [holds_replace_and, holds_and]
          exact forall₂_congr ih
      | or cs =>
          rw [holds_replace_or, holds_or]
          exact exists_congr fun d => and_congr_right (ih d)
      | not c =>
          rw [replaceAppNameFocused, holds_not, holds_not, ih c (by simp [Criterion.parts])]
      | appName v =>
          cases v with
          | focused => rw [replaceAppNameFocused, hr]
          | regex rx => simp only [replaceAppNameFocused]
      | _ => simp only [replaceAppNameFocused]

/-! ## The code against the reference -/

/-- The window of a list that is focused, there being exactly one, and the
windows all belonging to one tree. -/
structure OneFocused (t : Tree) (wins : List DisplayNode) (f : DisplayNode) : Prop where
  focused : wins.filter (·.node.focused) = [f]
  tree : ∀ w ∈ wins, w.tree = t

namespace OneFocused

variable {t : Tree} {wins : List DisplayNode} {f w : DisplayNode}

theorem mem (h : OneFocused t wins f) : f ∈ wins ∧ f.node.focused = true := by
  have : f ∈ wins.filter (·.node.focused) := by
    rw [h.focused]
    exact List.mem_singleton_self f
  exact List.mem_filter.mp this

/-- The code takes the first focused window, and there is only one. -/
theorem find (h : OneFocused t wins f) : wins.find? (·.node.focused) = some f := by
  rw [← List.head?_filter, h.focused]
  rfl

/-- The focused flag marks the window with the focused window's id. -/
theorem focused_iff (h : OneFocused t wins f) (hw : w ∈ wins) :
    w.node.focused = true ↔ w.node.id = f.node.id := by
  obtain ⟨hf, hfoc⟩ := h.mem
  constructor
  · intro hwf
    have : w ∈ wins.filter (·.node.focused) := List.mem_filter.mpr ⟨hw, hwf⟩
    rw [h.focused, List.mem_singleton] at this
    rw [this]
  · intro hid
    have hwm := w.mem
    have hfm := f.mem
    rw [h.tree w hw] at hwm
    rw [h.tree f hf] at hfm
    rwa [t.distinct.node_eq hwm hfm hid]

end OneFocused

section

variable {t : Tree} {wins : List DisplayNode} {f w : DisplayNode}

theorem evalText_iff (attr : DisplayNode → Option String) (v : RegexOrFocused E) :
    evalText attr v w (some f) = true ↔ TextHolds attr v w f := by
  cases v <;> simp [evalText, TextHolds, BothEqual]

/-- The code's value is the reference value of the query with its
`app_name=__focused__` leaves read the wrong way round. -/
theorem eval_iff_replace (h : OneFocused t wins f) (hw : w ∈ wins) {key : Node → β}
    (hkey : TellsApart t key) {r : Criterion E}
    (hr : Holds key w f r ↔ ¬ Holds key w f (.appName (.focused : RegexOrFocused E)))
    (c : Criterion E) :
    evalCriterion c w (some f) = true ↔ Holds key w f (replaceAppNameFocused r c) := by
  induction c using Criterion.induct with
  | h c ih =>
      cases c with
      | and cs =>
          rw [holds_replace_and, evalCriterion_and]
          exact forall₂_congr ih
      | or cs =>
          rw [holds_replace_or, evalCriterion_or]
          exact exists_congr fun d => and_congr_right (ih d)
      | not c =>
          rw [replaceAppNameFocused, holds_not, evalCriterion_not,
            ih c (by simp [Criterion.parts])]
      | appName v =>
          cases v with
          | focused =>
              -- The leaf at fault: `!=` where the reference has equality.
              rw [replaceAppNameFocused, hr, holds_appName_focused]
              simp [evalCriterion]
          | regex rx => simp [replaceAppNameFocused, evalCriterion, Holds, TextHolds, appNameOf]
      | conId v =>
          cases v with
          | i64 id => simp [replaceAppNameFocused, evalCriterion, Holds, conIdOf]
          | focused =>
              simp only [replaceAppNameFocused, evalCriterion, Holds, h.focused_iff hw]
              exact (bothEqual_some (·.node.id) w f).symm
      | shell v => cases v <;> simp [replaceAppNameFocused, evalCriterion, Holds, BothEqual]
      | workspace v =>
          cases v with
          | regex rx => simp [replaceAppNameFocused, evalCriterion, Holds]
          | focused =>
              have hsame := bothEqual_workspace hkey (h.tree w hw) (h.tree f h.mem.1)
              simp only [replaceAppNameFocused, Holds, hsame]
              simp [evalCriterion, BothEqual]
      | _ => simp [replaceAppNameFocused, evalCriterion, Holds, evalText_iff]

/-- **Meaning of `__focused__`.** On a window list with exactly one focused
window, and however workspaces are told apart, the code agrees with the reference
semantics on a window if and only if the query does not depend there on its
`app_name=__focused__` leaves: with all of them replaced by `[and]` it has the
reference value it has with all of them replaced by `[or]`. -/
theorem focused_meaning (t : Tree) (wins : List DisplayNode) (f w : DisplayNode)
    (h : OneFocused t wins f) (hw : w ∈ wins) (key : Node → β) (hkey : TellsApart t key)
    (c : Criterion E) :
    (criterionToPredicate c wins w = true ↔ Holds key w f c) ↔
      (Holds key w f (replaceAppNameFocused always c) ↔
        Holds key w f (replaceAppNameFocused never c)) := by
  have hcode : criterionToPredicate c wins w = evalCriterion c w (some f) := by
    rw [criterionToPredicate, h.find]
  have htrue := holds_always (E := E) key w f
  have hfalse := not_holds_never (E := E) key w f
  rw [hcode]
  by_cases heq : Holds key w f (.appName (.focused : RegexOrFocused E))
  · rw [eval_iff_replace h hw hkey (r := never) (by simp [heq, hfalse]) c,
      ← holds_replace (r := always) (by simp [heq, htrue]) c]
    exact comm
  · rw [eval_iff_replace h hw hkey (r := always) (by simp [heq, htrue]) c,
      ← holds_replace (r := never) (by simp [heq, hfalse]) c]

end

/-! ## The divergence -/

section twoTerminals

def terminal (id : Int) (focused : Bool) : Node :=
  .mk ⟨{ id, nodeType := .con, pid := some 1, appId := some "foot", focused }, rfl⟩ [] []

/-- Two windows of one application on a workspace, the first one focused. -/
def twoTerminals : Tree :=
  getTree (.mk ⟨{ id := 1, nodeType := .root }, rfl⟩
    [.mk ⟨{ id := 2, nodeType := .output }, rfl⟩
      [.mk ⟨{ id := 3, nodeType := .workspace }, rfl⟩ [terminal 4 true, terminal 5 false] []] []]
    []) (by decide)

def terminals : List DisplayNode := twoTerminals.getWindows Focus.TickMap.empty

def focusedTerminal : DisplayNode := ⟨terminal 4 true, twoTerminals, .fixed 0, by decide⟩

/-- The focused window does not match its own application name. -/
theorem app_name_focused_rejects_itself :
    terminals.map (·.node.id) = [4, 5] ∧
      criterionToPredicate (.appName .focused : Criterion .matchAll) terminals focusedTerminal =
        false ∧
      Holds Node.getName focusedTerminal focusedTerminal
        (.appName .focused : Criterion .matchAll) :=
  ⟨by decide +kernel, by decide +kernel, holds_appName_focused.mpr rfl⟩

/-- Both windows are on one workspace, and there is no other. -/
theorem focused_meaning_two_terminals :
    OneFocused twoTerminals terminals focusedTerminal ∧ focusedTerminal ∈ terminals ∧
      TellsApart twoTerminals Node.getName ∧
      ((criterionToPredicate (.appName .focused : Criterion .matchAll) terminals
          focusedTerminal = true ↔
        Holds Node.getName focusedTerminal focusedTerminal
          (.appName .focused : Criterion .matchAll)) ↔
        (Holds Node.getName focusedTerminal focusedTerminal
            (replaceAppNameFocused always (.appName .focused : Criterion .matchAll)) ↔
          Holds Node.getName focusedTerminal focusedTerminal
            (replaceAppNameFocused never (.appName .focused : Criterion .matchAll)))) :=
  have hone : OneFocused twoTerminals terminals focusedTerminal :=
    ⟨by decide +kernel, by decide +kernel⟩
  have hmem : focusedTerminal ∈ terminals := by decide +kernel
  have hapart : TellsApart twoTerminals Node.getName := by
    unfold TellsApart
    decide +kernel
  ⟨hone, hmem, hapart, focused_meaning _ _ _ _ hone hmem _ hapart _⟩

end twoTerminals

end Swayr.Theorems.FocusedMeaning
