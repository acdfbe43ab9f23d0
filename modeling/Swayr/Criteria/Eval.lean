import Swayr.Criteria.Grammar
import Swayr.Tree.Windows

/-!
# Evaluating criteria (`criteria.rs`: `eval_criterion`)

Queries are evaluated for one window, relative to the focused window if there
is one. Most attributes of a window are optional texts and are handled alike;
application name, workspace and container id have branches of their own.
-/

namespace Swayr.Criteria

open Ipc

variable {E : RegexEngine}

/-! ## Queries as trees -/

/-- The queries a combinator is applied to. -/
def Criterion.parts : Criterion E → List (Criterion E)
  | .and cs => cs
  | .or cs => cs
  | .not c => [c]
  | _ => []

theorem Criterion.sizeOf_parts {c d : Criterion E} (h : d ∈ c.parts) : sizeOf d < sizeOf c := by
  cases c with
  | and cs =>
      have := List.sizeOf_lt_of_mem (show d ∈ cs from h)
      simp only [Criterion.and.sizeOf_spec]
      omega
  | or cs =>
      have := List.sizeOf_lt_of_mem (show d ∈ cs from h)
      simp only [Criterion.or.sizeOf_spec]
      omega
  | not c =>
      rw [List.mem_singleton.mp h]
      simp
  | _ => simp [parts] at h

/-- Induction along the parts of a criterion. -/
theorem Criterion.induct {P : Criterion E → Prop} (h : ∀ c, (∀ d ∈ c.parts, P d) → P c)
    (c : Criterion E) : P c := by
  induction hk : sizeOf c using Nat.strongRecOn generalizing c with
  | ind k ih =>
      subst hk
      exact h c fun d hd => ih (sizeOf d) (sizeOf_parts hd) d rfl

/-! ## Evaluation -/

def isSomeAndRxMatches (s : Option String) (rx : Regex E) : Bool :=
  match s with
  | some s => rx.isMatch s
  | none => false

def areSomeAndEqual {α : Type} [DecidableEq α] (a b : Option α) : Bool :=
  match a, b with
  | some a, some b => a == b
  | _, _ => false

/-- A `__focused__` branch: without a focused window nothing matches. -/
def onFocused (focused : Option DisplayNode) (p : DisplayNode → Bool) : Bool :=
  match focused with
  | some win => p win
  | none => false

/-- A criterion over an optional text. -/
def evalText (attr : DisplayNode → Option String) (v : RegexOrFocused E) (w : DisplayNode)
    (focused : Option DisplayNode) : Bool :=
  match v with
  | .regex rx => isSomeAndRxMatches (attr w) rx
  | .focused => onFocused focused fun win => areSomeAndEqual (attr w) (attr win)

def appIdOf (d : DisplayNode) : Option String := d.node.props.appId
def classOf (d : DisplayNode) : Option String := d.node.props.windowProperties.bind (·.class_)
def instanceOf (d : DisplayNode) : Option String := d.node.props.windowProperties.bind (·.instance_)
def titleOf (d : DisplayNode) : Option String := d.node.props.name
def shellOf (d : DisplayNode) : Option ShellType := d.node.props.shell
def workspaceOf (d : DisplayNode) : Option Node := d.getParentNodeOfType .workspace

mutual
def evalCriterion (c : Criterion E) (w : DisplayNode) (focused : Option DisplayNode) : Bool :=
  match c with
  | .and cs => (evalCriteria cs w focused).all id
  | .or cs => (evalCriteria cs w focused).any id
  | .not c => !evalCriterion c w focused
  | .appId v => evalText appIdOf v w focused
  | .appName v =>
      match v with
      | .regex rx => rx.isMatch w.node.getAppName
      | .focused => onFocused focused fun win => w.node.getAppName != win.node.getAppName
  | .class_ v => evalText classOf v w focused
  | .instance_ v => evalText instanceOf v w focused
  | .shell v =>
      match v with
      | .shellType t => shellOf w == some t
      | .focused => onFocused focused fun win => areSomeAndEqual (shellOf w) (shellOf win)
  | .conId v =>
      match v with
      | .i64 id => w.node.id == id.1
      | .focused => w.node.focused
  | .conMark rx => w.node.props.marks.any fun m => rx.isMatch m
  | .pid pid => w.node.props.pid == some pid.1
  | .workspace v =>
      match v with
      | .regex rx => isSomeAndRxMatches ((workspaceOf w).map Node.getName) rx
      | .focused =>
          onFocused focused fun win => areSomeAndEqual (workspaceOf w) (workspaceOf win)
  | .floating => w.node.isFloating
  | .tiling => !w.node.isFloating
  | .title v => evalText titleOf v w focused
/-- The values of the elements of a list. -/
def evalCriteria (cs : List (Criterion E)) (w : DisplayNode) (focused : Option DisplayNode) :
    List Bool :=
  match cs with
  | [] => []
  | c :: cs => evalCriterion c w focused :: evalCriteria cs w focused
end

theorem evalCriteria_eq (cs : List (Criterion E)) (w : DisplayNode)
    (focused : Option DisplayNode) :
    evalCriteria cs w focused = cs.map fun c => evalCriterion c w focused := by
  induction cs with
  | nil => rw [evalCriteria, List.map_nil]
  | cons c cs ih => rw [evalCriteria, ih, List.map_cons]

def criterionToPredicate (criterion : Criterion E) (allWindows : List DisplayNode) :
    DisplayNode → Bool :=
  let focused := allWindows.find? (·.node.focused)
  fun w => evalCriterion criterion w focused

/-- `and` holds if all its parts do, also if it has none. -/
theorem evalCriterion_and (cs : List (Criterion E)) (w : DisplayNode)
    (focused : Option DisplayNode) :
    evalCriterion (.and cs) w focused = true ↔ ∀ c ∈ cs, evalCriterion c w focused = true := by
  rw [evalCriterion, evalCriteria_eq]
  simp

/-- `or` holds if one of its parts does. -/
theorem evalCriterion_or (cs : List (Criterion E)) (w : DisplayNode)
    (focused : Option DisplayNode) :
    evalCriterion (.or cs) w focused = true ↔ ∃ c ∈ cs, evalCriterion c w focused = true := by
  rw [evalCriterion, evalCriteria_eq]
  simp

theorem evalCriterion_not (c : Criterion E) (w : DisplayNode) (focused : Option DisplayNode) :
    evalCriterion (.not c) w focused = true ↔ ¬ evalCriterion c w focused = true := by
  rw [evalCriterion]
  simp

@[simp] theorem isSomeAndRxMatches_iff {s : Option String} {rx : Regex E} :
    isSomeAndRxMatches s rx = true ↔ ∃ v, s = some v ∧ rx.isMatch v = true := by
  cases s <;> simp [isSomeAndRxMatches]

@[simp] theorem areSomeAndEqual_iff {α : Type} [DecidableEq α] {a b : Option α} :
    areSomeAndEqual a b = true ↔ ∃ v, a = some v ∧ b = some v := by
  cases a with
  | none => simp [areSomeAndEqual]
  | some x =>
      cases b with
      | none => simp [areSomeAndEqual]
      | some y => simp [areSomeAndEqual, eq_comm (a := y)]

@[simp] theorem onFocused_some (f : DisplayNode) (p : DisplayNode → Bool) :
    onFocused (some f) p = p f := rfl

end Swayr.Criteria
