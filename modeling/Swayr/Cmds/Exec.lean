import Swayr.Cmds.Command
import Swayr.Cmds.SwitchTo
import Swayr.Criteria.Eval

/-!
# Executing commands (`cmds.rs`: `exec_swayr_cmd`)

The dispatcher keeps the last command and the switch data in globals. Every
command runs in a *world*, what sway, the ticks and the menu program answer
while it runs, and nothing relates the worlds of different commands. The
commands that do not use the switch data act through the parameter `others`,
whatever that is.

Both globals are locked to the end of the call. A choice from the menu of
`ExecuteSwayrCommand` calls the dispatcher again, which waits for the lock its
own thread holds: nothing is executed after that, and the state becomes `none`.
-/

namespace Swayr.Cmds

open Ipc Swayr.Tree Focus Criteria SwitchToMatchingData

/-- The surroundings of one command. -/
structure World where
  /-- The tree sway sends. -/
  swayRoot : Node
  distinct : DistinctIds swayRoot
  ticks : TickMap
  answer : MenuAnswer

def World.wins (w : World) : List DisplayNode :=
  (readTree w.swayRoot w.distinct).getWindows w.ticks

/-- No window is listed twice. -/
theorem World.wins_ids_nodup (w : World) : (w.wins.map (·.node.id)).Nodup :=
  (readTree w.swayRoot w.distinct).getWindows_ids_nodup w.ticks

/-! ## The switch commands -/

section switch

variable (E : RegexEngine) (w : World) (stm : SwitchToMatchingData)

def switchToUrgentOrLruWindow : SwitchToMatchingData × List Action :=
  focusUrgentOrMatchingOrLruWindow w.wins w.ticks (fun _ => false) stm

def switchToAppOrUrgentOrLruWindow (name : String) : SwitchToMatchingData × List Action :=
  focusUrgentOrMatchingOrLruWindow w.wins w.ticks (fun d => d.node.getAppName == name) stm

def switchToMarkOrUrgentOrLruWindow (conMark : String) : SwitchToMatchingData × List Action :=
  focusUrgentOrMatchingOrLruWindow w.wins w.ticks (fun d => d.node.props.marks.contains conMark) stm

/-- Nothing happens for criteria that do not parse. -/
def switchToMatchingOrUrgentOrLruWindow (criteria : String) :
    SwitchToMatchingData × List Action :=
  match (parseCriteria criteria : Option (Criterion E)) with
  | some crit =>
      focusUrgentOrMatchingOrLruWindow w.wins w.ticks (criterionToPredicate crit w.wins) stm
  | none => (stm, [])

end switch

def SwitchToMatchingData.setFlags (stm : SwitchToMatchingData)
    (skipUrgent skipLru skipOrigin : Bool) : SwitchToMatchingData :=
  { stm with skipUrgent, skipLru, skipOrigin }

/-! ## The dispatcher -/

/-- The two globals. -/
structure CmdState where
  lastCommand : SwayrCommand
  stm : SwitchToMatchingData
deriving DecidableEq, Repr

/-- The daemon's initial state. -/
def CmdState.init : CmdState := ⟨.nop, .new⟩

/-- The switch data a command starts from: a command that differs from the last
one resets them. -/
def CmdState.startData (s : CmdState) (cmd : SwayrCommand) : SwitchToMatchingData :=
  if cmd ≠ s.lastCommand then s.stm.reset true else s.stm

def CmdState.startActions (s : CmdState) (cmd : SwayrCommand) : List Action :=
  if cmd ≠ s.lastCommand then [.reset] else []

/-- What executing a command does to the outside, or to the switch data as a
whole. -/
inductive Event (ρ : Type)
  /-- A message to the lock-in thread. -/
  | sent (msg : FocusMessage)
  | switch (a : Action)
  /-- A request of a command that does not use the switch data. -/
  | other (r : ρ)

section exec

variable (E : RegexEngine) {ρ : Type} (others : SwayrCommand → World → List ρ)

/-- What a command does with the switch data; `none` if it never returns. -/
def runSwitch (w : World) (cmd : SwayrCommand) (stm : SwitchToMatchingData) :
    Option (SwitchToMatchingData × List Action) :=
  match cmd with
  | .switchToUrgentOrLRUWindow skipUrgent skipLru skipOrigin =>
      some (switchToUrgentOrLruWindow w (stm.setFlags skipUrgent skipLru skipOrigin))
  | .switchToAppOrUrgentOrLRUWindow name skipUrgent skipLru skipOrigin =>
      some (switchToAppOrUrgentOrLruWindow w (stm.setFlags skipUrgent skipLru skipOrigin) name)
  | .switchToMarkOrUrgentOrLRUWindow conMark skipUrgent skipLru skipOrigin =>
      some (switchToMarkOrUrgentOrLruWindow w (stm.setFlags skipUrgent skipLru skipOrigin)
        conMark)
  | .switchToMatchingOrUrgentOrLRUWindow criteria skipUrgent skipLru skipOrigin =>
      some (switchToMatchingOrUrgentOrLruWindow E w
        (stm.setFlags skipUrgent skipLru skipOrigin) criteria)
  | .executeSwayrCommand =>
      match w.answer with
      -- The chosen command is executed by a call that waits for `LAST_COMMAND`.
      | some _ => none
      | none => some (stm, [])
  | _ => some (stm, [])

/-- All a command can do with the switch data: leave them alone, or set the
flags and then perhaps make one switch step. -/
theorem runSwitch_cases {w : World} {cmd : SwayrCommand} {stm : SwitchToMatchingData}
    {r : SwitchToMatchingData × List Action} (h : runSwitch E w cmd stm = some r) :
    r = (stm, []) ∨ ∃ u l o, r = (stm.setFlags u l o, []) ∨
      ∃ pred, r = focusUrgentOrMatchingOrLruWindow w.wins w.ticks pred (stm.setFlags u l o) := by
  unfold runSwitch at h
  split at h
  case h_4 criteria u l o =>
    obtain rfl := Option.some.inj h
    refine .inr ⟨u, l, o, ?_⟩
    unfold switchToMatchingOrUrgentOrLruWindow
    split
    · exact .inr ⟨_, rfl⟩
    · exact .inl rfl
  case h_5 =>
    split at h
    · simp at h
    · exact .inl (Option.some.inj h).symm
  case h_6 => exact .inl (Option.some.inj h).symm
  all_goals exact .inr ⟨_, _, _, .inr ⟨_, (Option.some.inj h).symm⟩⟩

/-- The requests of a command that does not use the switch data. -/
def otherEvents (w : World) (cmd : SwayrCommand) : List (Event ρ) :=
  match cmd with
  | .nop
  | .switchToUrgentOrLRUWindow .. | .switchToAppOrUrgentOrLRUWindow ..
  | .switchToMarkOrUrgentOrLRUWindow .. | .switchToMatchingOrUrgentOrLRUWindow ..
  | .executeSwayrCommand => []
  | cmd => (others cmd w).map .other

/-- `exec_swayr_cmd`. -/
def execSwayrCmd (w : World) (cmd : SwayrCommand) (s : CmdState) :
    Option CmdState × List (Event ρ) :=
  let begun := (s.startActions cmd).map .switch
    ++ [.sent (if cmd.isPrevNextWindowVariant then .tickUpdateInhibit else .tickUpdateActivate)]
  match runSwitch E w cmd (s.startData cmd) with
  | none => (none, begun)
  | some (stm, acts) =>
      (some ⟨cmd, stm⟩, begun ++ acts.map .switch ++ otherEvents others w cmd)

/-- The commands of a run, one after the other; `none` is the state in which
the globals stay locked. -/
def executor : Kit.Transducer (Option CmdState) (SwayrCommand × World) (Event ρ) where
  step
    | none, _ => (none, [])
    | some s, (cmd, w) => execSwayrCmd E others w cmd s

end exec

/-- The actions of the switch commands among some events. -/
def Event.action? {ρ : Type} : Event ρ → Option Action
  | .switch a => some a
  | _ => none

def switchActions {ρ : Type} (es : List (Event ρ)) : List Action := es.filterMap Event.action?

@[simp] theorem switchActions_append {ρ : Type} (xs ys : List (Event ρ)) :
    switchActions (xs ++ ys) = switchActions xs ++ switchActions ys := List.filterMap_append

@[simp] theorem switchActions_nil {ρ : Type} : switchActions ([] : List (Event ρ)) = [] := rfl

@[simp] theorem switchActions_sent {ρ : Type} (m : FocusMessage) (es : List (Event ρ)) :
    switchActions (.sent m :: es) = switchActions es := rfl

@[simp] theorem switchActions_map_switch {ρ : Type} (acts : List Action) :
    switchActions (acts.map Event.switch : List (Event ρ)) = acts := by
  simp [switchActions, List.filterMap_map, Function.comp_def, Event.action?]

theorem switchActions_otherEvents {ρ : Type} (others : SwayrCommand → World → List ρ) (w : World)
    (cmd : SwayrCommand) : switchActions (otherEvents others w cmd) = [] := by
  unfold otherEvents
  split <;> simp [switchActions, Event.action?]

/-! ## What a command does to the switch data -/

section spec

variable {E : RegexEngine} {ρ : Type} {others : SwayrCommand → World → List ρ} {w : World}
  {cmd : SwayrCommand} {s : CmdState}

/-- A switch that returns leaves its data and has done its actions. -/
theorem switchActions_of_returns {stm : SwitchToMatchingData} {acts : List Action}
    (h : runSwitch E w cmd (s.startData cmd) = some (stm, acts)) :
    (execSwayrCmd E others w cmd s).1 = some ⟨cmd, stm⟩ ∧
      switchActions (execSwayrCmd E others w cmd s).2 = s.startActions cmd ++ acts := by
  simp [execSwayrCmd, h, switchActions_otherEvents]

/-- A switch that does not return leaves nothing behind but a reset. -/
theorem switchActions_of_blocks (h : runSwitch E w cmd (s.startData cmd) = none) :
    (execSwayrCmd E others w cmd s).1 = none ∧
      switchActions (execSwayrCmd E others w cmd s).2 = s.startActions cmd := by
  simp [execSwayrCmd, h]

end spec

end Swayr.Cmds
