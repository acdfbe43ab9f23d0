import Swayr.Cmds.Exec
import Swayr.Kit.Locks

/-!
# The daemon's locks (`daemon.rs`: `serve_client_requests`)

What the request thread and the auto-nop thread do with the two mutexes of
`exec_swayr_cmd` and with the mutex of the condition variable they share. What
else happens under a lock (talking to sway, waiting for a menu program) is
`work`: it takes its time and ends. Only `configure_outputs` has a loop of its
own, which opens its menu again for as long as it is answered with an entry.

Which of the rounds of the auto-nop thread execute `Nop` depends on timeouts
and notifications; here any of them may.
-/

namespace Swayr.Daemon

open Cmds Kit.Locks

inductive Thread
  | request
  | autoNop
deriving DecidableEq, Repr

inductive Lock
  /-- `LAST_COMMAND`. -/
  | lastCommand
  /-- `SWITCH_TO_MATCHING_DATA`. -/
  | switchToMatchingData
  /-- The mutex the condition variable is used with. -/
  | condvarMutex
deriving DecidableEq, Repr

abbrev Program := List (Instr Lock)

/-- Both guards live to the end of `exec_swayr_cmd`; they are dropped in reverse
order. -/
def guarded (body : Program) : Program :=
  [.acquire .lastCommand, .acquire .switchToMatchingData, .work] ++ body ++
    [.release .switchToMatchingData, .release .lastCommand]

/-- What the user will answer while a command is executed. -/
structure Answers where
  /-- The answers to the menus of `ExecuteSwayrCommand`, one after the other. -/
  commands : List MenuAnswer
  /-- Whether a menu of `ConfigureOutputs` is answered with an entry it offers. -/
  outputs : ℕ → Bool

/-- `exec_swayr_cmd`: a command chosen from the menu of `ExecuteSwayrCommand` is
executed by a call within the call. -/
def execProgram (outputs : ℕ → Bool) : SwayrCommand → List MenuAnswer → Program
  | .executeSwayrCommand, some c :: answers => guarded (execProgram outputs c.1 answers)
  -- `while let Ok(cmd) = select_from_menu(..)`
  | .configureOutputs, _ => guarded [.loop outputs]
  | _, _ => guarded []

/-- A client request: the command with the menu answers to come, or `none` for
one that cannot be read or parsed. -/
abbrev Request := Option (SwayrCommand × Answers)

def handleClientRequest : Request → Program
  | some (cmd, answers) => execProgram answers.outputs cmd answers.commands
  | none => []

/-- The request thread tells the auto-nop thread, if there is one. -/
def notify (autoNop : Bool) : Program :=
  if autoNop then [.acquire .condvarMutex, .work, .release .condvarMutex] else []

/-- One iteration over the incoming streams. -/
def serveRound (autoNop : Bool) (req : Request) : Program :=
  handleClientRequest req ++ notify autoNop

/-- One iteration of the auto-nop thread. `wait_timeout` gives the mutex back
while it waits; it is held again while `Nop` is executed. -/
def autoNopRound (fires : Bool) : Program :=
  [.acquire .condvarMutex, .release .condvarMutex, .work, .acquire .condvarMutex] ++
    (if fires then execProgram (fun _ => false) .nop [] else []) ++ [.release .condvarMutex]

/-- The rounds of the two threads, when `requests` may arrive. -/
inductive Rounds (autoNop : Bool) (requests : Set Request) : Thread → Program → Prop
  | serve {req : Request} : req ∈ requests →
      Rounds autoNop requests .request (serveRound autoNop req)
  | autoNop (fires : Bool) : autoNop = true →
      Rounds autoNop requests .autoNop (autoNopRound fires)

/-- The request is an `ExecuteSwayrCommand` and its menu is answered with one of
the offered commands. -/
def ChoosesFromMenu (req : Request) : Prop :=
  ∃ c commands outputs, req = some (.executeSwayrCommand, ⟨some c :: commands, outputs⟩)

/-- The request is a `ConfigureOutputs` whose menu is answered with an offered entry
every time. -/
def NeverDismisses (req : Request) : Prop :=
  ∃ commands outputs, req = some (.configureOutputs, ⟨commands, outputs⟩) ∧
    ∀ k, outputs k = true

/-- All other requests lock once or not at all, and their loops end. -/
theorem handleClientRequest_of_ends {req : Request} (hchooses : ¬ ChoosesFromMenu req)
    (hdismisses : ¬ NeverDismisses req) :
    handleClientRequest req = [] ∨ handleClientRequest req = guarded [] ∨
      ∃ outputs, handleClientRequest req = guarded [.loop outputs] ∧ ∃ k, outputs k = false := by
  match req with
  | none => exact .inl rfl
  | some (cmd, ⟨commands, outputs⟩) =>
      right
      show execProgram outputs cmd commands = _ ∨ ∃ _, execProgram outputs cmd commands = _ ∧ _
      unfold execProgram
      split
      · exact absurd ⟨_, _, _, rfl⟩ hchooses
      · refine .inr ⟨outputs, rfl, ?_⟩
        by_contra hnone
        exact hdismisses ⟨commands, outputs, rfl, fun k => by simpa using fun h => hnone ⟨k, h⟩⟩
      · exact .inl rfl

/-- These are the commands the dispatcher does not return from. -/
theorem execSwayrCmd_eq_none_iff {E : Criteria.RegexEngine} {ρ : Type}
    {others : SwayrCommand → World → List ρ} {w : World} {cmd : SwayrCommand} {s : CmdState}
    (outputs : ℕ → Bool) :
    (execSwayrCmd E others w cmd s).1 = none ↔
      ChoosesFromMenu (some (cmd, ⟨[w.answer], outputs⟩)) := by
  have hswitch : (execSwayrCmd E others w cmd s).1 = none ↔
      runSwitch E w cmd (s.startData cmd) = none := by
    cases hrun : runSwitch E w cmd (s.startData cmd) with
    | none => simp [(switchActions_of_blocks hrun).1]
    | some r => simp [(switchActions_of_returns hrun).1]
  rw [hswitch]
  constructor
  · intro h
    -- Of the arms of the dispatch only the one that executes a chosen command can block.
    unfold runSwitch at h
    split at h
    case h_5 =>
      split at h
      · rename_i c hc
        exact ⟨c, [], outputs, by rw [hc]⟩
      · simp at h
    all_goals simp at h
  · rintro ⟨c, answers, _, heq⟩
    obtain ⟨rfl, hanswers⟩ := Prod.mk.inj (Option.some.inj heq)
    simp [runSwitch, (List.cons.inj (Answers.mk.inj hanswers).1).1]

end Swayr.Daemon
