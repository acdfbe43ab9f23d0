import Swayr.Bar.Module

/-!
# Clicks (`bar.rs`)

Sway's bar writes the clicks to swayrbar's standard input, one in a line behind an
opening bracket. `handle_input` reads them in a thread of its own and executes the
command that is configured for the module and the button.
-/

namespace Swayr.Bar

open Shared

/-- The fields of `swaybar_types::Click` that are read, the button as it is shown by
`{:?}`. -/
structure Click where
  name : Option Text
  instance_ : Option Text
  button : Text
deriving DecidableEq, Repr

/-- A command that is run: the program and its arguments. -/
structure Spawn where
  program : Text
  args : List Text
deriving DecidableEq, Repr

/-- `execute_command`; `none` is the panic of `cmd[0]`. What becomes of the process is
only logged. -/
def executeCommand : List Text → Option Spawn
  | [] => none
  | program :: args => some ⟨program, args⟩

/-- What a click does: the command it runs, and the refresh event it asks for. -/
structure ClickEffect where
  spawned : Option Spawn
  event : Option NameInstanceAndReason
deriving DecidableEq, Repr

section click

variable (R : RtFormat) (chronoFormat : Text → Option Text)

/-- The body of the loop in `handle_click`, for a module with a command for the
click. -/
def runModule (m : BarModule) (cmd : List Text) : Option ClickEffect := do
  let substituted ← substArgs R chronoFormat m cmd
  let spawn ← executeCommand (substituted.getD cmd)
  -- a window module is refreshed by the sway event that follows
  let event :=
    if m.config.name = "window".toList then none
    else some ⟨m.config.name, m.config.instance_, .clickEvent⟩
  some ⟨some spawn, event⟩

/-- The loop of `handle_click` over the modules. -/
def handleClickOn (name instance_ button : Text) : List BarModule → Option ClickEffect
  | [] => some ⟨none, none⟩
  | m :: mods =>
      match (getOnClickMap m.config name instance_).bind fun onClick => onClick button with
      | some cmd => runModule R chronoFormat m cmd
      | none => handleClickOn name instance_ button mods

/-- `handle_click`; `none` is a panic. -/
def handleClick (mods : List BarModule) (click : Click) : Option ClickEffect :=
  match click.name, click.instance_ with
  | some name, some instance_ => handleClickOn R chronoFormat name instance_ click.button mods
  | _, _ => some ⟨none, none⟩

/-- The module that the loop of `handle_click` comes to a panic in while it holds the
lock of its state: `subst_args` has locked it, `execute_command` has not. -/
def poisonedOn (name instance_ button : Text) : List BarModule → Option ℕ
  | [] => none
  | m :: mods =>
      match (getOnClickMap m.config name instance_).bind fun onClick => onClick button with
      | some cmd =>
          if m.state.locksState && (substArgs R chronoFormat m cmd).isNone then some 0 else none
      | none => (poisonedOn name instance_ button mods).map (· + 1)

/-- The module whose lock a click poisons. -/
def poisonedBy (mods : List BarModule) (click : Click) : Option ℕ :=
  match click.name, click.instance_ with
  | some name, some instance_ => poisonedOn R chronoFormat name instance_ click.button mods
  | _, _ => none

end click

/-! ## The input loop -/

/-- `serde_json::from_str::<Click>`; the empty text is no JSON value. -/
structure ClickParser where
  parse : Text → Option Click
  parse_nil : parse [] = none

/-- Standard input: characters, and `none` for a byte that is no part of one. -/
abbrev Stdin := List (Option Char)

/-- `read_line`: the input up to the first line break, which is an error if it is not
all text. At the end of the input it is the empty text. -/
def takeLine : Stdin → Stdin × Stdin
  | [] => ([], [])
  | some '\n' :: rest => ([some '\n'], rest)
  | c :: rest => (c :: (takeLine rest).1, (takeLine rest).2)

def readLine (input : Stdin) : Option Text × Stdin :=
  ((takeLine input).1.mapM id, (takeLine input).2)

/-- The click in a line; every line but the first starts with a comma. -/
def clickOf (parser : ClickParser) (buf : Text) : Option Click :=
  parser.parse (if buf.head? = some ',' then buf.tail else buf)

inductive InputPhase
  | reading | returned | panicked
deriving DecidableEq, Repr

/-- `handle_input` between two turns of its loop, with the clicks handled and the
effects they had. -/
structure InputState where
  phase : InputPhase
  input : Stdin
  clicks : List Click
  effects : List ClickEffect
deriving DecidableEq, Repr

/-- What comes before the loop. -/
def handleInputStart (input : Stdin) : InputState :=
  match readLine input with
  | (some sb, rest) => ⟨if sb = "[\n".toList then .reading else .returned, rest, [], []⟩
  | (none, rest) => ⟨.panicked, rest, [], []⟩

/-- One turn of the loop, which nothing but a panic leaves. -/
def handleInputTurn (parser : ClickParser) (handle : Click → Option ClickEffect)
    (s : InputState) : InputState :=
  match s.phase with
  | .reading =>
      let (line, rest) := readLine s.input
      match line.bind (clickOf parser) with
      | some click =>
          match handle click with
          | some effect =>
              { s with input := rest, clicks := s.clicks ++ [click],
                       effects := s.effects ++ [effect] }
          | none => { s with phase := .panicked, input := rest, clicks := s.clicks ++ [click] }
      | none => { s with input := rest }
  | _ => s

/-- The loop after a number of turns; the modules may change from one to the next. -/
def inputLoop (parser : ClickParser) (handle : ℕ → Click → Option ClickEffect) (input : Stdin) :
    ℕ → InputState
  | 0 => handleInputStart input
  | n + 1 => handleInputTurn parser (handle n) (inputLoop parser handle input n)

/-- `handle_input` after a number of turns. -/
def handleInput (parser : ClickParser) (R : RtFormat) (chronoFormat : ℕ → Text → Option Text)
    (mods : ℕ → List BarModule) (input : Stdin) : ℕ → InputState :=
  inputLoop parser (fun n => handleClick R (chronoFormat n) (mods n)) input

end Swayr.Bar
