import Swayr.Bar.Module

/-!
# The nmcli module's refresh (`module/nmcli.rs`)

`nmcli -c no -g IN-USE,SSID,SIGNAL,BARS dev wifi` prints a line for each access
point. The module takes the line that starts with a star apart at its colons.
-/

namespace Swayr.Bar

open Shared Kit.Text

/-- What became of the call of `nmcli`. -/
inductive NmcliRun
  | notRun (err : Text)
  /-- The standard output is `none` if it is no UTF-8. -/
  | exited (success : Bool) (code : Option ℤ) (stdout : Option Text)
deriving DecidableEq, Repr

/-- `run_nmcli`; `none` is the panic of its `unwrap`. -/
def runNmcli : NmcliRun → Option (Except Text Text)
  | .notRun err => some (.error ("Failed to run nmcli: ".toList ++ err))
  | .exited false code _ =>
      some (.error ("nmcli failed with status code ".toList ++ decimal (code.getD (-1))))
  | .exited true _ stdout => stdout.map .ok

/-- A carriage return belongs to the line break behind it. -/
def stripReturn (line : Text) : Text := if line.getLast? = some '\r' then line.dropLast else line

/-- `str::lines` of a text whose last line is ended by a line break, like the
others. What is behind the last line break is taken as it is. -/
def lines (s : Text) : List Text :=
  let parts := s.splitOn '\n'
  parts.dropLast.map stripReturn ++ parts.getLast?.toList.filter fun last => !last.isEmpty

/-- The fields of the line of the access point in use; `none` is the panic of an
`unwrap`. -/
def NmcliState.readLine (st : NmcliState) (line : Text) : Option NmcliState :=
  match (line.splitOn ':').drop 1 with
  | name :: signal :: bars :: _ =>
      some { st with name := some name, signal := some signal, bars := some bars }
  | _ => none

/-- What `refresh_state` of the nmcli module puts into the state before the text. -/
def NmcliState.read (run : NmcliRun) (st : NmcliState) : Option NmcliState := do
  let result ← runNmcli run
  match result with
  | .ok output =>
      let st := { st with name := none, signal := none, bars := none }
      match (lines output).find? fun line => line.head? == some '*' with
      | some line => st.readLine line
      | none => some st
  | .error _ => some st

/-- `refresh_state` of the nmcli module; `none` is a panic. -/
def NmcliState.refresh (R : RtFormat) (run : NmcliRun) (fmtStr : Text) (htmlEscape : Bool)
    (st : NmcliState) : Option NmcliState := do
  let st ← st.read run
  let text ← substPlaceholders R fmtStr htmlEscape st.placeholderValue
  some { st with cachedText := text }

end Swayr.Bar
