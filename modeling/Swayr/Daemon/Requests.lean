import Swayr.Cmds.Dispatch
import Swayr.Kit.Transducer

/-!
# Client requests (`client.rs`, `daemon.rs`: `serve_client_requests`, `handle_client_request`)

A client writes one command as JSON and closes the connection. The request thread takes
one connection after the other, reads it to its end and executes what it parses. A
client whose process ends while it writes leaves a part of its message; where a
character was cut in two, what was read is no UTF-8. If a connection cannot be accepted,
the thread leaves its loop, and with it the daemon ends.
-/

namespace Swayr.Daemon

open Cmds Kit Criteria Shared

/-- `serde_json::to_string` and `from_str` for commands, and what the daemon relies on
there. A command is written as a string or an object, and no part of either is a JSON
value. -/
structure SerdeJson where
  toString : SwayrCommand → Text
  fromStr : Text → Option SwayrCommand
  fromStr_toString : ∀ cmd, fromStr (toString cmd) = some cmd
  fromStr_of_cut : ∀ cmd p, p <+: toString cmd → p ≠ toString cmd → fromStr p = none

/-- What `read_to_string` gets from a connection; `none` is an error. -/
abbrev Received := Option Text

/-- What `listener.incoming()` gives. -/
inductive Incoming
  | stream (r : Received)
  /-- The connection could not be accepted. -/
  | error

section server

variable (J : SerdeJson)

/-- The command `handle_client_request` executes, if any. -/
def requestedCommand (r : Received) : Option SwayrCommand := r.bind J.fromStr

variable (E : RegexEngine) {σ : Type}

/-- What a command finds: the tree and the ticks, and all the rest. -/
abbrev Scene (σ : Type) := World × Surroundings × SwayConnection σ

def panics : Event Outgoing → Bool
  | .other .panicked => true
  | _ => false

/-- `exec_swayr_cmd` for one command after the other. The thread is the daemon's
main thread: once it panics nothing more is executed. -/
def fullExecutor : Transducer (Option CmdState) (SwayrCommand × Scene σ) (Event Outgoing) where
  step
    | none, _ => (none, [])
    | some s, (cmd, w, S, C) =>
        match execSwayrCmd E (runCommand E S C) w cmd s with
        | (s', es) => (if es.any panics then none else s', es)

/-- The loop over the incoming connections. -/
def server : Transducer (Option CmdState) (Incoming × Scene σ) (Event Outgoing) where
  step s
    | (.stream r, scene) =>
        match requestedCommand J r with
        | some cmd => (fullExecutor E).step s (cmd, scene)
        | none => (s, [])
    -- the `break`
    | (.error, _) => (none, [])

end server

/-- What becomes of a client's message on its way. -/
inductive Fate
  | whole
  /-- Only this many characters were written. -/
  | cut (k : Nat)
  /-- It ends within a character. -/
  | torn
deriving DecidableEq, Repr

section fate

variable (J : SerdeJson)

/-- `send_swayr_cmd`: what is written to the socket. -/
def sendSwayrCmd (cmd : SwayrCommand) : Text := J.toString cmd

/-- What the daemon reads of a command sent with `send_swayr_cmd`. -/
def Fate.received (cmd : SwayrCommand) : Fate → Received
  | whole => some (sendSwayrCmd J cmd)
  | cut k => some ((sendSwayrCmd J cmd).take k)
  | torn => none

/-- All of the message arrives. -/
def Fate.Arrives (cmd : SwayrCommand) : Fate → Prop
  | whole => True
  | cut k => (sendSwayrCmd J cmd).length ≤ k
  | torn => False

instance (cmd : SwayrCommand) : (f : Fate) → Decidable (f.Arrives J cmd)
  | .whole => inferInstanceAs (Decidable True)
  | .cut k => inferInstanceAs (Decidable ((sendSwayrCmd J cmd).length ≤ k))
  | .torn => inferInstanceAs (Decidable False)

end fate

end Swayr.Daemon
