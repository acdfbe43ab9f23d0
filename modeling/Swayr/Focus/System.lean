import Swayr.Kit.Guarded
import Swayr.Focus.LockIn
import Swayr.Focus.Monitor

/-!
# The focus threads together (`run_daemon`)

The monitor thread, the lock-in thread and the thread serving client requests
share the tick map and a FIFO channel. A label is one step of one thread:
between any two of them the others may run. A receive of the lock-in thread
and the write it leads to are separate steps, and so are the operations of one
event handler.
-/

namespace Swayr.Focus

open Kit

/-- The shared state and the threads' control state. -/
structure System where
  ticks : TickMap
  /-- The messages sent and not yet received. -/
  chan : List FocusMessage
  lockIn : LockIn
  /-- The calls of `update_last_focus_tick` the lock-in thread is about to make. -/
  writes : List FocusEvent
  focusCounter : Nat
  /-- The operations the monitor still has to carry out for the event it is
  handling. -/
  todo : List MonitorOp
  /-- Cleared when the monitor thread leaves its loop. -/
  monitoring : Bool

inductive Label
  /-- The monitor thread receives an event and enters its handler. -/
  | handle (ev : SwayEvent)
  /-- The monitor thread carries out the next operation of its handler. -/
  | monitor
  /-- `exec_swayr_cmd` announces a command, cycling or not. -/
  | request (cycling : Bool)
  /-- The lock-in thread receives the oldest message. -/
  | recv
  /-- The lock-in thread's wait runs out with no message there. -/
  | timeout
  /-- The lock-in thread writes a tick. -/
  | write
deriving DecidableEq, Repr

/-- The lock-in thread takes in the result of one receive. -/
def System.receive (seqInhibit : Bool) (s : System) (chan : List FocusMessage)
    (r : Recv) : System :=
  { s with
    chan := chan
    lockIn := (focusLockInHandler seqInhibit).next s.lockIn r
    writes := (focusLockInHandler seqInhibit).emit s.lockIn r }

/-- One monitor operation carried out; its channel send goes to the back of
the queue. -/
def System.perform (s : System) (op : MonitorOp) (rest : List MonitorOp) : System :=
  { s with
    ticks := op.onTicks s.ticks
    chan := match op with
      | .chanSend fmsg => s.chan ++ [fmsg]
      | _ => s.chan
    todo := rest }

/-- The three threads as one guarded system. -/
def focusSystem (seqInhibit : Bool) : Guarded System Label where
  step s
    | .handle ev =>
        match s.monitoring, s.todo, monitorEvent s.focusCounter ev with
        | true, [], (n, .handled ops) => some { s with focusCounter := n, todo := ops }
        | true, [], (n, .ended) => some { s with focusCounter := n, monitoring := false }
        | _, _, _ => none
    | .monitor =>
        match s.todo with
        | op :: rest => some (s.perform op rest)
        | [] => none
    | .request cycling =>
        some { s with chan := s.chan ++
          [if cycling then .tickUpdateInhibit else .tickUpdateActivate] }
    | .recv =>
        match s.writes, s.chan with
        | [], m :: rest => some (s.receive seqInhibit rest (.msg m))
        | _, _ => none
    | .timeout =>
        match s.writes, s.chan with
        | [], [] => some (s.receive seqInhibit [] .timeout)
        | _, _ => none
    | .write =>
        match s.writes with
        | fev :: rest => some { s with ticks := s.ticks.lockIn fev, writes := rest }
        | [] => none

/-- All a step can do. -/
inductive System.Steps (seqInhibit : Bool) (s : System) : Label → System → Prop
  | handled {ev n ops} : s.todo = [] → monitorEvent s.focusCounter ev = (n, .handled ops) →
      Steps seqInhibit s (.handle ev) { s with focusCounter := n, todo := ops }
  | ended {ev n} : s.todo = [] → monitorEvent s.focusCounter ev = (n, .ended) →
      Steps seqInhibit s (.handle ev) { s with focusCounter := n, monitoring := false }
  | monitor {op rest} : s.todo = op :: rest → Steps seqInhibit s .monitor (s.perform op rest)
  | request (cycling : Bool) : Steps seqInhibit s (.request cycling) { s with chan := s.chan ++
      [if cycling then .tickUpdateInhibit else .tickUpdateActivate] }
  | recv {m rest} : s.writes = [] → s.chan = m :: rest →
      Steps seqInhibit s .recv (s.receive seqInhibit rest (.msg m))
  | timeout : s.writes = [] → s.chan = [] →
      Steps seqInhibit s .timeout (s.receive seqInhibit [] .timeout)
  | write {fev rest} : s.writes = fev :: rest →
      Steps seqInhibit s .write { s with ticks := s.ticks.lockIn fev, writes := rest }

/-- Every step of the system is one of the cases. -/
theorem System.Steps.of_step {seqInhibit : Bool} {s s' : System} {a : Label}
    (h : (focusSystem seqInhibit).step s a = some s') : s.Steps seqInhibit a s' := by
  cases a with
  | handle ev =>
      simp only [focusSystem] at h
      split at h
      · rename_i htodo heq
        exact Option.some.inj h ▸ .handled htodo heq
      · rename_i htodo heq
        exact Option.some.inj h ▸ .ended htodo heq
      · simp at h
  | monitor =>
      simp only [focusSystem] at h
      split at h
      · rename_i htodo
        exact Option.some.inj h ▸ .monitor htodo
      · simp at h
  | request cycling => exact Option.some.inj h ▸ .request cycling
  | recv =>
      simp only [focusSystem] at h
      split at h
      · rename_i hwrites hchan
        exact Option.some.inj h ▸ .recv hwrites hchan
      · simp at h
  | timeout =>
      simp only [focusSystem] at h
      split at h
      · rename_i hwrites hchan
        exact Option.some.inj h ▸ .timeout hwrites hchan
      · simp at h
  | write =>
      simp only [focusSystem] at h
      split at h
      · rename_i hwrites
        exact Option.some.inj h ▸ .write hwrites
      · simp at h

/-- `run_daemon` after spawning its threads. -/
def System.start : System where
  ticks := .empty
  chan := []
  lockIn := .start
  writes := []
  focusCounter := 0
  todo := []
  monitoring := true

end Swayr.Focus
