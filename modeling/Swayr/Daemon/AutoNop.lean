import Swayr.Daemon.Serve
import Swayr.Kit.Guarded

/-!
# The auto-nop thread (`daemon.rs`: `serve_client_requests`)

With `auto_nop_delay` set, the request thread notifies the auto-nop thread after
each command through a condition variable. A notification that finds no thread
waiting has no effect. Each action below is one step of one thread: between any
two of them the other thread may run, as far as the mutex lets it.
-/

namespace Swayr.Daemon

open Kit

/-- Where the request thread is in its loop over the incoming streams. -/
inductive RequestPhase
  /-- Waiting for a client or handling its request. -/
  | accepting
  /-- `handle_client_request` has returned. -/
  | completed
  /-- The mutex is locked for the notification. -/
  | locked
  /-- The notification is issued, the guard not yet dropped. -/
  | notified
deriving DecidableEq, Repr

/-- Where the auto-nop thread is in its loop. -/
inductive AutoNopPhase
  /-- At the top of the loop. -/
  | outside
  /-- The mutex is locked, `wait_timeout` not yet entered. -/
  | locked
  /-- In `wait_timeout`, with the mutex given back. -/
  | waiting
  /-- The wait is over; `wait_timeout` has to lock the mutex again. -/
  | leaving (timedOut : Bool)
  /-- `wait_timeout` has returned the guard and whether it timed out. -/
  | returned (timedOut : Bool)
  /-- At the end of the loop's body, where the guard is dropped. -/
  | done
deriving DecidableEq, Repr

/-- The two threads and the mutex of the condition variable. -/
structure AutoNop where
  request : RequestPhase
  autoNop : AutoNopPhase
  inhibit : Bool
  mutex : Option Thread
deriving DecidableEq, Repr

inductive Action
  /-- A client's command has been executed. -/
  | complete
  | requestLock
  | notifyOne
  | requestUnlock
  | lock
  | wait
  /-- The delay passes without a notification. -/
  | timeout
  /-- The condition variable wakes the thread for no reason, as it may. -/
  | spurious
  | relock
  /-- The wait timed out and `Nop` is executed. -/
  | execNop
  /-- The wait timed out, and `inhibit` keeps `Nop` from being executed. -/
  | skipNop
  /-- The wait did not time out. -/
  | clearInhibit
  | unlock
deriving DecidableEq, Repr

def Action.thread : Action → Thread
  | .complete | .requestLock | .notifyOne | .requestUnlock => .request
  | _ => .autoNop

/-- `Condvar::notify_one`: the waiting thread, if there is one, is woken. -/
def AutoNopPhase.notifyOne : AutoNopPhase → AutoNopPhase
  | .waiting => .leaving false
  | p => p

/-- The request thread and the auto-nop thread as one guarded system. -/
def autoNopSystem : Guarded AutoNop Action where
  step s
    | .complete =>
        if s.request = .accepting then some { s with request := .completed } else none
    | .requestLock =>
        if s.request = .completed ∧ s.mutex = none then
          some { s with request := .locked, mutex := some .request }
        else none
    | .notifyOne =>
        if s.request = .locked then
          some { s with request := .notified, autoNop := s.autoNop.notifyOne }
        else none
    | .requestUnlock =>
        if s.request = .notified then some { s with request := .accepting, mutex := none }
        else none
    | .lock =>
        if s.autoNop = .outside ∧ s.mutex = none then
          some { s with autoNop := .locked, mutex := some .autoNop }
        else none
    | .wait =>
        if s.autoNop = .locked then some { s with autoNop := .waiting, mutex := none } else none
    | .timeout =>
        if s.autoNop = .waiting then some { s with autoNop := .leaving true } else none
    | .spurious =>
        if s.autoNop = .waiting then some { s with autoNop := .leaving false } else none
    | .relock =>
        match s.autoNop, s.mutex with
        | .leaving timedOut, none =>
            some { s with autoNop := .returned timedOut, mutex := some .autoNop }
        | _, _ => none
    | .execNop =>
        if s.autoNop = .returned true ∧ s.inhibit = false then
          some { s with autoNop := .done, inhibit := true }
        else none
    | .skipNop =>
        if s.autoNop = .returned true ∧ s.inhibit = true then some { s with autoNop := .done }
        else none
    | .clearInhibit =>
        if s.autoNop = .returned false then some { s with autoNop := .done, inhibit := false }
        else none
    | .unlock =>
        if s.autoNop = .done then some { s with autoNop := .outside, mutex := none } else none

/-- The threads when the socket is bound. -/
def AutoNop.start : AutoNop := ⟨.accepting, .outside, false, none⟩

/-- All a step can do. -/
inductive AutoNop.Steps (s : AutoNop) : Action → AutoNop → Prop
  | complete : s.request = .accepting → Steps s .complete { s with request := .completed }
  | requestLock : s.request = .completed → s.mutex = none →
      Steps s .requestLock { s with request := .locked, mutex := some .request }
  | notifyOne : s.request = .locked →
      Steps s .notifyOne { s with request := .notified, autoNop := s.autoNop.notifyOne }
  | requestUnlock : s.request = .notified →
      Steps s .requestUnlock { s with request := .accepting, mutex := none }
  | lock : s.autoNop = .outside → s.mutex = none →
      Steps s .lock { s with autoNop := .locked, mutex := some .autoNop }
  | wait : s.autoNop = .locked → Steps s .wait { s with autoNop := .waiting, mutex := none }
  | timeout : s.autoNop = .waiting → Steps s .timeout { s with autoNop := .leaving true }
  | spurious : s.autoNop = .waiting → Steps s .spurious { s with autoNop := .leaving false }
  | relock {timedOut} : s.autoNop = .leaving timedOut → s.mutex = none →
      Steps s .relock { s with autoNop := .returned timedOut, mutex := some .autoNop }
  | execNop : s.autoNop = .returned true → s.inhibit = false →
      Steps s .execNop { s with autoNop := .done, inhibit := true }
  | skipNop : s.autoNop = .returned true → s.inhibit = true →
      Steps s .skipNop { s with autoNop := .done }
  | clearInhibit : s.autoNop = .returned false →
      Steps s .clearInhibit { s with autoNop := .done, inhibit := false }
  | unlock : s.autoNop = .done → Steps s .unlock { s with autoNop := .outside, mutex := none }

/-- Every step of the system is one of the cases. -/
theorem AutoNop.Steps.of_step {s s' : AutoNop} {a : Action}
    (h : autoNopSystem.step s a = some s') : s.Steps a s' := by
  cases a with
  | relock =>
      simp only [autoNopSystem] at h
      split at h
      · rename_i timedOut hphase hmutex
        exact Option.some.inj h ▸ .relock hphase hmutex
      · simp at h
  | complete | requestLock | notifyOne | requestUnlock | lock | wait | timeout | spurious
  | execNop | skipNop | clearInhibit | unlock =>
      simp only [autoNopSystem, Option.ite_none_right_eq_some, Option.some.injEq] at h
      obtain ⟨hguard, rfl⟩ := h
      first
        | exact .complete hguard
        | exact .requestLock hguard.1 hguard.2
        | exact .notifyOne hguard
        | exact .requestUnlock hguard
        | exact .lock hguard.1 hguard.2
        | exact .wait hguard
        | exact .timeout hguard
        | exact .spurious hguard
        | exact .execNop hguard.1 hguard.2
        | exact .skipNop hguard.1 hguard.2
        | exact .clearInhibit hguard
        | exact .unlock hguard

/-- Who has the mutex, read off the two control points. -/
structure AutoNop.MutexInv (s : AutoNop) : Prop where
  request : s.mutex = some .request ↔ s.request = .locked ∨ s.request = .notified
  autoNop : s.mutex = some .autoNop ↔
    s.autoNop = .locked ∨ (∃ timedOut, s.autoNop = .returned timedOut) ∨ s.autoNop = .done

/-- Whoever holds the mutex is between its lock and its unlock, and nobody else is. -/
theorem AutoNop.MutexInv.step {s s' : AutoNop} {a : Action} (h : s.MutexInv)
    (hstep : s.Steps a s') : s'.MutexInv := by
  obtain ⟨hrequest, hautoNop⟩ := h
  -- where the mutex changes hands, the other thread is at a point without it
  cases hstep with
  | notifyOne hphase =>
      refine ⟨by simp [hrequest, hphase], ?_⟩
      show s.mutex = some .autoNop ↔ _
      rw [hautoNop]
      cases hauto : s.autoNop <;> simp [AutoNopPhase.notifyOne]
  | complete hphase | requestLock hphase hmutex | requestUnlock hphase | lock hphase hmutex
  | wait hphase | timeout hphase | spurious hphase | relock hphase hmutex
  | execNop hphase hinhibit | skipNop hphase hinhibit | clearInhibit hphase | unlock hphase =>
      constructor <;> simp_all

theorem AutoNop.mutexInv_run {as : List Action} {s : AutoNop}
    (hrun : autoNopSystem.run .start as = some s) : s.MutexInv :=
  autoNopSystem.history (P := fun _ s => s.MutexInv)
    ⟨by simp [AutoNop.start], by simp [AutoNop.start]⟩
    (fun _ _ _ _ h hstep => h.step (.of_step hstep)) as s hrun

end Swayr.Daemon
