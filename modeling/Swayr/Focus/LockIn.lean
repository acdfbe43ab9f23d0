import Mathlib.Data.List.Basic
import Swayr.Kit.Transducer
import Swayr.Focus.FocusData

/-!
# The lock-in thread (`focus_lock_in_handler`)

Two nested receive loops decide which focus events reach
`update_last_focus_tick`. The control point, `pending_fev` and the inhibit
toggle make up the state; one `recv`/`recv_timeout` result is one input; the
events handed to `update_last_focus_tick` are the outputs.

The whole module rests on one invariant: at every moment the events passed on
so far, followed by the event still in flight (if any), are a subsequence of
the events received (`handler_sublist`). Order, at-most-once and "nothing is
lost" are read off it.
-/

namespace Swayr.Focus

open Kit

inductive InhibitState
  | focusInhibit
  | focusActive
deriving DecidableEq, Repr

def InhibitState.set : InhibitState → InhibitState
  | .focusActive => .focusInhibit
  | s => s

def InhibitState.clear : InhibitState → InhibitState
  | .focusInhibit => .focusActive
  | s => s

@[simp] theorem InhibitState.set_eq (s : InhibitState) : s.set = .focusInhibit := by
  cases s <;> rfl

@[simp] theorem InhibitState.clear_eq (s : InhibitState) : s.clear = .focusActive := by
  cases s <;> rfl

/-- Which receive the thread is blocked in. -/
inductive Loop
  /-- The outer loop's `recv`. -/
  | outer
  /-- The inner loop's `recv_timeout`, waiting to lock in `fev`. -/
  | inner (fev : FocusEvent)
  /-- The channel was disconnected and the thread returned. -/
  | returned
deriving DecidableEq, Repr

/-- The handler's variables together with its control point. -/
structure LockIn where
  pendingFev : Option FocusEvent
  inhibit : InhibitState
  loop : Loop
deriving DecidableEq, Repr

/-- The result of one receive. `timeout` stands for `lockin_delay` passing
without a message; the outer loop's `recv` has no deadline and does not notice
it. -/
inductive Recv
  | msg (m : FocusMessage)
  | timeout
  | disconnected
deriving DecidableEq, Repr

/-- The event a receive delivers, if any. -/
def Recv.event? : Recv → Option FocusEvent
  | .msg m => m.event?
  | _ => none

/-- The handler's local closure `update_focus`: the events it passes on. -/
def updateFocus (fev : Option FocusEvent) : List FocusEvent := fev.toList

/-- One iteration of the outer loop. -/
def outerStep (seqInhibit : Bool) (s : LockIn) : Recv → LockIn × List FocusEvent
  | .disconnected => ({ s with loop := .returned }, [])
  | .timeout => (s, [])
  | .msg .tickUpdateInhibit =>
      if !seqInhibit then (s, [])
      else ({ s with inhibit := s.inhibit.set }, [])
  | .msg .tickUpdateActivate =>
      if !seqInhibit then (s, [])
      else ({ s with inhibit := s.inhibit.clear, pendingFev := none },
        updateFocus s.pendingFev)
  | .msg (.focusEvent fev) =>
      match s.inhibit with
      -- update the pending event but take no further action
      | .focusInhibit => ({ s with pendingFev := some fev }, [])
      | .focusActive => ({ s with loop := .inner fev }, [])

/-- One iteration of the inner loop while `fev` waits for its lock-in. -/
def innerStep (seqInhibit : Bool) (s : LockIn) (fev : FocusEvent) :
    Recv → LockIn × List FocusEvent
  | .disconnected => ({ s with loop := .returned }, [])
  | .timeout => ({ s with loop := .outer }, updateFocus (some fev))
  | .msg .tickUpdateInhibit =>
      if !seqInhibit then (s, [])
      else ({ inhibit := s.inhibit.set, pendingFev := some fev, loop := .outer }, [])
  | .msg .tickUpdateActivate =>
      if !seqInhibit then (s, [])
      else ({ s with inhibit := s.inhibit.clear, loop := .outer },
        updateFocus (some fev))
  | .msg (.focusEvent newFev) => ({ s with loop := .inner newFev }, [])

/-- `focus_lock_in_handler` as a transducer from receives to lock-ins. -/
def focusLockInHandler (seqInhibit : Bool) : Transducer LockIn Recv FocusEvent where
  step s r :=
    match s.loop with
    | .outer => outerStep seqInhibit s r
    | .inner fev => innerStep seqInhibit s fev r
    | .returned => (s, [])

/-- The state in which the thread enters its outer loop for the first time. -/
def LockIn.start : LockIn := ⟨none, .focusActive, .outer⟩

/-! ## The handler's invariant -/

/-- `pending_fev` is only set while inhibited, and the inner loop is only
entered while active: at most one event is in flight. -/
structure LockIn.Inv (s : LockIn) : Prop where
  pending_none : s.inhibit = .focusActive → s.pendingFev = none
  inner_active : ∀ fev, s.loop = .inner fev → s.inhibit = .focusActive

theorem LockIn.Inv.start : LockIn.start.Inv := ⟨fun _ => rfl, by simp [LockIn.start]⟩

/-- The event received but neither passed on nor superseded. -/
def LockIn.inFlight (s : LockIn) : Option FocusEvent :=
  match s.loop with
  | .outer => s.pendingFev
  | .inner fev => some fev
  | .returned => none

variable {seqInhibit : Bool} {s : LockIn} {r : Recv}

/-- Both loops keep the invariant, whatever they receive. -/
theorem LockIn.Inv.next (h : s.Inv) : ((focusLockInHandler seqInhibit).next s r).Inv := by
  obtain ⟨pending, inhibit, loop⟩ := s
  obtain ⟨hpending, hinner⟩ := h
  simp only [Transducer.next, focusLockInHandler]
  -- every branch either keeps the two fields or sets both as the invariant asks
  cases loop with
  | returned => exact ⟨hpending, hinner⟩
  | outer =>
      cases r with
      | disconnected => exact ⟨hpending, by simp [outerStep]⟩
      | timeout => exact ⟨hpending, hinner⟩
      | msg m =>
          cases m <;> cases seqInhibit <;> cases inhibit <;>
            simp_all [outerStep] <;> constructor <;> simp_all
  | inner fev =>
      have hactive : inhibit = .focusActive := hinner fev rfl
      have hnone : pending = none := hpending hactive
      subst hactive hnone
      cases r with
      | disconnected => exact ⟨fun _ => rfl, by simp [innerStep]⟩
      | timeout => exact ⟨fun _ => rfl, by simp [innerStep]⟩
      | msg m =>
          cases m <;> cases seqInhibit <;>
            simp [innerStep] <;> constructor <;> simp

/-- What a step emits, followed by what it leaves in flight, comes from what
was in flight followed by what it received. -/
theorem step_sublist (seqInhibit : Bool) (h : s.Inv) :
    ((focusLockInHandler seqInhibit).emit s r ++
        ((focusLockInHandler seqInhibit).next s r).inFlight.toList).Sublist
      (s.inFlight.toList ++ r.event?.toList) := by
  obtain ⟨pending, inhibit, loop⟩ := s
  obtain ⟨hpending, hinner⟩ := h
  simp only [Transducer.next, Transducer.emit, focusLockInHandler]
  -- What is emitted or kept was in flight before or has just arrived; the rest is dropped.
  cases loop with
  | returned => simp [LockIn.inFlight]
  | outer =>
      cases r with
      | disconnected => simp [outerStep, LockIn.inFlight]
      | timeout => simp [outerStep, LockIn.inFlight, Recv.event?]
      | msg m =>
          cases m <;> cases seqInhibit <;> cases inhibit <;>
            simp_all [outerStep, LockIn.inFlight, Recv.event?,
              FocusMessage.event?, updateFocus]
  | inner fev =>
      have hnone : pending = none := hpending (hinner fev rfl)
      cases r with
      | disconnected => simp [innerStep, LockIn.inFlight]
      | timeout => simp [innerStep, LockIn.inFlight, Recv.event?, updateFocus, hnone]
      | msg m =>
          cases m <;> cases seqInhibit <;>
            simp [innerStep, LockIn.inFlight, Recv.event?,
              FocusMessage.event?, updateFocus, hnone]

/-- A receive that neither brings a new event nor ends the thread loses
nothing: what was in flight is passed on or stays in flight. -/
theorem step_keeps (seqInhibit : Bool) (h : s.Inv) (hrun : s.loop ≠ .returned)
    (hev : r.event? = none)
    (hcon : r ≠ .disconnected) :
    (focusLockInHandler seqInhibit).emit s r ++
        ((focusLockInHandler seqInhibit).next s r).inFlight.toList =
      s.inFlight.toList := by
  obtain ⟨pending, inhibit, loop⟩ := s
  obtain ⟨hpending, hinner⟩ := h
  simp only [Transducer.next, Transducer.emit, focusLockInHandler]
  -- In the inner loop the event in flight is the one it waits with, and none is pending.
  cases loop with
  | returned => exact absurd rfl hrun
  | outer =>
      cases r with
      | disconnected => exact absurd rfl hcon
      | timeout => simp [outerStep, LockIn.inFlight]
      | msg m =>
          cases m <;> cases seqInhibit <;>
            simp_all [outerStep, LockIn.inFlight, Recv.event?,
              FocusMessage.event?, updateFocus]
  | inner fev =>
      have hnone : pending = none := hpending (hinner fev rfl)
      cases r with
      | disconnected => exact absurd rfl hcon
      | timeout => simp [innerStep, LockIn.inFlight, updateFocus, hnone]
      | msg m =>
          cases m <;> cases seqInhibit <;>
            simp_all [innerStep, LockIn.inFlight, Recv.event?,
              FocusMessage.event?, updateFocus]

/-- Only a disconnect ends the thread. -/
theorem next_running (hrun : s.loop ≠ .returned) (hcon : r ≠ .disconnected) :
    ((focusLockInHandler seqInhibit).next s r).loop ≠ .returned := by
  obtain ⟨pending, inhibit, loop⟩ := s
  simp only [Transducer.next, focusLockInHandler]
  cases loop with
  | returned => exact absurd rfl hrun
  | outer =>
      cases r with
      | disconnected => exact absurd rfl hcon
      | timeout => simp [outerStep]
      | msg m => cases m <;> cases seqInhibit <;> cases inhibit <;> simp [outerStep]
  | inner fev =>
      cases r with
      | disconnected => exact absurd rfl hcon
      | timeout => simp [innerStep]
      | msg m => cases m <;> cases seqInhibit <;> simp [innerStep]

/-- A new event supersedes the one in flight and is not passed on at once. -/
theorem step_focusEvent (seqInhibit : Bool) (h : s.Inv) (hrun : s.loop ≠ .returned)
    (fev : FocusEvent) :
    (focusLockInHandler seqInhibit).emit s (.msg (.focusEvent fev)) = [] ∧
      ((focusLockInHandler seqInhibit).next s (.msg (.focusEvent fev))).inFlight =
        some fev := by
  obtain ⟨pending, inhibit, loop⟩ := s
  simp only [Transducer.next, Transducer.emit, focusLockInHandler]
  cases loop with
  | returned => exact absurd rfl hrun
  | outer => cases inhibit <;> simp [outerStep, LockIn.inFlight]
  | inner old => simp [innerStep, LockIn.inFlight]

/-- With inhibition enabled, an activate leaves nothing in flight. -/
theorem step_activate (h : s.Inv) :
    ((focusLockInHandler true).next s (.msg .tickUpdateActivate)).inFlight = none := by
  obtain ⟨pending, inhibit, loop⟩ := s
  obtain ⟨hpending, hinner⟩ := h
  simp only [Transducer.next, focusLockInHandler]
  cases loop with
  | returned => simp [LockIn.inFlight]
  | outer => simp [outerStep, LockIn.inFlight]
  | inner fev => simpa [innerStep, LockIn.inFlight] using hpending (hinner fev rfl)

/-! ## Freezing -/

/-- The handler passes nothing on until the next activate: it is inhibited or
has returned. -/
def LockIn.Frozen (s : LockIn) : Prop :=
  s.inhibit = .focusInhibit ∨ s.loop = .returned

/-- An inhibit freezes the handler in whichever loop it arrives, and passes
nothing on itself. -/
theorem step_inhibit :
    (focusLockInHandler true).emit s (.msg .tickUpdateInhibit) = [] ∧
      ((focusLockInHandler true).next s (.msg .tickUpdateInhibit)).Frozen := by
  obtain ⟨pending, inhibit, loop⟩ := s
  simp only [Transducer.next, Transducer.emit, focusLockInHandler, LockIn.Frozen]
  cases loop <;> simp [outerStep, innerStep]

/-- A frozen handler stays frozen, and silent, until an activate arrives. -/
theorem Frozen.next (h : s.Inv) (hf : s.Frozen) (hr : r ≠ .msg .tickUpdateActivate) :
    (focusLockInHandler true).emit s r = [] ∧
      ((focusLockInHandler true).next s r).Frozen := by
  obtain ⟨pending, inhibit, loop⟩ := s
  simp only [Transducer.next, Transducer.emit, focusLockInHandler, LockIn.Frozen] at hf ⊢
  cases loop with
  | returned => simp
  | inner fev =>
      -- the inner loop is unreachable while inhibited
      have hactive : inhibit = .focusActive := h.inner_active fev rfl
      simp [hactive] at hf
  | outer =>
      have hinh : inhibit = .focusInhibit := by simpa using hf
      subst hinh
      cases r with
      | disconnected => simp [outerStep]
      | timeout => simp [outerStep]
      | msg m => cases m <;> simp_all [outerStep]

/-! ## Whole runs -/

/-- The events a list of receives delivers. -/
def focusEvents (rs : List Recv) : List FocusEvent := rs.filterMap Recv.event?

theorem focusEvents_cons (r : Recv) (rs : List Recv) :
    focusEvents (r :: rs) = r.event?.toList ++ focusEvents rs := by
  cases h : r.event? <;> simp [focusEvents, h]

theorem inv_run (seqInhibit : Bool) (rs : List Recv) :
    ((focusLockInHandler seqInhibit).run .start rs).Inv :=
  (focusLockInHandler seqInhibit).invariant (fun _ _ h => h.next) LockIn.Inv.start rs

/-- Without a disconnect the thread keeps running. -/
theorem running_run (rs : List Recv) (hcon : ∀ r ∈ rs, r ≠ .disconnected) :
    ((focusLockInHandler seqInhibit).run .start rs).loop ≠ .returned := by
  induction rs using List.reverseRecOn with
  | nil => simp [LockIn.start]
  | append_singleton rs r ih =>
      rw [Transducer.run_append]
      exact next_running (ih fun x hx => hcon x (List.mem_append_left _ hx))
        (hcon r (by simp))

/-- From any state, what is passed on and what is left in flight comes, in this
order, from what was in flight and what is received. -/
theorem outputs_sublist (seqInhibit : Bool) (rs : List Recv) (hinv : s.Inv) :
    ((focusLockInHandler seqInhibit).outputs s rs ++
        ((focusLockInHandler seqInhibit).run s rs).inFlight.toList).Sublist
      (s.inFlight.toList ++ focusEvents rs) := by
  induction rs generalizing s with
  | nil => simp [focusEvents]
  | cons r rest ih =>
      have hnext : ((focusLockInHandler seqInhibit).next s r).Inv := hinv.next
      have hstep := (step_sublist seqInhibit (r := r) hinv).append_right (focusEvents rest)
      have hrest := (ih hnext).append_left ((focusLockInHandler seqInhibit).emit s r)
      rw [List.append_assoc, List.append_assoc] at hstep
      rw [Transducer.outputs_cons, Transducer.run_cons, List.append_assoc, focusEvents_cons]
      exact hrest.trans hstep

/-- Events are passed on in the order they were received, each at most once,
and never once a later one has been passed on: with the event in flight
appended they are a subsequence of what was received. -/
theorem handler_sublist (rs : List Recv) :
    ((focusLockInHandler seqInhibit).outputs .start rs ++
        ((focusLockInHandler seqInhibit).run .start rs).inFlight.toList).Sublist
      (focusEvents rs) :=
  outputs_sublist seqInhibit rs LockIn.Inv.start

/-- Over receives that bring no new event, what was in flight at the start is
passed on or still in flight at the end. -/
theorem run_keeps (seqInhibit : Bool) (rs : List Recv) (hinv : s.Inv) (hrun : s.loop ≠ .returned)
    (hev : ∀ r ∈ rs, r.event? = none) (hcon : ∀ r ∈ rs, r ≠ .disconnected) :
    (focusLockInHandler seqInhibit).outputs s rs ++
        ((focusLockInHandler seqInhibit).run s rs).inFlight.toList =
      s.inFlight.toList := by
  induction rs generalizing s with
  | nil => rfl
  | cons r rest ih =>
      have hr := step_keeps seqInhibit hinv hrun
        (hev r List.mem_cons_self) (hcon r List.mem_cons_self)
      rw [Transducer.outputs_cons, Transducer.run_cons, List.append_assoc,
        ih hinv.next (next_running hrun (hcon r List.mem_cons_self))
          (fun x hx => hev x (List.mem_cons_of_mem _ hx))
          (fun x hx => hcon x (List.mem_cons_of_mem _ hx))]
      exact hr

/-- A frozen handler is silent over any receives without an activate. -/
theorem run_frozen (rs : List Recv) (hinv : s.Inv) (hf : s.Frozen)
    (hr : ∀ r ∈ rs, r ≠ .msg .tickUpdateActivate) :
    (focusLockInHandler true).outputs s rs = [] := by
  induction rs generalizing s with
  | nil => rfl
  | cons r rest ih =>
      obtain ⟨hemit, hnext⟩ := Frozen.next hinv hf (hr r List.mem_cons_self)
      rw [Transducer.outputs_cons, hemit, List.nil_append]
      exact ih hinv.next hnext (fun x hx => hr x (List.mem_cons_of_mem _ hx))

end Swayr.Focus
