import Mathlib.Logic.Function.Basic

/-!
# Focus data (`focus.rs`)

The tick map shared by the daemon's threads and the messages that travel over
the focus channel. Every operation takes the map's write lock for its whole
body, so each is one atomic map transformer here.
-/

namespace Swayr.Focus

/-- `FocusEvent`: the node receiving the focus and the event's counter. -/
structure FocusEvent where
  nodeId : Int
  evFocusCtr : Nat
deriving DecidableEq, Repr

/-- `FocusMessage`: what the monitor and the request thread send. -/
inductive FocusMessage
  | tickUpdateInhibit
  | tickUpdateActivate
  | focusEvent (fev : FocusEvent)
deriving DecidableEq, Repr

/-- The event carried by a message, if any. -/
def FocusMessage.event? : FocusMessage → Option FocusEvent
  | .focusEvent fev => some fev
  | _ => none

/-- `focus_tick_by_id`. -/
abbrev TickMap := Int → Option Nat

namespace TickMap

/-- The map the daemon starts with. -/
def empty : TickMap := fun _ => none

/-- An id with no entry reads as tick 0. -/
def lastFocusTick (m : TickMap) (id : Int) : Nat := (m id).getD 0

/-- Only an id that is present is written: a missing id belongs to a node that
was closed before its focus event got locked in. -/
def updateLastFocusTick (m : TickMap) (id : Int) (focusVal : Nat) : TickMap :=
  match m id with
  | some _ => Function.update m id (some focusVal)
  | none => m

def removeFocusData (m : TickMap) (id : Int) : TickMap :=
  Function.update m id none

def ensureId (m : TickMap) (id : Int) : TickMap :=
  match m id with
  | none => Function.update m id (some 0)
  | some _ => m

/-- The write that locks in one event. -/
def lockIn (m : TickMap) (fev : FocusEvent) : TickMap :=
  m.updateLastFocusTick fev.nodeId fev.evFocusCtr

/-- Only an id that is in the map gets a tick. -/
theorem updateLastFocusTick_apply (m : TickMap) (id j : Int) (v : Nat) :
    m.updateLastFocusTick id v j =
      if j = id then (m id).map (fun _ => v) else m j := by
  unfold updateLastFocusTick
  cases h : m id with
  | none =>
      by_cases hj : j = id
      · subst hj; simp [h]
      · simp [hj]
  | some t => simp [Function.update_apply]

theorem removeFocusData_apply (m : TickMap) (id j : Int) :
    m.removeFocusData id j = if j = id then none else m j := by
  simp [removeFocusData, Function.update_apply]

/-- An id that is in the map keeps its tick. -/
theorem ensureId_apply (m : TickMap) (id j : Int) :
    m.ensureId id j = if j = id then some ((m id).getD 0) else m j := by
  unfold ensureId
  cases h : m id with
  | none => simp [Function.update_apply]
  | some t =>
      by_cases hj : j = id
      · subst hj; simp [h]
      · simp [hj]

/-- Locking in an event leaves the key set alone. -/
@[simp] theorem lockIn_isSome (m : TickMap) (fev : FocusEvent) (j : Int) :
    (m.lockIn fev j).isSome = (m j).isSome := by
  rw [lockIn, updateLastFocusTick_apply]
  by_cases hj : j = fev.nodeId
  · subst hj; simp
  · simp [hj]

@[simp] theorem ensureId_isSome (m : TickMap) (id j : Int) :
    (m.ensureId id j).isSome = (decide (id = j) || (m j).isSome) := by
  rw [ensureId_apply]
  by_cases hj : j = id
  · simp [hj]
  · simp [hj, Ne.symm hj]

@[simp] theorem removeFocusData_isSome (m : TickMap) (id j : Int) :
    (m.removeFocusData id j).isSome = ((m j).isSome && !decide (id = j)) := by
  rw [removeFocusData_apply]
  by_cases hj : j = id
  · simp [hj]
  · simp [hj, Ne.symm hj]

end TickMap

end Swayr.Focus
