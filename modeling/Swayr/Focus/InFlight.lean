import Mathlib.Data.Nat.Basic
import Mathlib.Order.MinMax
import Swayr.Focus.System

/-!
# Focus events on their way to the tick map

A focus event passes from the monitor's handler through the channel and the
lock-in thread to the write. All along this way the events keep the order of
their counters, and every one of them is newer than every tick in the map.
-/

namespace Swayr.Focus

open Kit

/-- Every focus event between the monitor and the tick map, oldest first. -/
def System.inFlight (s : System) : List FocusEvent :=
  s.writes ++ (s.lockIn.inFlight.toList ++
    (s.chan.filterMap FocusMessage.event? ++ s.todo.filterMap MonitorOp.sent?))

/-- The invariant of the events in flight. -/
structure System.Ordered (s : System) : Prop where
  lockIn_inv : s.lockIn.Inv
  increasing : s.inFlight.Pairwise (·.evFocusCtr < ·.evFocusCtr)
  counted : ∀ fev ∈ s.inFlight, fev.evFocusCtr ≤ s.focusCounter
  newer : ∀ fev ∈ s.inFlight, ∀ id, s.ticks.lastFocusTick id < fev.evFocusCtr
  ticks_counted : ∀ id, s.ticks.lastFocusTick id ≤ s.focusCounter

theorem System.Ordered.start : System.start.Ordered where
  lockIn_inv := .start
  increasing := .nil
  counted := by simp [inFlight, System.start, LockIn.start, LockIn.inFlight]
  newer := by simp [inFlight, System.start, LockIn.start, LockIn.inFlight]
  ticks_counted := by simp [System.start, TickMap.empty, TickMap.lastFocusTick]

/-- A step that drops events, raises no tick and does not turn the counter
back keeps the order. -/
theorem System.Ordered.frame {s s' : System} (h : s.Ordered) (hinv : s'.lockIn.Inv)
    (hsub : s'.inFlight.Sublist s.inFlight) (hctr : s.focusCounter ≤ s'.focusCounter)
    (hticks : ∀ id, s'.ticks.lastFocusTick id ≤ s.ticks.lastFocusTick id) : s'.Ordered where
  lockIn_inv := hinv
  increasing := h.increasing.sublist hsub
  counted fev hfev := (h.counted fev (hsub.subset hfev)).trans hctr
  newer fev hfev id := (hticks id).trans_lt (h.newer fev (hsub.subset hfev) id)
  ticks_counted id := (hticks id).trans ((h.ticks_counted id).trans hctr)

/-- Entering a new id or removing one raises no tick. -/
theorem MonitorOp.lastFocusTick_onTicks_le (op : MonitorOp) (m : TickMap) (id : Int) :
    (op.onTicks m).lastFocusTick id ≤ m.lastFocusTick id := by
  cases op with
  | maybeAutoTile => exact le_rfl
  | chanSend fmsg => exact le_rfl
  | ensureId j =>
      simp only [onTicks, TickMap.lastFocusTick, TickMap.ensureId_apply]
      by_cases hj : id = j
      · simp [hj]
      · simp [hj]
  | removeFocusData j =>
      simp only [onTicks, TickMap.lastFocusTick, TickMap.removeFocusData_apply]
      by_cases hj : id = j
      · simp [hj]
      · simp [hj]

/-- A write sets at most one tick, to the event's counter. -/
theorem TickMap.lastFocusTick_lockIn_le (m : TickMap) (fev : FocusEvent) (id : Int) :
    (m.lockIn fev).lastFocusTick id ≤ max (m.lastFocusTick id) fev.evFocusCtr := by
  rw [TickMap.lastFocusTick, TickMap.lockIn, TickMap.updateLastFocusTick_apply]
  by_cases hid : id = fev.nodeId
  · cases m fev.nodeId <;> simp [hid]
  · simp [hid, TickMap.lastFocusTick]

/-- A channel send moves an event from the handler to the channel. -/
theorem System.inFlight_perform (s : System) {op : MonitorOp} {rest : List MonitorOp}
    (htodo : s.todo = op :: rest) : (s.perform op rest).inFlight = s.inFlight := by
  simp only [inFlight, perform, htodo]
  cases op with
  | maybeAutoTile => simp [MonitorOp.sent?, List.filterMap_cons]
  | ensureId id => simp [MonitorOp.sent?, List.filterMap_cons]
  | removeFocusData id => simp [MonitorOp.sent?, List.filterMap_cons]
  | chanSend fmsg =>
      cases fmsg <;> simp [MonitorOp.sent?, FocusMessage.event?, List.filterMap_cons]

/-- A receive drops what it supersedes and keeps the rest in order. -/
theorem System.inFlight_receive (seqInhibit : Bool) (s : System) (r : Recv)
    {rest : List FocusMessage} (hinv : s.lockIn.Inv) (hwrites : s.writes = [])
    (hchan : s.chan.filterMap FocusMessage.event? =
      r.event?.toList ++ rest.filterMap FocusMessage.event?) :
    ((s.receive seqInhibit rest r).inFlight).Sublist s.inFlight := by
  have hstep := (step_sublist seqInhibit (r := r) hinv).append_right
    (rest.filterMap FocusMessage.event? ++ s.todo.filterMap MonitorOp.sent?)
  simpa [inFlight, receive, hwrites, hchan] using hstep

/-- A handled event adds at most one focus event, newer than all others. -/
theorem System.Ordered.handled {s : System} {ev : SwayEvent} {n : Nat} {ops : List MonitorOp}
    (h : s.Ordered) (htodo : s.todo = [])
    (heq : monitorEvent s.focusCounter ev = (n, .handled ops)) :
    System.Ordered { s with focusCounter := n, todo := ops } := by
  have hflight : System.inFlight { s with focusCounter := n, todo := ops } =
      s.inFlight ++ ops.filterMap MonitorOp.sent? := by
    simp [inFlight, htodo]
  obtain ⟨hle, hnone | ⟨hlt, id, hone⟩⟩ := monitorEvent_sent heq
  · -- The event sends nothing.
    refine h.frame h.lockIn_inv ?_ hle fun _ => le_rfl
    rw [hflight, hnone, List.append_nil]
  · -- It sends one event, under a counter larger than all before.
    rw [hone] at hflight
    refine ⟨h.lockIn_inv, ?_, ?_, ?_, fun id => (h.ticks_counted id).trans hle⟩
    · rw [hflight, List.pairwise_append]
      refine ⟨h.increasing, List.pairwise_singleton _ _, fun fev hfev new hnew => ?_⟩
      obtain rfl := List.mem_singleton.mp hnew
      exact (h.counted fev hfev).trans_lt hlt
    · intro fev hfev
      rcases List.mem_append.mp (hflight ▸ hfev) with hold | hnew
      · exact (h.counted fev hold).trans hle
      · obtain rfl := List.mem_singleton.mp hnew
        exact le_rfl
    · intro fev hfev j
      rcases List.mem_append.mp (hflight ▸ hfev) with hold | hnew
      · exact h.newer fev hold j
      · obtain rfl := List.mem_singleton.mp hnew
        exact (h.ticks_counted j).trans_lt hlt

/-- A write makes the oldest event a tick; all events still in flight are
newer. -/
theorem System.Ordered.write {s : System} {fev : FocusEvent} {rest : List FocusEvent}
    (h : s.Ordered) (hwrites : s.writes = fev :: rest) :
    System.Ordered { s with ticks := s.ticks.lockIn fev, writes := rest } := by
  have hflight : s.inFlight =
      fev :: System.inFlight { s with ticks := s.ticks.lockIn fev, writes := rest } := by
    simp [inFlight, hwrites]
  have hinc := hflight ▸ h.increasing
  rw [List.pairwise_cons] at hinc
  refine ⟨h.lockIn_inv, hinc.2, fun e he => h.counted e (hflight ▸ List.mem_cons_of_mem _ he),
    fun e he id => ?_, fun id => ?_⟩
  · exact (TickMap.lastFocusTick_lockIn_le _ _ _).trans_lt
      (max_lt (h.newer e (hflight ▸ List.mem_cons_of_mem _ he) id) (hinc.1 e he))
  · exact (TickMap.lastFocusTick_lockIn_le _ _ _).trans
      (max_le (h.ticks_counted id) (h.counted fev (hflight ▸ List.mem_cons_self)))

/-- Every step keeps the events in flight ordered and newer than the ticks. -/
theorem System.Ordered.step {seqInhibit : Bool} {s s' : System} {a : Label} (h : s.Ordered)
    (hstep : s.Steps seqInhibit a s') : s'.Ordered := by
  cases hstep with
  | handled htodo heq => exact h.handled htodo heq
  | @ended ev n htodo heq =>
      refine h.frame h.lockIn_inv (.refl _) ?_ fun _ => le_rfl
      show s.focusCounter ≤ n
      cases ev <;> simp [monitorEvent] at heq <;> omega
  | monitor htodo =>
      refine h.frame h.lockIn_inv (s.inFlight_perform htodo ▸ .refl _) le_rfl fun id => ?_
      exact MonitorOp.lastFocusTick_onTicks_le _ _ _
  | request cycling =>
      refine h.frame h.lockIn_inv ?_ le_rfl fun _ => le_rfl
      cases cycling <;> simp [inFlight, FocusMessage.event?]
  | @recv m rest hwrites hchan =>
      refine h.frame h.lockIn_inv.next (s.inFlight_receive seqInhibit (.msg m) h.lockIn_inv hwrites
        ?_) le_rfl fun _ => le_rfl
      rw [hchan]
      cases m <;> simp [Recv.event?, FocusMessage.event?, List.filterMap_cons]
  | timeout hwrites hchan =>
      refine h.frame h.lockIn_inv.next (s.inFlight_receive seqInhibit .timeout h.lockIn_inv hwrites
        ?_) le_rfl fun _ => le_rfl
      simp [hchan, Recv.event?]
  | write hwrites => exact h.write hwrites

end Swayr.Focus
