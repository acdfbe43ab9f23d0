import Swayr.Focus.System

/-!
# Closed windows stay gone

A focus event may be locked in long after its window was closed. Because the
lock-in only writes ids that are present, the key set of the tick map is at
every moment decided by the monitor's events alone.
-/

namespace Swayr.Theorems.ClosedWindows

open Kit Swayr.Focus

/-- The events the monitor thread has received along a schedule. -/
def received (as : List Label) : List SwayEvent :=
  as.filterMap fun
    | .handle ev => some ev
    | _ => none

/-- The events handled so far: all received ones, except the latest while its
map operation is still to come. -/
def handled (as : List Label) (s : System) : List SwayEvent :=
  if s.todo.any MonitorOp.isMapOp then (received as).dropLast else received as

/-- The invariant behind the key set: finishing the current handler gives the
ids open after all received events, and until its map operation runs the keys
are those of the events before. -/
structure KeysInv (as : List Label) (s : System) : Prop where
  one_mapOp : s.todo.countP MonitorOp.isMapOp ≤ 1
  finished : ∀ id, (s.todo.foldl MonitorOp.onTicks s.ticks id).isSome ↔
    Open (received as) id
  unfinished : s.todo.any MonitorOp.isMapOp →
    ∀ id, (s.ticks id).isSome ↔ Open (received as).dropLast id

theorem received_append_singleton (as : List Label) (a : Label) :
    received (as ++ [a]) = received as ++ received [a] := by
  simp [received]

/-- Monitor operations read nothing but the keys, as far as keys go. -/
theorem foldl_onTicks_isSome (ops : List MonitorOp) {m m' : TickMap}
    (h : ∀ id, (m id).isSome = (m' id).isSome) (id : Int) :
    (ops.foldl MonitorOp.onTicks m id).isSome =
      (ops.foldl MonitorOp.onTicks m' id).isSome := by
  induction ops generalizing m m' with
  | nil => exact h id
  | cons op rest ih =>
      refine ih fun j => ?_
      cases op <;> simp [MonitorOp.onTicks, h j]

/-- Operations that are not map operations leave the ticks alone. -/
theorem foldl_onTicks_of_no_mapOp (ops : List MonitorOp)
    (h : ops.any MonitorOp.isMapOp = false) (m : TickMap) :
    ops.foldl MonitorOp.onTicks m = m := by
  induction ops with
  | nil => rfl
  | cons op rest ih =>
      simp only [List.any_cons, Bool.or_eq_false_iff] at h
      have hop : op.onTicks m = m := by
        cases op <;> simp_all [MonitorOp.isMapOp, MonitorOp.onTicks]
      rw [List.foldl_cons, hop]
      exact ih h.2

/-- A step that touches neither the key set nor the monitor keeps the
invariant. -/
theorem KeysInv.frame {as : List Label} {a : Label} {s s' : System} (h : KeysInv as s)
    (hrec : received [a] = []) (htodo : s'.todo = s.todo)
    (hkeys : ∀ id, (s'.ticks id).isSome = (s.ticks id).isSome) :
    KeysInv (as ++ [a]) s' := by
  have heq : received (as ++ [a]) = received as := by
    rw [received_append_singleton, hrec, List.append_nil]
  refine ⟨htodo ▸ h.one_mapOp, fun id => ?_, fun hany id => ?_⟩
  · rw [htodo, heq, foldl_onTicks_isSome s.todo hkeys]
    exact h.finished id
  · rw [heq, hkeys]
    exact h.unfinished (htodo ▸ hany) id

/-- A new event is received: its operations are what is left to do. -/
theorem KeysInv.handled {as : List Label} {s : System} {ev : SwayEvent} {n : Nat}
    {ops : List MonitorOp} (h : KeysInv as s) (htodo : s.todo = [])
    (heq : monitorEvent s.focusCounter ev = (n, .handled ops)) :
    KeysInv (as ++ [.handle ev]) { s with focusCounter := n, todo := ops } := by
  have hrec : received (as ++ [.handle ev]) = received as ++ [ev] := by
    rw [received_append_singleton]
    rfl
  have hkeys : ∀ id, (s.ticks id).isSome ↔ Open (received as) id := by
    simpa [htodo] using h.finished
  refine ⟨monitorEvent_countP heq, fun id => ?_, fun _ id => ?_⟩
  · rw [hrec, open_append_singleton, ← hkeys]
    exact monitorEvent_onTicks heq s.ticks id
  · rw [hrec, List.dropLast_concat]
    exact hkeys id

/-- Shutdown, and the panics: the event opens and closes nothing. -/
theorem KeysInv.ended {as : List Label} {s : System} {ev : SwayEvent} {n : Nat}
    (h : KeysInv as s) (htodo : s.todo = [])
    (heq : monitorEvent s.focusCounter ev = (n, .ended)) :
    KeysInv (as ++ [.handle ev]) { s with focusCounter := n, monitoring := false } := by
  have hrec : received (as ++ [.handle ev]) = received as ++ [ev] := by
    rw [received_append_singleton]
    rfl
  have hkeys : ∀ id, (s.ticks id).isSome ↔ Open (received as) id := by
    simpa [htodo] using h.finished
  have hnone : ev.opens? = none ∧ ev.closes? = none := by
    cases ev with
    | window change container => simp [monitorEvent] at heq
    | workspace change current =>
        cases current <;> cases change <;>
          simp_all [monitorEvent, handleWorkspaceEvent, SwayEvent.opens?, SwayEvent.closes?]
    | shutdown => exact ⟨rfl, rfl⟩
    | other => simp [monitorEvent] at heq
  refine ⟨by simp [htodo], fun id => ?_, by simp [htodo]⟩
  rw [hrec, open_append_singleton, hnone.1, hnone.2, ← hkeys]
  simp [htodo]

/-- One of the operations is carried out. -/
theorem KeysInv.monitor {as : List Label} {s : System} {op : MonitorOp}
    {rest : List MonitorOp} (h : KeysInv as s) (htodo : s.todo = op :: rest) :
    KeysInv (as ++ [.monitor]) (s.perform op rest) := by
  have heq : received (as ++ [.monitor]) = received as := by
    rw [received_append_singleton]
    simp [received]
  have hone := h.one_mapOp
  rw [htodo, List.countP_cons] at hone
  refine ⟨by simp only [System.perform]; omega, fun id => ?_, fun hany id => ?_⟩
  · rw [heq, ← h.finished id, htodo]
    rfl
  · -- a map operation is still to come, so `op` was not one
    have hlater : 0 < rest.countP MonitorOp.isMapOp := by
      simpa [List.countP_pos_iff, System.perform] using hany
    have hop : op.isMapOp = false := by
      by_contra hop
      simp only [Bool.not_eq_false] at hop
      rw [if_pos hop] at hone
      omega
    have hticks : (s.perform op rest).ticks = s.ticks := by
      cases op <;> simp_all [MonitorOp.isMapOp, System.perform, MonitorOp.onTicks]
    rw [hticks, heq]
    refine h.unfinished ?_ id
    rw [htodo, List.any_cons, Bool.or_eq_true]
    exact .inr hany

/-- All runs. -/
theorem keysInv_run (seqInhibit : Bool) :
    ∀ as s, (focusSystem seqInhibit).run .start as = some s → KeysInv as s := by
  refine (focusSystem seqInhibit).history
    ⟨by simp [System.start], by simp [System.start, TickMap.empty, received, not_open_nil],
      by simp [System.start]⟩ ?_
  intro as s a s' h hstep
  cases System.Steps.of_step hstep with
  | handled htodo heq => exact h.handled htodo heq
  | ended htodo heq => exact h.ended htodo heq
  | monitor htodo => exact h.monitor htodo
  | request cycling => exact h.frame rfl rfl fun _ => rfl
  | recv _ _ => exact h.frame rfl rfl fun _ => rfl
  | timeout _ _ => exact h.frame rfl rfl fun _ => rfl
  | write hwrites => exact h.frame rfl rfl fun id => TickMap.lockIn_isSome s.ticks _ id

/-- **Closed windows stay gone.** In every interleaving of the three threads
the keys of the tick map are exactly the ids with a New, Focus or Init event
and no later Close or Empty event among the events handled so far. -/
theorem ticks_keys_open (seqInhibit : Bool) (as : List Label) (s : System)
    (hrun : (focusSystem seqInhibit).run .start as = some s) (id : Int) :
    (s.ticks id).isSome ↔ Open (handled as s) id := by
  have h := keysInv_run seqInhibit as s hrun
  unfold handled
  split
  · rename_i hany
    exact h.unfinished hany id
  · rename_i hany
    rw [← h.finished id, foldl_onTicks_of_no_mapOp s.todo (by simpa using hany)]

/-- Window 5 is focused and closed before its lock-in wait runs out; the late
write finds it gone. -/
theorem ticks_keys_open_late_lock_in :
    ∃ s, (focusSystem false).run .start
        [.handle (.window .focus 5), .monitor, .monitor, .monitor, .recv,
          .handle (.window .close 5), .monitor, .timeout, .write] = some s ∧
      s.ticks 5 = none ∧
      ((s.ticks 5).isSome ↔ Open (handled
        [.handle (.window .focus 5), .monitor, .monitor, .monitor, .recv,
          .handle (.window .close 5), .monitor, .timeout, .write] s) 5) :=
  ⟨_, rfl, rfl, ticks_keys_open false _ _ rfl 5⟩

end Swayr.Theorems.ClosedWindows
