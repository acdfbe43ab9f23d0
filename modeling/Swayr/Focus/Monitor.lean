import Swayr.Ipc.EventLoop
import Swayr.Focus.FocusData

/-!
# The monitor thread's event handlers (`daemon.rs`)

Each sway event is turned into a short sequence of operations on the shared
focus data. The operations are listed rather than executed here, because the
other threads run between any two of them.
-/

namespace Swayr.Focus

/-- `swayipc::WindowChange`. -/
inductive WindowChange
  | new | close | focus | title | fullscreenMode | move | floating | urgent | mark
deriving DecidableEq, Repr

/-- `swayipc::WorkspaceChange`. -/
inductive WorkspaceChange
  | init | empty | focus | move | rename | urgent | reload
deriving DecidableEq, Repr

/-- The events the daemon subscribes to, with the fields its handlers read. -/
inductive SwayEvent
  | window (change : WindowChange) (container : Int)
  | workspace (change : WorkspaceChange) (current : Option Int)
  | shutdown
  /-- An event of any other kind. -/
  | other
deriving DecidableEq, Repr

/-- What the monitor thread does to the rest of the daemon, one step each. -/
inductive MonitorOp
  /-- `layout::maybe_auto_tile`, which does not touch the focus data. -/
  | maybeAutoTile
  | ensureId (id : Int)
  | removeFocusData (id : Int)
  /-- The channel's own `send`. -/
  | chanSend (fmsg : FocusMessage)
deriving DecidableEq, Repr

/-- `FocusData::send`: a focus event's node is entered into the map before the
message goes out. -/
def send (fmsg : FocusMessage) : List MonitorOp :=
  (match fmsg with
    | .focusEvent fev => [.ensureId fev.nodeId]
    | _ => []) ++ [.chanSend fmsg]

/-- `handle_window_event`: the operations, and whether the focus data may have
changed. -/
def handleWindowEvent (change : WindowChange) (container : Int) (focusVal : Nat) :
    List MonitorOp × Bool :=
  match change with
  | .focus => (.maybeAutoTile :: send (.focusEvent ⟨container, focusVal⟩), true)
  | .new => ([.maybeAutoTile, .ensureId container], true)
  | .close => ([.removeFocusData container, .maybeAutoTile], true)
  | .move | .floating => ([.maybeAutoTile], false)
  | _ => ([], false)

/-- `handle_workspace_event`; `none` is the panic of its `expect`s on an event
that names no workspace. -/
def handleWorkspaceEvent (change : WorkspaceChange) (current : Option Int)
    (focusVal : Nat) : Option (List MonitorOp × Bool) :=
  match change with
  | .init | .focus =>
      current.map fun id => (send (.focusEvent ⟨id, focusVal⟩), true)
  | .empty => current.map fun id => ([.removeFocusData id], true)
  | _ => some ([], false)

/-- What one event makes of the loop in `monitor_sway_events`. -/
inductive Monitored
  /-- The handler's operations; the loop goes on with the next event. -/
  | handled (ops : List MonitorOp)
  /-- The loop is left, by `break 'reset` or by a panic. -/
  | ended
deriving DecidableEq, Repr

/-- One event in `monitor_sway_events`: the focus counter advances with every
window and workspace event, before the handler sees it. -/
def monitorEvent (focusCounter : Nat) : SwayEvent → Nat × Monitored
  | .window change container =>
      (focusCounter + 1, .handled (handleWindowEvent change container (focusCounter + 1)).1)
  | .workspace change current =>
      (focusCounter + 1,
        match handleWorkspaceEvent change current (focusCounter + 1) with
        | some (ops, _) => .handled ops
        | none => .ended)
  | .shutdown => (focusCounter, .ended)
  | .other => (focusCounter, .handled [])

/-- `monitor_sway_events`: the events handled inside the subscription loop, which
gives up after ten resets. -/
def monitorSwayEvents : Kit.Guarded (Ipc.LoopState Nat MonitorOp) (Ipc.Answer SwayEvent) :=
  Ipc.eventLoop 10 fun focusCounter ev =>
    match monitorEvent focusCounter ev with
    | (n, .handled ops) => (n, some ops)
    | (n, .ended) => (n, none)

/-! ## Which ids an event opens and closes -/

/-- The id a New, Focus or Init event puts under watch. -/
def SwayEvent.opens? : SwayEvent → Option Int
  | .window .new container => some container
  | .window .focus container => some container
  | .workspace .init current => current
  | .workspace .focus current => current
  | _ => none

/-- The id a Close or Empty event retires. -/
def SwayEvent.closes? : SwayEvent → Option Int
  | .window .close container => some container
  | .workspace .empty current => current
  | _ => none

/-- Some New, Focus or Init event for `id` was not followed by a Close or
Empty event for it. -/
def Open (evs : List SwayEvent) (id : Int) : Prop :=
  ∃ before ev after, evs = before ++ ev :: after ∧ ev.opens? = some id ∧
    ∀ late ∈ after, late.closes? ≠ some id

theorem not_open_nil (id : Int) : ¬ Open [] id := by
  rintro ⟨before, ev, after, h, -⟩
  simp at h

/-- The last event decides about the ids it opens or closes. -/
theorem open_append_singleton (evs : List SwayEvent) (ev : SwayEvent) (id : Int) :
    Open (evs ++ [ev]) id ↔
      ev.opens? = some id ∨ (Open evs id ∧ ev.closes? ≠ some id) := by
  constructor
  · rintro ⟨before, e, after, heq, hopen, hlate⟩
    rcases Kit.append_singleton_eq_append_cons heq with ⟨rfl, rfl, rfl⟩ | ⟨front, rfl, rfl⟩
    · exact .inl hopen
    · refine .inr ⟨⟨before, e, front, rfl, hopen, fun l hl => hlate l (by simp [hl])⟩,
        hlate ev (by simp)⟩
  · rintro (hopen | ⟨⟨before, e, after, rfl, hopen, hlate⟩, hev⟩)
    · exact ⟨evs, ev, [], rfl, hopen, by simp⟩
    · refine ⟨before, e, after ++ [ev], by simp, hopen, ?_⟩
      intro late hl
      rcases List.mem_append.mp hl with hl | hl
      · exact hlate late hl
      · obtain rfl := List.mem_singleton.mp hl
        exact hev

/-- The operations that add or remove a key of the map. -/
def MonitorOp.isMapOp : MonitorOp → Bool
  | .ensureId _ | .removeFocusData _ => true
  | _ => false

/-- The effect of one monitor operation on the tick map. -/
def MonitorOp.onTicks (m : TickMap) : MonitorOp → TickMap
  | .ensureId id => m.ensureId id
  | .removeFocusData id => m.removeFocusData id
  | _ => m

/-- Carried out to the end, an event's operations open and close exactly the
ids the event does. -/
theorem monitorEvent_onTicks {n n' : Nat} {ev : SwayEvent} {ops : List MonitorOp}
    (h : monitorEvent n ev = (n', .handled ops)) (m : TickMap) (id : Int) :
    (ops.foldl MonitorOp.onTicks m id).isSome ↔
      ev.opens? = some id ∨ ((m id).isSome ∧ ev.closes? ≠ some id) := by
  cases ev with
  | window change container =>
      simp only [monitorEvent, Prod.mk.injEq, Monitored.handled.injEq] at h
      obtain ⟨-, rfl⟩ := h
      cases change <;>
        simp [handleWindowEvent, send, MonitorOp.onTicks, SwayEvent.opens?,
          SwayEvent.closes?]
  | workspace change current =>
      -- without a workspace Init, Focus and Empty panic
      cases current <;> cases change <;>
        simp [monitorEvent, handleWorkspaceEvent, send] at h <;>
        obtain ⟨-, rfl⟩ := h <;>
        simp [MonitorOp.onTicks, SwayEvent.opens?, SwayEvent.closes?]
  | shutdown => simp [monitorEvent] at h
  | other =>
      simp [monitorEvent] at h
      obtain ⟨-, rfl⟩ := h
      simp [SwayEvent.opens?, SwayEvent.closes?]

/-- No event needs more than one map operation. -/
theorem monitorEvent_countP {n n' : Nat} {ev : SwayEvent} {ops : List MonitorOp}
    (h : monitorEvent n ev = (n', .handled ops)) : ops.countP MonitorOp.isMapOp ≤ 1 := by
  cases ev with
  | window change container =>
      simp only [monitorEvent, Prod.mk.injEq, Monitored.handled.injEq] at h
      obtain ⟨-, rfl⟩ := h
      cases change <;>
        simp [handleWindowEvent, send, List.countP_cons, MonitorOp.isMapOp]
  | workspace change current =>
      cases current <;> cases change <;>
        simp [monitorEvent, handleWorkspaceEvent, send] at h <;>
        obtain ⟨-, rfl⟩ := h <;>
        simp [List.countP_cons, MonitorOp.isMapOp]
  | shutdown => simp [monitorEvent] at h
  | other =>
      simp [monitorEvent] at h
      obtain ⟨-, rfl⟩ := h
      simp

/-! ## The counters the monitor sends -/

/-- The focus event an operation puts on the channel, if any. -/
def MonitorOp.sent? : MonitorOp → Option FocusEvent
  | .chanSend fmsg => fmsg.event?
  | _ => none

/-- The focus events `monitor_sway_events` sends for a list of sway events. -/
def sentEvents : Nat → List SwayEvent → List FocusEvent
  | _, [] => []
  | n, ev :: rest =>
      match monitorEvent n ev with
      | (n', .handled ops) => ops.filterMap MonitorOp.sent? ++ sentEvents n' rest
      | (_, .ended) => []

/-- An event sends at most one focus event, stamped with the advanced counter. -/
theorem monitorEvent_sent {n n' : Nat} {ev : SwayEvent} {ops : List MonitorOp}
    (h : monitorEvent n ev = (n', .handled ops)) :
    n ≤ n' ∧ (ops.filterMap MonitorOp.sent? = [] ∨
      n < n' ∧ ∃ id, ops.filterMap MonitorOp.sent? = [⟨id, n'⟩]) := by
  cases ev with
  | window change container =>
      simp only [monitorEvent, Prod.mk.injEq, Monitored.handled.injEq] at h
      obtain ⟨rfl, rfl⟩ := h
      cases change <;>
        simp [handleWindowEvent, send, List.filterMap_cons, MonitorOp.sent?,
          FocusMessage.event?]
  | workspace change current =>
      cases current <;> cases change <;>
        simp [monitorEvent, handleWorkspaceEvent, send] at h <;>
        obtain ⟨rfl, rfl⟩ := h <;>
        simp [List.filterMap_cons, MonitorOp.sent?, FocusMessage.event?]
  | shutdown => simp [monitorEvent] at h
  | other =>
      simp [monitorEvent] at h
      obtain ⟨rfl, rfl⟩ := h
      simp

/-- The monitor stamps the focus events it sends with strictly increasing
counters. -/
theorem sentEvents_increasing (evs : List SwayEvent) (n : Nat) :
    (sentEvents n evs).Pairwise (·.evFocusCtr < ·.evFocusCtr) ∧
      ∀ fev ∈ sentEvents n evs, n < fev.evFocusCtr := by
  induction evs generalizing n with
  | nil => simp [sentEvents]
  | cons ev rest ih =>
      simp only [sentEvents]
      split
      · rename_i n' ops heq
        obtain ⟨hle, hnone | ⟨hlt, id, hone⟩⟩ := monitorEvent_sent heq
        · obtain ⟨hinc, hgt⟩ := ih n'
          rw [hnone, List.nil_append]
          exact ⟨hinc, fun fev hfev => Nat.lt_of_le_of_lt hle (hgt fev hfev)⟩
        · obtain ⟨hinc, hgt⟩ := ih n'
          rw [hone, List.singleton_append]
          refine ⟨List.pairwise_cons.mpr ⟨fun fev hfev => hgt fev hfev, hinc⟩, ?_⟩
          intro fev hfev
          rcases List.mem_cons.mp hfev with rfl | hfev
          · exact hlt
          · exact Nat.lt_trans hlt (hgt fev hfev)
      · simp

end Swayr.Focus
