import Swayr.Focus.LockIn

/-!
# The lock-in thread in time

Messages arrive at given times and the channel stays open after the last one.
Handling a message takes no time, so every wait begins when the message before
it arrives, and a `recv_timeout` runs out exactly if the next message comes more
than `lockin_delay` later. The outer loop has no deadline and does not notice.
-/

namespace Swayr.Focus

open Kit

/-- A message and the time at which it arrives. -/
structure Arrival where
  time : Int
  msg : FocusMessage
deriving DecidableEq, Repr

def Arrival.isEvent (a : Arrival) : Bool := a.msg.event?.isSome

/-- A wait that begins with the arrival of `a` runs out before the next message
arrives. -/
def quiet (delay : Nat) (a : Arrival) (rest : List Arrival) : Bool :=
  rest.head?.all fun b => delay < b.time - a.time

/-- What the receives return, one after the other. -/
def receives (delay : Nat) : List Arrival → List Recv
  | [] => []
  | a :: rest =>
      .msg a.msg :: ((if quiet delay a rest then [.timeout] else []) ++ receives delay rest)

/-- The events passed to `update_last_focus_tick`. -/
def lockedIn (seqInhibit : Bool) (delay : Nat) (arrivals : List Arrival) : List FocusEvent :=
  (focusLockInHandler seqInhibit).outputs .start (receives delay arrivals)

/-! ## The handler while nothing is inhibited -/

/-- The handler waits to lock in an event, or for a first one. -/
def LockIn.waiting (w : Option FocusEvent) : LockIn :=
  ⟨none, .focusActive, w.elim .outer .inner⟩

section waiting

variable (seqInhibit : Bool) (w : Option FocusEvent) (rs : List Recv)

/-- A newer event takes the place of the one that is waiting. -/
theorem outputs_focusEvent (fev : FocusEvent) :
    (focusLockInHandler seqInhibit).outputs (.waiting w) (.msg (.focusEvent fev) :: rs) =
      (focusLockInHandler seqInhibit).outputs (.waiting (some fev)) rs := by
  cases w <;> rfl

/-- Time is up: what was waiting is locked in. -/
theorem outputs_timeout :
    (focusLockInHandler seqInhibit).outputs (.waiting w) (.timeout :: rs) =
      w.toList ++ (focusLockInHandler seqInhibit).outputs (.waiting none) rs := by
  cases w <;> rfl

/-- Without `seq_inhibit` the other messages change nothing. -/
theorem outputs_ignored {m : FocusMessage} (h : m.event? = none) :
    (focusLockInHandler false).outputs (.waiting w) (.msg m :: rs) =
      (focusLockInHandler false).outputs (.waiting w) rs := by
  cases w <;> cases m <;> first | rfl | simp [FocusMessage.event?] at h

/-- If the next message is a focus event, the one waiting is locked in exactly
if the wait runs out. -/
theorem outputs_before_event {a : Arrival} {rest : List Arrival} (fev : FocusEvent)
    (h : ∀ b ∈ rest.head?, b.isEvent) (delay : Nat) :
    (focusLockInHandler seqInhibit).outputs (.waiting (some fev))
        ((if quiet delay a rest then [.timeout] else []) ++ receives delay rest) =
      (if quiet delay a rest then [fev] else []) ++
        (focusLockInHandler seqInhibit).outputs (.waiting none) (receives delay rest) := by
  split
  · rw [List.singleton_append, outputs_timeout]
    rfl
  · rename_i hquiet
    cases rest with
    | nil => simp [quiet] at hquiet
    | cons b rest =>
        -- the new event takes the place of the one waiting
        obtain ⟨next, hnext⟩ := Option.isSome_iff_exists.mp (h b (by simp))
        have hb : b.msg = .focusEvent next := by
          cases hm : b.msg <;> simp_all [FocusMessage.event?]
        rw [List.nil_append, List.nil_append, receives, hb, outputs_focusEvent, outputs_focusEvent]

end waiting

end Swayr.Focus
