import Swayr.Kit.Guarded

/-!
# The subscription loop (`daemon.rs`, `bar.rs`)

`monitor_sway_events` and swayrbar's `handle_sway_events` subscribe to sway's
events in the same two loops: an outer one that connects, and an inner one over
the items of the stream. `resets` counts the turns of the outer loop; every item
of the stream clears it, an error as much as an event.

The loop only waits for its environment. Its answers are the labels of the
system, each possible where the loop asks for it.
-/

namespace Swayr.Ipc

/-- What the loop is told next. -/
inductive Answer (ε : Type)
  /-- Connecting or subscribing failed. -/
  | refused
  | subscribed
  /-- The stream's next item is an event. -/
  | event (ev : ε)
  /-- The stream's next item is an error. -/
  | error
  /-- The stream has no more items. -/
  | ended
deriving DecidableEq, Repr

inductive Place
  /-- In the outer loop, at the call that subscribes. -/
  | connecting
  /-- In the inner loop, at the stream's next item. -/
  | reading
  /-- Behind both loops. -/
  | over
deriving DecidableEq, Repr

/-- `data` is what the handler keeps, `out` what it has done so far. -/
structure LoopState (σ ο : Type) where
  place : Place
  resets : Nat
  data : σ
  out : List ο
deriving DecidableEq, Repr

variable {σ ε ο : Type} (maxResets : Nat)

/-- The top of the outer loop. -/
def turn (s : LoopState σ ο) : LoopState σ ο :=
  if maxResets ≤ s.resets then { s with place := .over }
  else { s with place := .connecting, resets := s.resets + 1 }

/-- The loop when it has made its first turn. -/
def loopStart (data : σ) : LoopState σ ο := turn maxResets ⟨.connecting, 0, data, []⟩

/-- The two loops around a handler, which returns nothing if it leaves them. -/
def eventLoop (handle : σ → ε → σ × Option (List ο)) :
    Kit.Guarded (LoopState σ ο) (Answer ε) where
  step s a :=
    match s.place, a with
    | .connecting, .refused => some (turn maxResets s)
    | .connecting, .subscribed => some { s with place := .reading }
    | .reading, .event ev =>
        match handle s.data ev with
        | (data, some out) => some ⟨.reading, 0, data, s.out ++ out⟩
        | (data, none) => some ⟨.over, 0, data, s.out⟩
    -- logged and slept over; the inner loop goes on
    | .reading, .error => some { s with resets := 0 }
    | .reading, .ended => some (turn maxResets s)
    | _, _ => none

/-- What the answers do to the place and the counter, whatever the handler. -/
theorem eventLoop_step {handle : σ → ε → σ × Option (List ο)} {s s' : LoopState σ ο}
    {a : Answer ε} (h : (eventLoop maxResets handle).step s a = some s') :
    (s.place = .connecting ∧ a = .refused ∧ s' = turn maxResets s) ∨
    (s.place = .connecting ∧ a = .subscribed ∧ s'.place = .reading ∧ s'.resets = s.resets) ∨
    (s.place = .reading ∧ a = .ended ∧ s' = turn maxResets s) ∨
    (s.place = .reading ∧ a = .error ∧ s'.place = .reading ∧ s'.resets = 0) ∨
    ∃ ev, s.place = .reading ∧ a = .event ev ∧
      (s'.place = .reading ∧ s'.resets = 0 ∧ (handle s.data ev).2 ≠ none ∨
        s'.place = .over ∧ (handle s.data ev).2 = none) := by
  unfold eventLoop at h
  -- Five of the pairs of a place and an answer are transitions.
  cases hplace : s.place <;> cases a <;> simp only [hplace] at h
  case connecting.refused =>
      obtain rfl := Option.some.inj h
      exact .inl ⟨rfl, rfl, rfl⟩
  case connecting.subscribed =>
      obtain rfl := Option.some.inj h
      exact .inr (.inl ⟨rfl, rfl, rfl, rfl⟩)
  case reading.ended =>
      obtain rfl := Option.some.inj h
      exact .inr (.inr (.inl ⟨rfl, rfl, rfl⟩))
  case reading.error =>
      obtain rfl := Option.some.inj h
      exact .inr (.inr (.inr (.inl ⟨rfl, rfl, rfl, rfl⟩)))
  case reading.event ev =>
      -- A handler without a result leaves both loops.
      refine .inr (.inr (.inr (.inr ⟨ev, rfl, rfl, ?_⟩)))
      split at h
      · rename_i heq
        obtain rfl := Option.some.inj h
        exact .inl ⟨rfl, rfl, by simp [heq]⟩
      · rename_i heq
        obtain rfl := Option.some.inj h
        exact .inr ⟨rfl, by simp [heq]⟩
  all_goals exact absurd h (by simp)

end Swayr.Ipc
