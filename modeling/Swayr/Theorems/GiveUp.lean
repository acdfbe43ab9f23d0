import Swayr.Bar.Module

/-!
# When the event loops give up

`resets` counts attempts to subscribe and is cleared by every item of a stream.
The loops therefore end exactly when as many attempts in a row as the limit says
were refused or gave a stream without a single item (`Counted`, an invariant of
all runs). An error is an item: it clears the counter, and the inner loop goes on
with the same stream. The end of a stream that had items is no failed attempt.
-/

namespace Swayr.Theorems.GiveUp

open Ipc Focus

variable {σ ε ο : Type}

/-! ## Failures -/

/-- The attempts, since the last item, that were refused or gave a stream without
items; the history is newest first. -/
def failedAttempts : List (Answer ε) → Nat
  | [] => 0
  | .refused :: older => failedAttempts older + 1
  | .ended :: .subscribed :: older => failedAttempts older + 1
  | .ended :: older | .subscribed :: older => failedAttempts older
  | .event _ :: _ | .error :: _ => 0

/-- The failures of any kind since the last event. -/
def failures : List (Answer ε) → Nat
  | [] => 0
  | .event _ :: _ => 0
  | .subscribed :: older => failures older
  | .refused :: older | .error :: older | .ended :: older => failures older + 1

/-- The errors since the last event. -/
def errors : List (Answer ε) → Nat
  | [] => 0
  | .event _ :: _ => 0
  | .error :: older => errors older + 1
  | .refused :: older | .subscribed :: older | .ended :: older => errors older

/-! ## The counter -/

section counter

variable {maxResets : Nat} {stops : ε → Prop}

/-- What `resets` has counted, at each place. -/
inductive Counted (maxResets : Nat) (stops : ε → Prop) :
    List (Answer ε) → LoopState σ ο → Prop
  | connecting {hist : List (Answer ε)} {s : LoopState σ ο} : s.place = .connecting →
      s.resets = failedAttempts hist + 1 → failedAttempts hist < maxResets →
      (∀ ev older, hist ≠ .event ev :: older) → Counted maxResets stops hist s
  /-- The stream has had no item. -/
  | fresh {older : List (Answer ε)} {s : LoopState σ ο} : s.place = .reading →
      s.resets = failedAttempts older + 1 → failedAttempts older < maxResets →
      Counted maxResets stops (.subscribed :: older) s
  | error {older : List (Answer ε)} {s : LoopState σ ο} : s.place = .reading →
      s.resets = 0 → Counted maxResets stops (.error :: older) s
  | event {ev : ε} {older : List (Answer ε)} {s : LoopState σ ο} : s.place = .reading →
      s.resets = 0 → ¬ stops ev → Counted maxResets stops (.event ev :: older) s
  | stopped {ev : ε} {older : List (Answer ε)} {s : LoopState σ ο} : s.place = .over →
      stops ev → Counted maxResets stops (.event ev :: older) s
  | givenUp {hist : List (Answer ε)} {s : LoopState σ ο} : s.place = .over →
      failedAttempts hist = maxResets → Counted maxResets stops hist s

/-- A turn of the outer loop after `resets` failed attempts. -/
theorem counted_turn {hist : List (Answer ε)} {s : LoopState σ ο}
    (hcount : s.resets = failedAttempts hist) (hle : failedAttempts hist ≤ maxResets)
    (hne : ∀ ev older, hist ≠ .event ev :: older) :
    Counted maxResets stops hist (turn maxResets s) := by
  unfold turn
  split
  · exact .givenUp rfl (by omega)
  · exact .connecting rfl (by simp only [hcount]) (by omega) hne

section step

variable {handle : σ → ε → σ × Option (List ο)}

/-- One more answer. -/
theorem counted_step (hpos : 0 < maxResets)
    (hstops : ∀ d ev, (handle d ev).2 = none ↔ stops ev) {hist : List (Answer ε)}
    {s s' : LoopState σ ο} {a : Answer ε} (hc : Counted maxResets stops hist s)
    (h : (eventLoop maxResets handle).step s a = some s') :
    Counted maxResets stops (a :: hist) s' := by
  rcases eventLoop_step maxResets h with ⟨hs, rfl, rfl⟩ | ⟨hs, rfl, hplace, hresets⟩ |
    ⟨hs, rfl, rfl⟩ | ⟨hs, rfl, hplace, hresets⟩ | ⟨ev, hs, rfl, hev⟩
  · -- refused
    cases hc with
    | connecting _ hcount hlt _ =>
        exact counted_turn (by simp only [hcount, failedAttempts])
          (by simp only [failedAttempts]; omega) (by simp)
    | fresh h' | error h' | event h' | stopped h' | givenUp h' => simp [hs] at h'
  · cases hc with
    | connecting _ hcount hlt _ => exact .fresh hplace (by rw [hresets, hcount]) hlt
    | fresh h' | error h' | event h' | stopped h' | givenUp h' => simp [hs] at h'
  · -- the stream has ended, with or without items
    cases hc with
    | fresh _ hcount hlt =>
        exact counted_turn (by simp only [hcount, failedAttempts])
          (by simp only [failedAttempts]; omega) (by simp)
    | error _ hzero | event _ hzero _ =>
        exact counted_turn (by simp only [hzero, failedAttempts])
          (by simp only [failedAttempts]; omega) (by simp)
    | connecting h' | stopped h' | givenUp h' => simp [hs] at h'
  · exact .error hplace hresets
  · rcases hev with ⟨hplace, hresets, hgo⟩ | ⟨hplace, hstop⟩
    · exact .event hplace hresets fun hstop => hgo ((hstops _ _).mpr hstop)
    · exact .stopped hplace ((hstops _ _).mp hstop)

/-- All runs. -/
theorem counted_run (hpos : 0 < maxResets)
    (hstops : ∀ d ev, (handle d ev).2 = none ↔ stops ev) (data : σ) :
    ∀ as s, (eventLoop maxResets handle).run (loopStart maxResets data) as = some s →
      Counted maxResets stops as.reverse s := by
  refine (eventLoop maxResets handle).history ?_ ?_
  · exact counted_turn rfl (Nat.zero_le _) (by simp)
  · intro as s a s' hc hstep
    rw [List.reverse_append]
    exact counted_step hpos hstops hc hstep

end step

/-- The two ways in which the loops end. -/
theorem Counted.over_iff (hpos : 0 < maxResets) {hist : List (Answer ε)} {s : LoopState σ ο}
    (hc : Counted maxResets stops hist s) :
    s.place = .over ↔ (∃ ev older, hist = .event ev :: older ∧ stops ev) ∨
      maxResets ≤ failedAttempts hist := by
  cases hc with
  | connecting hplace _ hlt hne =>
      have : ¬ maxResets ≤ failedAttempts hist := by omega
      simp only [hplace, reduceCtorEq, false_iff, not_or, this, not_false_eq_true, and_true]
      rintro ⟨ev, older, rfl, -⟩
      exact hne ev older rfl
  | @fresh older _ hplace _ hlt =>
      have : ¬ maxResets ≤ failedAttempts (.subscribed :: older) := by
        rw [failedAttempts]
        omega
      simp [hplace, this]
  | error hplace => simp [hplace, failedAttempts, hpos.ne']
  | event hplace _ hgo => simp [hplace, failedAttempts, hpos.ne', hgo]
  | stopped hplace hstop => simp [hplace, hstop]
  | givenUp hplace hcount => simp [hplace, hcount]

end counter

/-! ## Without errors -/

/-- Without errors only the end of the stream that had the last event is a failure
but no failed attempt. -/
structure FewFailures (hist : List (Answer ε)) (s : LoopState σ ο) : Prop where
  le : failures hist ≤ failedAttempts hist + 1
  reading : s.place = .reading → (∃ older, hist = .subscribed :: older) ∨ failures hist = 0

theorem fewFailures_run (maxResets : Nat) (handle : σ → ε → σ × Option (List ο)) (data : σ) :
    ∀ as s, (eventLoop maxResets handle).run (loopStart maxResets data) as = some s →
      errors as.reverse = 0 → FewFailures as.reverse s := by
  refine (eventLoop maxResets handle).history ?_ ?_
  · intro _
    refine ⟨Nat.zero_le _, fun h => .inr rfl⟩
  · intro as s a s' ih hstep herr
    rw [List.reverse_append] at herr ⊢
    simp only [List.reverse_singleton, List.singleton_append] at herr ⊢
    have hturn : (turn maxResets s).place ≠ .reading := by
      unfold turn
      split <;> simp
    rcases eventLoop_step maxResets hstep with ⟨hs, rfl, rfl⟩ | ⟨hs, rfl, hplace, -⟩ |
      ⟨hs, rfl, rfl⟩ | ⟨hs, rfl, -⟩ | ⟨ev, hs, rfl, -⟩
    · -- refused
      have hle := (ih herr).le
      refine ⟨?_, fun h => absurd h hturn⟩
      simp only [failures, failedAttempts]
      omega
    · exact ⟨(ih herr).le, fun _ => .inl ⟨_, rfl⟩⟩
    · -- ended, before or after the stream's first item
      refine ⟨?_, fun h => absurd h hturn⟩
      have hfew := ih herr
      rcases hfew.reading hs with ⟨older, hold⟩ | hzero
      · have hle := hfew.le
        rw [hold] at hle ⊢
        simp only [failures, failedAttempts] at hle ⊢
        omega
      · simp only [failures]
        omega
    · simp [errors] at herr
    · exact ⟨Nat.zero_le _, fun _ => .inr rfl⟩

/-! ## The two loops -/

/-- How a run ends: by an event that stops the loops, or after enough failed
attempts since the last item. Failures of all kinds end it exactly if enough of
them are failed attempts; without errors one failure more is enough; and after
an error the same stream is read on, without a new attempt. -/
structure GivesUp (maxResets : Nat) (stops : ε → Prop) (as : List (Answer ε))
    (s : LoopState σ ο) : Prop where
  over_iff : s.place = .over ↔
    (∃ before ev, as = before ++ [.event ev] ∧ stops ev) ∨ maxResets ≤ failedAttempts as.reverse
  failures_iff : (maxResets ≤ failures as.reverse → s.place = .over) ↔
    failures as.reverse < maxResets ∨ maxResets ≤ failedAttempts as.reverse
  over_of_failures : errors as.reverse = 0 → maxResets < failures as.reverse → s.place = .over
  reading_of_error : ∀ before, as = before ++ [.error] → s.place = .reading

/-- An error leaves the loop where it is. -/
theorem reading_of_last_error {maxResets : Nat} {handle : σ → ε → σ × Option (List ο)} {data : σ}
    {before : List (Answer ε)} {s : LoopState σ ο}
    (h : (eventLoop maxResets handle).run (loopStart maxResets data) (before ++ [.error]) =
      some s) : s.place = .reading := by
  rw [Kit.Guarded.run_append_singleton] at h
  obtain ⟨mid, -, hstep⟩ := Option.bind_eq_some_iff.mp h
  rcases eventLoop_step maxResets hstep with ⟨-, hne, -⟩ | ⟨-, hne, -⟩ | ⟨-, hne, -⟩ |
    ⟨-, -, hplace, -⟩ | ⟨ev, -, hne, -⟩
  case inr.inr.inr.inl => exact hplace
  all_goals exact nomatch hne

/-- The newest answer is the last one of the run. -/
theorem last_event_iff {stops : ε → Prop} {as : List (Answer ε)} :
    (∃ ev older, as.reverse = .event ev :: older ∧ stops ev) ↔
      ∃ before ev, as = before ++ [.event ev] ∧ stops ev := by
  constructor
  · rintro ⟨ev, older, heq, hev⟩
    exact ⟨older.reverse, ev, List.reverse_eq_cons_iff.mp heq, hev⟩
  · rintro ⟨before, ev, rfl, hev⟩
    exact ⟨ev, before.reverse, by simp, hev⟩

/-- Any event loop, by the events on which its handler returns. -/
theorem eventLoop_givesUp {maxResets : Nat} (hpos : 0 < maxResets)
    {handle : σ → ε → σ × Option (List ο)} {stops : ε → Prop}
    (hstops : ∀ d ev, (handle d ev).2 = none ↔ stops ev) {data : σ} {as : List (Answer ε)}
    {s : LoopState σ ο}
    (h : (eventLoop maxResets handle).run (loopStart maxResets data) as = some s) :
    GivesUp maxResets stops as s := by
  have hiff := (counted_run hpos hstops data as s h).over_iff hpos
  refine ⟨by rw [hiff, last_event_iff], ?_, ?_, ?_⟩
  · constructor
    · -- An event that stops the loop is no failure.
      intro himp
      by_cases hlt : failures as.reverse < maxResets
      · exact .inl hlt
      · rcases hiff.mp (himp (by omega)) with ⟨ev, older, heq, -⟩ | hle
        · rw [heq, failures] at hlt
          omega
        · exact .inr hle
    · rintro (hlt | hle) hmany
      · omega
      · exact hiff.mpr (.inr hle)
  · intro herr hmany
    have hle := (fewFailures_run maxResets handle data as s h herr).le
    exact hiff.mpr (.inr (by omega))
  · rintro before rfl
    exact reading_of_last_error h

/-- Events that end the monitor: sway shuts down, or a workspace event without its
workspace makes the handler panic. -/
def monitorStops : SwayEvent → Bool
  | .shutdown | .workspace .init none | .workspace .focus none | .workspace .empty none => true
  | _ => false

/-- **Giving up.** The monitor of `swayrd` and the one of `swayrbar` end as `GivesUp`
says, with a limit of ten; they differ in the events that stop them. -/
theorem event_loops_give_up (as : List (Answer SwayEvent))
    (windowMods : List (Shared.Text × Shared.Text)) :
    (∀ s, monitorSwayEvents.run (loopStart 10 0) as = some s →
      GivesUp 10 (fun ev => monitorStops ev = true) as s) ∧
    ∀ s, (Bar.handleSwayEvents windowMods).run (loopStart 10 ()) as = some s →
      GivesUp 10 (fun ev => ev = .shutdown) as s := by
  constructor
  · intro s h
    refine eventLoop_givesUp (by decide) ?_ h
    intro n ev
    cases ev with
    | window | shutdown | other => simp [monitorEvent, monitorStops]
    | workspace change current =>
        cases current <;> cases change <;>
          simp [monitorEvent, handleWorkspaceEvent, monitorStops]
  · intro s h
    refine eventLoop_givesUp (by decide) ?_ h
    intro d ev
    cases ev <;> simp [Bar.handleSwayEvent]

/-- Ten refused attempts are the end. -/
theorem event_loops_give_up_refused :
    (monitorSwayEvents.run (loopStart 10 0) (List.replicate 10 .refused)).isSome = true ∧
      ∀ s, monitorSwayEvents.run (loopStart 10 0) (List.replicate 10 .refused) = some s →
        s.place = .over := by
  refine ⟨by decide, fun s hs => ?_⟩
  exact ((event_loops_give_up _ []).1 s hs).over_iff.mpr (.inr (by decide))

/-- A stream of errors. -/
def tenErrors : List (Answer SwayEvent) := .subscribed :: List.replicate 10 .error

/-- An event, the end of its stream and nine refused attempts. -/
def nineRefusals : List (Answer SwayEvent) :=
  [.subscribed, .event .other, .ended] ++ List.replicate 9 .refused

/-- Ten failures without an event in between, and neither loop has ended. -/
theorem ten_failures_go_on :
    (failures tenErrors.reverse = 10 ∧
      (monitorSwayEvents.run (loopStart 10 0) tenErrors).map (·.place) = some .reading ∧
      ((Bar.handleSwayEvents []).run (loopStart 10 ()) tenErrors).map (·.place) =
        some .reading) ∧
    (failures nineRefusals.reverse = 10 ∧
      (monitorSwayEvents.run (loopStart 10 0) nineRefusals).map (·.place) = some .connecting ∧
      ((Bar.handleSwayEvents []).run (loopStart 10 ()) nineRefusals).map (·.place) =
        some .connecting) := by
  decide

end Swayr.Theorems.GiveUp
