import Swayr.Cmds.Sequence

/-!
# A switch sequence visits every target once

Over a fixed set of windows, repeated calls of
`focus_urgent_or_matching_or_lru_window` focus every urgent or matching window
other than the origin, and the last recently used one, exactly once before the
state is reset; then they return to the origin. The lists may come in a new
order on every call and the urgency of a window that was focused may have been
cleared meanwhile.

The predicate does not look at the focus here, so that the goals do not change
from call to call.
-/

namespace Swayr.Theorems.SwitchSequence

open Cmds SwitchToMatchingData Focus

variable {sg : Stage}

/-- The predicate does not look at the focus. -/
def Fixed (sg : Stage) : Prop := ∀ past, sg.matching past = sg.matching []

theorem Fixed.isGoal_iff (h : Fixed sg) {l : Option Int} {past : List Int} {i : Int} :
    sg.IsGoal l past i ↔ sg.IsGoal l [] i := by
  unfold Stage.IsGoal Stage.IsTarget
  rw [h past]

/-- **Switch-sequence coverage.** In every run of calls over a fixed set of
windows, the requests made before the first reset are, without repetition, the
targets together with the last recently used window unless that is skipped. If
there were any and the origin is not skipped, the request that follows is the
origin, and it leaves the state empty. -/
theorem sequence_covers_goals (sg : Stage) (calls : ℕ → Call) (horigin : sg.origin ∈ sg.windows)
    (hfixed : Fixed sg) (hp : sg.Played calls) :
    ∃ l n rs tail,
      sg.trace calls n = .initialized (some sg.origin) l :: rs.map .focus ++ .reset :: tail ∧
      sg.IsLru (calls 0).ticks l ∧
      rs.Nodup ∧
      (∀ i, i ∈ rs ↔ sg.IsTarget [] i ∨ sg.skipLru = false ∧ l = some i) ∧
      (sg.skipOrigin = false → rs ≠ [] →
        tail = [.focus sg.origin] ∧ sg.stateAfter calls n = sg.start) := by
  obtain ⟨l, n, rs, tail, hl, hfin⟩ := Stage.finishes hp
  have hrecorded : sg.recorded = some sg.origin := if_pos horigin
  refine ⟨l, n, rs, tail, ?_, hl, hfin.distinct, fun i => ⟨fun hi => ?_,
    fun hi => hfin.covered i (hfixed.isGoal_iff.mpr hi)⟩, fun hso => hfin.back hso horigin⟩
  · rw [← hrecorded]
    exact hfin.trace
  · obtain ⟨xs, ys, heq⟩ := List.append_of_mem hi
    exact hfixed.isGoal_iff.mp (hfin.isGoal heq).1

/-! ## A sequence over three windows -/

section threeWindows

open Ipc Swayr.Tree

def leaf (id : Int) (focused urgent : Bool) : Node :=
  .mk ⟨{ id, nodeType := .con, pid := some 1, focused, urgent }, rfl⟩ [] []

/-- Three windows on a workspace; the second one is urgent until it is focused. -/
def threeRoot (focus : Int) : Node :=
  let win (id : Int) := leaf id (id == focus) (id == 2 && focus == 1)
  .mk ⟨{ id := 100, nodeType := .root }, rfl⟩
    [.mk ⟨{ id := 101, nodeType := .output }, rfl⟩
      [.mk ⟨{ id := 102, nodeType := .workspace }, rfl⟩ [win 1, win 2] [win 3]] []] []

def threeCall (focus : Int) : Call :=
  let ticks : TickMap := fun i => if i = 3 then some 7 else none
  { wins := (getTree (threeRoot focus) (show [100, 101, 102, 2, 1, 3].Nodup by decide)).getWindows
      ticks
    ticks
    pred := fun _ => false }

def threeStage : Stage where
  windows := [1, 2, 3]
  distinct := by decide
  origin := 1
  origin_valid := .inl (by decide)
  urgent i := i == 2
  matching _ _ := false
  skipUrgent := false
  skipLru := false
  skipOrigin := false

/-- The focus moves from the origin to the urgent and then to the last recently
used window. -/
def threeCalls : ℕ → Call
  | 0 => threeCall 1
  | 1 => threeCall 2
  | _ => threeCall 3

theorem threeStage_played : threeStage.Played threeCalls := by
  intro n hn
  match n with
  | 0 => constructor <;> decide +kernel
  | 1 => constructor <;> decide +kernel
  | 2 => constructor <;> decide +kernel
  | n + 3 =>
      exact absurd (threeStage.mem_trace_of_le threeCalls (by omega : 3 ≤ n + 3)
        (by decide +kernel)) hn

/-- The urgent window, the last recently used one, and back. -/
theorem sequence_covers_goals_three_windows :
    threeStage.trace threeCalls 3 =
        [.initialized (some 1) (some 3), .focus 2, .focus 3, .reset, .focus 1] ∧
      ∃ l n rs tail,
        threeStage.trace threeCalls n =
          .initialized (some threeStage.origin) l :: rs.map .focus ++ .reset :: tail ∧
        threeStage.IsLru (threeCalls 0).ticks l ∧
        rs.Nodup ∧
        (∀ i, i ∈ rs ↔ threeStage.IsTarget [] i ∨ threeStage.skipLru = false ∧ l = some i) ∧
        (threeStage.skipOrigin = false → rs ≠ [] →
          tail = [.focus threeStage.origin] ∧
          threeStage.stateAfter threeCalls n = threeStage.start) :=
  ⟨by decide +kernel, sequence_covers_goals threeStage threeCalls (by decide) (fun _ => rfl)
    threeStage_played⟩

end threeWindows

end Swayr.Theorems.SwitchSequence
