import Swayr.Cmds.SwitchTo

/-!
# One switch step

A call of `focus_urgent_or_matching_or_lru_window` calls itself at most once, and
asks sway to focus at most one window, never the focused one. It asks for one
whenever there is a window to go to. Neither depends on the state it starts from:
a state that leaves nothing to be found is reset, and from an empty state
whatever can be found is found.
-/

namespace Swayr.Theorems.SwitchStep

open Cmds SwitchToMatchingData Focus

/-- `focus_urgent_or_matching_or_lru_window`, giving up on the self-call after
the first `n`. -/
def focusWithin (wins : List DisplayNode) (ticks : TickMap) (pred : DisplayNode → Bool) :
    ℕ → SwitchToMatchingData → Option (SwitchToMatchingData × List Action)
  | n, stm =>
    let entered := stm.enter wins ticks
    let log := stm.initActions wins ticks
    match entered.nextTarget wins pred with
    | some win => some (entered.push win.node.id, log ++ [.focus win.node.id])
    | none =>
        match entered.lruTarget wins with
        | some id => some (entered.push id, log ++ [.focus id])
        | none =>
            match entered.originTarget wins with
            | some id => some (entered.reset false, log ++ [.reset, .focus id])
            | none =>
                if stm.visited = [] then some (entered.reset false, log ++ [.reset])
                else
                  match n with
                  | 0 => none
                  | n + 1 =>
                      (focusWithin wins ticks pred n (entered.reset false)).map fun r =>
                        (r.1, log ++ .reset :: r.2)

variable {wins : List DisplayNode} {ticks : TickMap} {pred : DisplayNode → Bool}
  {stm : SwitchToMatchingData}

/-- An empty state makes no self-call. -/
theorem focusWithin_of_empty (hv : stm.visited = []) (n : ℕ) :
    focusWithin wins ticks pred n stm =
      some (focusUrgentOrMatchingOrLruWindow wins ticks pred stm) := by
  unfold focusWithin
  cases hnext : (stm.enter wins ticks).nextTarget wins pred with
  | some w => simp [call_of_target hnext, hnext]
  | none =>
      cases hlru : (stm.enter wins ticks).lruTarget wins with
      | some id => simp [call_of_lru hnext hlru, hnext, hlru]
      | none =>
          cases horigin : (stm.enter wins ticks).originTarget wins with
          | some id => simp [call_of_origin hnext hlru horigin, hnext, hlru, horigin]
          | none => simp [call_of_exhausted_empty hnext hlru horigin hv, hnext, hlru, horigin, hv]

/-- Any other state is reset first, so one self-call is enough. -/
theorem focusWithin_one (stm : SwitchToMatchingData) :
    focusWithin wins ticks pred 1 stm =
      some (focusUrgentOrMatchingOrLruWindow wins ticks pred stm) := by
  by_cases hv : stm.visited = []
  · exact focusWithin_of_empty hv 1
  unfold focusWithin
  cases hnext : (stm.enter wins ticks).nextTarget wins pred with
  | some w => simp [call_of_target hnext, hnext]
  | none =>
      cases hlru : (stm.enter wins ticks).lruTarget wins with
      | some id => simp [call_of_lru hnext hlru, hnext, hlru]
      | none =>
          cases horigin : (stm.enter wins ticks).originTarget wins with
          | some id => simp [call_of_origin hnext hlru horigin, hnext, hlru, horigin]
          | none =>
              have hempty : ((stm.enter wins ticks).reset false).visited = [] := rfl
              simp [call_of_exhausted hnext hlru horigin hv, hnext, hlru, horigin, hv,
                focusWithin_of_empty hempty, initActions]

/-! ## The requests of a call -/

/-- The requests of a call from a non-empty state are those of the first branch
that finds something, or else of the call from the empty state. -/
theorem requests_cases (ticks : TickMap) (pred : DisplayNode → Bool)
    (stm : SwitchToMatchingData) :
    (∃ w ∈ wins, w.node.id ≠ focusedId wins ∧
      requests (focusUrgentOrMatchingOrLruWindow wins ticks pred stm).2 = [w.node.id]) ∨
    ((stm.enter wins ticks).nextTarget wins pred = none ∧
      (stm.enter wins ticks).lruTarget wins = none ∧
      (stm.enter wins ticks).originTarget wins = none ∧
      requests (focusUrgentOrMatchingOrLruWindow wins ticks pred stm).2 =
        if stm.visited = [] then []
        else requests (focusUrgentOrMatchingOrLruWindow wins ticks pred
          ((stm.enter wins ticks).reset false)).2) := by
  have hlog : requests (stm.initActions wins ticks) = [] := by
    unfold initActions
    split <;> rfl
  -- A target, the last recently used window, the origin; only without any of them the
  -- search may start again.
  cases hnext : (stm.enter wins ticks).nextTarget wins pred with
  | some w =>
      obtain ⟨hmem, hne⟩ := nextTarget_mem hnext
      exact .inl ⟨w, hmem, hne, by simp [call_of_target hnext, hlog]⟩
  | none =>
      cases hlru : (stm.enter wins ticks).lruTarget wins with
      | some id =>
          obtain ⟨w, hw, rfl, hne⟩ := lruTarget_mem hlru
          exact .inl ⟨w, hw, hne, by simp [call_of_lru hnext hlru, hlog]⟩
      | none =>
          cases horigin : (stm.enter wins ticks).originTarget wins with
          | some id =>
              obtain ⟨w, hw, rfl, hne⟩ := originTarget_mem horigin
              exact .inl ⟨w, hw, hne, by simp [call_of_origin hnext hlru horigin, hlog]⟩
          | none =>
              refine .inr ⟨rfl, rfl, rfl, ?_⟩
              by_cases hv : stm.visited = []
              · simp [call_of_exhausted_empty hnext hlru horigin hv, hlog, hv]
              · simp [call_of_exhausted hnext hlru horigin hv, hv]

section exhausted

variable {w : DisplayNode} (hv : stm.visited = []) (hw : w ∈ wins)
  (hunfocused : w.node.focused = false)
  (hids : ∀ v ∈ wins, v.node.focused = false → v.node.id ≠ focusedId wins)

/-- At the start only the focused window has been visited. -/
theorem not_mem_visited_of_empty (ticks : TickMap) (hv : stm.visited = [])
    (hids : ∀ v ∈ wins, v.node.focused = false → v.node.id ≠ focusedId wins) {v : DisplayNode}
    (hvmem : v ∈ wins) (hvf : v.node.focused = false) :
    v.node.id ∉ ((stm.initSequence wins ticks).push (focusedId wins)).visited := by
  simp [push, initSequence, hv, hids v hvmem hvf]

include hv hw hunfocused hids in
/-- The last recently used window exists, since `w` is not focused. -/
theorem skipLru_of_empty
    (hlru : ((stm.initSequence wins ticks).push (focusedId wins)).lruTarget wins = none) :
    stm.skipLru = true := by
  by_contra hskip
  cases hl : (stm.initSequence wins ticks).lru with
  | none => simp [initSequence_lru_none hl hw] at hunfocused
  | some i =>
      obtain ⟨m, hm, hmf, rfl, -⟩ := initSequence_lru_some hl
      unfold lruTarget at hlru
      rw [if_neg (by simpa [push, initSequence] using hskip)] at hlru
      change (Option.filter _ (stm.initSequence wins ticks).lru) = none at hlru
      rw [hl] at hlru
      have hunvisited := not_mem_visited_of_empty ticks hv hids hm hmf
      have hany : wins.any (·.node.id == m.node.id) = true :=
        List.any_eq_true.mpr ⟨m, hm, by simp⟩
      simp [Option.filter, hids m hm hmf, hunvisited, hany] at hlru

include hv hw hunfocused hids in
/-- Only the origin is passed over by the first branch although it is wanted. -/
theorem isOrigin_of_empty (hskip : stm.skipLru = true)
    (hnext : ((stm.initSequence wins ticks).push (focusedId wins)).nextTarget wins pred = none)
    (hwanted : (!stm.skipUrgent && w.node.urgent || pred w) = true) :
    stm.skipOrigin = false ∧ (stm.initSequence wins ticks).origin = some w.node.id := by
  by_contra hnot
  -- Otherwise the window passes every test of the search.
  refine List.find?_eq_none.mp hnext w hw ?_
  have hok : (stm.skipOrigin ||
      (stm.initSequence wins ticks).origin != some w.node.id) = true := by
    cases hso : stm.skipOrigin with
    | true => rfl
    | false => simpa using fun h => hnot ⟨hso, h⟩
  have hcontains : ((stm.initSequence wins ticks).push (focusedId wins)).visited.contains
      w.node.id = false := by
    simpa using not_mem_visited_of_empty ticks hv hids hw hunfocused
  rw [hcontains]
  change (w.node.id != focusedId wins && (stm.skipLru || _) && (stm.skipOrigin || _) && true &&
    (!stm.skipUrgent && w.node.urgent || pred w)) = true
  simp only [hskip, Bool.true_or, hwanted, Bool.and_true, Bool.and_eq_true]
  exact ⟨by simpa using hids w hw hunfocused, hok⟩

include hv hw hunfocused hids in
/-- From an empty state whatever can be found is found: if all three branches
find nothing, no window other than the focused one is to be gone to. -/
theorem nothing_wanted_of_empty (hnext : (stm.enter wins ticks).nextTarget wins pred = none)
    (hlru : (stm.enter wins ticks).lruTarget wins = none)
    (horigin : (stm.enter wins ticks).originTarget wins = none) :
    stm.skipLru = true ∧ (!stm.skipUrgent && w.node.urgent || pred w) = false := by
  have henter : stm.enter wins ticks = (stm.initSequence wins ticks).push (focusedId wins) := by
    simp [enter, hv]
  rw [henter] at hnext hlru horigin
  have hskip := skipLru_of_empty hv hw hunfocused hids hlru
  refine ⟨hskip, ?_⟩
  by_contra hwanted
  rw [Bool.not_eq_false] at hwanted
  -- but then the third branch finds it
  have hisOrigin := isOrigin_of_empty hv hw hunfocused hids hskip hnext hwanted
  unfold originTarget at horigin
  rw [if_neg (by simpa [push, initSequence] using hisOrigin.1)] at horigin
  change (Option.filter _ (stm.initSequence wins ticks).origin) = none at horigin
  rw [hisOrigin.2] at horigin
  have hany : wins.any (·.node.id == w.node.id) = true := List.any_eq_true.mpr ⟨w, hw, by simp⟩
  simp [Option.filter, hids w hw hunfocused, hany] at horigin

end exhausted

/-- A call requests one window, or it requests none and none was to be gone to. -/
theorem requests_spec (hids : ∀ v ∈ wins, v.node.focused = false → v.node.id ≠ focusedId wins)
    (ticks : TickMap) (pred : DisplayNode → Bool) (stm : SwitchToMatchingData) :
    (∃ w ∈ wins, w.node.id ≠ focusedId wins ∧
      requests (focusUrgentOrMatchingOrLruWindow wins ticks pred stm).2 = [w.node.id]) ∨
    (requests (focusUrgentOrMatchingOrLruWindow wins ticks pred stm).2 = [] ∧
      ∀ w ∈ wins, w.node.focused = false →
        stm.skipLru = true ∧ (!stm.skipUrgent && w.node.urgent || pred w) = false) := by
  have hflags : (stm.enter wins ticks).skipLru = stm.skipLru ∧
      (stm.enter wins ticks).skipUrgent = stm.skipUrgent := by
    unfold enter
    split <;> exact ⟨rfl, rfl⟩
  rcases requests_cases ticks pred stm with
    hfound | ⟨hnext, hlru, horigin, hreq⟩
  · exact .inl hfound
  by_cases hv : stm.visited = []
  · rw [if_pos hv] at hreq
    exact .inr ⟨hreq, fun w hw hf => nothing_wanted_of_empty hv hw hf hids hnext hlru horigin⟩
  · -- the self-call, from the state that has been reset
    rw [if_neg hv] at hreq
    rw [hreq]
    rcases requests_cases ticks pred ((stm.enter wins ticks).reset false) with
      hfound | ⟨hnext', hlru', horigin', hreq'⟩
    · exact .inl hfound
    · refine .inr ⟨hreq'.trans (if_pos rfl), fun w hw hf => ?_⟩
      have := nothing_wanted_of_empty rfl hw hf hids hnext' hlru' horigin'
      rwa [reset_false, empty, hflags.1, hflags.2] at this

/-! ## The focused window -/

/-- At most one window of the list is focused. -/
def OneFocused (wins : List DisplayNode) : Prop :=
  ∀ v ∈ wins, ∀ w ∈ wins, v.node.focused = true → w.node.focused = true → v = w

/-- The focused window is known by its id. -/
theorem unfocused_of_ne_focusedId (hone : OneFocused wins) {w : DisplayNode} (hw : w ∈ wins)
    (hne : w.node.id ≠ focusedId wins) : w.node.focused = false := by
  by_contra hf
  rw [Bool.not_eq_false] at hf
  cases hfind : wins.find? (·.node.focused) with
  | none => simpa [hf] using List.find?_eq_none.mp hfind w hw
  | some f =>
      have hfocused : f.node.focused = true := by simpa using List.find?_some hfind
      have hfw : f = w := hone f (List.mem_of_find?_eq_some hfind) w hw hfocused hf
      simp [focusedId, hfind, hfw] at hne

theorem ne_focusedId_of_unfocused (hids : (wins.map (·.node.id)).Nodup)
    (hvalid : ∀ w ∈ wins, w.node.id ≠ -1) {w : DisplayNode} (hw : w ∈ wins)
    (hf : w.node.focused = false) : w.node.id ≠ focusedId wins := by
  unfold focusedId
  cases hfind : wins.find? (·.node.focused) with
  | none => exact hvalid w hw
  | some f =>
      intro heq
      have hfw := List.inj_on_of_nodup_map hids hw (List.mem_of_find?_eq_some hfind) heq
      have hfocused := List.find?_some hfind
      simp [← hfw, hf] at hfocused

/-- **One switch step.** From any state, for any list of windows with distinct
ids, none of them `-1`, and at most one of them focused: one self-call is enough,
at most one window is requested, and it is a window of the list that is not
focused. One is requested if some other window is matching or urgent, or if there
is another window at all and the last recently used one is not skipped. -/
theorem one_switch_step (wins : List DisplayNode) (ticks : TickMap) (pred : DisplayNode → Bool)
    (stm : SwitchToMatchingData) (hids : (wins.map (·.node.id)).Nodup)
    (hvalid : ∀ w ∈ wins, w.node.id ≠ -1) (hone : OneFocused wins) :
    focusWithin wins ticks pred 1 stm =
      some (focusUrgentOrMatchingOrLruWindow wins ticks pred stm) ∧
    (requests (focusUrgentOrMatchingOrLruWindow wins ticks pred stm).2).length ≤ 1 ∧
    (∀ id ∈ requests (focusUrgentOrMatchingOrLruWindow wins ticks pred stm).2,
      ∃ w ∈ wins, w.node.id = id ∧ w.node.focused = false) ∧
    ((∃ w ∈ wins, w.node.focused = false ∧
        (pred w = true ∨ stm.skipUrgent = false ∧ w.node.urgent = true ∨ stm.skipLru = false)) →
      (requests (focusUrgentOrMatchingOrLruWindow wins ticks pred stm).2).length = 1) := by
  refine ⟨focusWithin_one stm, ?_⟩
  -- One request, for a window that is not the focused one, or none because nothing is wanted.
  rcases requests_spec (fun v hv hf => ne_focusedId_of_unfocused hids hvalid hv hf) ticks pred
      stm with
    ⟨w, hw, hne, hreq⟩ | ⟨hreq, hnothing⟩
  · rw [hreq]
    refine ⟨by simp, fun id hid => ?_, fun _ => by simp⟩
    rw [List.mem_singleton.mp hid]
    exact ⟨w, hw, rfl, unfocused_of_ne_focusedId hone hw hne⟩
  · rw [hreq]
    refine ⟨by simp, by simp, ?_⟩
    rintro ⟨w, hw, hf, hwanted⟩
    obtain ⟨hskip, hnot⟩ := hnothing w hw hf
    rcases hwanted with h | ⟨hu, h⟩ | h <;> simp_all

/-! ## A step from a stale state -/

section stale

open Ipc Swayr.Tree

/-- Two windows on a workspace, the first one focused. -/
def staleRoot : Node :=
  .mk ⟨{ id := 500, nodeType := .root }, rfl⟩
    [.mk ⟨{ id := 501, nodeType := .output }, rfl⟩
      [.mk ⟨{ id := 502, nodeType := .workspace }, rfl⟩
        [.mk ⟨{ id := 503, nodeType := .con, pid := some 300, focused := true }, rfl⟩ [] [],
         .mk ⟨{ id := 504, nodeType := .con, pid := some 301 }, rfl⟩ [] []] []] []] []

def staleWins : List DisplayNode :=
  (getTree staleRoot (show [500, 501, 502, 504, 503].Nodup by decide)).getWindows .empty

/-- Everything was visited and the recorded windows are gone. -/
def staleData : SwitchToMatchingData := ⟨[503, 504], some 505, some 506, false, false, false⟩

/-- A sequence whose origin and last recently used window are gone. -/
theorem one_switch_step_stale :
    requests (focusUrgentOrMatchingOrLruWindow staleWins .empty (fun _ => false) staleData).2 =
      [504] ∧
    (requests (focusUrgentOrMatchingOrLruWindow staleWins .empty (fun _ => false)
      staleData).2).length ≤ 1 :=
  ⟨by decide +kernel, (one_switch_step staleWins .empty (fun _ => false) staleData
    (by decide +kernel) (by decide +kernel)
    (fun v hv w hw => by revert v w; decide +kernel)).2.1⟩

end stale

end Swayr.Theorems.SwitchStep
