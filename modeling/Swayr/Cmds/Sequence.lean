import Swayr.Cmds.SwitchTo

/-!
# Switch sequences over a fixed set of windows

Repeated calls of `focus_urgent_or_matching_or_lru_window` from the empty state, up
to the first reset. Which windows there are and which of them are urgent at the
start is fixed (the *stage*); on every call they may be listed in a new order, the
focus has followed the requests, and a window that was focused may have lost its
urgency. The predicate may look at the focus.

The invariant (`Entered`) ties the visited ids to the requests made so far. One
call then makes one more request (`Requests` says which one), or nothing is left
to request and it resets (`Stage.call_cases`); every sequence comes to that end
(`Stage.finishes`).
-/

namespace Swayr.Cmds

open SwitchToMatchingData Focus

/-- What stays fixed while a sequence runs. -/
structure Stage where
  windows : List Int
  distinct : windows.Nodup
  /-- The id focused at the start, or `-1` if no window was. -/
  origin : Int
  origin_valid : origin ∈ windows ∨ origin = -1
  /-- The windows that are urgent at the start. -/
  urgent : Int → Bool
  /-- The windows that match after some requests. -/
  matching : List Int → Int → Bool
  skipUrgent : Bool
  skipLru : Bool
  skipOrigin : Bool

namespace Stage

variable (sg : Stage)

def start : SwitchToMatchingData := empty sg.skipUrgent sg.skipLru sg.skipOrigin

/-- The origin as it is recorded. -/
def recorded : Option Int := if sg.origin ∈ sg.windows then some sg.origin else none

/-- The id focused after some requests. -/
def current (past : List Int) : Int := past.getLast?.getD sg.origin

/-- `c` is a call made after the requests `past`. -/
structure Shows (past : List Int) (c : Call) : Prop where
  ids : (c.wins.map (·.node.id)).Perm sg.windows
  focused : ∀ w ∈ c.wins, w.node.focused = true ↔ w.node.id = sg.current past
  pred : ∀ w ∈ c.wins, c.pred w = sg.matching past w.node.id
  urgent_of : ∀ w ∈ c.wins, w.node.urgent = true → sg.urgent w.node.id = true
  urgent_eq : ∀ w ∈ c.wins, w.node.id ≠ sg.origin → w.node.id ∉ past →
    w.node.urgent = sg.urgent w.node.id

/-- Not the origin, and urgent at the start (unless these are skipped) or
matching by now. -/
def IsTarget (past : List Int) (i : Int) : Prop :=
  i ∈ sg.windows ∧ i ≠ sg.origin ∧
    (sg.skipUrgent = false ∧ sg.urgent i = true ∨ sg.matching past i = true)

/-- A target, or the last recently used window `l`. -/
def IsGoal (l : Option Int) (past : List Int) (i : Int) : Prop :=
  sg.IsTarget past i ∨ sg.skipLru = false ∧ l = some i

/-- `l` is a window other than the origin with the greatest tick, if there is
another window at all. -/
def IsLru (ticks : TickMap) : Option Int → Prop
  | none => ∀ i ∈ sg.windows, i = sg.origin
  | some l => l ∈ sg.windows ∧ l ≠ sg.origin ∧
      ∀ i ∈ sg.windows, i ≠ sg.origin → ticks.lastFocusTick i ≤ ticks.lastFocusTick l

variable (calls : ℕ → Call)

/-- The state after the first `n` calls. -/
def stateAfter (n : ℕ) : SwitchToMatchingData :=
  switcher.run sg.start ((List.range n).map calls)

/-- What the first `n` calls did. -/
def trace (n : ℕ) : List Action := switcher.outputs sg.start ((List.range n).map calls)

/-- Up to the first reset every call is made on the stage as the requests so far
have left it. -/
def Played : Prop :=
  ∀ n, .reset ∉ sg.trace calls n → sg.Shows (requests (sg.trace calls n)) (calls n)

theorem stateAfter_succ (n : ℕ) :
    sg.stateAfter calls (n + 1) = switcher.next (sg.stateAfter calls n) (calls n) := by
  rw [stateAfter, List.range_succ, List.map_append, Kit.Transducer.run_append]
  rfl

theorem trace_succ (n : ℕ) :
    sg.trace calls (n + 1) =
      sg.trace calls n ++ switcher.emit (sg.stateAfter calls n) (calls n) := by
  rw [trace, List.range_succ, List.map_append, Kit.Transducer.outputs_append]
  simp [trace, stateAfter]

/-- What has been done stays done. -/
theorem mem_trace_of_le {a : Action} {m n : ℕ} (h : m ≤ n) (ha : a ∈ sg.trace calls m) :
    a ∈ sg.trace calls n := by
  induction h with
  | refl => exact ha
  | step _ ih =>
      rw [sg.trace_succ]
      exact List.mem_append_left _ ih

end Stage

variable {sg : Stage} {l : Option Int} {rs : List Int} {c : Call}

/-! ## One call's view of the stage -/

namespace Stage

/-- The focus is where it was at the start or where it was requested. -/
theorem current_eq_or_mem (sg : Stage) (rs : List Int) :
    sg.current rs = sg.origin ∨ sg.current rs ∈ rs := by
  unfold current
  cases hr : rs.getLast? with
  | none => exact .inl rfl
  | some i => exact .inr (List.mem_of_getLast? hr)

theorem current_mem_of_ne_nil (sg : Stage) (h : rs ≠ []) : sg.current rs ∈ rs := by
  unfold current
  rw [List.getLast?_eq_some_getLast h]
  exact List.getLast_mem h

/-- A goal is a window other than the origin. -/
theorem IsGoal.mem (hl : ∀ i, l = some i → i ∈ sg.windows ∧ i ≠ sg.origin) {i : Int}
    (h : sg.IsGoal l rs i) : i ∈ sg.windows ∧ i ≠ sg.origin := by
  rcases h with h | ⟨-, h⟩
  · exact ⟨h.1, h.2.1⟩
  · exact hl i h

theorem IsLru.ne_origin {ticks : TickMap} (h : sg.IsLru ticks l) (i : Int) (hi : l = some i) :
    i ∈ sg.windows ∧ i ≠ sg.origin := by
  subst hi
  exact ⟨h.1, h.2.1⟩

namespace Shows

theorem mem (h : sg.Shows rs c) {w : DisplayNode} (hw : w ∈ c.wins) :
    w.node.id ∈ sg.windows :=
  h.ids.mem_iff.mp (List.mem_map.mpr ⟨w, hw, rfl⟩)

/-- Every window of the stage is listed. -/
theorem exists_win (h : sg.Shows rs c) {i : Int} (hi : i ∈ sg.windows) :
    ∃ w ∈ c.wins, w.node.id = i :=
  List.mem_map.mp (h.ids.mem_iff.mpr hi)

theorem any_id (h : sg.Shows rs c) {i : Int} (hi : i ∈ sg.windows) :
    c.wins.any (·.node.id == i) = true := by
  obtain ⟨w, hw, hwi⟩ := h.exists_win hi
  exact List.any_eq_true.mpr ⟨w, hw, by simpa using hwi⟩

/-- The window found as focused is the current one, if that is a window. -/
theorem find_focused (h : sg.Shows rs c) :
    (c.wins.find? (·.node.focused)).map (·.node.id) =
      if sg.current rs ∈ sg.windows then some (sg.current rs) else none := by
  split
  · rename_i hcur
    obtain ⟨v, hv, hvi⟩ := h.exists_win hcur
    cases hf : c.wins.find? (·.node.focused) with
    | none =>
        have := List.find?_eq_none.mp hf v hv
        exact absurd ((h.focused v hv).mpr hvi) this
    | some w =>
        have hfocused := List.find?_some hf
        exact congrArg some ((h.focused w (List.mem_of_find?_eq_some hf)).mp hfocused)
  · rename_i hcur
    have hnone : c.wins.find? (·.node.focused) = none := by
      refine List.find?_eq_none.mpr fun w hw hf => hcur ?_
      rw [← (h.focused w hw).mp hf]
      exact h.mem hw
    rw [hnone]
    rfl

/-- The focus has followed the requests. -/
theorem focusedId_eq (h : sg.Shows rs c) (hrs : ∀ i ∈ rs, i ∈ sg.windows) :
    focusedId c.wins = sg.current rs := by
  rw [focusedId, h.find_focused]
  split
  · rfl
  · rename_i hcur
    rcases sg.current_eq_or_mem rs with heq | hmem
    · rw [heq] at hcur ⊢
      exact (sg.origin_valid.resolve_left hcur).symm
    · exact absurd (hrs _ hmem) hcur

/-- The last recently used window as the first call records it. -/
theorem isLru (h : sg.Shows [] c) (stm : SwitchToMatchingData) :
    sg.IsLru c.ticks (stm.initSequence c.wins c.ticks).lru := by
  have hunfocused : ∀ w ∈ c.wins, w.node.focused = false ↔ w.node.id ≠ sg.origin := by
    intro w hw
    rw [← Bool.not_eq_true, h.focused w hw]
    rfl
  cases hlru : (stm.initSequence c.wins c.ticks).lru with
  | none =>
      intro i hi
      obtain ⟨w, hw, rfl⟩ := h.exists_win hi
      exact (h.focused w hw).mp (initSequence_lru_none hlru hw)
  | some l =>
      obtain ⟨m, hm, hmf, rfl, hmax⟩ := initSequence_lru_some hlru
      refine ⟨h.mem hm, (hunfocused m hm).mp hmf, fun i hi hio => ?_⟩
      obtain ⟨w, hw, rfl⟩ := h.exists_win hi
      exact hmax w hw ((hunfocused w hw).mpr hio)

end Shows

end Stage

/-! ## The invariant of a sequence -/

/-- The state after the requests `rs`: exactly the origin and the requested
windows are visited. -/
structure Entered (sg : Stage) (l : Option Int) (rs : List Int)
    (stm : SwitchToMatchingData) : Prop where
  visited : ∀ i, i ∈ stm.visited ↔ i = sg.origin ∨ i ∈ rs
  lru : stm.lru = l
  origin : stm.origin = sg.recorded
  skipUrgent : stm.skipUrgent = sg.skipUrgent
  skipLru : stm.skipLru = sg.skipLru
  skipOrigin : stm.skipOrigin = sg.skipOrigin

/-- The window the call `c`, made after the requests `rs`, asks for. -/
inductive Requests (sg : Stage) (l : Option Int) (rs : List Int) (c : Call) : Int → Prop
  /-- The first target on the list. -/
  | target {stm : SwitchToMatchingData} {w : DisplayNode} : Entered sg l rs stm →
      stm.nextTarget c.wins c.pred = some w → Requests sg l rs c w.node.id
  /-- The last recently used window, there being no target left. -/
  | lru {stm : SwitchToMatchingData} {g : Int} : Entered sg l rs stm →
      stm.nextTarget c.wins c.pred = none → stm.lruTarget c.wins = some g →
      Requests sg l rs c g

namespace Entered

variable {stm : SwitchToMatchingData}

/-- The request is entered among the visited ids. -/
theorem push (h : Entered sg l rs stm) (g : Int) : Entered sg l (rs ++ [g]) (stm.push g) where
  visited i := by
    simp only [SwitchToMatchingData.push, List.mem_append, h.visited, List.mem_singleton]
    tauto
  lru := h.lru
  origin := h.origin
  skipUrgent := h.skipUrgent
  skipLru := h.skipLru
  skipOrigin := h.skipOrigin

theorem visited_ne_nil (h : Entered sg l rs stm) : stm.visited ≠ [] :=
  List.ne_nil_of_mem ((h.visited sg.origin).mpr (.inl rfl))

/-- A reset leads back to the start. -/
theorem reset_eq (h : Entered sg l rs stm) : stm.reset false = sg.start := by
  rw [reset_false, h.skipUrgent, h.skipLru, h.skipOrigin]
  rfl

/-- Entering the first call from the empty state. -/
theorem first (hs : sg.Shows [] c) :
    Entered sg (sg.start.initSequence c.wins c.ticks).lru [] (sg.start.enter c.wins c.ticks) := by
  have hid : focusedId c.wins = sg.origin := hs.focusedId_eq (by simp)
  refine ⟨fun i => ?_, rfl, ?_, rfl, rfl, rfl⟩
  · simp [enter, Stage.start, empty, initSequence, SwitchToMatchingData.push, hid]
  · have hfind := hs.find_focused
    change (c.wins.find? (·.node.focused)).map (·.node.id) = sg.recorded at hfind
    rw [← hfind]
    simp only [enter, Stage.start, empty, List.isEmpty_nil, if_true, initSequence,
      SwitchToMatchingData.push]
    cases c.wins.find? (·.node.focused) <;> rfl

/-- Entering a later call: the focused window is visited already. -/
theorem again (h : Entered sg l rs stm) (hs : sg.Shows rs c)
    (hrs : ∀ i ∈ rs, i ∈ sg.windows) : Entered sg l rs (stm.enter c.wins c.ticks) := by
  have hid := hs.focusedId_eq hrs
  have henter : stm.enter c.wins c.ticks = stm.push (sg.current rs) := by
    simp [enter, hid, h.visited_ne_nil]
  rw [henter]
  refine ⟨fun i => ?_, h.lru, h.origin, h.skipUrgent, h.skipLru, h.skipOrigin⟩
  have hcur := sg.current_eq_or_mem rs
  simp only [SwitchToMatchingData.push, List.mem_append, h.visited, List.mem_singleton]
  constructor
  · rintro (hi | rfl)
    · exact hi
    · exact hcur
  · exact .inl

/-- What the first branch looks for: an unvisited target, unless it is left to
the second branch. -/
theorem wanted_iff (h : Entered sg l rs stm) (hs : sg.Shows rs c)
    (hrs : ∀ i ∈ rs, i ∈ sg.windows) {w : DisplayNode} (hw : w ∈ c.wins) :
    (w.node.id != focusedId c.wins
      && (stm.skipLru || stm.lru != some w.node.id)
      && (stm.skipOrigin || stm.origin != some w.node.id)
      && !stm.visited.contains w.node.id
      && (!stm.skipUrgent && w.node.urgent || c.pred w)) = true ↔
    sg.IsTarget rs w.node.id ∧ w.node.id ∉ rs ∧ ¬ (sg.skipLru = false ∧ l = some w.node.id) := by
  have hcur := sg.current_eq_or_mem rs
  simp only [Bool.and_eq_true, Bool.or_eq_true, Bool.not_eq_true', bne_iff_ne, ne_eq,
    List.contains_eq_mem, decide_eq_false_iff_not, h.visited, not_or, h.skipUrgent, h.skipLru,
    h.lru, h.skipOrigin, h.origin, hs.pred w hw, hs.focusedId_eq hrs]
  constructor
  · rintro ⟨⟨⟨⟨-, hlru⟩, -⟩, hne, hnew⟩, hwhy⟩
    refine ⟨⟨hs.mem hw, hne, hwhy.imp_left fun hu => ⟨hu.1, hs.urgent_of w hw hu.2⟩⟩, hnew, ?_⟩
    rintro ⟨hskip, heq⟩
    rcases hlru with hlru | hlru
    · simp [hskip] at hlru
    · exact hlru heq
  · rintro ⟨⟨hmem, hne, hwhy⟩, hnew, hlru⟩
    refine ⟨⟨⟨⟨?_, ?_⟩, ?_⟩, hne, hnew⟩, ?_⟩
    · -- The focus is on the origin or on a window requested before.
      intro heq
      rcases hcur with hcur | hcur
      · exact hne (heq.trans hcur)
      · exact hnew (heq ▸ hcur)
    · cases hskip : sg.skipLru with
      | true => exact .inl rfl
      | false => exact .inr fun heq => hlru ⟨hskip, heq⟩
    · -- The recorded origin is the origin.
      refine .inr fun heq => hne ?_
      unfold Stage.recorded at heq
      split at heq
      · exact (Option.some.inj heq).symm
      · simp at heq
    · rwa [hs.urgent_eq w hw hne hnew]

/-- If the first branch finds nothing, all targets have been requested, apart
from the last recently used window. -/
theorem targets_requested (h : Entered sg l rs stm) (hs : sg.Shows rs c)
    (hrs : ∀ i ∈ rs, i ∈ sg.windows) (hnext : stm.nextTarget c.wins c.pred = none) {i : Int}
    (hi : sg.IsTarget rs i) (hlru : ¬ (sg.skipLru = false ∧ l = some i)) : i ∈ rs := by
  obtain ⟨w, hw, rfl⟩ := hs.exists_win hi.1
  by_contra hnew
  exact List.find?_eq_none.mp hnext w hw ((h.wanted_iff hs hrs hw).mpr ⟨hi, hnew, hlru⟩)

/-- If the second branch finds nothing, that one has been requested too. -/
theorem lru_requested (h : Entered sg l rs stm) (hs : sg.Shows rs c)
    (hrs : ∀ i ∈ rs, i ∈ sg.windows) (hlru : stm.lruTarget c.wins = none) {i : Int}
    (hi : i ∈ sg.windows ∧ i ≠ sg.origin) (hskip : sg.skipLru = false) (hli : l = some i) :
    i ∈ rs := by
  by_contra hnew
  have hcur : i ≠ focusedId c.wins := by
    rw [hs.focusedId_eq hrs]
    rintro rfl
    exact (sg.current_eq_or_mem rs).elim hi.2 hnew
  have hunvisited : i ∉ stm.visited := by
    rw [h.visited]
    tauto
  unfold lruTarget at hlru
  rw [h.skipLru, hskip, h.lru, hli] at hlru
  simp [Option.filter, hcur, hunvisited, hs.any_id hi.1] at hlru

end Entered

namespace Requests

variable {g : Int}

/-- A request is for a goal that was missing. -/
theorem isGoal (h : Requests sg l rs c g) (hs : sg.Shows rs c) (hrs : ∀ i ∈ rs, i ∈ sg.windows) :
    sg.IsGoal l rs g ∧ g ∉ rs := by
  cases h with
  | target hent hnext =>
      have hw := List.mem_of_find?_eq_some hnext
      have hcond := List.find?_some hnext
      obtain ⟨htarget, hnew, -⟩ := (hent.wanted_iff hs hrs hw).mp hcond
      exact ⟨.inl htarget, hnew⟩
  | lru hent _ hlru =>
      obtain ⟨hskip, hl, hnew⟩ := lruTarget_spec hlru
      rw [hent.visited, not_or] at hnew
      exact ⟨.inr ⟨hent.skipLru ▸ hskip, hent.lru ▸ hl⟩, hnew.2⟩

end Requests

/-! ## One call, and the whole sequence -/

namespace Stage

/-- One call makes a request, or no goal is missing and it resets; after requests
it then returns to the origin, unless that is skipped or there is none. -/
theorem call_cases {stm : SwitchToMatchingData}
    (h : Entered sg l rs (stm.enter c.wins c.ticks)) (hs : sg.Shows rs c)
    (hl : ∀ i, l = some i → i ∈ sg.windows ∧ i ≠ sg.origin)
    (hrs : ∀ i ∈ rs, i ∈ sg.windows ∧ i ≠ sg.origin) :
    (∃ g, Requests sg l rs c g ∧
      switcher.next stm c = (stm.enter c.wins c.ticks).push g ∧
      switcher.emit stm c = stm.initActions c.wins c.ticks ++ [.focus g]) ∨
    ((∀ i, sg.IsGoal l rs i → i ∈ rs) ∧ ∃ tail,
      switcher.emit stm c = stm.initActions c.wins c.ticks ++ .reset :: tail ∧
      (sg.skipOrigin = false → sg.origin ∈ sg.windows → rs ≠ [] →
        tail = [.focus sg.origin] ∧ switcher.next stm c = sg.start)) := by
  have hwin : ∀ i ∈ rs, i ∈ sg.windows := fun i hi => (hrs i hi).1
  unfold switcher Kit.Transducer.next Kit.Transducer.emit
  -- The branches of the call in the order in which it tries them.
  cases hnext : (stm.enter c.wins c.ticks).nextTarget c.wins c.pred with
  | some w =>
      simp only [call_of_target hnext]
      exact .inl ⟨w.node.id, .target h hnext, rfl, rfl⟩
  | none =>
      cases hlru : (stm.enter c.wins c.ticks).lruTarget c.wins with
      | some i =>
          simp only [call_of_lru hnext hlru]
          exact .inl ⟨i, .lru h hnext hlru, rfl, rfl⟩
      | none =>
          refine .inr ⟨fun i hi => ?_, ?_⟩
          · by_cases hli : sg.skipLru = false ∧ l = some i
            · exact h.lru_requested hs hwin hlru (hl i hli.2) hli.1 hli.2
            · exact h.targets_requested hs hwin hnext (hi.resolve_right hli) hli
          -- Nothing is left to request, so the call resets, on the way back or not.
          cases horg : (stm.enter c.wins c.ticks).originTarget c.wins with
          | some o =>
              simp only [call_of_origin hnext hlru horg]
              refine ⟨_, rfl, fun _ hmem _ => ⟨?_, h.reset_eq⟩⟩
              have ho := h.origin.symm.trans (originTarget_eq horg)
              rw [recorded, if_pos hmem] at ho
              rw [Option.some.inj ho]
          | none =>
              -- After a request the focus is away from the origin, so the way back would be open.
              have hback : sg.skipOrigin = false → sg.origin ∈ sg.windows → rs ≠ [] → False := by
                intro hso hmem hne
                have hco : sg.origin ≠ sg.current rs := fun e =>
                  (hrs _ (sg.current_mem_of_ne_nil hne)).2 e.symm
                unfold originTarget at horg
                rw [h.skipOrigin, hso, h.origin, recorded, if_pos hmem] at horg
                simp [Option.filter, hs.focusedId_eq hwin, hco, hs.any_id hmem] at horg
              by_cases hv : stm.visited = []
              · simp only [call_of_exhausted_empty hnext hlru horg hv]
                exact ⟨[], rfl, fun hso hmem hne => (hback hso hmem hne).elim⟩
              · simp only [call_of_exhausted hnext hlru horg hv, initActions,
                  List.isEmpty_iff, hv, if_false, List.nil_append]
                exact ⟨_, rfl, fun hso hmem hne => (hback hso hmem hne).elim⟩

/-- A sequence from its first call to the first reset. -/
structure Finished (sg : Stage) (l : Option Int) (calls : ℕ → Call) (n : ℕ) (rs : List Int)
    (tail : List Action) : Prop where
  trace : sg.trace calls n = .initialized sg.recorded l :: rs.map .focus ++ .reset :: tail
  shows : ∀ xs, xs <+: rs → sg.Shows xs (calls xs.length)
  requests : ∀ xs g ys, rs = xs ++ g :: ys → Requests sg l xs (calls xs.length) g
  mem : ∀ i ∈ rs, i ∈ sg.windows ∧ i ≠ sg.origin
  distinct : rs.Nodup
  covered : ∀ i, sg.IsGoal l rs i → i ∈ rs
  back : sg.skipOrigin = false → sg.origin ∈ sg.windows → rs ≠ [] →
    tail = [.focus sg.origin] ∧ sg.stateAfter calls n = sg.start

/-- A sequence that has made the requests `rs` and is about to search for the
next window. -/
structure Running (sg : Stage) (l : Option Int) (calls : ℕ → Call) (rs : List Int) : Prop where
  trace : sg.trace calls rs.length ++
      (sg.stateAfter calls rs.length).initActions (calls rs.length).wins (calls rs.length).ticks =
    .initialized sg.recorded l :: rs.map .focus
  entered : Entered sg l rs
    ((sg.stateAfter calls rs.length).enter (calls rs.length).wins (calls rs.length).ticks)
  shows : ∀ xs, xs <+: rs → sg.Shows xs (calls xs.length)
  requests : ∀ xs g ys, rs = xs ++ g :: ys → Requests sg l xs (calls xs.length) g
  mem : ∀ i ∈ rs, i ∈ sg.windows ∧ i ≠ sg.origin
  distinct : rs.Nodup

namespace Running

variable {calls : ℕ → Call}

/-- The first call records the origin and the last recently used window. -/
theorem first (hp : sg.Played calls) :
    Running sg (sg.start.initSequence (calls 0).wins (calls 0).ticks).lru calls [] := by
  have hs : sg.Shows [] (calls 0) := hp 0 (by simp [Stage.trace])
  have hent := Entered.first hs
  refine ⟨?_, hent, fun xs hxs => ?_, by simp, by simp, by simp⟩
  · have horigin := hent.origin
    simp only [enter, Stage.start, empty, List.isEmpty_nil, if_true, push] at horigin
    change [] ++ sg.start.initActions _ _ = _
    simp [initActions, Stage.start, empty, horigin]
  · rwa [List.prefix_nil.mp hxs]

/-- A call that makes a request goes on with the sequence. -/
theorem goes_on (hp : sg.Played calls)
    (hl : ∀ i, l = some i → i ∈ sg.windows ∧ i ≠ sg.origin) (h : Running sg l calls rs) {g : Int}
    (hg : Requests sg l rs (calls rs.length) g)
    (hnext : switcher.next (sg.stateAfter calls rs.length) (calls rs.length) =
      ((sg.stateAfter calls rs.length).enter (calls rs.length).wins
        (calls rs.length).ticks).push g)
    (hemit : switcher.emit (sg.stateAfter calls rs.length) (calls rs.length) =
      (sg.stateAfter calls rs.length).initActions (calls rs.length).wins (calls rs.length).ticks ++
        [.focus g]) : Running sg l calls (rs ++ [g]) := by
  have hlen : (rs ++ [g]).length = rs.length + 1 := by simp
  have htrace : sg.trace calls (rs.length + 1) =
      .initialized sg.recorded l :: (rs ++ [g]).map .focus := by
    rw [sg.trace_succ, hemit, ← List.append_assoc, h.trace]
    simp
  have hent : Entered sg l (rs ++ [g]) (sg.stateAfter calls (rs.length + 1)) := by
    rw [sg.stateAfter_succ, hnext]
    exact h.entered.push g
  obtain ⟨hgoal, hnew⟩ := hg.isGoal (h.shows rs List.prefix_rfl) fun i hi => (h.mem i hi).1
  have hmem : ∀ i ∈ rs ++ [g], i ∈ sg.windows ∧ i ≠ sg.origin := by
    intro i hi
    rcases List.mem_append.mp hi with hi | hi
    · exact h.mem i hi
    · rw [List.mem_singleton.mp hi]
      exact hgoal.mem hl
  -- No reset so far, so the next call is played on the stage as well.
  have hshows : sg.Shows (rs ++ [g]) (calls (rs.length + 1)) := by
    have := hp (rs.length + 1) (by rw [htrace]; simp)
    rwa [htrace, requests_initialized, requests_map_focus] at this
  refine ⟨?_, ?_, fun xs hxs => ?_, fun xs b ys heq => ?_, hmem, ?_⟩
  · rw [hlen, htrace]
    simp [initActions, hent.visited_ne_nil]
  · rw [hlen]
    exact hent.again hshows fun i hi => (hmem i hi).1
  · rcases List.prefix_concat_iff.mp hxs with rfl | hxs
    · rwa [hlen]
    · exact h.shows xs hxs
  · rcases List.eq_nil_or_concat ys with rfl | ⟨ys, y, rfl⟩
    · obtain ⟨rfl, hb⟩ := List.append_inj' heq rfl
      rw [← List.singleton_inj.mp hb]
      exact hg
    · rw [List.concat_eq_append, ← List.cons_append, ← List.append_assoc] at heq
      exact h.requests xs b ys (List.append_inj' heq rfl).1
  · exact List.nodup_append.mpr ⟨h.distinct, by simp, by
      rintro a ha b hb rfl
      exact hnew (List.mem_singleton.mp hb ▸ ha)⟩

/-- One more call goes on with the sequence or ends it. -/
theorem next (hp : sg.Played calls) (hl : ∀ i, l = some i → i ∈ sg.windows ∧ i ≠ sg.origin)
    (h : Running sg l calls rs) :
    (∃ g, Running sg l calls (rs ++ [g])) ∨
      ∃ tail, sg.Finished l calls (rs.length + 1) rs tail := by
  rcases call_cases h.entered (h.shows rs List.prefix_rfl) hl h.mem with
    ⟨g, hg, hnext, hemit⟩ | ⟨hcovered, tail, hemit, hback⟩
  · exact .inl ⟨g, h.goes_on hp hl hg hnext hemit⟩
  · refine .inr ⟨tail, ⟨?_, h.shows, h.requests, h.mem, h.distinct, hcovered,
      fun hso hmem hne => ?_⟩⟩
    · rw [sg.trace_succ, hemit, ← List.append_assoc, h.trace]
    · rw [sg.stateAfter_succ]
      exact hback hso hmem hne

/-- From any point of a sequence its end is reached, by induction on the number
of windows not yet requested. -/
theorem finishes (hp : sg.Played calls) (hl : ∀ i, l = some i → i ∈ sg.windows ∧ i ≠ sg.origin)
    (k : ℕ) (h : Running sg l calls rs) (hk : sg.windows.length < rs.length + k) :
    ∃ n rs tail, sg.Finished l calls n rs tail := by
  induction k generalizing rs with
  | zero =>
      have hsub : rs ⊆ sg.windows := fun i hi => (h.mem i hi).1
      have := (List.subperm_of_subset h.distinct hsub).length_le
      omega
  | succ k ih =>
      rcases h.next hp hl with ⟨g, hg⟩ | ⟨tail, hfin⟩
      · exact ih hg (by simp; omega)
      · exact ⟨_, rs, tail, hfin⟩

end Running

/-- Every sequence comes to its first reset. -/
theorem finishes {calls : ℕ → Call} (hp : sg.Played calls) :
    ∃ l n rs tail, sg.IsLru (calls 0).ticks l ∧ sg.Finished l calls n rs tail := by
  have hs : sg.Shows [] (calls 0) := hp 0 (by simp [Stage.trace])
  have hl := hs.isLru sg.start
  obtain ⟨n, rs, tail, h⟩ := (Running.first hp).finishes hp hl.ne_origin
    (sg.windows.length + 1) (by simp)
  exact ⟨_, n, rs, tail, hl, h⟩

namespace Finished

variable {calls : ℕ → Call} {n : ℕ} {tail : List Action}

/-- Every request is for a goal that was missing at its time. -/
theorem isGoal (h : sg.Finished l calls n rs tail) {xs ys : List Int} {g : Int}
    (heq : rs = xs ++ g :: ys) : sg.IsGoal l xs g ∧ g ∉ xs :=
  (h.requests xs g ys heq).isGoal (h.shows xs ⟨_, heq.symm⟩) fun i hi =>
    (h.mem i (heq ▸ List.mem_append_left _ hi)).1

end Finished

end Stage

end Swayr.Cmds
