import Swayr.Kit.Transducer
import Swayr.Tree.Windows

/-!
# Switch sequences (`cmds.rs`: `focus_urgent_or_matching_or_lru_window`)

The state of a switch sequence is kept in a global between commands. One call
initialises it if it is empty, marks the focused window as visited, and then
asks sway to focus the next urgent or matching window, the last recently used
one, or the origin; where none of these is left it resets the state and, unless
it had just been initialised, starts over.

Besides the new state a call returns what it did, in order, so that statements
about whole sequences can speak of resets and focus requests.
-/

namespace Swayr.Cmds

open Ipc Focus

structure SwitchToMatchingData where
  visited : List Int
  lru : Option Int
  origin : Option Int
  skipUrgent : Bool
  skipLru : Bool
  skipOrigin : Bool
deriving DecidableEq, Repr

/-- What a call does to the outside, or to the state as a whole. -/
inductive Action
  /-- The state was initialised with this origin and last recently used window. -/
  | initialized (origin lru : Option Int)
  /-- `focus_window_by_id`. -/
  | focus (id : Int)
  /-- `SwitchToMatchingData::reset`. -/
  | reset
deriving DecidableEq, Repr

def Action.focus? : Action → Option Int
  | .focus id => some id
  | _ => none

/-- The focus requests among some actions, oldest first. -/
def requests (acts : List Action) : List Int := acts.filterMap Action.focus?

@[simp] theorem requests_nil : requests [] = [] := rfl

@[simp] theorem requests_append (xs ys : List Action) :
    requests (xs ++ ys) = requests xs ++ requests ys := List.filterMap_append

@[simp] theorem requests_initialized (o l : Option Int) (acts : List Action) :
    requests (.initialized o l :: acts) = requests acts := rfl

@[simp] theorem requests_reset (acts : List Action) :
    requests (.reset :: acts) = requests acts := rfl

@[simp] theorem requests_focus (id : Int) (acts : List Action) :
    requests (.focus id :: acts) = id :: requests acts := rfl

@[simp] theorem requests_map_focus (ids : List Int) : requests (ids.map .focus) = ids := by
  induction ids with
  | nil => rfl
  | cons id ids ih => simp [ih]

namespace SwitchToMatchingData

variable (stm : SwitchToMatchingData)

/-- The initial state, apart from the flags. -/
def empty (skipUrgent skipLru skipOrigin : Bool) : SwitchToMatchingData :=
  ⟨[], none, none, skipUrgent, skipLru, skipOrigin⟩

def new : SwitchToMatchingData := empty false false false

def reset (resetSkipFlags : Bool) : SwitchToMatchingData :=
  let stm := { stm with visited := [], lru := none, origin := none }
  if resetSkipFlags then
    { stm with skipUrgent := false, skipLru := false, skipOrigin := false }
  else stm

theorem reset_false :
    stm.reset false = empty stm.skipUrgent stm.skipLru stm.skipOrigin := rfl

theorem reset_true : stm.reset true = new := rfl

def push (id : Int) : SwitchToMatchingData := { stm with visited := stm.visited ++ [id] }

variable (wins : List DisplayNode) (ticks : TickMap)

/-- The focused window's id, or the `-1` that stands for none. -/
def focusedId : Int := ((wins.find? (·.node.focused)).map (·.node.id)).getD (-1)

/-- The first invocation of a sequence records origin and last recently used
window; an origin is only written if some window is focused. -/
def initSequence : SwitchToMatchingData :=
  { stm with
    origin :=
      match wins.find? (·.node.focused) with
      | some f => some f.node.id
      | none => stm.origin
    lru := (Kit.maxBy
      (fun a b => compare (ticks.lastFocusTick a.node.id) (ticks.lastFocusTick b.node.id))
      (wins.filter fun w => !w.node.focused)).map (·.node.id) }

/-- The state in which the next window is searched: initialised if it was
empty, the focused window marked as visited. -/
def enter : SwitchToMatchingData :=
  (if stm.visited.isEmpty then stm.initSequence wins ticks else stm).push (focusedId wins)

/-- The initialisation, if this call makes one. -/
def initActions : List Action :=
  if stm.visited.isEmpty then
    [.initialized (stm.initSequence wins ticks).origin (stm.initSequence wins ticks).lru]
  else []

/-- The first branch: an unvisited window that is urgent or matches. -/
def nextTarget (pred : DisplayNode → Bool) : Option DisplayNode :=
  wins.find? fun w =>
    w.node.id != focusedId wins
      && (stm.skipLru || stm.lru != some w.node.id)
      && (stm.skipOrigin || stm.origin != some w.node.id)
      && !stm.visited.contains w.node.id
      && (!stm.skipUrgent && w.node.urgent || pred w)

/-- The second branch: the last recently used window. -/
def lruTarget : Option Int :=
  if stm.skipLru then none
  else
    stm.lru.filter fun id =>
      id != focusedId wins && !stm.visited.contains id && wins.any (·.node.id == id)

/-- The third branch: back to the origin. There is none to go back to if it is
to be skipped, was never recorded, is focused already or is gone. -/
def originTarget : Option Int :=
  if stm.skipOrigin then none
  else stm.origin.filter fun id => id != focusedId wins && wins.any (·.node.id == id)

variable {stm wins ticks}

/-- No window is found twice in a sequence. -/
theorem nextTarget_not_visited {pred : DisplayNode → Bool} {w : DisplayNode}
    (h : stm.nextTarget wins pred = some w) : w.node.id ∉ stm.visited := by
  have := List.find?_some h
  simp only [Bool.and_eq_true] at this
  simpa using this.1.2

/-- Windows that are not focused are looked for. -/
theorem nextTarget_mem {pred : DisplayNode → Bool} {w : DisplayNode}
    (h : stm.nextTarget wins pred = some w) : w ∈ wins ∧ w.node.id ≠ focusedId wins := by
  have := List.find?_some h
  simp only [Bool.and_eq_true] at this
  exact ⟨List.mem_of_find?_eq_some h, by simpa using this.1.1.1.1⟩

/-- A recorded id is only requested for a window that is there and not focused. -/
theorem mem_of_filter {o : Option Int} {p : Int → Bool} {id : Int}
    (h : o.filter (fun i => i != focusedId wins && p i && wins.any (·.node.id == i)) = some id) :
    ∃ w ∈ wins, w.node.id = id ∧ w.node.id ≠ focusedId wins := by
  have hcond := (Option.filter_eq_some_iff.mp h).2
  simp only [Bool.and_eq_true, bne_iff_ne, List.any_eq_true, beq_iff_eq] at hcond
  obtain ⟨⟨hne, -⟩, w, hw, rfl⟩ := hcond
  exact ⟨w, hw, rfl, hne⟩

theorem lruTarget_mem {id : Int} (h : stm.lruTarget wins = some id) :
    ∃ w ∈ wins, w.node.id = id ∧ w.node.id ≠ focusedId wins := by
  unfold lruTarget at h
  split at h
  · simp at h
  · exact mem_of_filter h

theorem originTarget_mem {id : Int} (h : stm.originTarget wins = some id) :
    ∃ w ∈ wins, w.node.id = id ∧ w.node.id ≠ focusedId wins := by
  unfold originTarget at h
  split at h
  · simp at h
  · exact mem_of_filter (p := fun _ => true) (by simpa using h)

/-- The last recently used window is what the first call has recorded. -/
theorem lruTarget_spec {id : Int} (h : stm.lruTarget wins = some id) :
    stm.skipLru = false ∧ stm.lru = some id ∧ id ∉ stm.visited := by
  unfold lruTarget at h
  split at h
  · simp at h
  · rename_i hskip
    obtain ⟨hlru, hcond⟩ := Option.filter_eq_some_iff.mp h
    simp only [Bool.and_eq_true] at hcond
    exact ⟨by simpa using hskip, hlru, by simpa using hcond.1.2⟩

theorem originTarget_eq {id : Int} (h : stm.originTarget wins = some id) :
    stm.origin = some id := by
  unfold originTarget at h
  split at h
  · simp at h
  · exact (Option.filter_eq_some_iff.mp h).1

/-- The window recorded as last recently used has the greatest tick of all
windows that are not focused. -/
theorem initSequence_lru_some {i : Int} (h : (stm.initSequence wins ticks).lru = some i) :
    ∃ m ∈ wins, m.node.focused = false ∧ m.node.id = i ∧
      ∀ w ∈ wins, w.node.focused = false →
        ticks.lastFocusTick w.node.id ≤ ticks.lastFocusTick i := by
  obtain ⟨m, hm, rfl⟩ := Option.map_eq_some_iff.mp h
  obtain ⟨hmem, hmax⟩ :=
    Kit.maxBy_spec (fun w : DisplayNode => ticks.lastFocusTick w.node.id) hm
  obtain ⟨hmw, hunfocused⟩ := List.mem_filter.mp hmem
  refine ⟨m, hmw, by simpa using hunfocused, rfl, fun w hw hwf => hmax w ?_⟩
  exact List.mem_filter.mpr ⟨hw, by simpa using hwf⟩

/-- If none is recorded, every window is focused. -/
theorem initSequence_lru_none (h : (stm.initSequence wins ticks).lru = none) {w : DisplayNode}
    (hw : w ∈ wins) : w.node.focused = true := by
  have hnil := Kit.maxBy_eq_none.mp (Option.map_eq_none_iff.mp h)
  simpa using List.filter_eq_nil_iff.mp hnil w hw

variable (stm wins ticks)

theorem enter_visited_ne_nil : (stm.enter wins ticks).visited ≠ [] := by
  simp [enter, push]

end SwitchToMatchingData

open SwitchToMatchingData

/-- `focus_urgent_or_matching_or_lru_window`. -/
def focusUrgentOrMatchingOrLruWindow (wins : List DisplayNode) (ticks : TickMap)
    (pred : DisplayNode → Bool) (stm : SwitchToMatchingData) :
    SwitchToMatchingData × List Action :=
  let entered := stm.enter wins ticks
  let log := stm.initActions wins ticks
  match entered.nextTarget wins pred with
  | some win => (entered.push win.node.id, log ++ [.focus win.node.id])
  | none =>
      match entered.lruTarget wins with
      | some id => (entered.push id, log ++ [.focus id])
      | none =>
          match entered.originTarget wins with
          | some id => (entered.reset false, log ++ [.reset, .focus id])
          | none =>
              -- The three ways of having no origin end alike.
              if h : stm.visited = [] then (entered.reset false, log ++ [.reset])
              else
                match focusUrgentOrMatchingOrLruWindow wins ticks pred (entered.reset false) with
                | (stm', acts) => (stm', log ++ .reset :: acts)
termination_by stm.visited.length
decreasing_by exact List.length_pos_iff.mpr h

section equations

variable {wins : List DisplayNode} {ticks : TickMap} {pred : DisplayNode → Bool}
  {stm : SwitchToMatchingData}

/-- A window is found that is urgent or matches. -/
theorem call_of_target {w : DisplayNode}
    (h : (stm.enter wins ticks).nextTarget wins pred = some w) :
    focusUrgentOrMatchingOrLruWindow wins ticks pred stm =
      ((stm.enter wins ticks).push w.node.id,
        stm.initActions wins ticks ++ [.focus w.node.id]) := by
  rw [focusUrgentOrMatchingOrLruWindow]
  simp only [h]

/-- Only the last recently used window is left. -/
theorem call_of_lru {id : Int} (h : (stm.enter wins ticks).nextTarget wins pred = none)
    (hl : (stm.enter wins ticks).lruTarget wins = some id) :
    focusUrgentOrMatchingOrLruWindow wins ticks pred stm =
      ((stm.enter wins ticks).push id, stm.initActions wins ticks ++ [.focus id]) := by
  rw [focusUrgentOrMatchingOrLruWindow]
  simp only [h, hl]

/-- Only the way back is left. -/
theorem call_of_origin {id : Int} (h : (stm.enter wins ticks).nextTarget wins pred = none)
    (hl : (stm.enter wins ticks).lruTarget wins = none)
    (ho : (stm.enter wins ticks).originTarget wins = some id) :
    focusUrgentOrMatchingOrLruWindow wins ticks pred stm =
      ((stm.enter wins ticks).reset false,
        stm.initActions wins ticks ++ [.reset, .focus id]) := by
  rw [focusUrgentOrMatchingOrLruWindow]
  simp only [h, hl, ho]

/-- With nothing left a call that has just initialised the state gives up. -/
theorem call_of_exhausted_empty (h : (stm.enter wins ticks).nextTarget wins pred = none)
    (hl : (stm.enter wins ticks).lruTarget wins = none)
    (ho : (stm.enter wins ticks).originTarget wins = none) (hv : stm.visited = []) :
    focusUrgentOrMatchingOrLruWindow wins ticks pred stm =
      ((stm.enter wins ticks).reset false, stm.initActions wins ticks ++ [.reset]) := by
  rw [focusUrgentOrMatchingOrLruWindow]
  simp only [h, hl, ho, hv, dite_true]

/-- With nothing left in a running sequence the call starts a new one. -/
theorem call_of_exhausted (h : (stm.enter wins ticks).nextTarget wins pred = none)
    (hl : (stm.enter wins ticks).lruTarget wins = none)
    (ho : (stm.enter wins ticks).originTarget wins = none) (hv : stm.visited ≠ []) :
    focusUrgentOrMatchingOrLruWindow wins ticks pred stm =
      let r := focusUrgentOrMatchingOrLruWindow wins ticks pred
        ((stm.enter wins ticks).reset false)
      (r.1, .reset :: r.2) := by
  rw [focusUrgentOrMatchingOrLruWindow]
  simp [h, hl, ho, hv, initActions]

end equations

/-- The arguments of one call. -/
structure Call where
  wins : List DisplayNode
  ticks : TickMap
  pred : DisplayNode → Bool

/-- The calls of a run, each working on the state the previous one left. -/
def switcher : Kit.Transducer SwitchToMatchingData Call Action where
  step stm c := focusUrgentOrMatchingOrLruWindow c.wins c.ticks c.pred stm

end Swayr.Cmds
