import Swayr.Bar.Build
import Swayr.Bar.Click

/-!
# swayrbar's threads (`bar.rs`)

Three threads send refresh events into a channel that holds sixteen: the ticker,
the thread that listens to sway, and the one that handles the clicks. The main
thread receives them one at a time, has every module build its block, and prints
the line. It works on the modules one after another, each behind a lock of its own,
so that a click can come between any two of them. A click that panics while it fills
in a command leaves the lock of that module poisoned, and the main thread panics when
it comes to the module.

Sway is part of the system. It changes its tree when it likes, and puts an event
into the stream of a subscriber. It reports every change of what is known of the
focused window as a window or a workspace event.
-/

namespace Swayr.Bar

open Shared Ipc Focus

/-- The main thread: at `receiver.iter()`, or in `generate_status_1` with the blocks
it has so far. -/
inductive Main
  | waiting
  | making (ev : Option NameInstanceAndReason) (blocks : List Block)
  | panicked
deriving DecidableEq, Repr

def Main.blocks : Main → List Block
  | .making _ blocks => blocks
  | _ => []

/-- The input thread: at the next click, at `send_refresh_event`, or gone. -/
inductive Input
  | reading
  | sending (ev : NameInstanceAndReason)
  | panicked
deriving DecidableEq, Repr

/-- A printed line, with the event it was made for. -/
structure Line where
  event : Option NameInstanceAndReason
  blocks : List Block
deriving DecidableEq, Repr

structure BarState where
  /-- Sway's tree. -/
  root : Node
  /-- The events in the subscription's stream. -/
  stream : List SwayEvent
  /-- The loop of `handle_sway_events`. -/
  events : LoopState Unit NameInstanceAndReason
  /-- The refresh events that the loop has yet to send. -/
  pending : List NameInstanceAndReason
  input : Input
  chan : List (Option NameInstanceAndReason)
  mods : List BarModule
  /-- The module whose lock is poisoned. -/
  poisoned : Option ℕ
  main : Main
  printed : List Line
  spawned : List Spawn

namespace BarState

/-- `sync_channel(16)`: sending waits for room. -/
def hasRoom (s : BarState) : Bool := decide (s.chan.length < 16)

/-- The block that a module built last: in the line being made, or in the one printed
last. -/
def latest (s : BarState) (i : ℕ) : Option Block :=
  s.main.blocks[i]?.or (s.printed.getLast?.bind fun line => line.blocks[i]?)

end BarState

/-- Who moves. -/
inductive BarLabel
  /-- Sway changes its tree and reports an event. -/
  | change (root : Node) (ev : Option SwayEvent)
  /-- The thread of `handle_sway_events` is told something, or sends. -/
  | listen (a : Answer SwayEvent)
  | forward
  /-- The ticker sends. -/
  | tick
  /-- The input thread handles a click, or sends. -/
  | click (c : Click) (chronoFormat : Text → Option Text)
  | send
  /-- The main thread. -/
  | receive
  | build (r : Readings)
  | print

/-- What is left of the stream when the loop has been told something. An item that
cannot be read is an event lost. -/
def streamAfter (stream : List SwayEvent) : Answer SwayEvent → Option (List SwayEvent)
  | .event ev =>
      match stream with
      | next :: rest => if next = ev then some rest else none
      | [] => none
  | .error => some stream.tail
  | .subscribed | .ended => some []
  | .refused => some stream

/-- The events on which `handle_sway_events` refreshes the window modules. -/
def reports : Option SwayEvent → Bool
  | some (.window _ _) | some (.workspace _ _) => true
  | _ => false

/-- `window_mods` in `start`. -/
def windowMods (mods : List BarModule) : List (Text × Text) :=
  (mods.filter fun m => m.config.name == "window".toList).map fun m =>
    (m.config.name, m.config.instance_)

section system

variable (R : RtFormat) (D : DigitClass)

/-- One turn of the loop in `generate_status_1`, which cannot lock a poisoned state. -/
def buildNext (r : Readings) (s : BarState) (ev : Option NameInstanceAndReason)
    (blocks : List Block) : Option BarState :=
  (s.mods[blocks.length]?).map fun m =>
    match if s.poisoned = some blocks.length then none else m.build R D s.root r ev with
    | some (m', b) =>
        { s with mods := s.mods.set blocks.length m', main := .making ev (blocks ++ [b]) }
    | none => { s with main := .panicked }

/-- `handle_input`, from a click to the refresh event. -/
def handleClickStep (c : Click) (chronoFormat : Text → Option Text) (s : BarState) : BarState :=
  match handleClick R chronoFormat s.mods c with
  | some effect =>
      { s with input := effect.event.elim .reading .sending,
               spawned := s.spawned ++ effect.spawned.toList }
  | none => { s with input := .panicked, poisoned := poisonedBy R chronoFormat s.mods c }

/-- One move. A panic of the main thread ends the process. -/
def barStep (s : BarState) : BarLabel → Option BarState
  | .change root ev =>
      if reports ev = true ∨ focusedData root = focusedData s.root then
        some { s with root := root,
                      stream := if s.events.place = .reading then s.stream ++ ev.toList
                                else s.stream }
      else none
  | .listen a =>
      -- without a window module the thread is not started
      if s.main ≠ .panicked ∧ windowMods s.mods ≠ [] ∧ s.pending = [] then
        (streamAfter s.stream a).bind fun stream =>
          ((handleSwayEvents (windowMods s.mods)).step s.events a).map fun events =>
            { s with stream, events, pending := events.out.drop s.events.out.length }
      else none
  | .forward =>
      match s.pending with
      | ev :: pending =>
          if s.main ≠ .panicked ∧ s.hasRoom then
            some { s with pending, chan := s.chan ++ [some ev] }
          else none
      | [] => none
  | .tick =>
      if s.main ≠ .panicked ∧ s.hasRoom then some { s with chan := s.chan ++ [none] } else none
  | .click c chronoFormat =>
      if s.main ≠ .panicked ∧ s.input = .reading then some (handleClickStep R c chronoFormat s)
      else none
  | .send =>
      match s.input with
      | .sending ev =>
          if s.main ≠ .panicked ∧ s.hasRoom then
            some { s with chan := s.chan ++ [some ev], input := .reading }
          else none
      | _ => none
  | .receive =>
      match s.main, s.chan with
      | .waiting, ev :: chan => some { s with chan, main := .making ev [] }
      | _, _ => none
  | .build r =>
      match s.main with
      | .making ev blocks => buildNext R D r s ev blocks
      | _ => none
  | .print =>
      match s.main with
      | .making ev blocks =>
          if blocks.length = s.mods.length then
            some { s with main := .waiting, printed := s.printed ++ [⟨ev, blocks⟩] }
          else none
      | _ => none

/-- `start`, once the threads are there. -/
def barStart (configs : List ModuleConfig) (root : Node) : BarState where
  root := root
  stream := []
  events := loopStart 10 ()
  pending := []
  input := .reading
  chan := []
  mods := createModules configs
  poisoned := none
  main := .waiting
  printed := []
  spawned := []

def barSystem : Kit.Guarded BarState BarLabel where
  step := barStep R D

/-! ## What a move can be -/

/-- The moves, with what they need and what they do. -/
inductive Moves (s : BarState) : BarLabel → BarState → Prop
  | change {root : Node} {ev : Option SwayEvent}
      (hev : reports ev = true ∨ focusedData root = focusedData s.root) :
      Moves s (.change root ev)
        { s with root := root,
                 stream := if s.events.place = .reading then s.stream ++ ev.toList
                           else s.stream }
  | listen {a : Answer SwayEvent} {stream : List SwayEvent}
      {events : LoopState Unit NameInstanceAndReason}
      (hidle : s.pending = []) (hstream : streamAfter s.stream a = some stream)
      (hloop : (handleSwayEvents (windowMods s.mods)).step s.events a = some events) :
      Moves s (.listen a)
        { s with stream, events, pending := events.out.drop s.events.out.length }
  | forward {ev : NameInstanceAndReason} {pending : List NameInstanceAndReason}
      (hev : s.pending = ev :: pending) (hroom : s.hasRoom = true) :
      Moves s .forward { s with pending, chan := s.chan ++ [some ev] }
  | tick (hroom : s.hasRoom = true) : Moves s .tick { s with chan := s.chan ++ [none] }
  | click {c : Click} {chronoFormat : Text → Option Text} {effect : ClickEffect}
      (halive : s.main ≠ .panicked)
      (hclick : handleClick R chronoFormat s.mods c = some effect) :
      Moves s (.click c chronoFormat)
        { s with input := effect.event.elim .reading .sending,
                 spawned := s.spawned ++ effect.spawned.toList }
  | clickPanics {c : Click} {chronoFormat : Text → Option Text} (halive : s.main ≠ .panicked)
      (hclick : handleClick R chronoFormat s.mods c = none) :
      Moves s (.click c chronoFormat)
        { s with input := .panicked, poisoned := poisonedBy R chronoFormat s.mods c }
  | send {ev : NameInstanceAndReason} (hinput : s.input = .sending ev)
      (hroom : s.hasRoom = true) :
      Moves s .send { s with chan := s.chan ++ [some ev], input := .reading }
  | receive {ev : Option NameInstanceAndReason} {chan : List (Option NameInstanceAndReason)}
      (hmain : s.main = .waiting) (hchan : s.chan = ev :: chan) :
      Moves s .receive { s with chan, main := .making ev [] }
  | build {r : Readings} {ev : Option NameInstanceAndReason} {blocks : List Block}
      {m m' : BarModule} {b : Block} (hmain : s.main = .making ev blocks)
      (hm : s.mods[blocks.length]? = some m) (hbuild : m.build R D s.root r ev = some (m', b)) :
      Moves s (.build r)
        { s with mods := s.mods.set blocks.length m', main := .making ev (blocks ++ [b]) }
  | buildPanics {r : Readings} : Moves s (.build r) { s with main := .panicked }
  | print {ev : Option NameInstanceAndReason} {blocks : List Block}
      (hmain : s.main = .making ev blocks) (hlen : blocks.length = s.mods.length) :
      Moves s .print { s with main := .waiting, printed := s.printed ++ [⟨ev, blocks⟩] }

variable {R D} {s s' : BarState}

/-- What the next build in a round can come to. -/
theorem moves_buildNext {r : Readings} {ev : Option NameInstanceAndReason} {blocks : List Block}
    (hmain : s.main = .making ev blocks) (h : buildNext R D r s ev blocks = some s') :
    Moves R D s (.build r) s' := by
  obtain ⟨m, hm, hs'⟩ := Option.map_eq_some_iff.mp h
  split at hs'
  · next m' b hbuild =>
      split at hbuild
      · cases hbuild
      · exact hs' ▸ .build hmain hm hbuild
  · exact hs' ▸ .buildPanics

theorem moves_handleClickStep (halive : s.main ≠ .panicked) (c : Click)
    (chronoFormat : Text → Option Text) :
    Moves R D s (.click c chronoFormat) (handleClickStep R c chronoFormat s) := by
  unfold handleClickStep
  split
  · next effect hclick => exact .click halive hclick
  · next hclick => exact .clickPanics halive hclick

/-- Every step of the system is one of the moves. -/
theorem moves_of_step {a : BarLabel} (h : (barSystem R D).step s a = some s') :
    Moves R D s a s' := by
  change barStep R D s a = some s' at h
  -- Each label has its guards; where one fails there is no step.
  cases a <;> simp only [barStep] at h
  case change root ev =>
      split at h
      · next hev => exact Option.some.inj h ▸ .change hev
      · cases h
  case listen a =>
      split at h
      · next hidle =>
          obtain ⟨stream, hstream, hmap⟩ := Option.bind_eq_some_iff.mp h
          obtain ⟨events, hloop, rfl⟩ := Option.map_eq_some_iff.mp hmap
          exact .listen hidle.2.2 hstream hloop
      · cases h
  case forward =>
      split at h
      · next ev rest hev =>
          split at h
          · next hguard => exact Option.some.inj h ▸ .forward hev hguard.2
          · cases h
      · cases h
  case tick =>
      split at h
      · next hguard => exact Option.some.inj h ▸ .tick hguard.2
      · cases h
  case click c chronoFormat =>
      split at h
      · next hguard => exact Option.some.inj h ▸ moves_handleClickStep hguard.1 c chronoFormat
      · cases h
  case send =>
      split at h
      · next ev hinput =>
          split at h
          · next hguard => exact Option.some.inj h ▸ .send hinput hguard.2
          · cases h
      · cases h
  case receive =>
      split at h
      · next ev chan hmain hchan => exact Option.some.inj h ▸ .receive hmain hchan
      · cases h
  case build r =>
      split at h
      · next ev blocks hmain => exact moves_buildNext hmain h
      · cases h
  case print =>
      split at h
      · next ev blocks hmain =>
          split at h
          · next hlen => exact Option.some.inj h ▸ .print hmain hlen
          · cases h
      · cases h

/-! ## One module -/

/-- A move leaves a module and its last block alone, or is the module's own turn to
build. -/
theorem module_of_moves {a : BarLabel} (h : Moves R D s a s') {i : ℕ} {m : BarModule}
    (hm : s.mods[i]? = some m) :
    (s'.mods[i]? = some m ∧ (s'.main ≠ .panicked → s'.latest i = s.latest i)) ∨
      ∃ r ev blocks m', a = .build r ∧ s.main = .making ev blocks ∧ blocks.length = i ∧
        m.build R D s.root r ev = some (m', m'.block) ∧ s'.mods[i]? = some m' ∧
        s'.latest i = some m'.block := by
  cases h with
  | change | listen | forward | tick | click | clickPanics | send =>
      exact .inl ⟨hm, fun _ => rfl⟩
  | receive hmain hchan =>
      refine .inl ⟨hm, fun _ => ?_⟩
      unfold BarState.latest
      rw [hmain]
      rfl
  | @build r ev blocks m₀ m' b hmain hm₀ hbuild =>
      obtain ⟨hb, -⟩ := build_spec hbuild
      have hlt : blocks.length < s.mods.length := (List.getElem?_eq_some_iff.mp hm₀).1
      by_cases hi : blocks.length = i
      · subst hi
        obtain rfl : m₀ = m := Option.some.inj (hm₀.symm.trans hm)
        refine .inr ⟨r, ev, blocks, m', rfl, hmain, rfl, hb ▸ hbuild, ?_, ?_⟩
        · exact List.getElem?_set_self hlt
        · simp [BarState.latest, Main.blocks, hb]
      · refine .inl ⟨(List.getElem?_set_ne hi).trans hm, fun _ => ?_⟩
        -- the new block has another place
        have hblock : (blocks ++ [b])[i]? = blocks[i]? := by
          rcases Nat.lt_or_gt_of_ne hi with hgt | hlt'
          · rw [List.getElem?_eq_none (by simp; omega), List.getElem?_eq_none (by omega)]
          · exact List.getElem?_append_left hlt'
        simp only [BarState.latest, hmain, Main.blocks, hblock]
  | buildPanics => exact .inl ⟨hm, fun hmain => absurd rfl hmain⟩
  | @print ev blocks hmain hlen =>
      refine .inl ⟨hm, fun _ => ?_⟩
      -- every module has a block in the line
      have hlt : i < blocks.length := hlen ▸ (List.getElem?_eq_some_iff.mp hm).1
      simp [BarState.latest, hmain, Main.blocks, List.getElem?_eq_getElem hlt]

/-- No move touches the configuration. -/
theorem configs_of_moves {a : BarLabel} (h : Moves R D s a s') :
    s'.mods.map BarModule.config = s.mods.map BarModule.config := by
  cases h with
  | build hmain hm hbuild =>
      obtain ⟨-, hcfg, -⟩ := build_spec hbuild
      obtain ⟨hlt, rfl⟩ := List.getElem?_eq_some_iff.mp hm
      rw [List.map_set, hcfg, ← List.getElem_map BarModule.config (h := by simpa using hlt)]
      exact List.set_getElem_self _
  | _ => rfl

/-- The modules stay in their places. -/
theorem module_before_moves {a : BarLabel} (h : Moves R D s a s') {i : ℕ} {m' : BarModule}
    (hm' : s'.mods[i]? = some m') : ∃ m, s.mods[i]? = some m ∧ m.config = m'.config := by
  have hcfg : (s.mods.map BarModule.config)[i]? = some m'.config := by
    rw [← configs_of_moves h, List.getElem?_map, hm', Option.map_some]
  rwa [List.getElem?_map, Option.map_eq_some_iff] at hcfg

/-- A process that has not ended has not ended before. -/
theorem alive_of_moves {a : BarLabel} (h : Moves R D s a s') (halive : s'.main ≠ .panicked) :
    s.main ≠ .panicked := by
  cases h with
  | receive hmain | build hmain | print hmain => rw [hmain]; simp
  | buildPanics => exact absurd rfl halive
  | _ => exact halive

end system

/-! ## The listening thread -/

/-- An event read while the subscription goes on. -/
theorem handleSwayEvents_event {wm : List (Text × Text)} {ev : SwayEvent}
    {l l' : LoopState Unit NameInstanceAndReason}
    (h : (handleSwayEvents wm).step l (.event ev) = some l') (hplace : l'.place = .reading) :
    l.place = .reading ∧ ∃ out, handleSwayEvent wm ev = some out ∧ l'.out = l.out ++ out := by
  unfold handleSwayEvents eventLoop at h
  cases hl : l.place <;> simp only [hl] at h
  case reading =>
      split at h
      · next data out heq =>
          obtain rfl := Option.some.inj h
          exact ⟨rfl, out, congrArg Prod.snd heq, rfl⟩
      · obtain rfl := Option.some.inj h
        cases hplace
  all_goals cases h

theorem stream_eq_of_event {stream rest : List SwayEvent} {ev : SwayEvent}
    (h : streamAfter stream (.event ev) = some rest) : stream = ev :: rest := by
  cases stream with
  | nil => cases h
  | cons next tail =>
      simp only [streamAfter, Option.ite_none_right_eq_some, Option.some.injEq] at h
      rw [h.1, h.2]

end Swayr.Bar
