import Swayr.Bar.Nmcli
import Swayr.Bar.Pactl
import Swayr.Tree.Windows

/-!
# Building a block (`module.rs`, `module/*.rs`)

Each module's `build` decides from the event whether it reads its values again,
and makes a block of the text it has cached. The window module reads sway's tree,
on the events that name it and the first time only; the others read the system,
on every tick. What they are told there is given by `Readings`.
-/

namespace Swayr.Bar

open Shared Kit.Text Ipc

/-- `is_html_escape`. -/
def ModuleConfig.isHtmlEscape (cfg : ModuleConfig) : Bool := cfg.htmlEscape.getD false

/-! ## What the modules read -/

structure SysInfoReading where
  cpuUsage : Text
  memUsage : Text
  loadAvg1 : Text
  loadAvg5 : Text
  loadAvg15 : Text
deriving DecidableEq, Repr

/-- The averages over the batteries, and the set of their states in the order in
which it is iterated over. -/
structure BatteryReading where
  stateOfCharge : Text
  stateOfHealth : Text
  states : List Text
  nodup : states.Nodup

structure Readings where
  sysinfo : SysInfoReading
  /-- The outer `none` is the panic of `Manager::new().unwrap()`, the inner one an
  error of `get_refreshed_batteries`. -/
  batteries : Option (Option BatteryReading)
  /-- `chrono_format`, which panics on an invalid specifier. -/
  chronoFormat : Text → Option Text
  /-- What `pactl` prints. -/
  volumeOutput : Text
  muteOutput : Text
  nmcli : NmcliRun

/-! ## Refreshing the states -/

/-- The window that `refresh_state` of the window module finds in sway's tree. -/
def focusedWindow (root : Node) : Option Node :=
  (getRootNode false root).iter.find? fun n => n.focused && n.getType == .window

/-- `refresh_state` of the window module; `none` is a panic. -/
def WindowState.refresh (R : RtFormat) (root : Node) (fmtStr : Text) (htmlEscape : Bool)
    (st : WindowState) : Option WindowState :=
  match focusedWindow root with
  | some win => do
      let st :=
        { st with name := win.getName.toList, appName := win.getAppName.toList,
                  pid := win.props.pid.getD (-2) }
      let text ← substPlaceholders R fmtStr htmlEscape st.placeholderValue
      some { st with cachedText := text }
  | none => some ⟨[], [], -1, []⟩

def SysInfoState.refresh (R : RtFormat) (r : SysInfoReading) (fmtStr : Text) (htmlEscape : Bool)
    (st : SysInfoState) : Option SysInfoState := do
  let st :=
    { st with cpuUsage := r.cpuUsage, memUsage := r.memUsage, loadAvg1 := r.loadAvg1,
              loadAvg5 := r.loadAvg5, loadAvg15 := r.loadAvg15 }
  let text ← substPlaceholders R fmtStr htmlEscape st.placeholderValue
  some { st with cachedText := text }

/-- The states of the batteries as one text. -/
def batteryStates : List Text → Text
  | [state] => state
  | states => '[' :: List.intercalate ", ".toList states ++ [']']

/-- `refresh_state` of the battery module; `none` is a panic, and an error changes
nothing. -/
def BatteryState.refresh (R : RtFormat) (r : Option (Option BatteryReading)) (fmtStr : Text)
    (htmlEscape : Bool) (st : BatteryState) : Option BatteryState := do
  match ← r with
  | some bats =>
      let st :=
        { st with stateOfCharge := bats.stateOfCharge, stateOfHealth := bats.stateOfHealth,
                  state := batteryStates bats.states }
      let text ← substPlaceholders R fmtStr htmlEscape st.placeholderValue
      some { st with cachedText := text }
  | none => some st

section build

variable (R : RtFormat) (D : DigitClass) (root : Node) (r : Readings)

/-- A module's state with its values read again; `none` is a panic. -/
def ModuleState.refresh (cfg : ModuleConfig) : ModuleState → Option ModuleState
  | .window st => (st.refresh R root cfg.format cfg.isHtmlEscape).map .window
  | .sysinfo st => (st.refresh R r.sysinfo cfg.format cfg.isHtmlEscape).map .sysinfo
  | .battery st => (st.refresh R r.batteries cfg.format cfg.isHtmlEscape).map .battery
  | .date _ => (r.chronoFormat cfg.format).map fun text => .date ⟨text⟩
  | .pactl st =>
      (st.refresh D R r.volumeOutput r.muteOutput cfg.format cfg.isHtmlEscape).map .pactl
  | .nmcli st => (st.refresh R r.nmcli cfg.format cfg.isHtmlEscape).map .nmcli

/-- A refresh does not make another module of it. -/
theorem moduleName_refresh {cfg : ModuleConfig} {st st' : ModuleState}
    (h : st.refresh R D root r cfg = some st') : st'.moduleName = st.moduleName := by
  cases st <;> (obtain ⟨_, -, rfl⟩ := Option.map_eq_some_iff.mp h; rfl)

/-- `should_refresh`. -/
def shouldRefresh (cfg : ModuleConfig) (nai : Option NameInstanceAndReason) (periodic : Bool)
    (reasons : List RefreshReason) : Bool :=
  match nai with
  | none => periodic
  | some ev => ev.name == cfg.name && ev.instance_ == cfg.instance_ && reasons.contains ev.reason

/-- The condition under which each module's `build` refreshes its state. A window
module's first process id is none that a window can have. -/
def ModuleState.refreshes (cfg : ModuleConfig) (nai : Option NameInstanceAndReason) :
    ModuleState → Bool
  | .window st => st.pid == -128 || shouldRefresh cfg nai false [.swayEvent]
  | .sysinfo _ | .battery _ | .date _ => shouldRefresh cfg nai true []
  | .pactl _ | .nmcli _ => shouldRefresh cfg nai true [.clickEvent]

def ModuleState.cachedText : ModuleState → Text
  | .window st => st.cachedText
  | .sysinfo st => st.cachedText
  | .battery st => st.cachedText
  | .date st => st.cachedText
  | .pactl st => st.cachedText
  | .nmcli st => st.cachedText

/-- `swaybar_types::Align` and `Markup`. -/
inductive BlockAlign
  | left | right | center
deriving DecidableEq, Repr

inductive BlockMarkup
  | pango | none
deriving DecidableEq, Repr

/-- The fields of `swaybar_types::Block` that are not always `None`. -/
structure Block where
  name : Text
  instance_ : Text
  fullText : Text
  align : BlockAlign
  markup : BlockMarkup
  separator : Bool
deriving DecidableEq, Repr

/-- The block at the end of each module's `build`. -/
def BarModule.block (m : BarModule) : Block :=
  ⟨m.state.moduleName, m.config.instance_, m.state.cachedText, .left, .pango, true⟩

def BarModule.refresh (m : BarModule) : Option BarModule :=
  match h : m.state.refresh R D root r m.config with
  | some st => some ⟨m.config, st, m.named.trans (moduleName_refresh R D root r h).symm⟩
  | none => none

/-- `build`; `none` is a panic. -/
def BarModule.build (nai : Option NameInstanceAndReason) (m : BarModule) :
    Option (BarModule × Block) :=
  (if m.state.refreshes m.config nai then m.refresh R D root r else some m).map fun m =>
    (m, m.block)

variable {R D root r}

theorem refresh_spec {m m' : BarModule} (h : m.refresh R D root r = some m') :
    m'.config = m.config ∧ m.state.refresh R D root r m.config = some m'.state := by
  unfold BarModule.refresh at h
  split at h
  · next st hst =>
      obtain rfl := Option.some.inj h
      exact ⟨rfl, hst⟩
  · cases h

theorem refresh_isSome (m : BarModule) :
    (m.refresh R D root r).isSome = (m.state.refresh R D root r m.config).isSome := by
  unfold BarModule.refresh
  split
  · next st hst => exact (congrArg Option.isSome hst).symm
  · next hst => exact (congrArg Option.isSome hst).symm

/-- A module is refreshed, or left as it is if nothing asks for a refresh. -/
theorem build_spec {nai : Option NameInstanceAndReason} {m m' : BarModule} {b : Block}
    (h : m.build R D root r nai = some (m', b)) :
    b = m'.block ∧ m'.config = m.config ∧
      (m.state.refreshes m.config nai = true ∧
          m.state.refresh R D root r m.config = some m'.state ∨
        m.state.refreshes m.config nai = false ∧ m' = m) := by
  obtain ⟨m₁, hm₁, heq⟩ := Option.map_eq_some_iff.mp h
  obtain ⟨rfl, rfl⟩ := Prod.mk.inj heq
  refine ⟨rfl, ?_⟩
  split at hm₁
  · next href =>
      obtain ⟨hcfg, hst⟩ := refresh_spec hm₁
      exact ⟨hcfg, .inl ⟨href, hst⟩⟩
  · next href =>
      obtain rfl := Option.some.inj hm₁
      exact ⟨rfl, .inr ⟨Bool.not_eq_true _ ▸ href, rfl⟩⟩

end build

/-! ## The window module -/

/-- The values of the placeholders for a window. -/
def windowValues (win : Node) : Text → Option FmtArg :=
  (WindowState.mk win.getName.toList win.getAppName.toList (win.props.pid.getD (-2))
    []).placeholderValue

/-- The window module's state after it has read a tree; `none` if the text cannot be
made. -/
def WindowState.ofTree (R : RtFormat) (cfg : ModuleConfig) (root : Node) : Option WindowState :=
  match focusedWindow root with
  | some win =>
      (substPlaceholders R cfg.format cfg.isHtmlEscape (windowValues win)).map
        (.mk win.getName.toList win.getAppName.toList (win.props.pid.getD (-2)))
  | none => some ⟨[], [], -1, []⟩

/-- The window module keeps nothing of its old state. -/
theorem WindowState.refresh_eq (R : RtFormat) (cfg : ModuleConfig) (root : Node)
    (st : WindowState) :
    st.refresh R root cfg.format cfg.isHtmlEscape = ofTree R cfg root := by
  unfold refresh ofTree
  cases focusedWindow root with
  | none => rfl
  | some win =>
      simp only [Option.bind_eq_bind]
      show (substPlaceholders R cfg.format cfg.isHtmlEscape (windowValues win)).bind _ = _
      cases substPlaceholders R cfg.format cfg.isHtmlEscape (windowValues win) <;> rfl

/-- A module called `window` is a window module. -/
theorem exists_windowState {m : BarModule} (h : m.config.name = "window".toList) :
    ∃ st, m.state = .window st := by
  have hname := m.named
  rw [h] at hname
  cases hst : m.state <;> rw [hst] at hname
  case window st => exact ⟨st, rfl⟩
  case sysinfo => exact absurd hname (show "window".toList ≠ "sysinfo".toList by decide)
  case battery => exact absurd hname (show "window".toList ≠ "battery".toList by decide)
  case date => exact absurd hname (show "window".toList ≠ "date".toList by decide)
  case pactl => exact absurd hname (show "window".toList ≠ "pactl".toList by decide)
  case nmcli => exact absurd hname (show "window".toList ≠ "nmcli".toList by decide)

/-- A window module reads the tree, unless it has done so before and the event is not
about it. -/
theorem build_window {R : RtFormat} {D : DigitClass} {root : Node} {r : Readings}
    {nai : Option NameInstanceAndReason} {m m' : BarModule} {b : Block} {st : WindowState}
    (hst : m.state = .window st) (h : m.build R D root r nai = some (m', b)) :
    (WindowState.ofTree R m.config root).map .window = some m'.state ∨
      (m' = m ∧ st.pid ≠ -128 ∧
        nai ≠ some ⟨m.config.name, m.config.instance_, .swayEvent⟩) := by
  obtain ⟨-, -, ⟨-, hrefresh⟩ | ⟨hidle, hsame⟩⟩ := build_spec h
  · left
    rw [hst] at hrefresh
    rwa [← WindowState.refresh_eq R m.config root st]
  · right
    rw [hst] at hidle
    simp only [ModuleState.refreshes, Bool.or_eq_false_iff, beq_eq_false_iff_ne] at hidle
    refine ⟨hsame, hidle.1, ?_⟩
    rintro rfl
    simp [shouldRefresh] at hidle

/-- What a tree tells about the focused window. -/
def focusedData (root : Node) : Option (String × String × Option ℤ) :=
  (focusedWindow root).map fun win => (win.getName, win.getAppName, win.props.pid)

/-- The window module reads nothing else of the tree. -/
theorem WindowState.ofTree_congr {root root' : Node} (h : focusedData root = focusedData root')
    (R : RtFormat) (cfg : ModuleConfig) : ofTree R cfg root = ofTree R cfg root' := by
  unfold focusedData at h
  unfold ofTree
  cases hwin : focusedWindow root with
  | none =>
      rw [hwin, Option.map_none, eq_comm, Option.map_eq_none_iff] at h
      rw [h]
  | some win =>
      rw [hwin, Option.map_some, eq_comm, Option.map_eq_some_iff] at h
      obtain ⟨win', hwin', hdata⟩ := h
      simp only [Prod.mk.injEq] at hdata
      obtain ⟨hname, happ, hpid⟩ := hdata
      rw [hwin']
      simp only [windowValues, hname, happ, hpid]

end Swayr.Bar
