import Swayr.Focus.Monitor
import Swayr.Shared.Fmt

/-!
# swayrbar's modules (`module.rs`, `module/*.rs`, `config.rs`) and its sway events (`bar.rs`)

A module has a configuration and a state, from which the placeholders in its
format and in the arguments of its commands get their values. The date module is
the exception: its texts go through `chrono`. `handle_sway_events` asks for a
refresh of every window module when sway reports that something has changed.
-/

namespace Swayr.Bar

open Shared

/-- `config::ModuleConfig`; a hash map is its lookup. -/
structure ModuleConfig where
  name : Text
  instance_ : Text
  format : Text
  htmlEscape : Option Bool
  onClick : Option (Text → Option (List Text))

inductive RefreshReason
  | clickEvent | swayEvent
deriving DecidableEq, Repr

/-- `NameInstanceAndReason`, which names a module and why it is refreshed. -/
structure NameInstanceAndReason where
  name : Text
  instance_ : Text
  reason : RefreshReason
deriving DecidableEq, Repr

/-- `get_on_click_map`. -/
def getOnClickMap (cfg : ModuleConfig) (name instance_ : Text) :
    Option (Text → Option (List Text)) :=
  if name = cfg.name ∧ instance_ = cfg.instance_ then cfg.onClick else none

/-! ## States -/

structure WindowState where
  name : Text
  appName : Text
  pid : ℤ
  cachedText : Text
deriving DecidableEq, Repr

/-- Floats are given by the texts they are shown as. -/
structure SysInfoState where
  cpuUsage : Text
  memUsage : Text
  loadAvg1 : Text
  loadAvg5 : Text
  loadAvg15 : Text
  cachedText : Text
deriving DecidableEq, Repr

structure BatteryState where
  stateOfCharge : Text
  stateOfHealth : Text
  state : Text
  cachedText : Text
deriving DecidableEq, Repr

structure DateState where
  cachedText : Text
deriving DecidableEq, Repr

structure PactlState where
  volume : Fin 256
  muted : Bool
  cachedText : Text
deriving DecidableEq, Repr

structure NmcliState where
  cachedText : Text
  signal : Option Text
  name : Option Text
  bars : Option Text
deriving DecidableEq, Repr

/-- The arms of each module's `subst_placeholders`. -/
def WindowState.placeholderValue (st : WindowState) (key : Text) : Option FmtArg :=
  if key = "title".toList ∨ key = "name".toList then some (.string st.name)
  else if key = "app_name".toList then some (.string st.appName)
  else if key = "pid".toList then some (.i32 st.pid)
  else none

def SysInfoState.placeholderValue (st : SysInfoState) (key : Text) : Option FmtArg :=
  if key = "cpu_usage".toList then some (.f32 st.cpuUsage)
  else if key = "mem_usage".toList then some (.f64 st.memUsage)
  else if key = "load_avg_1".toList then some (.f64 st.loadAvg1)
  else if key = "load_avg_5".toList then some (.f64 st.loadAvg5)
  else if key = "load_avg_15".toList then some (.f64 st.loadAvg15)
  else none

def BatteryState.placeholderValue (st : BatteryState) (key : Text) : Option FmtArg :=
  if key = "state_of_charge".toList then some (.f32 st.stateOfCharge)
  else if key = "state_of_health".toList then some (.f32 st.stateOfHealth)
  else if key = "state".toList then some (.string st.state)
  else none

def PactlState.placeholderValue (st : PactlState) (key : Text) : Option FmtArg :=
  if key = "volume".toList then some (.u8 st.volume)
  else if key = "muted".toList then some (.string (if st.muted then " muted".toList else []))
  else none

def NmcliState.placeholderValue (st : NmcliState) (key : Text) : Option FmtArg :=
  if key = "name".toList then some (.string (st.name.getD "No wi-fi".toList))
  else if key = "signal".toList then
    some (.string (st.signal.elim [] fun signal => ' ' :: signal ++ ['%']))
  else if key = "bars".toList then some (.string (st.bars.elim [] fun bars => ' ' :: bars))
  else none

/-! ## Modules -/

inductive ModuleState
  | window (st : WindowState)
  | sysinfo (st : SysInfoState)
  | battery (st : BatteryState)
  | date (st : DateState)
  | pactl (st : PactlState)
  | nmcli (st : NmcliState)
deriving DecidableEq, Repr

/-- The values of a module's placeholders; the date module has none. -/
def ModuleState.placeholderValue : ModuleState → Text → Option FmtArg
  | .window st => st.placeholderValue
  | .sysinfo st => st.placeholderValue
  | .battery st => st.placeholderValue
  | .date _ => fun _ => none
  | .pactl st => st.placeholderValue
  | .nmcli st => st.placeholderValue

/-- The constant `NAME` of each module. -/
def ModuleState.moduleName : ModuleState → Text
  | .window _ => "window".toList
  | .sysinfo _ => "sysinfo".toList
  | .battery _ => "battery".toList
  | .date _ => "date".toList
  | .pactl _ => "pactl".toList
  | .nmcli _ => "nmcli".toList

/-- A module is what its configuration names. -/
structure BarModule where
  config : ModuleConfig
  state : ModuleState
  named : config.name = state.moduleName

/-- The state each module's `create` begins with. -/
def initialState (name : Text) : Option ModuleState :=
  if name = "window".toList then some (.window ⟨[], [], -128, []⟩)
  else if name = "sysinfo".toList then some (.sysinfo ⟨['0'], ['0'], ['0'], ['0'], ['0'], []⟩)
  else if name = "battery".toList then some (.battery ⟨['0'], ['0'], "Unknown".toList, []⟩)
  else if name = "date".toList then some (.date ⟨[]⟩)
  else if name = "pactl".toList then some (.pactl ⟨255, false, []⟩)
  else if name = "nmcli".toList then some (.nmcli ⟨[], none, none, none⟩)
  else none

/-- Modules are known by the names of their states. -/
theorem initialState_name {name : Text} {st : ModuleState} (h : initialState name = some st) :
    name = st.moduleName := by
  unfold initialState at h
  repeat' split at h
  all_goals first
    | (obtain rfl := Option.some.inj h; assumption)
    | simp at h

/-- `create_modules`: a configuration that names no module is ignored. -/
def createModules (configs : List ModuleConfig) : List BarModule :=
  configs.filterMap fun cfg =>
    match h : initialState cfg.name with
    | some st => some ⟨cfg, st, initialState_name h⟩
    | none => none

/-- The configurations that name a module. -/
def knownConfigs (configs : List ModuleConfig) : List ModuleConfig :=
  configs.filter fun cfg => (initialState cfg.name).isSome

/-- Sections with unknown names are left out. -/
theorem map_config_createModules (configs : List ModuleConfig) :
    (createModules configs).map BarModule.config = knownConfigs configs := by
  unfold createModules knownConfigs
  rw [List.map_filterMap, ← List.filterMap_eq_filter]
  congr 1
  funext cfg
  split
  · next st hst => simp [Option.guard, hst]
  · next hst => simp [Option.guard, hst]

/-- The arguments of a command with the placeholders replaced; `none` is a panic. -/
def substEach (R : RtFormat) (values : Text → Option FmtArg) (cmd : List Text) :
    Option (List Text) :=
  cmd.mapM fun arg => substPlaceholders R arg false values

/-- `subst_args`; `none` is a panic. `chronoFormat` is the `chrono` crate's
`Local::now().format(..).to_string()`, which panics on an invalid specifier. -/
def substArgs (R : RtFormat) (chronoFormat : Text → Option Text) (m : BarModule)
    (cmd : List Text) : Option (Option (List Text)) :=
  match m.state with
  | .window st => (substEach R st.placeholderValue cmd).map some
  | .sysinfo st => (substEach R st.placeholderValue cmd).map some
  | .battery st => (substEach R st.placeholderValue cmd).map some
  | .date _ => (cmd.mapM chronoFormat).map some
  | .pactl st => (substEach R st.placeholderValue cmd).map some
  | .nmcli st => (substEach R st.placeholderValue cmd).map some

/-- The modules whose `subst_args` locks their state, which is all but the date
module. -/
def ModuleState.locksState : ModuleState → Bool
  | .date _ => false
  | _ => true

/-! ## Sway events -/

/-- What `handle_sway_events` makes of one event: the refresh events it sends, or
nothing if it leaves its loops. -/
def handleSwayEvent (windowMods : List (Text × Text)) :
    Focus.SwayEvent → Option (List NameInstanceAndReason)
  | .window _ _ | .workspace _ _ => some (windowMods.map fun m => ⟨m.1, m.2, .swayEvent⟩)
  | .shutdown => none
  | .other => some []

/-- `handle_sway_events`. -/
def handleSwayEvents (windowMods : List (Text × Text)) :
    Kit.Guarded (Ipc.LoopState Unit NameInstanceAndReason) (Ipc.Answer Focus.SwayEvent) :=
  Ipc.eventLoop 10 fun _ ev => ((), handleSwayEvent windowMods ev)

end Swayr.Bar
