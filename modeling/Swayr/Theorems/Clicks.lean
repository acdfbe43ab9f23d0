import Swayr.Bar.Click

/-!
# Clicks and the thread that reads them

A click panics in the date module on an argument that is no valid `chrono` format, in
the others on a placeholder that `rt_format` panics on; and `execute_command` panics on
an empty command. A configuration is safe exactly if no click leads to any of these
(`clicks_never_panic_iff`).

The input loop takes one line in each turn and handles it if it is a click. It has
no way out but a panic: when the input has ended, it goes on reading empty lines
(`input_loop_iff`).
-/

namespace Swayr.Theorems.Clicks

open Shared Bar

/-! ## One click -/

theorem mapM_isSome_iff {α β : Type} {f : α → Option β} {as : List α} :
    (as.mapM f).isSome = true ↔ ∀ a ∈ as, (f a).isSome = true := by
  induction as with
  | nil => simp
  | cons a as ih =>
      rw [List.mapM_cons, List.forall_mem_cons, ← ih]
      cases f a with
      | none => simp
      | some b => cases as.mapM f <;> simp

theorem eq_nil_of_mapM {α β : Type} {f : α → Option β} {as : List α} {bs : List β}
    (h : as.mapM f = some bs) : bs = [] ↔ as = [] := by
  cases as with
  | nil =>
      obtain rfl : [] = bs := Option.some.inj h
      simp
  | cons a as =>
      simp only [List.mapM_cons, Option.bind_eq_bind, Option.bind_eq_some_iff] at h
      obtain ⟨b, _, rest, _, hbs⟩ := h
      obtain rfl : b :: rest = bs := Option.some.inj hbs
      simp

/-- Only an empty command has no program to spawn. -/
theorem executeCommand_isSome_iff {cmd : List Text} :
    (executeCommand cmd).isSome = true ↔ cmd ≠ [] := by
  cases cmd <;> simp [executeCommand]

/-- A command whose arguments are gone through one by one is run if none of them
panics and there is one. -/
theorem executeCommand_mapM_isSome_iff {f : Text → Option Text} {cmd : List Text} :
    (((cmd.mapM f).map some).bind fun args => executeCommand (args.getD cmd)).isSome = true ↔
      cmd ≠ [] ∧ ∀ arg ∈ cmd, (f arg).isSome = true := by
  rw [← mapM_isSome_iff]
  cases hmap : cmd.mapM f with
  | none => simp
  | some args =>
      show (executeCommand args).isSome = true ↔ _
      rw [executeCommand_isSome_iff, Ne, eq_nil_of_mapM hmap]
      simp

section click

variable {R : RtFormat} {chronoFormat : Text → Option Text}

/-- A module in this state can fill in the command: the crate does not panic on the
format of a placeholder and the value it has. -/
def FillsIn (R : RtFormat) (st : ModuleState) (cmd : List Text) : Prop :=
  ∀ arg ∈ cmd, ∀ caps ∈ placeholders arg, ∀ val, st.placeholderValue caps.name = some val →
    R.display caps.format val ≠ .panicked

/-- A date module finds a valid format in each argument. -/
def DatesValid (chronoFormat : Text → Option Text) (name : Text) (cmd : List Text) : Prop :=
  name = "date".toList → ∀ arg ∈ cmd, (chronoFormat arg).isSome = true

/-- What a command needs so that a module of the given name can run it in any state. -/
def Runnable (R : RtFormat) (chronoFormat : Text → Option Text) (name : Text)
    (cmd : List Text) : Prop :=
  cmd ≠ [] ∧ DatesValid chronoFormat name cmd ∧
    ∀ st : ModuleState, st.moduleName = name → FillsIn R st cmd

/-- The date module formats every argument, the others replace placeholders. -/
theorem substArgs_cases (m : BarModule) (cmd : List Text) :
    (m.config.name = "date".toList ∧ FillsIn R m.state cmd ∧
        substArgs R chronoFormat m cmd = (cmd.mapM chronoFormat).map some) ∨
      (m.config.name ≠ "date".toList ∧ substArgs R chronoFormat m cmd =
        (substEach R m.state.placeholderValue cmd).map some) := by
  have hname := m.named
  unfold substArgs
  cases hst : m.state <;> rw [hst] at hname <;> simp only
  case date => exact .inl ⟨hname, (fun _ _ _ _ _ hval => by cases hval), trivial⟩
  case window => exact .inr ⟨hname.trans_ne (show "window".toList ≠ "date".toList by decide), rfl⟩
  case sysinfo => exact .inr ⟨hname.trans_ne (show "sysinfo".toList ≠ "date".toList by decide), rfl⟩
  case battery => exact .inr ⟨hname.trans_ne (show "battery".toList ≠ "date".toList by decide), rfl⟩
  case pactl => exact .inr ⟨hname.trans_ne (show "pactl".toList ≠ "date".toList by decide), rfl⟩
  case nmcli => exact .inr ⟨hname.trans_ne (show "nmcli".toList ≠ "date".toList by decide), rfl⟩

theorem runModule_isSome (m : BarModule) (cmd : List Text) :
    (runModule R chronoFormat m cmd).isSome =
      ((substArgs R chronoFormat m cmd).bind fun args =>
        executeCommand (args.getD cmd)).isSome := by
  unfold runModule
  cases substArgs R chronoFormat m cmd with
  | none => rfl
  | some args =>
      show Option.isSome ((executeCommand (args.getD cmd)).bind _) = _
      simp only [Option.bind_some]
      cases executeCommand (args.getD cmd) <;> rfl

/-- What a module needs in order to run a command. -/
theorem runModule_isSome_iff {m : BarModule} {cmd : List Text} :
    (runModule R chronoFormat m cmd).isSome = true ↔
      cmd ≠ [] ∧ DatesValid chronoFormat m.config.name cmd ∧ FillsIn R m.state cmd := by
  rw [runModule_isSome]
  rcases @substArgs_cases R chronoFormat m cmd with ⟨hdate, hfills, hargs⟩ | ⟨hother, hargs⟩
  · rw [hargs, executeCommand_mapM_isSome_iff]
    exact and_congr_right fun _ => ⟨fun h => ⟨fun _ => h, hfills⟩, fun h => h.1 hdate⟩
  · rw [hargs, substEach, executeCommand_mapM_isSome_iff]
    refine and_congr_right fun _ => ⟨fun h => ⟨fun hdate => absurd hdate hother, ?_⟩, fun h => ?_⟩
    · exact fun arg harg => substPlaceholders_isSome_iff.mp (h arg harg)
    · exact fun arg harg => substPlaceholders_isSome_iff.mpr (h.2 arg harg)

/-- The module that a click is for, the first that has a command for it. -/
def clickTarget (mods : List BarModule) (name instance_ button : Text) :
    Option (BarModule × List Text) :=
  mods.findSome? fun m =>
    ((getOnClickMap m.config name instance_).bind fun onClick => onClick button).map (m, ·)

/-- The command for a click: that of the first module that has one. -/
def clickCommand (configs : List ModuleConfig) (name instance_ button : Text) :
    Option (List Text) :=
  configs.findSome? fun cfg => (getOnClickMap cfg name instance_).bind fun onClick => onClick button

/-- The first module with the name and the instance takes the click. -/
theorem handleClickOn_eq (name instance_ button : Text) (mods : List BarModule) :
    handleClickOn R chronoFormat name instance_ button mods =
      (clickTarget mods name instance_ button).elim (some ⟨none, none⟩) fun target =>
        runModule R chronoFormat target.1 target.2 := by
  induction mods with
  | nil => rfl
  | cons m mods ih =>
      unfold handleClickOn clickTarget
      rw [List.findSome?_cons]
      cases (getOnClickMap m.config name instance_).bind fun onClick => onClick button with
      | none => exact ih
      | some cmd => rfl

/-- Which command a click runs is a matter of the configuration. -/
theorem clickCommand_map_config (mods : List BarModule) (name instance_ button : Text) :
    clickCommand (mods.map BarModule.config) name instance_ button =
      (clickTarget mods name instance_ button).map Prod.snd := by
  unfold clickCommand clickTarget
  rw [List.findSome?_map, List.map_findSome?]
  congr 1
  funext m
  simp [Function.comp_def]

/-- A click is for a module that it names. -/
theorem clickTarget_spec {mods : List BarModule} {name instance_ button : Text} {m : BarModule}
    {cmd : List Text} (h : clickTarget mods name instance_ button = some (m, cmd)) :
    m ∈ mods ∧ m.config.name = name ∧ m.config.instance_ = instance_ ∧
      (m.config.onClick.bind fun onClick => onClick button) = some cmd := by
  obtain ⟨m', hmem, hm'⟩ := List.exists_of_findSome?_eq_some h
  obtain ⟨cmd', hcmd, heq⟩ := Option.map_eq_some_iff.mp hm'
  obtain ⟨rfl, rfl⟩ := Prod.mk.inj heq
  unfold getOnClickMap at hcmd
  split at hcmd
  · next hname => exact ⟨hmem, hname.1.symm, hname.2.symm, hcmd⟩
  · cases hcmd

/-- A click panics only in the module that takes it. -/
theorem handleClickOn_isSome_iff {name instance_ button : Text} {mods : List BarModule} :
    (handleClickOn R chronoFormat name instance_ button mods).isSome = true ↔
      ∀ m cmd, clickTarget mods name instance_ button = some (m, cmd) →
        cmd ≠ [] ∧ DatesValid chronoFormat name cmd ∧ FillsIn R m.state cmd := by
  rw [handleClickOn_eq]
  cases htarget : clickTarget mods name instance_ button with
  | none => simp
  | some target =>
      obtain ⟨m, cmd⟩ := target
      rw [Option.elim_some, runModule_isSome_iff, (clickTarget_spec htarget).2.1]
      constructor
      · rintro h _ _ ⟨rfl, rfl⟩
        exact h
      · exact fun h => h m cmd rfl

/-- The module in another state, if it is one of this kind. -/
def withState (st : ModuleState) (m : BarModule) : BarModule :=
  if h : m.config.name = st.moduleName then ⟨m.config, st, h⟩ else m

theorem config_withState (st : ModuleState) (m : BarModule) :
    (withState st m).config = m.config := by
  unfold withState
  split <;> rfl

theorem state_withState {st : ModuleState} {m : BarModule}
    (h : m.config.name = st.moduleName) : (withState st m).state = st := by
  unfold withState
  rw [dif_pos h]

end click

/-- For every configuration and every set of buttons a click can name: whatever the
states of the modules, no click panics, exactly if each click's command is non-empty,
for the date module made of valid formats, and for the others without a placeholder
whose format makes the crate panic on a value it can have. -/
theorem clicks_never_panic_iff (R : RtFormat) (chronoFormat : Text → Option Text)
    (configs : List ModuleConfig) (buttons : Set Text) :
    (∀ mods : List BarModule, mods.map BarModule.config = knownConfigs configs →
        ∀ click : Click, click.button ∈ buttons →
          (handleClick R chronoFormat mods click).isSome = true) ↔
      ∀ name instance_, ∀ button ∈ buttons, ∀ cmd,
        clickCommand (knownConfigs configs) name instance_ button = some cmd →
          Runnable R chronoFormat name cmd := by
  constructor
  · intro hsafe name instance_ button hbutton cmd hcmd
    -- the click's module, with whichever states
    have htarget : ∀ mods : List BarModule, mods.map BarModule.config = knownConfigs configs →
        ∃ m ∈ mods, m.config.name = name ∧
          cmd ≠ [] ∧ DatesValid chronoFormat name cmd ∧ FillsIn R m.state cmd := by
      intro mods hmods
      rw [← hmods, clickCommand_map_config] at hcmd
      obtain ⟨⟨m, _⟩, hm, rfl⟩ := Option.map_eq_some_iff.mp hcmd
      have hclick := hsafe mods hmods ⟨some name, some instance_, button⟩ hbutton
      obtain ⟨hmem, hname, -⟩ := clickTarget_spec hm
      exact ⟨m, hmem, hname, handleClickOn_isSome_iff.mp hclick m _ hm⟩
    obtain ⟨-, -, -, hne, hdates, -⟩ :=
      htarget (createModules configs) (map_config_createModules configs)
    refine ⟨hne, hdates, fun st hst => ?_⟩
    obtain ⟨m, hmem, hname, -, -, hfills⟩ :=
      htarget ((createModules configs).map (withState st)) (by
        rw [← map_config_createModules, List.map_map]
        exact List.map_congr_left fun m _ => config_withState st m)
    obtain ⟨m₀, -, rfl⟩ := List.mem_map.mp hmem
    rw [config_withState] at hname
    rwa [state_withState (hname.trans hst.symm)] at hfills
  · intro hrun mods hmods click hbutton
    unfold handleClick
    split
    · next name instance_ _ _ =>
        rw [handleClickOn_isSome_iff]
        intro m cmd hm
        have hcmd : clickCommand (knownConfigs configs) name instance_ click.button = some cmd := by
          rw [← hmods, clickCommand_map_config, hm, Option.map_some]
        obtain ⟨hne, hdates, hfills⟩ := hrun name instance_ click.button hbutton cmd hcmd
        exact ⟨hne, hdates, hfills m.state (m.named.symm.trans (clickTarget_spec hm).2.1)⟩
    · rfl

/-- A module with one command, for the left button. -/
def leftClickConfig (name : Text) (cmd : List Text) : ModuleConfig :=
  ⟨name, "0".toList, [], none, some fun button => if button = "Left".toList then some cmd else none⟩

def leftClick (name : Text) : Click := ⟨some name, some "0".toList, "Left".toList⟩

/-- With the one module in the state it begins in. -/
theorem leftClick_eq_none {R : RtFormat} {chronoFormat : Text → Option Text} {name : Text}
    {st : ModuleState} {cmd : List Text} (h : initialState name = some st)
    (hcmd : ¬ (cmd ≠ [] ∧ DatesValid chronoFormat name cmd ∧ FillsIn R st cmd)) :
    handleClick R chronoFormat (createModules [leftClickConfig name cmd]) (leftClick name) =
      none := by
  have hmods : createModules [leftClickConfig name cmd] =
      [⟨leftClickConfig name cmd, st, initialState_name h⟩] := by
    unfold createModules
    rw [List.filterMap_cons_some, List.filterMap_nil]
    split
    · next st' hst' =>
        obtain rfl := Option.some.inj (h.symm.trans hst')
        rfl
    · next hnone => exact absurd (h.symm.trans hnone) (by simp)
  rw [hmods, ← Option.not_isSome_iff_eq_none]
  intro hsome
  apply hcmd
  apply handleClickOn_isSome_iff.mp hsome ⟨leftClickConfig name cmd, st, initialState_name h⟩
  simp [clickTarget, getOnClickMap, leftClickConfig, leftClick]

/-- An empty command panics, and so does a date command with an argument that is no
format, and a placeholder with a width of more than sixteen bits. -/
theorem left_click_panics :
    (∀ R chronoFormat, handleClick R chronoFormat
        (createModules [leftClickConfig "pactl".toList []]) (leftClick "pactl".toList) = none) ∧
      (∀ R chronoFormat, chronoFormat "%Q".toList = none →
        handleClick R chronoFormat
          (createModules [leftClickConfig "date".toList ["echo".toList, "%Q".toList]])
          (leftClick "date".toList) = none) ∧
      ∀ chronoFormat, handleClick .basic chronoFormat
        (createModules
          [leftClickConfig "pactl".toList ["echo".toList, "\x7bvolume:\x7b:70000\x7d\x7d".toList]])
        (leftClick "pactl".toList) = none := by
  refine ⟨?_, ?_, ?_⟩
  · intro R chronoFormat
    exact leftClick_eq_none rfl fun hrun => hrun.1 rfl
  · intro R chronoFormat hformat
    refine leftClick_eq_none rfl fun hrun => ?_
    have hsome := hrun.2.1 rfl "%Q".toList (by simp)
    rw [hformat] at hsome
    simp at hsome
  · intro chronoFormat
    refine leftClick_eq_none rfl fun hrun => ?_
    exact hrun.2.2 "\x7bvolume:\x7b:70000\x7d\x7d".toList (by simp)
      ⟨"\x7bvolume:\x7b:70000\x7d\x7d".toList, "volume".toList, some "\x7b:70000\x7d".toList,
        some []⟩ (by decide +kernel) (.u8 255) rfl (by decide +kernel)

/-! ## The input loop -/

/-- The lines of the input, each with its line break. -/
def inputLines : Stdin → List Stdin
  | [] => []
  | some '\n' :: rest => [some '\n'] :: inputLines rest
  | c :: rest =>
      match inputLines rest with
      | [] => [[c]]
      | line :: lines => (c :: line) :: lines

/-- The click in a line, if it is text and one. -/
def lineClick (parser : ClickParser) (line : Stdin) : Option Click :=
  (line.mapM id).bind (clickOf parser)

/-- The clicks in what is still to be read. -/
def clicksIn (parser : ClickParser) (input : Stdin) : List Click :=
  (inputLines input).filterMap (lineClick parser)

theorem inputLines_of_ne_nil {input : Stdin} (h : input ≠ []) :
    inputLines input = (takeLine input).1 :: inputLines (takeLine input).2 := by
  induction input with
  | nil => exact absurd rfl h
  | cons c rest ih =>
      by_cases hc : c = some '\n'
      · subst hc
        rfl
      · rw [inputLines, takeLine]
        · cases rest with
          | nil => rfl
          | cons d rest =>
              rw [ih (List.cons_ne_nil d rest)]
        · exact hc
        · exact hc

/-- Reading a line leaves the others. -/
theorem inputLines_takeLine (input : Stdin) :
    inputLines (takeLine input).2 = (inputLines input).tail := by
  cases input with
  | nil => rfl
  | cons c rest => rw [inputLines_of_ne_nil (List.cons_ne_nil c rest), List.tail_cons]

/-- Past the end there is an empty line, which is no click. -/
theorem clicksIn_takeLine (parser : ClickParser) (input : Stdin) :
    clicksIn parser input =
      (lineClick parser (takeLine input).1).toList ++ clicksIn parser (takeLine input).2 := by
  unfold clicksIn
  cases input with
  | nil =>
      have hnil : lineClick parser [] = none := parser.parse_nil
      simp [takeLine, inputLines, hnil]
  | cons c rest =>
      rw [inputLines_of_ne_nil (List.cons_ne_nil c rest), List.filterMap_cons]
      cases lineClick parser (takeLine (c :: rest)).1 <;> rfl

section loop

variable (parser : ClickParser)

/-- A turn of the loop takes a line off the input and handles the click in it. It does
not return. -/
theorem handleInputTurn_reading (handle : Click → Option ClickEffect) {s : InputState}
    (h : s.phase = .reading) :
    (handleInputTurn parser handle s).clicks =
        s.clicks ++ (lineClick parser (takeLine s.input).1).toList ∧
      (handleInputTurn parser handle s).input = (takeLine s.input).2 ∧
      (handleInputTurn parser handle s).phase ≠ .returned := by
  have hline : (readLine s.input).1.bind (clickOf parser) =
      lineClick parser (takeLine s.input).1 := rfl
  simp only [handleInputTurn, h, hline]
  cases lineClick parser (takeLine s.input).1 with
  | none => simp [readLine]
  | some click =>
      cases hhandle : handle click with
      | none => simp [hhandle, readLine]
      | some effect => simp [hhandle, readLine]

theorem handleInputTurn_of_ne (handle : Click → Option ClickEffect) {s : InputState}
    (h : s.phase ≠ .reading) : handleInputTurn parser handle s = s := by
  unfold handleInputTurn
  cases hphase : s.phase with
  | reading => exact absurd hphase h
  | returned | panicked => rfl

/-- What is handled and what is still to come are all the clicks, before and after. -/
theorem handleInputTurn_clicks (handle : Click → Option ClickEffect) (s : InputState) :
    (handleInputTurn parser handle s).clicks ++
        clicksIn parser (handleInputTurn parser handle s).input =
      s.clicks ++ clicksIn parser s.input := by
  by_cases h : s.phase = .reading
  · obtain ⟨hclicks, hinput, _⟩ := handleInputTurn_reading parser handle h
    rw [hclicks, hinput, clicksIn_takeLine parser s.input, List.append_assoc]
  · rw [handleInputTurn_of_ne parser handle h]

/-- A turn does not return: only the first line makes the thread return. -/
theorem handleInputTurn_returned_iff (handle : Click → Option ClickEffect) (s : InputState) :
    (handleInputTurn parser handle s).phase = .returned ↔ s.phase = .returned := by
  by_cases h : s.phase = .reading
  · obtain ⟨_, _, hphase⟩ := handleInputTurn_reading parser handle h
    simp [hphase, h]
  · rw [handleInputTurn_of_ne parser handle h]

theorem reading_of_handleInputTurn {handle : Click → Option ClickEffect} {s : InputState}
    (h : (handleInputTurn parser handle s).phase = .reading) : s.phase = .reading := by
  by_contra hphase
  rw [handleInputTurn_of_ne parser handle hphase] at h
  exact hphase h

variable (handle : ℕ → Click → Option ClickEffect) (input : Stdin)

theorem handleInputStart_eq :
    (handleInputStart input).input = (readLine input).2 ∧ (handleInputStart input).clicks = [] := by
  unfold handleInputStart
  cases readLine input with
  | mk line rest => cases line <;> exact ⟨rfl, rfl⟩

/-- The first line has to be an opening bracket. -/
theorem handleInputStart_returned_iff :
    (handleInputStart input).phase = .returned ↔
      ∃ sb, (readLine input).1 = some sb ∧ sb ≠ "[\n".toList := by
  unfold handleInputStart
  cases readLine input with
  | mk line rest =>
      cases line with
      | none => simp
      | some sb => simp

/-- The clicks handled and those still to be read are those of the input. -/
theorem inputLoop_clicks (n : ℕ) :
    (inputLoop parser handle input n).clicks ++
        clicksIn parser (inputLoop parser handle input n).input =
      clicksIn parser (readLine input).2 := by
  induction n with
  | zero =>
      obtain ⟨hinput, hclicks⟩ := handleInputStart_eq input
      rw [inputLoop, hinput, hclicks, List.nil_append]
  | succ n ih => rw [inputLoop, handleInputTurn_clicks, ih]

/-- As long as the thread reads, it has read one line in each turn. -/
theorem inputLoop_input {n : ℕ} (h : (inputLoop parser handle input n).phase = .reading) :
    inputLines (inputLoop parser handle input n).input =
      (inputLines (readLine input).2).drop n := by
  induction n with
  | zero => rw [inputLoop, (handleInputStart_eq input).1, List.drop_zero]
  | succ n ih =>
      have hphase := reading_of_handleInputTurn parser h
      obtain ⟨_, hinput, _⟩ := handleInputTurn_reading parser (handle n) hphase
      rw [inputLoop, hinput, inputLines_takeLine, ih hphase, List.tail_drop]

theorem inputLoop_returned_iff (n : ℕ) :
    (inputLoop parser handle input n).phase = .returned ↔
      ∃ sb, (readLine input).1 = some sb ∧ sb ≠ "[\n".toList := by
  induction n with
  | zero => exact handleInputStart_returned_iff input
  | succ n ih => rw [inputLoop, handleInputTurn_returned_iff, ih]

end loop

/-- For every input: the thread returns exactly if the first line is not the opening
bracket. After every turn the handled clicks and those in the rest of the input are the
clicks of the lines behind the first, in order; and as long as the thread reads, a turn
takes one line, also when there is none left. -/
theorem input_loop_iff (parser : ClickParser) (R : RtFormat)
    (chronoFormat : ℕ → Text → Option Text) (mods : ℕ → List BarModule) (input : Stdin) :
    ((∃ n, (handleInput parser R chronoFormat mods input n).phase = .returned) ↔
        ∃ sb, (readLine input).1 = some sb ∧ sb ≠ "[\n".toList) ∧
      ∀ n, (handleInput parser R chronoFormat mods input n).clicks ++
            clicksIn parser (handleInput parser R chronoFormat mods input n).input =
          clicksIn parser (readLine input).2 ∧
        ((handleInput parser R chronoFormat mods input n).phase = .reading →
          inputLines (handleInput parser R chronoFormat mods input n).input =
            (inputLines (readLine input).2).drop n) := by
  refine ⟨⟨?_, ?_⟩, ?_⟩
  · rintro ⟨n, hreturned⟩
    exact (inputLoop_returned_iff parser _ input n).mp hreturned
  · intro hfirst
    exact ⟨0, (inputLoop_returned_iff parser _ input 0).mpr hfirst⟩
  · intro n
    exact ⟨inputLoop_clicks parser _ input n, inputLoop_input parser _ input⟩

/-- At the end of the input a turn changes nothing. -/
theorem inputLoop_at_end (parser : ClickParser) (handle : ℕ → Click → Option ClickEffect)
    {input : Stdin} (h : handleInputStart input = ⟨.reading, [], [], []⟩) (n : ℕ) :
    inputLoop parser handle input n = ⟨.reading, [], [], []⟩ := by
  induction n with
  | zero => exact h
  | succ n ih =>
      have hnil : clickOf parser [] = none := parser.parse_nil
      rw [inputLoop, ih]
      simp [handleInputTurn, readLine, takeLine, hnil]

/-- No line is a click. -/
def noClicks : ClickParser := ⟨fun _ => none, rfl⟩

/-- The opening bracket and nothing behind it: the thread reads for ever. -/
theorem bracket_reads_for_ever :
    (readLine [some '[', some '\n']).1 = some "[\n".toList ∧
      ∀ n, (handleInput noClicks .basic (fun _ => some) (fun _ => []) [some '[', some '\n']
        n).phase = .reading := by
  refine ⟨by decide, fun n => ?_⟩
  rw [handleInput, inputLoop_at_end _ _ rfl n]

end Swayr.Theorems.Clicks
