import Mathlib.Data.List.Chain
import Swayr.Theorems.BarWindow

/-!
# The lines of the bar

Every line has one block for each module that is configured, in the order of the
configuration. From a line to the next only those blocks may change that the event
of the new line concerns: all but the windows' on a tick, and otherwise that of the
modules the event names, if they refresh for its reason.

The lines are made for the events in the order in which these were sent, one for
each (`one_line_for_each_event`).
-/

namespace Swayr.Theorems.BarLines

open Shared Ipc Focus Bar BarWindow

variable {R : RtFormat} {D : DigitClass} {configs : List ModuleConfig} {root₀ : Node}

/-! ## Which blocks an event is about -/

/-- What the events are for the module with a configuration: a window module is
refreshed by sway's events, the others by the ticks, and two of them by a click. -/
def Concerns (cfg : ModuleConfig) : Option NameInstanceAndReason → Prop
  | none => cfg.name ≠ "window".toList
  | some ev =>
      ev.name = cfg.name ∧ ev.instance_ = cfg.instance_ ∧
        ((cfg.name = "window".toList ∧ ev.reason = .swayEvent) ∨
          ((cfg.name = "pactl".toList ∨ cfg.name = "nmcli".toList) ∧ ev.reason = .clickEvent))

/-- An event concerns the modules with its name and instance. -/
theorem shouldRefresh_some {cfg : ModuleConfig} {ev : NameInstanceAndReason} {periodic : Bool}
    {reasons : List RefreshReason} (h : shouldRefresh cfg (some ev) periodic reasons = true) :
    ev.name = cfg.name ∧ ev.instance_ = cfg.instance_ ∧ ev.reason ∈ reasons := by
  simpa [shouldRefresh, and_assoc] using h

/-- A module refreshes for the events that concern it, and a window module the first
time. -/
theorem concerns_of_refreshes {m : BarModule} {nai : Option NameInstanceAndReason}
    (hread : ∀ st, m.state = .window st → st.pid ≠ -128)
    (h : m.state.refreshes m.config nai = true) : Concerns m.config nai := by
  cases nai with
  | none =>
      -- a tick
      intro hwindow
      obtain ⟨st, hst⟩ := exists_windowState hwindow
      rw [hst] at h
      exact hread st hst (by simpa [ModuleState.refreshes, shouldRefresh] using h)
  | some ev =>
      have hname := m.named
      cases hst : m.state <;> rw [hst] at h hname <;> simp only [ModuleState.refreshes] at h
      case window st =>
          rw [Bool.or_eq_true, beq_iff_eq] at h
          obtain ⟨hn, hi, hreason⟩ := shouldRefresh_some (h.resolve_left (hread st hst))
          exact ⟨hn, hi, .inl ⟨hname, List.mem_singleton.mp hreason⟩⟩
      case sysinfo | battery | date => cases (shouldRefresh_some h).2.2
      case pactl =>
          obtain ⟨hn, hi, hreason⟩ := shouldRefresh_some h
          exact ⟨hn, hi, .inr ⟨.inl hname, List.mem_singleton.mp hreason⟩⟩
      case nmcli =>
          obtain ⟨hn, hi, hreason⟩ := shouldRefresh_some h
          exact ⟨hn, hi, .inr ⟨.inr hname, List.mem_singleton.mp hreason⟩⟩

/-! ## Lines -/

def blockLabel (b : Block) : Text × Text := (b.name, b.instance_)

def configLabel (cfg : ModuleConfig) : Text × Text := (cfg.name, cfg.instance_)

theorem blockLabel_block (m : BarModule) : blockLabel m.block = configLabel m.config := by
  simp only [blockLabel, configLabel, BarModule.block, m.named]

/-- What is not concerned by the event of a line stays as in the line before. -/
def Follows (cfgs : List ModuleConfig) (l l' : Line) : Prop :=
  ∀ (i : ℕ) (cfg : ModuleConfig), cfgs[i]? = some cfg → ¬ Concerns cfg l'.event →
    l'.blocks[i]? = l.blocks[i]?

/-- The lines printed and the line being made. -/
structure Lines (cfgs : List ModuleConfig) (s : BarState) : Prop where
  configs : s.mods.map BarModule.config = cfgs
  shown : ∀ (i : ℕ) (m : BarModule) (b : Block), s.mods[i]? = some m → s.latest i = some b →
    b = m.block
  printed : ∀ l ∈ s.printed, l.blocks.map blockLabel = cfgs.map configLabel
  chain : s.printed.IsChain (Follows cfgs)
  making : s.main.blocks.map blockLabel = (cfgs.map configLabel).take s.main.blocks.length
  /-- So far the line follows the one before. -/
  follows : ∀ ev blocks, s.main = .making ev blocks → ∀ l, s.printed.getLast? = some l →
    ∀ (i : ℕ) (cfg : ModuleConfig) (b : Block), blocks[i]? = some b → cfgs[i]? = some cfg →
      ¬ Concerns cfg ev → l.blocks[i]? = some b

theorem lines_start (configs : List ModuleConfig) (root₀ : Node) :
    Lines (knownConfigs configs) (barStart configs root₀) where
  configs := map_config_createModules configs
  shown i m b _ hlatest := by cases hlatest
  printed l hl := by cases hl
  chain := .nil
  making := rfl
  follows ev blocks hmain := by cases hmain

theorem shown_of_moves {s s' : BarState} {a : BarLabel} (h : Moves R D s a s')
    (halive : s'.main ≠ .panicked)
    (hshown : ∀ (i : ℕ) (m : BarModule) (b : Block), s.mods[i]? = some m → s.latest i = some b →
      b = m.block) (i : ℕ) (m' : BarModule) (b : Block) (hm' : s'.mods[i]? = some m')
    (hb : s'.latest i = some b) : b = m'.block := by
  obtain ⟨m, hm, -⟩ := module_before_moves h hm'
  rcases module_of_moves h hm with ⟨hsame, hlatest⟩ | ⟨r, ev, blocks, m₁, -, -, -, -, hm₁, hlatest⟩
  · obtain rfl : m = m' := Option.some.inj (hsame.symm.trans hm')
    exact hshown i m b hm ((hlatest halive).symm.trans hb)
  · obtain rfl : m₁ = m' := Option.some.inj (hm₁.symm.trans hm')
    exact Option.some.inj (hb.symm.trans hlatest)

/-- A module whose turn it is, and that the event does not concern, has the block it
had in the line before. -/
theorem block_of_not_concerns {cfgs : List ModuleConfig} {s : BarState} (h : Lines cfgs s)
    {ev : Option NameInstanceAndReason} {blocks : List Block} {r : Readings} {m m' : BarModule}
    {b : Block} {l : Line} (hmain : s.main = .making ev blocks)
    (hm : s.mods[blocks.length]? = some m) (hbuild : m.build R D s.root r ev = some (m', b))
    (hl : s.printed.getLast? = some l) (hconcerns : ¬ Concerns m.config ev)
    (hread : ∀ st, m.state = .window st → s.latest blocks.length ≠ none → st.pid ≠ -128) :
    l.blocks[blocks.length]? = some b := by
  have hlt : blocks.length < l.blocks.length := by
    have hlen := congrArg List.length (h.printed l (List.mem_of_getLast? hl))
    rw [List.length_map, List.length_map, ← h.configs, List.length_map] at hlen
    rw [hlen]
    exact (List.getElem?_eq_some_iff.mp hm).1
  have hlatest : s.latest blocks.length = some l.blocks[blocks.length] := by
    simp [BarState.latest, hmain, Main.blocks, hl]
  obtain ⟨rfl, -, ⟨href, -⟩ | ⟨-, rfl⟩⟩ := build_spec hbuild
  · refine absurd (concerns_of_refreshes (fun st hst => hread st hst ?_) href) hconcerns
    rw [hlatest]
    simp
  · rw [List.getElem?_eq_getElem hlt, h.shown _ _ _ hm hlatest]

/-- Every move of the bar keeps its lines in order. -/
theorem lines_of_moves {cfgs : List ModuleConfig} {s s' : BarState} {a : BarLabel}
    (h : Moves R D s a s') (halive : s'.main ≠ .panicked)
    (hread : ∀ (i : ℕ) (m : BarModule) (st : WindowState), s.mods[i]? = some m →
      m.state = .window st → s.latest i ≠ none → st.pid ≠ -128)
    (hlines : Lines cfgs s) : Lines cfgs s' := by
  have hconfigs := (configs_of_moves h).trans hlines.configs
  have hshown := shown_of_moves h halive hlines.shown
  cases h with
  | receive hmain hchan =>
      exact ⟨hconfigs, hshown, hlines.printed, hlines.chain, rfl, by
        intro ev blocks hmain l hl i cfg b hb
        obtain ⟨-, rfl⟩ := Main.making.inj hmain
        cases hb⟩
  | @build r ev blocks m m' b hmain hm hbuild =>
      have hcfg : cfgs[blocks.length]? = some m.config := by
        rw [← hlines.configs, List.getElem?_map, hm, Option.map_some]
      obtain ⟨hb, hsame, -⟩ := build_spec hbuild
      refine ⟨hconfigs, hshown, hlines.printed, hlines.chain, ?_, ?_⟩
      · have hmaking := hlines.making
        rw [hmain] at hmaking
        simp only [Main.blocks] at hmaking ⊢
        rw [List.map_append, hmaking, List.length_append, List.length_singleton,
          List.take_add_one, List.getElem?_map, hcfg, hb]
        simp [blockLabel_block, hsame]
      · intro ev' blocks' hmain' l hl i cfg b' hb' hi hconcerns
        obtain ⟨rfl, rfl⟩ := Main.making.inj hmain'
        rcases Nat.lt_trichotomy i blocks.length with hlt | rfl | hgt
        · rw [List.getElem?_append_left hlt] at hb'
          exact hlines.follows ev blocks hmain l hl i cfg b' hb' hi hconcerns
        · -- the block just built
          obtain rfl : m.config = cfg := Option.some.inj (hcfg.symm.trans hi)
          obtain rfl : b = b' := by simpa using hb'
          exact block_of_not_concerns hlines hmain hm hbuild hl hconcerns
            fun st hst => hread _ m st hm hst
        · rw [List.getElem?_eq_none (by simp; omega)] at hb'
          cases hb'
  | buildPanics => exact absurd rfl halive
  | @print ev blocks hmain hlen =>
      have hlen' : blocks.length = cfgs.length := by
        rw [hlen, ← hlines.configs, List.length_map]
      refine ⟨hconfigs, hshown, ?_, ?_, rfl, ?_⟩
      · intro l hl
        rcases List.mem_append.mp hl with hold | hnew
        · exact hlines.printed l hold
        · obtain rfl := List.mem_singleton.mp hnew
          have hmaking := hlines.making
          rw [hmain] at hmaking
          simp only [Main.blocks] at hmaking
          rw [hmaking, hlen', ← List.length_map (f := configLabel), List.take_length]
      · refine hlines.chain.append (.singleton _) ?_
        rintro l hl l' hl' i cfg hi hconcerns
        obtain rfl : (⟨ev, blocks⟩ : Line) = l' := by simpa using hl'
        have hlt : i < blocks.length := hlen' ▸ (List.getElem?_eq_some_iff.mp hi).1
        rw [hlines.follows ev blocks hmain l hl i cfg _ (List.getElem?_eq_getElem hlt) hi
          hconcerns]
        exact List.getElem?_eq_getElem hlt
      · intro ev' blocks' hmain'
        cases hmain'
  | _ => exact ⟨hconfigs, hshown, hlines.printed, hlines.chain, hlines.making, hlines.follows⟩

/-- No window has the process id that marks a window module as new. -/
def PidsKnown (seen : List Node) : Prop :=
  ∀ root ∈ seen, ∀ win, focusedWindow root = some win → win.props.pid ≠ some (-128)

theorem pid_ofTree {root : Node} {cfg : ModuleConfig} {st : WindowState}
    (h : ∀ win, focusedWindow root = some win → win.props.pid ≠ some (-128))
    (hst : WindowState.ofTree R cfg root = some st) : st.pid ≠ -128 := by
  unfold WindowState.ofTree at hst
  cases hwin : focusedWindow root with
  | none =>
      rw [hwin] at hst
      obtain rfl := Option.some.inj hst
      simp
  | some win =>
      have hpid := h win hwin
      rw [hwin] at hst
      obtain ⟨_, -, rfl⟩ := Option.map_eq_some_iff.mp hst
      show win.props.pid.getD (-2) ≠ -128
      cases hp : win.props.pid with
      | none => decide
      | some pid => rw [hp] at hpid; simpa using hpid

/-- A panic prints nothing. -/
theorem printed_of_panicked {s s' : BarState} {a : BarLabel} (h : Moves R D s a s')
    (hpanicked : s'.main = .panicked) : s'.printed = s.printed := by
  cases h with
  | print => cases hpanicked
  | _ => rfl

/-- What was said of the lines printed stays true when the main thread panics. -/
def Orderly (cfgs : List ModuleConfig) (s : BarState) : Prop :=
  (∀ l ∈ s.printed, l.blocks.map blockLabel = cfgs.map configLabel) ∧
    s.printed.IsChain (Follows cfgs)

/-- What has been printed stays in order also after a panic. -/
theorem orderly_of_run {as : List BarLabel} {s : BarState}
    (hrun : (barSystem R D).run (barStart configs root₀) as = some s)
    (hpids : PidsKnown (trees root₀ as)) :
    (s.main ≠ .panicked → Lines (knownConfigs configs) s) ∧
      Orderly (knownConfigs configs) s := by
  have hinv : ∀ as s, (barSystem R D).run (barStart configs root₀) as = some s →
      (barSystem R D).run (barStart configs root₀) as = some s ∧
        (PidsKnown (trees root₀ as) →
          (s.main ≠ .panicked → Lines (knownConfigs configs) s) ∧
            Orderly (knownConfigs configs) s) := by
    refine (barSystem R D).history ?_ ?_
    · have hstart := lines_start configs root₀
      exact ⟨rfl, fun _ => ⟨fun _ => hstart, hstart.printed, hstart.chain⟩⟩
    · rintro as s a s' ⟨hrun, ih⟩ hstep
      have hmoves := moves_of_step hstep
      refine ⟨by rw [Kit.Guarded.run_append_singleton, hrun, Option.bind_some, hstep],
        fun hpids => ?_⟩
      obtain ⟨hlines, horderly⟩ := ih fun root hroot =>
        hpids root (trees_append_singleton as a hroot)
      -- A window module that has been shown has read a tree, and so knows a process id.
      have hnext : s'.main ≠ .panicked → Lines (knownConfigs configs) s' := by
        intro halive
        have halive₀ := alive_of_moves hmoves halive
        refine lines_of_moves hmoves halive ?_ (hlines halive₀)
        intro i m st hm hst hlatest
        have hname : m.config.name = "window".toList := by rw [m.named, hst]; rfl
        rcases shows_of_run hrun halive₀ hm hname with ⟨hnone, -⟩ | ⟨-, root, hroot, hread⟩
        · exact absurd hnone hlatest
        · obtain ⟨st', htree, hst'⟩ := Option.map_eq_some_iff.mp hread
          obtain rfl := ModuleState.window.inj (hst'.trans hst)
          exact pid_ofTree (hpids root (trees_append_singleton as a hroot)) htree
      refine ⟨hnext, ?_⟩
      by_cases hpanicked : s'.main = .panicked
      · -- A panic prints nothing more.
        unfold Orderly
        rw [printed_of_panicked hmoves hpanicked]
        exact horderly
      · exact ⟨(hnext hpanicked).printed, (hnext hpanicked).chain⟩
  exact (hinv as s hrun).2 hpids

/-- **Each line changes only where its event says.** In every run all lines have the
blocks of the configured modules, in their order, and each line has the blocks of the
one before, except for the modules that its event concerns. -/
theorem lines_follow_each_other {as : List BarLabel} {s : BarState}
    (hrun : (barSystem R D).run (barStart configs root₀) as = some s)
    (hpids : PidsKnown (trees root₀ as)) :
    (∀ l ∈ s.printed, l.blocks.map blockLabel =
        (knownConfigs configs).map configLabel) ∧
      s.printed.IsChain (Follows (knownConfigs configs)) :=
  (orderly_of_run hrun hpids).2

/-- The focus changes, and a line for a tick follows before the event is read. -/
def tickedOn : List BarLabel := upToFocus ++ [.tick, .receive, .build noReadings, .print]

theorem pidsKnown_tickedOn : PidsKnown (trees (onScreen editor) tickedOn) := by
  have hall : ([onScreen editor, onScreen terminal].all fun root =>
      (focusedWindow root).all fun win => win.props.pid != some (-128)) = true := by
    decide +kernel
  intro root hroot win hwin
  have hwin' := List.all_eq_true.mp hall root hroot
  rw [hwin] at hwin'
  simpa using hwin'

/-- The second line still shows the window focused before. -/
theorem lines_follow_each_other_tick : ∃ s : BarState, barAfter tickedOn = some s ∧
    s.printed.length = 2 ∧ s.printed.IsChain (Follows (knownConfigs [killConfig])) := by
  have heval : (barAfter tickedOn).map (fun s => s.printed.length) = some 2 := by decide +kernel
  obtain ⟨s, hs, hlen⟩ := Option.map_eq_some_iff.mp heval
  exact ⟨s, hs, hlen, (lines_follow_each_other hs pidsKnown_tickedOn).2⟩

/-! ## One line for each event -/

/-- The event that a move puts into the channel. -/
def sends (s : BarState) : BarLabel → List (Option NameInstanceAndReason)
  | .tick => [none]
  | .forward => (s.pending.head?.map some).toList
  | .send =>
      match s.input with
      | .sending ev => [some ev]
      | _ => []
  | _ => []

/-- The events sent along a schedule. -/
def sent (R : RtFormat) (D : DigitClass) :
    BarState → List BarLabel → List (Option NameInstanceAndReason)
  | _, [] => []
  | s, a :: rest => sends s a ++ ((barSystem R D).step s a).elim [] fun s' => sent R D s' rest

/-- The event that a line is being made for. -/
def making : Main → List (Option NameInstanceAndReason)
  | .making ev _ => [ev]
  | _ => []

/-- The events that have arrived, with those still in the channel. -/
def received (s : BarState) : List (Option NameInstanceAndReason) :=
  s.printed.map Line.event ++ making s.main ++ s.chan

/-- Nothing that is sent gets lost or comes out of order. -/
theorem received_of_moves {s s' : BarState} {a : BarLabel} (h : Moves R D s a s')
    (halive : s'.main ≠ .panicked) : received s' = received s ++ sends s a := by
  cases h with
  | forward hev hroom => simp [received, sends, hev]
  | tick hroom => simp [received, sends]
  | send hinput hroom => simp [received, sends, hinput]
  | receive hmain hchan => simp [received, sends, making, hmain, hchan]
  | build hmain hm hbuild => simp [received, sends, making, hmain]
  | buildPanics => exact absurd rfl halive
  | print hmain hlen => simp [received, sends, making, hmain]
  | _ => simp [received, sends]

theorem alive_of_run {as : List BarLabel} {s₀ s : BarState}
    (hrun : (barSystem R D).run s₀ as = some s) (halive : s.main ≠ .panicked) :
    s₀.main ≠ .panicked := by
  induction as generalizing s₀ with
  | nil =>
      obtain rfl := Option.some.inj hrun
      exact halive
  | cons a rest ih =>
      obtain ⟨s₁, hstep, hrest⟩ := Option.bind_eq_some_iff.mp hrun
      exact alive_of_moves (moves_of_step hstep) (ih hrest)

theorem received_of_run {as : List BarLabel} {s₀ s : BarState}
    (hrun : (barSystem R D).run s₀ as = some s) (halive : s.main ≠ .panicked) :
    received s = received s₀ ++ sent R D s₀ as := by
  induction as generalizing s₀ with
  | nil =>
      obtain rfl := Option.some.inj hrun
      simp [sent]
  | cons a rest ih =>
      obtain ⟨s₁, hstep, hrest⟩ := Option.bind_eq_some_iff.mp hrun
      have hmove := received_of_moves (moves_of_step hstep) (alive_of_run hrest halive)
      rw [ih hrest, hmove, List.append_assoc]
      simp only [sent, hstep, Option.elim_some]

/-- The channel holds no more than sixteen events. -/
theorem chan_of_run {as : List BarLabel} {s : BarState}
    (hrun : (barSystem R D).run (barStart configs root₀) as = some s) : s.chan.length ≤ 16 := by
  have hinv : ∀ as s, (barSystem R D).run (barStart configs root₀) as = some s →
      s.chan.length ≤ 16 := by
    refine (barSystem R D).history (Nat.zero_le _) ?_
    intro as s a s' hle hstep
    cases moves_of_step hstep with
    | forward _ hroom | tick hroom | send _ hroom =>
        have hlt : s.chan.length < 16 := of_decide_eq_true hroom
        simp only [List.length_append, List.length_singleton]
        omega
    | receive hmain hchan =>
        rw [hchan, List.length_cons] at hle
        exact Nat.le_of_succ_le hle
    | _ => exact hle
  exact hinv as s hrun

/-- **One line for each event.** In every run of a bar that has not panicked, the
events sent are those of the lines printed, then the one that a line is being made
for, then those in the channel: none is lost, and none is overtaken. The senders are
never more than seventeen events ahead of the lines. -/
theorem one_line_for_each_event {as : List BarLabel} {s : BarState}
    (hrun : (barSystem R D).run (barStart configs root₀) as = some s)
    (halive : s.main ≠ .panicked) :
    sent R D (barStart configs root₀) as = s.printed.map Line.event ++ making s.main ++ s.chan ∧
      (sent R D (barStart configs root₀) as).length ≤ s.printed.length + 17 := by
  have hall := (received_of_run hrun halive).symm
  rw [show received (barStart configs root₀) = [] from rfl, List.nil_append] at hall
  have hmaking : (making s.main).length ≤ 1 := by
    cases s.main <;> simp [making]
  have hchan := chan_of_run hrun
  refine ⟨hall, ?_⟩
  rw [hall]
  simp only [received, List.length_append, List.length_map]
  omega

/-- Two ticks and two lines, with the news still in the stream. -/
theorem one_line_for_each_event_tick : ∃ s : BarState, barAfter tickedOn = some s ∧
    [none, none] = s.printed.map Line.event ++ making s.main ++ s.chan := by
  have heval : (barAfter tickedOn).map (fun s => s.main) = some .waiting := by decide +kernel
  have hsent : sent .basic .basic (barStart [killConfig] (onScreen editor)) tickedOn =
      [none, none] := by decide +kernel
  obtain ⟨s, hs, hmain⟩ := Option.map_eq_some_iff.mp heval
  refine ⟨s, hs, ?_⟩
  rw [← (one_line_for_each_event hs (by rw [hmain]; simp)).1, hsent]

end Swayr.Theorems.BarLines
