import Swayr.Bar.System
import Swayr.Shared.Placeholder
import Swayr.Theorems.Clicks

/-!
# What the bar shows of the focused window

The window module reads sway's tree when an event tells it to, and once at the
start. What it shows and what a click on it acts on come from one and the same
reading (`click_acts_on_shown_window`).

A reported change is not lost while the subscription lasts: until the window module
has read the tree again, the event is in the stream, with the listening thread, in
the channel, or with the main thread on its way to the module (`OnTheWay`). Nothing
blocks these for good, so that the bar can always catch up with sway
(`bar_catches_up`).
-/

namespace Swayr.Theorems.BarWindow

open Shared Ipc Focus Bar

variable {R : RtFormat} {D : DigitClass} {configs : List ModuleConfig} {root₀ : Node}

/-! ## What is shown -/

/-- The trees sway has had. -/
def trees (root₀ : Node) (as : List BarLabel) : List Node :=
  root₀ :: as.filterMap fun a =>
    match a with
    | .change root _ => some root
    | _ => none

theorem trees_append_singleton (as : List BarLabel) (a : BarLabel) :
    trees root₀ as ⊆ trees root₀ (as ++ [a]) := by
  unfold trees
  rw [List.filterMap_append, ← List.cons_append]
  exact List.subset_append_left _ _

/-- The tree of the moment is one that sway has had. -/
theorem root_of_moves {as : List BarLabel} {a : BarLabel} {s s' : BarState}
    (h : Moves R D s a s') (hroot : s.root ∈ trees root₀ as) :
    s'.root ∈ trees root₀ (as ++ [a]) := by
  have hkeep := trees_append_singleton as a hroot
  cases h with
  | change hev => simp [trees]
  | _ => exact hkeep

/-- A window module before its first block, and afterwards. -/
def Shows (R : RtFormat) (seen : List Node) (s : BarState) (i : ℕ) (m : BarModule) : Prop :=
  (s.latest i = none ∧ ∃ st, m.state = .window st ∧ st.pid = -128) ∨
    (s.latest i = some m.block ∧
      ∃ root ∈ seen, (WindowState.ofTree R m.config root).map .window = some m.state)

theorem shows_createModules {i : ℕ} {m : BarModule} (hm : (createModules configs)[i]? = some m)
    (hname : m.config.name = "window".toList) : Shows R [root₀] (barStart configs root₀) i m := by
  refine .inl ⟨rfl, ?_⟩
  obtain ⟨cfg, -, hcfg⟩ := List.mem_filterMap.mp (List.mem_of_getElem? hm)
  split at hcfg
  · next st hst =>
      obtain rfl := Option.some.inj hcfg
      change cfg.name = _ at hname
      rw [hname] at hst
      exact ⟨_, (Option.some.inj hst).symm, rfl⟩
  · cases hcfg

/-- A window module shows a tree that has been read, whoever moves. -/
theorem shows_of_moves {seen seen' : List Node} {s s' : BarState} {a : BarLabel}
    (h : Moves R D s a s') (hseen : seen ⊆ seen') (hroot : s.root ∈ seen)
    (halive : s'.main ≠ .panicked)
    (hall : ∀ i m, s.mods[i]? = some m → m.config.name = "window".toList → Shows R seen s i m)
    {i : ℕ} {m' : BarModule} (hm' : s'.mods[i]? = some m')
    (hname : m'.config.name = "window".toList) : Shows R seen' s' i m' := by
  obtain ⟨m, hm, hcfg⟩ := module_before_moves h hm'
  have hshows := hall i m hm (hcfg ▸ hname)
  rcases module_of_moves h hm with ⟨hsame, hlatest⟩ |
    ⟨r, ev, blocks, m₁, -, -, -, hbuild, hm₁, hlatest⟩
  · obtain rfl : m = m' := Option.some.inj (hsame.symm.trans hm')
    unfold Shows
    rw [hlatest halive]
    exact hshows.imp_right fun ⟨hb, root, hmem, hst⟩ => ⟨hb, root, hseen hmem, hst⟩
  · obtain rfl : m₁ = m' := Option.some.inj (hm₁.symm.trans hm')
    obtain ⟨st, hst⟩ := exists_windowState (hcfg ▸ hname)
    refine .inr ⟨hlatest, ?_⟩
    rcases build_window hst hbuild with hread | ⟨rfl, hpid, -⟩
    · exact ⟨s.root, hseen hroot, hcfg ▸ hread⟩
    · -- it has been read before
      rcases hshows with ⟨-, st₀, hst₀, hpid₀⟩ | ⟨-, root, hmem, hst₀⟩
      · obtain rfl := ModuleState.window.inj (hst.symm.trans hst₀)
        exact absurd hpid₀ hpid
      · exact ⟨root, hseen hmem, hst₀⟩

/-- All runs. -/
theorem shows_of_run {as : List BarLabel} {s : BarState}
    (hrun : (barSystem R D).run (barStart configs root₀) as = some s)
    (halive : s.main ≠ .panicked) {i : ℕ} {m : BarModule} (hm : s.mods[i]? = some m)
    (hname : m.config.name = "window".toList) : Shows R (trees root₀ as) s i m := by
  have hinv : ∀ as s, (barSystem R D).run (barStart configs root₀) as = some s →
      s.root ∈ trees root₀ as ∧ (s.main ≠ .panicked → ∀ i m, s.mods[i]? = some m →
        m.config.name = "window".toList → Shows R (trees root₀ as) s i m) := by
    refine (barSystem R D).history ?_ ?_
    · exact ⟨List.mem_cons_self, fun _ i m hm hname => shows_createModules hm hname⟩
    · rintro as s a s' ⟨hroot, hall⟩ hstep
      have hmoves := moves_of_step hstep
      refine ⟨root_of_moves hmoves hroot, fun halive i m hm hname => ?_⟩
      exact shows_of_moves hmoves (trees_append_singleton as a) hroot halive
        (hall (alive_of_moves hmoves halive)) hm hname
  exact (hinv as s hrun).2 halive i m hm hname

/-! ## What is clicked -/

/-- A click that runs a command runs that of a module it names. -/
theorem exists_module_of_handleClickOn {chronoFormat : Text → Option Text}
    {name instance_ button : Text} {mods : List BarModule} {sp : Spawn}
    {event : Option NameInstanceAndReason}
    (h : handleClickOn R chronoFormat name instance_ button mods = some ⟨some sp, event⟩) :
    ∃ (i : ℕ) (m : BarModule) (cmd : List Text),
      mods[i]? = some m ∧ m.config.name = name ∧ m.config.instance_ = instance_ ∧
      (m.config.onClick.bind fun onClick => onClick button) = some cmd ∧
      runModule R chronoFormat m cmd = some ⟨some sp, event⟩ := by
  rw [Clicks.handleClickOn_eq] at h
  cases htarget : Clicks.clickTarget mods name instance_ button with
  | none => rw [htarget] at h; cases h
  | some target =>
      obtain ⟨m, cmd⟩ := target
      rw [htarget] at h
      obtain ⟨hmem, hname, hinst, hcmd⟩ := Clicks.clickTarget_spec htarget
      obtain ⟨i, hi⟩ := List.mem_iff_getElem?.mp hmem
      exact ⟨i, m, cmd, hi, hname, hinst, hcmd, h⟩

/-- The command of a window module is filled in from its state. -/
theorem spawn_of_runModule {chronoFormat : Text → Option Text} {m : BarModule} {st : WindowState}
    {cmd : List Text} {sp : Spawn} {event : Option NameInstanceAndReason}
    (hst : m.state = .window st)
    (h : runModule R chronoFormat m cmd = some ⟨some sp, event⟩) :
    substEach R st.placeholderValue cmd = some (sp.program :: sp.args) := by
  unfold runModule substArgs at h
  rw [hst] at h
  simp only [Option.bind_eq_bind, Option.bind_eq_some_iff, Option.map_eq_some_iff] at h
  obtain ⟨_, ⟨args, hargs, rfl⟩, sp', hsp', heq⟩ := h
  obtain rfl : sp' = sp := by simpa using congrArg (Option.map ClickEffect.spawned) heq
  rw [hargs]
  cases args with
  | nil => cases hsp'
  | cons program args =>
      obtain rfl := Option.some.inj hsp'
      rfl

/-- **What is shown is what a click acts on.** In every run: if a click on a window
module's block runs a command, the placeholders in it are replaced by the name,
application and process id of the window whose text the module's block shows, all
read from one tree that sway has had. -/
theorem click_acts_on_shown_window {as : List BarLabel} {s s' : BarState} {c : Click}
    {chronoFormat : Text → Option Text} {sp : Spawn}
    (hrun : (barSystem R D).run (barStart configs root₀) as = some s)
    (hstep : (barSystem R D).step s (.click c chronoFormat) = some s')
    (hname : c.name = some "window".toList) (hspawn : s'.spawned = s.spawned ++ [sp]) :
    ∃ (i : ℕ) (m : BarModule) (cmd : List Text),
      s.mods[i]? = some m ∧ m.config.name = "window".toList ∧
      c.instance_ = some m.config.instance_ ∧
      (m.config.onClick.bind fun onClick => onClick c.button) = some cmd ∧
      ∀ b, s.latest i = some b → ∃ root ∈ trees root₀ as, ∃ st,
        WindowState.ofTree R m.config root = some st ∧ b.fullText = st.cachedText ∧
        substEach R st.placeholderValue cmd = some (sp.program :: sp.args) := by
  cases moves_of_step hstep with
  | @click _ _ effect halive hclick =>
      obtain hsp : effect.spawned = some sp := by
        simpa using hspawn
      unfold handleClick at hclick
      rw [hname] at hclick
      cases hinst : c.instance_ with
      | none =>
          rw [hinst] at hclick
          obtain rfl := Option.some.inj hclick
          cases hsp
      | some instance_ =>
          rw [hinst] at hclick
          have heffect : effect = ⟨some sp, effect.event⟩ := hsp ▸ rfl
          rw [heffect] at hclick
          obtain ⟨i, m, cmd, hm, hmname, rfl, hcmd, hmod⟩ := exists_module_of_handleClickOn hclick
          refine ⟨i, m, cmd, hm, hmname, rfl, hcmd, fun b hb => ?_⟩
          -- Not printed yet, or printed from a tree that was read.
          rcases shows_of_run hrun halive hm hmname with ⟨hnone, -⟩ | ⟨hblock, root, hroot, hst⟩
          · rw [hnone] at hb; cases hb
          · obtain rfl := Option.some.inj (hblock.symm.trans hb)
            obtain ⟨st, htree, hst⟩ := Option.map_eq_some_iff.mp hst
            refine ⟨root, hroot, st, htree, ?_, spawn_of_runModule hst.symm hmod⟩
            simp [BarModule.block, ← hst, ModuleState.cachedText]
  | clickPanics halive hclick => simp at hspawn

/-- A title that is clicked away. -/
def killConfig : ModuleConfig :=
  ⟨"window".toList, "0".toList, "\x7btitle\x7d".toList, none,
    some fun button =>
      if button = "Right".toList then some ["kill".toList, "\x7bpid\x7d".toList] else none⟩

def editor : Node :=
  .mk ⟨{ id := 993, nodeType := .con, name := some "notes", focused := true, pid := some 785 },
    rfl⟩ [] []

def terminal : Node :=
  .mk ⟨{ id := 994, nodeType := .con, name := some "shell", focused := true, pid := some 786 },
    rfl⟩ [] []

def onScreen (n : Node) : Node := .mk ⟨{ id := 995, nodeType := .root }, rfl⟩ [n] []

def noReadings : Readings := ⟨⟨[], [], [], [], []⟩, none, fun _ => none, [], [], .notRun []⟩

/-- The first line, and then sway focuses another window. -/
def upToFocus : List BarLabel :=
  [.listen .subscribed, .tick, .receive, .build noReadings, .print] ++
    .change (onScreen terminal) (some (.window .focus 994)) :: []

/-- The state after some moves. -/
def barAfter (as : List BarLabel) : Option BarState :=
  (barSystem .basic .basic).run (barStart [killConfig] (onScreen editor)) as

def killClick : BarLabel :=
  .click ⟨some "window".toList, some "0".toList, "Right".toList⟩ fun _ => none

/-- A click before the bar has caught up kills the window in the line. -/
theorem click_acts_on_shown_window_stale : ∃ s s' : BarState,
    barAfter upToFocus = some s ∧ (barSystem .basic .basic).step s killClick = some s' ∧
      s'.spawned = s.spawned ++ [⟨"kill".toList, ["785".toList]⟩] ∧
      ∃ (i : ℕ) (m : BarModule) (cmd : List Text), s.mods[i]? = some m ∧
        ∀ b, s.latest i = some b → ∃ root ∈ trees (onScreen editor) upToFocus, ∃ st,
          WindowState.ofTree .basic m.config root = some st ∧ b.fullText = st.cachedText ∧
          substEach .basic st.placeholderValue cmd =
            some ["kill".toList, "785".toList] := by
  have heval : ((barAfter upToFocus).bind fun s =>
      ((barSystem .basic .basic).step s killClick).map fun s' => (s.spawned, s'.spawned)) =
        some ([], [⟨"kill".toList, ["785".toList]⟩]) := by decide +kernel
  obtain ⟨s, hs, heval⟩ := Option.bind_eq_some_iff.mp heval
  obtain ⟨s', hs', heval⟩ := Option.map_eq_some_iff.mp heval
  obtain ⟨hbefore, hafter⟩ := Prod.mk.inj heval
  have hspawn : s'.spawned = s.spawned ++ [⟨"kill".toList, ["785".toList]⟩] := by
    rw [hbefore, hafter, List.nil_append]
  obtain ⟨i, m, cmd, hm, -, -, -, hshown⟩ := click_acts_on_shown_window hs hs' rfl hspawn
  exact ⟨s, s', hs, hs', hspawn, i, m, cmd, hm, hshown⟩

/-! ## News on its way -/

/-- The event that refreshes a window module. -/
def refreshOf (cfg : ModuleConfig) : NameInstanceAndReason := ⟨cfg.name, cfg.instance_, .swayEvent⟩

/-- Where the news of a change can be before the module at a place has read the
tree. -/
inductive OnTheWay (s : BarState) (i : ℕ) (cfg : ModuleConfig) : Prop
  | stream {ev : SwayEvent} (hev : reports (some ev) = true) (hmem : ev ∈ s.stream)
  | pending (hmem : refreshOf cfg ∈ s.pending)
  | chan (hmem : some (refreshOf cfg) ∈ s.chan)
  | making {blocks : List Block} (hmain : s.main = .making (some (refreshOf cfg)) blocks)
      (hle : blocks.length ≤ i)

/-- The module has built its block from the tree as it is. -/
def Current (R : RtFormat) (s : BarState) (i : ℕ) (m : BarModule) : Prop :=
  (WindowState.ofTree R m.config s.root).map .window = some m.state ∧
    s.latest i = some m.block

/-- The event thread asks every window module to refresh. -/
theorem refreshOf_mem {mods : List BarModule} {i : ℕ} {m : BarModule} {ev : SwayEvent}
    {out : List NameInstanceAndReason} (hm : mods[i]? = some m)
    (hname : m.config.name = "window".toList) (hev : reports (some ev) = true)
    (hout : handleSwayEvent (windowMods mods) ev = some out) : refreshOf m.config ∈ out := by
  have hmem : (m.config.name, m.config.instance_) ∈ windowMods mods :=
    List.mem_map_of_mem (List.mem_filter.mpr ⟨List.mem_of_getElem? hm, by simp [hname]⟩)
  have hall : refreshOf m.config ∈
      (windowMods mods).map fun wm => (⟨wm.1, wm.2, .swayEvent⟩ : NameInstanceAndReason) :=
    List.mem_map_of_mem hmem
  cases ev with
  | window | workspace => exact Option.some.inj hout ▸ hall
  | shutdown | other => cases hev

theorem OnTheWay.mono {s s' : BarState} {i : ℕ} {cfg : ModuleConfig} (h : OnTheWay s i cfg)
    (hstream : s.stream ⊆ s'.stream) (hpending : s.pending ⊆ s'.pending)
    (hchan : s.chan ⊆ s'.chan) (hmain : s'.main = s.main) : OnTheWay s' i cfg := by
  cases h with
  | stream hrep hmem => exact .stream hrep (hstream hmem)
  | pending hmem => exact .pending (hpending hmem)
  | chan hmem => exact .chan (hchan hmem)
  | making hmaking hle => exact .making (hmain.trans hmaking) hle

/-- With the event that is about it, a window module reads the tree. -/
theorem current_of_build {s : BarState} {r : Readings} {blocks : List Block} {m m' : BarModule}
    {b : Block} (hname : m.config.name = "window".toList)
    (hbuild : m.build R D s.root r (some (refreshOf m.config)) = some (m', b)) :
    Current R
      { s with mods := s.mods.set blocks.length m',
               main := .making (some (refreshOf m.config)) (blocks ++ [b]) } blocks.length m' := by
  obtain ⟨rfl, hcfg, -⟩ := build_spec hbuild
  obtain ⟨st, hst⟩ := exists_windowState hname
  refine ⟨?_, by simp [BarState.latest, Main.blocks]⟩
  rcases build_window hst hbuild with hread | ⟨-, -, hother⟩
  · rwa [hcfg]
  · exact absurd rfl hother

/-- News that is on its way stays on its way, until the module has its turn. -/
theorem onTheWay_of_moves {s s' : BarState} {a : BarLabel} (h : Moves R D s a s')
    (hheld : ∀ b, a = .listen b → ∃ e, b = .event e) (hreading : s'.events.place = .reading)
    (halive : s'.main ≠ .panicked) {i : ℕ} {m : BarModule} (hm : s.mods[i]? = some m)
    (hname : m.config.name = "window".toList) (hway : OnTheWay s i m.config) :
    OnTheWay s' i m.config ∨ ∃ m', s'.mods[i]? = some m' ∧ Current R s' i m' := by
  have hrefl {α : Type} (l : List α) : l ⊆ l := List.Subset.refl l
  cases h with
  | change hev =>
      refine .inl (hway.mono ?_ (hrefl _) (hrefl _) rfl)
      rw [if_pos (show s.events.place = .reading from hreading)]
      exact List.subset_append_left _ _
  | tick | send =>
      exact .inl (hway.mono (hrefl _) (hrefl _) (List.subset_append_left _ _) rfl)
  | click | clickPanics => exact .inl (hway.mono (hrefl _) (hrefl _) (hrefl _) rfl)
  | listen hidle hstream hloop =>
      obtain ⟨e, rfl⟩ := hheld _ rfl
      obtain ⟨-, out, hout, happend⟩ := handleSwayEvents_event hloop hreading
      have hstream := stream_eq_of_event hstream
      refine .inl ?_
      cases hway with
      | stream hrep hmem =>
          rw [hstream] at hmem
          rcases List.mem_cons.mp hmem with rfl | hrest
          · -- the event is read, and becomes one refresh event for each window module
            refine .pending ?_
            dsimp only
            rw [happend, List.drop_left]
            exact refreshOf_mem hm hname hrep hout
          · exact .stream hrep hrest
      | pending hmem => rw [hidle] at hmem; cases hmem
      | chan hmem => exact .chan hmem
      | making hmain hle => exact .making hmain hle
  | forward hev hroom =>
      refine .inl ?_
      cases hway with
      | stream hrep hmem => exact .stream hrep hmem
      | pending hmem =>
          rw [hev] at hmem
          rcases List.mem_cons.mp hmem with heq | hrest
          · exact .chan (by simp [heq])
          · exact .pending hrest
      | chan hmem => exact .chan (List.mem_append_left _ hmem)
      | making hmain hle => exact .making hmain hle
  | receive hwaiting hchan =>
      refine .inl ?_
      cases hway with
      | stream hrep hmem => exact .stream hrep hmem
      | pending hmem => exact .pending hmem
      | chan hmem =>
          rw [hchan] at hmem
          rcases List.mem_cons.mp hmem with rfl | hrest
          · exact .making rfl (Nat.zero_le i)
          · exact .chan hrest
      | making hmain hle => rw [hwaiting] at hmain; cases hmain
  | @build _ _ blocks m₀ m' _ hmaking hm₀ hbuild =>
      cases hway with
      | stream hrep hmem => exact .inl (.stream hrep hmem)
      | pending hmem => exact .inl (.pending hmem)
      | chan hmem => exact .inl (.chan hmem)
      | making hmain hle =>
          obtain ⟨rfl, rfl⟩ := Main.making.inj (hmaking.symm.trans hmain)
          by_cases hi : blocks.length = i
          · subst hi
            obtain rfl : m₀ = m := Option.some.inj (hm₀.symm.trans hm)
            refine .inr ⟨m', ?_, current_of_build hname hbuild⟩
            exact List.getElem?_set_self (List.getElem?_eq_some_iff.mp hm).1
          · refine .inl (.making rfl ?_)
            rw [List.length_append, List.length_singleton]
            omega
  | buildPanics => exact absurd rfl halive
  | print hmaking hlen =>
      refine .inl ?_
      cases hway with
      | stream hrep hmem => exact .stream hrep hmem
      | pending hmem => exact .pending hmem
      | chan hmem => exact .chan hmem
      | making hmain hle =>
          -- the line is complete, so that the module has had its turn
          obtain ⟨rfl, rfl⟩ := Main.making.inj (hmaking.symm.trans hmain)
          have hlt := (List.getElem?_eq_some_iff.mp hm).1
          omega

/-- What a reported change ensures from then on, of the window module at a place. -/
def Kept (R : RtFormat) (s : BarState) (i : ℕ) : Prop :=
  ∀ m, s.mods[i]? = some m → m.config.name = "window".toList →
    OnTheWay s i m.config ∨ Current R s i m

/-- A reported change is news for every window module. -/
theorem onTheWay_of_reports {s s' : BarState} {root : Node} {ev : Option SwayEvent}
    (h : Moves R D s (.change root ev) s') (hev : reports ev = true)
    (hreading : s'.events.place = .reading) (i : ℕ) (cfg : ModuleConfig) :
    OnTheWay s' i cfg := by
  cases h with
  | change =>
      cases ev with
      | none => cases hev
      | some ev =>
          refine .stream hev ?_
          dsimp only
          rw [if_pos (show s.events.place = .reading from hreading)]
          simp

/-- Without news on its way, the focused window is still what it was. -/
theorem focusedData_of_moves {s s' : BarState} {a : BarLabel} (h : Moves R D s a s')
    (hreading : s'.events.place = .reading) {i : ℕ} {cfg : ModuleConfig}
    (hway : ¬ OnTheWay s' i cfg) : focusedData s'.root = focusedData s.root := by
  have hmoves := h
  cases h with
  | change hev =>
      rcases hev with hrep | hsame
      · exact absurd (onTheWay_of_reports hmoves hrep hreading i cfg) hway
      · exact hsame
  | _ => rfl

/-- The promise of a refresh is not lost on its way to the main thread. -/
theorem kept_of_moves {s s' : BarState} {a : BarLabel} (h : Moves R D s a s')
    (hheld : ∀ b, a = .listen b → ∃ e, b = .event e) (hreading : s'.events.place = .reading)
    (halive : s'.main ≠ .panicked) {i : ℕ} (hkept : Kept R s i) : Kept R s' i := by
  intro m' hm' hname
  obtain ⟨m, hm, hcfg⟩ := module_before_moves h hm'
  rw [← hcfg] at hname ⊢
  rcases hkept m hm hname with hway | ⟨hst, hblock⟩
  · rcases onTheWay_of_moves h hheld hreading halive hm hname hway with
      hstill | ⟨m₁, hm₁, hcurrent⟩
    · exact .inl hstill
    · obtain rfl : m₁ = m' := Option.some.inj (hm₁.symm.trans hm')
      exact .inr hcurrent
  · rw [or_iff_not_imp_left]
    intro hway'
    have hroot := focusedData_of_moves h hreading hway'
    unfold Current
    rw [← hcfg, WindowState.ofTree_congr hroot]
    rcases module_of_moves h hm with ⟨hsame, hlatest⟩ |
      ⟨r, ev, blocks, m₁, -, -, -, hbuild, hm₁, hlatest⟩
    · obtain rfl : m = m' := Option.some.inj (hsame.symm.trans hm')
      exact ⟨hst, (hlatest halive).trans hblock⟩
    · obtain rfl : m₁ = m' := Option.some.inj (hm₁.symm.trans hm')
      refine ⟨?_, hlatest⟩
      obtain ⟨st, hst'⟩ := exists_windowState hname
      rcases build_window hst' hbuild with hread | ⟨rfl, -⟩
      · exact hread
      · exact hst

/-- A thread that reads events has been reading. -/
theorem reading_of_moves {s s' : BarState} {a : BarLabel} (h : Moves R D s a s')
    (hheld : ∀ b, a = .listen b → ∃ e, b = .event e) (hreading : s'.events.place = .reading) :
    s.events.place = .reading := by
  cases h with
  | listen hidle hstream hloop =>
      obtain ⟨e, rfl⟩ := hheld _ rfl
      exact (handleSwayEvents_event hloop hreading).1
  | _ => exact hreading

/-- The subscription goes on: the listening thread is told of events only. -/
def Held (as : List BarLabel) : Prop := ∀ a, .listen a ∈ as → ∃ e, a = .event e

theorem kept_of_run {before since : List BarLabel} {root : Node} {ev : Option SwayEvent}
    {s₀ s : BarState}
    (hrun : (barSystem R D).run s₀ (before ++ .change root ev :: since) = some s)
    (hev : reports ev = true) (hheld : Held since) (hreading : s.events.place = .reading)
    (halive : s.main ≠ .panicked) (i : ℕ) : Kept R s i := by
  rw [Kit.Guarded.run_append, Option.bind_eq_some_iff] at hrun
  obtain ⟨s₁, -, hrest⟩ := hrun
  obtain ⟨s₂, hchange, hsince⟩ := Option.bind_eq_some_iff.mp hrest
  have hinv : ∀ as s, (barSystem R D).run s₂ as = some s → Held as →
      s.events.place = .reading → s.main ≠ .panicked → Kept R s i := by
    refine (barSystem R D).history ?_ ?_
    · -- Right after the change its event is on the way.
      intro _ hreading _ m _ _
      exact .inl (onTheWay_of_reports (moves_of_step hchange) hev hreading i m.config)
    · intro as s a s' ih hstep hheld hreading halive
      have hmoves := moves_of_step hstep
      have hlast : ∀ b, a = .listen b → ∃ e, b = .event e := by
        rintro b rfl
        exact hheld b (List.mem_append_right _ List.mem_cons_self)
      have hkept : Kept R s i :=
        ih (fun b hb => hheld b (List.mem_append_left _ hb))
          (reading_of_moves hmoves hlast hreading) (alive_of_moves hmoves halive)
      exact kept_of_moves hmoves hlast hreading halive hkept
  exact hinv since s hsince hheld hreading halive

/-- **No news is lost.** In every run, from a reported change on and for as long as the
subscription lasts: either the news is on its way to the window module, or the block
that the module built last shows the window that is focused now. -/
theorem news_on_its_way_or_shown {before since : List BarLabel} {root : Node}
    {ev : Option SwayEvent} {s : BarState} {i : ℕ} {m : BarModule}
    (hrun : (barSystem R D).run (barStart configs root₀) (before ++ .change root ev :: since) =
      some s)
    (hev : reports ev = true) (hheld : Held since) (hreading : s.events.place = .reading)
    (halive : s.main ≠ .panicked) (hm : s.mods[i]? = some m)
    (hname : m.config.name = "window".toList) :
    OnTheWay s i m.config ∨
      ((WindowState.ofTree R m.config s.root).map .window = some m.state ∧
        s.latest i = some m.block) :=
  kept_of_run hrun hev hheld hreading halive i m hm hname

theorem barAfter_upToFocus : ∃ s, barAfter upToFocus = some s ∧ s.events.place = .reading ∧
    s.main = .waiting ∧ s.poisoned = none ∧ s.stream = [.window .focus 994] ∧
    windowMods s.mods ≠ [] ∧ ∃ m, s.mods[0]? = some m ∧ m.config.name = "window".toList := by
  have heval : (barAfter upToFocus).any (fun s => s.events.place == .reading &&
      s.main == .waiting && s.poisoned == none && s.stream == [.window .focus 994] &&
      windowMods s.mods != [] && (s.mods[0]?).any fun m => m.config.name == "window".toList) =
        true := by decide +kernel
  obtain ⟨s, hs, heval⟩ := (Option.any_eq_true _ _).mp heval
  simp only [Bool.and_eq_true, beq_iff_eq, bne_iff_ne] at heval
  obtain ⟨⟨⟨⟨⟨hreading, hmain⟩, hlocks⟩, hstream⟩, hwindow⟩, hfirst⟩ := heval
  obtain ⟨m, hm, hname⟩ := (Option.any_eq_true _ _).mp hfirst
  exact ⟨s, hs, hreading, hmain, hlocks, hstream, hwindow, m, hm, beq_iff_eq.mp hname⟩

/-- The event is in the stream, and the line shows the window focused before. -/
theorem news_on_its_way_or_shown_stale : ∃ (s : BarState) (m : BarModule),
    barAfter upToFocus = some s ∧ s.mods[0]? = some m ∧
      (OnTheWay s 0 m.config ∨
        ((WindowState.ofTree .basic m.config s.root).map .window = some m.state ∧
          s.latest 0 = some m.block)) := by
  obtain ⟨s, hs, hreading, hmain, -, -, -, m, hm, hname⟩ := barAfter_upToFocus
  refine ⟨s, m, hs, hm, ?_⟩
  exact news_on_its_way_or_shown hs rfl (by simp [Held]) hreading (by rw [hmain]; simp) hm hname

/-! ## Catching up -/

/-- The moves that work off what is on its way; the modules are told `r`. -/
inductive Own (r : Readings) : BarLabel → Prop
  | event (ev : SwayEvent) : Own r (.listen (.event ev))
  | forward : Own r .forward
  | receive : Own r .receive
  | build : Own r (.build r)
  | print : Own r .print

/-- On these readings no module with one of the configurations panics. -/
def Readable (R : RtFormat) (D : DigitClass) (configs : List ModuleConfig) (r : Readings) : Prop :=
  ∀ m : BarModule, m.config ∈ configs → ∀ root, (m.refresh R D root r).isSome = true

section drain

variable {r : Readings}

/-- With readable surroundings no build panics. -/
theorem exists_build {m : BarModule} (hr : Readable R D configs r) (hm : m.config ∈ configs)
    (root : Node) (nai : Option NameInstanceAndReason) :
    ∃ m' b, m.build R D root r nai = some (m', b) := by
  unfold BarModule.build
  split
  · obtain ⟨m', hm'⟩ := Option.isSome_iff_exists.mp (hr m hm root)
    exact ⟨m', m'.block, by rw [hm', Option.map_some]⟩
  · exact ⟨m, m.block, rfl⟩

/-- The main thread finishes a line. -/
theorem leads_print (hr : Readable R D configs r) {n : ℕ} {s : BarState}
    {ev : Option NameInstanceAndReason} {blocks : List Block}
    (hmain : s.main = .making ev blocks) (hlen : blocks.length + n = s.mods.length)
    (hlocks : s.poisoned = none) (hcfg : s.mods.map BarModule.config ⊆ configs) :
    ∃ mods printed, mods.map BarModule.config = s.mods.map BarModule.config ∧
      (barSystem R D).Leads (Own r) s { s with mods, main := .waiting, printed } := by
  -- by induction on the number of modules without a block
  induction n generalizing s blocks with
  | zero =>
      refine ⟨s.mods, s.printed ++ [⟨ev, blocks⟩], rfl, .step .print ?_⟩
      have hall : blocks.length = s.mods.length := by omega
      simp only [barSystem, barStep, hmain, hall, if_true]
  | succ n ih =>
      have hlt : blocks.length < s.mods.length := by omega
      have hm := List.getElem?_eq_getElem hlt
      obtain ⟨m', b, hbuild⟩ :=
        exists_build hr (hcfg (List.mem_map_of_mem (List.getElem_mem hlt))) s.root ev
      let s₁ : BarState :=
        { s with mods := s.mods.set blocks.length m', main := .making ev (blocks ++ [b]) }
      have hstep : (barSystem R D).step s (.build r) = some s₁ := by
        simp [barSystem, barStep, hmain, buildNext, hm, hlocks, hbuild, s₁]
      have hsame : s₁.mods.map BarModule.config = s.mods.map BarModule.config :=
        configs_of_moves (moves_of_step hstep)
      have hlen₁ : (blocks ++ [b]).length + n = s₁.mods.length := by
        simp only [List.length_append, List.length_singleton, List.length_set, s₁]
        omega
      obtain ⟨mods, printed, hmods, hleads⟩ :=
        @ih s₁ (blocks ++ [b]) rfl hlen₁ hlocks (hsame ▸ hcfg)
      exact ⟨mods, printed, hmods.trans hsame, .trans (.step .build hstep) hleads⟩

/-- The main thread empties the channel. -/
theorem leads_receive (hr : Readable R D configs r) {chan : List (Option NameInstanceAndReason)}
    {s : BarState} (hchan : s.chan = chan) (hmain : s.main = .waiting)
    (hlocks : s.poisoned = none) (hcfg : s.mods.map BarModule.config ⊆ configs) :
    ∃ mods printed, mods.map BarModule.config = s.mods.map BarModule.config ∧
      (barSystem R D).Leads (Own r) s { s with mods, chan := [], printed } := by
  induction chan generalizing s with
  | nil => exact ⟨s.mods, s.printed, rfl, by rw [← hchan]; exact .refl s⟩
  | cons ev chan ih =>
      let s₁ : BarState := { s with chan, main := .making ev [] }
      have hstep : (barSystem R D).step s .receive = some s₁ := by
        simp only [barSystem, barStep, hmain, hchan, s₁]
      obtain ⟨mods₁, printed₁, hmods₁, hleads₁⟩ :=
        @leads_print R D configs r hr s.mods.length s₁ ev [] rfl (Nat.zero_add _) hlocks hcfg
      obtain ⟨mods₂, printed₂, hmods₂, hleads₂⟩ :=
        @ih { s₁ with mods := mods₁, main := .waiting, printed := printed₁ } rfl rfl hlocks
          (hmods₁ ▸ hcfg)
      refine ⟨mods₂, printed₂, hmods₂.trans hmods₁, ?_⟩
      rw [← hmain] at hleads₁ hleads₂
      exact .trans (.step .receive hstep) (.trans hleads₁ hleads₂)

/-- The listening thread sends its refresh events; the channel is emptied after each. -/
theorem leads_forward (hr : Readable R D configs r) {pending : List NameInstanceAndReason}
    {s : BarState} (hpending : s.pending = pending) (hchan : s.chan = [])
    (hmain : s.main = .waiting) (hlocks : s.poisoned = none)
    (hcfg : s.mods.map BarModule.config ⊆ configs) :
    ∃ mods printed, mods.map BarModule.config = s.mods.map BarModule.config ∧
      (barSystem R D).Leads (Own r) s { s with mods, pending := [], printed } := by
  induction pending generalizing s with
  | nil => exact ⟨s.mods, s.printed, rfl, by rw [← hpending]; exact .refl s⟩
  | cons ev pending ih =>
      let s₁ : BarState := { s with pending, chan := [some ev] }
      have hstep : (barSystem R D).step s .forward = some s₁ := by
        simp [barSystem, barStep, hpending, hmain, BarState.hasRoom, hchan, s₁]
      obtain ⟨mods₁, printed₁, hmods₁, hleads₁⟩ :=
        @leads_receive R D configs r hr [some ev] s₁ rfl hmain hlocks hcfg
      obtain ⟨mods₂, printed₂, hmods₂, hleads₂⟩ :=
        @ih { s₁ with mods := mods₁, chan := [], printed := printed₁ } rfl rfl hmain hlocks
          (hmods₁ ▸ hcfg)
      refine ⟨mods₂, printed₂, hmods₂.trans hmods₁, ?_⟩
      rw [← hchan] at hleads₁ hleads₂
      exact .trans (.step .forward hstep) (.trans hleads₁ hleads₂)

theorem windowMods_congr {mods mods' : List BarModule}
    (h : mods.map BarModule.config = mods'.map BarModule.config) :
    windowMods mods = windowMods mods' := by
  have hmap (mods : List BarModule) : windowMods mods =
      ((mods.map BarModule.config).filter fun cfg => cfg.name == "window".toList).map
        fun cfg => (cfg.name, cfg.instance_) := by
    simp [windowMods, List.filter_map, Function.comp_def]
  rw [hmap, hmap, h]

/-- The listening thread empties the stream. -/
theorem leads_events (hr : Readable R D configs r) {stream : List SwayEvent} {s : BarState}
    (hstream : s.stream = stream) (hshutdown : SwayEvent.shutdown ∉ stream)
    (hreading : s.events.place = .reading) (hpending : s.pending = []) (hchan : s.chan = [])
    (hmain : s.main = .waiting) (hlocks : s.poisoned = none) (hwindow : windowMods s.mods ≠ [])
    (hcfg : s.mods.map BarModule.config ⊆ configs) :
    ∃ mods events printed, mods.map BarModule.config = s.mods.map BarModule.config ∧
      events.place = .reading ∧
      (barSystem R D).Leads (Own r) s { s with mods, stream := [], events, printed } := by
  induction stream generalizing s with
  | nil => exact ⟨s.mods, s.events, s.printed, rfl, hreading, by rw [← hstream]; exact .refl s⟩
  | cons ev stream ih =>
      obtain ⟨out, hout⟩ : ∃ out, handleSwayEvent (windowMods s.mods) ev = some out := by
        cases ev with
        | window | workspace | other => exact ⟨_, rfl⟩
        | shutdown => exact absurd List.mem_cons_self hshutdown
      -- The event thread takes the event and has its refreshes to forward.
      let events₁ : LoopState Unit NameInstanceAndReason := ⟨.reading, 0, (), s.events.out ++ out⟩
      let s₁ : BarState := { s with stream, events := events₁, pending := out }
      have hloop : (handleSwayEvents (windowMods s.mods)).step s.events (.event ev) =
          some events₁ := by
        simp only [handleSwayEvents, eventLoop, hreading, hout, events₁]
      have hstep : (barSystem R D).step s (.listen (.event ev)) = some s₁ := by
        simp [barSystem, barStep, hmain, hwindow, hpending, hstream, streamAfter, hloop, s₁,
          events₁]
      obtain ⟨mods₁, printed₁, hmods₁, hleads₁⟩ :=
        @leads_forward R D configs r hr out s₁ rfl hchan hmain hlocks hcfg
      obtain ⟨mods₂, events₂, printed₂, hmods₂, hreading₂, hleads₂⟩ :=
        @ih { s₁ with mods := mods₁, pending := [], printed := printed₁ } rfl
          (fun hmem => hshutdown (List.mem_cons_of_mem ev hmem)) rfl rfl hchan hmain hlocks
          (windowMods_congr hmods₁ ▸ hwindow) (hmods₁ ▸ hcfg)
      refine ⟨mods₂, events₂, printed₂, hmods₂.trans hmods₁, hreading₂, ?_⟩
      rw [← hpending] at hleads₁ hleads₂
      exact .trans (.step (.event ev) hstep) (.trans hleads₁ hleads₂)

/-- Nothing is on its way. -/
structure Settled (s : BarState) : Prop where
  stream : s.stream = []
  pending : s.pending = []
  chan : s.chan = []
  main : s.main = .waiting

/-- Nothing is on its way any more. -/
theorem Settled.not_onTheWay {s : BarState} (h : Settled s) (i : ℕ) (cfg : ModuleConfig) :
    ¬ OnTheWay s i cfg := by
  intro hway
  cases hway with
  | stream hev hmem => rw [h.stream] at hmem; cases hmem
  | pending hmem => rw [h.pending] at hmem; cases hmem
  | chan hmem => rw [h.chan] at hmem; cases hmem
  | making hmain hle => rw [h.main] at hmain; cases hmain

/-- A line has no more blocks than there are modules. -/
def Fits (s : BarState) : Prop := s.main.blocks.length ≤ s.mods.length

/-- No more blocks than modules. -/
theorem fits_of_moves {s s' : BarState} {a : BarLabel} (h : Moves R D s a s') (hfits : Fits s) :
    Fits s' := by
  cases h with
  | receive | print | buildPanics => exact Nat.zero_le _
  | build hmain hm hbuild =>
      have hlt := (List.getElem?_eq_some_iff.mp hm).1
      simp only [Fits, Main.blocks, List.length_append, List.length_singleton, List.length_set]
      omega
  | _ => exact hfits

/-- The threads get done with what is on its way. -/
theorem exists_settled (hr : Readable R D configs r) {s : BarState} (hfits : Fits s)
    (hshutdown : SwayEvent.shutdown ∉ s.stream) (hreading : s.events.place = .reading)
    (halive : s.main ≠ .panicked) (hlocks : s.poisoned = none)
    (hwindow : windowMods s.mods ≠ []) (hcfg : s.mods.map BarModule.config ⊆ configs) :
    ∃ s', (barSystem R D).Leads (Own r) s s' ∧ Settled s' ∧ s'.root = s.root ∧
      s'.events.place = .reading := by
  obtain ⟨mods₁, printed₁, hmods₁, hleads₁⟩ : ∃ mods printed,
      mods.map BarModule.config = s.mods.map BarModule.config ∧
        (barSystem R D).Leads (Own r) s { s with mods, main := .waiting, printed } := by
    cases hmain : s.main with
    | waiting => exact ⟨s.mods, s.printed, rfl, by rw [← hmain]; exact .refl s⟩
    | making ev blocks =>
        have hle : blocks.length ≤ s.mods.length := by simpa [Fits, hmain, Main.blocks] using hfits
        exact leads_print hr hmain (Nat.add_sub_of_le hle) hlocks hcfg
    | panicked => exact absurd hmain halive
  -- The line is finished. Then the channel is emptied, then what the event thread still
  -- has to forward, and last the events of the stream.
  have hcfg₁ : mods₁.map BarModule.config ⊆ configs := hmods₁ ▸ hcfg
  obtain ⟨mods₂, printed₂, hmods₂, hleads₂⟩ := @leads_receive R D configs r hr s.chan
    { s with mods := mods₁, main := .waiting, printed := printed₁ } rfl rfl hlocks hcfg₁
  have hcfg₂ : mods₂.map BarModule.config ⊆ configs := hmods₂ ▸ hcfg₁
  obtain ⟨mods₃, printed₃, hmods₃, hleads₃⟩ := @leads_forward R D configs r hr s.pending
    { s with mods := mods₂, main := .waiting, chan := [], printed := printed₂ } rfl rfl rfl hlocks
    hcfg₂
  have hcfg₃ : mods₃.map BarModule.config ⊆ configs := hmods₃ ▸ hcfg₂
  have hwindow₃ : windowMods mods₃ ≠ [] :=
    windowMods_congr (hmods₃.trans (hmods₂.trans hmods₁)) ▸ hwindow
  obtain ⟨mods₄, events₄, printed₄, hmods₄, hreading₄, hleads₄⟩ :=
    @leads_events R D configs r hr s.stream
      { s with mods := mods₃, main := .waiting, chan := [], pending := [], printed := printed₃ }
      rfl hshutdown hreading rfl rfl rfl hlocks hwindow₃ hcfg₃
  exact ⟨_, hleads₁.trans (hleads₂.trans (hleads₃.trans hleads₄)), ⟨rfl, rfl, rfl, rfl⟩, rfl,
    hreading₄⟩

end drain

theorem configs_of_run {as : List BarLabel} {s : BarState}
    (hrun : (barSystem R D).run (barStart configs root₀) as = some s) :
    s.mods.map BarModule.config = knownConfigs configs ∧ Fits s := by
  have hinv : ∀ as s, (barSystem R D).run (barStart configs root₀) as = some s →
      s.mods.map BarModule.config = knownConfigs configs ∧ Fits s := by
    refine (barSystem R D).history ?_ ?_
    · exact ⟨map_config_createModules configs, Nat.zero_le _⟩
    · rintro as s a s' ⟨hcfg, hfits⟩ hstep
      have hmoves := moves_of_step hstep
      exact ⟨(configs_of_moves hmoves).trans hcfg, fits_of_moves hmoves hfits⟩
  exact hinv as s hrun

theorem exists_window {mods : List BarModule} (h : windowMods mods ≠ []) :
    ∃ (i : ℕ) (m : BarModule), mods[i]? = some m ∧ m.config.name = "window".toList := by
  obtain ⟨wm, hwm⟩ := List.exists_mem_of_ne_nil _ h
  obtain ⟨m, hm, -⟩ := List.mem_map.mp hwm
  obtain ⟨hmem, hname⟩ := List.mem_filter.mp hm
  obtain ⟨i, hi⟩ := List.mem_iff_getElem?.mp hmem
  exact ⟨i, m, hi, by simpa using hname⟩

/-- **The bar can catch up.** In every run, after a reported change and while the
subscription lasts, the threads have moves left that end with a line in which every
window module shows the window that is focused now. These are none but their own:
no tick and no further event of sway is needed. No module may panic on what it reads,
and no click may have left a lock poisoned. -/
theorem bar_catches_up {before since : List BarLabel} {root : Node} {ev : Option SwayEvent}
    {s : BarState} {r : Readings}
    (hrun : (barSystem R D).run (barStart configs root₀) (before ++ .change root ev :: since) =
      some s)
    (hev : reports ev = true) (hheld : Held since) (hreading : s.events.place = .reading)
    (halive : s.main ≠ .panicked) (hlocks : s.poisoned = none)
    (hshutdown : SwayEvent.shutdown ∉ s.stream)
    (hwindow : windowMods s.mods ≠ []) (hr : Readable R D configs r) :
    ∃ as s', (∀ a ∈ as, Own r a) ∧ (barSystem R D).run s as = some s' ∧ Settled s' ∧
      s'.root = s.root ∧ ∃ line, s'.printed.getLast? = some line ∧
        ∀ (i : ℕ) (m : BarModule), s'.mods[i]? = some m → m.config.name = "window".toList →
          ∃ b : Block, line.blocks[i]? = some b ∧
            some b.fullText = (WindowState.ofTree R m.config s.root).map (·.cachedText) := by
  obtain ⟨hcfg, hfits⟩ := configs_of_run hrun
  have hsub : s.mods.map BarModule.config ⊆ configs := by
    rw [hcfg]
    exact List.filter_subset_self _
  -- Let the bar work off everything that is on its way, and look at the longer run.
  obtain ⟨s', ⟨as, hown, hrun'⟩, hsettled, hroot, hreading'⟩ :=
    exists_settled hr hfits hshutdown hreading halive hlocks hwindow hsub
  refine ⟨as, s', hown, hrun', hsettled, hroot, ?_⟩
  have hall : (barSystem R D).run (barStart configs root₀)
      (before ++ .change root ev :: (since ++ as)) = some s' := by
    rw [← List.cons_append, ← List.append_assoc, Kit.Guarded.run_append, hrun, Option.bind_some,
      hrun']
  have hheld' : Held (since ++ as) := by
    intro a ha
    rcases List.mem_append.mp ha with hold | hnew
    · exact hheld a hold
    · cases hown _ hnew with
      | event e => exact ⟨e, rfl⟩
  -- Nothing being on its way any more, each window module shows the current tree.
  have hshown : ∀ i m, s'.mods[i]? = some m → m.config.name = "window".toList →
      Current R s' i m := by
    intro i m hm hname
    exact (kept_of_run hall hev hheld' hreading' (by rw [hsettled.main]; simp) i m hm
      hname).resolve_left (hsettled.not_onTheWay i m.config)
  have hlatest (i : ℕ) : s'.latest i = s'.printed.getLast?.bind fun line => line.blocks[i]? := by
    simp [BarState.latest, hsettled.main, Main.blocks]
  have hsame := (configs_of_run hall).1.trans hcfg.symm
  -- There is a window module, so there is a line.
  obtain ⟨i₀, m₀, hm₀, hname₀⟩ := exists_window (windowMods_congr hsame ▸ hwindow)
  obtain ⟨line, hline, -⟩ :=
    Option.bind_eq_some_iff.mp ((hlatest i₀).symm.trans (hshown i₀ m₀ hm₀ hname₀).2)
  refine ⟨line, hline, fun i m hm hname => ⟨m.block, ?_, ?_⟩⟩
  · rw [← (hshown i m hm hname).2, hlatest, hline, Option.bind_some]
  · obtain ⟨st, htree, hst⟩ := Option.map_eq_some_iff.mp (hshown i m hm hname).1
    rw [← hroot, htree, BarModule.block, ← hst]
    rfl

theorem readable_killConfig : Readable .basic .basic [killConfig] noReadings := by
  intro m hm root
  obtain hcfg : m.config = killConfig := List.mem_singleton.mp hm
  obtain ⟨st, hst⟩ := exists_windowState (m := m) (by rw [hcfg]; rfl)
  rw [refresh_isSome, hst, hcfg]
  simp only [ModuleState.refresh, Option.isSome_map, WindowState.refresh_eq]
  unfold WindowState.ofTree
  cases focusedWindow root with
  | none => rfl
  | some win =>
      -- the title has no format of its own
      have htitle : killConfig.format = '{' :: "title".toList ++ '}' :: [] := rfl
      have hval : windowValues win "title".toList = some (.string win.getName.toList) := rfl
      rw [htitle, Option.isSome_map, substPlaceholders_name (by decide) (by decide) hval]
      rfl

/-- From the click's state on, the bar gets to the window that has been focused. -/
theorem bar_catches_up_focus : ∃ (s : BarState) (as : List BarLabel) (s' : BarState),
    barAfter upToFocus = some s ∧ (barSystem .basic .basic).run s as = some s' ∧ Settled s' ∧
      s'.root = s.root := by
  obtain ⟨s, hs, hreading, hmain, hlocks, hstream, hwindow, -⟩ := barAfter_upToFocus
  obtain ⟨as, s', -, hrun, hsettled, hroot, -⟩ :=
    bar_catches_up hs rfl (by simp [Held]) hreading (by rw [hmain]; simp) hlocks
      (by rw [hstream]; simp) hwindow readable_killConfig
  exact ⟨s, as, s', hs, hrun, hsettled, hroot⟩

end Swayr.Theorems.BarWindow
