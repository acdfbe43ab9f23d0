import Swayr.Cmds.Sweep
import Swayr.Theorems.Cycling
import Swayr.Theorems.FrozenOrder
import Swayr.Theorems.MenuActions

/-!
# Sweeps under the daemon's threads

A sweep of next/prev commands runs beside the monitor thread and the lock-in
thread, which write the ticks the commands sort by. From a first read at which no
lock-in is on its way, every command of the sweep, whenever it reads, moves the
focus along one and the same cycle.
-/

namespace Swayr.Theorems.Sweeps

open Kit Ipc Ipc.Node Swayr.Tree Focus Cmds Criteria Cycling FrozenOrder

/-! ## A command -/

section command

variable {σ : Type} {E : RegexEngine} {S : Surroundings} {C : SwayConnection σ} {r : Sweep}
  {cmd : SwayrCommand} {dir : Direction} {w : World} {g : Int} {ticks : TickMap}

/-- Exactly the window `g` is focused. -/
theorem focused_wins_focusing : ∀ d ∈ (w.focusing g ticks).wins,
    d.node.focused = true ↔ d.node.id = g := by
  rw [wins_focusing]
  exact fun d hd => focused_of_mem_getWindows _ hd

/-- With the focus on a window of the sweep, every command of the sweep looks for
the next window of it. -/
theorem runCommand_sweep (hfixed : r.Fixed E) (hcmd : cmd ∈ r.commands dir)
    (hg : g ∈ r.ids E (focusTree g (w.distinct.getRootNode false)) ticks) :
    runCommand E S C cmd (w.focusing g ticks) =
      nextOrPrev (w.focusing g ticks) dir r.considerWins (r.pred E) := by
  cases r with
  | windows kind c =>
      have hsame : kind ≠ .any → nextOrPrevOfSameLayout (w.focusing g ticks) dir c =
          nextOrPrev (w.focusing g ticks) dir c kind.pred := by
        intro hkind
        obtain ⟨d, hd, hid⟩ := List.mem_map.mp hg
        obtain ⟨hmem, hkeep⟩ := List.mem_filter.mp hd
        exact nextOrPrevOfSameLayout_eq hkind focused_wins_focusing
          (by rwa [wins_focusing]) hid ((Bool.and_eq_true _ _).mp hkeep).1 dir c
      -- The same-layout command agrees with the one for the layout the focused window has.
      cases kind <;> cases dir <;>
        simp only [Sweep.commands, List.mem_cons, List.not_mem_nil, or_false] at hcmd
      case any.backward => subst hcmd; rfl
      case any.forward => subst hcmd; rfl
      all_goals
        rcases hcmd with rfl | rfl
        · rfl
        · exact hsame (by simp)
  | matching criteria =>
      cases dir <;>
        · obtain rfl := List.mem_singleton.mp hcmd
          exact nextOrPrevMatching_eq hfixed _ _

end command

/-! ## The threads -/

/-- The daemon's threads and the focus: sway moves it where a command asks for it. A
command that panics or asks for anything else has no successor. -/
def sweepSystem {σ : Type} (E : RegexEngine) (S : Surroundings) (C : SwayConnection σ)
    (w : World) : Guarded (System × Int) (Label ⊕ SwayrCommand) where
  step
    | (s, g), .inl a => ((focusSystem true).step s a).map (·, g)
    | (s, g), .inr cmd =>
        match runCommand E S C cmd (w.focusing g s.ticks) with
        | [] => some (s, g)
        | [.request (.focusWindow g')] => some (s, g')
        | _ => none

/-- The steps of the threads along a schedule. -/
def threads (ls : List (Label ⊕ SwayrCommand)) : List Label := ls.filterMap Sum.getLeft?

/-- How far a label goes along a sweep. -/
def shift : Label ⊕ SwayrCommand → Int
  | .inl _ => 0
  | .inr cmd =>
      match cmd.direction with
      | some .forward => 1
      | some .backward => -1
      | none => 0

/-- How many more commands go forward than backward. -/
def net (ls : List (Label ⊕ SwayrCommand)) : Int := ls.foldl (fun k l => k + shift l) 0

/-- Forward and backward commands count against each other. -/
theorem net_append (ls : List (Label ⊕ SwayrCommand)) (l : Label ⊕ SwayrCommand) :
    net (ls ++ [l]) = net ls + shift l := by
  rw [net, List.foldl_append]
  rfl

/-- While a settled run of cycling commands goes on, the ticks they read do not change. -/
theorem lastFocusTick_settled {s s' : System} {bs : List Label} {id : Int} (h : Freezing s)
    (hsettled : Settled s) (hbs : .request false ∉ bs)
    (hrun : (focusSystem true).run s bs = some s') (hstays : Stays s bs id) :
    s'.ticks.lastFocusTick id = s.ticks.lastFocusTick id := by
  rw [TickMap.lastFocusTick, TickMap.lastFocusTick]
  cases hid : s.ticks id with
  | some t =>
      have hcoming : ∀ fev ∈ coming s, fev.nodeId ≠ id := by
        rintro fev hfev rfl
        rw [hsettled fev hfev] at hid
        simp at hid
      rw [tick_run h hcoming hbs hrun hstays (by simp [hid]), hid]
  | none =>
      have hnone : s'.ticks id = none := by
        simpa [hid] using hstays bs (List.prefix_refl bs) s' hrun
      rw [hnone]

/-- A world in which a sweep can be made: one window is focused, every window has a
workspace, and the focused one is in the sweep. -/
structure Sweepable (E : RegexEngine) (r : Sweep) (w : World) (f : Int) : Prop where
  fixed : r.Fixed E
  focused : ∀ n ∈ w.swayRoot.preorder, n.focused = true ↔ n.id = f
  workspaces : ∀ d ∈ w.wins, (d.getParentNodeOfType .workspace).isSome
  mem : f ∈ r.ids E (readTree w.swayRoot w.distinct) w.ticks

/-- The cycle of a sweep, by the ticks of its first read. -/
def Sweep.cycle (E : RegexEngine) (r : Sweep) (w : World) : Equiv.Perm Int :=
  cyclicOrder w.ticks .forward (r.ids E (readTree w.swayRoot w.distinct) w.ticks)

section sweep

variable {σ : Type} {E : RegexEngine} {S : Surroundings} {C : SwayConnection σ} {r : Sweep}
  {cmd : SwayrCommand} {dir : Direction} {w : World} {f g : Int} {ticks : TickMap}

theorem sameTicks_readTree (h : SameTicks w.swayRoot w.ticks ticks) :
    SameTicks (readTree w.swayRoot w.distinct).root w.ticks ticks := by
  intro n hn
  have hid : n.id ∈ w.swayRoot.preorder.map Node.id :=
    (getRootNode_preorder_sublist false w.swayRoot).subset (List.mem_map_of_mem hn)
  obtain ⟨m, hm, heq⟩ := List.mem_map.mp hid
  rw [← heq]
  exact h m hm

/-- A command of the sweep, with the focus on a window of it and ticks that have not
changed, focuses the neighbour in the cycle of the first read. -/
theorem runCommand_order (h : Sweepable E r w f) (hcmd : cmd ∈ r.commands dir)
    (hticks : SameTicks w.swayRoot w.ticks ticks)
    (hg : g ∈ r.ids E (readTree w.swayRoot w.distinct) w.ticks) :
    runCommand E S C cmd (w.focusing g ticks) =
      [.request (.focusWindow (cyclicOrder w.ticks dir
        (r.ids E (readTree w.swayRoot w.distinct) w.ticks) g))] := by
  have hread := sameTicks_readTree hticks
  -- The tree at hand is its own view with the focus on `f`.
  have htree : readTree w.swayRoot w.distinct = focusTree f (w.distinct.getRootNode false) := by
    rw [← readTree_refocus w.swayRoot w.distinct]
    exact Tree.ext_root
      (congrArg (getRootNode false) (refocus_eq_self f w.swayRoot h.focused).symm)
  have hids : r.ids E (readTree w.swayRoot w.distinct) ticks =
      r.ids E (readTree w.swayRoot w.distinct) w.ticks :=
    (matchingIds_congr hread _ _).symm
  have hmem : ∀ {i}, i ∈ r.ids E (readTree w.swayRoot w.distinct) w.ticks →
      i ∈ matchingIds (readTree w.swayRoot w.distinct) ticks r.considerWins (r.pred E) :=
    fun hi => by rwa [← hids] at hi
  have hpred : ∀ (n : Node) (hn : n ∈ (getRootNode false w.swayRoot).preorder),
      n.getType = .window →
        r.pred E (focusView g (w.distinct.getRootNode false) n hn) =
          r.pred E (focusView f (w.distinct.getRootNode false) n hn) :=
    fun n hn _ => Sweep.pred_focusView h.fixed g f _ hn
  have hws : ∀ d ∈ (readTree w.swayRoot w.distinct).getWindows ticks,
      (d.getParentNodeOfType .workspace).isSome := by
    rw [← getWindows_congr hread]
    exact h.workspaces
  -- Moving the focus to `g` leaves the same windows in the sweep.
  have hgg : g ∈ r.ids E (focusTree g (w.distinct.getRootNode false)) ticks := by
    have hf' := hmem h.mem
    have hg' := hmem hg
    rw [htree] at hf' hg'
    rw [Sweep.ids, matchingIds_focusTree _ hf' hg' hpred]
    exact hg'
  have hfuel : (windowNodes ticks (getRootNode false w.swayRoot)).length ≤
      (w.focusing g ticks).wins.length := by
    rw [wins_focusing, getWindows_focusTree, List.length_pmap]
  have hstep := focusWindowInDirection_refocus htree hws hpred (hmem h.mem) (hmem hg) dir hfuel
  -- Ticks that agree on the tree give the same cyclic order.
  have horder : cyclicOrder ticks dir (r.ids E (readTree w.swayRoot w.distinct) ticks) =
      cyclicOrder w.ticks dir (r.ids E (readTree w.swayRoot w.distinct) w.ticks) := by
    rw [hids]
    refine cyclicOrder_congr (fun i hi => ?_) dir
    obtain ⟨n, hn, rfl⟩ := mem_preorder_of_mem_matchingIds hi
    exact (hread n hn).symm
  rw [runCommand_sweep h.fixed hcmd hgg, ← horder]
  exact congrArg focusOutgoing hstep

/-! ## A sweep -/

/-- What holds along a sweep: the threads have run as they would without it, and the
focus has gone as far along the cycle as the commands went. -/
structure Along (E : RegexEngine) (r : Sweep) (w : World) (f : Int) (s : System)
    (ls : List (Label ⊕ SwayrCommand)) (t : System × Int) : Prop where
  threads : (focusSystem true).run s (threads ls) = some t.1
  mem : t.2 ∈ r.ids E (readTree w.swayRoot w.distinct) w.ticks
  focus : t.2 = (Sweep.cycle E r w ^ net ls) f

/-- The windows of the sweep are one cycle. -/
theorem cycle_isCycleOn (E : RegexEngine) (r : Sweep) (w : World) :
    (Sweep.cycle E r w).IsCycleOn
      { i | i ∈ r.ids E (readTree w.swayRoot w.distinct) w.ticks } :=
  cyclicOrder_isCycleOn w.ticks .forward (matchingIds_nodup _ _ _ _)

/-- One step of the focus, in either direction. -/
theorem cyclicOrder_eq_zpow (hcmd : cmd ∈ r.commands dir) :
    cyclicOrder w.ticks dir (r.ids E (readTree w.swayRoot w.distinct) w.ticks) =
      Sweep.cycle E r w ^ shift (.inr cmd) := by
  have hdir := Sweep.direction_of_mem hcmd
  cases dir with
  | forward => simp [shift, hdir, Sweep.cycle]
  | backward => simp [shift, hdir, Sweep.cycle, cyclicOrder]

/-- A command moves the focus along the cycle while the ticks stand still. -/
theorem step_command (h : Sweepable E r w f) (hcmd : cmd ∈ r.commands dir) {s : System}
    (hticks : SameTicks w.swayRoot w.ticks s.ticks)
    (hg : g ∈ r.ids E (readTree w.swayRoot w.distinct) w.ticks) :
    (sweepSystem E S C w).step (s, g) (.inr cmd) =
      some (s, (Sweep.cycle E r w ^ shift (.inr cmd)) g) := by
  simp only [sweepSystem, runCommand_order h hcmd hticks hg, cyclicOrder_eq_zpow hcmd]

/-- The ticks that are read at any time of the sweep. -/
theorem sameTicks_along {s s' : System} (h : Freezing s) (hsettled : Settled s)
    (hread : s.ticks = w.ticks) {ls : List (Label ⊕ SwayrCommand)}
    (hrequest : .inl (.request false) ∉ ls)
    (hstays : ∀ n ∈ w.swayRoot.preorder, Stays s (threads ls) n.id)
    (hrun : (focusSystem true).run s (threads ls) = some s') :
    SameTicks w.swayRoot w.ticks s'.ticks := by
  intro n hn
  rw [← hread]
  refine (lastFocusTick_settled h hsettled ?_ hrun (hstays n hn)).symm
  intro hmem
  obtain ⟨l, hl, heq⟩ := List.mem_filterMap.mp hmem
  cases l with
  | inl a => exact hrequest (Option.some.inj heq ▸ hl)
  | inr cmd => cases heq

theorem stays_append {s : System} {ls : List (Label ⊕ SwayrCommand)} {l : Label ⊕ SwayrCommand}
    {id : Int} (h : Stays s (threads (ls ++ [l])) id) : Stays s (threads ls) id := by
  intro now hnow
  refine h now (hnow.trans ?_)
  rw [threads, threads, List.filterMap_append]
  exact List.prefix_append _ _

/-- By induction on the labels: the focus is as far along the cycle as the commands say. -/
theorem along (h : Sweepable E r w f) {s : System} (hfreezing : Freezing s)
    (hsettled : Settled s) (hread : s.ticks = w.ticks) (ls : List (Label ⊕ SwayrCommand))
    (t : System × Int) (hrun : (sweepSystem E S C w).run (s, f) ls = some t)
    (hrequest : .inl (.request false) ∉ ls)
    (hcmds : ∀ cmd, .inr cmd ∈ ls → ∃ dir, cmd ∈ r.commands dir)
    (hstays : ∀ n ∈ w.swayRoot.preorder, Stays s (threads ls) n.id) : Along E r w f s ls t := by
  revert hrequest hcmds hstays
  refine (sweepSystem E S C w).history
    (P := fun ls t => .inl (.request false) ∉ ls →
      (∀ cmd, .inr cmd ∈ ls → ∃ dir, cmd ∈ r.commands dir) →
      (∀ n ∈ w.swayRoot.preorder, Stays s (threads ls) n.id) → Along E r w f s ls t)
    (fun _ _ _ => ⟨rfl, h.mem, rfl⟩) ?_ ls t hrun
  rintro ls ⟨s₁, g⟩ l t ih hstep hrequest hcmds hstays
  have hrequest' : .inl (.request false) ∉ ls := fun hmem =>
    hrequest (List.mem_append_left _ hmem)
  have hstays' : ∀ n ∈ w.swayRoot.preorder, Stays s (threads ls) n.id := fun n hn =>
    stays_append (hstays n hn)
  have before := ih hrequest' (fun cmd hcmd => hcmds cmd (List.mem_append_left _ hcmd)) hstays'
  -- A step of the daemon's threads leaves the focus; a command moves it along the cycle.
  cases l with
  | inl a =>
      obtain ⟨s₂, hs₂, rfl⟩ := Option.map_eq_some_iff.mp hstep
      refine ⟨?_, before.mem, ?_⟩
      · rw [threads, List.filterMap_append]
        show (focusSystem true).run s (threads ls ++ [a]) = some s₂
        rw [Guarded.run_append_singleton, before.threads]
        exact hs₂
      · rw [net_append, shift, add_zero]
        exact before.focus
  | inr cmd =>
      obtain ⟨dir, hcmd⟩ := hcmds cmd (by simp)
      have hticks := sameTicks_along hfreezing hsettled hread hrequest' hstays' before.threads
      rw [step_command h hcmd hticks before.mem] at hstep
      obtain rfl := Option.some.inj hstep
      refine ⟨?_, ?_, ?_⟩
      · rw [threads, List.filterMap_append]
        show (focusSystem true).run s (threads ls ++ []) = some s₁
        rw [List.append_nil]
        exact before.threads
      · exact ((cycle_isCycleOn E r w).1.perm_zpow _).mapsTo before.mem
      · rw [net_append, add_comm, zpow_add, Equiv.Perm.mul_apply, ← before.focus]

end sweep

section

variable {σ : Type} (E : RegexEngine) (S : Surroundings) (C : SwayConnection σ) (r : Sweep)
  (w : World) (f : Int)

end

/-- The two workspaces before any tick was written. -/
def freshWorld : World where
  swayRoot := twoWorkspaces
  distinct := twoWorkspaces_distinct
  ticks := .empty
  answer := none

/-- Three commands, with steps of the lock-in thread between them. -/
def onceAround : List (Label ⊕ SwayrCommand) :=
  [.inr (.nextWindow .currentWorkspace), .inl .recv, .inl (.request true),
    .inr (.nextWindow .currentWorkspace), .inl .recv, .inr (.nextWindow .currentWorkspace)]

end Swayr.Theorems.Sweeps
