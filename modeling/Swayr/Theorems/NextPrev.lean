import Swayr.Cmds.Sweep
import Swayr.Theorems.MenuActions

/-!
# What a next/prev command focuses

The twelve next/prev commands differ in the windows they are about. In every state
of the tree a command takes these windows by recency, looks where the focused one
stands among them, and moves by one place, around the ends. If the focused window
is not among them it counts as standing at the most recently used one.
-/

namespace Swayr.Theorems.NextPrev

open Ipc Swayr.Tree Focus Cmds Criteria

/-! ## Moving by one place -/

/-- One place up or down a list, around its ends. -/
def neighbour (dir : Direction) (l : List Int) (k : Nat) : Option Int :=
  match dir with
  | .forward => l[(k + l.length - 1) % l.length]?
  | .backward => l[(k + 1) % l.length]?

/-- The cyclic order moves by one place. -/
theorem cyclicOrder_eq_neighbour (ticks : TickMap) (dir : Direction) {ids : List Int}
    (hnodup : ids.Nodup) {k : Nat} (hk : k < (Kit.sortBy (lruIdCmp ticks) ids).length) :
    some (cyclicOrder ticks dir ids ((Kit.sortBy (lruIdCmp ticks) ids)[k])) =
      neighbour dir (Kit.sortBy (lruIdCmp ticks) ids) k := by
  have hsorted : (Kit.sortBy (lruIdCmp ticks) ids).Nodup :=
    (Kit.sortBy_perm (lruIdCmp ticks) ids).nodup_iff.mpr hnodup
  unfold cyclicOrder neighbour
  generalize Kit.sortBy (lruIdCmp ticks) ids = l at hk hsorted ⊢
  have hpos : 0 < l.length := by omega
  cases dir with
  | backward =>
      rw [List.formPerm_apply_getElem l hsorted k hk]
      exact (List.getElem?_eq_getElem (Nat.mod_lt _ hpos)).symm
  | forward =>
      have hprev : (k + l.length - 1) % l.length < l.length := Nat.mod_lt _ hpos
      have hback : l.formPerm l[(k + l.length - 1) % l.length] = l[k] := by
        rw [List.formPerm_apply_getElem l hsorted _ hprev]
        have hwrap : ((k + l.length - 1) % l.length + 1) % l.length = k := by
          rw [Nat.mod_add_mod, show k + l.length - 1 + 1 = k + l.length by omega,
            Nat.add_mod_right, Nat.mod_eq_of_lt hk]
        simp only [hwrap]
      rw [List.getElem?_eq_getElem hprev, Equiv.Perm.inv_eq_iff_eq.mpr hback.symm]

/-! ## The windows a command is about -/

/-- What the commands hand to `focus_window_in_direction`; `none` if they do not call
it, because no window is focused or a query does not parse. -/
def target (E : RegexEngine) (w : World) :
    SwayrCommand → Option (ConsiderWindows × (DisplayNode → Bool))
  | .nextWindow c | .prevWindow c => some (c, alwaysTrue)
  | .nextTiledWindow c | .prevTiledWindow c => some (c, tiledWindow)
  | .nextTabbedOrStackedWindow c | .prevTabbedOrStackedWindow c =>
      some (c, tabbedOrStackedWindow)
  | .nextFloatingWindow c | .prevFloatingWindow c => some (c, floatingWindow)
  | .nextWindowOfSameLayout c | .prevWindowOfSameLayout c =>
      (w.wins.find? (·.node.focused)).map fun cur => (c, sameLayoutAs cur)
  | .nextMatchingWindow q | .prevMatchingWindow q =>
      (parseCriteria q : Option (Criterion E)).map fun crit =>
        (.allWorkspaces, criterionToPredicate crit w.wins)
  | _ => none

/-- The ids of the windows a command is about, the most recently used first. -/
def byRecency (E : RegexEngine) (w : World) (cmd : SwayrCommand) : List Int :=
  match target E w cmd with
  | some (c, pred) =>
      Kit.sortBy (lruIdCmp w.ticks)
        (matchingIds (readTree w.swayRoot w.distinct) w.ticks c pred)
  | none => []

/-- Where the focused window stands in a list of ids; at the start if it is not there. -/
def standing (w : World) (ids : List Int) : Nat :=
  match w.wins.find? (·.node.focused) with
  | some cur => if cur.node.id ∈ ids then ids.idxOf cur.node.id else 0
  | none => 0

section

variable {σ : Type} {E : RegexEngine} {S : Surroundings} {C : SwayConnection σ} {w : World}
  {cmd : SwayrCommand} {dir : Direction}

/-- Each of the twelve commands hands on its windows. -/
theorem runCommand_of_target {c : ConsiderWindows} {pred : DisplayNode → Bool}
    (hdir : cmd.direction = some dir) (htarget : target E w cmd = some (c, pred)) :
    runCommand E S C cmd w = nextOrPrev w dir c pred := by
  cases cmd with
  | nextWindow | prevWindow | nextTiledWindow | prevTiledWindow | nextTabbedOrStackedWindow
  | prevTabbedOrStackedWindow | nextFloatingWindow | prevFloatingWindow =>
      cases hdir
      cases htarget
      rfl
  | nextWindowOfSameLayout c | prevWindowOfSameLayout c =>
      obtain ⟨cur, hcur, heq⟩ := Option.map_eq_some_iff.mp htarget
      cases hdir
      cases heq
      rw [runCommand, nextOrPrevOfSameLayout, focusWindowOfSameLayoutInDirection, ← World.wins,
        hcur]
      rfl
  | nextMatchingWindow q | prevMatchingWindow q =>
      obtain ⟨crit, hparse, heq⟩ := Option.map_eq_some_iff.mp htarget
      cases hdir
      cases heq
      rw [runCommand, nextOrPrevMatching, focusMatchingWindowInDirection, hparse]
      rfl
  | _ => cases hdir

/-- Nothing is done without a focused window or with a query that does not parse. -/
theorem runCommand_of_no_target (hdir : cmd.direction = some dir)
    (htarget : target E w cmd = none) : runCommand E S C cmd w = [] := by
  cases cmd with
  | nextWindowOfSameLayout c | prevWindowOfSameLayout c =>
      rw [target, Option.map_eq_none_iff] at htarget
      rw [runCommand, nextOrPrevOfSameLayout, focusWindowOfSameLayoutInDirection, ← World.wins,
        htarget]
      rfl
  | nextMatchingWindow q | prevMatchingWindow q =>
      rw [target, Option.map_eq_none_iff] at htarget
      rw [runCommand, nextOrPrevMatching, focusMatchingWindowInDirection, htarget]
      rfl
  | nextWindow | prevWindow | nextTiledWindow | prevTiledWindow | nextTabbedOrStackedWindow
  | prevTabbedOrStackedWindow | nextFloatingWindow | prevFloatingWindow => cases htarget
  | _ => cases hdir

/-- With a current workspace, and every window on one, the windows to consider are
found. -/
theorem focusWindowInDirection_eq_search {fuel : Nat} {c : ConsiderWindows}
    {pred : DisplayNode → Bool}
    (hws : ∀ d ∈ w.wins, (d.getParentNodeOfType .workspace).isSome)
    (hcur : ∃ ws, (readTree w.swayRoot w.distinct).getCurrentWorkspace = .ok ws) :
    focusWindowInDirection fuel dir c w.ticks pred w.swayRoot w.distinct =
      focusWindowInDirection1 fuel
        (w.wins.filter (considered (readTree w.swayRoot w.distinct) c)) dir w.ticks pred := by
  obtain ⟨ws, hcur⟩ := hcur
  cases c with
  | allWorkspaces =>
      have hall : w.wins.filter (considered (readTree w.swayRoot w.distinct) .allWorkspaces) =
          w.wins := List.filter_eq_self.mpr fun _ _ => rfl
      rw [hall]
      rfl
  | currentWorkspace =>
      have hon : considered (readTree w.swayRoot w.distinct) .currentWorkspace =
          onWorkspace ws := by
        funext d
        simp [considered, hcur]
      simp only [focusWindowInDirection, hcur, hon]
      rw [← World.wins, retainOnWorkspace_eq hws]

end

/-! ## The search -/

/-- If no matching window is focused, the most recently used one stands in. -/
theorem isFocusedWindow_of_none {wins rest : List DisplayNode} {head : DisplayNode}
    (hnone : ∀ d ∈ wins, d.node.focused = false) (hhead : wins = head :: rest)
    (d : DisplayNode) :
    isFocusedWindow wins d = true ↔ d.node.id = head.node.id := by
  have hany : wins.any (·.node.focused) = false := by
    rw [List.any_eq_false]
    intro d hd
    simp [hnone d hd]
  rw [isFocusedWindow, hany, hhead]
  simpa using eq_comm

section

variable {w : World} {l : List DisplayNode}

/-- The window that counts as focused is where the focused one stands. -/
theorem exists_standing (hsub : l.Sublist w.wins) (hne : l ≠ [])
    (hone : ∀ d ∈ w.wins, ∀ e ∈ w.wins, d.node.focused = true → e.node.focused = true →
      d.node.id = e.node.id) :
    ∃ g, (Kit.sortBy (lruIdCmp w.ticks) (l.map (·.node.id)))[standing w
        (Kit.sortBy (lruIdCmp w.ticks) (l.map (·.node.id)))]? = some g ∧
      ∀ d ∈ l,
        isFocusedWindow (Kit.sortBy (lruCmp w.ticks) l) d = true ↔ d.node.id = g := by
  have hids : Kit.sortBy (lruIdCmp w.ticks) (l.map (·.node.id)) =
      (Kit.sortBy (lruCmp w.ticks) l).map (·.node.id) :=
    (Kit.map_sortBy (fun d : DisplayNode => d.node.id) (fun _ _ => rfl) l).symm
  have hperm := Kit.sortBy_perm (lruCmp w.ticks) l
  rw [hids]
  generalize Kit.sortBy (lruCmp w.ticks) l = sorted at hperm ⊢
  have hwins : ∀ d ∈ sorted, d ∈ w.wins := fun d hd => hsub.subset (hperm.mem_iff.mp hd)
  -- with no window of the list focused, the first one stands in
  have hoff : (∀ d ∈ sorted, d.node.focused = false) → standing w (sorted.map (·.node.id)) = 0 →
      ∃ g, (sorted.map (·.node.id))[standing w (sorted.map (·.node.id))]? = some g ∧
        ∀ d ∈ l, isFocusedWindow sorted d = true ↔ d.node.id = g := by
    intro hnone hstanding
    cases hsorted : sorted with
    | nil => exact absurd (hsorted ▸ hperm.symm).eq_nil hne
    | cons head rest =>
        refine ⟨head.node.id, by rw [← hsorted, hstanding, hsorted]; rfl, fun d _ => ?_⟩
        rw [← hsorted]
        exact isFocusedWindow_of_none hnone hsorted d
  cases hfind : w.wins.find? (·.node.focused) with
  | none =>
      have hnone := List.find?_eq_none.mp hfind
      exact hoff (fun d hd => by simpa using hnone d (hwins d hd)) (by simp [standing, hfind])
  | some cur =>
      have hcur := List.mem_of_find?_eq_some hfind
      have hfoc := List.find?_some hfind
      by_cases hmem : cur.node.id ∈ sorted.map (·.node.id)
      · have hinj : ∀ d ∈ w.wins, d.node.id = cur.node.id → d = cur := fun d hd heq =>
          List.inj_on_of_nodup_map w.wins_ids_nodup hd hcur heq
        obtain ⟨d, hd, hdcur⟩ := List.mem_map.mp hmem
        obtain rfl := hinj d (hwins d hd) hdcur
        have hstanding : standing w (sorted.map (·.node.id)) =
            (sorted.map (·.node.id)).idxOf d.node.id := by
          simp only [standing, hfind, if_pos hmem]
        refine ⟨d.node.id, ?_, fun e he => ?_⟩
        · rw [hstanding]
          exact List.getElem?_idxOf hmem
        · refine isFocusedWindow_of_mem hd (fun e he => ?_) e (hperm.mem_iff.mpr he)
          constructor
          · exact fun hefoc => hone e (hwins e he) d hcur hefoc hfoc
          · intro heq
            rw [hinj e (hwins e he) heq]
            exact hfoc
      · refine hoff (fun d hd => ?_) (by simp [standing, hfind, hmem])
        by_contra hd'
        have heq := hone d (hwins d hd) cur hcur (by simpa using hd') hfoc
        exact hmem (heq ▸ List.mem_map_of_mem hd)

/-- The search moves by one place from where the focused window stands. -/
theorem search_eq_neighbour (c : ConsiderWindows) (pred : DisplayNode → Bool) (dir : Direction)
    (hone : ∀ d ∈ w.wins, ∀ e ∈ w.wins, d.node.focused = true → e.node.focused = true →
      d.node.id = e.node.id) :
    focusWindowInDirection1 w.wins.length
        (w.wins.filter (considered (readTree w.swayRoot w.distinct) c)) dir w.ticks pred =
      .ok (neighbour dir
        (Kit.sortBy (lruIdCmp w.ticks)
          (matchingIds (readTree w.swayRoot w.distinct) w.ticks c pred))
        (standing w (Kit.sortBy (lruIdCmp w.ticks)
          (matchingIds (readTree w.swayRoot w.distinct) w.ticks c pred)))) := by
  set t := readTree w.swayRoot w.distinct
  have hmatching : (w.wins.filter (considered t c)).filter pred =
      matchingWindows t w.ticks c pred := by
    rw [List.filter_filter]
    rfl
  by_cases hnil : matchingWindows t w.ticks c pred = []
  · rw [focusWindowInDirection1, dif_pos (hmatching.trans hnil), matchingIds, hnil]
    cases dir <;> rfl
  · have hnodup : ((matchingWindows t w.ticks c pred).map (·.node.id)).Nodup :=
      matchingIds_nodup t w.ticks c pred
    -- The window that counts as focused, and its neighbour in the cyclic order.
    obtain ⟨g, hg, hstands⟩ :=
      exists_standing (l := matchingWindows t w.ticks c pred) List.filter_sublist hnil hone
    obtain ⟨hlt, hget⟩ := List.getElem?_eq_some_iff.mp hg
    have hmem : g ∈ (matchingWindows t w.ticks c pred).map (·.node.id) :=
      (Kit.sortBy_perm _ _).mem_iff.mp (List.mem_of_getElem? hg)
    rw [focusWindowInDirection1_eq (g := g) (by rw [hmatching]; exact hnodup)
      (by rw [hmatching]; exact hmem) (by rw [hmatching]; exact hstands) dir
      (List.length_filter_le _ _), hmatching, matchingIds,
      ← cyclicOrder_eq_neighbour _ _ hnodup hlt, hget]

end

section

variable {σ : Type} (E : RegexEngine) (S : Surroundings) (C : SwayConnection σ) (w : World)
  (cmd : SwayrCommand) (dir : Direction)

/-- **One place along the windows by recency.** With a current workspace, every
window on a workspace and at most one window focused, each next/prev command sends
one request, to focus the neighbour of the focused window among the windows it is
about, by recency: prev the next older one and next the next more recent one, around
the ends. A focused window that is none of them counts as the most recent one of
them, so next then focuses the oldest and prev the second. Nothing is sent only if
there are no such windows. -/
theorem next_prev_neighbour (hdir : cmd.direction = some dir)
    (hws : ∀ d ∈ w.wins, (d.getParentNodeOfType .workspace).isSome)
    (hcur : ∃ ws, (readTree w.swayRoot w.distinct).getCurrentWorkspace = .ok ws)
    (hone : ∀ d ∈ w.wins, ∀ e ∈ w.wins, d.node.focused = true → e.node.focused = true →
      d.node.id = e.node.id) :
    runCommand E S C cmd w =
      ((neighbour dir (byRecency E w cmd) (standing w (byRecency E w cmd))).map
        fun id => .request (.focusWindow id)).toList := by
  cases htarget : target E w cmd with
  | none =>
      have hnil : byRecency E w cmd = [] := by simp only [byRecency, htarget]
      rw [runCommand_of_no_target hdir htarget, hnil]
      cases dir <;> rfl
  | some t =>
      obtain ⟨c, pred⟩ := t
      have hrecency : byRecency E w cmd = Kit.sortBy (lruIdCmp w.ticks)
          (matchingIds (readTree w.swayRoot w.distinct) w.ticks c pred) := by
        simp only [byRecency, htarget]
      rw [runCommand_of_target hdir htarget, nextOrPrev, focusWindowInDirection_eq_search hws hcur,
        search_eq_neighbour c pred dir hone, ← hrecency]
      cases neighbour dir (byRecency E w cmd) (standing w (byRecency E w cmd)) <;> rfl

end

/-- A focused tiled window, and three floating windows used one after the other. -/
def threeFloating : World where
  swayRoot := .mk ⟨{ id := 986, nodeType := .root }, rfl⟩
    [.mk ⟨{ id := 987, nodeType := .output }, rfl⟩
      [.mk ⟨{ id := 988, nodeType := .workspace, layout := .splitH }, rfl⟩
        [.mk ⟨{ id := 989, nodeType := .con, pid := some 781, focused := true }, rfl⟩ [] []]
        [.mk ⟨{ id := 990, nodeType := .floatingCon, pid := some 782 }, rfl⟩ [] [],
         .mk ⟨{ id := 991, nodeType := .floatingCon, pid := some 783 }, rfl⟩ [] [],
         .mk ⟨{ id := 992, nodeType := .floatingCon, pid := some 784 }, rfl⟩ [] []]] []] []
  distinct := by decide
  ticks := fun i => if 986 < i then some (i - 986).toNat else none
  answer := none

/-- From outside, next goes to the window used longest ago, and prev passes over the
one used last. -/
theorem next_prev_neighbour_threeFloating :
    runCommand .matchAll (MenuActions.printing []) MenuActions.refused
        (.nextFloatingWindow .currentWorkspace) threeFloating =
      [.request (.focusWindow 990)] ∧
    runCommand .matchAll (MenuActions.printing []) MenuActions.refused
        (.prevFloatingWindow .currentWorkspace) threeFloating =
      [.request (.focusWindow 991)] := by
  have hws : ∀ d ∈ threeFloating.wins, (d.getParentNodeOfType .workspace).isSome := by
    decide +kernel
  have hcur : ∃ ws, (readTree threeFloating.swayRoot
      threeFloating.distinct).getCurrentWorkspace = .ok ws := by
    have hok : (readTree threeFloating.swayRoot
        threeFloating.distinct).getCurrentWorkspace.isOk = true := by decide +kernel
    cases h : (readTree threeFloating.swayRoot threeFloating.distinct).getCurrentWorkspace with
    | ok ws => exact ⟨ws, rfl⟩
    | error e =>
        rw [h] at hok
        cases hok
  have hone : ∀ d ∈ threeFloating.wins, ∀ e ∈ threeFloating.wins, d.node.focused = true →
      e.node.focused = true → d.node.id = e.node.id := by
    decide +kernel
  constructor
  · rw [next_prev_neighbour _ _ _ _ _ .forward rfl hws hcur hone]
    decide +kernel
  · rw [next_prev_neighbour _ _ _ _ _ .backward rfl hws hcur hone]
    decide +kernel

end Swayr.Theorems.NextPrev
