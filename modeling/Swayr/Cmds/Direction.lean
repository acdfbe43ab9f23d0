import Swayr.Kit.Cycle
import Swayr.Tree.Windows

/-!
# Cycling through windows (`cmds.rs`: `focus_window_in_direction`)

The next/prev commands sort the considered windows by their ticks and look for
the focused one on an endless iterator; the window after it is focused. The
search is bounded by `fuel`; running out of it stands for looping on.
-/

namespace Swayr.Cmds

open Ipc Swayr.Tree Focus

inductive Direction
  | backward
  | forward
deriving DecidableEq, Repr

inductive ConsiderWindows
  | allWorkspaces
  | currentWorkspace
deriving DecidableEq, Repr

/-- Most recently focused windows first. -/
def lruCmp (ticks : TickMap) (a b : DisplayNode) : Ordering :=
  (compare (ticks.lastFocusTick a.node.id) (ticks.lastFocusTick b.node.id)).swap

/-- `is_focused_window`: with no focused window among the sorted ones, the
first of them stands in for it. -/
def isFocusedWindow (wins : List DisplayNode) (dn : DisplayNode) : Bool :=
  if !wins.any (·.node.focused) then wins.head?.map (·.node.id) == some dn.node.id
  else dn.node.focused

/-- The list the endless iterator runs over. -/
def iterated (dir : Direction) (wins : List DisplayNode) : List DisplayNode :=
  match dir with
  | .forward => wins.reverse
  | .backward => wins

/-- Either direction goes through all the windows. -/
theorem iterated_perm (dir : Direction) (ticks : TickMap) (wins : List DisplayNode) :
    (iterated dir (Kit.sortBy (lruCmp ticks) wins)).Perm wins := by
  cases dir with
  | forward => exact (List.reverse_perm _).trans (Kit.sortBy_perm _ _)
  | backward => exact Kit.sortBy_perm _ _

theorem iterated_ne_nil {dir : Direction} {ticks : TickMap} {wins : List DisplayNode}
    (h : wins ≠ []) : iterated dir (Kit.sortBy (lruCmp ticks) wins) ≠ [] :=
  fun hnil => h (hnil ▸ iterated_perm dir ticks wins).symm.eq_nil

/-- `focus_window_in_direction_1`: the id it asks sway to focus, if any. -/
def focusWindowInDirection1 (fuel : Nat) (wins : List DisplayNode) (dir : Direction)
    (ticks : TickMap) (pred : DisplayNode → Bool) : Except Panic (Option Int) :=
  if h : wins.filter pred = [] then .ok none
  else
    let sorted := Kit.sortBy (lruCmp ticks) (wins.filter pred)
    match Kit.scanNext (Kit.cycleAt (iterated dir sorted) (iterated_ne_nil h))
        (isFocusedWindow sorted) fuel 0 with
    | some win => .ok (some win.node.id)
    | none => .error .outOfFuel

/-- `wins.retain(..)` on the windows whose workspace is `curWs`; a window
without a workspace makes the `unwrap` panic. -/
def retainOnWorkspace (curWs : Node) : List DisplayNode → Except Panic (List DisplayNode)
  | [] => .ok []
  | w :: wins =>
      match w.getParentNodeOfType .workspace with
      | none => .error .unwrapNone
      | some ws =>
          match retainOnWorkspace curWs wins with
          | .error e => .error e
          | .ok kept => .ok (if ws.id == curWs.id then w :: kept else kept)

/-- The tree `focus_window_in_direction` reads. -/
def readTree (swayRoot : Node) (h : DistinctIds swayRoot) : Tree :=
  getTree (getRootNode false swayRoot) (h.getRootNode false)

/-- `focus_window_in_direction`, given the tree sway sends. -/
def focusWindowInDirection (fuel : Nat) (dir : Direction) (considerWins : ConsiderWindows)
    (ticks : TickMap) (pred : DisplayNode → Bool) (swayRoot : Node)
    (h : DistinctIds swayRoot) : Except Panic (Option Int) :=
  let tree := readTree swayRoot h
  let wins := tree.getWindows ticks
  match considerWins with
  | .allWorkspaces => focusWindowInDirection1 fuel wins dir ticks pred
  | .currentWorkspace =>
      match tree.getCurrentWorkspace with
      | .error e => .error e
      | .ok curWs =>
          match retainOnWorkspace curWs wins with
          | .error e => .error e
          | .ok wins => focusWindowInDirection1 fuel wins dir ticks pred

/-- The windows of `wins` on the workspace `curWs`. -/
def onWorkspace (curWs : Node) (w : DisplayNode) : Bool :=
  (w.getParentNodeOfType .workspace).map Node.id == some curWs.id

/-- If every window is on a workspace, retaining is filtering. -/
theorem retainOnWorkspace_eq {curWs : Node} {wins : List DisplayNode}
    (h : ∀ w ∈ wins, (w.getParentNodeOfType .workspace).isSome) :
    retainOnWorkspace curWs wins = .ok (wins.filter (onWorkspace curWs)) := by
  induction wins with
  | nil => rfl
  | cons w wins ih =>
      obtain ⟨ws, hws⟩ := Option.isSome_iff_exists.mp (h w List.mem_cons_self)
      rw [retainOnWorkspace, ih fun v hv => h v (List.mem_cons_of_mem _ hv)]
      simp [hws, onWorkspace, List.filter_cons]

/-! ## The cyclic order -/

/-- `lruCmp` on window ids. -/
def lruIdCmp (ticks : TickMap) (a b : Int) : Ordering :=
  (compare (ticks.lastFocusTick a) (ticks.lastFocusTick b)).swap

/-- The cyclic order of the windows `ids`: backward follows the sorted list,
forward runs against it. -/
def cyclicOrder (ticks : TickMap) (dir : Direction) (ids : List Int) : Equiv.Perm Int :=
  match dir with
  | .forward => (Kit.sortBy (lruIdCmp ticks) ids).formPerm⁻¹
  | .backward => (Kit.sortBy (lruIdCmp ticks) ids).formPerm

/-- The endless iterator goes around in the cyclic order. -/
theorem formPerm_iterated (ticks : TickMap) (dir : Direction) (wins : List DisplayNode) :
    ((iterated dir (Kit.sortBy (lruCmp ticks) wins)).map (·.node.id)).formPerm =
      cyclicOrder ticks dir (wins.map (·.node.id)) := by
  have hcmp : ∀ a b : DisplayNode, lruIdCmp ticks a.node.id b.node.id = lruCmp ticks a b :=
    fun _ _ => rfl
  have hids := Kit.map_sortBy (fun w : DisplayNode => w.node.id) hcmp wins
  cases dir with
  | forward => rw [iterated, List.map_reverse, hids, List.formPerm_reverse, cyclicOrder]
  | backward => rw [iterated, hids, cyclicOrder]

/-- Either direction runs through all of `ids` in one cycle. -/
theorem cyclicOrder_isCycleOn (ticks : TickMap) (dir : Direction) {ids : List Int}
    (hnodup : ids.Nodup) : (cyclicOrder ticks dir ids).IsCycleOn { i | i ∈ ids } := by
  have hperm := Kit.sortBy_perm (lruIdCmp ticks) ids
  have hcycle := (hperm.nodup_iff.mpr hnodup).isCycleOn_formPerm
  have hset : { i | i ∈ Kit.sortBy (lruIdCmp ticks) ids } = { i | i ∈ ids } := by
    ext i
    exact hperm.mem_iff
  rw [hset] at hcycle
  cases dir with
  | forward => exact hcycle.inv
  | backward => exact hcycle

/-! ## The search -/

section search

variable {wins : List DisplayNode} {ticks : TickMap} {pred : DisplayNode → Bool} {g : Int}

/-- A focused window of the list is the one the search looks for. -/
theorem isFocusedWindow_of_mem {cur : DisplayNode} (hcur : cur ∈ wins)
    (hfocused : ∀ d ∈ wins, d.node.focused = true ↔ d.node.id = cur.node.id) :
    ∀ d ∈ wins, isFocusedWindow wins d = true ↔ d.node.id = cur.node.id := by
  have hany : wins.any (·.node.focused) = true :=
    List.any_eq_true.mpr ⟨cur, hcur, (hfocused cur hcur).mpr rfl⟩
  intro d hd
  simpa [isFocusedWindow, hany] using hfocused d hd

/-- If exactly one of the matching windows counts as focused, the search ends and
returns its neighbour in the cyclic order. -/
theorem focusWindowInDirection1_eq
    (hnodup : ((wins.filter pred).map (·.node.id)).Nodup)
    (hg : g ∈ (wins.filter pred).map (·.node.id))
    (hstands : ∀ d ∈ wins.filter pred,
      isFocusedWindow (Kit.sortBy (lruCmp ticks) (wins.filter pred)) d = true ↔ d.node.id = g)
    (dir : Direction) {fuel : Nat} (hfuel : wins.length ≤ fuel) :
    focusWindowInDirection1 fuel wins dir ticks pred =
      .ok (some (cyclicOrder ticks dir ((wins.filter pred).map (·.node.id)) g)) := by
  have hne : wins.filter pred ≠ [] := by
    rintro h
    simp [h] at hg
  have hiter := iterated_perm dir ticks (wins.filter pred)
  have hlen : (iterated dir (Kit.sortBy (lruCmp ticks) (wins.filter pred))).length ≤ fuel :=
    (hiter.length_eq.trans_le (List.length_filter_le _ _)).trans hfuel
  obtain ⟨a, hscan, ha⟩ := Kit.scanNext_cycleAt (iterated_ne_nil hne)
    ((hiter.map _).nodup_iff.mpr hnodup) ((hiter.map _).mem_iff.mpr hg)
    (fun d hd => hstands d (hiter.mem_iff.mp hd)) hlen
  rw [← formPerm_iterated, focusWindowInDirection1, dif_neg hne]
  simp only [hscan, ha]

end search

/-! ## The windows that take part -/

section matching

variable (t : Tree) (ticks : TickMap) (considerWins : ConsiderWindows)
  (pred : DisplayNode → Bool)

/-- The windows the command considers, before the predicate. -/
def considered (w : DisplayNode) : Bool :=
  match considerWins with
  | .allWorkspaces => true
  | .currentWorkspace =>
      match t.getCurrentWorkspace with
      | .ok curWs => onWorkspace curWs w
      | .error _ => false

def matchingWindows : List DisplayNode :=
  (t.getWindows ticks).filter fun w => pred w && considered t considerWins w

def matchingIds : List Int :=
  (matchingWindows t ticks considerWins pred).map (·.node.id)

theorem matchingIds_nodup : (matchingIds t ticks considerWins pred).Nodup :=
  (t.getWindows_ids_nodup ticks).sublist (List.filter_sublist.map _)

end matching

/-- If the window `g` is among the matching ones and the only focused one, the
command focuses its neighbour in the cyclic order of the matching windows. -/
theorem focusWindowInDirection_eq {considerWins : ConsiderWindows} {ticks : TickMap}
    {pred : DisplayNode → Bool} {swayRoot : Node} {h : DistinctIds swayRoot} {g : Int}
    (hws : ∀ w ∈ (readTree swayRoot h).getWindows ticks,
      (w.getParentNodeOfType .workspace).isSome)
    (hg : g ∈ matchingIds (readTree swayRoot h) ticks considerWins pred)
    (hfocused : ∀ w ∈ (readTree swayRoot h).getWindows ticks,
      w.node.focused = true ↔ w.node.id = g)
    (dir : Direction) {fuel : Nat}
    (hfuel : ((readTree swayRoot h).getWindows ticks).length ≤ fuel) :
    focusWindowInDirection fuel dir considerWins ticks pred swayRoot h =
      .ok (some (cyclicOrder ticks dir
        (matchingIds (readTree swayRoot h) ticks considerWins pred) g)) := by
  have hnodup := matchingIds_nodup (readTree swayRoot h) ticks considerWins pred
  -- Both branches search a sublist of the windows whose matching part is the same list.
  have hsearch : ∀ wins, wins.Sublist ((readTree swayRoot h).getWindows ticks) →
      wins.filter pred = matchingWindows (readTree swayRoot h) ticks considerWins pred →
      focusWindowInDirection1 fuel wins dir ticks pred = .ok (some (cyclicOrder ticks dir
        (matchingIds (readTree swayRoot h) ticks considerWins pred) g)) := by
    intro wins hsub heq
    obtain ⟨cur, hcur, rfl⟩ := List.mem_map.mp hg
    rw [← heq] at hcur
    have hperm := Kit.sortBy_perm (lruCmp ticks) (wins.filter pred)
    have hstands := isFocusedWindow_of_mem (hperm.mem_iff.mpr hcur) fun d hd =>
      hfocused d (hsub.subset (List.mem_filter.mp (hperm.mem_iff.mp hd)).1)
    rw [focusWindowInDirection1_eq (by rw [heq]; exact hnodup) (by rw [heq]; exact hg)
      (fun d hd => hstands d (hperm.mem_iff.mpr hd)) dir (hsub.length_le.trans hfuel), heq]
    rfl
  cases considerWins with
  | allWorkspaces =>
      refine hsearch _ (List.Sublist.refl _) ?_
      simp [matchingWindows, considered]
  | currentWorkspace =>
      obtain ⟨curWs, hcur⟩ : ∃ curWs, (readTree swayRoot h).getCurrentWorkspace = .ok curWs := by
        cases hc : (readTree swayRoot h).getCurrentWorkspace with
        | ok curWs => exact ⟨curWs, rfl⟩
        | error e => simp [matchingIds, matchingWindows, considered, hc] at hg
      have hrun : focusWindowInDirection fuel dir .currentWorkspace ticks pred swayRoot h =
          focusWindowInDirection1 fuel
            (((readTree swayRoot h).getWindows ticks).filter (onWorkspace curWs))
            dir ticks pred := by
        simp only [focusWindowInDirection, hcur, retainOnWorkspace_eq hws]
      rw [hrun]
      refine hsearch _ List.filter_sublist ?_
      simp [matchingWindows, considered, hcur, List.filter_filter]

end Swayr.Cmds
