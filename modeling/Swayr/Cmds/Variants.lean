import Swayr.Cmds.Direction
import Swayr.Criteria.Eval

/-!
# Next and previous windows of a kind (`cmds.rs`, `tree.rs`)

The commands that cycle through floating, tiled or tabbed windows, through those
of the focused window's kind, or through those that match a query. They differ
in the predicate they give to `focus_window_in_direction`.
-/

namespace Swayr

open Ipc Swayr.Tree Focus

namespace DisplayNode

variable (d : DisplayNode)

/-- A display node belongs to its tree, so the lookup does not panic. -/
theorem getParentNode_ok : ∃ r, d.tree.getParentNode d.node.id = .ok r := by
  obtain ⟨rest, hl⟩ := exists_lineage d.mem
  generalize d.node = n at hl ⊢
  generalize hroot : d.tree.root = root at hl
  cases hl with
  | root => exact ⟨none, hroot ▸ d.tree.getParentNode_root⟩
  | child hp hc => exact ⟨_, d.tree.getParentNode_child (hroot ▸ hp.mem) hc⟩

/-- `dn.tree.get_parent_node(dn.node.id)`, which does not panic. -/
def getParentNode : Option Node :=
  match h : d.tree.getParentNode d.node.id with
  | .ok r => r
  | .error _ => absurd h (by obtain ⟨r, hok⟩ := d.getParentNode_ok; rw [hok]; simp)

theorem getParentNode_eq {r : Option Node} (h : d.tree.getParentNode d.node.id = .ok r) :
    d.getParentNode = r := by
  unfold getParentNode
  split
  · rename_i r' h'
    exact Except.ok.inj (h'.symm.trans h)
  · rename_i e h'
    rw [h] at h'
    simp at h'

def isChildOfTiledContainer : Bool :=
  match d.getParentNode with
  | some n => n.layout == .splitH || n.layout == .splitV
  | none => false

def isChildOfTabbedOrStackedContainer : Bool :=
  match d.getParentNode with
  | some n => n.layout == .tabbed || n.layout == .stacked
  | none => false

end DisplayNode

namespace Cmds

open Criteria

/-! ## Predicates -/

def alwaysTrue (_ : DisplayNode) : Bool := true

def floatingWindow (dn : DisplayNode) : Bool := dn.node.isFloating

def tiledWindow (dn : DisplayNode) : Bool := !dn.node.isFloating && dn.isChildOfTiledContainer

def tabbedOrStackedWindow (dn : DisplayNode) : Bool :=
  !dn.node.isFloating && dn.isChildOfTabbedOrStackedContainer

/-- The predicate `focus_window_of_same_layout_in_direction` picks for the focused
window. -/
def sameLayoutAs (curWin : DisplayNode) : DisplayNode → Bool :=
  if curWin.node.isFloating then floatingWindow
  else if !curWin.node.isFloating && curWin.isChildOfTabbedOrStackedContainer then
    tabbedOrStackedWindow
  else if !curWin.node.isFloating && curWin.isChildOfTiledContainer then tiledWindow
  else alwaysTrue

/-! ## The search -/

/-- One of the sorted windows is the focused one, or stands in for it. -/
theorem exists_isFocusedWindow {wins : List DisplayNode} (h : wins ≠ []) :
    ∃ d ∈ wins, isFocusedWindow wins d = true := by
  by_cases hany : wins.any (·.node.focused) = true
  · obtain ⟨d, hd, hfocused⟩ := List.any_eq_true.mp hany
    exact ⟨d, hd, by simpa [isFocusedWindow, hany] using hfocused⟩
  · cases wins with
    | nil => exact absurd rfl h
    | cons d rest => exact ⟨d, List.mem_cons_self, by simp [isFocusedWindow, hany]⟩

/-- The search of `focus_window_in_direction_1` ends within one turn, and finds a
window unless none matches. -/
theorem focusWindowInDirection1_ok {wins : List DisplayNode} {fuel : Nat}
    (hfuel : wins.length ≤ fuel) (dir : Direction) (ticks : TickMap)
    (pred : DisplayNode → Bool) :
    (wins.filter pred = [] ∧ focusWindowInDirection1 fuel wins dir ticks pred = .ok none) ∨
      ∃ d ∈ wins, pred d = true ∧
        focusWindowInDirection1 fuel wins dir ticks pred = .ok (some d.node.id) := by
  by_cases hnil : wins.filter pred = []
  · exact .inl ⟨hnil, by rw [focusWindowInDirection1, dif_pos hnil]⟩
  · -- Some window counts as focused, so the search stops within one turn.
    right
    set sorted := Kit.sortBy (lruCmp ticks) (wins.filter pred) with hsorted
    have hperm : (iterated dir sorted).Perm (wins.filter pred) := iterated_perm dir ticks _
    have hlen : (iterated dir sorted).length ≤ fuel :=
      (hperm.length_eq.trans_le (List.length_filter_le _ _)).trans hfuel
    have hne : sorted ≠ [] := fun h =>
      hnil (List.Perm.eq_nil (h ▸ (Kit.sortBy_perm (lruCmp ticks) (wins.filter pred)).symm))
    obtain ⟨d, hd, hfocused⟩ := exists_isFocusedWindow hne
    have hmem : d ∈ iterated dir sorted :=
      hperm.mem_iff.mpr ((Kit.sortBy_perm _ _).mem_iff.mp hd)
    obtain ⟨k, hk, hdk⟩ := List.getElem_of_mem hmem
    have hpass : isFocusedWindow sorted
        (Kit.cycleAt (iterated dir sorted) (iterated_ne_nil hnil) k) = true := by
      rw [Kit.cycleAt_of_lt _ hk, hdk]
      exact hfocused
    obtain ⟨j, hj⟩ : ∃ j, Kit.scanNext
        (Kit.cycleAt (iterated dir (Kit.sortBy (lruCmp ticks) (wins.filter pred)))
          (iterated_ne_nil hnil)) (isFocusedWindow sorted) fuel 0 = some _ :=
      Kit.exists_scanNext ⟨k, Nat.zero_le k, by omega, hpass⟩
    have htarget := hperm.mem_iff.mp (Kit.cycleAt_mem (iterated_ne_nil hnil) j)
    refine ⟨_, (List.mem_filter.mp htarget).1, (List.mem_filter.mp htarget).2, ?_⟩
    rw [focusWindowInDirection1, dif_neg hnil]
    simp only [← hsorted, hj]

/-! ## Commands -/

def focusWindowOfSameLayoutInDirection (fuel : Nat) (dir : Direction)
    (considerWins : ConsiderWindows) (ticks : TickMap) (swayRoot : Node)
    (h : DistinctIds swayRoot) : Except Panic (Option Int) :=
  match ((readTree swayRoot h).getWindows ticks).find? (·.node.focused) with
  | some curWin =>
      focusWindowInDirection fuel dir considerWins ticks (sameLayoutAs curWin) swayRoot h
  | none => .ok none

/-- Nothing happens for criteria that do not parse. -/
def focusMatchingWindowInDirection (E : RegexEngine) (fuel : Nat) (dir : Direction)
    (criteria : String) (ticks : TickMap) (swayRoot : Node) (h : DistinctIds swayRoot) :
    Except Panic (Option Int) :=
  let wins := (readTree swayRoot h).getWindows ticks
  match (parseCriteria criteria : Option (Criterion E)) with
  | some crits =>
      focusWindowInDirection1 fuel wins dir ticks (criterionToPredicate crits wins)
  | none => .ok none

end Cmds

end Swayr
