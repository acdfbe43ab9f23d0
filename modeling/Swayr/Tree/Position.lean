import Mathlib.Data.List.Nodup
import Swayr.Ipc.Node

/-!
# Positions in a node tree

Two places of a tree may hold equal nodes, so what a traversal yields is counted
by position: the steps that lead down from the root, each to a tiled or to a
floating child. `positions` enumerates them in the order of the recursive
traversal.
-/

namespace Swayr.Ipc

/-- One step down, to the tiled or floating child with the given index. -/
inductive Step
  | tiled (i : Nat)
  | floating (i : Nat)
deriving DecidableEq, Repr

abbrev Position := List Step

namespace Node

def child? (n : Node) : Step → Option Node
  | .tiled i => n.nodes[i]?
  | .floating i => n.floatingNodes[i]?

/-- The node at a position below `n`. -/
def at? (n : Node) : Position → Option Node
  | [] => some n
  | s :: p => (n.child? s).bind fun c => c.at? p

mutual
/-- The positions of a tree in the order of the recursive traversal. -/
def positions : Node → List Position
  | mk _ ns fs => [] :: (positionsRev .tiled 0 ns ++ positionsRev .floating 0 fs)
/-- The positions below siblings, the first of which is reached by `step i`. -/
def positionsRev (step : Nat → Step) (i : Nat) : List Node → List Position
  | [] => []
  | n :: ns => positionsRev step (i + 1) ns ++ (positions n).map (step i :: ·)
end

theorem positions_eq (n : Node) :
    n.positions =
      [] :: (positionsRev .tiled 0 n.nodes ++ positionsRev .floating 0 n.floatingNodes) := by
  cases n with
  | mk p ns fs => rw [positions]; rfl

/-- The node itself is the first position, and no other is empty. -/
theorem positions_eq_cons (n : Node) : ∃ below, n.positions = [] :: below ∧ [] ∉ below := by
  refine ⟨_, n.positions_eq, ?_⟩
  have hne : ∀ (step : Nat → Step) (i : Nat) (ns : List Node), [] ∉ positionsRev step i ns := by
    intro step i ns
    induction ns generalizing i with
    | nil => simp [positionsRev]
    | cons n ns ih => simp [positionsRev, ih]
  intro hmem
  rcases List.mem_append.mp hmem with hmem | hmem
  · exact hne _ _ _ hmem
  · exact hne _ _ _ hmem

/-! ## The block below a step -/

theorem mem_positionsRev {step : Nat → Step} {i : Nat} {ns : List Node} {q : Position}
    (h : q ∈ positionsRev step i ns) : ∃ j p, i ≤ j ∧ q = step j :: p := by
  induction ns generalizing i with
  | nil => simp [positionsRev] at h
  | cons n ns ih =>
      rw [positionsRev] at h
      rcases List.mem_append.mp h with h | h
      · obtain ⟨j, p, hj, rfl⟩ := ih h
        exact ⟨j, p, by omega, rfl⟩
      · obtain ⟨p, -, rfl⟩ := List.mem_map.mp h
        exact ⟨i, p, Nat.le_refl i, rfl⟩

/-- The positions below one child stand together. -/
theorem positionsRev_split {step : Nat → Step} (hstep : Function.Injective step) {i j : Nat}
    {ns : List Node} {c : Node} (h : ns[j]? = some c) :
    ∃ before after, positionsRev step i ns =
        before ++ c.positions.map (step (i + j) :: ·) ++ after ∧
      ∀ q ∈ before ++ after, q.head? ≠ some (step (i + j)) := by
  -- Later siblings come first: the first child's positions stand at the end.
  induction ns generalizing i j with
  | nil => simp at h
  | cons n ns ih =>
      cases j with
      | zero =>
          obtain rfl : n = c := by simpa using h
          refine ⟨positionsRev step (i + 1) ns, [], by simp [positionsRev], ?_⟩
          intro q hq heq
          rw [List.append_nil] at hq
          obtain ⟨k, p, hk, rfl⟩ := mem_positionsRev hq
          have : k = i := hstep (Option.some.inj heq)
          omega
      | succ j =>
          obtain ⟨before, after, heq, hother⟩ := ih (i := i + 1) (by simpa using h)
          have hij : i + 1 + j = i + (j + 1) := by omega
          rw [hij] at heq hother
          refine ⟨before, after ++ n.positions.map (step i :: ·), by simp [positionsRev, heq], ?_⟩
          intro q hq
          rw [← List.append_assoc, List.mem_append] at hq
          rcases hq with hq | hq
          · exact hother q hq
          · obtain ⟨p, -, rfl⟩ := List.mem_map.mp hq
            intro heq
            have : i = i + (j + 1) := hstep (Option.some.inj heq)
            omega

/-- The positions below a child form a contiguous block. -/
theorem positions_split {n c : Node} {s : Step} (h : n.child? s = some c) :
    ∃ before after, n.positions = before ++ c.positions.map (s :: ·) ++ after ∧
      ∀ q ∈ before ++ after, q.head? ≠ some s := by
  cases s with
  | tiled i =>
      obtain ⟨before, after, heq, hother⟩ :=
        positionsRev_split (i := 0) (fun _ _ h => Step.tiled.inj h) h
      rw [Nat.zero_add] at heq hother
      refine ⟨[] :: before, after ++ positionsRev .floating 0 n.floatingNodes, ?_, ?_⟩
      · rw [positions_eq, heq]
        simp
      · intro q hq
        rw [← List.append_assoc, List.mem_append, List.cons_append, List.mem_cons] at hq
        rcases hq with (rfl | hq) | hq
        · simp
        · exact hother q hq
        · obtain ⟨j, p, -, rfl⟩ := mem_positionsRev hq
          simp
  | floating i =>
      obtain ⟨before, after, heq, hother⟩ :=
        positionsRev_split (i := 0) (fun _ _ h => Step.floating.inj h) h
      rw [Nat.zero_add] at heq hother
      refine ⟨[] :: positionsRev .tiled 0 n.nodes ++ before, after, ?_, ?_⟩
      · rw [positions_eq, heq]
        simp
      · intro q hq
        rw [List.append_assoc, List.cons_append, List.mem_cons, List.mem_append] at hq
        rcases hq with rfl | hq | hq
        · simp
        · obtain ⟨j, p, -, rfl⟩ := mem_positionsRev hq
          simp
        · exact hother q hq

theorem cons_mem_positionsRev {step : Nat → Step} (hstep : Function.Injective step) {i k : Nat}
    {ns : List Node} {p : Position} (h : step k :: p ∈ positionsRev step i ns) :
    ∃ j c, k = i + j ∧ ns[j]? = some c ∧ p ∈ c.positions := by
  induction ns generalizing i with
  | nil => simp [positionsRev] at h
  | cons n ns ih =>
      rw [positionsRev] at h
      rcases List.mem_append.mp h with h | h
      · obtain ⟨j, c, hk, hc, hp⟩ := ih h
        exact ⟨j + 1, c, by omega, by simpa using hc, hp⟩
      · obtain ⟨q, hq, heq⟩ := List.mem_map.mp h
        obtain ⟨hki, rfl⟩ := List.cons.inj heq
        exact ⟨0, n, (hstep hki).symm, rfl, hq⟩

/-- A position below a node goes through one of its children. -/
theorem cons_mem_positions {n : Node} {s : Step} {p : Position} :
    s :: p ∈ n.positions ↔ ∃ c, n.child? s = some c ∧ p ∈ c.positions := by
  constructor
  · intro h
    rw [positions_eq, List.mem_cons, List.mem_append] at h
    rcases h with h | h | h
    · simp at h
    · obtain ⟨k, q, -, heq⟩ := mem_positionsRev h
      obtain ⟨rfl, -⟩ := List.cons.inj heq
      obtain ⟨j, c, rfl, hc, hp⟩ := cons_mem_positionsRev (fun _ _ h => Step.tiled.inj h) h
      rw [Nat.zero_add]
      exact ⟨c, hc, hp⟩
    · obtain ⟨k, q, -, heq⟩ := mem_positionsRev h
      obtain ⟨rfl, -⟩ := List.cons.inj heq
      obtain ⟨j, c, rfl, hc, hp⟩ := cons_mem_positionsRev (fun _ _ h => Step.floating.inj h) h
      rw [Nat.zero_add]
      exact ⟨c, hc, hp⟩
  · rintro ⟨c, hc, hp⟩
    obtain ⟨before, after, heq, -⟩ := positions_split hc
    rw [heq]
    simp [hp]

/-- The enumeration holds the positions of the tree and no others. -/
theorem mem_positions {n : Node} {p : Position} : p ∈ n.positions ↔ (n.at? p).isSome := by
  induction p generalizing n with
  | nil =>
      obtain ⟨below, heq, -⟩ := n.positions_eq_cons
      simp [heq, at?]
  | cons s p ih =>
      rw [cons_mem_positions, at?]
      cases hc : n.child? s with
      | none => simp
      | some c => simp [ih]

/-! ## The nodes at the positions -/

mutual
theorem map_at?_positions : (n : Node) → n.positions.map n.at? = n.preorder.map some
  | mk p ns fs => by
      have hns := map_at?_positionsRev .tiled (mk p ns fs) ns 0 fun j => by
        simp [child?, nodes]
      have hfs := map_at?_positionsRev .floating (mk p ns fs) fs 0 fun j => by
        simp [child?, floatingNodes]
      simp only [positions, preorder, List.map_cons, List.map_append, at?, hns, hfs]
theorem map_at?_positionsRev (step : Nat → Step) (m : Node) : (ns : List Node) → (i : Nat) →
    (∀ j, m.child? (step (i + j)) = ns[j]?) →
    (positionsRev step i ns).map m.at? = (preorderRev ns).map some
  | [], _, _ => rfl
  | n :: ns, i, h => by
      have hrest := map_at?_positionsRev step m ns (i + 1) fun j => by
        have := h (j + 1)
        rw [List.getElem?_cons_succ] at this
        rwa [Nat.add_assoc, Nat.add_comm 1 j]
      have hfirst : m.child? (step i) = some n := by simpa using h 0
      have hhere : m.at? ∘ (step i :: ·) = n.at? := by
        funext p
        simp [at?, hfirst]
      simp only [positionsRev, preorderRev, List.map_append, hrest, List.map_map, hhere,
        map_at?_positions n]
end

/-- No position is listed twice. -/
theorem nodup_positions (n : Node) : n.positions.Nodup := by
  induction n using Node.induct with
  | h n ih =>
      have hrev : ∀ (step : Nat → Step), Function.Injective step → ∀ ns : List Node,
          (∀ c ∈ ns, c.positions.Nodup) → ∀ i, (positionsRev step i ns).Nodup := by
        intro step hstep ns
        induction ns with
        | nil => simp [positionsRev]
        | cons c ns ihns =>
            intro hns i
            rw [positionsRev]
            refine (ihns (fun d hd => hns d (List.mem_cons_of_mem c hd)) (i + 1)).append
              ((hns c List.mem_cons_self).map fun _ _ h => (List.cons.inj h).2) ?_
            -- later siblings are reached by later steps
            intro q hq hq'
            obtain ⟨j, p, hj, rfl⟩ := mem_positionsRev hq
            obtain ⟨p', -, heq⟩ := List.mem_map.mp hq'
            have : i = j := hstep (List.cons.inj heq).1
            omega
      obtain ⟨below, heq, hnil⟩ := n.positions_eq_cons
      have hbelow := List.cons.inj (heq.symm.trans n.positions_eq)
      rw [heq, List.nodup_cons]
      refine ⟨hnil, ?_⟩
      rw [hbelow.2]
      refine (hrev _ (fun _ _ h => Step.tiled.inj h) _ (fun c hc => ih c ?_) 0).append
        (hrev _ (fun _ _ h => Step.floating.inj h) _ (fun c hc => ih c ?_) 0) ?_
      · simp [children, hc]
      · simp [children, hc]
      · intro q hq hq'
        obtain ⟨j, p, -, rfl⟩ := mem_positionsRev hq
        obtain ⟨k, p', -, heq⟩ := mem_positionsRev hq'
        simp at heq

/-! ## Subtrees and siblings -/

/-- A position is followed by all positions below it, and by no other before the
last of these. -/
theorem positions_block {n : Node} {p : Position} (hp : p ∈ n.positions) :
    ∃ before below after, n.positions = before ++ (p :: below) ++ after ∧
      ∀ q, q ∈ p :: below ↔ q ∈ n.positions ∧ p <+: q := by
  induction p generalizing n with
  | nil =>
      obtain ⟨below, heq, -⟩ := n.positions_eq_cons
      exact ⟨[], below, [], by simp [heq], by simp [heq]⟩
  | cons s p ih =>
      obtain ⟨c, hc, hp⟩ := cons_mem_positions.mp hp
      -- The block of `p` in the child lies inside the child's block.
      obtain ⟨left, right, hsplit, hother⟩ := positions_split hc
      obtain ⟨before, below, after, heq, hblock⟩ := ih hp
      refine ⟨left ++ before.map (s :: ·), below.map (s :: ·), after.map (s :: ·) ++ right,
        by simp [hsplit, heq], ?_⟩
      intro q
      constructor
      · intro hq
        obtain ⟨q, hq', rfl⟩ : ∃ q', q' ∈ p :: below ∧ s :: q' = q := by
          simpa [eq_comm] using hq
        obtain ⟨hmem, hpre⟩ := (hblock q).mp hq'
        exact ⟨cons_mem_positions.mpr ⟨c, hc, hmem⟩, by simpa using hpre⟩
      · rintro ⟨hq, t, rfl⟩
        rw [List.cons_append] at hq
        obtain ⟨c', hc', hmem⟩ := cons_mem_positions.mp hq
        obtain rfl : c = c' := Option.some.inj (hc.symm.trans hc')
        have := (hblock (p ++ t)).mpr ⟨hmem, t, rfl⟩
        simpa using this

/-- What lies below a tiled child comes before what lies below a floating one. -/
theorem tiled_before_floating {n : Node} {p q r : Position} {i j : Nat}
    (hq : p ++ .tiled i :: q ∈ n.positions) (hr : p ++ .floating j :: r ∈ n.positions) :
    [p ++ .tiled i :: q, p ++ .floating j :: r].Sublist n.positions := by
  -- Down the common path, and then the two positions part.
  induction p generalizing n with
  | nil =>
      rw [List.nil_append, positions_eq, List.mem_cons, List.mem_append] at hq hr
      have htiled : Step.tiled i :: q ∈ positionsRev .tiled 0 n.nodes := by
        rcases hq with hq | hq | hq
        · simp at hq
        · exact hq
        · obtain ⟨_, _, -, heq⟩ := mem_positionsRev hq
          simp at heq
      have hfloating : Step.floating j :: r ∈ positionsRev .floating 0 n.floatingNodes := by
        rcases hr with hr | hr | hr
        · simp at hr
        · obtain ⟨_, _, -, heq⟩ := mem_positionsRev hr
          simp at heq
        · exact hr
      rw [positions_eq]
      exact .cons _ ((List.singleton_sublist.mpr htiled).append
        (List.singleton_sublist.mpr hfloating))
  | cons s p ih =>
      obtain ⟨c, hc, hq⟩ := cons_mem_positions.mp hq
      obtain ⟨c', hc', hr⟩ := cons_mem_positions.mp hr
      obtain rfl : c = c' := Option.some.inj (hc.symm.trans hc')
      obtain ⟨before, after, heq, -⟩ := positions_split hc
      rw [heq]
      exact ((ih hq hr).map (s :: ·)).trans
        ((List.sublist_append_right before _).trans (List.sublist_append_left _ after))

end Node

end Swayr.Ipc
