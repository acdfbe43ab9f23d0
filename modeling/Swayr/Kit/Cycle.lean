import Mathlib.GroupTheory.Perm.Cycle.Basic
import Mathlib.GroupTheory.Perm.List

/-!
# Cyclic iteration

`iter().cycle()` over a non-empty list, and the loop that reads such an
iterator until an item passes a test and then returns the item after it. Where
exactly one key passes the test, the loop computes the cyclic permutation
`List.formPerm` of the keys (`scanNext_cycleAt`), and repeating it visits every
key once before it comes back (`cycle_orbit`).
-/

namespace Kit

variable {α κ : Type*}

/-- Item number `i` of the endless iteration over a non-empty list. -/
def cycleAt (l : List α) (h : l ≠ []) (i : ℕ) : α :=
  l.get ⟨i % l.length, Nat.mod_lt i (List.length_pos_iff.mpr h)⟩

/-- Read items from number `i` on until one passes the test, and return the
next one; `none` if that takes more than `fuel` items. -/
def scanNext (item : ℕ → α) (p : α → Bool) : (fuel : ℕ) → (i : ℕ) → Option α
  | 0, _ => none
  | fuel + 1, i => if p (item i) then some (item (i + 1)) else scanNext item p fuel (i + 1)

/-- The search ends at the first item that passes and returns the one behind it. -/
theorem scanNext_eq {item : ℕ → α} {p : α → Bool} {k : ℕ} (hk : p (item k) = true)
    (i d : ℕ) (hd : i + d = k) (hbefore : ∀ j, i ≤ j → j < k → p (item j) = false)
    {fuel : ℕ} (hfuel : d < fuel) : scanNext item p fuel i = some (item (k + 1)) := by
  induction d generalizing i fuel with
  | zero =>
      obtain ⟨fuel, rfl⟩ : ∃ m, fuel = m + 1 := ⟨fuel - 1, by omega⟩
      obtain rfl : i = k := by omega
      simp [scanNext, hk]
  | succ d ih =>
      obtain ⟨fuel, rfl⟩ : ∃ m, fuel = m + 1 := ⟨fuel - 1, by omega⟩
      rw [scanNext, hbefore i (Nat.le_refl _) (by omega)]
      exact ih (i + 1) (by omega) (fun j hj => hbefore j (by omega)) (by omega)

/-- The loop ends if one of the items passes the test, and returns an item. -/
theorem exists_scanNext {item : ℕ → α} {p : α → Bool} {fuel i : ℕ}
    (h : ∃ k, i ≤ k ∧ k < i + fuel ∧ p (item k) = true) :
    ∃ j, scanNext item p fuel i = some (item j) := by
  induction fuel generalizing i with
  | zero =>
      obtain ⟨k, hik, hk, -⟩ := h
      omega
  | succ fuel ih =>
      rw [scanNext]
      split
      · exact ⟨i + 1, rfl⟩
      · rename_i hi
        obtain ⟨k, hik, hk, hpk⟩ := h
        have hne : k ≠ i := by
          rintro rfl
          exact hi hpk
        exact ih ⟨k, by omega, by omega, hpk⟩

theorem cycleAt_mem {l : List α} (h : l ≠ []) (i : ℕ) : cycleAt l h i ∈ l :=
  List.get_mem l _

theorem cycleAt_congr {l l' : List α} (heq : l = l') (h : l ≠ []) (h' : l' ≠ []) :
    cycleAt l h = cycleAt l' h' := by
  subst heq
  rfl

/-- The first turn goes through the list itself. -/
theorem cycleAt_of_lt {l : List α} (h : l ≠ []) {i : ℕ} (hi : i < l.length) :
    cycleAt l h i = l[i] := by
  simp [cycleAt, Nat.mod_eq_of_lt hi]

section

variable [DecidableEq κ]

/-- If the test is for one key `g`, the loop returns an item with the key that
follows `g` cyclically, and it does not read more items than the list has. -/
theorem scanNext_cycleAt {l : List α} (h : l ≠ []) {key : α → κ} (hnodup : (l.map key).Nodup)
    {p : α → Bool} {g : κ} (hg : g ∈ l.map key)
    (hp : ∀ a ∈ l, p a = true ↔ key a = g) {fuel : ℕ} (hfuel : l.length ≤ fuel) :
    ∃ a, scanNext (cycleAt l h) p fuel 0 = some a ∧ key a = (l.map key).formPerm g := by
  obtain ⟨k, hk, rfl⟩ := List.getElem_of_mem hg
  have hlen : k < l.length := by simpa using hk
  refine ⟨cycleAt l h (k + 1), scanNext_eq ?_ 0 k (by omega) ?_ (by omega), ?_⟩
  · rw [hp _ (cycleAt_mem h k), cycleAt_of_lt h hlen, List.getElem_map]
  · intro j _ hj
    rw [← Bool.not_eq_true, hp _ (cycleAt_mem h j), cycleAt_of_lt h (by omega),
      ← List.getElem_map key (h := by simp; omega), hnodup.getElem_inj_iff]
    omega
  · rw [List.formPerm_apply_getElem _ hnodup]
    simp [cycleAt]

/-- Iterating the cyclic permutation of a list from one of its members visits
every member exactly once and then returns. -/
theorem cycle_orbit {L : List κ} (hnodup : L.Nodup) {σ : Equiv.Perm κ}
    (hσ : σ.IsCycleOn { a | a ∈ L }) {g : κ} (hg : g ∈ L) :
    ((List.range L.length).map fun k => (σ ^ k) g).Perm L ∧ (σ ^ L.length) g = g := by
  have hset : (L.toFinset : Set κ) = { a | a ∈ L } := by
    ext
    simp
  have hcycle : σ.IsCycleOn (L.toFinset : Set κ) := hset ▸ hσ
  have hgs : g ∈ L.toFinset := List.mem_toFinset.mpr hg
  have hcard : L.toFinset.card = L.length := List.toFinset_card_of_nodup hnodup
  constructor
  · -- As many distinct elements of `L` as it has.
    have hinj : ((List.range L.length).map fun k => (σ ^ k) g).Nodup := by
      refine List.Nodup.map_on (fun i hi j hj hij => ?_) List.nodup_range
      rw [hcycle.pow_apply_eq_pow_apply hgs, hcard] at hij
      exact Nat.ModEq.eq_of_lt_of_lt hij (List.mem_range.mp hi) (List.mem_range.mp hj)
    have hsub : ((List.range L.length).map fun k => (σ ^ k) g) ⊆ L := by
      intro a ha
      obtain ⟨k, -, rfl⟩ := List.mem_map.mp ha
      exact hσ.1.mapsTo.perm_pow k hg
    exact (List.subperm_of_subset hinj hsub).perm_of_length_le (by simp)
  · rw [← hcard]
    exact hcycle.pow_card_apply hgs

end

end Kit
