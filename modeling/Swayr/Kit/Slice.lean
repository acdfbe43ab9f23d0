import Mathlib.Data.List.Sort
import Mathlib.Data.List.Rotate

/-!
# Slices and iterators

The operations of Rust's slices and iterators that programs are written with,
over comparison functions that return an `Ordering`: the stable `sort_by` and
`max_by`, which keeps the last of several maxima.
-/

namespace Kit

variable {α β : Type*}

/-- `slice::sort_by`. Insertion sort is stable, and so is Rust's sort; with a
comparison that is a total preorder the result is thereby determined. -/
def sortBy (cmp : α → α → Ordering) (l : List α) : List α :=
  l.insertionSort fun a b => (cmp a b).isLE

/-- Sorting loses nothing and adds nothing. -/
theorem sortBy_perm (cmp : α → α → Ordering) (l : List α) : (sortBy cmp l).Perm l :=
  List.perm_insertionSort _ l

@[simp] theorem mem_sortBy {cmp : α → α → Ordering} {l : List α} {a : α} :
    a ∈ sortBy cmp l ↔ a ∈ l :=
  (sortBy_perm cmp l).mem_iff

/-- Sorting commutes with a map the comparison does not see. -/
theorem map_sortBy {cmp : α → α → Ordering} {cmp' : β → β → Ordering} (f : α → β)
    (h : ∀ a b, cmp' (f a) (f b) = cmp a b) (l : List α) :
    (sortBy cmp l).map f = sortBy cmp' (l.map f) :=
  List.map_insertionSort _ _ f l fun a _ b _ => by rw [h]

/-- Sorting asks only for comparisons of the members. -/
theorem sortBy_congr {cmp cmp' : α → α → Ordering} {l : List α}
    (h : ∀ a ∈ l, ∀ b ∈ l, cmp a b = cmp' a b) : sortBy cmp l = sortBy cmp' l := by
  have hmap : (sortBy cmp l).map id = sortBy cmp' (l.map id) :=
    List.map_insertionSort _ _ id l fun a ha b hb => by rw [h a ha b hb]; rfl
  rwa [List.map_id, List.map_id] at hmap

/-- With a comparison that is a total preorder the result is sorted. -/
theorem pairwise_sortBy {cmp : α → α → Ordering}
    (htotal : ∀ a b, (cmp a b).isLE = true ∨ (cmp b a).isLE = true)
    (htrans : ∀ a b c, (cmp a b).isLE = true → (cmp b c).isLE = true → (cmp a c).isLE = true)
    (l : List α) : (sortBy cmp l).Pairwise fun a b => (cmp a b).isLE = true :=
  have : Std.Total fun a b => (cmp a b).isLE = true := ⟨htotal⟩
  have : IsTrans α fun a b => (cmp a b).isLE = true := ⟨htrans⟩
  List.pairwise_insertionSort _ l

/-- `rotate_left(1)` on a sorted slice, some entries being left out afterwards: what
remains is sorted only if the entry that was moved is left out, or if nothing
distinguishes the others. -/
theorem pairwise_filter_rotate_one {R : α → α → Prop} (hrefl : ∀ a, R a a)
    (htrans : ∀ a b c, R a b → R b c → R a c) {v : List α} (h : v.Pairwise R) (p : α → Bool) :
    ((v.rotate 1).filter p).Pairwise R ↔
      (∃ x, v.head? = some x ∧ p x = false) ∨ ∀ a ∈ v, p a → ∀ b ∈ v, p b → R a b := by
  cases v with
  | nil => simp
  | cons x rest =>
      obtain ⟨hx, hrest⟩ := List.pairwise_cons.mp h
      rw [show (x :: rest).rotate 1 = rest ++ [x] by simp, List.filter_append]
      -- The element that is put last is filtered out, or it has to be related to all the others
      -- in both directions.
      cases hp : p x with
      | false => simpa [hp] using hrest.filter p
      | true =>
          rw [List.filter_cons_of_pos hp, List.filter_nil, List.pairwise_append]
          constructor
          · rintro ⟨-, -, hlast⟩
            have hle : ∀ a ∈ x :: rest, p a → R a x := by
              intro a ha hpa
              rcases List.mem_cons.mp ha with rfl | ha
              · exact hrefl a
              · exact hlast a (List.mem_filter.mpr ⟨ha, hpa⟩) x List.mem_cons_self
            refine .inr ?_
            intro a ha hpa b hb hpb
            apply htrans a x b (hle a ha hpa)
            rcases List.mem_cons.mp hb with rfl | hb
            · exact hrefl b
            · exact hx b hb
          · rintro (⟨y, hy, hpy⟩ | hties)
            · obtain rfl : x = y := by simpa using hy
              rw [hp] at hpy
              simp at hpy
            · refine ⟨hrest.filter p, List.pairwise_singleton R x, ?_⟩
              intro a ha b hb
              obtain ⟨ha, hpa⟩ := List.mem_filter.mp ha
              obtain rfl := List.mem_singleton.mp hb
              exact hties a (List.mem_cons_of_mem b ha) hpa b List.mem_cons_self hp

/-- `Iterator::max_by`: of two equal maxima the later one is kept. -/
def maxBy (cmp : α → α → Ordering) : List α → Option α
  | [] => none
  | a :: rest => some (rest.foldl (fun x y => if cmp x y = .gt then x else y) a)

@[simp] theorem maxBy_nil (cmp : α → α → Ordering) : maxBy cmp [] = none := rfl

theorem maxBy_eq_none {cmp : α → α → Ordering} {l : List α} : maxBy cmp l = none ↔ l = [] := by
  cases l <;> simp [maxBy]

section key

variable {κ : Type*} [LinearOrder κ] (key : α → κ)

/-- Folding with the later of two maxima: the result is a member and no key
exceeds its key. -/
theorem foldl_max_spec (a : α) (l : List α) :
    let m := l.foldl (fun x y => if compare (key x) (key y) = .gt then x else y) a
    (m = a ∨ m ∈ l) ∧ key a ≤ key m ∧ ∀ b ∈ l, key b ≤ key m := by
  induction l generalizing a with
  | nil => simp
  | cons b l ih =>
      simp only [List.foldl_cons]
      -- The accumulator survives only a strictly smaller key, so the last maximum wins.
      by_cases hgt : compare (key a) (key b) = .gt
      · obtain ⟨hmem, hle, hall⟩ := ih a
        rw [if_pos hgt]
        have hba : key b ≤ key a := (compare_gt_iff_gt.mp hgt).le
        refine ⟨hmem.imp_right (List.mem_cons_of_mem _), hle, ?_⟩
        rintro c (_ | ⟨_, hc⟩)
        · exact hba.trans hle
        · exact hall c hc
      · obtain ⟨hmem, hle, hall⟩ := ih b
        rw [if_neg hgt]
        have hab : key a ≤ key b := not_lt.mp fun h => hgt (compare_gt_iff_gt.mpr h)
        refine ⟨.inr ?_, hab.trans hle, ?_⟩
        · rcases hmem with h | h
          · rw [h]
            exact List.mem_cons_self
          · exact List.mem_cons_of_mem _ h
        · rintro c (_ | ⟨_, hc⟩)
          · exact hle
          · exact hall c hc

/-- The element found has the greatest key. -/
theorem maxBy_spec {l : List α} {m : α}
    (h : maxBy (fun a b => compare (key a) (key b)) l = some m) :
    m ∈ l ∧ ∀ b ∈ l, key b ≤ key m := by
  cases l with
  | nil => simp at h
  | cons a l =>
      obtain ⟨hmem, hle, hall⟩ := foldl_max_spec key a l
      obtain rfl := Option.some.inj h
      refine ⟨List.mem_cons.mpr hmem, ?_⟩
      rintro c (_ | ⟨_, hc⟩)
      · exact hle
      · exact hall c hc

end key

end Kit
