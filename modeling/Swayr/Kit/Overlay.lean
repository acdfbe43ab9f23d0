import Mathlib.Data.List.Forall2
import Mathlib.Data.List.Perm.Basic

/-!
# Last writer wins

A list of writers, each of which sets some keys, leaves for every key the value of
the last one that sets it (`overlay`). If the writers come in batches and the
order within a batch is anybody's guess, the values a key can get are those of the
writers in the last batch that has a writer for it (`exists_reordered_iff`).
-/

namespace Kit

variable {φ κ ν : Type*} (sets : φ → κ → Option ν)

/-- What is left for `k` by the writers `fs`. -/
def overlay (fs : List φ) (k : κ) : Option ν := fs.foldl (fun v f => (sets f k).or v) none

/-- The initial value shows where nothing is set. -/
theorem foldl_or (fs : List φ) (k : κ) (v : Option ν) :
    fs.foldl (fun v f => (sets f k).or v) v = (overlay sets fs k).or v := by
  unfold overlay
  induction fs generalizing v with
  | nil => rfl
  | cons f fs ih =>
      rw [List.foldl_cons, List.foldl_cons, ih, ih ((sets f k).or none), Option.or_none,
        Option.or_assoc]

@[simp] theorem overlay_nil (k : κ) : overlay sets [] k = none := rfl

/-- Later layers hide earlier ones. -/
theorem overlay_append (fs gs : List φ) (k : κ) :
    overlay sets (fs ++ gs) k = (overlay sets gs k).or (overlay sets fs k) := by
  show (fs ++ gs).foldl _ _ = _
  rw [List.foldl_append, foldl_or]
  rfl

@[simp] theorem overlay_singleton (f : φ) (k : κ) : overlay sets [f] k = sets f k := by
  show (sets f k).or none = _
  exact Option.or_none

theorem overlay_cons (f : φ) (fs : List φ) (k : κ) :
    overlay sets (f :: fs) k = (overlay sets fs k).or (sets f k) := by
  rw [← List.singleton_append, overlay_append, overlay_singleton]

variable {sets} {k : κ} {v : ν}

/-- Entries that set nothing may be left out. -/
theorem overlay_filter {p : φ → Bool} (h : ∀ f, p f = false → sets f k = none) (fs : List φ) :
    overlay sets (fs.filter p) k = overlay sets fs k := by
  induction fs with
  | nil => rfl
  | cons f fs ih =>
      rw [List.filter_cons, overlay_cons]
      split
      · rw [overlay_cons, ih]
      · rename_i hp
        rw [ih, h f (by simpa using hp), Option.or_none]

/-- A key without a value is one that no layer sets. -/
theorem overlay_eq_none_iff {fs : List φ} :
    overlay sets fs k = none ↔ ∀ f ∈ fs, sets f k = none := by
  induction fs with
  | nil => simp
  | cons f fs ih =>
      rw [overlay_cons, Option.or_eq_none_iff, ih, List.forall_mem_cons]
      exact and_comm

/-- Every value comes from one of the layers. -/
theorem exists_of_overlay {fs : List φ} (h : overlay sets fs k = some v) :
    ∃ f ∈ fs, sets f k = some v := by
  induction fs with
  | nil => simp at h
  | cons f fs ih =>
      rw [overlay_cons, Option.or_eq_some_iff] at h
      rcases h with h | ⟨-, h⟩
      · obtain ⟨g, hg, hset⟩ := ih h
        exact ⟨g, List.mem_cons_of_mem f hg, hset⟩
      · exact ⟨f, List.mem_cons_self, h⟩

/-! ## Batches -/

/-- The same batches, each in an order of its own. -/
def Reordered (batches batches' : List (List φ)) : Prop := List.Forall₂ List.Perm batches batches'

theorem Reordered.refl (batches : List (List φ)) : Reordered batches batches :=
  List.forall₂_same.mpr fun _ _ => .refl _

/-- Reordering within the batches reorders the whole. -/
theorem Reordered.perm_flatten {batches batches' : List (List φ)}
    (h : Reordered batches batches') : batches.flatten.Perm batches'.flatten := by
  induction h with
  | nil => exact .refl _
  | cons hd _ ih => exact hd.append ih

/-- `f` writes `k`, and no batch behind the one it stands in has a writer of `k`. -/
def MayDecide (sets : φ → κ → Option ν) (batches : List (List φ)) (k : κ) (f : φ) : Prop :=
  ∃ before batch after, batches = before ++ batch :: after ∧ f ∈ batch ∧ sets f k ≠ none ∧
    ∀ g ∈ after.flatten, sets g k = none

/-- The values a key can get are those of the writers that may decide. -/
theorem exists_reordered_iff {batches : List (List φ)} :
    (∃ batches', Reordered batches batches' ∧ overlay sets batches'.flatten k = some v) ↔
      ∃ f, MayDecide sets batches k f ∧ sets f k = some v := by
  constructor
  · rintro ⟨batches', hre, h⟩
    induction hre with
    | nil => simp at h
    | @cons batch batch' rest rest' hperm hre ih =>
        rw [List.flatten_cons, overlay_append, Option.or_eq_some_iff] at h
        rcases h with h | ⟨hnone, h⟩
        · obtain ⟨f, ⟨before, b, after, rfl, hf⟩, hset⟩ := ih h
          exact ⟨f, ⟨batch :: before, b, after, rfl, hf⟩, hset⟩
        · -- nothing behind this batch writes the key
          obtain ⟨f, hf, hset⟩ := exists_of_overlay h
          have hrest : ∀ g ∈ rest.flatten, sets g k = none := fun g hg =>
            overlay_eq_none_iff.mp hnone g (Reordered.perm_flatten hre |>.mem_iff.mp hg)
          exact ⟨f, ⟨[], batch, rest, rfl, hperm.mem_iff.mpr hf, by simp [hset], hrest⟩, hset⟩
  · rintro ⟨f, ⟨before, batch, after, rfl, hf, -, hafter⟩, hset⟩
    obtain ⟨xs, ys, rfl⟩ := List.append_of_mem hf
    -- put `f` at the end of its batch
    refine ⟨before ++ (xs ++ ys ++ [f]) :: after, ?_, ?_⟩
    · refine List.rel_append (Reordered.refl before) (.cons ?_ (Reordered.refl after))
      exact List.perm_middle.trans (List.perm_append_singleton f (xs ++ ys)).symm
    · have hnone : overlay sets after.flatten k = none := overlay_eq_none_iff.mpr hafter
      rw [List.flatten_append, List.flatten_cons, overlay_append, overlay_append, hnone,
        Option.none_or, overlay_append, overlay_singleton, hset]
      rfl

/-- What is left does not depend on the orders exactly if the writers that may
decide a key agree on it. -/
theorem overlay_reordered_iff {batches : List (List φ)} :
    (∀ batches', Reordered batches batches' →
        overlay sets batches'.flatten = overlay sets batches.flatten) ↔
      ∀ k f g, MayDecide sets batches k f → MayDecide sets batches k g → sets f k = sets g k := by
  constructor
  · -- Whoever may decide does so in some order, and all orders agree.
    intro hsame k f g hf hg
    have hvalue : ∀ f, MayDecide sets batches k f →
        sets f k = overlay sets batches.flatten k := by
      intro f hf
      have hsome : sets f k ≠ none := by
        obtain ⟨-, -, -, -, -, hsome, -⟩ := hf
        exact hsome
      obtain ⟨v, hv⟩ := Option.ne_none_iff_exists'.mp hsome
      obtain ⟨batches', hre, hover⟩ := exists_reordered_iff.mpr ⟨f, hf, hv⟩
      rw [hv, ← hover, hsame batches' hre]
    rw [hvalue f hf, hvalue g hg]
  · intro hagree batches' hre
    funext k
    cases h : overlay sets batches'.flatten k with
    | none =>
        rw [overlay_eq_none_iff] at h
        exact (overlay_eq_none_iff.mpr fun f hf => h f (hre.perm_flatten.mem_iff.mp hf)).symm
    | some v =>
        obtain ⟨f, hf, hfv⟩ := exists_reordered_iff.mp ⟨batches', hre, h⟩
        cases h' : overlay sets batches.flatten k with
        | none =>
            rw [overlay_eq_none_iff] at h'
            obtain ⟨g, hg, hgv⟩ := exists_of_overlay h
            rw [h' g (hre.perm_flatten.mem_iff.mpr hg)] at hgv
            simp at hgv
        | some w =>
            obtain ⟨g, hg, hgw⟩ := exists_reordered_iff.mp ⟨batches, Reordered.refl _, h'⟩
            rw [← hfv, ← hgw, hagree k f g hf hg]

end Kit
