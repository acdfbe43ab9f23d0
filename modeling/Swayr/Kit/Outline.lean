import Mathlib.Data.List.Basic

/-!
# Outlines

A list of entries with levels is an outline of a forest if the levels alone say
where each entry belongs: below the nearest entry before it that has a smaller
level. A recursive traversal builds outlines, which is what the rules say.
-/

namespace Kit

variable {α β : Type*} {parent : α → α → Prop} {level : α → Nat} {k : Nat} {l l' : List α}

/-- The top entries have level `k`. For every other entry the nearest one before
it with a smaller level is its parent, one level up. -/
def Outline (parent : α → α → Prop) (level : α → Nat) (k : Nat) (l : List α) : Prop :=
  ∀ before e after, l = before ++ e :: after →
    level e = k ∨ k < level e ∧ ∃ above p between, before = above ++ p :: between ∧
      parent p e ∧ level e = level p + 1 ∧ ∀ m ∈ between, level e ≤ level m

namespace Outline

theorem nil : Outline parent level k [] := by
  intro before e after h
  simp at h

/-- Entries that stand for those of an outline. -/
theorem of_map {f : β → α} {v : List β} (h : Outline parent level k (v.map f)) :
    Outline (fun p c => parent (f p) (f c)) (fun b => level (f b)) k v := by
  intro before e after heq
  have hmap : v.map f = before.map f ++ f e :: after.map f := by
    rw [heq, List.map_append, List.map_cons]
  rcases h _ _ _ hmap with htop | ⟨hlt, above, p, between, hbefore, hparent, hlevel, hbetween⟩
  · exact .inl htop
  · obtain ⟨above, rest, rfl, rfl, hrest⟩ := List.map_eq_append_iff.mp hbefore
    obtain ⟨p, between, rfl, rfl, rfl⟩ := List.map_eq_cons_iff.mp hrest
    refine .inr ⟨hlt, above, p, between, rfl, hparent, hlevel, ?_⟩
    intro m hm
    exact hbetween (f m) (List.mem_map_of_mem hm)

/-- No entry is above the level of the outline. -/
theorem le_level (h : Outline parent level k l) {e : α} (he : e ∈ l) : k ≤ level e := by
  obtain ⟨before, after, rfl⟩ := List.append_of_mem he
  rcases h before e after rfl with htop | ⟨hlt, -⟩
  · omega
  · omega

/-- Outlines of one level can be put one behind the other. -/
theorem append (h : Outline parent level k l) (h' : Outline parent level k l') :
    Outline parent level k (l ++ l') := by
  intro before e after heq
  have hright : ∀ first, before = l ++ first → l' = first ++ e :: after →
      level e = k ∨ k < level e ∧ ∃ above p between, before = above ++ p :: between ∧
        parent p e ∧ level e = level p + 1 ∧ ∀ m ∈ between, level e ≤ level m := by
    intro first hbefore hl'
    apply (h' first e after hl').imp_right
    rintro ⟨hlt, above, p, between, rfl, hparent, hlevel, hbetween⟩
    exact ⟨hlt, l ++ above, p, between, by simp [hbefore], hparent, hlevel, hbetween⟩
  rcases List.append_eq_append_iff.mp heq with ⟨first, hbefore, hl'⟩ | ⟨last, hl, hlast⟩
  · exact hright first hbefore hl'
  · cases last with
    | nil => exact hright [] (by simpa using hl.symm) (by simpa using hlast.symm)
    | cons e' last =>
        obtain ⟨rfl, -⟩ := List.cons.inj hlast
        exact h before e last hl

theorem flatMap {bs : List β} {f : β → List α} (h : ∀ b ∈ bs, Outline parent level k (f b)) :
    Outline parent level k (bs.flatMap f) := by
  induction bs with
  | nil => exact nil
  | cons b bs ih =>
      rw [List.flatMap_cons]
      exact (h b List.mem_cons_self).append (ih fun b' hb' => h b' (List.mem_cons_of_mem b hb'))

/-- An entry followed by the outline of its children. -/
theorem cons {n : α} (hn : level n = k) (h : Outline parent level (k + 1) l)
    (hparent : ∀ e ∈ l, level e = k + 1 → parent n e) : Outline parent level k (n :: l) := by
  intro before e after heq
  cases before with
  | nil =>
      obtain ⟨rfl, -⟩ := List.cons.inj heq
      exact .inl hn
  | cons first before =>
      obtain ⟨rfl, hl⟩ := List.cons.inj heq
      have he : e ∈ l := by simp [hl]
      refine .inr ⟨h.le_level he, ?_⟩
      rcases h before e after hl with htop | ⟨-, above, p, between, rfl, hp, hlevel, hbetween⟩
      · refine ⟨[], n, before, rfl, hparent e he htop, by omega, ?_⟩
        intro m hm
        have := h.le_level (e := m) (by simp [hl, hm])
        omega
      · exact ⟨n :: above, p, between, rfl, hp, hlevel, hbetween⟩

end Outline

end Kit
