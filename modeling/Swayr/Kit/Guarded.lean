import Mathlib.Data.List.Induction

/-!
# Guarded systems

An interleaving of threads is a system whose labels say which thread moves
and how; a label whose guard fails in a state has no successor there. Given
the label the successor is unique, so a schedule (a list of labels) leads to
at most one state.
-/

namespace Kit

/-- A system with states `σ` moved by labels `α`; `none` is a failed guard. -/
structure Guarded (σ α : Type*) where
  step : σ → α → Option σ

namespace Guarded

variable {σ α : Type*} (M : Guarded σ α)

/-- The state a schedule leads to, if every guard along it holds. -/
def run : σ → List α → Option σ
  | s, [] => some s
  | s, a :: rest => (M.step s a).bind fun s' => run s' rest

@[simp] theorem run_nil (s : σ) : M.run s [] = some s := rfl

theorem run_append_singleton (s : σ) (as : List α) (a : α) :
    M.run s (as ++ [a]) = (M.run s as).bind fun s' => M.step s' a := by
  induction as generalizing s with
  | nil => simp [run]
  | cons b rest ih =>
      simp only [List.cons_append, run, Option.bind_assoc]
      exact congrArg _ (funext fun s' => ih s')

/-- A run can be cut anywhere. -/
theorem run_append (s : σ) (as bs : List α) :
    M.run s (as ++ bs) = (M.run s as).bind fun s' => M.run s' bs := by
  induction as generalizing s with
  | nil => rfl
  | cons a rest ih =>
      simp only [List.cons_append, run, Option.bind_assoc]
      exact congrArg _ (funext fun s' => ih s')

/-- **Schedule rule.** A relation between the schedule so far and the state it
leads to holds of every run if it holds initially and one more enabled label
preserves it. -/
theorem history {P : List α → σ → Prop} {s₀ : σ} (base : P [] s₀)
    (grow : ∀ as s a s', P as s → M.step s a = some s' → P (as ++ [a]) s') :
    ∀ as s, M.run s₀ as = some s → P as s := by
  intro as
  induction as using List.reverseRecOn with
  | nil => rintro s ⟨⟩; exact base
  | append_singleton rest a ih =>
      intro s hs
      rw [run_append_singleton] at hs
      obtain ⟨s₁, h₁, h₂⟩ := Option.bind_eq_some_iff.mp hs
      exact grow rest s₁ a s (ih s₁ h₁) h₂

/-- Some schedule with labels of one kind only leads from a state to another. -/
def Leads (own : α → Prop) (s s' : σ) : Prop :=
  ∃ as, (∀ a ∈ as, own a) ∧ M.run s as = some s'

namespace Leads

variable {M} {own : α → Prop} {s₁ s₂ s₃ : σ}

theorem refl (s : σ) : M.Leads own s s := ⟨[], by simp, rfl⟩

theorem step {a : α} (ha : own a) (h : M.step s₁ a = some s₂) : M.Leads own s₁ s₂ :=
  ⟨[a], by simpa using ha, by simp [run, h]⟩

/-- One way behind the other. -/
theorem trans (h₁ : M.Leads own s₁ s₂) (h₂ : M.Leads own s₂ s₃) : M.Leads own s₁ s₃ := by
  obtain ⟨as, has, hrun₁⟩ := h₁
  obtain ⟨bs, hbs, hrun₂⟩ := h₂
  refine ⟨as ++ bs, List.forall_mem_append.mpr ⟨has, hbs⟩, ?_⟩
  rw [run_append, hrun₁, Option.bind_some, hrun₂]

end Leads

end Guarded

/-- Where an entry of a schedule is once one more label has been added. -/
theorem append_singleton_eq_append_cons {α : Type*} {as before since : List α} {a b : α}
    (h : as ++ [a] = before ++ b :: since) :
    (as = before ∧ a = b ∧ since = []) ∨
      ∃ front, as = before ++ b :: front ∧ since = front ++ [a] := by
  rcases List.eq_nil_or_concat since with rfl | ⟨front, last, rfl⟩
  · obtain ⟨rfl, hlast⟩ := List.append_inj' h rfl
    exact .inl ⟨rfl, by simpa using hlast, rfl⟩
  · rw [List.concat_eq_append, ← List.cons_append, ← List.append_assoc] at h
    obtain ⟨rfl, hlast⟩ := List.append_inj' h rfl
    obtain rfl : a = last := by simpa using hlast
    exact .inr ⟨front, rfl, List.concat_eq_append ..⟩

end Kit
