import Mathlib.Data.List.Induction

/-!
# Transducers

A transducer is a deterministic machine that reads one input at a time and
emits a finite list of outputs for each. The two facts every client uses are
that runs and outputs split along `++`, and the *history rule*: a relation
between the inputs read so far, the current state, and the outputs emitted so
far holds of every run if it holds initially and survives one step.
-/

namespace Kit

/-- A deterministic machine with states `σ`, inputs `ι` and outputs `ο`. -/
structure Transducer (σ ι ο : Type*) where
  step : σ → ι → σ × List ο

namespace Transducer

variable {σ ι ο : Type*} (M : Transducer σ ι ο)

/-- The state after one input. -/
def next (s : σ) (i : ι) : σ := (M.step s i).1

/-- What one input makes the machine emit. -/
def emit (s : σ) (i : ι) : List ο := (M.step s i).2

/-- The state after reading a list of inputs. -/
def run : σ → List ι → σ
  | s, [] => s
  | s, i :: rest => run (M.next s i) rest

/-- Everything emitted while reading a list of inputs, oldest first. -/
def outputs : σ → List ι → List ο
  | _, [] => []
  | s, i :: rest => M.emit s i ++ outputs (M.next s i) rest

@[simp] theorem run_nil (s : σ) : M.run s [] = s := rfl

@[simp] theorem run_cons (s : σ) (i : ι) (rest : List ι) :
    M.run s (i :: rest) = M.run (M.next s i) rest := rfl

@[simp] theorem outputs_nil (s : σ) : M.outputs s [] = [] := rfl

@[simp] theorem outputs_cons (s : σ) (i : ι) (rest : List ι) :
    M.outputs s (i :: rest) = M.emit s i ++ M.outputs (M.next s i) rest := rfl

theorem run_append (s : σ) (xs ys : List ι) :
    M.run s (xs ++ ys) = M.run (M.run s xs) ys := by
  induction xs generalizing s with
  | nil => rfl
  | cons i rest ih => simpa using ih (M.next s i)

/-- What is put out for the second part starts in the state after the first. -/
theorem outputs_append (s : σ) (xs ys : List ι) :
    M.outputs s (xs ++ ys) = M.outputs s xs ++ M.outputs (M.run s xs) ys := by
  induction xs generalizing s with
  | nil => rfl
  | cons i rest ih => simp [ih (M.next s i)]

/-- **History rule.** A relation between inputs read, current state and
outputs emitted holds of every run if it holds before the first input and one
more input preserves it. -/
theorem history {P : List ι → σ → List ο → Prop} {s₀ : σ} (base : P [] s₀ [])
    (grow : ∀ xs s os i, P xs s os →
      P (xs ++ [i]) (M.next s i) (os ++ M.emit s i)) :
    ∀ xs, P xs (M.run s₀ xs) (M.outputs s₀ xs) := by
  intro xs
  induction xs using List.reverseRecOn with
  | nil => exact base
  | append_singleton rest i ih =>
      rw [run_append, outputs_append]
      simpa using grow rest _ _ i ih

/-- Whatever a run emits, it emits for one of its inputs. -/
theorem exists_emit_of_mem_outputs {s : σ} {xs : List ι} {o : ο} (h : o ∈ M.outputs s xs) :
    ∃ i ∈ xs, ∃ s', o ∈ M.emit s' i := by
  induction xs generalizing s with
  | nil => cases h
  | cons i rest ih =>
      rcases List.mem_append.mp h with hi | hrest
      · exact ⟨i, List.mem_cons_self, s, hi⟩
      · obtain ⟨j, hj, s', hs'⟩ := ih hrest
        exact ⟨j, List.mem_cons_of_mem i hj, s', hs'⟩

/-- An invariant of the step function is an invariant of every run. -/
theorem invariant {Inv : σ → Prop} (grow : ∀ s i, Inv s → Inv (M.next s i))
    {s : σ} (base : Inv s) : ∀ xs, Inv (M.run s xs) :=
  M.history (P := fun _ s _ => Inv s) base (fun _ s _ i h => grow s i h)

end Transducer

end Kit
