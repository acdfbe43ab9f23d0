import Mathlib.Data.Nat.Find
import Mathlib.Data.Set.Insert
import Mathlib.Logic.Relation
import Mathlib.Order.Basic

/-!
# Threads and locks

Threads that work in rounds over mutexes that are not re-entrant. A round is a
list of instructions; a thread whose round is finished begins any of the rounds
it may. A *discipline* is a predicate on the locks a thread holds and the rest
of its round: if all rounds follow it from their beginning (`Checked`), every
reachable configuration does (`follows_of_reachable`).

With a discipline that acquires locks in the order of a rank no thread waits for
itself and no threads wait for one another in a cycle (`waits_acyclic`). In a
weakly fair run a lock whose owner keeps acting is released if the loops in its
rounds end (`Run.released`), and an owner that is never blocked keeps acting
(`Run.acts_of_never_blocked`). A loop that does not end keeps the locks it is
entered with (`exists_run_keeping`).
-/

namespace Kit.Locks

inductive Instr (L : Type*)
  | acquire (l : L)
  | release (l : L)
  | work
  /-- Work as long as the condition, read once before each turn, holds. -/
  | loop (again : ℕ → Bool)

/-- The instruction after some turns of its loop. -/
def Instr.later {L : Type*} (n : ℕ) : Instr L → Instr L
  | .loop again => .loop fun k => again (k + n)
  | i => i

/-- What is left of a round once its first instruction was executed; for a loop, once
its condition was read. -/
def behind {L : Type*} : Instr L → List (Instr L) → List (Instr L)
  | .loop again, p => if again 0 then (Instr.loop again).later 1 :: p else p
  | _, p => p

/-- The owners of the locks and what is left of each thread's round. -/
structure Config (T L : Type*) where
  owner : L → Option T
  todo : T → List (Instr L)

variable {T L : Type*}

namespace Config

def init : Config T L := ⟨fun _ => none, fun _ => []⟩

variable (c : Config T L)

def held (t : T) : Set L := { l | c.owner l = some t }

/-- The thread is in a round and its next instruction can be executed. -/
def Ready (t : T) : Prop :=
  match c.todo t with
  | [] => False
  | .acquire l :: _ => c.owner l = none
  | _ => True

/-- `t` waits for a lock that `u` owns. -/
def Waits (t u : T) : Prop := ∃ l rest, c.todo t = .acquire l :: rest ∧ c.owner l = some u

variable {c} {t : T}

/-- Only an `acquire` can wait. -/
theorem Ready.of_not_acquire {i : Instr L} {p : List (Instr L)} (hp : c.todo t = i :: p)
    (hi : ∀ l, i ≠ .acquire l) : c.Ready t := by
  unfold Ready
  rw [hp]
  cases i with
  | acquire l => exact absurd rfl (hi l)
  | release _ | work | loop _ => trivial

/-- A thread in a round that is not ready waits for a lock. -/
theorem exists_acquire_of_not_ready (hne : c.todo t ≠ []) (h : ¬ c.Ready t) :
    ∃ l p, c.todo t = .acquire l :: p ∧ c.owner l ≠ none := by
  obtain ⟨i, p, hp⟩ := List.exists_cons_of_ne_nil hne
  cases i with
  | acquire l =>
      refine ⟨l, p, hp, fun hfree => h ?_⟩
      unfold Ready
      rwa [hp]
  | release _ | work | loop _ => exact absurd (Ready.of_not_acquire hp (by simp)) h

end Config

/-! ## Disciplines -/

/-- The locks held after an instruction. -/
def after (held : Set L) : Instr L → Set L
  | .acquire l => insert l held
  | .release l => held \ {l}
  | .work | .loop _ => held

/-- A round that satisfies `ok` at every instruction, whatever is left of a loop,
whose loops end, that releases only what is held and ends with nothing held. -/
def Checked (ok : Set L → List (Instr L) → Prop) : Set L → List (Instr L) → Prop
  | held, [] => held = ∅
  | held, i :: p =>
      (∀ n, ok held (i.later n :: p)) ∧ (∀ again, i = .loop again → ∃ n, again n = false) ∧
        (∀ l, i = .release l → l ∈ held) ∧ Checked ok (after held i) p

/-- Executing an instruction leaves a round of the same kind. -/
theorem Checked.step {ok : Set L → List (Instr L) → Prop} {held : Set L} {i : Instr L}
    {p : List (Instr L)} (h : Checked ok held (i :: p)) :
    Checked ok (after held i) (behind i p) := by
  obtain ⟨hok, hends, -, hrest⟩ := h
  cases i with
  | acquire _ | release _ | work => exact hrest
  | loop again =>
      rw [behind]
      split
      · rename_i hagain
        refine ⟨fun n => hok (n + 1), ?_, (fun l hl => by cases hl), hrest⟩
        rintro again' heq
        obtain rfl := Instr.loop.inj heq
        -- the turn at which the loop ends is not the one just made
        obtain ⟨n, hn⟩ := hends again rfl
        cases n with
        | zero => simp [hagain] at hn
        | succ n => exact ⟨n, hn⟩
      · exact hrest

/-- Every thread's held locks and remaining round follow its discipline. -/
def Follows (ok : T → Set L → List (Instr L) → Prop) (c : Config T L) : Prop :=
  ∀ t, Checked (ok t) (c.held t) (c.todo t)

variable {ok : T → Set L → List (Instr L) → Prop} {c c' : Config T L} {t u : T}

section follows

variable {i : Instr L} {p : List (Instr L)} {l : L}

theorem Follows.cons (h : Follows ok c) (hp : c.todo t = i :: p) :
    ok t (c.held t) (i :: p) ∧ (∀ l, i = .release l → l ∈ c.held t) ∧
      Checked (ok t) (after (c.held t) i) (behind i p) := by
  have hc := h t
  rw [hp] at hc
  have hnow : i.later 0 = i := by cases i <;> rfl
  exact ⟨hnow ▸ hc.1 0, hc.2.2.1, hc.step⟩

/-- The loop a thread is in ends. -/
theorem Follows.loop_ends {again : ℕ → Bool} (h : Follows ok c)
    (hp : c.todo t = .loop again :: p) : ∃ n, again n = false := by
  have hc := h t
  rw [hp] at hc
  exact hc.2.1 again rfl

/-- A thread that owns a lock is in a round. -/
theorem Follows.todo_ne_nil (h : Follows ok c) (hl : c.owner l = some t) : c.todo t ≠ [] := by
  intro hnil
  have := h t
  rw [hnil] at this
  exact Set.eq_empty_iff_forall_notMem.mp this l hl

end follows

/-! ## Locks in order -/

/-- Acquire a lock only if its rank exceeds that of all locks held. -/
def Ranked (rank : L → ℕ) (held : Set L) : List (Instr L) → Prop
  | .acquire l :: _ => ∀ k ∈ held, rank k < rank l
  | _ => True

section ranked

variable {rank : L → ℕ} (hok : ∀ t held p, ok t held p → Ranked rank held p)

include hok

/-- No thread waits for itself. -/
theorem not_waits_self (hf : Follows ok c) (t : T) : ¬ c.Waits t t := by
  rintro ⟨l, rest, htodo, howner⟩
  exact lt_irrefl _ (hok _ _ _ (hf.cons htodo).1 l howner)

/-- Along a chain of waiting threads the ranks of the locks waited for grow. -/
theorem rank_lt_of_waits (hf : Follows ok c) (h : Relation.TransGen c.Waits t u) :
    ∃ l rest, c.todo t = .acquire l :: rest ∧
      ∀ k rest', c.todo u = .acquire k :: rest' → rank l < rank k := by
  induction h with
  | single h =>
      obtain ⟨l, rest, htodo, howner⟩ := h
      exact ⟨l, rest, htodo, fun k rest' hk => hok _ _ _ (hf.cons hk).1 l howner⟩
  | tail _ h ih =>
      obtain ⟨l, rest, htodo, hlt⟩ := ih
      obtain ⟨m, rest', hm, howner⟩ := h
      refine ⟨l, rest, htodo, fun k rest'' hk => ?_⟩
      exact (hlt m rest' hm).trans (hok _ _ _ (hf.cons hk).1 m howner)

/-- **No cyclic wait.** -/
theorem waits_acyclic (hf : Follows ok c) (t : T) : ¬ Relation.TransGen c.Waits t t := by
  intro h
  obtain ⟨l, rest, htodo, hlt⟩ := rank_lt_of_waits hok hf h
  exact lt_irrefl _ (hlt l rest htodo)

end ranked

/-! ## Steps -/

variable [DecidableEq T] [DecidableEq L]

/-- One step of thread `t`. -/
inductive Step (rounds : T → List (Instr L) → Prop) (t : T) : Config T L → Config T L → Prop
  | start {c p} : c.todo t = [] → rounds t p →
      Step rounds t c ⟨c.owner, Function.update c.todo t p⟩
  | acquire {c l rest} : c.todo t = .acquire l :: rest → c.owner l = none →
      Step rounds t c ⟨Function.update c.owner l (some t), Function.update c.todo t rest⟩
  | release {c l rest} : c.todo t = .release l :: rest →
      Step rounds t c ⟨Function.update c.owner l none, Function.update c.todo t rest⟩
  | work {c rest} : c.todo t = .work :: rest →
      Step rounds t c ⟨c.owner, Function.update c.todo t rest⟩
  | loop {c again rest} : c.todo t = .loop again :: rest →
      Step rounds t c ⟨c.owner, Function.update c.todo t (behind (.loop again) rest)⟩

def Reachable (rounds : T → List (Instr L) → Prop) (c : Config T L) : Prop :=
  Relation.ReflTransGen (fun c c' => ∃ t, Step rounds t c c') .init c

variable {rounds : T → List (Instr L) → Prop}

theorem Reachable.step (h : Reachable rounds c) (hs : Step rounds t c c') : Reachable rounds c' :=
  Relation.ReflTransGen.tail h ⟨t, hs⟩

namespace Step

/-- A step leaves the other threads' programs alone. -/
theorem todo_other (h : Step rounds t c c') (hu : u ≠ t) : c'.todo u = c.todo u := by
  cases h <;> exact Function.update_of_ne hu _ _

/-- A step leaves the other threads' locks alone, since nobody releases what is not theirs. -/
theorem held_other (h : Step rounds t c c') (hf : Follows ok c) (hu : u ≠ t) :
    c'.held u = c.held u := by
  ext k
  cases h with
  | start _ _ => rfl
  | @acquire l _ htodo hfree =>
      by_cases hk : k = l
      · subst hk
        simp [Config.held, hfree, Ne.symm hu]
      · simp [Config.held, hk]
  | @release l _ htodo =>
      have howner : c.owner l = some t := (hf.cons htodo).2.1 l rfl
      by_cases hk : k = l
      · subst hk
        simp [Config.held, howner, Ne.symm hu]
      · simp [Config.held, hk]
  | work _ | loop _ => rfl

variable {i : Instr L} {p : List (Instr L)}

/-- Within a round the next instruction is executed. -/
theorem todo_self (h : Step rounds t c c') (hp : c.todo t = i :: p) :
    c'.todo t = behind i p := by
  cases h with
  | start hnil _ => simp [hnil] at hp
  | acquire htodo _ | release htodo | work htodo | loop htodo =>
      rw [htodo] at hp
      obtain ⟨rfl, rfl⟩ := List.cons.inj hp
      exact Function.update_self _ _ _

theorem held_self (h : Step rounds t c c') (hp : c.todo t = i :: p) :
    c'.held t = after (c.held t) i := by
  ext k
  cases h with
  | start hnil _ => simp [hnil] at hp
  | @acquire l _ htodo _ | @release l _ htodo =>
      rw [htodo] at hp
      obtain ⟨rfl, -⟩ := List.cons.inj hp
      by_cases hk : k = l <;> simp [Config.held, after, hk]
  | work htodo | loop htodo =>
      rw [htodo] at hp
      obtain ⟨rfl, -⟩ := List.cons.inj hp
      rfl

/-- To go on with an `acquire` the lock must be free. -/
theorem owner_eq_none {l : L} (h : Step rounds t c c') (hp : c.todo t = .acquire l :: p) :
    c.owner l = none := by
  cases h with
  | start hnil _ => simp [hnil] at hp
  | acquire htodo hfree =>
      obtain ⟨hkl, -⟩ := List.cons.inj (htodo.symm.trans hp)
      exact Instr.acquire.inj hkl ▸ hfree
  | release htodo | work htodo | loop htodo => simp [htodo] at hp

end Step

/-- One step keeps to the discipline. -/
theorem follows_step (hrounds : ∀ t p, rounds t p → Checked (ok t) ∅ p) (hf : Follows ok c)
    (h : Step rounds t c c') : Follows ok c' := by
  intro u
  by_cases hu : u = t
  · subst hu
    -- With nothing left to do the thread can only start its next round, holding nothing.
    cases hp : c.todo u with
    | nil =>
        have hempty := hf u
        rw [hp] at hempty
        cases h with
        | @start p _ hround =>
            have hheld : (⟨c.owner, Function.update c.todo u p⟩ : Config T L).held u = ∅ := hempty
            simp only [hheld, Function.update_self]
            exact hrounds u p hround
        | acquire htodo _ | release htodo | work htodo | loop htodo => simp [hp] at htodo
    | cons i p =>
        rw [h.held_self hp, h.todo_self hp]
        exact (hf.cons hp).2.2
  · rw [h.held_other hf hu, h.todo_other hu]
    exact hf u

/-- **A discipline of the rounds is one of the runs.** -/
theorem follows_of_reachable (hrounds : ∀ t p, rounds t p → Checked (ok t) ∅ p)
    (h : Reachable rounds c) : Follows ok c := by
  induction h with
  | refl =>
      intro t
      exact Set.eq_empty_of_forall_notMem fun l => by simp [Config.held, Config.init]
  | tail _ hstep ih =>
      obtain ⟨t, hstep⟩ := hstep
      exact follows_step hrounds ih hstep

/-! ## Infinite runs -/

/-- An infinite run; where no thread acts, nothing changes. -/
structure Run (rounds : T → List (Instr L) → Prop) (start : Config T L) where
  state : ℕ → Config T L
  actor : ℕ → Option T
  state_zero : state 0 = start
  step_none : ∀ n, actor n = none → state (n + 1) = state n
  step_some : ∀ n t, actor n = some t → Step rounds t (state n) (state (n + 1))

namespace Run

variable {start : Config T L} (r : Run rounds start)

/-- Weak fairness: a thread does not stay ready forever without acting. Nothing
is said of threads that are between two rounds. -/
def Fair : Prop := ∀ t n, (∀ m ≥ n, (r.state m).Ready t) → ∃ m ≥ n, r.actor m = some t

theorem reachable (h : Reachable rounds start) (n : ℕ) : Reachable rounds (r.state n) := by
  induction n with
  | zero => rwa [r.state_zero]
  | succ n ih =>
      cases hactor : r.actor n with
      | none => rwa [r.step_none n hactor]
      | some t => exact ih.step (r.step_some n t hactor)

variable {r} {n : ℕ} (hf : ∀ n, Follows ok (r.state n))

include hf

/-- A thread that does not act is where it was. -/
theorem unchanged_succ (h : r.actor n ≠ some t) :
    (r.state (n + 1)).todo t = (r.state n).todo t ∧
      (r.state (n + 1)).held t = (r.state n).held t := by
  cases hactor : r.actor n with
  | none => rw [r.step_none n hactor]; exact ⟨rfl, rfl⟩
  | some u =>
      have htu : t ≠ u := fun htu => h (htu ▸ hactor)
      have hstep := r.step_some n u hactor
      exact ⟨hstep.todo_other htu, hstep.held_other (hf n) htu⟩

/-- While a thread does not act, neither its round nor its locks change. -/
theorem unchanged {m : ℕ} (hnm : n ≤ m) (h : ∀ k, n ≤ k → k < m → r.actor k ≠ some t) :
    (r.state m).todo t = (r.state n).todo t ∧ (r.state m).held t = (r.state n).held t := by
  induction m, hnm using Nat.le_induction with
  | base => exact ⟨rfl, rfl⟩
  | succ m hnm ih =>
      obtain ⟨htodo, hheld⟩ := ih fun k hk hkm => h k hk (hkm.trans (Nat.lt_succ_self m))
      obtain ⟨htodo', hheld'⟩ := unchanged_succ hf (h m hnm (Nat.lt_succ_self m))
      exact ⟨htodo'.trans htodo, hheld'.trans hheld⟩

/-- The next act of a thread that acts again finds its round and locks as they
are. -/
theorem next_act (h : ∃ m ≥ n, r.actor m = some t) :
    ∃ m ≥ n, r.actor m = some t ∧ (r.state m).todo t = (r.state n).todo t ∧
      (r.state m).held t = (r.state n).held t := by
  classical
  obtain ⟨hle, hact⟩ := Nat.find_spec h
  refine ⟨Nat.find h, hle, hact, unchanged hf hle ?_⟩
  exact fun k hk hlt hact => Nat.find_min h hlt ⟨hk, hact⟩

/-- A thread that acts again executes its next instruction. -/
theorem exists_behind {i : Instr L} {p : List (Instr L)} (h : ∃ m ≥ n, r.actor m = some t)
    (hp : (r.state n).todo t = i :: p) : ∃ m ≥ n, (r.state m).todo t = behind i p := by
  obtain ⟨m, hnm, hact, htodo, -⟩ := next_act hf h
  exact ⟨m + 1, by omega, (r.step_some m t hact).todo_self (htodo.trans hp)⟩

/-- **An owner that keeps acting releases its lock.** -/
theorem released {l : L}
    (hacts : ∀ n, (r.state n).owner l = some t → ∃ m ≥ n, r.actor m = some t)
    (hl : (r.state n).owner l = some t) : ∃ m ≥ n, (r.state m).owner l ≠ some t := by
  -- Every act of the owner shortens its round, or the loop it is in.
  induction hlen : ((r.state n).todo t).length using Nat.strongRecOn generalizing n with
  | ind len ih =>
      obtain ⟨i, p, hp⟩ := List.exists_cons_of_ne_nil ((hf n).todo_ne_nil hl)
      have hshort : ∀ m ≥ n, (r.state m).todo t = p → ∃ k ≥ n, (r.state k).owner l ≠ some t := by
        intro m hm htodo
        by_cases hown : (r.state m).owner l = some t
        · obtain ⟨k, hk, hkl⟩ := ih p.length (by rw [← hlen, hp]; simp) hown (by rw [htodo])
          exact ⟨k, by omega, hkl⟩
        · exact ⟨m, hm, hown⟩
      cases i with
      | acquire _ | release _ | work =>
          obtain ⟨m, hm, htodo⟩ := exists_behind hf (hacts n hl) hp
          exact hshort m hm htodo
      | loop again =>
          obtain ⟨k, hk⟩ := (hf n).loop_ends hp
          have hturns : ∀ k again, again k = false → ∀ m ≥ n, (r.state m).owner l = some t →
              (r.state m).todo t = .loop again :: p →
              ∃ j ≥ n, (r.state j).owner l ≠ some t := by
            intro k
            induction k with
            | zero =>
                intro again hend m hm hown htodo
                obtain ⟨j, hj, hnext⟩ := exists_behind hf (hacts m hown) htodo
                rw [behind, hend, if_neg (by simp)] at hnext
                exact hshort j (by omega) hnext
            | succ k ihk =>
                intro again hend m hm hown htodo
                obtain ⟨j, hj, hnext⟩ := exists_behind hf (hacts m hown) htodo
                rw [behind] at hnext
                split at hnext
                · by_cases hkept : (r.state j).owner l = some t
                  · exact ihk (fun n => again (n + 1)) hend j (by omega) hkept hnext
                  · exact ⟨j, by omega, hkept⟩
                · exact hshort j (by omega) hnext
          exact hturns k again hk n le_rfl hl hp

/-- **An owner that is never blocked keeps acting.** -/
theorem acts_of_never_blocked (hfair : r.Fair) {l : L}
    (hready : ∀ m, (r.state m).owner l = some t → (r.state m).Ready t)
    (hl : (r.state n).owner l = some t) : ∃ m ≥ n, r.actor m = some t := by
  by_contra hnone
  refine hnone (hfair t n fun m hm => hready m ?_)
  have hheld := (unchanged hf hm fun k hk _ hact => hnone ⟨k, hk, hact⟩).2
  exact (Set.ext_iff.mp hheld l).mpr hl

/-- A lock is lost by a `release` of its owner. -/
theorem exists_release {l : L} {m : ℕ} (hnm : n ≤ m) (hl : (r.state n).owner l = some t)
    (hm : (r.state m).owner l ≠ some t) :
    ∃ k, n ≤ k ∧ k < m ∧ (r.state k).todo t = .release l :: (r.state (k + 1)).todo t ∧
      (r.state (k + 1)).owner l ≠ some t := by
  induction m, hnm using Nat.le_induction with
  | base => exact absurd hl hm
  | succ m hnm ih =>
      -- Either the lock is lost in the last step, or it was lost before.
      by_cases hown : (r.state m).owner l = some t
      · refine ⟨m, hnm, Nat.lt_succ_self m, ?_, hm⟩
        have hact : r.actor m = some t := by
          by_contra hact
          exact hm ((Set.ext_iff.mp (unchanged_succ hf hact).2 l).mpr hown)
        have hstep := r.step_some m t hact
        obtain ⟨i, p, hp⟩ := List.exists_cons_of_ne_nil ((hf m).todo_ne_nil hown)
        have hlost : l ∉ after ((r.state m).held t) i := hstep.held_self hp ▸ hm
        rw [hstep.todo_self hp, hp]
        -- Only releasing it takes a lock away from its owner.
        cases i with
        | acquire k => exact absurd (Set.mem_insert_of_mem k hown) hlost
        | work | loop _ => exact absurd hown hlost
        | release k =>
            by_cases hk : l = k
            · rw [hk]
              rfl
            · exact absurd ⟨hown, hk⟩ hlost
      · obtain ⟨k, hnk, hkm, h⟩ := ih hown
        exact ⟨k, hnk, hkm.trans (Nat.lt_succ_self m), h⟩

/-- A thread that waits for a lock does not act while another one keeps it. -/
theorem stuck {l : L} {p : List (Instr L)} (hp : (r.state n).todo t = .acquire l :: p)
    (hl : ∀ m ≥ n, (r.state m).owner l ≠ none) : ∀ m ≥ n, r.actor m ≠ some t := by
  have hblocked : ∀ m ≥ n, (r.state m).todo t = .acquire l :: p → r.actor m ≠ some t :=
    fun m hm htodo hact => hl m hm ((r.step_some m t hact).owner_eq_none htodo)
  have htodo : ∀ m ≥ n, (r.state m).todo t = .acquire l :: p := by
    intro m hm
    induction m, hm using Nat.le_induction with
    | base => exact hp
    | succ m hm ih => exact (unchanged_succ hf (hblocked m hm ih)).1.trans ih
  exact fun m hm => hblocked m hm (htodo m hm)

end Run

/-! ## Loops that do not end -/

/-- The step before a run. -/
def Run.cons (h : Step rounds t c c') (r : Run rounds c') : Run rounds c where
  state n := n.casesOn c r.state
  actor n := n.casesOn (some t) r.actor
  state_zero := rfl
  step_none n hn := by
    cases n with
    | zero => cases hn
    | succ n => exact r.step_none n hn
  step_some n u hn := by
    cases n with
    | zero =>
        obtain rfl := Option.some.inj hn
        show Step rounds t c (r.state 0)
        rwa [r.state_zero]
    | succ n => exact r.step_some n u hn

theorem Run.Fair.cons {r : Run rounds c'} (hr : r.Fair) (h : Step rounds t c c') :
    (r.cons h).Fair := by
  intro u n hready
  obtain ⟨m, hm, hact⟩ := hr u n fun m hm => hready (m + 1) (by omega)
  exact ⟨m + 1, by omega, hact⟩

/-- The turns of a loop that never ends, with nothing else going on. -/
def Run.looping {again : ℕ → Bool} {rest : List (Instr L)}
    (hloop : c.todo t = .loop again :: rest) (hagain : ∀ n, again n = true) : Run rounds c where
  state n := ⟨c.owner, Function.update c.todo t ((Instr.loop again).later n :: rest)⟩
  actor _ := some t
  state_zero := by
    have hnow : (Instr.loop again).later 0 :: rest = c.todo t := hloop.symm
    rw [hnow, Function.update_eq_self]
  step_none n hn := by cases hn
  step_some n u hn := by
    obtain rfl := Option.some.inj hn
    let now : Config T L :=
      ⟨c.owner, Function.update c.todo t ((Instr.loop again).later n :: rest)⟩
    have htodo : now.todo t = .loop (fun k => again (k + n)) :: rest :=
      Function.update_self _ _ _
    have hstep : Step rounds t now _ := .loop htodo
    rw [behind, if_pos (hagain _), Function.update_idem] at hstep
    have hnext : (Instr.loop fun k => again (k + n) : Instr L).later 1 =
        (Instr.loop again).later (n + 1) := by
      simp only [Instr.later, Nat.add_assoc, Nat.add_comm 1 n]
    rwa [hnext] at hstep

/-- **A loop that does not end keeps its locks**: with all other threads between two
rounds there is a fair run in which no lock changes its owner any more. -/
theorem exists_run_keeping {again : ℕ → Bool} {rest : List (Instr L)} (hc : Reachable rounds c)
    (hloop : c.todo t = .loop again :: rest) (hagain : ∀ n, again n = true)
    (hidle : ∀ u ≠ t, c.todo u = []) :
    ∃ r : Run rounds .init, r.Fair ∧ ∃ n, ∀ m ≥ n, (r.state m).owner = c.owner := by
  -- The run ends with the turns of the loop; the steps that lead there come before them.
  refine Relation.ReflTransGen.head_induction_on
    (motive := fun c₀ _ => ∃ r : Run rounds c₀, r.Fair ∧ ∃ n, ∀ m ≥ n, (r.state m).owner = c.owner)
    hc ⟨.looping hloop hagain, ?_, 0, fun _ _ => rfl⟩ ?_
  · intro u n hready
    by_cases hu : u = t
    · exact ⟨n, le_rfl, congrArg some hu.symm⟩
    · have hnone := hready n le_rfl
      unfold Config.Ready at hnone
      have hnil : ((Run.looping hloop hagain : Run rounds c).state n).todo u = [] :=
        (Function.update_of_ne hu _ _).trans (hidle u hu)
      rw [hnil] at hnone
      exact hnone.elim
  · rintro c₁ c₂ ⟨u, hstep⟩ - ⟨r, hfair, n, hkept⟩
    refine ⟨r.cons hstep, hfair.cons hstep, n + 1, fun m hm => ?_⟩
    obtain ⟨m, rfl⟩ : ∃ k, m = k + 1 := ⟨m - 1, by omega⟩
    exact hkept m (by omega)

end Kit.Locks
