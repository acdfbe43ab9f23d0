import Mathlib.Data.List.TakeWhile

/-!
# Parsing expression grammars

A rule reads a piece off the front of its input or fails. Choice is ordered
and commits to the first alternative that matches; repetition is greedy. The
separated repetition `e ** sep` is computed with a bound on its rounds; for an
`e` that always consumes something the bound is no restriction
(`sepRounds_eq`), and two rules that agree on short inputs have repetitions
that agree there (`AgreeBelow.sepBy`), which is what recursive grammars need.
-/

namespace Kit.Peg

/-- A rule: what was read, and the input left. -/
def Rule (α : Type) := List Char → Option (α × List Char)

variable {α β : Type}

namespace Rule

/-- The rule that matches nothing. -/
def fail : Rule α := fun _ => none

/-- Literal text. -/
def text : List Char → Rule Unit
  | [] => fun inp => some ((), inp)
  | c :: cs => fun inp =>
      match inp with
      | [] => none
      | d :: ds => if c = d then text cs ds else none

def lit (s : String) : Rule Unit := text s.toList

/-- `[class]*`. -/
def star (p : Char → Bool) : Rule (List Char) := fun inp =>
  some (inp.takeWhile p, inp.dropWhile p)

/-- `[class]+`. -/
def plus (p : Char → Bool) : Rule (List Char) := fun inp =>
  match inp with
  | [] => none
  | c :: cs => if p c then some (c :: cs.takeWhile p, cs.dropWhile p) else none

/-- `p / q`. -/
def choice (p q : Rule α) : Rule α := fun inp =>
  match p inp with
  | some r => some r
  | none => q inp

/-- `p?`. -/
def opt (p : Rule α) : Rule (Option α) := fun inp =>
  match p inp with
  | some (a, rest) => some (some a, rest)
  | none => some (none, inp)

/-- `p {? f }`: a match whose value is rejected is no match. -/
def mapOption (f : α → Option β) (p : Rule α) : Rule β := fun inp =>
  match p inp with
  | some (a, rest) => (f a).map fun b => (b, rest)
  | none => none

instance : Monad Rule where
  pure a := fun inp => some (a, inp)
  bind p f := fun inp =>
    match p inp with
    | some (a, rest) => f a rest
    | none => none

/-- At most `n` rounds of `sep e`; a round that fails gives back its input. -/
def sepRounds (e : Rule α) (sep : Rule Unit) : Nat → List Char → List α × List Char
  | 0, inp => ([], inp)
  | n + 1, inp =>
      match (do sep; e : Rule α) inp with
      | none => ([], inp)
      | some (a, rest) =>
          match sepRounds e sep n rest with
          | (as, left) => (a :: as, left)

/-- `e ** sep`. -/
def sepBy (e : Rule α) (sep : Rule Unit) : Rule (List α) := fun inp =>
  match e inp with
  | none => some ([], inp)
  | some (a, rest) =>
      match sepRounds e sep rest.length rest with
      | (as, left) => some (a :: as, left)

/-! ## Evaluation -/

@[simp] theorem pure_apply (a : α) (inp : List Char) :
    (pure a : Rule α) inp = some (a, inp) := rfl

theorem bind_of_some {p : Rule α} {f : α → Rule β} {inp rest : List Char} {a : α}
    (h : p inp = some (a, rest)) : (p >>= f) inp = f a rest := by
  simp only [bind, h]

/-- Nothing behind a rule that fails. -/
theorem bind_of_none {p : Rule α} {f : α → Rule β} {inp : List Char}
    (h : p inp = none) : (p >>= f) inp = none := by
  simp only [bind, h]

/-- The first alternative that matches counts, whatever comes of it later. -/
theorem choice_of_some {p q : Rule α} {inp : List Char} {r : α × List Char}
    (h : p inp = some r) : choice p q inp = some r := by
  simp only [choice, h]

theorem choice_of_none {p q : Rule α} {inp : List Char} (h : p inp = none) :
    choice p q inp = q inp := by
  simp only [choice, h]

theorem opt_of_some {p : Rule α} {inp rest : List Char} {a : α}
    (h : p inp = some (a, rest)) : opt p inp = some (some a, rest) := by
  simp only [opt, h]

/-- A rule that fails is left out, and nothing is read. -/
theorem opt_of_none {p : Rule α} {inp : List Char} (h : p inp = none) :
    opt p inp = some (none, inp) := by
  simp only [opt, h]

@[simp] theorem text_append (s rest : List Char) : text s (s ++ rest) = some ((), rest) := by
  induction s with
  | nil => rfl
  | cons c s ih => simp [text, ih]

@[simp] theorem lit_append (s : String) (rest : List Char) :
    lit s (s.toList ++ rest) = some ((), rest) := text_append _ _

/-- Two texts differ before either ends. -/
def Clash (s t : String) : Prop := ¬ s.toList <+: t.toList ∧ ¬ t.toList <+: s.toList

instance (s t : String) : Decidable (Clash s t) := inferInstanceAs (Decidable (_ ∧ _))

/-- Two texts that differ before either ends. -/
theorem text_eq_none {s t : List Char} (hst : ¬ s <+: t) (hts : ¬ t <+: s)
    (rest : List Char) : text s (t ++ rest) = none := by
  induction s generalizing t with
  | nil => exact absurd List.nil_prefix hst
  | cons c s ih =>
      cases t with
      | nil => exact absurd List.nil_prefix hts
      | cons d t =>
          simp only [List.cons_append, text]
          split
          · subst_vars
            exact ih (fun h => hst (List.cons_prefix_cons.mpr ⟨rfl, h⟩))
              (fun h => hts (List.cons_prefix_cons.mpr ⟨rfl, h⟩))
          · rfl

/-- A literal does not match behind a text it clashes with. -/
theorem Clash.lit_eq_none {s t : String} (h : Clash s t) (rest : List Char) :
    lit s (t.toList ++ rest) = none :=
  text_eq_none h.1 h.2 rest

/-- `[class]*` reads a run of the class up to a character outside it. -/
theorem star_append {p : Char → Bool} {run rest : List Char} (hrun : ∀ c ∈ run, p c = true)
    (hrest : rest.takeWhile p = []) : star p (run ++ rest) = some (run, rest) := by
  have hdrop : rest.dropWhile p = rest := by
    have := List.takeWhile_append_dropWhile (p := p) (l := rest)
    rwa [hrest, List.nil_append] at this
  simp [star, List.takeWhile_append_of_pos hrun, List.dropWhile_append_of_pos hrun, hrest,
    hdrop]

/-- `[class]+` reads a run that is not empty. -/
theorem plus_append {p : Char → Bool} {run rest : List Char} (hne : run ≠ [])
    (hrun : ∀ c ∈ run, p c = true) (hrest : rest.takeWhile p = []) :
    plus p (run ++ rest) = some (run, rest) := by
  cases run with
  | nil => exact absurd rfl hne
  | cons c run =>
      have hstar := star_append (fun d hd => hrun d (List.mem_cons_of_mem _ hd)) hrest
      simp only [star, Option.some.injEq, Prod.mk.injEq] at hstar
      simp [plus, hrun c List.mem_cons_self, hstar.1, hstar.2]

/-! ## Consumption -/

/-- A match leaves no more than there was. -/
def NonGrowing (p : Rule α) : Prop :=
  ∀ inp a rest, p inp = some (a, rest) → rest.length ≤ inp.length

/-- A match leaves less than there was. -/
def Consumes (p : Rule α) : Prop :=
  ∀ inp a rest, p inp = some (a, rest) → rest.length < inp.length

theorem Consumes.nonGrowing {p : Rule α} (h : Consumes p) : NonGrowing p :=
  fun inp a rest hp => Nat.le_of_lt (h inp a rest hp)

theorem nonGrowing_pure (a : α) : NonGrowing (pure a : Rule α) := by
  intro inp b rest h
  simp only [pure_apply, Option.some.injEq, Prod.mk.injEq] at h
  rw [h.2]

theorem nonGrowing_text (s : List Char) : NonGrowing (text s) := by
  induction s with
  | nil =>
      intro inp _ rest h
      simp only [text, Option.some.injEq, Prod.mk.injEq] at h
      rw [h.2]
  | cons c s ih =>
      intro inp _ rest h
      cases inp with
      | nil => simp [text] at h
      | cons d inp =>
          simp only [text] at h
          split at h
          · exact Nat.le_succ_of_le (ih inp _ rest h)
          · simp at h

/-- A literal reads its own text. -/
theorem consumes_lit {s : String} (hs : s.toList ≠ []) : Consumes (lit s) := by
  intro inp a rest h
  unfold lit at h
  cases hl : s.toList with
  | nil => exact absurd hl hs
  | cons c cs =>
      rw [hl] at h
      cases inp with
      | nil => simp [text] at h
      | cons d inp =>
          simp only [text] at h
          split at h
          · exact Nat.lt_succ_of_le (nonGrowing_text cs inp a rest h)
          · simp at h

theorem nonGrowing_star (p : Char → Bool) : NonGrowing (star p) := by
  intro inp a rest h
  simp only [star, Option.some.injEq, Prod.mk.injEq] at h
  rw [← h.2]
  exact (List.dropWhile_sublist p).length_le

theorem consumes_plus (p : Char → Bool) : Consumes (plus p) := by
  intro inp a rest h
  cases inp with
  | nil => simp [plus] at h
  | cons c cs =>
      simp only [plus] at h
      split at h
      · simp only [Option.some.injEq, Prod.mk.injEq] at h
        rw [← h.2]
        exact Nat.lt_succ_of_le (List.dropWhile_sublist p).length_le
      · simp at h

/-- Both rules of a match have matched. -/
theorem bind_eq_some {p : Rule α} {f : α → Rule β} {inp rest : List Char} {b : β}
    (h : (p >>= f) inp = some (b, rest)) :
    ∃ a mid, p inp = some (a, mid) ∧ f a mid = some (b, rest) := by
  simp only [bind] at h
  split at h
  · exact ⟨_, _, ‹_›, h⟩
  · simp at h

theorem NonGrowing.bind {p : Rule α} {f : α → Rule β} (hp : NonGrowing p)
    (hf : ∀ a, NonGrowing (f a)) : NonGrowing (p >>= f) := by
  intro inp b rest h
  obtain ⟨a, mid, h₁, h₂⟩ := bind_eq_some h
  exact Nat.le_trans (hf a mid b rest h₂) (hp inp a mid h₁)

/-- It is enough that the first rule reads something. -/
theorem Consumes.bind {p : Rule α} {f : α → Rule β} (hp : Consumes p)
    (hf : ∀ a, NonGrowing (f a)) : Consumes (p >>= f) := by
  intro inp b rest h
  obtain ⟨a, mid, h₁, h₂⟩ := bind_eq_some h
  exact Nat.lt_of_le_of_lt (hf a mid b rest h₂) (hp inp a mid h₁)

theorem Consumes.choice {p q : Rule α} (hp : Consumes p) (hq : Consumes q) :
    Consumes (choice p q) := by
  intro inp a rest h
  unfold Rule.choice at h
  split at h
  · rename_i r hr
    rw [h] at hr
    exact hp inp a rest hr
  · exact hq inp a rest h

theorem NonGrowing.opt {p : Rule α} (hp : NonGrowing p) : NonGrowing (opt p) := by
  intro inp a rest h
  unfold Rule.opt at h
  split at h
  · rename_i b left hb
    simp only [Option.some.injEq, Prod.mk.injEq] at h
    exact h.2 ▸ hp inp b left hb
  · simp only [Option.some.injEq, Prod.mk.injEq] at h
    rw [h.2]

/-- The conversion of the value reads nothing. -/
theorem Consumes.mapOption {p : Rule α} {f : α → Option β} (hp : Consumes p) :
    Consumes (mapOption f p) := by
  intro inp b rest h
  unfold Rule.mapOption at h
  split at h
  · rename_i a left ha
    simp only [Option.map_eq_some_iff, Prod.mk.injEq] at h
    obtain ⟨_, -, -, rfl⟩ := h
    exact hp inp a left ha
  · simp at h

/-- A round of a repetition reads something, if only the element does. -/
theorem sep_consumes {e : Rule α} {sep : Rule Unit} (he : Consumes e) (hsep : NonGrowing sep)
    {inp : List Char} {r : α × List Char} (h : (do sep; e : Rule α) inp = some r) :
    r.2.length < inp.length := by
  obtain ⟨_, mid, h₁, h₂⟩ := bind_eq_some h
  exact Nat.lt_of_lt_of_le (he mid r.1 r.2 h₂) (hsep inp _ mid h₁)

theorem sepRounds_length {e : Rule α} {sep : Rule Unit} (he : Consumes e)
    (hsep : NonGrowing sep) (n : Nat) (inp : List Char) :
    (sepRounds e sep n inp).2.length ≤ inp.length := by
  induction n generalizing inp with
  | zero => simp [sepRounds]
  | succ n ih =>
      rw [sepRounds]
      split
      · exact Nat.le_refl _
      · rename_i a rest h
        exact Nat.le_trans (ih rest) (hsep.bind (fun _ => he.nonGrowing) inp a rest h)

/-- A list may be empty, so it is only known to leave no more. -/
theorem nonGrowing_sepBy {e : Rule α} {sep : Rule Unit} (he : Consumes e)
    (hsep : NonGrowing sep) : NonGrowing (sepBy e sep) := by
  intro inp as rest h
  unfold sepBy at h
  split at h
  · simp only [Option.some.injEq, Prod.mk.injEq] at h
    rw [h.2]
  · rename_i a mid ha
    simp only [Option.some.injEq, Prod.mk.injEq] at h
    rw [← h.2]
    exact Nat.le_trans (sepRounds_length he hsep _ _) (he.nonGrowing inp a mid ha)

/-- The bound on the rounds does not cut a repetition short: any two bounds
that are not below the length of the input give the same. -/
theorem sepRounds_eq {e : Rule α} {sep : Rule Unit} (he : Consumes e) (hsep : NonGrowing sep)
    {m n : Nat} {inp : List Char} (hm : inp.length ≤ m) (hn : inp.length ≤ n) :
    sepRounds e sep m inp = sepRounds e sep n inp := by
  induction m generalizing n inp with
  | zero =>
      -- On no input a round would have to read something.
      obtain rfl := List.length_eq_zero_iff.mp (Nat.le_zero.mp hm)
      cases n with
      | zero => rfl
      | succ n =>
          cases hr : (do sep; e : Rule α) [] with
          | none => simp only [sepRounds, hr]
          | some r =>
              have := sep_consumes he hsep hr
              simp at this
  | succ m ih =>
      cases hr : (do sep; e : Rule α) inp with
      | none => cases n <;> simp only [sepRounds, hr]
      | some r =>
          -- What is left is shorter, so both bounds are still large enough for it.
          have hlt := sep_consumes he hsep hr
          obtain ⟨n, rfl⟩ : ∃ k, n = k + 1 := ⟨n - 1, by omega⟩
          simp only [sepRounds, hr]
          rw [ih (n := n) (by omega) (by omega)]

/-! ## Agreement on short inputs -/

/-- Two rules do the same on every input shorter than `n`. -/
def AgreeBelow (n : Nat) (p q : Rule α) : Prop := ∀ inp, inp.length < n → p inp = q inp

theorem AgreeBelow.refl (n : Nat) (p : Rule α) : AgreeBelow n p p := fun _ _ => rfl

/-- Behind a rule that reads nothing back, the inputs are still short. -/
theorem AgreeBelow.bind {n : Nat} {p : Rule α} {f g : α → Rule β} (hp : NonGrowing p)
    (hf : ∀ a, AgreeBelow n (f a) (g a)) : AgreeBelow n (p >>= f) (p >>= g) := by
  intro inp hn
  cases h : p inp with
  | none => rw [bind_of_none h, bind_of_none h]
  | some r =>
      rw [bind_of_some h, bind_of_some h]
      exact hf r.1 r.2 (Nat.lt_of_le_of_lt (hp inp r.1 r.2 h) hn)

/-- Behind a rule that consumes something the inputs are shorter. -/
theorem AgreeBelow.bind_succ {n : Nat} {p : Rule α} {f g : α → Rule β} (hp : Consumes p)
    (hf : ∀ a, AgreeBelow n (f a) (g a)) : AgreeBelow (n + 1) (p >>= f) (p >>= g) := by
  intro inp hn
  cases h : p inp with
  | none => rw [bind_of_none h, bind_of_none h]
  | some r =>
      rw [bind_of_some h, bind_of_some h]
      have := hp inp r.1 r.2 h
      exact hf r.1 r.2 (by omega)

theorem AgreeBelow.bind_left {n : Nat} {p q : Rule α} (h : AgreeBelow n p q)
    (f : α → Rule β) : AgreeBelow n (p >>= f) (q >>= f) := by
  intro inp hn
  simp only [Bind.bind, h inp hn]

theorem AgreeBelow.choice {n : Nat} {p p' q q' : Rule α} (hp : AgreeBelow n p p')
    (hq : AgreeBelow n q q') : AgreeBelow n (choice p q) (choice p' q') := by
  intro inp hn
  simp only [Rule.choice, hp inp hn, hq inp hn]

/-- The rounds run on shorter and shorter inputs, on which the elements agree. -/
theorem AgreeBelow.sepRounds {n : Nat} {e e' : Rule α} {sep : Rule Unit}
    (h : AgreeBelow n e e') (he : Consumes e) (hsep : NonGrowing sep) (k : Nat)
    {inp : List Char} (hn : inp.length < n) :
    sepRounds e sep k inp = sepRounds e' sep k inp := by
  induction k generalizing inp with
  | zero => rfl
  | succ k ih =>
      have hround := AgreeBelow.bind hsep (fun _ => h) inp hn
      simp only [Rule.sepRounds, ← hround]
      cases hr : (do sep; e : Rule α) inp with
      | none => rfl
      | some r => simp only [ih (Nat.lt_trans (sep_consumes he hsep hr) hn)]

/-- Lists of elements that agree on short inputs agree there. -/
theorem AgreeBelow.sepBy {n : Nat} {e e' : Rule α} {sep : Rule Unit}
    (h : AgreeBelow n e e') (he : Consumes e) (hsep : NonGrowing sep) :
    AgreeBelow n (sepBy e sep) (sepBy e' sep) := by
  intro inp hn
  simp only [Rule.sepBy, ← h inp hn]
  cases hr : e inp with
  | none => rfl
  | some r =>
      have := he inp r.1 r.2 hr
      simp only [AgreeBelow.sepRounds h he hsep r.2.length (by omega : r.2.length < n)]

end Rule

end Kit.Peg
