import Swayr.Kit.Peg

/-!
# How a rule depends on its input

Properties of rules that the combinators keep. `Yields P`: the values of matches
satisfy `P`. `Writes W`: a value and the piece of the input it is read off are related
by `W`. `Eats Q`: that piece satisfies `Q`, for a `Q` that pieces joined together keep.
`Pads b`: the rule does the same if the text `b` is added at the end of the input,
except that a rule which would have come to the end may read `b` as well. Rules
that never do so are `Keeps b`, rules that always do are `Drops b`; where that
depends on the value, `Settles b drop` says for which values it is read.
-/

namespace Kit.Peg

open Rule

variable {α β : Type}

/-! ## What is made of it -/

/-- The values of a rule satisfy `P`. -/
def Yields (P : α → Prop) (p : Rule α) : Prop :=
  ∀ inp a rest, p inp = some (a, rest) → P a

namespace Yields

theorem pure {P : α → Prop} {a : α} (ha : P a) : Yields P (Pure.pure a : Rule α) := by
  intro inp b rest h
  simp only [pure_apply, Option.some.injEq, Prod.mk.injEq] at h
  exact h.1 ▸ ha

/-- Only the last rule makes the value. -/
theorem bind {P : β → Prop} {p : Rule α} {f : α → Rule β} (hf : ∀ a, Yields P (f a)) :
    Yields P (p >>= f) := by
  intro inp b rest h
  obtain ⟨a, mid, -, h₂⟩ := bind_eq_some h
  exact hf a mid b rest h₂

theorem choice {P : α → Prop} {p q : Rule α} (hp : Yields P p) (hq : Yields P q) :
    Yields P (choice p q) := by
  intro inp a rest h
  cases hr : p inp with
  | none => exact hq inp a rest ((choice_of_none hr).symm.trans h)
  | some r => exact hp inp a rest (hr.trans ((choice_of_some hr).symm.trans h))

end Yields

/-! ## What is read -/

/-- A literal is read off the front of the input. -/
theorem eq_append_of_text {s inp rest : List Char} {a : Unit}
    (h : text s inp = some (a, rest)) : inp = s ++ rest := by
  induction s generalizing inp with
  | nil =>
      simp only [text, Option.some.injEq, Prod.mk.injEq] at h
      exact h.2
  | cons c s ih =>
      cases inp with
      | nil => simp [text] at h
      | cons d inp =>
          simp only [text] at h
          split at h
          · rename_i hcd
            rw [hcd, ih h, List.cons_append]
          · simp at h

/-- Every match reads a text that stands for its value by `W`. -/
def Writes (W : α → List Char → Prop) (p : Rule α) : Prop :=
  ∀ inp a rest, p inp = some (a, rest) → ∃ piece, inp = piece ++ rest ∧ W a piece

/-- Values with a separator before each. -/
inductive Rounds (W : α → List Char → Prop) (V : List Char → Prop) :
    List α → List Char → Prop
  | nil : Rounds W V [] []
  | cons {a : α} {as : List α} {b s t : List Char} : V b → W a s → Rounds W V as t →
      Rounds W V (a :: as) (b ++ (s ++ t))

/-- Values with separators between them. -/
inductive Separated (W : α → List Char → Prop) (V : List Char → Prop) :
    List α → List Char → Prop
  | nil : Separated W V [] []
  | cons {a : α} {as : List α} {s t : List Char} : W a s → Rounds W V as t →
      Separated W V (a :: as) (s ++ t)

namespace Writes

variable {V W : α → List Char → Prop} {p q : Rule α} {f : α → Rule β}

/-- A weaker relation will do. -/
theorem mono (hp : Writes V p) (h : ∀ a s, V a s → W a s) : Writes W p := by
  intro inp a rest hrun
  obtain ⟨piece, heq, hpiece⟩ := hp inp a rest hrun
  exact ⟨piece, heq, h a piece hpiece⟩

theorem fail : Writes W (Rule.fail : Rule α) := by
  intro inp a rest h
  simp [Rule.fail] at h

theorem pure {a : α} (h : W a []) : Writes W (Pure.pure a : Rule α) := by
  intro inp b rest hrun
  simp only [pure_apply, Option.some.injEq, Prod.mk.injEq] at hrun
  obtain ⟨rfl, rfl⟩ := hrun
  exact ⟨[], rfl, h⟩

/-- The second rule may depend on the value of the first; `X` relates its value to both
pieces together. -/
theorem bind {X : β → List Char → Prop} (hp : Writes V p)
    (hf : ∀ a s, V a s → Writes (fun b t => X b (s ++ t)) (f a)) : Writes X (p >>= f) := by
  intro inp b rest h
  obtain ⟨a, mid, h₁, h₂⟩ := bind_eq_some h
  obtain ⟨piece, rfl, hpiece⟩ := hp inp a mid h₁
  obtain ⟨piece', rfl, hpiece'⟩ := hf a piece hpiece mid b rest h₂
  exact ⟨piece ++ piece', (List.append_assoc ..).symm, hpiece'⟩

theorem choice (hp : Writes W p) (hq : Writes W q) : Writes W (choice p q) := by
  intro inp a rest h
  cases hr : p inp with
  | none => exact hq inp a rest ((choice_of_none hr).symm.trans h)
  | some r => exact hp inp a rest (hr.trans ((choice_of_some hr).symm.trans h))

/-- Nothing is read where the rule is left out. -/
theorem opt (hp : Writes W p) :
    Writes (fun o s => o = none ∧ s = [] ∨ ∃ a, o = some a ∧ W a s) (opt p) := by
  intro inp o rest h
  cases hr : p inp with
  | none =>
      obtain ⟨rfl, rfl⟩ := Prod.mk.inj (Option.some.inj ((opt_of_none hr).symm.trans h))
      exact ⟨[], rfl, .inl ⟨rfl, rfl⟩⟩
  | some r =>
      obtain ⟨rfl, rfl⟩ := Prod.mk.inj (Option.some.inj ((opt_of_some hr).symm.trans h))
      obtain ⟨piece, heq, hpiece⟩ := hp inp r.1 r.2 hr
      exact ⟨piece, heq, .inr ⟨r.1, rfl, hpiece⟩⟩

/-- The piece stands for the value before the conversion. -/
theorem mapOption {g : α → Option β} (hp : Writes W p) :
    Writes (fun b s => ∃ a, g a = some b ∧ W a s) (mapOption g p) := by
  intro inp b rest h
  cases hr : p inp with
  | none => simp [Rule.mapOption, hr] at h
  | some r =>
      simp only [Rule.mapOption, hr, Option.map_eq_some_iff, Prod.mk.injEq] at h
      obtain ⟨_, hg, rfl, rfl⟩ := h
      obtain ⟨piece, heq, hpiece⟩ := hp inp r.1 r.2 hr
      exact ⟨piece, heq, r.1, hg, hpiece⟩

theorem text (t : List Char) : Writes (fun _ s => s = t) (text t) :=
  fun _ _ _ h => ⟨t, eq_append_of_text h, rfl⟩

theorem star (cls : Char → Bool) :
    Writes (fun run s => s = run ∧ ∀ c ∈ run, cls c = true) (star cls) := by
  intro inp run rest h
  simp only [Rule.star, Option.some.injEq, Prod.mk.injEq] at h
  obtain ⟨rfl, rfl⟩ := h
  exact ⟨_, List.takeWhile_append_dropWhile.symm, rfl, fun c hc => List.mem_takeWhile_imp hc⟩

theorem plus (cls : Char → Bool) :
    Writes (fun run s => s = run ∧ run ≠ [] ∧ ∀ c ∈ run, cls c = true) (plus cls) := by
  intro inp run rest h
  cases inp with
  | nil => simp [Rule.plus] at h
  | cons c inp =>
      simp only [Rule.plus] at h
      split at h
      · next hc =>
          simp only [Option.some.injEq, Prod.mk.injEq] at h
          obtain ⟨rfl, rfl⟩ := h
          refine ⟨_, ?_, rfl, List.cons_ne_nil _ _, ?_⟩
          · rw [List.cons_append, List.takeWhile_append_dropWhile]
          · exact List.forall_mem_cons.mpr ⟨hc, fun d hd => List.mem_takeWhile_imp hd⟩
      · cases h

section sepBy

variable {sep : Rule Unit} {B : List Char → Prop} (hp : Writes W p)
  (hsep : Writes (fun _ s => B s) sep)

include hp hsep

/-- What some rounds read stands for their values, a separator before each. -/
theorem sepRounds (n : Nat) (inp : List Char) :
    ∃ piece, inp = piece ++ (sepRounds p sep n inp).2 ∧
      Rounds W B (Rule.sepRounds p sep n inp).1 piece := by
  induction n generalizing inp with
  | zero => exact ⟨[], rfl, .nil⟩
  | succ n ih =>
      rw [Rule.sepRounds]
      split
      · exact ⟨[], rfl, .nil⟩
      · next a rest h =>
          obtain ⟨_, mid, h₁, h₂⟩ := bind_eq_some h
          obtain ⟨b, rfl, hb⟩ := hsep inp _ mid h₁
          obtain ⟨s, rfl, hs⟩ := hp mid a rest h₂
          obtain ⟨t, heq, ht⟩ := ih rest
          refine ⟨b ++ (s ++ t), ?_, .cons hb hs ht⟩
          rw [List.append_assoc, List.append_assoc, ← heq]

/-- What a list reads stands for its values, with separators between them. -/
theorem sepBy : Writes (Separated W B) (sepBy p sep) := by
  intro inp as rest h
  unfold Rule.sepBy at h
  split at h
  · obtain ⟨rfl, rfl⟩ := Prod.mk.inj (Option.some.inj h)
    exact ⟨[], rfl, .nil⟩
  · next a mid ha =>
      obtain ⟨rfl, rfl⟩ := Prod.mk.inj (Option.some.inj h)
      obtain ⟨s, rfl, hs⟩ := hp inp a mid ha
      obtain ⟨t, heq, ht⟩ := sepRounds hp hsep mid.length mid
      exact ⟨s ++ t, by rw [List.append_assoc, ← heq], .cons hs ht⟩

end sepBy

end Writes

/-! ## Properties of what is read -/

/-- Nothing, and two pieces in a row, satisfy `Q` if the pieces do. -/
class Joins (Q : List Char → Prop) : Prop where
  nil : Q []
  append : ∀ {s t}, Q s → Q t → Q (s ++ t)

section joins

variable {Q : List Char → Prop} [Joins Q] {as : List α} {t : List Char}

/-- What the elements and the separators satisfy, the whole list does. -/
theorem Rounds.joins (h : Rounds (fun _ s => Q s) Q as t) : Q t := by
  induction h with
  | nil => exact Joins.nil
  | cons hb hs _ ih => exact Joins.append hb (Joins.append hs ih)

theorem Separated.joins (h : Separated (fun _ s => Q s) Q as t) : Q t := by
  cases h with
  | nil => exact Joins.nil
  | cons hs hrounds => exact Joins.append hs hrounds.joins

end joins

/-- The pieces a rule reads satisfy `Q`. -/
def Eats (Q : List Char → Prop) (p : Rule α) : Prop := Writes (fun _ s => Q s) p

namespace Eats

variable {Q : List Char → Prop} {p q : Rule α} {f : α → Rule β}

theorem fail : Eats Q (Rule.fail : Rule α) := Writes.fail

theorem pure (hQ : Q []) (a : α) : Eats Q (Pure.pure a : Rule α) := Writes.pure hQ

/-- One rule behind the other, for what the two pieces make together. -/
theorem seq {P R : List Char → Prop} (hp : Eats P p) (hf : ∀ a, Eats Q (f a))
    (hR : ∀ {s t}, P s → Q t → R (s ++ t)) : Eats R (p >>= f) :=
  Writes.bind hp fun a _ hs => (hf a).mono fun _ _ ht => hR hs ht

theorem bind [Joins Q] (hp : Eats Q p) (hf : ∀ a, Eats Q (f a)) : Eats Q (p >>= f) :=
  hp.seq hf Joins.append

theorem choice (hp : Eats Q p) (hq : Eats Q q) : Eats Q (choice p q) := Writes.choice hp hq

theorem opt [Joins Q] (hp : Eats Q p) : Eats Q (opt p) := by
  refine (Writes.opt hp).mono fun o s hs => ?_
  rcases hs with ⟨-, rfl⟩ | ⟨_, -, hs⟩
  · exact Joins.nil
  · exact hs

theorem mapOption {g : α → Option β} (hp : Eats Q p) : Eats Q (mapOption g p) :=
  (Writes.mapOption hp).mono fun _ _ ⟨_, _, hs⟩ => hs

theorem text {s : List Char} (hs : Q s) : Eats Q (text s) :=
  (Writes.text s).mono fun _ _ h => h ▸ hs

theorem star {cls : Char → Bool} (hrun : ∀ run, (∀ c ∈ run, cls c = true) → Q run) :
    Eats Q (star cls) :=
  (Writes.star cls).mono fun run _ ⟨heq, hall⟩ => heq ▸ hrun run hall

theorem plus {cls : Char → Bool} (hrun : ∀ run, (∀ c ∈ run, cls c = true) → Q run) :
    Eats Q (plus cls) :=
  (Writes.plus cls).mono fun run _ ⟨heq, _, hall⟩ => heq ▸ hrun run hall

theorem sepBy {sep : Rule Unit} [Joins Q] (hp : Eats Q p) (hsep : Eats Q sep) :
    Eats Q (sepBy p sep) :=
  (Writes.sepBy hp hsep).mono fun _ _ h => h.joins

end Eats

/-! ## Text added at the end -/

/-- With `b` at the end of the input a failure stays one, and a match reads the
same, or `b` as well if it had come to the end. -/
structure Pads (b : List Char) (p : Rule α) : Prop where
  fails : ∀ inp, p inp = none → p (inp ++ b) = none
  reads : ∀ inp a rest, p inp = some (a, rest) →
    p (inp ++ b) = some (a, rest ++ b) ∨ rest = [] ∧ p (inp ++ b) = some (a, [])

/-- The rule never reads `b`. -/
structure Keeps (b : List Char) (p : Rule α) : Prop where
  fails : ∀ inp, p inp = none → p (inp ++ b) = none
  reads : ∀ inp a rest, p inp = some (a, rest) → p (inp ++ b) = some (a, rest ++ b)

/-- The rule reads `b` whenever it would have come to the end. -/
structure Drops (b : List Char) (p : Rule α) : Prop extends Pads b p where
  drops : ∀ inp a, p inp = some (a, []) → p (inp ++ b) = some (a, [])

variable {b : List Char} {p q : Rule α} {f : α → Rule β}

/-- A choice fails on the longer input as well if both alternatives do. -/
theorem choice_fails (hp : ∀ inp, p inp = none → p (inp ++ b) = none)
    (hq : ∀ inp, q inp = none → q (inp ++ b) = none) (inp : List Char)
    (h : choice p q inp = none) : choice p q (inp ++ b) = none := by
  cases hr : p inp with
  | none =>
      rw [choice_of_none hr] at h
      rw [choice_of_none (hp inp hr)]
      exact hq inp h
  | some r => simp [choice_of_some hr] at h

/-- Never reading `b` is one way of coping with it. -/
theorem Keeps.pads (hp : Keeps b p) : Pads b p :=
  ⟨hp.fails, fun inp a rest h => .inl (hp.reads inp a rest h)⟩

namespace Pads

theorem fail : Pads b (Rule.fail : Rule α) := by
  refine ⟨fun _ _ => rfl, ?_⟩
  intro inp a rest h
  simp [Rule.fail] at h

/-- One match behind another, whether the first read `b` or not. -/
theorem bind_reads (hp : Pads b p) (hf : ∀ a, NonGrowing (f a)) {inp rest : List Char} {c : β}
    (h : (p >>= f) inp = some (c, rest)) :
    (∃ a mid, f a mid = some (c, rest) ∧ (p >>= f) (inp ++ b) = f a (mid ++ b)) ∨
      (∃ a, f a [] = some (c, rest)) ∧ rest = [] ∧ (p >>= f) (inp ++ b) = some (c, []) := by
  obtain ⟨a, mid, h₁, h₂⟩ := bind_eq_some h
  rcases hp.reads inp a mid h₁ with hpad | ⟨rfl, hpad⟩
  · exact .inl ⟨a, mid, h₂, bind_of_some hpad⟩
  · have hnil : rest = [] := by
      have := hf a [] c rest h₂
      simpa using this
    subst hnil
    exact .inr ⟨⟨a, h₂⟩, rfl, (bind_of_some hpad).trans h₂⟩

/-- A failure stays one, whichever of the two rules fails and whether the first has read
`b` or not. -/
theorem bind_fails (hp : Pads b p) (hf : ∀ a inp, f a inp = none → f a (inp ++ b) = none)
    {inp : List Char} (h : (p >>= f) inp = none) : (p >>= f) (inp ++ b) = none := by
  cases h₁ : p inp with
  | none => exact bind_of_none (hp.fails inp h₁)
  | some r =>
      obtain ⟨a, mid⟩ := r
      rw [bind_of_some h₁] at h
      -- The first rule leaves `b`, or reads it and leaves nothing, as before.
      rcases hp.reads inp a mid h₁ with hpad | ⟨rfl, hpad⟩
      · rw [bind_of_some hpad]
        exact hf a mid h
      · rw [bind_of_some hpad]
        exact h

/-- Where the first rule reads `b`, the second one has nothing left to read. -/
theorem bind (hp : Pads b p) (hf : ∀ a, Pads b (f a)) (hlen : ∀ a, NonGrowing (f a)) :
    Pads b (p >>= f) := by
  refine ⟨fun inp => hp.bind_fails fun a => (hf a).fails, ?_⟩
  intro inp c rest h
  rcases hp.bind_reads hlen h with ⟨a, mid, hmid, heq⟩ | ⟨-, hnil, heq⟩
  · rw [heq]
    exact (hf a).reads mid c rest hmid
  · exact .inr ⟨hnil, heq⟩

/-- The same alternative is taken as without `b`. -/
theorem choice (hp : Pads b p) (hq : Pads b q) : Pads b (choice p q) := by
  refine ⟨choice_fails hp.fails hq.fails, ?_⟩
  intro inp a rest h
  cases hr : p inp with
  | none =>
      -- The first alternative fails with `b` as well, so the second is tried again.
      rw [choice_of_none hr] at h
      rw [choice_of_none (hp.fails inp hr)]
      exact hq.reads inp a rest h
  | some r =>
      obtain rfl := Option.some.inj ((choice_of_some hr).symm.trans h)
      rcases hp.reads inp a rest hr with hpad | ⟨hnil, hpad⟩
      · exact .inl (choice_of_some hpad)
      · exact .inr ⟨hnil, choice_of_some hpad⟩

theorem opt (hp : Pads b p) : Pads b (opt p) := by
  constructor
  · intro inp h
    cases hr : p inp with
    | none => simp [opt_of_none hr] at h
    | some r => simp [opt_of_some hr] at h
  · intro inp a rest h
    cases hr : p inp with
    | none =>
        obtain ⟨rfl, rfl⟩ := Prod.mk.inj (Option.some.inj ((opt_of_none hr).symm.trans h))
        exact .inl (opt_of_none (hp.fails inp hr))
    | some r =>
        obtain ⟨rfl, rfl⟩ := Prod.mk.inj (Option.some.inj ((opt_of_some hr).symm.trans h))
        rcases hp.reads inp r.1 r.2 hr with hpad | ⟨hnil, hpad⟩
        · exact .inl (opt_of_some hpad)
        · exact .inr ⟨hnil, opt_of_some hpad⟩

section sepBy

variable {sep : Rule Unit} (hp : Pads b p) (hsep : Pads b sep) (hlen : Consumes p)
  (hseplen : NonGrowing sep)

include hp hsep hlen hseplen

/-- The same elements are read; `b` is left, or gone with the rest of the input. -/
theorem sepRounds (n : Nat) (inp : List Char) {as : List α} {left : List Char}
    (h : sepRounds p sep n inp = (as, left)) :
    Rule.sepRounds p sep n (inp ++ b) = (as, left ++ b) ∨
      left = [] ∧ Rule.sepRounds p sep n (inp ++ b) = (as, []) := by
  have hround : Pads b (do sep; p : Rule α) := hsep.bind (fun _ => hp) fun _ => hlen.nonGrowing
  induction n generalizing inp as left with
  | zero =>
      obtain ⟨rfl, rfl⟩ := Prod.mk.inj h
      exact .inl rfl
  | succ n ih =>
      rw [Rule.sepRounds] at h ⊢
      cases hr : (do sep; p : Rule α) inp with
      | none =>
          simp only [hr] at h
          obtain ⟨rfl, rfl⟩ := Prod.mk.inj h
          exact .inl (by simp only [hround.fails inp hr])
      | some r =>
          obtain ⟨a, rest⟩ := r
          simp only [hr] at h
          obtain ⟨rfl, rfl⟩ := Prod.mk.inj h
          rcases hround.reads inp a rest hr with hpad | ⟨rfl, hpad⟩
          · simp only [hpad]
            rcases ih rest rfl with heq | ⟨hnil, heq⟩
            · exact .inl (by simp only [heq])
            · exact .inr ⟨hnil, by simp only [heq]⟩
          · -- the padding is gone, and so is the input
            have hnil : (Rule.sepRounds p sep n []).2 = [] := by
              have := sepRounds_length hlen hseplen n []
              simpa using this
            simp only [hpad]
            exact .inr ⟨hnil, by rw [hnil]⟩

/-- A list of elements, whose bound on the rounds grows with `b`. -/
theorem sepBy : Pads b (sepBy p sep) := by
  constructor
  · intro inp h
    unfold Rule.sepBy at h
    split at h <;> simp at h
  · intro inp as rest h
    cases hr : p inp with
    | none =>
        simp only [Rule.sepBy, hr, Option.some.injEq, Prod.mk.injEq] at h
        obtain ⟨rfl, rfl⟩ := h
        exact .inl (by simp only [Rule.sepBy, hp.fails inp hr])
    | some r =>
        obtain ⟨a, mid⟩ := r
        simp only [Rule.sepBy, hr, Option.some.injEq, Prod.mk.injEq] at h
        obtain ⟨rfl, rfl⟩ := h
        rcases hp.reads inp a mid hr with hpad | ⟨rfl, hpad⟩
        · -- the bound on the rounds is that of the longer input
          have hbound : Rule.sepRounds p sep mid.length mid =
              Rule.sepRounds p sep (mid ++ b).length mid :=
            sepRounds_eq hlen hseplen (Nat.le_refl _) (by simp)
          simp only [Rule.sepBy, hpad, hbound]
          rcases sepRounds hp hsep hlen hseplen (mid ++ b).length mid rfl with heq | ⟨hnil, heq⟩
          · exact .inl (by simp only [heq])
          · exact .inr ⟨hnil, by simp only [heq]⟩
        · -- the first element has read `b`, and nothing follows
          have hnil : (Rule.sepRounds p sep 0 []).2 = [] := rfl
          simp only [Rule.sepBy, hpad]
          exact .inr ⟨hnil, rfl⟩

end sepBy

end Pads

/-! ## Up to a delimiter -/

/-- Everything up to a delimiter, and the delimiter. -/
abbrev upTo (d : Char) (g : List Char → β) : Rule β := do
  let s ← Rule.star (· != d)
  text [d]
  pure (g s)

/-- In the form in which `star` asks for it. -/
theorem forall_bne_of_not_mem {d : Char} {s : List Char} (h : d ∉ s) :
    ∀ c ∈ s, (c != d) = true := by
  intro c hc
  rw [bne_iff_ne]
  rintro rfl
  exact h hc

/-- The delimiter that ends the piece is its first one. -/
theorem upTo_append {d : Char} {u : List Char} (hu : d ∉ u) (g : List Char → β)
    (v : List Char) : upTo d g (u ++ d :: v) = some (g u, v) := by
  rw [upTo, bind_of_some (star_append (forall_bne_of_not_mem hu) (by simp))]
  exact bind_of_some (text_append [d] v)

/-- Without the delimiter there is no match. -/
theorem upTo_eq_none {d : Char} {inp : List Char} (g : List Char → β) (h : d ∉ inp) :
    upTo d g inp = none := by
  have hend : inp.dropWhile (· != d) = [] :=
    List.dropWhile_eq_nil_iff.mpr (forall_bne_of_not_mem h)
  rw [upTo, bind_of_some (show Rule.star (· != d) inp = some (_, []) by rw [Rule.star, hend])]
  rfl

/-! ## Rules that keep it, and rules that read it -/

namespace Keeps

theorem pure (a : α) : Keeps b (Pure.pure a : Rule α) := by
  constructor
  · intro inp h
    simp at h
  · intro inp c rest h
    simp only [pure_apply, Option.some.injEq, Prod.mk.injEq] at h ⊢
    exact ⟨h.1, by rw [h.2]⟩

/-- Two rules that never read `b`. -/
theorem bind (hp : Keeps b p) (hf : ∀ a, Keeps b (f a)) : Keeps b (p >>= f) := by
  refine ⟨fun inp => hp.pads.bind_fails fun a => (hf a).fails, ?_⟩
  intro inp c rest h
  obtain ⟨a, mid, h₁, h₂⟩ := bind_eq_some h
  rw [bind_of_some (hp.reads inp a mid h₁)]
  exact (hf a).reads mid c rest h₂

/-- What comes before a rule that reads something may read `b`: it has not come
to the end then. -/
theorem of_consumes (hp : Pads b p) (hf : ∀ a, Keeps b (f a)) (hlen : ∀ a, Consumes (f a)) :
    Keeps b (p >>= f) := by
  refine ⟨fun inp => hp.bind_fails fun a => (hf a).fails, ?_⟩
  intro inp c rest h
  rcases hp.bind_reads (fun a => (hlen a).nonGrowing) h with ⟨a, mid, hmid, heq⟩ | ⟨⟨a, ha⟩, -⟩
  · rw [heq]
    exact (hf a).reads mid c rest hmid
  · have := hlen a [] c rest ha
    simp at this

theorem choice (hp : Keeps b p) (hq : Keeps b q) : Keeps b (choice p q) := by
  refine ⟨(hp.pads.choice hq.pads).fails, ?_⟩
  intro inp a rest h
  cases hr : p inp with
  | none =>
      rw [choice_of_none hr] at h
      rw [choice_of_none (hp.fails inp hr)]
      exact hq.reads inp a rest h
  | some r =>
      obtain rfl := Option.some.inj ((choice_of_some hr).symm.trans h)
      exact choice_of_some (hp.reads inp a rest hr)

theorem opt (hp : Keeps b p) : Keeps b (opt p) := by
  refine ⟨hp.pads.opt.fails, ?_⟩
  intro inp a rest h
  cases hr : p inp with
  | none =>
      obtain ⟨rfl, rfl⟩ := Prod.mk.inj (Option.some.inj ((opt_of_none hr).symm.trans h))
      exact opt_of_none (hp.fails inp hr)
  | some r =>
      obtain ⟨rfl, rfl⟩ := Prod.mk.inj (Option.some.inj ((opt_of_some hr).symm.trans h))
      exact opt_of_some (hp.reads inp r.1 r.2 hr)

/-- The conversion does not look at the input. -/
theorem mapOption {g : α → Option β} (hp : Keeps b p) : Keeps b (mapOption g p) := by
  constructor
  · intro inp h
    cases hr : p inp with
    | none => simp only [Rule.mapOption, hp.fails inp hr]
    | some r =>
        simp only [Rule.mapOption, hr, Option.map_eq_none_iff] at h
        simp only [Rule.mapOption, hp.reads inp r.1 r.2 hr, h, Option.map_none]
  · intro inp c rest h
    cases hr : p inp with
    | none => simp [Rule.mapOption, hr] at h
    | some r =>
        simp only [Rule.mapOption, hr, Option.map_eq_some_iff, Prod.mk.injEq] at h
        obtain ⟨d, hd, rfl, rfl⟩ := h
        simp only [Rule.mapOption, hp.reads inp r.1 r.2 hr, hd, Option.map_some]

/-- A literal does not come to its end in `b`. -/
theorem text {s : List Char} (hs : ∀ c ∈ s, c ∉ b) : Keeps b (text s) := by
  induction s with
  | nil =>
      constructor
      · intro inp h
        simp [Rule.text] at h
      · intro inp a rest h
        simp only [Rule.text, Option.some.injEq, Prod.mk.injEq] at h ⊢
        exact ⟨h.1, by rw [h.2]⟩
  | cons c s ih =>
      have ih := ih fun d hd => hs d (List.mem_cons_of_mem c hd)
      constructor
      · intro inp h
        cases inp with
        | nil =>
            -- The literal would have to begin with the first character of `b`.
            cases b with
            | nil => exact h
            | cons d b =>
                have hne : c ≠ d := by
                  rintro rfl
                  exact hs c List.mem_cons_self List.mem_cons_self
                simp only [List.nil_append, Rule.text, if_neg hne]
        | cons d inp =>
            simp only [List.cons_append, Rule.text] at h ⊢
            split at h
            · rename_i hcd
              rw [if_pos hcd]
              exact ih.fails inp h
            · rename_i hcd
              rw [if_neg hcd]
      · intro inp a rest h
        cases inp with
        | nil => simp [Rule.text] at h
        | cons d inp =>
            simp only [List.cons_append, Rule.text] at h ⊢
            split at h
            · rename_i hcd
              rw [if_pos hcd]
              exact ih.reads inp a rest h
            · simp at h

/-- A repetition of characters that `b` does not have. -/
theorem star {cls : Char → Bool} (hcls : ∀ c ∈ b, cls c = false) : Keeps b (star cls) := by
  have hb : b.takeWhile cls = [] ∧ b.dropWhile cls = b := by
    cases b with
    | nil => simp
    | cons c b => simp [hcls c List.mem_cons_self]
  constructor
  · intro inp h
    simp [Rule.star] at h
  · intro inp a rest h
    simp only [Rule.star, Option.some.injEq, Prod.mk.injEq] at h ⊢
    obtain ⟨rfl, rfl⟩ := h
    -- If the run comes to the end of the input, it stops in front of `b`.
    rw [List.takeWhile_append, List.dropWhile_append]
    constructor
    · split
      · rename_i hall
        rw [hb.1, List.append_nil]
        exact ((List.takeWhile_prefix cls).eq_of_length hall).symm
      · rfl
    · split
      · rename_i hnil
        rw [hb.2, List.isEmpty_iff.mp hnil, List.nil_append]
      · rfl

/-- Everything up to a delimiter that `b` does not have, and the delimiter. -/
theorem upTo {d : Char} (hd : d ∉ b) (g : List Char → β) : Keeps b (upTo d g) := by
  constructor
  · -- A failure means that there is no delimiter, and `b` does not bring one.
    intro inp h
    by_cases hmem : d ∈ inp
    · obtain ⟨u, v, rfl, hu⟩ := List.eq_append_cons_of_mem hmem
      rw [upTo_append hu] at h
      simp at h
    · exact upTo_eq_none _ fun h' => (List.mem_append.mp h').elim hmem hd
  · intro inp c rest h
    by_cases hmem : d ∈ inp
    · obtain ⟨u, v, rfl, hu⟩ := List.eq_append_cons_of_mem hmem
      rw [upTo_append hu] at h
      obtain ⟨rfl, rfl⟩ := Prod.mk.inj (Option.some.inj h)
      rw [List.append_assoc, List.cons_append]
      exact upTo_append hu g (v ++ b)
    · rw [upTo_eq_none g hmem] at h
      simp at h

/-- At least one character, none of which `b` has. -/
theorem plus {cls : Char → Bool} (hcls : ∀ c ∈ b, cls c = false) : Keeps b (plus cls) := by
  constructor
  · intro inp h
    cases inp with
    | nil =>
        cases b with
        | nil => exact h
        | cons c b => simp [Rule.plus, hcls c List.mem_cons_self]
    | cons c inp =>
        simp only [List.cons_append, Rule.plus] at h ⊢
        split at h
        · simp at h
        · rename_i hc
          rw [if_neg hc]
  · intro inp a rest h
    cases inp with
    | nil => simp [Rule.plus] at h
    | cons c inp =>
        simp only [List.cons_append, Rule.plus] at h ⊢
        split at h
        · rename_i hc
          simp only [Option.some.injEq, Prod.mk.injEq] at h
          obtain ⟨rfl, rfl⟩ := h
          have hrun := (star hcls).reads inp _ _ rfl
          simp only [Rule.star, Option.some.injEq, Prod.mk.injEq] at hrun
          rw [if_pos hc, hrun.1, hrun.2]
        · simp at h

end Keeps

namespace Drops

/-- The last rule reads `b`, unless the first has done so. -/
theorem bind (hp : Pads b p) (hf : ∀ a, Drops b (f a)) (hlen : ∀ a, NonGrowing (f a)) :
    Drops b (p >>= f) := by
  refine ⟨hp.bind (fun a => (hf a).toPads) hlen, ?_⟩
  intro inp c h
  rcases hp.bind_reads hlen h with ⟨a, mid, hmid, heq⟩ | ⟨-, -, heq⟩
  · rw [heq]
    exact (hf a).drops mid c hmid
  · exact heq

theorem bind_pure (hp : Drops b p) (g : α → β) : Drops b (p >>= fun a => Pure.pure (g a)) := by
  refine ⟨hp.toPads.bind (fun a => (Keeps.pure (g a)).pads) fun a => nonGrowing_pure (g a), ?_⟩
  intro inp c h
  obtain ⟨a, mid, h₁, h₂⟩ := bind_eq_some h
  simp only [pure_apply, Option.some.injEq, Prod.mk.injEq] at h₂
  obtain ⟨rfl, rfl⟩ := h₂
  exact bind_of_some (hp.drops inp a h₁)

end Drops

/-- A match that comes to the end reads `b` or leaves it, by its value. -/
structure Settles (b : List Char) (drop : α → Bool) (p : Rule α) : Prop where
  fails : ∀ inp, p inp = none → p (inp ++ b) = none
  ends : ∀ inp a, p inp = some (a, []) → p (inp ++ b) = some (a, if drop a = true then [] else b)

namespace Settles

variable {drop : α → Bool}

/-- All values of the rule are ones that read `b`. -/
theorem of_drops (hp : Drops b p) (hv : Yields (fun a => drop a = true) p) :
    Settles b drop p := by
  refine ⟨hp.fails, ?_⟩
  intro inp a h
  rw [if_pos (hv inp a [] h)]
  exact hp.drops inp a h

/-- No value of the rule is one that reads `b`. -/
theorem of_keeps (hp : Keeps b p) (hv : Yields (fun a => drop a = false) p) :
    Settles b drop p := by
  refine ⟨hp.fails, ?_⟩
  intro inp a h
  rw [if_neg (Bool.eq_false_iff.mp (hv inp a [] h))]
  exact hp.reads inp a [] h

/-- Whichever alternative is taken, its value says whether `b` is read. -/
theorem choice (hp : Settles b drop p) (hq : Settles b drop q) :
    Settles b drop (choice p q) := by
  refine ⟨choice_fails hp.fails hq.fails, ?_⟩
  intro inp a h
  cases hr : p inp with
  | none =>
      rw [choice_of_none hr] at h
      rw [choice_of_none (hp.fails inp hr)]
      exact hq.ends inp a h
  | some r =>
      obtain rfl := Option.some.inj ((choice_of_some hr).symm.trans h)
      exact choice_of_some (hp.ends inp a hr)

end Settles

end Kit.Peg
