import Swayr.Shared.Placeholder

/-!
# Templates

A format string written as literal pieces and named holes. As long as no literal
piece holds an opening brace, replacing a hole by a text and substituting the
placeholders do the same to the pieces, one by one.
-/

namespace Swayr.Shared

open Kit.Text

variable {ι : Type}

inductive Piece (ι : Type)
  | lit (s : Text)
  | hole (i : ι)

/-- A name between braces. -/
def braced (name : Text) : Text := '{' :: name ++ ['}']

/-- A name that is a placeholder between braces. -/
def IsName (name : Text) : Prop := name ≠ [] ∧ '{' ∉ name ∧ '}' ∉ name ∧ ':' ∉ name

instance (name : Text) : Decidable (IsName name) :=
  inferInstanceAs (Decidable (_ ∧ _ ∧ _ ∧ _))

namespace Piece

/-- The piece as it stands in the format string. -/
def source (name : ι → Text) : Piece ι → Text
  | lit s => s
  | hole i => braced (name i)

/-- The piece with a text for each hole. -/
def render (text : ι → Text) : Piece ι → Text
  | lit s => s
  | hole i => text i

/-- One hole replaced. -/
def fill [DecidableEq ι] (i : ι) (new : Text) : Piece ι → Piece ι
  | lit s => lit s
  | hole j => if j = i then lit new else hole j

def literal? : Piece ι → Option Text
  | lit s => some s
  | hole _ => none

def hole? : Piece ι → Option ι
  | lit _ => none
  | hole i => some i

/-- The holes of a template. -/
def holes (ps : List (Piece ι)) : List ι := ps.filterMap hole?

/-- No literal piece holds the character. -/
def Avoids (c : Char) (ps : List (Piece ι)) : Prop := ∀ s ∈ ps.filterMap literal?, c ∉ s

instance (c : Char) (ps : List (Piece ι)) : Decidable (Avoids c ps) :=
  inferInstanceAs (Decidable (∀ s ∈ ps.filterMap literal?, c ∉ s))

theorem mem_holes {ps : List (Piece ι)} {i : ι} : i ∈ holes ps ↔ hole i ∈ ps := by
  rw [holes, List.mem_filterMap]
  constructor
  · rintro ⟨p, hp, heq⟩
    cases p with
    | lit s => simp [hole?] at heq
    | hole j =>
        obtain rfl : j = i := Option.some.inj heq
        exact hp
  · intro h
    exact ⟨hole i, h, rfl⟩

theorem Avoids.lit {c : Char} {ps : List (Piece ι)} (h : Avoids c ps) {s : Text}
    (hs : lit s ∈ ps) : c ∉ s :=
  h s (List.mem_filterMap.mpr ⟨.lit s, hs, rfl⟩)

/-- It is the literal pieces that matter. -/
theorem avoids_iff {c : Char} {ps : List (Piece ι)} :
    Avoids c ps ↔ ∀ s, .lit s ∈ ps → c ∉ s := by
  constructor
  · intro h s
    exact h.lit
  · intro h s hs
    obtain ⟨p, hp, heq⟩ := List.mem_filterMap.mp hs
    cases p with
    | lit t =>
        obtain rfl : t = s := Option.some.inj heq
        exact h t hp
    | hole i => simp [literal?] at heq

theorem Avoids.cons {c : Char} {p : Piece ι} {ps : List (Piece ι)} (h : Avoids c (p :: ps)) :
    (∀ s, p = .lit s → c ∉ s) ∧ Avoids c ps := by
  rw [avoids_iff] at h ⊢
  exact ⟨fun s hs => h s (hs ▸ List.mem_cons_self), fun s hs => h s (List.mem_cons_of_mem p hs)⟩

theorem mem_of_mem_map_fill [DecidableEq ι] {ps : List (Piece ι)} {i j : ι} {new : Text}
    (h : hole j ∈ ps.map (fill i new)) : hole j ∈ ps := by
  obtain ⟨p, hp, heq⟩ := List.mem_map.mp h
  cases p with
  | lit s => simp [fill] at heq
  | hole k =>
      rw [fill] at heq
      split at heq
      · simp at heq
      · exact heq ▸ hp

/-- Filling a hole brings in only the characters of the new text. -/
theorem Avoids.map_fill [DecidableEq ι] {c : Char} {ps : List (Piece ι)} (h : Avoids c ps) {i : ι}
    {new : Text} (hnew : hole i ∈ ps → c ∉ new) : Avoids c (ps.map (fill i new)) := by
  rw [avoids_iff] at h ⊢
  intro s hs
  obtain ⟨p, hp, heq⟩ := List.mem_map.mp hs
  cases p with
  | lit t =>
      obtain rfl : t = s := lit.inj heq
      exact h t hp
  | hole j =>
      rw [fill] at heq
      split at heq
      · rename_i hj
        obtain rfl : new = s := lit.inj heq
        exact hnew (hj ▸ hp)
      · exact absurd heq (by simp)

end Piece

open Piece

/-! ## Replacing a hole -/

/-- The first closing brace ends a name. -/
theorem name_eq_of_isPrefix {a b t : Text} (ha : '}' ∉ a) (hb : '}' ∉ b)
    (h : a ++ ['}'] <+: b ++ '}' :: t) : a = b := by
  obtain ⟨u, hu⟩ := h
  have htake : ∀ {c v : Text}, '}' ∉ c → (c ++ '}' :: v).takeWhile (· != '}') = c := by
    intro c v hc
    rw [List.takeWhile_append_of_pos fun x hx => by
      simp only [bne_iff_ne, ne_eq]
      exact fun heq => hc (heq ▸ hx)]
    simp
  have heq := congrArg (List.takeWhile (· != '}')) hu
  rw [List.append_assoc, List.singleton_append, htake ha, htake hb] at heq
  exact heq

/-- Another placeholder is left as it is. -/
theorem replaceText_braced_of_ne {a b new t : Text} (ha : '}' ∉ a) (hb : IsName b) (hne : a ≠ b) :
    replaceText (braced a) new (braced b ++ t) = braced b ++ replaceText (braced a) new t := by
  obtain ⟨-, hopen, hclose, -⟩ := hb
  have hnone : literal (braced a) new ('{' :: (b ++ '}' :: t)) = none := by
    apply literal_eq_none
    intro hpre
    exact hne (name_eq_of_isPrefix ha hclose (List.cons_prefix_cons.mp hpre).2)
  have hrest : '{' ∉ b ++ ['}'] := by
    intro hmem
    rcases List.mem_append.mp hmem with hmem | hmem
    · exact hopen hmem
    · exact absurd hmem (by decide)
  have hsplit : braced b ++ t = '{' :: (b ++ '}' :: t) := by simp [braced]
  rw [hsplit, replaceText, replaceAll_of_none hnone, List.append_cons b '}' t]
  show '{' :: replaceText (braced a) new (b ++ ['}'] ++ t) = _
  rw [replaceText_append_of_not_mem (c := '{') rfl hrest]
  rfl

variable {name : ι → Text}

/-- `str::replace` for a hole fills that hole. -/
theorem replaceText_source [DecidableEq ι] (hname : ∀ i, IsName (name i))
    (hinj : Function.Injective name) (i : ι) (new : Text) {ps : List (Piece ι)}
    (hps : Avoids '{' ps) :
    replaceText (braced (name i)) new (ps.flatMap (source name)) =
      (ps.map (fill i new)).flatMap (source name) := by
  induction ps with
  | nil => rfl
  | cons p ps ih =>
      obtain ⟨hp, hps⟩ := hps.cons
      rw [List.flatMap_cons, List.map_cons, List.flatMap_cons, ← ih hps]
      cases p with
      | lit s => exact replaceText_append_of_not_mem (c := '{') rfl (hp s rfl)
      | hole j =>
          rw [fill]
          by_cases hj : j = i
          · rw [if_pos hj, hj]
            exact replaceText_append_self (by simp [braced])
          · rw [if_neg hj]
            exact replaceText_braced_of_ne (hname i).2.2.1 (hname j)
              fun heq => hj (hinj heq.symm)

/-! ## Substituting the placeholders -/

variable {R : RtFormat} {htmlEscape : Bool} {values : Text → Option FmtArg}

/-- Text without an opening brace stays. -/
theorem substPlaceholders_append_of_not_mem {s : Text} (hs : '{' ∉ s) (t : Text) :
    substPlaceholders R (s ++ t) htmlEscape values =
      (substPlaceholders R t htmlEscape values).map (s ++ ·) := by
  induction s with
  | nil => simp
  | cons c s ih =>
      rw [List.mem_cons, not_or] at hs
      rw [List.cons_append, substPlaceholders_cons_of_ne (Ne.symm hs.1), ih hs.2, Option.map_map]
      rfl

/-- Every hole that is left is replaced by its value. -/
theorem substPlaceholders_source (hname : ∀ i, IsName (name i)) {text : ι → Text}
    {ps : List (Piece ι)} (hps : Avoids '{' ps)
    (hvalue : ∀ i, hole i ∈ ps → ∃ val, values (name i) = some val ∧
      text i = maybeHtmlEscape htmlEscape val.toString) :
    substPlaceholders R (ps.flatMap (source name)) htmlEscape values =
      some (ps.flatMap (render text)) := by
  induction ps with
  | nil => rfl
  | cons p ps ih =>
      obtain ⟨hp, hps⟩ := hps.cons
      have hrest := ih hps fun i hi => hvalue i (List.mem_cons_of_mem p hi)
      rw [List.flatMap_cons, List.flatMap_cons]
      cases p with
      | lit s =>
          rw [source, substPlaceholders_append_of_not_mem (hp s rfl), hrest]
          rfl
      | hole i =>
          obtain ⟨val, hval, htext⟩ := hvalue i List.mem_cons_self
          obtain ⟨hne, -, hclose, hcolon⟩ := hname i
          have hsplit : braced (name i) ++ ps.flatMap (source name) =
              '{' :: name i ++ '}' :: ps.flatMap (source name) := by simp [braced]
          rw [source, render, htext, hsplit, substPlaceholders_name hne ⟨hclose, hcolon⟩ hval,
            hrest]
          rfl

/-- A character that is in no literal piece comes from a hole. -/
theorem mem_flatMap_render {text : ι → Text} {ps : List (Piece ι)} {c : Char}
    (hlit : Avoids c ps) :
    c ∈ ps.flatMap (render text) ↔ ∃ i ∈ holes ps, c ∈ text i := by
  rw [List.mem_flatMap]
  constructor
  · rintro ⟨p, hp, hc⟩
    cases p with
    | lit s => exact absurd hc (hlit.lit hp)
    | hole i => exact ⟨i, mem_holes.mpr hp, hc⟩
  · rintro ⟨i, hi, hc⟩
    exact ⟨hole i, mem_holes.mp hi, hc⟩

/-- Escaping only touches the characters it escapes. -/
theorem mem_maybeHtmlEscape {c : Char} (hc : c ∉ "<>&;ampltg".toList) {doIt : Bool} {s : Text} :
    c ∈ maybeHtmlEscape doIt s ↔ c ∈ s := by
  have hreplace : ∀ (x : Char) (new t : Text), c ≠ x → c ∉ new →
      (c ∈ replaceChar x new t ↔ c ∈ t) := by
    intro x new t hx hnew
    rw [replaceChar, List.mem_flatMap]
    constructor
    · rintro ⟨y, hy, hmem⟩
      split at hmem
      · exact absurd hmem hnew
      · exact List.mem_singleton.mp hmem ▸ hy
    · intro hmem
      exact ⟨c, hmem, by simp [hx]⟩
  cases doIt with
  | false => rfl
  | true =>
      have hsub : ∀ t : Text, t ⊆ "<>&;ampltg".toList → c ∉ t := fun t ht hmem => hc (ht hmem)
      have hne : ∀ x ∈ "<>&;ampltg".toList, c ≠ x := fun x hx heq => hc (heq ▸ hx)
      simp only [maybeHtmlEscape, if_true]
      rw [hreplace '&' _ _ (hne _ (by decide)) (hsub _ (by decide)),
        hreplace '>' _ _ (hne _ (by decide)) (hsub _ (by decide)),
        hreplace '<' _ _ (hne _ (by decide)) (hsub _ (by decide))]

end Swayr.Shared
