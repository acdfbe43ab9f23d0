import Mathlib.Data.List.TakeWhile
import Swayr.Bar.Pactl

/-!
# Reading the volume

The captured digits are those of the last item ` <digits>%` in the first line that has
one (`captures_eq_some_iff`). They are parsed into eight bits, so that `get_volume`
panics exactly if they stand for more than 255, or are digits of another script.
-/

namespace Swayr.Theorems.Volume

open Shared Bar

variable {D : DigitClass}

/-- The text has the item ` <digits>%`. -/
def HasItem (D : DigitClass) (text digits : Text) : Prop :=
  digits ≠ [] ∧ (∀ c ∈ digits, D.isDecimal c = true) ∧
    ∃ before after, text = before ++ ' ' :: (digits ++ '%' :: after)

theorem HasItem.cons {text digits : Text} (h : HasItem D text digits) (c : Char) :
    HasItem D (c :: text) digits := by
  obtain ⟨hne, hdec, before, after, rfl⟩ := h
  exact ⟨hne, hdec, c :: before, after, rfl⟩

/-- A blank, digits and a percent sign. -/
theorem itemAt_eq_some_iff {s digits : Text} :
    itemAt D s = some digits ↔ digits ≠ [] ∧ (∀ c ∈ digits, D.isDecimal c = true) ∧
      ∃ after, s = ' ' :: (digits ++ '%' :: after) := by
  constructor
  · intro h
    unfold itemAt at h
    split at h
    · rename_i s
      split at h
      · rename_i d ds after htake hdrop
        obtain rfl := Option.some.inj h
        refine ⟨List.cons_ne_nil d ds, ?_, after, ?_⟩
        · intro c hc
          rw [← htake] at hc
          exact List.mem_takeWhile_imp hc
        · rw [← htake, ← hdrop, List.takeWhile_append_dropWhile]
      · simp at h
    · simp at h
  · rintro ⟨hne, hdec, after, rfl⟩
    -- `%` is no digit, so the digits end exactly before it.
    have hpercent : D.isDecimal '%' = false := D.ascii '%' (by decide)
    obtain ⟨d, ds, rfl⟩ := List.exists_cons_of_ne_nil hne
    have htake : (d :: ds ++ '%' :: after).takeWhile D.isDecimal = d :: ds := by
      rw [List.takeWhile_append_of_pos hdec]
      simp [hpercent]
    have hdrop : (d :: ds ++ '%' :: after).dropWhile D.isDecimal = '%' :: after := by
      rw [List.dropWhile_append_of_pos hdec]
      simp [hpercent]
    simp only [itemAt, htake, hdrop]

/-- An item is at the front or behind it. -/
theorem hasItem_cons_iff {c : Char} {s digits : Text} :
    HasItem D (c :: s) digits ↔ itemAt D (c :: s) = some digits ∨ HasItem D s digits := by
  rw [itemAt_eq_some_iff]
  constructor
  · rintro ⟨hne, hdec, before, after, heq⟩
    cases before with
    | nil => exact .inl ⟨hne, hdec, after, heq⟩
    | cons b before =>
        obtain ⟨rfl, rfl⟩ := List.cons.inj heq
        exact .inr ⟨hne, hdec, before, after, rfl⟩
  · rintro (⟨hne, hdec, after, heq⟩ | h)
    · exact ⟨hne, hdec, [], after, heq⟩
    · exact h.cons c

/-- The digits of the last item: behind its blank none begins. -/
def LastItem (D : DigitClass) (text digits : Text) : Prop :=
  digits ≠ [] ∧ (∀ c ∈ digits, D.isDecimal c = true) ∧
    ∃ before after, text = before ++ ' ' :: (digits ++ '%' :: after) ∧
      ∀ digits', ¬ HasItem D (digits ++ '%' :: after) digits'

/-- The last item is that of the first line with one. -/
def Captured (D : DigitClass) (text digits : Text) : Prop :=
  ∃ pre line post, text.splitOn '\n' = pre ++ line :: post ∧
    (∀ l ∈ pre, ∀ digits', ¬ HasItem D l digits') ∧ LastItem D line digits

/-! ## Within a line -/

/-- The last item of a text, from behind. -/
def lastItem (D : DigitClass) : Text → Option Text
  | [] => none
  | c :: s => (lastItem D s).or (itemAt D (c :: s))

/-- No item is found only if there is none. -/
theorem lastItem_eq_none_iff {s : Text} :
    lastItem D s = none ↔ ∀ digits, ¬ HasItem D s digits := by
  induction s with
  | nil =>
      refine ⟨?_, fun _ => rfl⟩
      rintro - digits ⟨-, -, before, after, heq⟩
      simp at heq
  | cons c s ih =>
      rw [lastItem, Option.or_eq_none_iff, ih, Option.eq_none_iff_forall_ne_some]
      simp only [hasItem_cons_iff, not_or, forall_and]
      exact and_comm

/-- An item at the front is the last exactly if none is behind. -/
theorem lastItem_cons_iff {c : Char} {s digits : Text} :
    LastItem D (c :: s) digits ↔ LastItem D s digits ∨
      itemAt D (c :: s) = some digits ∧ ∀ digits', ¬ HasItem D s digits' := by
  rw [itemAt_eq_some_iff]
  constructor
  · rintro ⟨hne, hdec, before, after, heq, hlast⟩
    cases before with
    | nil =>
        obtain ⟨rfl, rfl⟩ := List.cons.inj heq
        exact .inr ⟨⟨hne, hdec, after, rfl⟩, hlast⟩
    | cons b before =>
        obtain ⟨rfl, rfl⟩ := List.cons.inj heq
        exact .inl ⟨hne, hdec, before, after, rfl, hlast⟩
  · rintro (⟨hne, hdec, before, after, rfl, hlast⟩ | ⟨⟨hne, hdec, after, heq⟩, hlast⟩)
    · exact ⟨hne, hdec, c :: before, after, rfl, hlast⟩
    · obtain ⟨rfl, rfl⟩ := List.cons.inj heq
      exact ⟨hne, hdec, [], after, rfl, hlast⟩

/-- What is found is the last item. -/
theorem lastItem_eq_some_iff {s digits : Text} :
    lastItem D s = some digits ↔ LastItem D s digits := by
  induction s with
  | nil =>
      refine ⟨(fun h => by cases h), ?_⟩
      rintro ⟨-, -, before, after, heq, -⟩
      simp at heq
  | cons c s ih =>
      rw [lastItem, Option.or_eq_some_iff, ih, lastItem_eq_none_iff, lastItem_cons_iff, and_comm]

/-! ## Lines -/

/-- An item does not go on behind the end of its line. -/
theorem itemAt_append_newline {c : Char} {l : Text} (rest : Text) :
    itemAt D (c :: (l ++ '\n' :: rest)) = itemAt D (c :: l) := by
  have hnewline : D.isDecimal '\n' = false := D.ascii '\n' (by decide)
  ext digits
  rw [itemAt_eq_some_iff, itemAt_eq_some_iff]
  refine and_congr_right fun _ => and_congr_right fun hdec => ?_
  simp only [List.cons.injEq, exists_and_left, and_congr_right_iff]
  rintro -
  constructor
  · rintro ⟨after, heq⟩
    have hitem : '\n' ∉ digits ++ ['%'] := by
      intro hmem
      rcases List.mem_append.mp hmem with hmem | hmem
      · exact absurd (hdec _ hmem) (by simp [hnewline])
      · exact absurd hmem (by decide)
    rw [List.append_cons digits] at heq
    rcases List.append_eq_append_iff.mp heq with ⟨mid, hmid, htail⟩ | ⟨mid, hmid, -⟩
    · cases mid with
      | nil => exact ⟨[], by rw [← List.append_nil l, ← hmid]⟩
      | cons d mid =>
          -- the line break would be part of the item
          obtain ⟨rfl, -⟩ := List.cons.inj htail
          exact absurd (hmid ▸ List.mem_append_right l List.mem_cons_self) hitem
    · exact ⟨mid, by rw [hmid, ← List.append_cons]⟩
  · rintro ⟨after, rfl⟩
    exact ⟨after ++ '\n' :: rest, by simp⟩

/-- The line the text begins in, and the rest. -/
theorem lineItems_append_newline {l : Text} (hl : '\n' ∉ l) (rest : Text) :
    lineItems D (l ++ '\n' :: rest) = (lastItem D l, captures D rest) := by
  induction l with
  | nil => rfl
  | cons c l ih =>
      rw [List.mem_cons, not_or] at hl
      rw [List.cons_append, lineItems, ih hl.2]
      simp only [if_neg (Ne.symm hl.1), itemAt_append_newline, lastItem]

theorem lineItems_line {l : Text} (hl : '\n' ∉ l) : lineItems D l = (lastItem D l, none) := by
  induction l with
  | nil => rfl
  | cons c l ih =>
      rw [List.mem_cons, not_or] at hl
      rw [lineItems, ih hl.2]
      simp only [if_neg (Ne.symm hl.1), lastItem]

/-- The first line that has an item counts. -/
theorem captures_intercalate {ls : List Text} (hne : ls ≠ []) (hls : ∀ l ∈ ls, '\n' ∉ l) :
    captures D (['\n'].intercalate ls) = ls.findSome? (lastItem D) := by
  induction ls with
  | nil => exact absurd rfl hne
  | cons l ls ih =>
      have hl := hls l List.mem_cons_self
      cases ls with
      | nil =>
          have hone : ['\n'].intercalate [l] = l := by simp [List.intercalate]
          rw [hone, captures, lineItems_line hl, Option.or_none, List.findSome?_singleton]
      | cons l' ls =>
          have hrest := ih (List.cons_ne_nil l' ls) fun m hm => hls m (List.mem_cons_of_mem l hm)
          rw [List.intercalate_cons_cons, List.append_assoc, List.singleton_append, captures,
            lineItems_append_newline hl, hrest, List.findSome?_cons (a := l)]
          cases lastItem D l <;> rfl

/-- **What the regular expression captures**: the last item of the first line that
has one. -/
theorem captures_eq_some_iff {output digits : Text} :
    captures D output = some digits ↔ Captured D output digits := by
  have hlines : captures D output = (output.splitOn '\n').findSome? (lastItem D) := by
    rw [← captures_intercalate (List.splitOn_ne_nil '\n' output) fun l hl =>
      Kit.Text.not_mem_of_mem_splitOn hl, List.intercalate_splitOn]
  rw [hlines, List.findSome?_eq_some_iff]
  simp only [lastItem_eq_some_iff, lastItem_eq_none_iff]
  constructor
  · rintro ⟨pre, line, post, heq, hline, hpre⟩
    exact ⟨pre, line, post, heq, hpre, hline⟩
  · rintro ⟨pre, line, post, heq, hpre, hline⟩
    exact ⟨pre, line, post, heq, hline, hpre⟩

/-! ## The refresh -/

/-- What is found is an item. -/
theorem hasItem_of_lineItems {s digits : Text}
    (h : (lineItems D s).1 = some digits ∨ (lineItems D s).2 = some digits) :
    HasItem D s digits := by
  induction s with
  | nil => simp [lineItems] at h
  | cons c s ih =>
      rw [hasItem_cons_iff]
      simp only [lineItems] at h
      split at h
      · simp only [reduceCtorEq, false_or, Option.or_eq_some_iff] at h
        exact .inr (ih (h.imp id And.right))
      · simp only [Option.or_eq_some_iff] at h
        rcases h with (h | ⟨-, h⟩) | h
        · exact .inr (ih (.inl h))
        · exact .inl h
        · exact .inr (ih (.inr h))

theorem hasItem_of_captures {output digits : Text} (h : captures D output = some digits) :
    HasItem D output digits := by
  rw [captures, Option.or_eq_some_iff] at h
  exact hasItem_of_lineItems (h.imp id And.right)

/-- Something is found if there is an item. -/
theorem captures_eq_none_iff {output : Text} :
    captures D output = none ↔ ∀ digits, ¬ HasItem D output digits := by
  constructor
  · intro h
    unfold captures at h
    induction output with
    | nil =>
        rintro digits ⟨-, -, before, after, heq⟩
        simp at heq
    | cons c s ih =>
        intro digits hitem
        rw [hasItem_cons_iff] at hitem
        simp only [lineItems] at h
        split at h
        · -- a line break, which begins no item
          rename_i hc
          rw [Option.none_or] at h
          rcases hitem with hitem | hitem
          · subst hc
            simp [itemAt] at hitem
          · exact ih h digits hitem
        · simp only [Option.or_eq_none_iff] at h
          rcases hitem with hitem | hitem
          · rw [h.1.2] at hitem
            simp at hitem
          · refine ih ?_ digits hitem
            rw [h.1.1, h.2]
            rfl
  · intro h
    cases hc : captures D output with
    | none => rfl
    | some digits => exact absurd (hasItem_of_captures hc) (h digits)

/-- Digits of a number that fits into a byte. -/
theorem parseU8_eq_some_iff {digits : Text} {n : Fin 256} :
    parseU8 digits = some n ↔
      digits.all Char.isDigit = true ∧ Nat.ofDigitChars 10 digits 0 = n := by
  unfold parseU8
  split
  · next h => simp [h.1, Fin.ext_iff]
  · next h =>
      simp only [reduceCtorEq, false_iff]
      rintro ⟨hascii, hn⟩
      exact h ⟨hascii, hn ▸ n.isLt⟩

/-- The text has no item, or the digits captured are ASCII and at most 255. -/
def Fits (D : DigitClass) (text : Text) : Prop :=
  ∀ digits, Captured D text digits →
    digits.all Char.isDigit = true ∧ Nat.ofDigitChars 10 digits 0 ≤ 255

/-- When the volume can be read at all. -/
theorem getVolume_isSome_iff {output : Text} :
    (getVolume D output).isSome = true ↔ Fits D output := by
  unfold getVolume Fits
  simp only [← captures_eq_some_iff]
  cases captures D output with
  | none => simp
  | some digits =>
      rw [Option.isSome_iff_exists]
      constructor
      · rintro ⟨n, hn⟩ _ ⟨rfl⟩
        obtain ⟨hascii, hn⟩ := parseU8_eq_some_iff.mp hn
        exact ⟨hascii, by omega⟩
      · intro h
        obtain ⟨hascii, hle⟩ := h digits rfl
        exact ⟨⟨_, Nat.lt_succ_of_le hle⟩, parseU8_eq_some_iff.mpr ⟨hascii, rfl⟩⟩

/-- The volume is the percentage captured, which is one of those in the text, or 255
if there is none. -/
theorem getVolume_spec {output : Text} {n : Fin 256} (h : getVolume D output = some n) :
    (∃ digits, Captured D output digits ∧ HasItem D output digits ∧
        (n : ℕ) = Nat.ofDigitChars 10 digits 0) ∨
      (∀ digits, ¬ HasItem D output digits) ∧ n = 255 := by
  unfold getVolume at h
  cases hc : captures D output with
  | none =>
      rw [hc] at h
      exact .inr ⟨captures_eq_none_iff.mp hc, (Option.some.inj h).symm⟩
  | some digits =>
      rw [hc] at h
      obtain ⟨-, hn⟩ := parseU8_eq_some_iff.mp h
      exact .inl ⟨digits, captures_eq_some_iff.mp hc, hasItem_of_captures hc, hn.symm⟩

/-- `get_volume` goes through exactly if the last item of the first line that has one,
if any, is of ASCII digits and at most 255. A refresh goes through exactly if the crate
does not panic on the format, either. The volume is then that item's percentage, or 255
if the text has no item. -/
theorem refresh_iff (D : DigitClass) (R : RtFormat) (volumeOutput muteOutput fmtStr : Text)
    (htmlEscape : Bool) (st : PactlState) :
    ((getVolume D volumeOutput).isSome = true ↔ Fits D volumeOutput) ∧
    ((st.refresh D R volumeOutput muteOutput fmtStr htmlEscape).isSome = true ↔
      Fits D volumeOutput ∧
        ∀ st', st.read D volumeOutput muteOutput = some st' → ∀ caps ∈ placeholders fmtStr,
          ∀ val, st'.placeholderValue caps.name = some val →
            R.display caps.format val ≠ .panicked) ∧
    ∀ st', st.refresh D R volumeOutput muteOutput fmtStr htmlEscape = some st' →
      (∃ digits, Captured D volumeOutput digits ∧ HasItem D volumeOutput digits ∧
          (st'.volume : ℕ) = Nat.ofDigitChars 10 digits 0) ∨
        (∀ digits, ¬ HasItem D volumeOutput digits) ∧ st'.volume = 255 := by
  refine ⟨getVolume_isSome_iff, ?_, ?_⟩
  · rw [← getVolume_isSome_iff]
    unfold PactlState.refresh PactlState.read
    -- Without a volume there is nothing to format.
    cases getVolume D volumeOutput with
    | none => simp
    | some volume =>
        simp only [Option.map_some, Option.bind_eq_bind, Option.bind_some, Option.isSome_some,
          true_and, Option.some.injEq, forall_eq']
        rw [← @substPlaceholders_isSome_iff R htmlEscape]
        cases substPlaceholders R fmtStr htmlEscape
          (PactlState.placeholderValue { st with volume, muted := getMuteState muteOutput }) <;>
          rfl
  · intro st' h
    obtain ⟨st₁, hread, h⟩ := Option.bind_eq_some_iff.mp h
    obtain ⟨text, -, hst'⟩ := Option.bind_eq_some_iff.mp h
    obtain ⟨volume, hvolume, rfl⟩ := Option.map_eq_some_iff.mp hread
    obtain rfl := Option.some.inj hst'
    exact getVolume_spec hvolume

/-- A volume of 300 per cent. -/
def loudOutput : Text :=
  "Volume: front-left: 196608 / 300% / 28.63 dB".toList

theorem refresh_loud_panics :
    Captured .basic loudOutput "300".toList ∧ getVolume .basic loudOutput = none ∧
      (PactlState.refresh .basic .basic loudOutput "Mute: no".toList "\x7bvolume\x7d%".toList
        false ⟨255, false, []⟩).isSome = false :=
  ⟨captures_eq_some_iff.mp (by decide +kernel), by decide +kernel, by decide +kernel⟩

end Swayr.Theorems.Volume
