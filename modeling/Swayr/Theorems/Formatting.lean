import Swayr.Shared.Fmt

/-!
# Clipping and escaping of placeholder values

A value that fits its placeholder is only padded, and one that does not is cut
to make room for the clip string, counted in characters throughout. Escaping
chains three replacements, of which the last one rewrites what the first two
have put in: a text with an angle bracket is not escaped as it should be, and
cannot be decoded.
-/

namespace Swayr.Theorems.Formatting

open Kit.Text Swayr.Shared

/-! ## Clipping -/

section clipping

variable {R : RtFormat} {align : Option Align} {width precision : ℕ} {a clip : Text}

/-- Padding adds blanks on both sides. -/
theorem exists_pad_eq (align : Option Align) (a : Text) (width : ℕ) :
    ∃ l r, pad align width a = List.replicate l ' ' ++ a ++ List.replicate r ' ' := by
  unfold pad
  split
  · exact ⟨0, _, rfl⟩
  · exact ⟨0, _, rfl⟩
  · exact ⟨width - a.length, 0, by simp⟩
  · exact ⟨_, _, rfl⟩

/-- Padding never cuts. -/
theorem length_pad (align : Option Align) (a : Text) (width : ℕ) :
    (pad align width a).length = max width a.length := by
  unfold pad
  split <;> simp <;> omega

/-- A text of at most `precision` characters is found in the padded result, so
nothing is clipped. -/
theorem rtFormat_of_fits (hR : R.Clips align width precision) (h : a.length ≤ precision) :
    rtFormat R (spec align width precision) (.string a) clip = some (pad align width a) := by
  obtain ⟨l, r, hpad⟩ := exists_pad_eq align a width
  have hinfix : a <:+: pad align width a := ⟨_, _, hpad.symm⟩
  rw [rtFormat, hR, List.take_of_length_le h]
  simp [FmtArg.toString, hinfix]

/-- A longer one leaves no room for padding and is missing from the result. -/
theorem rtFormat_of_exceeds (hR : R.Clips align width precision) (hw : width ≤ precision)
    (h : precision < a.length) :
    rtFormat R (spec align width precision) (.string a) clip =
      some (a.take (precision - clip.length) ++ clip) := by
  have hlen : (a.take precision).length = precision := by simp; omega
  have hpad : pad align width (a.take precision) = a.take precision := by
    have hfill : width - (a.take precision).length = 0 := by omega
    unfold pad
    rw [hfill]
    split <;> simp
  have hmissing : ¬ a <:+: a.take precision := fun hin => by
    have := hin.length_le
    omega
  rw [rtFormat, hR, hpad]
  cases clip with
  | nil => simp
  | cons c cs =>
      simp only [FmtArg.toString, hmissing, List.isEmpty_cons, decide_false, Bool.not_false,
        Bool.and_self, if_true, removeLastNChars_eq, hlen, List.take_take]
      rw [Nat.min_eq_left (by omega)]

end clipping

/-- **Clipping.** With the format `{:<align>W.N}`, `W ≤ N`, if the crate cuts to `N`
characters and then pads: a text of at most `N` characters is padded to `W` and not
altered otherwise; a longer one is cut to what the clip string leaves of `N`
characters (nothing, if it leaves none) and followed by the clip string. The result
has at most `N` characters, or those of the clip string. -/
theorem rtFormat_clips (R : RtFormat) (align : Option Align) (width precision : ℕ)
    (a clip : Text) (hR : R.Clips align width precision) (hw : width ≤ precision) :
    ∃ out, rtFormat R (spec align width precision) (.string a) clip = some out ∧
      (a.length ≤ precision →
        out = pad align width a ∧ out.length = max width a.length ∧
        ∃ l r, out = List.replicate l ' ' ++ a ++ List.replicate r ' ') ∧
      (precision < a.length → out = a.take (precision - clip.length) ++ clip) ∧
      out.length ≤ max precision clip.length := by
  rcases Nat.lt_or_ge precision a.length with h | h
  · refine ⟨_, rtFormat_of_exceeds hR hw h, fun hfits => by omega, fun _ => rfl, ?_⟩
    simp
    omega
  · refine ⟨_, rtFormat_of_fits hR h, fun _ => ?_, fun hexceeds => by omega, ?_⟩
    · exact ⟨rfl, length_pad align a width, exists_pad_eq align a width⟩
    · rw [length_pad]
      omega

/-- Characters of four bytes: the first three and the clip string make five. -/
theorem rtFormat_clips_window :
    rtFormat .basic (spec none 0 5) (.string "𝔴𝔦𝔫𝔡𝔬𝔴".toList) "…?".toList =
      some "𝔴𝔦𝔫…?".toList := by
  obtain ⟨out, hout, -, hcut, -⟩ := rtFormat_clips .basic none 0 5 "𝔴𝔦𝔫𝔡𝔬𝔴".toList "…?".toList
    (RtFormat.basic_clips none (by decide) (by decide)) (by decide)
  rw [hout, hcut (by decide)]
  rfl

/-! ## Escaping -/

/-- What should come in a character's place. -/
def entity (c : Char) : Text :=
  if c = '<' then "&lt;".toList
  else if c = '>' then "&gt;".toList
  else if c = '&' then "&amp;".toList
  else [c]

/-- The text with each of the three characters replaced once, independently of
the others. -/
def escaped (s : Text) : Text := s.flatMap entity

/-- An entity at the front of a text. -/
def entityAt : Matcher Char := fun s =>
  if "&lt;".toList.isPrefixOf s then some (4, ['<'])
  else if "&gt;".toList.isPrefixOf s then some (4, ['>'])
  else if "&amp;".toList.isPrefixOf s then some (5, ['&'])
  else none

/-- The text with the three entities read back. -/
def decode (s : Text) : Text := replaceAll entityAt s

theorem decode_plain {c : Char} (h : c ≠ '&') (s : Text) : decode (c :: s) = c :: decode s := by
  refine replaceAll_of_none ?_
  simp [entityAt, Ne.symm h]

theorem decode_amp (s : Text) : decode ("&amp;".toList ++ s) = '&' :: decode s := by
  have hmatch : entityAt ('&' :: "amp;".toList ++ s) = some (4 + 1, ['&']) := by simp [entityAt]
  exact replaceAll_of_some hmatch

/-- What the three replacements put in a character's place. -/
def replacement (c : Char) : Text :=
  if c = '<' then "&amp;lt;".toList
  else if c = '>' then "&amp;gt;".toList
  else if c = '&' then "&amp;".toList
  else [c]

/-- What reading that back gives. -/
def readBack (c : Char) : Text :=
  if c = '<' then "&lt;".toList
  else if c = '>' then "&gt;".toList
  else [c]

theorem maybeHtmlEscape_eq (s : Text) : maybeHtmlEscape true s = s.flatMap replacement := by
  simp only [maybeHtmlEscape, replaceChar, if_true, List.flatMap_assoc]
  congr 1
  funext c
  by_cases hlt : c = '<'
  · subst hlt
    rfl
  by_cases hgt : c = '>'
  · subst hgt
    rfl
  by_cases hamp : c = '&'
  · subst hamp
    rfl
  simp [replacement, hlt, hgt, hamp]

/-- What is written for a character is read back as that character, or as what stands for it. -/
theorem decode_replacement (c : Char) (s : Text) :
    decode (replacement c ++ s) = readBack c ++ decode s := by
  by_cases hlt : c = '<'
  · subst hlt
    change decode ("&amp;".toList ++ 'l' :: 't' :: ';' :: s) = _
    rw [decode_amp, decode_plain (by decide), decode_plain (by decide), decode_plain (by decide)]
    rfl
  by_cases hgt : c = '>'
  · subst hgt
    change decode ("&amp;".toList ++ 'g' :: 't' :: ';' :: s) = _
    rw [decode_amp, decode_plain (by decide), decode_plain (by decide), decode_plain (by decide)]
    rfl
  by_cases hamp : c = '&'
  · subst hamp
    exact decode_amp s
  · have hc : replacement c = [c] ∧ readBack c = [c] := by
      simp [replacement, readBack, hlt, hgt, hamp]
    rw [hc.1, hc.2]
    exact decode_plain hamp s

/-- Character by character. -/
theorem decode_maybeHtmlEscape (s : Text) :
    decode (maybeHtmlEscape true s) = s.flatMap readBack := by
  rw [maybeHtmlEscape_eq]
  induction s with
  | nil => rfl
  | cons c s ih => rw [List.flatMap_cons, List.flatMap_cons, decode_replacement, ih]

/-- Replacing characters one by one by texts that differ exactly at the angle
brackets gives different texts if there is one. -/
theorem flatMap_eq_iff {f g : Char → Text} (hf : ∀ c, c ≠ '<' → c ≠ '>' → f c = g c)
    (hlt : ∀ s t, f '<' ++ s ≠ g '<' ++ t) (hgt : ∀ s t, f '>' ++ s ≠ g '>' ++ t) (s : Text) :
    s.flatMap f = s.flatMap g ↔ '<' ∉ s ∧ '>' ∉ s := by
  induction s with
  | nil => simp
  | cons c s ih =>
      rw [List.flatMap_cons, List.flatMap_cons]
      by_cases hc : c = '<'
      · subst hc
        simpa using hlt _ _
      by_cases hc' : c = '>'
      · subst hc'
        simpa using hgt _ _
      rw [hf c hc hc', List.append_cancel_left_eq, ih]
      simp [Ne.symm hc, Ne.symm hc']

/-- **HTML escaping.** A text is escaped as it should be, and can be decoded,
exactly if it has no angle bracket. Escaping distributes over concatenation in
any case. -/
theorem maybeHtmlEscape_iff (s : Text) :
    (maybeHtmlEscape true s = escaped s ↔ '<' ∉ s ∧ '>' ∉ s) ∧
    (decode (maybeHtmlEscape true s) = s ↔ '<' ∉ s ∧ '>' ∉ s) ∧
    ∀ t, maybeHtmlEscape true (s ++ t) = maybeHtmlEscape true s ++ maybeHtmlEscape true t := by
  refine ⟨?_, ?_, fun t => ?_⟩
  · rw [maybeHtmlEscape_eq, escaped]
    refine flatMap_eq_iff (fun c hlt hgt => ?_) ?_ ?_ s
    · simp [replacement, entity, hlt, hgt]
    · intro s t
      simp [replacement, entity]
    · intro s t
      simp [replacement, entity]
  · -- Reading back is compared with the text character by character.
    rw [decode_maybeHtmlEscape]
    have hself : s = s.flatMap fun c => [c] := by simp
    conv_lhs => rhs; rw [hself]
    refine flatMap_eq_iff (fun c hlt hgt => ?_) ?_ ?_ s
    · simp [readBack, hlt, hgt]
    · intro s t
      simp [readBack]
    · intro s t
      simp [readBack]
  · rw [maybeHtmlEscape_eq, maybeHtmlEscape_eq, maybeHtmlEscape_eq, List.flatMap_append]

/-- A single angle bracket comes out escaped twice. -/
theorem maybeHtmlEscape_angle_bracket :
    maybeHtmlEscape true "a<b".toList = "a&amp;lt;b".toList ∧
      escaped "a<b".toList = "a&lt;b".toList ∧
      decode (maybeHtmlEscape true "a<b".toList) = "a&lt;b".toList := by
  decide

end Swayr.Theorems.Formatting
