import Swayr.Kit.Text

/-!
# Formatting (`shared/fmt.rs`)

Format strings hold placeholders such as `{name}` or `{name:{:>10.10}…}`. A
placeholder's value is padded and cut as its inner format says, marked with the
clip string where something was cut off, and escaped.

Padding and cutting are done by the `rt_format` crate. What the daemon relies on
there is `RtFormat`; the crate may do anything with the formats it says nothing
about, and panic on them. It hands the width and the precision to the standard
library, which has sixteen bits for them and panics on more. A result `none` is
such a panic.
-/

namespace Swayr.Shared

open Kit.Text

abbrev Text := List Char

/-- `FmtArg`; a float is given by the text `to_string` shows it as, which tells it
apart from all others. -/
inductive FmtArg
  | i64 (x : ℤ)
  | i32 (x : ℤ)
  | u8 (x : ℕ)
  | f64 (shown : Text)
  | f32 (shown : Text)
  | string (s : Text)
deriving DecidableEq, Repr

def FmtArg.toString : FmtArg → Text
  | .string x => x
  | .i64 x => decimal x
  | .i32 x => decimal x
  | .u8 x => decimal x
  | .f64 shown => shown
  | .f32 shown => shown

/-! ## The `rt_format` crate -/

inductive Align
  | left | center | right
deriving DecidableEq, Repr

def Align.char : Align → Char
  | .left => '<'
  | .center => '^'
  | .right => '>'

/-- `s` in a field of at least `width` characters. Texts stand on the left
unless told otherwise; in the middle the odd blank goes to the right. -/
def pad (align : Option Align) (width : ℕ) (s : Text) : Text :=
  let fill := width - s.length
  match align with
  | none | some .left => s ++ List.replicate fill ' '
  | some .right => List.replicate fill ' ' ++ s
  | some .center => List.replicate (fill / 2) ' ' ++ s ++ List.replicate (fill - fill / 2) ' '

/-- The format `{:<align>W.N}`. -/
def spec (align : Option Align) (width precision : ℕ) : Text :=
  "\x7b:".toList ++ (align.map Align.char).toList ++ decimal width ++
    '.' :: decimal precision ++ ['}']

/-- What becomes of a format and a value. -/
inductive Displayed
  | shown (s : Text)
  /-- The format does not parse. -/
  | invalid
  | panicked
deriving DecidableEq, Repr

/-- `ParsedFormat::parse` and the `Display` of its result. -/
structure RtFormat where
  display : Text → FmtArg → Displayed
  display_plain : ∀ arg, display "\x7b\x7d".toList arg = .shown arg.toString

/-- No format makes the crate panic. -/
def RtFormat.Total (R : RtFormat) : Prop := ∀ fmt arg, R.display fmt arg ≠ .panicked

/-- The precision keeps the first characters, then the text is padded. -/
def RtFormat.Clips (R : RtFormat) (align : Option Align) (width precision : ℕ) : Prop :=
  ∀ s, R.display (spec align width precision) (.string s) =
    .shown (pad align width (s.take precision))

/-- What `{}` and `{:<align>W.N}` say, the width and the precision being
optional. -/
structure Spec where
  align : Option Align
  width : ℕ
  precision : Option ℕ
deriving DecidableEq, Repr

def readAlign : Text → Option Align × Text
  | '<' :: s => (some .left, s)
  | '^' :: s => (some .center, s)
  | '>' :: s => (some .right, s)
  | s => (none, s)

def readSpec : Text → Option Spec
  | ['{', '}'] => some ⟨none, 0, none⟩
  | '{' :: ':' :: s =>
      let (align, s) := readAlign s
      let width := Nat.ofDigitChars 10 (s.takeWhile Char.isDigit) 0
      match s.dropWhile Char.isDigit with
      | ['}'] => some ⟨align, width, none⟩
      | '.' :: s =>
          let precision := Nat.ofDigitChars 10 (s.takeWhile Char.isDigit) 0
          match s.dropWhile Char.isDigit with
          | ['}'] => some ⟨align, width, some precision⟩
          | _ => none
      | _ => none
  | _ => none

/-- A number ends at the first character that is no digit. -/
theorem takeWhile_isDigit_decimal {c : Char} (hc : c.isDigit = false) (n : ℕ) (s : Text) :
    (decimal n ++ c :: s).takeWhile Char.isDigit = Nat.toDigits 10 n ∧
      (decimal n ++ c :: s).dropWhile Char.isDigit = c :: s := by
  have hdigits : ∀ d ∈ Nat.toDigits 10 n, d.isDigit = true := fun d hd =>
    Nat.isDigit_of_mem_toDigits (by decide) (by decide) hd
  rw [decimal_ofNat, List.takeWhile_append_of_pos hdigits, List.dropWhile_append_of_pos hdigits]
  simp [hc]

theorem readAlign_spec (align : Option Align) (n : ℕ) (s : Text) :
    readAlign ((align.map Align.char).toList ++ (decimal n ++ s)) = (align, decimal n ++ s) := by
  cases align with
  | some a => cases a <;> rfl
  | none =>
      -- the first digit of the width is no alignment
      have hne : decimal n ≠ [] := by
        rw [decimal_ofNat]
        exact Nat.toDigits_ne_nil
      obtain ⟨d, ds, hd⟩ := List.exists_cons_of_ne_nil hne
      have hdigit : d.isDigit = true := by
        have hmem : d ∈ Nat.toDigits 10 n := by
          rw [← decimal_ofNat, hd]
          exact List.mem_cons_self
        exact Nat.isDigit_of_mem_toDigits (by decide) (by decide) hmem
      rw [hd]
      simp only [Option.map_none, Option.toList_none, List.nil_append, List.cons_append]
      unfold readAlign
      split
      all_goals first
        | rfl
        | (rename_i heq
           obtain ⟨rfl, -⟩ := List.cons.inj heq
           exact absurd hdigit (by decide))

/-- A specification is read as it is written. -/
theorem readSpec_spec (align : Option Align) (width precision : ℕ) :
    readSpec (spec align width precision) = some ⟨align, width, some precision⟩ := by
  obtain ⟨hw, hw'⟩ := takeWhile_isDigit_decimal (c := '.') (by decide) width
    (decimal precision ++ ['}'])
  obtain ⟨hp, hp'⟩ := takeWhile_isDigit_decimal (c := '}') (by decide) precision []
  have hspec : spec align width precision = '{' :: ':' ::
      ((align.map Align.char).toList ++
        (decimal width ++ '.' :: (decimal precision ++ ['}']))) := by
    simp [spec]
  rw [hspec]
  simp only [readSpec, readAlign_spec, hw, hw', hp, hp']
  simp

/-- The widths and precisions the standard library formats with. -/
def Spec.inRange (sp : Spec) : Bool := sp.width < 65536 && sp.precision.all (· < 65536)

/-- An executable model of the crate, for texts and for numbers, which ignore
the precision and stand on the right. -/
def RtFormat.basic : RtFormat where
  display fmt arg :=
    match readSpec fmt with
    | none => .invalid
    | some sp =>
        if sp.inRange then
          match arg with
          | .string s => .shown (pad sp.align sp.width (s.take (sp.precision.getD s.length)))
          | arg => .shown (pad (some (sp.align.getD .right)) sp.width arg.toString)
        else .panicked
  display_plain arg := by
    cases arg <;> simp [readSpec, Spec.inRange, pad, FmtArg.toString]

/-- Widths below the limit are clipped to by the basic crate. -/
theorem RtFormat.basic_clips (align : Option Align) {width precision : ℕ} (hw : width < 65536)
    (hp : precision < 65536) : RtFormat.basic.Clips align width precision := by
  intro s
  simp [basic, readSpec_spec, Spec.inRange, hw, hp]

/-! ## `rt_format` -/

variable {s : Text} {n : ℕ}

/-- A character ends on a boundary. -/
theorem isCharBoundary_of_nthBack {pos : ℕ} {ch : Char}
    (h : (charIndices 0 s).reverse[n]? = some (pos, ch)) :
    IsCharBoundary s (pos + ch.utf8Size) := by
  obtain ⟨p, r, hs, hp, -⟩ := charIndices_nthBack h
  refine ⟨p ++ [ch], ⟨r, by simp [hs]⟩, ?_⟩
  simp [hp]

/-- `remove_last_n_chars`. -/
def removeLastNChars (s : Text) (n : ℕ) : Text :=
  match h : (charIndices 0 s).reverse[n]? with
  | some (pos, ch) => truncate s (pos + ch.utf8Size) (isCharBoundary_of_nthBack h)
  | none => []

/-- Cutting at a byte position is cutting off characters. -/
theorem removeLastNChars_eq (s : Text) (n : ℕ) : removeLastNChars s n = s.take (s.length - n) := by
  unfold removeLastNChars
  split
  · rename_i pos ch h
    obtain ⟨p, r, hs, hp, hr⟩ := charIndices_nthBack h
    have hsplit : s = (p ++ [ch]) ++ r := by simp [hs]
    have hlen : s.length - n = (p ++ [ch]).length := by
      simp only [hsplit, List.length_append]
      omega
    have hpos : pos + ch.utf8Size = utf8Len (p ++ [ch]) := by simp [hp]
    rw [truncate, hlen, hpos, hsplit, upTo_append, List.take_left]
  · rename_i h
    have hle : s.length ≤ n := by simpa using h
    simp [Nat.sub_eq_zero_of_le hle]

/-- `rt_format`. -/
def rtFormat (R : RtFormat) (fmt : Text) (arg : FmtArg) (clippedStr : Text) : Option Text :=
  match R.display fmt arg with
  | .shown s =>
      some (if !clippedStr.isEmpty && !decide (arg.toString <:+: s) then
        removeLastNChars s clippedStr.length ++ clippedStr
      else s)
  | .invalid => some ("Invalid format string: ".toList ++ fmt)
  | .panicked => none

/-- Without a format of its own a value is left as it is. -/
theorem rtFormat_plain (R : RtFormat) (arg : FmtArg) :
    rtFormat R "\x7b\x7d".toList arg [] = some arg.toString := by
  rw [rtFormat, R.display_plain]
  simp

theorem rtFormat_isSome_iff {R : RtFormat} {fmt clippedStr : Text} {arg : FmtArg} :
    (rtFormat R fmt arg clippedStr).isSome = true ↔ R.display fmt arg ≠ .panicked := by
  unfold rtFormat
  cases R.display fmt arg <;> simp

/-! ## Escaping -/

/-- `maybe_html_escape`. -/
def maybeHtmlEscape (doIt : Bool) (text : Text) : Text :=
  if doIt then
    replaceChar '&' "&amp;".toList
      (replaceChar '>' "&gt;".toList (replaceChar '<' "&lt;".toList text))
  else text

/-! ## Placeholders -/

/-- The groups of a match of `PLACEHOLDER_RX`. -/
structure Captures where
  /-- The whole match. -/
  text : Text
  name : Text
  fmtstr : Option Text
  clipstr : Option Text
deriving DecidableEq, Repr

/-- A match of `\{(?P<name>[^}:]+)(?::(?P<fmtstr>\{[^}]*\})(?P<clipstr>[^}]*))?\}` at the
front of a text. Every class excludes the characters that can follow it, so
each repetition has one way to match. -/
def placeholderAt : Text → Option Captures
  | '{' :: s =>
      let name := s.takeWhile fun c => c != '}' && c != ':'
      if name.isEmpty then none
      else
        match s.dropWhile fun c => c != '}' && c != ':' with
        | '}' :: _ => some ⟨'{' :: name ++ ['}'], name, none, none⟩
        | ':' :: '{' :: s =>
            let fmtstr := '{' :: s.takeWhile (· != '}') ++ ['}']
            match s.dropWhile (· != '}') with
            | '}' :: s =>
                let clipstr := s.takeWhile (· != '}')
                match s.dropWhile (· != '}') with
                | '}' :: _ =>
                    some ⟨'{' :: name ++ ':' :: fmtstr ++ clipstr ++ ['}'], name, some fmtstr,
                      some clipstr⟩
                | _ => none
            | _ => none
        | _ => none
  | _ => none

/-- The format a placeholder's value is shown with. -/
def Captures.format (caps : Captures) : Text := caps.fmtstr.getD "\x7b\x7d".toList

/-- The placeholders of a format string, as `replace_all` finds them. -/
def placeholders (fmtStr : Text) : List Captures :=
  findsFrom (fun s => (placeholderAt s).map fun caps => (caps.text.length, caps)) 0 fmtStr

/-- What comes in the place of a placeholder. -/
def substituted (R : RtFormat) (htmlEscape : Bool) (values : Text → Option FmtArg)
    (caps : Captures) : Option Text :=
  match values caps.name with
  | some val =>
      (rtFormat R caps.format val (caps.clipstr.getD [])).map (maybeHtmlEscape htmlEscape)
  | none => some caps.text

/-- The macro `subst_placeholders`; `values` are its arms, and a placeholder
without one is left alone. -/
def substPlaceholders (R : RtFormat) (fmtStr : Text) (htmlEscape : Bool)
    (values : Text → Option FmtArg) : Option Text :=
  tryReplaceAll (fun s => (placeholderAt s).map fun caps =>
    (caps.text.length, substituted R htmlEscape values caps)) fmtStr

section subst

variable {R : RtFormat} {htmlEscape : Bool} {values : Text → Option FmtArg}

/-- Only a placeholder with a value can make the crate panic. -/
theorem substituted_isSome_iff {caps : Captures} :
    (substituted R htmlEscape values caps).isSome = true ↔
      ∀ val, values caps.name = some val → R.display caps.format val ≠ .panicked := by
  unfold substituted
  cases values caps.name with
  | none => simp
  | some val => simp [rtFormat_isSome_iff]

/-- A format string can be filled in exactly if the crate panics on none of its
placeholders. -/
theorem substPlaceholders_isSome_iff {fmtStr : Text} :
    (substPlaceholders R fmtStr htmlEscape values).isSome = true ↔
      ∀ caps ∈ placeholders fmtStr, ∀ val, values caps.name = some val →
        R.display caps.format val ≠ .panicked := by
  have hfinds := findsFrom_map
    (fun s => (placeholderAt s).map fun caps => (caps.text.length, caps))
    (substituted R htmlEscape values) 0 fmtStr
  simp only [Option.map_map, Function.comp_def] at hfinds
  rw [substPlaceholders, tryReplaceAll, tryReplaceFrom_isSome_iff, placeholders]
  simp only [hfinds, List.forall_mem_map, substituted_isSome_iff]

end subst

end Swayr.Shared
