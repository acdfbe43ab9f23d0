import Swayr.Bar.Module

/-!
# The pactl module's refresh (`module/pactl.rs`)

The volume is captured from what `pactl get-sink-volume` prints by the regular
expression `.?* (\d+)%.*`. A dot matches no line break and the repetition in front
is greedy: the match is in the first line with an item ` <digits>%`, and captures
the digits of the last item in that line.
-/

namespace Swayr.Bar

open Shared Kit.Text

/-- The regex crate's class `\d`, the decimal digits of all scripts. -/
structure DigitClass where
  isDecimal : Char → Bool
  ascii : ∀ c, c.toNat < 128 → isDecimal c = c.isDigit

/-- ASCII only. -/
def DigitClass.basic : DigitClass where
  isDecimal := Char.isDigit
  ascii _ _ := rfl

variable (D : DigitClass)

/-- The digits of an item at the front of a text. -/
def itemAt : Text → Option Text
  | ' ' :: s =>
      match s.takeWhile D.isDecimal, s.dropWhile D.isDecimal with
      | d :: ds, '%' :: _ => some (d :: ds)
      | _, _ => none
  | _ => none

/-- The last item of the line the text begins in, and what the lines behind it
give. -/
def lineItems : Text → Option Text × Option Text
  | [] => (none, none)
  | c :: s =>
      let items := lineItems s
      if c = '\n' then (none, items.1.or items.2)
      else (items.1.or (itemAt D (c :: s)), items.2)

/-- The first group of the match of `VOLUME_RX`. -/
def captures (output : Text) : Option Text :=
  (lineItems D output).1.or (lineItems D output).2

/-- `str::parse::<u8>` of decimal digits. -/
def parseU8 (digits : Text) : Option (Fin 256) :=
  if h : digits.all Char.isDigit = true ∧ Nat.ofDigitChars 10 digits 0 < 256 then
    some ⟨Nat.ofDigitChars 10 digits 0, h.2⟩
  else none

/-- `get_volume`, of what `pactl` prints; `none` is the panic of its `unwrap`. -/
def getVolume (output : Text) : Option (Fin 256) :=
  match captures D output with
  | some digits => parseU8 digits
  | none => some ⟨255, by decide⟩

/-- `get_mute_state`. -/
def getMuteState (output : Text) : Bool := decide ("yes".toList <:+: output)

/-- What `refresh_state` of the pactl module puts into the state before the text. -/
def PactlState.read (volumeOutput muteOutput : Text) (st : PactlState) : Option PactlState :=
  (getVolume D volumeOutput).map fun volume =>
    { st with volume, muted := getMuteState muteOutput }

/-- `refresh_state` of the pactl module; `none` is a panic. -/
def PactlState.refresh (R : RtFormat) (volumeOutput muteOutput fmtStr : Text) (htmlEscape : Bool)
    (st : PactlState) : Option PactlState := do
  let st ← st.read D volumeOutput muteOutput
  let text ← substPlaceholders R fmtStr htmlEscape st.placeholderValue
  some { st with cachedText := text }

end Swayr.Bar
