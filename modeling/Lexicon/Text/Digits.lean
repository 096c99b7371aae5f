import Lexicon.Text.Blank

/-! Integers written in decimal digits of any script. Blanks may surround the number, one sign may
precede it, and a single underscore may stand between two digits. Numbers of very many digits are
refused, leading zeros counted. -/
namespace Lexicon.Text

/-- Code points of the digit zero in every script that has decimal digits in Unicode 14; the nine
digits after each of them follow in order. -/
def digitZeros : List Nat := [
  0x0030, 0x0660, 0x06F0, 0x07C0, 0x0966, 0x09E6, 0x0A66, 0x0AE6, 0x0B66, 0x0BE6, 0x0C66, 0x0CE6,
  0x0D66, 0x0DE6, 0x0E50, 0x0ED0, 0x0F20, 0x1040, 0x1090, 0x17E0, 0x1810, 0x1946, 0x19D0, 0x1A80,
  0x1A90, 0x1B50, 0x1BB0, 0x1C40, 0x1C50, 0xA620, 0xA8D0, 0xA900, 0xA9D0, 0xA9F0, 0xAA50, 0xABF0,
  0xFF10, 0x104A0, 0x10D30, 0x11066, 0x110F0, 0x11136, 0x111D0, 0x112F0, 0x11450, 0x114D0, 0x11650,
  0x116C0, 0x11730, 0x118E0, 0x11950, 0x11C50, 0x11D50, 0x11DA0, 0x16A60, 0x16AC0, 0x16B50,
  0x1D7CE, 0x1D7D8, 0x1D7E2, 0x1D7EC, 0x1D7F6, 0x1E140, 0x1E2F0, 0x1E950, 0x1FBF0]

example : digitZeros.length = 66 := by decide

/-- The value of a decimal digit of any script. -/
def digitValue? (c : Char) : Option Nat :=
  (digitZeros.find? fun first => first ≤ c.toNat && c.toNat ≤ first + 9).map (c.toNat - ·)

example : digitValue? '7' = some 7 ∧ digitValue? '٧' = some 7 ∧ digitValue? 'x' = none := by decide

/-- The blanks allowed around a number; the four separator controls are not among them. -/
def isNumberBlank (c : Char) : Bool := isBlank c && !(0x1C ≤ c.toNat && c.toNat ≤ 0x1F)

/-- Reads the digits that follow at least one digit, `value` being the number so far. -/
def digitsAfter (value : Nat) : Text → Option Nat
  | [] => some value
  | '_' :: c :: s => do digitsAfter (10 * value + (← digitValue? c)) s
  | c :: s => do digitsAfter (10 * value + (← digitValue? c)) s

/-- One or more digits with single underscores between them. -/
def digits? : Text → Option Nat
  | [] => none
  | c :: s => do digitsAfter (← digitValue? c) s

def signed? : Text → Option Int
  | '-' :: s => (digits? s).map fun n => -(n : Int)
  | '+' :: s => (digits? s).map Int.ofNat
  | s => (digits? s).map Int.ofNat

/-- How many digits a number may have that is read from a text, where nothing else is set. -/
def maxDigits : Nat := 4300

/-- The number of characters that are decimal digits. -/
def digitCount (s : Text) : Nat := s.countP fun c => (digitValue? c).isSome

/-- The integer that a text of at most `limit` digits spells. -/
def toIntWithin? (limit : Nat) (s : Text) : Option Int :=
  if digitCount s ≤ limit then
    signed? ((s.dropWhile isNumberBlank).reverse.dropWhile isNumberBlank).reverse
  else none

/-- The integer that a text spells. -/
def toInt? (s : Text) : Option Int := toIntWithin? maxDigits s

example : toInt? " -1_0\n".toList = some (-10) := by decide
example : toInt? "1__0".toList = none ∧ toInt? "_1".toList = none ∧ toInt? "".toList = none := by
  decide

end Lexicon.Text
