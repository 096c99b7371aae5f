import Lexicon.Json.Basic
import Lexicon.Text.Digits

/-! Reading JSON text. Blanks are the four of the format, control characters may not stand inside a
string, a surrogate may stand alone there, and a repeated member name keeps its first place with the
last value. Infinite numbers have a word, which is not of the format; NaN has none. Integers and
nesting are limited; of several faults the first one in the text is the one met. -/
namespace Lexicon.Json

/-- Why a text is not read. -/
inductive ReadError where
  | malformed
  | tooManyDigits
  | tooDeep
  deriving DecidableEq

/-- How many arrays and objects may be open at once, and how many digits an integer may have. No
limit below 640 digits can be set. -/
structure Limits where
  depth : Nat
  digits : Nat
  le_digits : 640 ≤ digits

/-- The limits where nothing else is set. -/
def Limits.standard : Limits := ⟨990, Text.maxDigits, by decide⟩

def isSpace : CodePoint → Bool
  | .char c => c = ' ' || c = '\t' || c = '\n' || c = '\r'
  | .surrogate _ => false

def skipSpace (s : RawText) : RawText := s.dropWhile isSpace

def hexValue? (c : Char) : Option Nat :=
  if '0' ≤ c ∧ c ≤ '9' then some (c.toNat - 48)
  else if 'a' ≤ c ∧ c ≤ 'f' then some (c.toNat - 87)
  else if 'A' ≤ c ∧ c ≤ 'F' then some (c.toNat - 55)
  else none

def hexDigit? (a : CodePoint) : Option Nat := (Letter.char? a).bind hexValue?

/-- The code point of four hexadecimal digits. -/
def hexUnit? (a b c d : CodePoint) : Option CodePoint := do
  return .ofUnit
    ((((← hexDigit? a) * 16 + (← hexDigit? b)) * 16 + (← hexDigit? c)) * 16 + (← hexDigit? d))

def simpleEscape? : Char → Option Char
  | '"' => some '"'
  | '\\' => some '\\'
  | '/' => some '/'
  | 'b' => some '\x08'
  | 'f' => some '\x0c'
  | 'n' => some '\n'
  | 'r' => some '\r'
  | 't' => some '\t'
  | _ => none

/-- A letter before what is read of a string. -/
def prepended (a : CodePoint) (read : Option (RawText × RawText)) : Option (RawText × RawText) :=
  read.map fun (s, rest) => (a :: s, rest)

/-- The rest of a string after its opening quote, and what follows the closing one. Two escapes in a row
may make one character. -/
def stringBody? : RawText → Option (RawText × RawText)
  | [] => none
  | .char '"' :: rest => some ([], rest)
  | .char '\\' :: .char 'u' :: a :: b :: c :: d :: rest =>
    match hexUnit? a b c d, rest with
    | none, _ => none
    | some unit, .char '\\' :: .char 'u' :: e :: f :: g :: h :: rest =>
      match (hexUnit? e f g h).bind unit.joined? with
      | some c => prepended c (stringBody? rest)
      | none => prepended unit (stringBody? (.char '\\' :: .char 'u' :: e :: f :: g :: h :: rest))
    | some unit, rest => prepended unit (stringBody? rest)
  | .char '\\' :: a :: rest =>
    match (Letter.char? a).bind simpleEscape? with
    | some c => prepended c (stringBody? rest)
    | none => none
  | a :: rest => if a.toNat < 0x20 then none else prepended a (stringBody? rest)

def digitsValue (digits : Text) : Nat := Nat.ofDigitChars 10 digits 0

/-- The integer part of a number: a lone zero, or digits that start with another one. -/
def wholePart? : Text → Option (Text × Text)
  | [] => none
  | '0' :: rest => some (['0'], rest)
  | c :: rest =>
    if c.isDigit then some (c :: rest.takeWhile Char.isDigit, rest.dropWhile Char.isDigit) else none

/-- A point with at least one digit after it; anything else is left in place. -/
def fractionPart : Text → Option Text × Text
  | '.' :: rest =>
    let digits := rest.takeWhile Char.isDigit
    if digits.isEmpty then (none, '.' :: rest) else (some digits, rest.dropWhile Char.isDigit)
  | s => (none, s)

/-- The digits of an exponent after its letter and sign. -/
def exponentDigits (negative : Bool) (s : Text) : Option (Int × Text) :=
  let digits := s.takeWhile Char.isDigit
  if digits.isEmpty then none
  else
    let value : Int := digitsValue digits
    some (if negative then -value else value, s.dropWhile Char.isDigit)

/-- A letter `e`, an optional sign and at least one digit; anything else is left in place. -/
def exponentPart (s : Text) : Option Int × Text :=
  let parsed := match s with
    | c :: '-' :: rest => if c = 'e' ∨ c = 'E' then exponentDigits true rest else none
    | c :: '+' :: rest => if c = 'e' ∨ c = 'E' then exponentDigits false rest else none
    | c :: rest => if c = 'e' ∨ c = 'E' then exponentDigits false rest else none
    | [] => none
  match parsed with
  | some (e, rest) => (some e, rest)
  | none => (none, s)

/-- What is read at the start of a text, and the rest. -/
abbrev Step (α : Type) := Except ReadError (α × RawText)

/-- What an optional step gives; nothing is a malformed text. -/
def Step.ofOption {α : Type} : Option (α × RawText) → Step α
  | some step => .ok step
  | none => .error .malformed

/-- What was read, changed. -/
def Step.mapValue {α β : Type} (f : α → β) (step : Step α) : Step β :=
  step.map fun (a, rest) => (f a, rest)

/-- The integer of at most `limit` digits. -/
def integer (limit : Nat) (negative : Bool) (digits : Text) : Except ReadError Json :=
  if digits.length ≤ limit then
    let n : Int := digitsValue digits
    .ok (.int (if negative then -n else n))
  else .error .tooManyDigits

/-- A number without its sign: an integer when it has neither fraction nor exponent. One that is too
great is infinite. -/
def number (limit : Nat) (negative : Bool) (s : Text) : Except ReadError (Json × Text) :=
  match wholePart? s with
  | none => .error .malformed
  | some (whole, rest) =>
    match fractionPart rest with
    | (fraction, rest) =>
      match exponentPart rest with
      | (exponent, rest) =>
        if fraction.isNone && exponent.isNone then
          (integer limit negative whole).map fun v => (v, rest)
        else
          let digits := whole ++ fraction.getD []
          let places : Int := exponent.getD 0 - (fraction.getD []).length
          match Binary64.ofDecimal? negative (digitsValue digits) places with
          | some x => .ok (.float x, rest)
          | none => .ok (.infinity negative, rest)

/-- What follows the sign of a number: the word for what is infinite, or a number, in which no surrogate
can stand. -/
def magnitude (limit : Nat) (negative : Bool) (s : RawText) : Step Json :=
  match s.dropFront? "Infinity" with
  | some rest => .ok (.infinity negative, rest)
  | none => (number limit negative s.front).map fun (v, rest) => (v, Text.raw rest ++ s.afterFront)

mutual

/-- One value at the start of a text. The first number bounds the depth of calls, the second one the
depth of nesting. -/
def readValue (limit : Nat) : Nat → Nat → RawText → Step Json
  | 0, _, _ => .error .malformed
  | fuel + 1, depth, s =>
    match s with
    | .char '"' :: rest => (Step.ofOption (stringBody? rest)).mapValue .str
    | .char '[' :: rest =>
      match depth with
      | 0 => .error .tooDeep
      | depth + 1 =>
        match skipSpace rest with
        | .char ']' :: rest => .ok (.array [], rest)
        | rest => (readItems limit fuel depth rest).mapValue .array
    | .char '\x7b' :: rest =>
      match depth with
      | 0 => .error .tooDeep
      | depth + 1 =>
        match skipSpace rest with
        | .char '\x7d' :: rest => .ok (.object [], rest)
        | rest =>
          (readMembers limit fuel depth rest).mapValue fun members => .object (Table.ofList members)
    | .char 'n' :: .char 'u' :: .char 'l' :: .char 'l' :: rest => .ok (.null, rest)
    | .char 't' :: .char 'r' :: .char 'u' :: .char 'e' :: rest => .ok (.bool true, rest)
    | .char 'f' :: .char 'a' :: .char 'l' :: .char 's' :: .char 'e' :: rest => .ok (.bool false, rest)
    | .char '-' :: rest => magnitude limit true rest
    | rest => magnitude limit false rest

/-- One or more items and the closing bracket. -/
def readItems (limit : Nat) : Nat → Nat → RawText → Step (List Json)
  | 0, _, _ => .error .malformed
  | fuel + 1, depth, s =>
    match readValue limit fuel depth s with
    | .error e => .error e
    | .ok (v, rest) =>
      match skipSpace rest with
      | .char ']' :: rest => .ok ([v], rest)
      | .char ',' :: rest => (readItems limit fuel depth (skipSpace rest)).mapValue (v :: ·)
      | _ => .error .malformed

/-- One or more members and the closing brace. -/
def readMembers (limit : Nat) : Nat → Nat → RawText → Step (List (RawText × Json))
  | 0, _, _ => .error .malformed
  | fuel + 1, depth, s =>
    match s with
    | .char '"' :: rest =>
      match stringBody? rest with
      | none => .error .malformed
      | some (key, rest) =>
        match skipSpace rest with
        | .char ':' :: rest =>
          match readValue limit fuel depth (skipSpace rest) with
          | .error e => .error e
          | .ok (v, rest) =>
            match skipSpace rest with
            | .char '\x7d' :: rest => .ok ([(key, v)], rest)
            | .char ',' :: rest => (readMembers limit fuel depth (skipSpace rest)).mapValue ((key, v) :: ·)
            | _ => .error .malformed
        | _ => .error .malformed
    | _ => .error .malformed

end

/-- The value that a whole text spells. -/
def readWithin (limits : Limits) (s : RawText) : Except ReadError Json :=
  match readValue limits.digits (2 * s.length + 2) limits.depth (skipSpace s) with
  | .error e => .error e
  | .ok (v, rest) => if (skipSpace rest).isEmpty then .ok v else .error .malformed

def read (s : RawText) : Except ReadError Json := readWithin .standard s

end Lexicon.Json
