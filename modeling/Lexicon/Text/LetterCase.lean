import Lexicon.Text.Basic
import Lexicon.Text.CaseTable

/-! Full lowercasing. Only two characters need more than the table: `İ` becomes `i` and a combining
dot, and `Σ` becomes `ς` at the end of a word. -/
namespace Lexicon.Text

/-- The lowercase form of one character by the table. -/
def lowerChar (c : Char) : Char :=
  match lowercaseRuns.find? fun run => run.Covers c.toNat with
  | some run => Char.ofNat (c.toNat + run.shift).toNat
  | none => c

def isCased (c : Char) : Bool := inRanges casedRanges c.toNat

def isCaseIgnorable (c : Char) : Bool := inRanges caseIgnorableRanges c.toNat

/-- Whether the nearest character that is not skipped has case. -/
def meetsCased (s : Text) : Bool := (s.dropWhile isCaseIgnorable).head?.any isCased

/-- A sigma ends a word when a letter stands before it, read backwards, and none after it. -/
def endsWord (before after : Text) : Bool := meetsCased before && !meetsCased after

def lowerAt (before : Text) (c : Char) (after : Text) : Text :=
  if c = 'Σ' then [if endsWord before after then 'ς' else 'σ']
  else if c = 'İ' then ['i', '\u0307']
  else [lowerChar c]

/-- Lowercases the rest of a text whose beginning, read backwards, is `before`. -/
def lowerAfter (before : Text) : Text → Text
  | [] => []
  | c :: s => lowerAt before c s ++ lowerAfter (c :: before) s

def lowercase (s : Text) : Text := lowerAfter [] s

@[simp] theorem lowercase_nil : lowercase [] = [] := rfl

example : lowercase "Cats".toList = "cats".toList := by decide
example : lowercase "ΟΔΟΣ ΣΑΣ.".toList = "οδος σας.".toList := by decide

/-- Uppercasing of the letters whose capital is an ASCII letter; other characters stay. -/
def asciiUpper (c : Char) : Char :=
  if c = 'ı' then 'I' else if c = 'ſ' then 'S' else c.toUpper

end Lexicon.Text
