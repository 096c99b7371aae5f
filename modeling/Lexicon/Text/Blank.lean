import Lexicon.Text.CodePoint

/-! Blank characters, trimming, and the words between blanks. -/
namespace Lexicon

namespace Text

/-- The space, the controls that move or separate, and the Unicode spaces and separators. -/
def blankRanges : List (Nat × Nat) := [
  (0x09, 0x0D), (0x1C, 0x20), (0x85, 0x85), (0xA0, 0xA0), (0x1680, 0x1680), (0x2000, 0x200A),
  (0x2028, 0x2029), (0x202F, 0x202F), (0x205F, 0x205F), (0x3000, 0x3000)]

def isBlank (c : Char) : Bool := inRanges blankRanges c.toNat

example : isBlank ' ' ∧ isBlank '\u3000' ∧ ¬ isBlank '\u200B' := by decide

def trimFront (s : Text) : Text := s.dropWhile isBlank

def trimBack (s : Text) : Text := (s.reverse.dropWhile isBlank).reverse

/-- The text without the blanks around it. -/
def trim (s : Text) : Text := trimBack (trimFront s)

end Text

def Letter.isBlank {γ : Type} [Letter γ] (a : γ) : Bool := (Letter.char? a).any Text.isBlank

@[simp] theorem Letter.isBlank_char : (Letter.isBlank : Char → Bool) = Text.isBlank := rfl

namespace TextOf

variable {γ : Type} [Letter γ]

/-- The letters before the first blank, and the words after it. -/
def splitWord : TextOf γ → TextOf γ × List (TextOf γ)
  | [] => ([], [])
  | a :: s =>
    let (word, rest) := splitWord s
    if Letter.isBlank a then ([], if word.isEmpty then rest else word :: rest) else (a :: word, rest)

/-- The maximal runs of letters that are not blank. -/
def words (s : TextOf γ) : List (TextOf γ) :=
  let (word, rest) := splitWord s
  if word.isEmpty then rest else word :: rest

end TextOf

/-- The code points without the blanks around them. -/
def RawText.trim (s : RawText) : RawText :=
  ((s.dropWhile Letter.isBlank).reverse.dropWhile Letter.isBlank).reverse

example : TextOf.words " look  it\tup ".toList = ["look".toList, "it".toList, "up".toList] := by decide

end Lexicon
