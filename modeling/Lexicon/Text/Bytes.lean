import Lexicon.Text.CodePoint

/-! Texts as UTF-8 bytes. Decoding refuses everything that no text encodes to, and a text of code points
has bytes only if it is one of characters. -/
namespace Lexicon

abbrev Bytes := List UInt8

namespace Text

def toBytes (s : Text) : Bytes := (String.ofList s).toUTF8.toList

/-- The text that the bytes encode. -/
def ofBytes? (bytes : Bytes) : Option Text :=
  bytes.toByteArray.utf8Decode?.map Array.toList

/-- Offset of the character in which a byte lies, given how many bytes stand before the text. -/
def charIndexFrom (consumed : Nat) (s : Text) (byte : Int) : Nat :=
  match s with
  | [] => 0
  | c :: rest =>
    if byte < consumed + c.utf8Size then 0 else 1 + charIndexFrom (consumed + c.utf8Size) rest byte

/-- The index of the character that holds the byte at an offset; the length at or past the end, and
zero for a negative offset. -/
def charIndex (s : Text) (byte : Int) : Nat := charIndexFrom 0 s byte

/-- The characters from `start` up to `stop`; a negative end counts from the back. -/
def slice (s : Text) (start : Nat) (stop : Int) : Text :=
  let stop := if stop < 0 then stop + s.length else stop
  (s.take stop.toNat).drop start

example : charIndex "aé食".toList 2 = 1 ∧ charIndex "aé食".toList 3 = 2 := by decide
example : slice "abcdef".toList 1 (-2) = "bcd".toList := by decide

end Text

def RawText.toBytes? (s : RawText) : Option Bytes := s.text?.map Text.toBytes

end Lexicon
