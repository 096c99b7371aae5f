import Lexicon.Text.Bytes

/-! The form of UTF-8, byte by byte: which bytes may follow each other, and how far bytes can be
read that are no text as a whole. Bytes come in blocks; a block in which a byte cannot follow the
ones before it is lost with everything after it. -/
namespace Lexicon

/-- How many bytes a character still needs, and the range in which the next one lies. From a bound
on, the next one makes a surrogate, which no byte can follow. -/
structure Expected where
  count : Nat
  least : UInt8
  greatest : UInt8
  surrogateFrom : UInt8

namespace Expected

/-- A number of bytes without further bounds. -/
def anyTail (count : Nat) : Expected := ⟨count, 0x80, 0xBF, 0xFF⟩

/-- Between two characters. -/
def start : Expected := anyTail 0

/-- After the first two bytes of a surrogate. -/
def nothing : Expected := ⟨1, 0xFF, 0, 0xFF⟩

/-- What a first byte asks for. The second byte is bounded so that no character has two forms and
none is too great. -/
def ofFirst? (b : UInt8) : Option Expected :=
  if b < 0x80 then some start
  else if b < 0xC2 then none
  else if b < 0xE0 then some (anyTail 1)
  else if b < 0xF0 then
    some ⟨2, if b = 0xE0 then 0xA0 else 0x80, 0xBF, if b = 0xED then 0xA0 else 0xFF⟩
  else if b < 0xF5 then
    some ⟨3, if b = 0xF0 then 0x90 else 0x80, if b = 0xF4 then 0x8F else 0xBF, 0xFF⟩
  else none

/-- What is expected after one more byte, if it may stand there. -/
def next? (e : Expected) (b : UInt8) : Option Expected :=
  match e.count with
  | 0 => ofFirst? b
  | n + 1 =>
    if e.least ≤ b ∧ b ≤ e.greatest then
      some (if e.surrogateFrom ≤ b then nothing else anyTail n)
    else none

/-- The number of bytes before the first one that may not stand where it does. -/
def soundLength (e : Expected) : Bytes → Nat
  | [] => 0
  | b :: rest =>
    match e.next? b with
    | some e => e.soundLength rest + 1
    | none => 0

end Expected

namespace Text

/-- How many bytes are read at a time. -/
def blockSize : Nat := 8192

/-- The number of bytes in the blocks before the first bad byte; all of them when only the end is
cut short. -/
def soundBlocks (bytes : Bytes) : Nat :=
  let sound := Expected.start.soundLength bytes
  if sound < bytes.length then sound / blockSize * blockSize else sound

/-- The text of some bytes, without up to three at the end that begin a character. -/
def ofSoundBytes (bytes : Bytes) : Text :=
  ((List.range 4).findSome? fun cut => ofBytes? (bytes.take (bytes.length - cut))).getD []

/-- The text up to its last line end. A carriage return at the very end may be half of one. -/
def wholeLines (s : Text) : Text :=
  let s := if s.getLast? = some '\r' then s.dropLast else s
  (s.reverse.dropWhile fun c => c ≠ '\n' && c ≠ '\r').reverse

/-- The lines that can be read of bytes that are no text. -/
def readable (bytes : Bytes) : Text := wholeLines (ofSoundBytes (bytes.take (soundBlocks bytes)))

example : readable [0x61, 0x0A, 0x62, 0x0A, 0xE9] = "a\nb\n".toList ∧
    readable [0x61, 0x0A, 0xFF, 0x0A] = [] := by
  decide +kernel

end Text
end Lexicon
