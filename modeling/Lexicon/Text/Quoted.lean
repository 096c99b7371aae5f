import Lexicon.Text.CodePoint
import Lexicon.Text.PrintableTable

/-! Quoted display of a text. Single quotes surround it unless it holds one and no double quote;
the quote in use, the backslash and everything without a visible form are escaped, surrogates
included. -/
namespace Lexicon

namespace Text

/-- Characters that are shown as themselves. -/
def isPrintable (c : Char) : Bool := !inRanges unprintableRanges c.toNat

def hexDigit (n : Nat) : Char := Nat.digitChar n

/-- The last `width` hexadecimal digits of a number, in lower case. -/
def hexDigits : Nat → Nat → Text
  | 0, _ => []
  | width + 1, n => hexDigits width (n / 16) ++ [hexDigit (n % 16)]

/-- The shortest of the forms `\xNN`, `\uNNNN` and `\UNNNNNNNN` that can hold the code point. -/
def codeEscape (n : Nat) : Text :=
  if n < 0x100 then '\\' :: 'x' :: hexDigits 2 n
  else if n < 0x10000 then '\\' :: 'u' :: hexDigits 4 n
  else '\\' :: 'U' :: hexDigits 8 n

def quotedChar (quote c : Char) : Text :=
  if c = quote ∨ c = '\\' then ['\\', c]
  else if c = '\t' then ['\\', 't']
  else if c = '\n' then ['\\', 'n']
  else if c = '\r' then ['\\', 'r']
  else if isPrintable c then [c]
  else codeEscape c.toNat

end Text

namespace RawText

def quotedPoint (quote : Char) : CodePoint → Text
  | .char c => Text.quotedChar quote c
  | a => Text.codeEscape a.toNat

/-- Double quotes are used only around a text with a single quote and no double quote. -/
def quoteFor (s : RawText) : Char := if .char '\'' ∈ s ∧ .char '"' ∉ s then '"' else '\''

def quoted (s : RawText) : Text :=
  let quote := quoteFor s
  quote :: s.flatMap (quotedPoint quote) ++ [quote]

example : quoted "it's" = "\"it's\"".toList := by decide
example : quoted (.surrogate 0 :: Text.raw "\u00a0é".toList) = "'\\ud800\\xa0é'".toList := by decide

end RawText
end Lexicon
