import Lexicon.Json.Basic
import Lexicon.Number.Shortest
import Lexicon.Text.Quoted

/-! Text of JSON values. Only quotes, backslashes and control characters are escaped, so the text has
a surrogate where a string has one. -/
namespace Lexicon.Json

def escapeChar (c : Char) : Text :=
  if c = '"' then ['\\', '"']
  else if c = '\\' then ['\\', '\\']
  else if c = '\n' then ['\\', 'n']
  else if c = '\r' then ['\\', 'r']
  else if c = '\t' then ['\\', 't']
  else if c = '\x08' then ['\\', 'b']
  else if c = '\x0c' then ['\\', 'f']
  else if c.toNat < 0x20 then '\\' :: 'u' :: Text.hexDigits 4 c.toNat
  else [c]

def escapePoint : CodePoint → RawText
  | .char c => (escapeChar c).raw
  | a => [a]

def stringText (s : RawText) : RawText := .char '"' :: s.flatMap escapePoint ++ [.char '"']

/-- What stands between items, and between a name and its value. -/
structure Separators where
  item : RawText
  key : RawText

namespace Separators

def tight : Separators := ⟨[','], [':']⟩

def spaced : Separators := ⟨[',', ' '], [':', ' ']⟩

end Separators

mutual

/-- The text of a value on one line. -/
def render (seps : Separators) : Json → RawText
  | null => "null"
  | bool true => "true"
  | bool false => "false"
  | int n => (Text.ofInt n).raw
  | float x => x.toText.raw
  | infinity negative => if negative then "-Infinity" else "Infinity"
  | str s => stringText s
  | array [] => ['[', ']']
  | array (v :: rest) => .char '[' :: render seps v ++ renderItems seps rest ++ [.char ']']
  | object [] => ['\x7b', '\x7d']
  | object ((key, v) :: rest) =>
    .char '\x7b' :: stringText key ++ seps.key ++ render seps v ++ renderFields seps rest
      ++ [.char '\x7d']

/-- The items after the first, each after a separator. -/
def renderItems (seps : Separators) : List Json → RawText
  | [] => []
  | v :: rest => seps.item ++ render seps v ++ renderItems seps rest

/-- The members after the first, each after a separator. -/
def renderFields (seps : Separators) : List (RawText × Json) → RawText
  | [] => []
  | (key, v) :: rest =>
    seps.item ++ stringText key ++ seps.key ++ render seps v ++ renderFields seps rest

end

/-- The shortest layout, used for stored text. -/
def compact (v : Json) : RawText := render .tight v

def lineBreak (depth : Nat) : RawText := .char '\n' :: List.replicate (2 * depth) (.char ' ')

mutual

/-- One item or member a line, each level indented by two more spaces. -/
def indented (depth : Nat) : Json → RawText
  | array (v :: rest) =>
    .char '[' :: lineBreak (depth + 1) ++ indented (depth + 1) v ++ indentedItems (depth + 1) rest
      ++ lineBreak depth ++ [.char ']']
  | object ((key, v) :: rest) =>
    .char '\x7b' :: lineBreak (depth + 1) ++ stringText key ++ Text.raw [':', ' ']
      ++ indented (depth + 1) v ++ indentedFields (depth + 1) rest ++ lineBreak depth
      ++ [.char '\x7d']
  | v => render .spaced v

def indentedItems (depth : Nat) : List Json → RawText
  | [] => []
  | v :: rest => .char ',' :: lineBreak depth ++ indented depth v ++ indentedItems depth rest

def indentedFields (depth : Nat) : List (RawText × Json) → RawText
  | [] => []
  | (key, v) :: rest =>
    .char ',' :: lineBreak depth ++ stringText key ++ Text.raw [':', ' '] ++ indented depth v
      ++ indentedFields depth rest

end

mutual

/-- Members sorted by name at every depth. -/
def sortKeys : Json → Json
  | array items => .array (sortKeysItems items)
  | object fields => .object ((sortKeysFields fields).mergeSort fun a b => TextOf.le a.1 b.1)
  | v => v

def sortKeysItems : List Json → List Json
  | [] => []
  | v :: rest => sortKeys v :: sortKeysItems rest

def sortKeysFields : List (RawText × Json) → List (RawText × Json)
  | [] => []
  | (key, v) :: rest => (key, sortKeys v) :: sortKeysFields rest

end

/-- One text for all orders of members. -/
def canonicalText (v : Json) : RawText := render .spaced (sortKeys v)

end Lexicon.Json
