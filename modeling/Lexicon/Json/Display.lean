import Lexicon.Json.Basic
import Lexicon.Number.Shortest
import Lexicon.Text.Quoted

/-! Display of a JSON value to a person: a text stands for itself, and inside other values texts are
quoted. -/
namespace Lexicon.Json

mutual

/-- Quoted texts, `None`, `True` and `False`, items between commas. -/
def shown : Json → Text
  | null => "None".toList
  | bool true => "True".toList
  | bool false => "False".toList
  | int n => Text.ofInt n
  | float x => x.toText
  | infinity negative => if negative then "-inf".toList else "inf".toList
  | str s => s.quoted
  | array [] => ['[', ']']
  | array (v :: rest) => '[' :: shown v ++ shownItems rest ++ [']']
  | object [] => ['\x7b', '\x7d']
  | object ((key, v) :: rest) =>
    '\x7b' :: key.quoted ++ [':', ' '] ++ shown v ++ shownFields rest ++ ['\x7d']

def shownItems : List Json → Text
  | [] => []
  | v :: rest => ',' :: ' ' :: shown v ++ shownItems rest

def shownFields : List (RawText × Json) → Text
  | [] => []
  | (key, v) :: rest =>
    ',' :: ' ' :: key.quoted ++ [':', ' '] ++ shown v ++ shownFields rest

end

/-- A text as it is, anything else as `shown`. -/
def display : Json → RawText
  | str s => s
  | v => v.shown.raw

/-- The word for the kind of a value. -/
def kindName : Json → Text
  | null => "NoneType".toList
  | bool _ => "bool".toList
  | int _ => "int".toList
  | float _ | infinity _ => "float".toList
  | str _ => "str".toList
  | array _ => "list".toList
  | object _ => "dict".toList

example : display (.array [.int 1, .text "a", .null]) = "[1, 'a', None]" := by decide

end Lexicon.Json
