import Lexicon.Text.Blank
import Lexicon.Text.LetterCase
import Lexicon.Json.Display

/-! Log messages. A level is a number, the named ones among them; a message is written as one line
when its level is positive and reaches the threshold. -/
namespace Lexicon.Log

abbrev Level := Int

def debug : Level := 10

def info : Level := 20

def warning : Level := 30

def error : Level := 40

structure Message where
  level : Level
  text : Text
  deriving DecidableEq

/-- The names shown in lines. -/
def levelNames : Table Level String := [
  (0, "NOTSET"), (5, "TRACE"), (10, "DEBUG"), (20, "INFO"), (30, "WARNING"), (40, "ERROR"),
  (50, "CRITICAL")]

/-- Further names by which a level can be chosen. -/
def levelSynonyms : Table Level String := [(30, "WARN"), (50, "FATAL")]

def levelName (level : Level) : Text :=
  match levelNames.get? level with
  | some name => name.toList
  | none => "Level ".toList ++ Text.ofInt level

/-- The level that a setting stands for: an integer is the level itself, a truth value zero or one;
otherwise the text counts without blanks around it and in any case, and an unknown name means
`INFO`. -/
def levelOf (v : Json) : Level :=
  match v.toInt? with
  | some level => level
  | none =>
    let name := v.display.trim.text?.map (·.map Text.asciiUpper)
    match (levelNames ++ levelSynonyms).find? fun entry => some entry.2.toList = name with
    | some entry => entry.1
    | none => info

example : levelOf (.text " warn\n") = warning ∧ levelOf (.text "loud") = info := by decide

namespace Message

/-- The level in brackets, at least five wide, then the name of the program and the text. -/
def line (m : Message) : Text :=
  '[' :: (levelName m.level).padRight 5 ++ "] - [yomilex] - ".toList ++ m.text

def isWritten (threshold : Level) (m : Message) : Bool := 0 < m.level && threshold ≤ m.level

end Message

/-- The lines written for some messages. -/
def lines (threshold : Level) (messages : List Message) : List Text :=
  (messages.filter (Message.isWritten threshold)).map Message.line

example : lines warning [⟨info, "i".toList⟩, ⟨error, "e".toList⟩] =
    ["[ERROR] - [yomilex] - e".toList] := by
  decide

end Lexicon.Log
