import Lexicon.Table
import Lexicon.Text.LetterCase

/-! Configuration documents: named sections of entries, and default entries that count for every
section. In the text of a document each entry is one line, except that a value with line ends goes on
over indented lines. -/
namespace Lexicon

structure Ini where
  defaults : Table Text Text
  sections : Table Text (Table Text Text)
  deriving DecidableEq

namespace Ini

def empty : Ini := ⟨[], []⟩

/-- The name under which the default entries stand in a file. -/
def defaultSection : Text := "DEFAULT".toList

/-- The entries of a section. -/
def entries (doc : Ini) (part : Text) : Table Text Text :=
  if part = defaultSection then doc.defaults else (doc.sections.get? part).getD []

/-- The value of an entry: a section's own, or the default. -/
def get? (doc : Ini) (part name : Text) : Option Text :=
  ((doc.sections.get? part).getD []).get? name <|> doc.defaults.get? name

/-- Makes sure that a section is there; a new one is empty and goes last. -/
def openSection (doc : Ini) (part : Text) : Ini :=
  if part = defaultSection then doc
  else { doc with sections := doc.sections.set part (doc.entries part) }

/-- Sets an entry of a section. -/
def put (doc : Ini) (part name value : Text) : Ini :=
  if part = defaultSection then { doc with defaults := doc.defaults.set name value }
  else { doc with sections := doc.sections.set part ((doc.entries part).set name value) }

/-- A document with the given sections and no defaults. -/
def ofSections (sections : List (Text × Table Text Text)) : Ini := ⟨[], Table.ofList sections⟩

/-- The spellings of a truth value, in any case. -/
def switchWords : Table Text Bool := [
  ("1".toList, true), ("yes".toList, true), ("true".toList, true), ("on".toList, true),
  ("0".toList, false), ("no".toList, false), ("false".toList, false), ("off".toList, false)]

def switch? (value : Text) : Option Bool := switchWords.get? value.lowercase

/-- The spelling in which truth values are written. -/
def switchText (b : Bool) : Text := if b then "true".toList else "false".toList

@[simp] theorem switch?_switchText (b : Bool) : switch? (switchText b) = some b := by
  cases b <;> decide +kernel

def valueText (value : Text) : Text := value.flatMap fun c => if c = '\n' then ['\n', '\t'] else [c]

def entryText (entry : Text × Text) : Text :=
  entry.1 ++ " = ".toList ++ valueText entry.2 ++ ['\n']

def headerText (name : Text) : Text := '[' :: name ++ [']', '\n']

def sectionText (part : Text × Table Text Text) : Text :=
  headerText part.1 ++ part.2.flatMap entryText ++ ['\n']

/-- The default entries come first, if there are any. -/
def toText (doc : Ini) : Text :=
  (if doc.defaults.isEmpty then [] else sectionText (defaultSection, doc.defaults))
    ++ doc.sections.flatMap sectionText

example : toText (ofSections [("a".toList, [("x".toList, "1\n2".toList)])]) =
    "[a]\nx = 1\n\t2\n\n".toList := by
  decide

end Ini
end Lexicon
