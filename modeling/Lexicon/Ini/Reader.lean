import Lexicon.Ini.Basic
import Lexicon.Text.Blank
import Lexicon.Text.Lines

/-! Reading configuration documents. A line that is indented deeper than the one that opened an
entry goes on with its value, and so does an empty line; comment lines are dropped. Most faults end
the reading where they stand; a line that is no entry and an entry without a name count at the
end. -/
namespace Lexicon.Ini

/-- What a line is when it is looked at alone. -/
inductive Line where
  | blank
  | comment
  | content (indent : Nat) (body : Text)
  deriving DecidableEq

namespace Line

def ofText (s : Text) : Line :=
  match s.trim with
  | [] => .blank
  | c :: body =>
    if c = '#' || c = ';' then .comment else .content (s.takeWhile Text.isBlank).length (c :: body)

end Line

/-- A header, an entry with the lines of its value, or a line that is neither. -/
inductive Item where
  | header (name : Text)
  | entry (name : Text) (value : List Text)
  | stray
  deriving DecidableEq

/-- The name between the opening bracket of a line and its last closing one. -/
def header? : Text → Option Text
  | '[' :: body =>
    match body.reverse.dropWhile (· ≠ ']') with
    | _ :: name => if name.isEmpty then none else some name.reverse
    | [] => none
  | _ => none

def isDelimiter (c : Char) : Bool := c = '=' || c = ':'

/-- The name before the first delimiter of a line, in lower case, and the value after it. The name
may be empty. -/
def assignment? (body : Text) : Option (Text × Text) :=
  match body.dropWhile fun c => !isDelimiter c with
  | _ :: value =>
    some (Text.lowercase (Text.trimBack (body.takeWhile fun c => !isDelimiter c)), Text.trim value)
  | [] => none

namespace Item

/-- The item that a line opens. -/
def ofBody (body : Text) : Item :=
  match header? body, assignment? body with
  | some name, _ => header name
  | none, some (name, value) => entry name [value]
  | none, none => stray

/-- Whether the newest entry has a name. A stray line does not end it, a header does. -/
def takesLines : List Item → Bool
  | entry name _ :: _ => !name.isEmpty
  | stray :: rest => takesLines rest
  | _ => false

end Item

/-- The items so far, the newest first, and the indent of the line that opened the newest one. -/
structure Scan where
  indent : Nat
  items : List Item

namespace Scan

/-- Goes on with the value of the newest item, if it is an entry. -/
def extend (scan : Scan) (line : Text) : Scan :=
  match scan.items with
  | .entry name value :: rest => { scan with items := .entry name (value ++ [line]) :: rest }
  | _ => scan

/-- Whether a line of some indent belongs to the newest entry. -/
def continues (scan : Scan) (indent : Nat) : Bool :=
  Item.takesLines scan.items && scan.indent < indent

/-- Takes a line in. -/
def step (scan : Scan) : Line → Scan
  | .comment => scan
  | .blank => scan.extend []
  | .content indent body =>
    if scan.continues indent then scan.extend body else ⟨indent, .ofBody body :: scan.items⟩

end Scan

/-- The items of a text in order. -/
def items (s : Text) : List Item :=
  ((s.lines.map Line.ofText).foldl Scan.step ⟨0, []⟩).items.reverse

/-- The lines of a value joined again, without blanks at the end. -/
def joinValue (value : List Text) : Text := (Text.join ['\n'] value).trimBack

/-- A document while items are put into it: the section that is open, what this text has opened and
set already, and whether a fault has been met that counts at the end. -/
structure Draft where
  doc : Ini
  current : Option Text
  opened : List Text
  written : List (Text × Text)
  faulty : Bool

namespace Draft

/-- Puts an item in. Sections other than the defaults open once, entries are set once, and nothing
stands before the first header. -/
def add (draft : Draft) : Item → Option Draft
  | .header name =>
    if name = defaultSection then some { draft with current := some name }
    else if name.isAmong draft.opened then none
    else some {
      draft with
      doc := draft.doc.openSection name
      current := some name
      opened := name :: draft.opened }
  | .entry name value =>
    match draft.current with
    | none => none
    | some part =>
      if draft.written.any fun other => other = (part, name) then none
      else some {
        draft with
        doc := draft.doc.put part name (joinValue value)
        written := (part, name) :: draft.written
        faulty := draft.faulty || name.isEmpty }
  | .stray => if draft.current.isNone then none else some { draft with faulty := true }

end Draft

/-- The items put into a document, unless one of them ends the reading. -/
def addItems? (base : Ini) (items : List Item) : Option Draft :=
  items.foldlM Draft.add ⟨base, none, [], [], false⟩

/-- Whether the reading of a text ends before its last line. -/
def breaksOff (s : Text) : Bool := (addItems? empty (items s)).isNone

/-- A text read over a document, unless it is malformed. What the text does not set stays. -/
def overlay? (base : Ini) (s : Text) : Option Ini :=
  (addItems? base (items s)).bind fun draft => if draft.faulty then none else some draft.doc

def read? (s : Text) : Option Ini := overlay? empty s

example : (read? "[a]\nX = 1\n  2\n\n; c\n[b]\n".toList) =
    some ⟨[], [("a".toList, [("x".toList, "1\n2".toList)]), ("b".toList, [])]⟩ := by
  decide +kernel

end Lexicon.Ini
