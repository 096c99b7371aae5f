import Lexicon.Dictionary.Furigana
import Lexicon.Dictionary.Ranking
import Lexicon.Dictionary.Record

/-! Grouping ranked entries by headword and reading. Records are free-form, so a headword, reading
or tag list can be a value that cannot be shown; the whole grouping fails then. -/
namespace Lexicon

structure Definition where
  dictionary : Text
  tags : List RawText
  content : Json

structure FrequencyNote where
  dictionary : Text
  value : RawText

structure Group where
  headword : Json
  reading : Json
  furigana : List (Json × Json)
  definitions : List Definition
  frequencies : List FrequencyNote
  termTags : List Json
  matchLength : Nat

/-- A value of the wrong type, or an object where a position is asked for. -/
inductive GroupError where
  | wrongType
  | noPosition
  deriving DecidableEq

/-- Dictionary names by id. -/
abbrev NameTable := Table Int Text

namespace Grouping

def unknown : Text := "Unknown".toList

def frequencyMark : Text := "Frequency: ".toList

/-- What follows the mark of a frequency, trimmed. -/
def markedFrequency? (s : RawText) : Option RawText :=
  (s.dropFront? frequencyMark.raw).map RawText.trim

/-- The first item of a content list. -/
def firstContent? (record : Fields) : Option Json :=
  match record.get? "content" with
  | some (.array items) => items.head?
  | _ => none

/-- The display of a frequency record, or the frequency that a glossary's first line states. -/
def frequencyValue? (record : Fields) : Option RawText :=
  if StoredRecord.isFrequency record then
    match (record.get? "display").bind Json.toOption with
    | some display => some display.display
    | none => some ((record.get? "value").map Json.display |>.getD unknown.raw)
  else if StoredRecord.isGlossary record then
    match firstContent? record with
    | some (.str s) => markedFrequency? s
    | some (.object fields) =>
      (Table.get? fields "content").bind (markedFrequency? ·.display)
    | _ => none
  else none

/-- The name of a tag: an object's name, or the value itself. -/
def tagName : Json → RawText
  | .object fields => ((Table.get? fields "name").map Json.display).getD []
  | v => v.display

/-- The items of a list that may be absent. -/
def itemsOrNone (v : Json) : Except GroupError (List Json) :=
  if v.isTruthy then
    match v.items? with
    | some items => .ok items
    | none => .error .wrongType
  else .ok []

/-- A glossary is defined by its content; any other record is shown whole. -/
def definitionOf (dictionary : Text) (record : Fields) : Except GroupError Definition := do
  if StoredRecord.isGlossary record then
    let tags ← itemsOrNone ((record.get? "tags").getD .null)
    return ⟨dictionary, tags.map tagName, (record.get? "content").getD (.array [])⟩
  else return ⟨dictionary, [], .object record⟩

/-- Same dictionary name and same content, the order of members aside. -/
def sameDefinition (a b : Definition) : Bool :=
  a.dictionary = b.dictionary && a.content.canonicalText = b.content.canonicalText

/-- Values that are compared position by position. -/
def positions : Json → Except GroupError (List Json)
  | .str s => .ok (s.map fun a => .str [a])
  | .array items => .ok items
  | .object _ => .error .noPosition
  | _ => .error .wrongType

/-- Letters joined again, for a part of a text. -/
def joinLetters (items : List Json) : Json :=
  .str (items.flatMap fun
    | .str s => s
    | _ => [])

/-- A part of a value, of the same type. -/
def partOf (whole : Json) (items : List Json) : Json :=
  match whole with
  | .str _ => joinLetters items
  | _ => .array items

/-- Ruby over values of any type: texts and arrays have positions, objects and scalars do not. -/
def furiganaOf (headword reading : Json) : Except GroupError (List (Json × Json)) :=
  if !reading.isTruthy || headword.same reading then .ok [(headword, .str [])]
  else
    match headword, reading with
    | .str h, .str r => .ok ((Furigana.ofText h r).map fun part => (.str part.1, .str part.2))
    | _, _ => do
      if positions headword matches .error .wrongType then throw .wrongType
      if positions reading matches .error .wrongType then throw .wrongType
      let cut := Furigana.cut Json.same (← positions headword) (← positions reading)
      return (if cut.front.isEmpty then [] else [(partOf headword cut.front, .str [])])
        ++ (if cut.middle.isEmpty then [] else
          [(partOf headword cut.middle, partOf reading cut.ruby)])
        ++ (if cut.back.isEmpty then [] else [(partOf headword cut.back, .str [])])

/-- Absent headwords and readings count as empty. -/
def orEmpty (v : Json) : Json := if v.isTruthy then v else .str []

/-- The group of an entry before anything is put into it. Tags are taken from definitions only. -/
def openGroup (e : Entry) : Except GroupError Group := do
  let headword := orEmpty e.term
  let reading := orEmpty e.reading
  let furigana ← furiganaOf headword reading
  let termTags ← if (frequencyValue? e.record).isSome then pure [] else itemsOrNone e.termTags
  return ⟨headword, reading, furigana, [], [], termTags, e.matchLength⟩

/-- Puts an entry's frequency or definition into a group; a definition it has is not repeated. -/
def addEntry (dictionary : Text) (e : Entry) (g : Group) : Except GroupError Group := do
  match frequencyValue? e.record with
  | some value => return { g with frequencies := g.frequencies ++ [⟨dictionary, value⟩] }
  | none =>
    let d ← definitionOf dictionary e.record
    if g.definitions.any (sameDefinition d) then return g
    else return { g with definitions := g.definitions ++ [d] }

/-- Whether an entry belongs to a group. -/
def belongs (e : Entry) (g : Group) : Bool :=
  (orEmpty e.term).same g.headword && (orEmpty e.reading).same g.reading

/-- Changes the first group that an entry belongs to. -/
def updateFirst (e : Entry) (f : Group → Except GroupError Group) :
    List Group → Except GroupError (List Group)
  | [] => .ok []
  | g :: rest =>
    if belongs e g then do return (← f g) :: rest else do return g :: (← updateFirst e f rest)

/-- Adds an entry: in grouped mode to the group of its headword and reading, if there is one. Only
scalars can be looked up, so grouped mode asks for them. -/
def step (names : NameTable) (grouped : Bool) (groups : List Group) (e : Entry) :
    Except GroupError (List Group) := do
  if !(orEmpty e.term).isTruthy then return groups
  let dictionary := (names.get? e.source).getD unknown
  if grouped then
    if !((orEmpty e.term).isScalar && (orEmpty e.reading).isScalar) then throw .wrongType
    if groups.any (belongs e) then
      return ← updateFirst e (addEntry dictionary e) groups
  let g ← openGroup e
  return groups ++ [← addEntry dictionary e g]

end Grouping

/-- One group per headword and reading in grouped mode, one per entry otherwise, in rank order.
Entries without a headword are left out. -/
def groupEntries (names : NameTable) (grouped : Bool) (entries : List Entry) :
    Except GroupError (List Group) :=
  entries.foldlM (Grouping.step names grouped) []

end Lexicon
