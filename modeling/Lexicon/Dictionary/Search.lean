import Lexicon.Dictionary.Ranking
import Lexicon.Dictionary.Record
import Lexicon.Language.Deinflection

/-! Searching the words at a position of a text. Every prefix of the window is deinflected, from the
longest to the shortest; each word is looked up once, with the longest prefix it came from. -/
namespace Lexicon

/-- A word to look up, and how many characters of the text it stands for. -/
structure Candidate where
  word : Text
  sourceLength : Nat
  reason : String
  deriving DecidableEq

/-- Faults met while records are collected. -/
inductive SearchWarning where
  | lookupFailed (word : Text)
  | unreadable (word : Text) (id : Int) (error : DecodeError)
  deriving DecidableEq

namespace SearchWarning

/-- The text of a warning, with a text for what a record fails for. -/
def textWith (cause : DecodeError → Text) : SearchWarning → Text
  | lookupFailed word => "Store lookup failed for '".toList ++ word ++ "'.".toList
  | unreadable word id error =>
    "Skipping unreadable record for '".toList ++ word ++ "' in dictionary ".toList ++ Text.ofInt id
      ++ ": ".toList ++ cause error

def message : SearchWarning → Text := textWith DecodeError.message

end SearchWarning

/-- What a search draws on: the rows of a term unless the store fails, the records in them, the
words a text may come from, and the state of the dictionaries. -/
structure Source where
  lookup : Text → Option (List (Int × Blob))
  decode : Blob → Except DecodeError StoredRecord
  deinflect : Language → Text → List Text
  snapshot : Snapshot

namespace Search

def defaultLength : Int := 24

/-- The text itself, then the words that its spellings may be inflected from, without the empty
one. -/
def candidates (deinflect : Language → Text → List Text) (l : Language) (s : Text) :
    List Candidate :=
  ⟨s, s.length, "original"⟩ ::
    (l.variants s).flatMap fun variant =>
      ((deinflect l variant).filter (!·.isEmpty)).map fun word => ⟨word, s.length, "deinflect"⟩

/-- In Japanese and Chinese, a word other than the text itself only has ideographs of the text. -/
def isValid (l : Language) (s word : Text) : Bool :=
  s = word || !l.isIdeographic
    || word.all fun c => !Kana.isIdeograph c || c ∈ s

/-- The letters that are words. -/
def singleLetters : List Text := [['a'], ['i']]

/-- A single character of a script with case is skipped unless it is such a word. -/
def skips (l : Language) (s : Text) : Bool :=
  l.hasCase && s.length < 2 && !s.lowercase.isAmong singleLetters

/-- The lengths from `n` down to one. -/
def lengthsDown : Nat → List Nat
  | 0 => []
  | n + 1 => (n + 1) :: lengthsDown n

/-- The fronts of a window, the window itself first and the first character last. -/
def fronts (window : Text) : List Text := (lengthsDown window.length).map window.take

/-- The entry for a decoded record. -/
def entryOf (c : Candidate) (r : StoredRecord) : Entry where
  term := if r.headword.isTruthy then r.headword else .str c.word.raw
  reading := r.reading
  source := r.dictionaryId
  wordBytes := c.word.byteSize
  matchLength := c.sourceLength
  frequency := r.frequency
  record := r.record
  termTags := r.termTags
  word := c.word

/-- What a row gives, unless its dictionary is switched off. -/
def entryOfRow? (source : Source) (c : Candidate) (row : Int × Blob) :
    Option (Except SearchWarning Entry) :=
  if source.snapshot.isEnabled row.1 then
    some (match source.decode row.2 with
      | .ok r => .ok (entryOf c r)
      | .error e => .error (.unreadable c.word row.1 e))
  else none

/-- Entries and warnings of a candidate, in row order. -/
def fetch (source : Source) (c : Candidate) : List (Except SearchWarning Entry) :=
  match source.lookup c.word with
  | none => [.error (.lookupFailed c.word)]
  | some rows => rows.filterMap (entryOfRow? source c)

def entryOf? : Except SearchWarning Entry → Option Entry
  | .ok e => some e
  | .error _ => none

def warningOf? : Except SearchWarning Entry → Option SearchWarning
  | .ok _ => none
  | .error w => some w

/-- The words looked up so far, and what was collected for them. -/
structure Progress where
  seen : List Text
  found : List (Except SearchWarning Entry)

namespace Progress

def start : Progress := ⟨[], []⟩

/-- Looks the word of a candidate up, unless it was before. -/
def take (source : Source) (p : Progress) (c : Candidate) : Progress :=
  if c.word.isAmong p.seen then p else ⟨c.word :: p.seen, p.found ++ fetch source c⟩

/-- Takes the valid candidates of a front, unless it is skipped. -/
def scan (source : Source) (l : Language) (p : Progress) (s : Text) : Progress :=
  if skips l s then p
  else (candidates source.deinflect l s).foldl
    (fun p c => if isValid l s c.word then p.take source c else p) p

end Progress

/-- Everything collected for a window, in the order in which it is met. -/
def collected (source : Source) (l : Language) (window : Text) :
    List (Except SearchWarning Entry) :=
  ((fronts window).foldl (Progress.scan source l) Progress.start).found

/-- The part of a text that is searched: from the character at a byte offset, so many characters
on. -/
def window (s : Text) (offset maxLength : Int) : Text :=
  s.slice (s.charIndex offset) (s.charIndex offset + maxLength)

/-- The searched part when the offset or the length may be absent. The length is not missed at the
end of the text. -/
def window? (s : Text) (offset? maxLength? : Option Int) : Option Text :=
  match offset?, maxLength? with
  | some offset, some maxLength => some (window s offset maxLength)
  | some offset, none => if s.length ≤ s.charIndex offset then some [] else none
  | none, _ => none

structure Result where
  entries : List Entry
  warnings : List SearchWarning

/-- The ranked entries for the words at the start of a window. -/
def ofWindow (source : Source) (l : Language) (window : Text) : Result :=
  let found := collected source l window
  ⟨rankEntries source.snapshot (found.filterMap entryOf?), found.filterMap warningOf?⟩

/-- The ranked entries for the words at a byte offset. -/
def run (source : Source) (s : Text) (offset : Int) (l : Language) (maxLength : Int) : Result :=
  ofWindow source l (window s offset maxLength)

end Search
end Lexicon
