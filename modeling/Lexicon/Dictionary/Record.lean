import Lexicon.Json.Reader
import Lexicon.Json.Printer
import Lexicon.Json.Display
import Lexicon.Text.Bytes
import Lexicon.Text.Digits

/-! Stored records: a dictionary's entry for a term, kept as compressed JSON text. -/
namespace Lexicon

/-- A stored value: compressed content, or bytes that no compression produced. -/
inductive Blob where
  | compressed (content : Bytes)
  | plain (bytes : Bytes)
  deriving DecidableEq

/-- A record and what is known about its term. A headword, reading or tag list that is absent is
null. -/
structure StoredRecord where
  dictionaryId : Int
  record : Fields
  headword : Json
  reading : Json
  termTags : Json

/-- Why a blob holds no record. -/
inductive DecodeError where
  | notCompressed
  | notText
  | notJson (error : Json.ReadError)
  | wrongType
  | missingKey (key : Text)
  | recordNotObject (kind : Text)
  | notInteger
  | infinite
  deriving DecidableEq

namespace DecodeError

/-- The word for the kind of cause. -/
def label : DecodeError → Text
  | notCompressed => "BadGzipFile".toList
  | notText => "UnicodeDecodeError".toList
  | notJson .malformed => "JSONDecodeError".toList
  | notJson .tooManyDigits => "ValueError".toList
  | notJson .tooDeep => "RecursionError".toList
  | wrongType => "TypeError".toList
  | missingKey _ => "KeyError".toList
  | recordNotObject _ => "ValueError".toList
  | notInteger => "ValueError".toList
  | infinite => "OverflowError".toList

/-- What is said about the cause: its kind, where there is nothing more exact. -/
def message : DecodeError → Text
  | recordNotObject kind => "record must be an object, got ".toList ++ kind
  | missingKey key => key.raw.quoted
  | e => e.label

end DecodeError

namespace Blob

/-- The bytes before compression. Nothing at all counts as empty content. -/
def content? : Blob → Except DecodeError Bytes
  | compressed content => .ok content
  | plain [] => .ok []
  | plain _ => .error .notCompressed

end Blob

namespace StoredRecord

/-- The type of a record; one without a type is a glossary. -/
def typeOf (record : Fields) : Json := (record.get? "type").getD (Json.text "glossary")

/-- Whether a value is the given text. -/
def isWord (word : String) : Json → Bool
  | .str s => s = (word : RawText)
  | _ => false

def isGlossary (record : Fields) : Bool := isWord "glossary" (typeOf record)

def isFrequency (record : Fields) : Bool := isWord "frequency" (typeOf record)

def recordType (r : StoredRecord) : Json := typeOf r.record

/-- An integer under a name; truth values and everything else count as 0. -/
def countAt (record : Fields) (key : String) : Int :=
  match record.get? key with
  | some (.int n) => n
  | _ => 0

/-- The number that ranks a record: the popularity of a glossary, the value of a frequency. -/
def frequency (r : StoredRecord) : Int :=
  if isGlossary r.record then countAt r.record "popularity"
  else if isFrequency r.record then countAt r.record "value"
  else 0

/-- The members of a stored object; what is absent is left out. -/
def storedFields (dictionaryId record headword reading termTags : Json) : Fields :=
  ([("dictionary_id", dictionaryId), ("record", record)] : Fields)
    ++ member "headword" headword ++ member "reading" reading ++ member "term_tags" termTags
where
  member (key : String) (v : Json) : Fields := if v.isNull then [] else [(key, v)]

/-- The members of the stored object of a record. -/
def toFields (r : StoredRecord) : Fields :=
  storedFields (.int r.dictionaryId) (.object r.record) r.headword r.reading r.termTags

def toJson (r : StoredRecord) : Json := .object r.toFields

/-- The dictionary id that a value spells: an integer, a truth value, a number without its fraction,
or a text of digits. -/
def idOf (limits : Json.Limits) : Json → Except DecodeError Int
  | .int n => .ok n
  | .bool b => .ok (if b then 1 else 0)
  | .float x => .ok x.truncate
  | .infinity _ => .error .infinite
  | .str s => match s.text?.bind (Text.toIntWithin? limits.digits) with
    | some n => .ok n
    | none => .error .notInteger
  | _ => .error .wrongType

def fieldOf (fields : Fields) (key : String) : Except DecodeError Json :=
  match fields.get? key with
  | some v => .ok v
  | none => .error (.missingKey key.toList)

/-- The record is looked at before the id. -/
def ofFields (limits : Json.Limits) (fields : Fields) : Except DecodeError StoredRecord := do
  match ← fieldOf fields "record" with
  | .object record =>
    let id ← idOf limits (← fieldOf fields "dictionary_id")
    let optional (key : String) : Json := (fields.get? key).getD .null
    return ⟨id, record, optional "headword", optional "reading", optional "term_tags"⟩
  | v => throw (.recordNotObject v.kindName)

def ofJson (limits : Json.Limits) : Json → Except DecodeError StoredRecord
  | .object fields => ofFields limits fields
  | _ => .error .wrongType

/-- The text inside the blob of a record. -/
def payload (r : StoredRecord) : RawText := r.toJson.compact

/-- The blob of a record, unless its text holds a surrogate and so has no bytes. -/
def encode (r : StoredRecord) : Option Blob := r.payload.toBytes?.map .compressed

/-- The record in a blob. -/
def decodeWithin (limits : Json.Limits) (blob : Blob) : Except DecodeError StoredRecord := do
  let content ← blob.content?
  match Text.ofBytes? content with
  | none => throw .notText
  | some s => ofJson limits (← (Json.readWithin limits s.raw).mapError .notJson)

def decode (blob : Blob) : Except DecodeError StoredRecord := decodeWithin .standard blob

end StoredRecord
end Lexicon
