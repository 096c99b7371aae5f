import Lexicon.Files.Basic
import Lexicon.Ini.Reader
import Lexicon.Registry.Basic
import Lexicon.Registry.Notice
import Lexicon.Text.Digits

/-! The registry as a configuration document: one section for each dictionary, named after its id.
Values that cannot be used are reported, and the dictionary is then switched off or sorted last. -/
namespace Lexicon

namespace DictionaryInfo

def sectionMark : Text := "dictionary.".toList

def sectionName (id : Int) : Text := sectionMark ++ Text.ofInt id

def nameKey : Text := "name".toList

def enabledKey : Text := "enabled".toList

def priorityKey : Text := "priority".toList

/-- The name of a dictionary that has none in its section. -/
def defaultName (id : Int) : Text := "Dictionary ".toList ++ Text.ofInt id

/-- The entries that are written for a dictionary. -/
def toEntries (info : DictionaryInfo) : Table Text Text :=
  [(nameKey, info.name), (enabledKey, Ini.switchText info.state.enabled)]
    ++ match info.state.priority with
      | some priority => [(priorityKey, Text.ofInt priority)]
      | none => []

/-- The value of an entry that may be absent or not be of its form, and what to report then. -/
def readEntry {α : Type} (value? : Option Text) (read? : Text → Option α) (default : α)
    (notice : RegistryNotice) : α × List RegistryNotice :=
  match value? with
  | none => (default, [])
  | some value =>
    match read? value with
    | some a => (a, [])
    | none => (default, [notice])

/-- The dictionary with an id, as its section describes it. -/
def ofSection (limit : Nat) (doc : Ini) (part : Text) (id : Int) :
    DictionaryInfo × List RegistryNotice :=
  let (enabled, enabledNotices) :=
    readEntry (doc.get? part enabledKey) Ini.switch? false (.badEnabled id)
  let (priority, priorityNotices) :=
    readEntry (doc.get? part priorityKey) (fun value => (value.toIntWithin? limit).map some)
      none (.badPriority id)
  (⟨id, (doc.get? part nameKey).getD (defaultName id), enabled, priority⟩,
    enabledNotices ++ priorityNotices)

/-- What a section says: nothing unless it is named as one of a dictionary. -/
def ofSection? (limit : Nat) (doc : Ini) (part : Text) :
    Option DictionaryInfo × List RegistryNotice :=
  match part.dropFront? sectionMark with
  | none => (none, [])
  | some idText =>
    match Text.toIntWithin? limit idText with
    | none => (none, [.badSectionId part])
    | some id =>
      let (info, notices) := ofSection limit doc part id
      (some info, notices)

end DictionaryInfo

namespace Registry

/-- The dictionaries that the sections of a document describe, in order. -/
def infosOf (limit : Nat) (doc : Ini) : List DictionaryInfo :=
  doc.sections.keys.filterMap fun part => (DictionaryInfo.ofSection? limit doc part).1

def ofIni (limit : Nat) (doc : Ini) : Registry := ofList (infosOf limit doc)

def noticesOf (limit : Nat) (doc : Ini) : List RegistryNotice :=
  doc.sections.keys.flatMap fun part => (DictionaryInfo.ofSection? limit doc part).2

/-- One section for each dictionary, by priority. -/
def toIni (r : Registry) : Ini :=
  .ofSections (r.sorted.map fun info => (DictionaryInfo.sectionName info.id, info.toEntries))

/-- The text of the registry's file. -/
def toText (r : Registry) : Text := r.toIni.toText

/-- A registry with what was reported while it was read or changed. -/
structure Noted where
  registry : Registry
  notices : List RegistryNotice

/-- The registry that the text of a file describes, numbers of more than `limit` digits refused. -/
def ofTextWithin (limit : Nat) (path s : Text) : Noted :=
  match Ini.read? s with
  | none => ⟨empty, [.fileMalformed path]⟩
  | some doc =>
    ⟨ofIni limit doc, noticesOf limit doc ++ [.loaded (infosOf limit doc).length path]⟩

/-- Why no registry could be read. -/
inductive ReadError where
  | badPath
  | undecodable
  deriving DecidableEq

/-- The registry kept in a file, empty when there is no such file or a malformed one. -/
def loadWithin (limit : Nat) (files : Files) (path : Text) : Except ReadError Noted :=
  match files.read path with
  | .missing => .ok ⟨empty, [.fileMissing path]⟩
  | .badPath => .error .badPath
  | .undecodable readable =>
    if Ini.breaksOff readable then .ok ⟨empty, [.fileMalformed path]⟩ else .error .undecodable
  | .text s => .ok (ofTextWithin limit path s)

def load (files : Files) (path : Text) : Except ReadError Noted :=
  loadWithin Text.maxDigits files path

/-- Writes the registry into a file. -/
def save (r : Registry) (files : Files) (path : Text) : Except PathError Files :=
  files.write path r.toText

end Registry
end Lexicon
