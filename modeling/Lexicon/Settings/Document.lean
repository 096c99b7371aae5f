import Lexicon.Files.Basic
import Lexicon.Ini.Reader
import Lexicon.Ini.Reference
import Lexicon.Settings.Basic

/-! Settings as a configuration document, read over the defaults. Values may refer to each other.
Settings are taken over one by one, so that those before a bad reference are changed. -/
namespace Lexicon

/-- Why settings could not be read. -/
inductive SettingsReadError where
  | badPath
  | undecodable
  | reference (error : Ini.ReferenceError)
  deriving DecidableEq

/-- Why settings could not be written. -/
inductive SettingsSaveError where
  | notText
  | strayPercent
  | write (error : WriteError)
  deriving DecidableEq

namespace Settings

/-- The document that a missing file stands for. -/
def defaultIni : Ini :=
  .ofSections (Setting.sections.map fun part =>
    (part.1, part.2.map fun k => (k.key, k.defaultText)))

/-- The document of a settings file with what was reported about it. A malformed file counts as
none. -/
def document (path : Text) : FileText → Except SettingsReadError (Ini × List SettingsNotice)
  | .missing => .ok (defaultIni, [])
  | .badPath => .error .badPath
  | .undecodable readable =>
    if Ini.breaksOff readable then .ok (defaultIni, [.fileMalformed path]) else .error .undecodable
  | .text s =>
    match Ini.overlay? defaultIni s with
    | some doc => .ok (doc, [])
    | none => .ok (defaultIni, [.fileMalformed path])

/-- What is reported about the text of a setting. -/
def noticesFor (k : Setting) (value : Text) : List SettingsNotice :=
  if k = .groupResults ∧ Ini.switch? value = none then [.badGroupResults] else []

/-- Settings with what was reported while they were read, and the fault that ended the reading. -/
structure Loaded where
  settings : Settings
  notices : List SettingsNotice
  error? : Option SettingsReadError

/-- Takes over some settings in order, up to the first bad reference. -/
def takeOver (doc : Ini) (s : Settings) (notices : List SettingsNotice) : List Setting → Loaded
  | [] => ⟨s, notices, none⟩
  | k :: rest =>
    match doc.expanded k.part k.key with
    | .error e => ⟨s, notices, some (.reference e)⟩
    | .ok value => takeOver doc (s.set k (valueOf k value)) (notices ++ noticesFor k value) rest

/-- Reads the settings in a file over the present ones. -/
def load (s : Settings) (files : Files) (path : Text) : Loaded :=
  match document path (files.read path) with
  | .ok (doc, notices) => takeOver doc s notices Setting.all
  | .error e => ⟨s, [], some e⟩

/-- The text that is written for a setting. -/
def savedText (k : Setting) (v : Json) : Except SettingsSaveError RawText := do
  if k ≠ .groupResults ∧ v.isNull then throw .notText
  let value := if k = .groupResults then v.display.mapRuns Text.lowercase else v.display
  if Ini.isWritable value.marked then return value else throw .strayPercent

/-- The sections of some settings, unless one of them has no text that can be read again. -/
def toSections (s : Settings) : Except SettingsSaveError (List (Text × List (Text × RawText))) :=
  Setting.sections.mapM fun part => do
    let entries ← part.2.mapM fun k => do return (k.key, ← savedText k (s k))
    return (part.1, entries)

/-- The pieces in which a section is written. A value with a surrogate makes a piece without bytes. -/
def sectionPieces (part : Text × List (Text × RawText)) : List (Option Text) :=
  some (Ini.headerText part.1)
    :: part.2.map (fun entry => entry.2.text?.map fun value => Ini.entryText (entry.1, value))
    ++ [some ['\n']]

/-- Writes the settings into a file. Every value is looked at before the file is opened. -/
def save (s : Settings) (files : Files) (path : Text) : Except SettingsSaveError Unit × Files :=
  match s.toSections with
  | .error e => (.error e, files)
  | .ok sections =>
    let (outcome, files) := files.writePieces path (sections.flatMap sectionPieces)
    (outcome.mapError .write, files)

end Settings

/-- The settings of the program with the path of the file they belong to. -/
structure Configuration where
  path : Text
  settings : Settings

namespace Configuration

/-- Reads the settings again, from the file at a path. The path is taken over before the file is read. -/
def reload (c : Configuration) (files : Files) (path : Text) : Configuration × Settings.Loaded :=
  let loaded := c.settings.load files path
  (⟨path, loaded.settings⟩, loaded)

/-- Writes the settings into the file they belong to. -/
def save (c : Configuration) (files : Files) : Except SettingsSaveError Unit × Files :=
  c.settings.save files c.path

end Configuration
end Lexicon
