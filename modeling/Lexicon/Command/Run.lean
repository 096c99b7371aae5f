import Lexicon.Command.Output
import Lexicon.Command.Request
import Lexicon.Files.Basic
import Lexicon.Language.Deinflection
import Lexicon.Registry.Document
import Lexicon.Settings.Document
import Lexicon.Text.Quoted

/-! Running the program on the files of a directory. The settings are read first; then the request
is carried out, and what it reports is written to the log from the chosen level on. -/
namespace Lexicon.Command

/-- What a run reports. -/
inductive Notice where
  | unknownLanguage (code : Text)
  | compiledRules (transforms conditions : Nat)
  | loadedRules (transforms : Nat) (language : Language)
  | missingStore (path : Text)
  | mappedStore (path : Text) (rows : Nat)
  | found (entries : Nat) (beginning : Text)
  | missingDictionary (id : Int)
  | missingDirectory (path : Text)
  | registry (notice : RegistryNotice)
  | search (warning : SearchWarning)
  deriving DecidableEq

namespace Notice

def level : Notice → Log.Level
  | unknownLanguage _ | search _ => Log.warning
  | compiledRules _ _ | loadedRules _ _ => Log.debug
  | mappedStore _ _ | found _ _ => Log.info
  | missingStore _ | missingDictionary _ | missingDirectory _ => Log.error
  | registry notice => notice.level

def text : Notice → Text
  | unknownLanguage code =>
    "Unknown language '".toList ++ code ++ "' in config.ini, using Japanese.".toList
  | compiledRules transforms conditions =>
    "Compiled ".toList ++ Text.ofNat transforms ++ " transforms over ".toList
      ++ Text.ofNat conditions ++ " conditions.".toList
  | loadedRules transforms language =>
    "Loaded ".toList ++ Text.ofNat transforms ++ " transforms for ".toList
      ++ Text.lowercase language.name.toList ++ ['.']
  | missingStore path =>
    "Term store not found at ".toList ++ path
      ++ ". Build one with TrieTermStore.build(rows, path).".toList
  | mappedStore path rows =>
    "Mapped term store ".toList ++ path ++ " (".toList ++ Text.ofNat rows ++ " keys).".toList
  | found entries beginning =>
    "Found ".toList ++ Text.ofNat entries ++ " entries for '".toList ++ beginning ++ "...'".toList
  | missingDictionary id => "No dictionary with id ".toList ++ Text.ofInt id ++ ['.']
  | missingDirectory path => "[Errno 2] No such file or directory: ".toList ++ RawText.quoted path.raw
  | registry notice => notice.text
  | search warning => warning.message

def message (notice : Notice) : Log.Message := ⟨notice.level, notice.text⟩

end Notice

/-- Faults that end the program without an exit code of its own. -/
inductive Fault where
  | settings (error : SettingsReadError)
  | registry (error : Registry.ReadError)
  | path (error : PathError)
  | notStore
  | missingNumber
  | halted (halt : Halt)
  | group (error : GroupError)
  | unprintable
  deriving DecidableEq

structure Outcome where
  exit : Nat
  output : RawText
  notices : List Notice
  files : Files

/-- The language asked for, or the one of the settings, or Japanese if there is no such language. -/
def chooseLanguage (s : Settings) (asked : Option Language) : Language × List Notice :=
  match asked with
  | some l => (l, [])
  | none =>
    match Language.ofCode? (s.text .language) with
    | some l => (l, [])
    | none => (.japanese, [.unknownLanguage (s.text .language)])

/-- What is reported when the rules of all languages are made ready. -/
def rulesNotices : List Notice :=
  (Language.all.filter fun l => l.ruleTable?.isSome).flatMap fun l =>
    [.compiledRules l.ruleSet.transforms.length l.ruleSet.flags.length,
      .loadedRules l.ruleSet.transforms.length l]

def loadRegistry (files : Files) (s : Settings) : Except Fault Registry.Noted :=
  (Registry.load files (s.text .dictionariesPath)).mapError .registry

/-- How much of the searched text is reported. -/
def beginningLength : Nat := 15

def foundNotices (entries : List Entry) (window : Text) : List Notice :=
  if entries.isEmpty then [] else [.found entries.length (window.take beginningLength)]

/-- The store that a request names, or the one of the settings. -/
def storePath (s : Settings) (r : LookupRequest) : Text :=
  Path.plain (if r.store.isEmpty then s.text .storePath else r.store)

/-- The store at a path, if anything is there. Nothing else can take its place. -/
def openStore (files : Files) (path : Text) : Except Fault (Option PackedStore) :=
  match files.find path with
  | .ok (.file (.store store)) => .ok (some store)
  | .ok _ => .error .notStore
  | .error .tooLong => .error (.path .tooLong)
  | .error _ => .ok none

def sourceOf (r : Registry) (store : PackedStore) : Source where
  lookup := store.lookup
  decode := StoredRecord.decode
  deinflect := Language.deinflect
  snapshot := r.snapshot

def lookup (files : Files) (s : Settings) (r : LookupRequest) : Except Fault Outcome := do
  let (language, languageNotices) := chooseLanguage s r.language
  let ⟨registry, registryNotices⟩ ← loadRegistry files s
  let notices := languageNotices ++ registryNotices.map .registry
  let path := storePath s r
  match ← openStore files path with
  | none => return ⟨1, [], notices ++ [.missingStore path], files⟩
  | some store =>
    match Search.window? r.text r.index r.maxLength with
    | none => throw .missingNumber
    | some window =>
      let found := Search.ofWindow (sourceOf registry store) language window
      let grouped := (s .groupResults).isTruthy && !r.flat
      let groups ← (groupEntries registry.names grouped found.entries).mapError .group
      let output := printed (groups.map (·.toJson))
      if output.text?.isNone then throw .unprintable
      return ⟨0, output, notices ++ [.mappedStore path store.length]
        ++ rulesNotices ++ found.warnings.map .search ++ foundNotices found.entries window, files⟩

def deinflect (files : Files) (s : Settings) (text : Text) (asked : Option Language) :
    Except Fault Outcome := do
  let (language, notices) := chooseLanguage s asked
  let derivations ← (language.ruleSet.derivations text).mapError .halted
  return ⟨0, printed (derivations.map (·.toJson)), notices ++ rulesNotices, files⟩

def printedRegistry (r : Registry) : RawText := printed (r.sorted.map (·.toJson))

def listDictionaries (files : Files) (s : Settings) : Except Fault Outcome := do
  let ⟨registry, notices⟩ ← loadRegistry files s
  return ⟨0, printedRegistry registry, notices.map .registry, files⟩

/-- Changes the registry and writes it back. Nothing is written if the change is about a dictionary
that is not there. A missing directory is reported. -/
def editDictionaries (files : Files) (s : Settings) (edit : RegistryEdit) :
    Except Fault Outcome := do
  let ⟨registry, notices⟩ ← loadRegistry files s
  let path := s.text .dictionariesPath
  let notices := (notices ++ edit.notices registry).map Notice.registry
  match edit.missingId? registry with
  | some id => return ⟨1, [], notices ++ [.missingDictionary id], files⟩
  | none =>
    let registry := edit.apply registry
    match registry.save files path with
    | .ok files =>
      return ⟨0, printedRegistry registry, notices ++ [.registry (.saved path)], files⟩
    | .error .notFound => return ⟨1, [], notices ++ [.missingDirectory path], files⟩
    | .error e => throw (.path e)

def Task.execute (files : Files) (s : Settings) : Task → Except Fault Outcome
  | .lookup request => Command.lookup files s request
  | .deinflect text language => Command.deinflect files s text language
  | .listDictionaries => Command.listDictionaries files s
  | .editDictionaries edit => Command.editDictionaries files s edit

/-- The exit code, what was printed, the lines of the log, and the files afterwards. -/
structure Result where
  exit : Nat
  output : RawText
  log : List Text
  files : Files

def versionText : Text := "yomilex v.0.1.0\n".toList

def helpText : Text :=
  ("usage: yomilex [--version] [--log-level LEVEL] lookup|deinflect|dictionaries ...\n").toList

/-- Runs the program with the settings in a file. Mistaken arguments give the exit code 2. -/
def run (files : Files) (settingsPath : Text) (args : List Text) : Except Fault Result := do
  let loaded := Settings.default.load files settingsPath
  if let some error := loaded.error? then throw (.settings error)
  match Request.ofArguments? args with
  | none => return ⟨2, [], [], files⟩
  | some .showHelp => return ⟨0, Text.raw helpText, [], files⟩
  | some .showVersion => return ⟨0, Text.raw versionText, [], files⟩
  | some (.run level task) =>
    let outcome ← task.execute files loaded.settings
    let threshold := Log.levelOf (if level.isEmpty then loaded.settings .logLevel else .str level.raw)
    return ⟨outcome.exit, outcome.output,
      Log.lines threshold (outcome.notices.map (·.message)), outcome.files⟩

end Lexicon.Command
