import Lexicon.Command.Arguments
import Lexicon.Dictionary.Search
import Lexicon.Registry.Edit

/-! The requests that the command line can make, and the arguments they are made with. -/
namespace Lexicon.Command

/-- A word to look up at a byte offset. Without a language or with an empty store path the settings
decide; an offset and a length that are absent are missed only when they are needed. -/
structure LookupRequest where
  text : Text
  index : Option Int
  language : Option Language
  store : Text
  maxLength : Option Int
  flat : Bool

inductive Task where
  | lookup (request : LookupRequest)
  | deinflect (text : Text) (language : Option Language)
  | listDictionaries
  | editDictionaries (edit : RegistryEdit)

/-- A task comes with the level of the log, empty if the settings decide. -/
inductive Request where
  | showHelp
  | showVersion
  | run (logLevel : Text) (task : Task)

namespace Request

def helpOptions : List OptionForm := [⟨"-h".toList, .stop⟩, ⟨"--help".toList, .stop⟩]

def versionName : Text := "--version".toList

def logLevelName : Text := "--log-level".toList

def languageName : Text := "--language".toList

def indexName : Text := "--index".toList

def storeName : Text := "--store".toList

def maxLengthName : Text := "--max-length".toList

def flatName : Text := "--flat".toList

/-- The state a dictionary is switched to. -/
def stateOf? (s : Text) : Option Bool :=
  if s = "on".toList then some true else if s = "off".toList then some false else none

def isAny (_ : Text) : Bool := true

def isInteger (s : Text) : Bool := s.toInt?.isSome

def isLanguage (s : Text) : Bool := (Language.ofCode? s).isSome

def isState (s : Text) : Bool := (stateOf? s).isSome

/-- Options of the program itself, before the name of a task. -/
def programForm : Form :=
  ⟨helpOptions ++ [⟨versionName, .stop⟩, ⟨logLevelName, .value isAny⟩], [.rest]⟩

def lookupForm : Form where
  options := helpOptions ++ [⟨indexName, .value isInteger⟩, ⟨languageName, .value isLanguage⟩,
    ⟨storeName, .value isAny⟩, ⟨maxLengthName, .value isInteger⟩, ⟨flatName, .flag⟩]
  operands := [.one isAny]

def deinflectForm : Form := ⟨helpOptions ++ [⟨languageName, .value isLanguage⟩], [.one isAny]⟩

/-- A form without options of its own. -/
def plainForm (operands : List OperandForm) : Form := ⟨helpOptions, operands⟩

/-- Applies an option to a lookup. -/
def LookupRequest.withOption (r : LookupRequest) (option : Text × Option Text) : LookupRequest :=
  let (name, value?) := option
  if name = indexName then { r with index := value?.bind Text.toInt? }
  else if name = maxLengthName then { r with maxLength := value?.bind Text.toInt? }
  else if name = languageName then { r with language := value?.bind Language.ofCode? }
  else if name = storeName then { r with store := value?.getD [] }
  else { r with flat := true }

/-- The value of the last option, none when it has none. -/
def lastValue? (options : List (Text × Option Text)) : Option Text :=
  options.getLast?.bind (·.2)

/-- A request, and whether arguments were left over. -/
structure ReadRequest where
  request : Request
  superfluous : Bool

/-- The request for what was read: the one of its values, or what an option asked for at once. -/
def ofReading? (r : Reading) (f : Values → Option ReadRequest) : Option ReadRequest :=
  match r with
  | .mistaken => none
  | .stopped name => some ⟨if name = versionName then .showVersion else .showHelp, false⟩
  | .complete values =>
    (f values).map fun read => { read with superfluous := read.superfluous || values.superfluous }

/-- The task of the values that are read. -/
def task? (form : Form) (args : List Text) (f : Values → Option Task) : Option ReadRequest :=
  ofReading? (form.read args) fun values => (f values).map fun task => ⟨.run [] task, false⟩

/-- The request of the words after `dictionaries`. A state that is absent switches off. -/
def ofDictionariesWords? : List Text → Option ReadRequest
  | [] => none
  | action :: args =>
    match String.ofList action with
    | "list" => task? (plainForm []) args fun _ => some .listDictionaries
    | "toggle" => task? (plainForm [.one isInteger, .one isState]) args fun values =>
      match values.operands with
      | [some id, state] => do
        return .editDictionaries (.toggle (← id.toInt?) ((state.bind stateOf?).getD false))
      | _ => none
    | "reorder" => task? (plainForm [.many isInteger]) args fun values => do
      return .editDictionaries (.reorder (← values.operands.mapM (·.bind Text.toInt?)))
    | "delete" => task? (plainForm [.one isInteger]) args fun values =>
      match values.operands with
      | [some id] => do return .editDictionaries (.delete (← id.toInt?))
      | _ => none
    | _ => none

/-- The words of a rest. -/
def wordsOf (values : Values) : List Text := values.operands.filterMap id

/-- The request of a task's name and its arguments. -/
def ofWords? : List Text → Option ReadRequest
  | [] => none
  | name :: args =>
    match String.ofList name with
    | "lookup" => task? lookupForm args fun values =>
      match values.operands with
      | [some text] =>
        some (.lookup (values.options.foldl LookupRequest.withOption
          ⟨text, some 0, none, [], some Search.defaultLength, false⟩))
      | _ => none
    | "deinflect" => task? deinflectForm args fun values =>
      match values.operands with
      | [some text] =>
        some (.deinflect text ((lastValue? values.options).bind Language.ofCode?))
      | _ => none
    | "dictionaries" =>
      ofReading? ((plainForm [.rest]).read args) fun values => ofDictionariesWords? (wordsOf values)
    | _ => none

def withLogLevel (level : Text) : Request → Request
  | run _ task => run level task
  | request => request

/-- The request that the arguments of the program make, unless they are mistaken. Arguments left
over are a mistake when a task is asked for. -/
def ofArguments? (args : List Text) : Option Request :=
  let read? := ofReading? (programForm.read args) fun values =>
    (ofWords? (wordsOf values)).map fun read =>
      { read with request := read.request.withLogLevel ((lastValue? values.options).getD []) }
  match read? with
  | some ⟨.run _ _, true⟩ | none => none
  | some read => some read.request

end Request
end Lexicon.Command
