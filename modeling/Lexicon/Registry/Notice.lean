import Lexicon.Log

/-! What is reported about the registry and its file. -/
namespace Lexicon

inductive RegistryNotice where
  | added (name : Text) (id : Int)
  | toggled (id : Int) (enabled : Bool)
  | deleted (name : Text) (id : Int)
  | unknownId (id : Int)
  | fileMissing (path : Text)
  | fileMalformed (path : Text)
  | badSectionId (part : Text)
  | badEnabled (id : Int)
  | badPriority (id : Int)
  | loaded (count : Nat) (path : Text)
  | saved (path : Text)
  deriving DecidableEq

namespace RegistryNotice

/-- Faults are warnings, everything else is information. -/
def level : RegistryNotice → Log.Level
  | unknownId _ | fileMalformed _ | badSectionId _ | badEnabled _ | badPriority _ => Log.warning
  | _ => Log.info

def text : RegistryNotice → Text
  | added name id =>
    "Added dictionary '".toList ++ name ++ "' (id ".toList ++ Text.ofInt id ++ ").".toList
  | toggled id enabled =>
    "Dictionary ".toList ++ Text.ofInt id ++ (if enabled then " enabled." else " disabled.").toList
  | deleted name id =>
    "Deleted dictionary '".toList ++ name ++ "' (id ".toList ++ Text.ofInt id ++ ").".toList
  | unknownId id =>
    "Ignoring unknown dictionary id ".toList ++ Text.ofInt id ++ " in reorder.".toList
  | fileMissing path => path ++ " not found, starting with no dictionaries.".toList
  | fileMalformed path =>
    "Warning: Could not parse ".toList ++ path
      ++ ". Starting with no dictionaries. Error: the file is malformed.".toList
  | badSectionId part =>
    "Skipping section [".toList ++ part ++ "]: id is not an integer.".toList
  | badEnabled id =>
    "Dictionary ".toList ++ Text.ofInt id
      ++ ": invalid enabled value, treating as disabled.".toList
  | badPriority id =>
    "Dictionary ".toList ++ Text.ofInt id ++ ": invalid priority, sorting it last.".toList
  | loaded count path =>
    "Loaded ".toList ++ Text.ofNat count ++ " dictionaries from ".toList ++ path ++ ['.']
  | saved path => "Dictionary settings saved to ".toList ++ path ++ ['.']

def message (notice : RegistryNotice) : Log.Message := ⟨notice.level, notice.text⟩

end RegistryNotice
end Lexicon
