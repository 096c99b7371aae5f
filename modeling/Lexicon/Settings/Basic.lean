import Lexicon.Json.Display
import Lexicon.Text.LetterCase
import Lexicon.Log
import Lexicon.Ini.Basic

/-! The settings of the program. Settings read from a file are texts, except for the last one, which
is a truth value; a caller may set them to anything. -/
namespace Lexicon

inductive Setting where
  | language
  | storePath
  | dictionariesPath
  | logLevel
  | groupResults
  deriving DecidableEq

namespace Setting

/-- The name of a setting in files. -/
def key : Setting → Text
  | language => "language".toList
  | storePath => "store_path".toList
  | dictionariesPath => "dictionaries_path".toList
  | logLevel => "log_level".toList
  | groupResults => "group_results".toList

/-- The section in which a setting stands. -/
def part : Setting → Text
  | groupResults => "Lookup".toList
  | _ => "Settings".toList

/-- What a file says that does not mention the setting. -/
def defaultText : Setting → Text
  | language => "ja".toList
  | storePath => "terms.marisa".toList
  | dictionariesPath => "dictionaries.ini".toList
  | logLevel => "INFO".toList
  | groupResults => "true".toList

/-- The sections of a settings file with their settings. -/
def sections : List (Text × List Setting) :=
  [("Settings".toList, [language, storePath, dictionariesPath, logLevel]),
    ("Lookup".toList, [groupResults])]

/-- Every setting in the order of the file. -/
def all : List Setting := sections.flatMap (·.2)

theorem mem_all (k : Setting) : k ∈ all := by cases k <;> decide

def ofKey? (key : Text) : Option Setting := all.find? fun k => k.key = key

end Setting

/-- The value of every setting. -/
abbrev Settings := Setting → Json

namespace Settings

/-- Changes one setting. -/
def set (s : Settings) (k : Setting) (v : Json) : Settings := fun k' => if k' = k then v else s k'

@[simp] theorem set_self (s : Settings) (k : Setting) (v : Json) : s.set k v k = v := by simp [set]

theorem set_of_ne (s : Settings) {k k' : Setting} (v : Json) (h : k' ≠ k) :
    s.set k v k' = s k' := by
  simp [set, h]

/-- A setting as text. Those read from a file have no surrogates, which would be marked here. -/
def text (s : Settings) (k : Setting) : Text := (s k).display.marked

/-- The value that a setting's text stands for; a truth value that is not one counts as true. -/
def valueOf (k : Setting) (value : Text) : Json :=
  if k = .groupResults then .bool ((Ini.switch? value).getD true) else .str value.raw

/-- The settings without a file. -/
def default : Settings := fun k => valueOf k k.defaultText

end Settings

/-- What is reported when settings are read. -/
inductive SettingsNotice where
  | fileMalformed (path : Text)
  | badGroupResults
  deriving DecidableEq

namespace SettingsNotice

def text : SettingsNotice → Text
  | fileMalformed path =>
    "Warning: Could not parse ".toList ++ path
      ++ ". Using defaults. Error: the file is malformed.".toList
  | badGroupResults => "Invalid group_results value, falling back to true.".toList

def message (notice : SettingsNotice) : Log.Message := ⟨Log.warning, notice.text⟩

end SettingsNotice
end Lexicon
