import Lexicon.Deinflection.RuleSet
import Lexicon.Dictionary.Grouping
import Lexicon.Json.Printer
import Lexicon.Registry.Basic

/-! The JSON that the program prints: groups, derivations and dictionaries. -/
namespace Lexicon

def Definition.toJson (d : Definition) : Json :=
  .object [("dictionary_name", .str d.dictionary.raw), ("tags", .array (d.tags.map .str)),
    ("content", d.content)]

def FrequencyNote.toJson (f : FrequencyNote) : Json :=
  .object [("dictionary_name", .str f.dictionary.raw), ("value", .str f.value)]

/-- The only form of a group's word is its headword with its reading. -/
def Group.toJson (g : Group) : Json :=
  .object [("headword", g.headword), ("reading", g.reading),
    ("furigana", .array (g.furigana.map fun part => .array [part.1, part.2])),
    ("definitions", .array (g.definitions.map (·.toJson))),
    ("frequencies", .array (g.frequencies.map (·.toJson))),
    ("forms", .array [.array [g.headword, g.reading]]),
    ("term_tags", .array g.termTags), ("match_len", .int g.matchLength)]

def Derivation.toJson (d : Derivation Text) : Json :=
  .object [("text", .str d.text.raw), ("conditions", .int d.conditions),
    ("reasons", .array (d.reasons.map fun reason => .str (Text.raw reason)))]

def DictionaryInfo.toJson (info : DictionaryInfo) : Json :=
  .object [("id", .int info.id), ("name", .str info.name.raw),
    ("enabled", .bool info.state.enabled),
    ("priority", match info.state.priority with
      | some priority => .int priority
      | none => .null)]

namespace Command

/-- Items as they are printed: an indented array and a newline. -/
def printed (items : List Json) : RawText := Json.indented 0 (.array items) ++ Text.raw ['\n']

example : printed [] = "[]\n" := by decide

end Command
end Lexicon
