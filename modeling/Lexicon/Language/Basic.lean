import Lexicon.Text.LetterCase
import Lexicon.Deinflection.Descriptor
import Lexicon.Rules.Arabic
import Lexicon.Rules.English
import Lexicon.Rules.French
import Lexicon.Rules.German
import Lexicon.Rules.Japanese
import Lexicon.Rules.Korean
import Lexicon.Rules.Latin
import Lexicon.Rules.Portuguese
import Lexicon.Rules.Spanish
import Lexicon.Rules.Tagalog

/-! The languages that can be looked up, with their codes, their writing and their rule sets. -/
namespace Lexicon

inductive Language where
  | japanese | english | korean | chinese | arabic | spanish | french | german | portuguese
  | bulgarian | czech | danish | greek | estonian | persian | finnish | hebrew | hindi | hungarian
  | indonesian | italian | latin | lao | latvian | georgian | kannada | khmer | mongolian | maltese
  | dutch | norwegian | polish | romanian | russian | swedish | thai | tagalog | turkish
  | ukrainian | vietnamese | welsh | cantonese
  deriving DecidableEq, Repr

namespace Language

/-- Every language, in the order of the list that users see. -/
def all : List Language := [
  .japanese, .english, .korean, .chinese, .arabic, .spanish, .french, .german, .portuguese,
  .bulgarian, .czech, .danish, .greek, .estonian, .persian, .finnish, .hebrew, .hindi, .hungarian,
  .indonesian, .italian, .latin, .lao, .latvian, .georgian, .kannada, .khmer, .mongolian, .maltese,
  .dutch, .norwegian, .polish, .romanian, .russian, .swedish, .thai, .tagalog, .turkish,
  .ukrainian, .vietnamese, .welsh, .cantonese]

/-- The code by which a language is selected. -/
def code : Language → String
  | .japanese => "ja"
  | .english => "en"
  | .korean => "ko"
  | .chinese => "zh"
  | .arabic => "ar"
  | .spanish => "es"
  | .french => "fr"
  | .german => "de"
  | .portuguese => "pt"
  | .bulgarian => "bg"
  | .czech => "cs"
  | .danish => "da"
  | .greek => "el"
  | .estonian => "et"
  | .persian => "fa"
  | .finnish => "fi"
  | .hebrew => "he"
  | .hindi => "hi"
  | .hungarian => "hu"
  | .indonesian => "id"
  | .italian => "it"
  | .latin => "la"
  | .lao => "lo"
  | .latvian => "lv"
  | .georgian => "ka"
  | .kannada => "kn"
  | .khmer => "km"
  | .mongolian => "mn"
  | .maltese => "mt"
  | .dutch => "nl"
  | .norwegian => "no"
  | .polish => "pl"
  | .romanian => "ro"
  | .russian => "ru"
  | .swedish => "sv"
  | .thai => "th"
  | .tagalog => "tl"
  | .turkish => "tr"
  | .ukrainian => "uk"
  | .vietnamese => "vi"
  | .welsh => "cy"
  | .cantonese => "yue"

/-- The name in capitals. -/
def name : Language → String
  | .japanese => "JAPANESE"
  | .english => "ENGLISH"
  | .korean => "KOREAN"
  | .chinese => "CHINESE"
  | .arabic => "ARABIC"
  | .spanish => "SPANISH"
  | .french => "FRENCH"
  | .german => "GERMAN"
  | .portuguese => "PORTUGUESE"
  | .bulgarian => "BULGARIAN"
  | .czech => "CZECH"
  | .danish => "DANISH"
  | .greek => "GREEK"
  | .estonian => "ESTONIAN"
  | .persian => "PERSIAN"
  | .finnish => "FINNISH"
  | .hebrew => "HEBREW"
  | .hindi => "HINDI"
  | .hungarian => "HUNGARIAN"
  | .indonesian => "INDONESIAN"
  | .italian => "ITALIAN"
  | .latin => "LATIN"
  | .lao => "LAO"
  | .latvian => "LATVIAN"
  | .georgian => "GEORGIAN"
  | .kannada => "KANNADA"
  | .khmer => "KHMER"
  | .mongolian => "MONGOLIAN"
  | .maltese => "MALTESE"
  | .dutch => "DUTCH"
  | .norwegian => "NORWEGIAN"
  | .polish => "POLISH"
  | .romanian => "ROMANIAN"
  | .russian => "RUSSIAN"
  | .swedish => "SWEDISH"
  | .thai => "THAI"
  | .tagalog => "TAGALOG"
  | .turkish => "TURKISH"
  | .ukrainian => "UKRAINIAN"
  | .vietnamese => "VIETNAMESE"
  | .welsh => "WELSH"
  | .cantonese => "CANTONESE"

/-- The language of a code. -/
def ofCode? (code : Text) : Option Language := all.find? fun l => l.code.toList = code

example : all.length = 42 := by decide

/-- Languages written in scripts with case. They have a lowercase variant, and a single letter of
them is rarely a word. -/
def hasCase : Language → Bool
  | .english | .spanish | .french | .german | .portuguese | .italian | .dutch | .norwegian
  | .swedish | .danish | .finnish | .estonian | .latvian | .romanian | .polish | .czech
  | .hungarian | .turkish | .indonesian | .vietnamese | .tagalog | .maltese | .welsh | .bulgarian
  | .russian | .ukrainian | .greek | .latin | .mongolian => true
  | _ => false

/-- Languages in which a form may only hold ideographs of the text it comes from. -/
def isIdeographic : Language → Bool
  | .japanese | .chinese => true
  | _ => false

/-- The name of the rule table, for the languages that have one. -/
def ruleTable? : Language → Option String
  | .japanese => some "japanese.json"
  | .english => some "english.json"
  | .korean => some "korean.json"
  | .arabic => some "arabic.json"
  | .spanish => some "spanish.json"
  | .french => some "french.json"
  | .german => some "german.json"
  | .portuguese => some "portuguese.json"
  | .latin => some "latin.json"
  | .tagalog => some "tagalog.json"
  | _ => none

/-- The rule set of a table; one with a defect counts as empty. -/
def compiled (d : Descriptor) : RuleSet Text :=
  match d.compile with
  | .ok rs => rs
  | .error _ => .empty

def japaneseRules : RuleSet Text := compiled Rules.japanese

def englishRules : RuleSet Text := compiled Rules.english

def koreanRules : RuleSet Text := compiled Rules.korean

def arabicRules : RuleSet Text := compiled Rules.arabic

def spanishRules : RuleSet Text := compiled Rules.spanish

def frenchRules : RuleSet Text := compiled Rules.french

def germanRules : RuleSet Text := compiled Rules.german

def portugueseRules : RuleSet Text := compiled Rules.portuguese

def latinRules : RuleSet Text := compiled Rules.latin

def tagalogRules : RuleSet Text := compiled Rules.tagalog

/-- The rule set of a language, empty where there are no rules. -/
def ruleSet : Language → RuleSet Text
  | .japanese => japaneseRules
  | .english => englishRules
  | .korean => koreanRules
  | .arabic => arabicRules
  | .spanish => spanishRules
  | .french => frenchRules
  | .german => germanRules
  | .portuguese => portugueseRules
  | .latin => latinRules
  | .tagalog => tagalogRules
  | _ => .empty

end Language
end Lexicon
