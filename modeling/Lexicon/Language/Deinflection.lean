import Lexicon.Language.Basic
import Lexicon.Script.Hangul
import Lexicon.Script.Kana

/-! Deinflection by language, and the spellings of a text that are deinflected alongside it. Korean
rules work on jamo, so a text is taken apart first and the words found are put together again; jamo that
were typed as such stay apart. -/
namespace Lexicon

/-- Words put together from the jamo of their syllables, each once. -/
def Hangul.reassembled (terms : List Text) : List Text :=
  distinct (terms.map fun term => unshield (assemble term))

namespace RuleSet

/-- Deinflection over jamo. -/
def jamoDeinflections (rs : RuleSet Text) (s : Text) : Except Halt (List Text) :=
  (rs.deinflections (Hangul.disassemble (Hangul.shield s))).map Hangul.reassembled

end RuleSet

namespace Language

/-- The text and its normal forms in the order in which they are made, repeats included. -/
def spellings (l : Language) (s : Text) : List Text :=
  if l = .japanese then [s, Kana.toHiragana s, Kana.expandMarks (Kana.toHiragana s)]
  else if l = .arabic then [s, Arabic.stripMarks s]
  else if l.hasCase then [s, s.lowercase]
  else [s]

/-- The spellings without repeats, the text itself first. -/
def variants (l : Language) (s : Text) : List Text := distinct (l.spellings s)

theorem head?_variants (l : Language) (s : Text) : (l.variants s).head? = some s := by
  unfold variants spellings
  repeat' split
  all_goals simp [distinct]

/-- The words a text may be an inflected form of, unless the rules come to a halt. -/
def deinflections (l : Language) (s : Text) : Except Halt (List Text) :=
  if l = .korean then l.ruleSet.jamoDeinflections s else l.ruleSet.deinflections s

/-- The words a text may be an inflected form of. -/
def deinflect (l : Language) (s : Text) : List Text :=
  match l.deinflections s with
  | .ok words => words
  | .error _ => []

end Language
end Lexicon
