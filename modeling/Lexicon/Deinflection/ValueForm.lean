import Lexicon.Json.Display
import Lexicon.Deinflection.Kind

/-! Rules whose fields are values of a document, not all of them texts. Whether such a rule can be
applied shows only when a form meets it. Only a rule for whole words is put to a form that is no
text, and only such a rule makes one. -/
namespace Lexicon

namespace Json

def text? : Json → Option RawText
  | str s => some s
  | _ => none

end Json

namespace AffixChange

/-- The change as one of texts. A guard that is no text rules no stem out. -/
def ofValues? (change : AffixChange Json) : Option (AffixChange RawText) := do
  return ⟨← change.inflectedFront.text?, ← change.deinflectedFront.text?,
    ← change.inflectedBack.text?, ← change.deinflectedBack.text?,
    change.initialDisallow.bind Json.text?, change.finalDisallow.bind Json.text?,
    change.arabicOnly⟩

/-- The affixes of a text are looked at first, then its stem, and only then what replaces them. -/
def lacksText (change : AffixChange Json) (s : RawText) : Bool :=
  match change.inflectedFront, change.inflectedBack with
  | .str front, .str back =>
    let matching : AffixChange RawText := ⟨front, [], back, [],
      change.initialDisallow.bind Json.text?, change.finalDisallow.bind Json.text?,
      change.arabicOnly⟩
    (matching.stem? s).isSome && change.ofValues?.isNone
  | .str front, _ => s.startsWith front
  | _, _ => true

end AffixChange

namespace Kind

/-- The rule as one over texts, if its fields are. A phrase takes any replacement as it is
displayed. -/
def ofValues? : Kind Json → Option (Kind RawText)
  | suffix inflected deinflected => do return suffix (← inflected.text?) (← deinflected.text?)
  | opening inflected deinflected => do return opening (← inflected.text?) (← deinflected.text?)
  | wholeWord inflected deinflected => do
    return wholeWord (← inflected.text?) (← deinflected.text?)
  | affix change => change.ofValues?.map affix
  | phrasalSuffix inflected deinflected => do
    return phrasalSuffix (← inflected.text?) deinflected.display
  | interposedObject => some interposedObject

/-- The value that a form was inflected from. A whole word may be any value. -/
def deinflectValue : Kind Json → Json → Option Json
  | wholeWord inflected deinflected, v => if v.same inflected then some deinflected else none
  | kind, .str s => (kind.ofValues?.bind (·.deinflect s)).map .str
  | _, _ => none

/-- Whether applying a rule to a text needs a text in a field where there is none. -/
def lacksText : Kind Json → RawText → Bool
  | suffix (.str inflected) deinflected, s => s.endsWith inflected && deinflected.text?.isNone
  | opening (.str inflected) deinflected, s => s.startsWith inflected && deinflected.text?.isNone
  | suffix _ _, _ | opening _ _, _ => true
  | affix change, s => change.lacksText s
  | phrasalSuffix inflected _, s =>
    inflected.text?.isNone && (Phrasal.verbAndFollower? s).isSome
  | wholeWord _ _, _ | interposedObject, _ => false

def valueFault? : Kind Json → Json → Option FormFault
  | wholeWord _ _, _ => none
  | kind, .str s => if kind.lacksText s then some .wrongType else none
  | _, _ => some .notText

end Kind

instance : WordForm Json where
  same := Json.same
  deinflect := Kind.deinflectValue
  fault? := Kind.valueFault?

end Lexicon
