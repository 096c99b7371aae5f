import Lexicon.Deinflection.Descriptor

/-! Short forms for writing rule tables. Each rule names what is inflected, what replaces it, the
conditions it asks for and the conditions it leaves. -/
namespace Lexicon.Rules

def conditionName (name : String) : RawText := Text.raw name.toList

def leaf (name : String) : RawText × Option (List RawText) := (conditionName name, none)

def composite (name : String) (parts : List String) : RawText × Option (List RawText) :=
  (conditionName name, some (parts.map conditionName))

def transform (id : String) (rules : List RuleSpec) : TransformSpec := ⟨id.toList, rules⟩

end Lexicon.Rules

namespace Lexicon.RuleSpec

def ofKind (kind : Kind Text) (conditionsIn conditionsOut : List String) : RuleSpec :=
  ⟨kind, conditionsIn.map Json.text, conditionsOut.map Json.text⟩

def suffix (inflected deinflected : String) : List String → List String → RuleSpec :=
  ofKind (.suffix inflected.toList deinflected.toList)

def opening (inflected deinflected : String) : List String → List String → RuleSpec :=
  ofKind (.opening inflected.toList deinflected.toList)

def wholeWord (inflected deinflected : String) : List String → List String → RuleSpec :=
  ofKind (.wholeWord inflected.toList deinflected.toList)

def phrasalSuffix (inflected deinflected : String) : List String → List String → RuleSpec :=
  ofKind (.phrasalSuffix inflected.toList deinflected.toList)

def interposedObject : List String → List String → RuleSpec := ofKind .interposedObject

/-- Affixes on both sides, with characters that the stem may not start or end with. -/
def guarded (front newFront back newBack : String) (initialDisallow finalDisallow : Option Char)
    (arabicOnly : Bool) : List String → List String → RuleSpec :=
  ofKind (.affix ⟨front.toList, newFront.toList, back.toList, newBack.toList,
    initialDisallow.map fun c => [c], finalDisallow.map fun c => [c], arabicOnly⟩)

def affix (front newFront back newBack : String) : List String → List String → RuleSpec :=
  guarded front newFront back newBack none none false

end Lexicon.RuleSpec
