import Lexicon.Script.Arabic
import Lexicon.Deinflection.Phrasal

/-! Kinds of deinflection rules. Each maps a text to what it was inflected from, or to nothing when
the text does not carry the inflection. The fields of a rule are texts, or the values that stand in
their place in a document. -/
namespace Lexicon

/-- Affixes replaced on both sides of a stem, and what the stem may not look like. -/
structure AffixChange (α : Type) where
  inflectedFront : α
  deinflectedFront : α
  inflectedBack : α
  deinflectedBack : α
  initialDisallow : Option α
  finalDisallow : Option α
  arabicOnly : Bool

section
variable {γ : Type} [DecidableEq γ] [Letter γ]

namespace AffixChange

/-- A stem passes when neither its first nor its last letter is ruled out, and when, if asked
for, it is a non-empty run of Arabic letters. -/
def accepts (change : AffixChange (TextOf γ)) (stem : TextOf γ) : Bool :=
  (!change.arabicOnly || (!stem.isEmpty && stem.all fun a => (Letter.char? a).any Arabic.isLetter))
    && change.initialDisallow != some (stem.take 1)
    && change.finalDisallow != some (stem.drop (stem.length - 1))

def stem? (change : AffixChange (TextOf γ)) (s : TextOf γ) : Option (TextOf γ) := do
  let stem ← (← s.dropFront? change.inflectedFront).dropBack? change.inflectedBack
  if change.accepts stem then some stem else none

def deinflect (change : AffixChange (TextOf γ)) (s : TextOf γ) : Option (TextOf γ) :=
  (change.stem? s).map fun stem => change.deinflectedFront ++ stem ++ change.deinflectedBack

end AffixChange

end

/-- What a rule undoes. -/
inductive Kind (α : Type) where
  | suffix (inflected deinflected : α)
  | opening (inflected deinflected : α)
  | wholeWord (inflected deinflected : α)
  | affix (change : AffixChange α)
  | phrasalSuffix (inflected deinflected : α)
  | interposedObject

namespace Kind

variable {γ : Type} [DecidableEq γ] [Letter γ]

/-- The text that `s` was inflected from, if it carries the inflection. -/
def deinflect : Kind (TextOf γ) → TextOf γ → Option (TextOf γ)
  | suffix inflected deinflected, s => (s.dropBack? inflected).map (· ++ deinflected)
  | opening inflected deinflected, s => (s.dropFront? inflected).map (deinflected ++ ·)
  | wholeWord inflected deinflected, s => if s = inflected then some deinflected else none
  | affix change, s => change.deinflect s
  | phrasalSuffix inflected deinflected, s =>
    (Phrasal.splitVerb? s inflected).map fun (stem, follower) =>
      stem ++ deinflected ++ Letter.ofChar ' ' :: follower
  | interposedObject, s => Phrasal.dropObject? s

theorem deinflect_suffix_eq_some_iff {inflected deinflected s t : TextOf γ} :
    (suffix inflected deinflected).deinflect s = some t ↔
      ∃ stem, s = stem ++ inflected ∧ t = stem ++ deinflected := by
  simp only [deinflect, Option.map_eq_some_iff, TextOf.dropBack?_eq_some_iff]
  constructor <;> rintro ⟨stem, rfl, rfl⟩ <;> exact ⟨stem, rfl, rfl⟩

theorem deinflect_opening_eq_some_iff {inflected deinflected s t : TextOf γ} :
    (opening inflected deinflected).deinflect s = some t ↔
      ∃ stem, s = inflected ++ stem ∧ t = deinflected ++ stem := by
  simp only [deinflect, Option.map_eq_some_iff, TextOf.dropFront?_eq_some_iff]
  constructor <;> rintro ⟨stem, rfl, rfl⟩ <;> exact ⟨stem, rfl, rfl⟩

end Kind

/-- Why a rule cannot be put to a form: the form is no text, or a field of the rule is none. -/
inductive FormFault where
  | notText
  | wrongType
  deriving DecidableEq

/-- What the forms of a word and the names of transforms are: texts, or values of a document. -/
class WordForm (α : Type) where
  /-- Whether two forms count as one. -/
  same : α → α → Bool
  /-- What a form was inflected from, if it carries the inflection. -/
  deinflect : Kind α → α → Option α
  /-- Why a form cannot be put to a rule at all. -/
  fault? : Kind α → α → Option FormFault

/-- A text can be put to every rule over texts. -/
instance : WordForm Text where
  same s t := s = t
  deinflect := Kind.deinflect
  fault? _ _ := none

end Lexicon
