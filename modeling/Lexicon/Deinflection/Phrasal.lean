import Lexicon.Text.Blank

/-! English phrasal verbs: a verb with a particle, and an object between the two. -/
namespace Lexicon.Phrasal

def particles : List Text := [
  "aboard", "about", "above", "across", "ahead", "alongside", "apart", "around", "aside", "astray",
  "away", "back", "before", "behind", "below", "beneath", "besides", "between", "beyond", "by",
  "close", "down", "east", "west", "north", "south", "eastward", "westward", "northward",
  "southward", "forward", "backward", "backwards", "forwards", "home", "in", "inside", "instead",
  "near", "off", "on", "opposite", "out", "outside", "over", "overhead", "past", "round", "since",
  "through", "throughout", "together", "under", "underneath", "up", "within", "without"].map
    String.toList

def prepositions : List Text := [
  "aback", "about", "above", "across", "after", "against", "ahead", "along", "among", "apart",
  "around", "as", "aside", "at", "away", "back", "before", "behind", "below", "between", "beyond",
  "by", "down", "even", "for", "forth", "forward", "from", "in", "into", "of", "off", "on", "onto",
  "open", "out", "over", "past", "round", "through", "to", "together", "toward", "towards", "under",
  "up", "upon", "way", "with", "without"].map String.toList

variable {γ : Type} [DecidableEq γ] [Letter γ]

def isParticle (word : TextOf γ) : Bool := word.text?.any fun s => s.isAmong particles

def isPreposition (word : TextOf γ) : Bool := word.text?.any fun s => s.isAmong prepositions

/-- The words that may follow the verb of a phrase. -/
def isFollower (word : TextOf γ) : Bool := isParticle word || isPreposition word

/-- The verb and the follower of a phrase of exactly two words. -/
def verbAndFollower? (s : TextOf γ) : Option (TextOf γ × TextOf γ) :=
  match s.words with
  | [verb, follower] => if isFollower follower then some (verb, follower) else none
  | _ => none

/-- The stem left when the verb loses its ending, and the follower. -/
def splitVerb? (s ending : TextOf γ) : Option (TextOf γ × TextOf γ) :=
  match verbAndFollower? s with
  | some (verb, follower) => (verb.dropBack? ending).map fun stem => (stem, follower)
  | none => none

/-- Verb and particle of a phrase with an object between them that holds no follower. -/
def dropObject? (s : TextOf γ) : Option (TextOf γ) :=
  match s.words with
  | verb :: object :: rest =>
    match rest.reverse with
    | particle :: more =>
      if isParticle particle && !(object :: more).any isFollower then
        some (verb ++ Letter.ofChar ' ' :: particle)
      else none
    | [] => none
  | _ => none

example : splitVerb? "looked up".toList "ed".toList = some ("look".toList, "up".toList) := by decide
example : dropObject? "look it up".toList = some "look up".toList := by decide

end Lexicon.Phrasal
