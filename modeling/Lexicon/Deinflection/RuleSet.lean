import Lexicon.Deinflection.Arena

/-! Rule sets and the forms a word may have been inflected from. Derivations are found breadth
first; none applies one rule twice to the same form. -/
namespace Lexicon

/-- A compiled rule set. -/
structure RuleSet (α : Type) where
  transforms : List (Transform α)
  flags : FlagTable

/-- Why there is no list of derivations: a rule met a form it cannot be put to, or new forms are found
for ever. -/
inductive Halt where
  | fault (fault : FormFault)
  | unsettled
  deriving DecidableEq

namespace RuleSet

variable {α : Type}

def empty : RuleSet α := ⟨[], []⟩

def rules (rs : RuleSet α) : List (Rule α) := rs.transforms.flatMap (·.rules)

variable [WordForm α]

/-- All derivations from a form, the source itself first. -/
def derivations (rs : RuleSet α) (s : α) : Except Halt (List (Derivation α)) :=
  match Arena.scan rs.rules (.source s) 0 with
  | none => .error .unsettled
  | some (.error fault) => .error (.fault fault)
  | some (.ok found) => .ok found.derivations

/-- The forms that derivations lead to, one for each derivation. -/
def forms (rs : RuleSet α) (s : α) : Except Halt (List (Form α)) :=
  (rs.derivations s).map fun ds => ds.map (·.form)

/-- The texts a text may have been inflected from, each once. -/
def deinflections (rs : RuleSet Text) (s : Text) : Except Halt (List Text) :=
  (rs.forms s).map fun fs => distinct (fs.map (·.text))

end RuleSet
end Lexicon
