import Lexicon.Registry.Edit

/-! Histories of registries: dictionaries are added, changed and cleared away, one step after the other. -/
namespace Lexicon

/-- A step of a history. A dictionary is added without an id or a priority of its own. -/
inductive RegistryStep where
  | add (name : Text) (enabled : Bool)
  | edit (change : RegistryEdit)
  | clear
  deriving DecidableEq

namespace Registry

/-- A dictionary to be added without an id or a priority of its own. -/
def newcomer (r : Registry) (name : Text) (enabled : Bool) : DictionaryInfo :=
  r.newInfo name none enabled none

def add (r : Registry) (name : Text) (enabled : Bool) : Registry := r.put (r.newcomer name enabled)

end Registry

namespace RegistryStep

def apply (r : Registry) : RegistryStep → Registry
  | add name enabled => r.add name enabled
  | edit change => change.apply r
  | clear => .empty

end RegistryStep

/-- The registry that a history leads to. -/
def Registry.after (steps : List RegistryStep) : Registry := steps.foldl RegistryStep.apply .empty

end Lexicon
