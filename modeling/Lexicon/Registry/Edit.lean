import Lexicon.Registry.Basic
import Lexicon.Registry.Notice

/-! The changes that can be asked for, with what is reported about them. -/
namespace Lexicon

/-- A change to the registry. -/
inductive RegistryEdit where
  | toggle (id : Int) (enabled : Bool)
  | delete (id : Int)
  | reorder (order : List Int)
  deriving DecidableEq

namespace RegistryEdit

def apply (r : Registry) : RegistryEdit → Registry
  | toggle id enabled => r.toggle id enabled
  | delete id => r.delete id
  | reorder order => r.reorder order

/-- The id that a change is about but no dictionary has. A new order may list such ids. -/
def missingId? (r : Registry) : RegistryEdit → Option Int
  | toggle id _ | delete id => if r.contains id then none else some id
  | reorder _ => none

/-- What is reported when the change is made. -/
def notices (r : Registry) : RegistryEdit → List RegistryNotice
  | toggle id enabled => if r.contains id then [.toggled id enabled] else []
  | delete id => ((r.get? id).map fun info => .deleted info.name id).toList
  | reorder order => (r.unknownIds order).map .unknownId

end RegistryEdit
end Lexicon
