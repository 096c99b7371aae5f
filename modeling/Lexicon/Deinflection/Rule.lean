import Lexicon.Deinflection.Condition
import Lexicon.Deinflection.Kind

/-! Rules, the steps in which they are applied, and the derivations made of such steps. -/
namespace Lexicon

/-- A compiled rule: where it stands, the condition it asks for and the one it leaves. -/
structure Rule (α : Type) where
  transformId : α
  index : Nat
  conditionsIn : Mask
  conditionsOut : Mask
  kind : Kind α

/-- Rules under one name. -/
structure Transform (α : Type) where
  id : α
  rules : List (Rule α)

/-- One step of a derivation: a rule and the form it was applied to. -/
structure Frame (α : Type) where
  transformId : α
  index : Nat
  text : α
  deriving DecidableEq

/-- A form and the condition it is in. -/
structure Form (α : Type) where
  text : α
  conditions : Mask
  deriving DecidableEq

/-- A form reached from the source, the condition it is in, and the steps to it, newest first. -/
structure Derivation (α : Type) where
  text : α
  conditions : Mask
  trace : List (Frame α)
  deriving DecidableEq

namespace Derivation

variable {α : Type}

/-- The source itself; its condition is not known yet. -/
def source (s : α) : Derivation α := ⟨s, 0, []⟩

/-- What is left when the steps are forgotten. -/
def form (d : Derivation α) : Form α := ⟨d.text, d.conditions⟩

/-- Names of the transforms, in the order in which the inflections were formed. -/
def reasons (d : Derivation α) : List α := d.trace.map (·.transformId)

end Derivation

/-- The condition 0 is no knowledge and meets every demand; another one has to share a bit. -/
def conditionsMatch (current required : Int) : Bool :=
  match current, required with
  | .ofNat 0, _ => true
  | .ofNat m, .ofNat n => m &&& n != 0
  | .ofNat m, .negSucc n => m &&& n != m
  | .negSucc m, .ofNat n => n &&& m != n
  | .negSucc _, .negSucc _ => true

theorem conditionsMatch_natCast (m n : Mask) :
    conditionsMatch m n = (m == 0 || m &&& n != 0) := by
  cases m <;> rfl

namespace Rule

variable {α : Type}

def admits (r : Rule α) (conditions : Mask) : Bool :=
  conditions == 0 || conditions &&& r.conditionsIn != 0

def frame (r : Rule α) (s : α) : Frame α := ⟨r.transformId, r.index, s⟩

theorem admits_iff {r : Rule α} {conditions : Mask} :
    r.admits conditions = true ↔ conditions = 0 ∨ conditions &&& r.conditionsIn ≠ 0 := by
  simp [admits]

end Rule

namespace Frame

/-- Whether two steps apply one rule to one form. -/
def same {α : Type} [WordForm α] (f g : Frame α) : Bool :=
  WordForm.same f.transformId g.transformId && f.index = g.index && WordForm.same f.text g.text

/-- Over texts a step is taken again exactly when it stands in the trace. -/
theorem same_iff {f g : Frame Text} : f.same g = true ↔ f = g := by
  cases f
  cases g
  simp [Frame.same, WordForm.same, and_assoc]

end Frame
end Lexicon
