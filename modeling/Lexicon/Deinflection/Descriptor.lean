import Lexicon.Deinflection.RuleSet
import Lexicon.Json.Display

/-! Rule sets before their conditions are turned into bits, and the defects that keep one from being
compiled. -/
namespace Lexicon

/-- A rule with its conditions by name. Names read from a document may be any value. -/
structure RuleSpec where
  kind : Kind Text
  conditionsIn : List Json
  conditionsOut : List Json

structure TransformSpec where
  id : Text
  rules : List RuleSpec

structure Descriptor where
  conditions : ConditionTable
  transforms : List TransformSpec

/-- Defects in the fields of one rule. -/
inductive RuleError where
  | missing (key type : Text)
  | guard (key : Text) (value : Json)
  | wrongType

namespace RuleError

/-- The word for the kind of defect. -/
def label : RuleError → Text
  | missing _ _ => "RuleDefinitionError".toList
  | guard _ _ => "RuleDefinitionError".toList
  | wrongType => "TypeError".toList

def message : RuleError → Text
  | missing key type => "Missing ".toList ++ key ++ " for ".toList ++ type ++ " rule".toList
  | guard key value =>
    "Expected single character for ".toList ++ key ++ ", got ".toList ++ value.shown
  | wrongType => []

end RuleError

/-- Defects of a whole document, each with the place where it stands. -/
inductive CompileError where
  | notObject
  | wrongType
  | condition (error : ConditionError)
  | unnamedCondition (name : RawText) (sub : Json)
  | transformNotObject (position : Nat)
  | transformWithoutId (position : Nat)
  | ruleNotObject (transform : RawText) (index : Nat)
  | unsupportedType (type : Json) (transform : RawText) (index : Nat)
  | rule (transform : RawText) (index : Nat) (error : RuleError)
  | unknownConditions (key : Text) (transform : RawText) (index : Nat) (names : List Json)

namespace CompileError

/-- The word for the kind of defect. -/
def label : CompileError → Text
  | notObject => "AttributeError".toList
  | wrongType => "TypeError".toList
  | condition error => error.label
  | unnamedCondition _ _ => "UnknownConditionError".toList
  | transformNotObject _ => "RuleDefinitionError".toList
  | transformWithoutId _ => "RuleDefinitionError".toList
  | ruleNotObject _ _ => "RuleDefinitionError".toList
  | unsupportedType _ _ _ => "RuleDefinitionError".toList
  | rule _ _ error => error.label
  | unknownConditions _ _ _ _ => "UnknownConditionError".toList

def rulePlace (transform : RawText) (index : Nat) : RawText :=
  Text.raw "ransform ".toList ++ transform ++ Text.raw (" rule ".toList ++ Text.ofNat index)

def message : CompileError → RawText
  | notObject => []
  | wrongType => []
  | condition error => error.message
  | unnamedCondition name sub => Text.raw
      ("Condition ".toList ++ name.quoted ++ " refers to unknown condition ".toList ++ sub.shown)
  | transformNotObject position =>
    Text.raw ("Transform at position ".toList ++ Text.ofNat position ++ " is not an object".toList)
  | transformWithoutId position =>
    Text.raw ("Transform at position ".toList ++ Text.ofNat position ++ " has no id".toList)
  | ruleNotObject transform index =>
    .char 'T' :: rulePlace transform index ++ Text.raw " is not an object".toList
  | unsupportedType type transform index =>
    Text.raw ("Unsupported rule type ".toList ++ type.shown ++ " in t".toList)
      ++ rulePlace transform index
  | rule transform index error =>
    .char 'T' :: rulePlace transform index ++ Text.raw (": ".toList ++ error.message)
  | unknownConditions key transform index names =>
    Text.raw ("Invalid ".toList ++ key ++ " for t".toList) ++ rulePlace transform index
      ++ Text.raw (": unknown ".toList ++ (Json.array names).shown)

end CompileError

namespace FlagTable

/-- The union of the flags of names given as values, `none` at the first value without a flag. -/
def unionOfValues? (flags : FlagTable) : List Json → Except CompileError (Option Mask)
  | [] => .ok (some 0)
  | .str name :: rest =>
    match flags.get? name with
    | some mask => do return (← flags.unionOfValues? rest).map (mask ||| ·)
    | none => .ok none
  | v :: _ => if v.isScalar then .ok none else .error .wrongType

def knows (flags : FlagTable) : Json → Bool
  | .str name => (flags.get? name).isSome
  | _ => false

/-- The mask of a list of condition names; the unknown ones among them are reported together. -/
def mask (flags : FlagTable) (key : Text) (transform : RawText) (index : Nat)
    (names : List Json) : Except CompileError Mask := do
  match ← flags.unionOfValues? names with
  | some mask => return mask
  | none =>
    if names.all Json.isScalar then
      throw (.unknownConditions key transform index (names.filter fun name => !flags.knows name))
    else throw .wrongType

end FlagTable

namespace RuleSpec

def compile (flags : FlagTable) (transform : Text) (index : Nat) (spec : RuleSpec) :
    Except CompileError (Rule Text) := do
  let conditionsIn ← flags.mask "conditionsIn".toList transform.raw index spec.conditionsIn
  let conditionsOut ← flags.mask "conditionsOut".toList transform.raw index spec.conditionsOut
  return ⟨transform, index, conditionsIn, conditionsOut, spec.kind⟩

/-- Rules numbered from `index` on. -/
def compileAll (flags : FlagTable) (transform : Text) (index : Nat) :
    List RuleSpec → Except CompileError (List (Rule Text))
  | [] => .ok []
  | spec :: rest => do
    let rule ← spec.compile flags transform index
    return rule :: (← compileAll flags transform (index + 1) rest)

end RuleSpec

namespace Descriptor

/-- The rule set of a descriptor: every condition a mask, every rule with its position. -/
def compile (d : Descriptor) : Except CompileError (RuleSet Text) := do
  let flags ← d.conditions.flags.mapError .condition
  let transforms ← d.transforms.mapM fun t => do
    return Transform.mk t.id (← RuleSpec.compileAll flags t.id 0 t.rules)
  return ⟨transforms, flags⟩

end Descriptor
end Lexicon
