import Lexicon.Json.Reader
import Lexicon.Deinflection.Descriptor
import Lexicon.Deinflection.ValueForm

/-! Rule sets written as JSON documents. Conditions are settled first; then transforms and rules are
taken in document order, and the first defect met is the one reported. -/
namespace Lexicon

namespace Document

/-- A value that may be left out; everything that counts as absent is the empty text. -/
def optionalText (fields : Fields) (key : String) : Json :=
  match fields.get? key with
  | some v => if v.isTruthy then v else .str []
  | none => .str []

/-- A guard: nothing, or something of length one. -/
def guardValue (fields : Fields) (key : String) : Except RuleError (Option Json) :=
  match (fields.get? key).filter Json.isTruthy with
  | none => .ok none
  | some v =>
    match v.items? with
    | none => .error .wrongType
    | some items => if items.length = 1 then .ok (some v) else .error (.guard key.toList v)

/-- A rule that replaces one form by another. -/
def readChange (change : Json → Json → Kind Json) (type : Text) (fields : Fields) :
    Except RuleError (Kind Json) :=
  match (fields.get? "inflected").bind Json.toOption with
  | some inflected => .ok (change inflected (optionalText fields "deinflected"))
  | none => .error (.missing "inflected".toList type)

def readAffix (fields : Fields) : Except RuleError (Kind Json) := do
  let initial ← guardValue fields "initialDisallow"
  let final ← guardValue fields "finalDisallow"
  return .affix ⟨optionalText fields "inflectedPrefix", optionalText fields "deinflectedPrefix",
    optionalText fields "inflectedSuffix", optionalText fields "deinflectedSuffix", initial, final,
    (fields.get? "requireArabicLetters").any Json.isTruthy⟩

/-- The kinds of rules by the name of their type. -/
def kindReaders : List (Text × (Fields → Except RuleError (Kind Json))) := [
  ("suffix".toList, readChange .suffix "suffix".toList),
  ("prefix".toList, readChange .opening "prefix".toList),
  ("wholeWord".toList, readChange .wholeWord "wholeWord".toList),
  ("affix".toList, readAffix),
  ("phrasalSuffix".toList, readChange .phrasalSuffix "phrasalSuffix".toList),
  ("phrasalInterposedObject".toList, fun _ => .ok .interposedObject)]

/-- How rules of a type are read, when there is such a type. -/
def kindReader? : Json → Option (Fields → Except RuleError (Kind Json))
  | .str type => type.text?.bind (Table.get? kindReaders)
  | _ => none

/-- The type of a rule; one that is left out counts as null. -/
def typeOf (fields : Fields) : Json := (fields.get? "type").getD .null

/-- One rule on its own; `none` when there is no such type. -/
def readKind? (fields : Fields) : Option (Except RuleError (Kind Json)) :=
  (kindReader? (typeOf fields)).map (· fields)

/-- Condition names, listed in any value that can be gone through. -/
def conditionNames (fields : Fields) (key : String) : Except CompileError (List Json) :=
  match fields.get? key with
  | none => .ok []
  | some v => match v.items? with
    | some names => .ok names
    | none => .error .wrongType

/-- A rule of a document. The names of a side are looked up before the next side is read. -/
def compileRule (flags : FlagTable) (transform : Json) (index : Nat) :
    Json → Except CompileError (Rule Json)
  | .object fields => do
    let type := typeOf fields
    if !type.isScalar then throw .wrongType
    match kindReader? type with
    | none => throw (.unsupportedType type transform.display index)
    | some read =>
      match read fields with
      | .error .wrongType => throw .wrongType
      | .error e => throw (.rule transform.display index e)
      | .ok kind =>
        let namesIn ← conditionNames fields "conditionsIn"
        let conditionsIn ← flags.mask "conditionsIn".toList transform.display index namesIn
        let namesOut ← conditionNames fields "conditionsOut"
        let conditionsOut ← flags.mask "conditionsOut".toList transform.display index namesOut
        return ⟨transform, index, conditionsIn, conditionsOut, kind⟩
  | _ => .error (.ruleNotObject transform.display index)

def compileRules (flags : FlagTable) (transform : Json) (index : Nat) :
    List Json → Except CompileError (List (Rule Json))
  | [] => .ok []
  | v :: rest => do
    let rule ← compileRule flags transform index v
    return rule :: (← compileRules flags transform (index + 1) rest)

/-- The items under a name that may be left out. -/
def itemsOf (fields : Fields) (key : String) : Except CompileError (List Json) :=
  match fields.get? key with
  | none => .ok []
  | some v => match v.items? with
    | some items => .ok items
    | none => .error .wrongType

/-- A transform of a document. Any value that does not count as absent names it. -/
def compileTransform (flags : FlagTable) (position : Nat) :
    Json → Except CompileError (Transform Json)
  | .object fields => do
    match (Table.get? fields "id").filter Json.isTruthy with
    | none => throw (.transformWithoutId position)
    | some id => return ⟨id, ← compileRules flags id 0 (← itemsOf fields "rules")⟩
  | _ => .error (.transformNotObject position)

def compileTransforms (flags : FlagTable) (position : Nat) :
    List Json → Except CompileError (List (Transform Json))
  | [] => .ok []
  | v :: rest => do
    let transform ← compileTransform flags position v
    return transform :: (← compileTransforms flags (position + 1) rest)

/-- The list that a condition's definition gives; nothing for a leaf. -/
def subConditions : Json → Except CompileError Json
  | .object fields => .ok ((Table.get? fields "subConditions").getD .null)
  | v => if v.isTruthy then .error .notObject else .ok .null

/-- Names of a composite, each of them in the table; other values go unchecked when they count as
absent. -/
def checkedNames (known : List RawText) (name : RawText) (v : Json) :
    Except CompileError (List RawText) :=
  if v.isTruthy then
    match v.items? with
    | none => .error .wrongType
    | some items => items.mapM fun
      | .str sub =>
        if TextOf.isAmong sub known then .ok sub else .error (.condition (.unknown name sub))
      | sub => if sub.isScalar then .error (.unnamedCondition name sub) else .error .wrongType
  else .ok []

/-- A composite must list its parts in something that can be gone through; that is found out when
its turn comes, after the leaves before it. -/
def checkComposites (leaves : Nat) : List Json → Except CompileError Unit
  | [] => .ok ()
  | .null :: rest =>
    if ConditionTable.maxLeaves ≤ leaves then .error (.condition .limit)
    else checkComposites (leaves + 1) rest
  | v :: rest => if v.items?.isSome then checkComposites leaves rest else .error .wrongType

/-- The condition table of a document. -/
def conditionTable : Json → Except CompileError ConditionTable
  | .object fields => do
    let subs ← fields.mapM fun field => subConditions field.2
    let known := fields.map (·.1)
    let names ← (known.zip subs).mapM fun (name, v) => checkedNames known name v
    checkComposites 0 subs
    return known.zip ((subs.zip names).map fun (v, names) => if v.isNull then none else some names)
  | _ => .error .notObject

/-- The rule set that a document describes. -/
def compile : Json → Except CompileError (RuleSet Json)
  | .object fields => do
    let table ← conditionTable ((Table.get? fields "conditions").getD (.object []))
    let flags ← table.flags.mapError .condition
    let transforms ← compileTransforms flags 0 (← itemsOf fields "transforms")
    return ⟨transforms, flags⟩
  | _ => .error .notObject

end Document

/-- Why a text is no rule set. -/
inductive DocumentError where
  | notJson (error : Json.ReadError)
  | compile (error : CompileError)

namespace RuleSet

/-- The rule set written in a text. -/
def ofText (s : RawText) : Except DocumentError (RuleSet Json) := do
  (Document.compile (← (Json.read s).mapError .notJson)).mapError .compile

/-- Why there is no list of forms: no derivations, or a form that cannot be looked up. -/
inductive ListingError where
  | halted (halt : Halt)
  | notScalar
  deriving DecidableEq

/-- The forms a value may have been inflected from, each once. Of values that count as one, the
first is kept. -/
def formsOf (rs : RuleSet Json) (v : Json) : Except ListingError (List Json) := do
  let forms := ((← (rs.forms v).mapError .halted).map (·.text))
  if forms.all Json.isScalar then return distinctBy Json.same forms else throw .notScalar

end RuleSet
end Lexicon
