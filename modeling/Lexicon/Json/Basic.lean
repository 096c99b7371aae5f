import Lexicon.Table
import Lexicon.Text.CodePoint
import Lexicon.Number.Binary64

/-! JSON values. Integers are unbounded and distinct from floating-point numbers, texts may hold lone
surrogates, and the members of an object keep their order. -/
namespace Lexicon

inductive Json where
  | null
  | bool (b : Bool)
  | int (n : Int)
  | float (x : Binary64)
  | infinity (negative : Bool)
  | str (s : RawText)
  | array (items : List Json)
  | object (fields : List (RawText × Json))
  deriving Inhabited

/-- The members of an object in order. -/
abbrev Fields := Table RawText Json

namespace Json

def text (s : String) : Json := .str s

/-- Null, false, zero and everything empty count as absent. -/
def isTruthy : Json → Bool
  | null => false
  | bool b => b
  | int n => n != 0
  | float x => !x.isZero
  | infinity _ => true
  | str s => !s.isEmpty
  | array items => !items.isEmpty
  | object fields => !fields.isEmpty

def isNull : Json → Bool
  | null => true
  | _ => false

/-- Null stands for an absent value. -/
def toOption : Json → Option Json
  | null => none
  | v => some v

/-- Values that may stand where a name is looked up: everything but arrays and objects. -/
def isScalar : Json → Bool
  | array _ => false
  | object _ => false
  | _ => true

/-- What is met when a value is gone through: the items of an array, the letters of a text, the
names of an object. Other values cannot be gone through. -/
def items? : Json → Option (List Json)
  | array items => some items
  | str s => some (s.map fun a => str [a])
  | object fields => some (fields.map fun field => str field.1)
  | _ => none

/-- The integer that a value counts as where numbers are compared. -/
def toInt? : Json → Option Int
  | bool b => some (if b then 1 else 0)
  | int n => some n
  | _ => none

mutual

/-- Equality by numerical value and without regard to the order of members: `1`, `1.0` and `true`
are equal. -/
def same : Json → Json → Bool
  | null, null => true
  | str s, str t => s = t
  | array xs, array ys => sameItems xs ys
  | object xs, object ys => xs.length = ys.length && sameFields xs ys
  | float x, float y => x.sameValue y
  | infinity b, infinity b' => b = b'
  | float x, v => match v.toInt? with
    | some n => x.isInt n
    | none => false
  | v, float y => match v.toInt? with
    | some n => y.isInt n
    | none => false
  | v, w => match v.toInt?, w.toInt? with
    | some m, some n => m = n
    | _, _ => false

def sameItems : List Json → List Json → Bool
  | [], [] => true
  | x :: xs, y :: ys => same x y && sameItems xs ys
  | _, _ => false

/-- Every member of the first object is found in the second with an equal value. -/
def sameFields : List (RawText × Json) → List (RawText × Json) → Bool
  | [], _ => true
  | (key, v) :: rest, ys =>
    (match Table.get? ys key with
      | some w => same v w
      | none => false) && sameFields rest ys

end

end Json
end Lexicon
