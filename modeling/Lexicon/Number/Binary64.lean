/-! Finite 64-bit binary floating-point numbers. A magnitude is held as its position among the
non-negative ones in ascending order, so equal numbers are equal values; all arithmetic is exact. -/
namespace Lexicon

/-- How many numbers have one exponent: two to the power of 52. -/
def Binary64.perExponent : Nat := 0x10000000000000

/-- A sign and the position of the magnitude. -/
structure Binary64 where
  negative : Bool
  code : Nat
  code_lt : code < 2047 * Binary64.perExponent
  deriving DecidableEq

namespace Binary64

/-- The magnitude at a position, in units of the smallest positive number. -/
def unitsAt (code : Nat) : Nat :=
  if code < perExponent then code
  else (perExponent + code % perExponent) * Nat.pow 2 (code / perExponent - 1)

/-- How many units make one. -/
def unitsPerOne : Nat := Nat.pow 2 1074

def units (x : Binary64) : Nat := unitsAt x.code

/-- The quotient rounded to the nearest natural number, a half to the even neighbour. -/
def roundDiv (num den : Nat) : Nat :=
  let q := num / den
  let r := num % den
  if 2 * r < den then q else if den < 2 * r then q + 1 else q + q % 2

/-- The position nearest to `num / den` units, a tie to the even position. A number of 54 or more
bits is first scaled down to 53. -/
def nearestCode (num den : Nat) : Nat :=
  let scale := (num / den).log2 - 52
  scale * perExponent + roundDiv num (den * Nat.pow 2 scale)

/-- The number nearest to `num / den`, unless it is beyond the largest finite one. -/
def ofRatio? (negative : Bool) (num den : Nat) : Option Binary64 :=
  let code := nearestCode (num * unitsPerOne) den
  if h : code < 2047 * perExponent then some ⟨negative, code, h⟩ else none

/-- The number nearest to `digits * 10 ^ exponent`. Far outside the range the powers are not
formed. -/
def ofDecimal? (negative : Bool) (digits : Nat) (exponent : Int) : Option Binary64 :=
  let places := (Nat.toDigits 10 digits).length + exponent
  if digits = 0 ∨ places < -330 then some ⟨negative, 0, by decide⟩
  else if 310 < places then none
  else if 0 ≤ exponent then ofRatio? negative (digits * Nat.pow 10 exponent.toNat) 1
  else ofRatio? negative digits (Nat.pow 10 (-exponent).toNat)

/-- The integer part. -/
def truncate (x : Binary64) : Int :=
  let whole : Int := (x.units / unitsPerOne : Nat)
  if x.negative then -whole else whole

def isZero (x : Binary64) : Bool := x.code == 0

/-- Equality of numerical values: the two zeros are one number. -/
def sameValue (x y : Binary64) : Bool :=
  x.code == y.code && (x.negative == y.negative || x.isZero)

/-- Whether the number is the given integer. -/
def isInt (x : Binary64) (n : Int) : Bool :=
  let signed : Int := if x.negative then -(x.units : Int) else x.units
  signed == n * unitsPerOne

end Binary64
end Lexicon
