import Lexicon.Text.Basic
import Lexicon.Number.Binary64

/-! Decimal text of a floating-point number: the fewest digits that read back as the number, and of
those the nearest to it. -/
namespace Lexicon.Binary64

/-- `digits * 10 ^ exponent`. -/
structure Decimal where
  digits : Nat
  exponent : Int

/-- How many digits stand before the point of `num / den`; zero or less for a number below one. -/
def pointOf (num den : Nat) : Int :=
  if den ≤ num then (Nat.toDigits 10 (num / den)).length
  else
    let reach := (Nat.toDigits 10 (den / num)).length
    if den ≤ num * Nat.pow 10 (reach - 1) then 1 - (reach - 1 : Nat) else 1 - (reach : Int)

/-- Whether a decimal reads back as the magnitude at `code`. -/
def Decimal.readsAs (d : Decimal) (code : Nat) : Bool :=
  match ofDecimal? false d.digits d.exponent with
  | some y => y.code == code
  | none => false

/-- The neighbours of `num / den` among the multiples of `10 ^ exponent`, the nearer one first; of
two equally near ones the even one. -/
def gridNeighbours (num den : Nat) (exponent : Int) : List Decimal :=
  let num' := if exponent < 0 then num * Nat.pow 10 (-exponent).toNat else num
  let den' := if exponent < 0 then den else den * Nat.pow 10 exponent.toNat
  let below := num' / den'
  if 2 * (num' % den') < den' + (below + 1) % 2 then [⟨below, exponent⟩, ⟨below + 1, exponent⟩]
  else [⟨below + 1, exponent⟩, ⟨below, exponent⟩]

/-- Tries the grids of `count` digits, `count + 1` digits and so on, `tries` of them. -/
def searchGrids (num den code : Nat) (point : Int) : Nat → Nat → Option Decimal
  | 0, _ => none
  | tries + 1, count =>
    match (gridNeighbours num den (point - count)).find? fun d => d.readsAs code with
    | some d => some d
    | none => searchGrids num den code point tries (count + 1)

/-- Every digit of the number; used where no grid of seventeen digits reads back. -/
def exactDecimal (code : Nat) : Decimal := ⟨unitsAt code * Nat.pow 5 1074, -1074⟩

def shortestOf (code : Nat) : Decimal :=
  let num := unitsAt code
  (searchGrids num unitsPerOne code (pointOf num unitsPerOne) 17 1).getD (exactDecimal code)

/-- Significant digits without trailing zeros, and how many of them stand before the point. -/
def Decimal.significant (d : Decimal) : Text × Int :=
  let digits := Text.ofNat d.digits
  ((digits.reverse.dropWhile (· = '0')).reverse, digits.length + d.exponent)

/-- An exponent has a sign and at least two digits. -/
def exponentText (e : Int) : Text :=
  let digits := Text.ofNat e.natAbs
  'e' :: (if e < 0 then '-' else '+') :: List.replicate (2 - digits.length) '0' ++ digits

/-- Positional from `0.0001` up to sixteen digits before the point, always with a fractional part;
otherwise one digit before the point and an exponent. -/
def layout (digits : Text) (point : Int) : Text :=
  if point < -3 ∨ 16 < point then
    digits.take 1 ++ (if digits.length ≤ 1 then [] else '.' :: digits.drop 1)
      ++ exponentText (point - 1)
  else if point ≤ 0 then '0' :: '.' :: List.replicate (-point).toNat '0' ++ digits
  else if digits.length ≤ point.toNat then
    digits ++ List.replicate (point.toNat - digits.length) '0' ++ ['.', '0']
  else digits.take point.toNat ++ '.' :: digits.drop point.toNat

/-- The decimal text of a number. -/
def toText (x : Binary64) : Text :=
  let magnitude :=
    if x.isZero then ['0', '.', '0']
    else
      let (digits, point) := (shortestOf x.code).significant
      layout digits point
  if x.negative then '-' :: magnitude else magnitude

end Lexicon.Binary64
