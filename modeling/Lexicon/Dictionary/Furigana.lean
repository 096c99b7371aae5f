import Lexicon.Text.Basic

/-! Ruby over a headword: the parts it shares with the reading at the front and at the back get
none, and the middle gets the middle of the reading. -/
namespace Lexicon.Furigana

/-- The items of `xs` that agree with the front of `ys`, and what is left of both. -/
def commonFront {α : Type _} (eq : α → α → Bool) : List α → List α → List α × List α × List α
  | x :: xs, y :: ys =>
    if eq x y then
      let (shared, restX, restY) := commonFront eq xs ys
      (x :: shared, restX, restY)
    else ([], x :: xs, y :: ys)
  | xs, ys => ([], xs, ys)

/-- A headword and a reading cut at what they share. -/
structure Cut (α : Type _) where
  front : List α
  middle : List α
  ruby : List α
  back : List α

/-- The longest shared front, then the longest shared back of what remains. -/
def cut {α : Type _} (eq : α → α → Bool) (headword reading : List α) : Cut α :=
  let (front, restX, restY) := commonFront eq headword reading
  let (back, middle, ruby) := commonFront eq restX.reverse restY.reverse
  ⟨front, middle.reverse, ruby.reverse, back.reverse⟩

/-- The parts that are not empty, each with its ruby. -/
def parts {α : Type _} (c : Cut α) : List (List α × List α) :=
  (if c.front.isEmpty then [] else [(c.front, [])])
    ++ (if c.middle.isEmpty then [] else [(c.middle, c.ruby)])
    ++ (if c.back.isEmpty then [] else [(c.back, [])])

/-- The texts of the parts and their ruby. A headword that is its own reading is one part. -/
def ofText {γ : Type} [DecidableEq γ] (headword reading : TextOf γ) :
    List (TextOf γ × TextOf γ) :=
  if reading.isEmpty || headword = reading then [(headword, [])]
  else parts (cut (fun a b => decide (a = b)) headword reading)

example : ofText "食べる".toList "たべる".toList = [("食".toList, "た".toList), ("べる".toList, [])] := by
  decide

end Lexicon.Furigana
