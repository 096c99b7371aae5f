/-! Texts as lists of letters: affixes, first occurrences, order and the encoded size. A cut succeeds
exactly when the text is the affix joined to the result. The letters are characters, except in texts
that were put together badly. -/
namespace Lexicon

/-- A text over some letters. -/
abbrev TextOf (γ : Type) := List γ

abbrev Text := TextOf Char

namespace TextOf

variable {γ : Type} [DecidableEq γ]

/-- What follows `front`, when the text starts with it. -/
def dropFront? : TextOf γ → TextOf γ → Option (TextOf γ)
  | s, [] => some s
  | [], _ :: _ => none
  | c :: s, d :: front => if c = d then dropFront? s front else none

/-- What stands before `back`, when the text ends with it. -/
def dropBack? (s back : TextOf γ) : Option (TextOf γ) :=
  (dropFront? s.reverse back.reverse).map List.reverse

theorem dropFront?_eq_some_iff {s front rest : TextOf γ} :
    dropFront? s front = some rest ↔ s = front ++ rest := by
  induction front generalizing s with
  | nil => cases s <;> simp [dropFront?]
  | cons d front ih =>
    cases s with
    | nil => simp [dropFront?]
    | cons c s => by_cases h : c = d <;> simp [dropFront?, h, ih]

theorem dropBack?_eq_some_iff {s back rest : TextOf γ} :
    dropBack? s back = some rest ↔ s = rest ++ back := by
  simp only [dropBack?, Option.map_eq_some_iff, dropFront?_eq_some_iff]
  constructor
  · rintro ⟨r, h, rfl⟩
    simpa using congrArg List.reverse h
  · rintro rfl
    exact ⟨rest.reverse, by simp, by simp⟩

@[simp] theorem dropFront?_append (front rest : TextOf γ) :
    dropFront? (front ++ rest) front = some rest :=
  dropFront?_eq_some_iff.2 rfl

@[simp] theorem dropBack?_append (rest back : TextOf γ) :
    dropBack? (rest ++ back) back = some rest :=
  dropBack?_eq_some_iff.2 rfl

def startsWith (s front : TextOf γ) : Bool := (dropFront? s front).isSome

def endsWith (s back : TextOf γ) : Bool := (dropBack? s back).isSome

/-- Whether `needle` stands somewhere inside the text; the empty one always does. -/
def contains (s needle : TextOf γ) : Bool :=
  match s with
  | [] => needle.isEmpty
  | c :: rest => startsWith (c :: rest) needle || contains rest needle

/-- Order by the first letter that differs; a text stands before the ones it begins. -/
def le [LT γ] [DecidableLT γ] : TextOf γ → TextOf γ → Bool
  | [], _ => true
  | _ :: _, [] => false
  | c :: s, d :: t => c < d || (c = d && le s t)

def isAmong (s : TextOf γ) (texts : List (TextOf γ)) : Bool := texts.any fun t => t = s

@[simp] theorem isAmong_iff {s : TextOf γ} {texts : List (TextOf γ)} :
    isAmong s texts = true ↔ s ∈ texts := by
  simp [isAmong]

end TextOf

namespace Text

/-- Number of bytes of the UTF-8 form. -/
def byteSize : Text → Nat
  | [] => 0
  | c :: s => c.utf8Size + byteSize s

@[simp] theorem byteSize_nil : byteSize [] = 0 := rfl

@[simp] theorem byteSize_cons (c : Char) (s : Text) :
    byteSize (c :: s) = c.utf8Size + byteSize s := rfl

@[simp] theorem byteSize_append (s t : Text) : byteSize (s ++ t) = byteSize s + byteSize t := by
  induction s with
  | nil => simp
  | cons c s ih => simp [ih, Nat.add_assoc]

def ofNat (n : Nat) : Text := Nat.toDigits 10 n

/-- Decimal digits, after a minus sign for negative numbers. -/
def ofInt : Int → Text
  | .ofNat n => ofNat n
  | .negSucc n => '-' :: ofNat (n + 1)

/-- Pieces joined with `separator` between neighbours. -/
def join (separator : Text) (pieces : List Text) : Text := separator.intercalate pieces

/-- Pads with spaces on the right up to `width` characters. -/
def padRight (width : Nat) (s : Text) : Text := s ++ List.replicate (width - s.length) ' '

/-- Whether a code point lies in one of some closed ranges, listed in ascending order. -/
def inRanges : List (Nat × Nat) → Nat → Bool
  | [], _ => false
  | (first, last) :: rest, n => if n < first then false else n ≤ last || inRanges rest n

end Text

/-- The members of a list, each at the place of its first occurrence. -/
def distinct {α : Type _} [DecidableEq α] : List α → List α
  | [] => []
  | a :: rest => a :: (distinct rest).filter (· ≠ a)

@[simp] theorem mem_distinct {α : Type _} [DecidableEq α] {a : α} {l : List α} :
    a ∈ distinct l ↔ a ∈ l := by
  induction l with
  | nil => simp [distinct]
  | cons b l ih => by_cases h : a = b <;> simp [distinct, ih, h]

theorem nodup_distinct {α : Type _} [DecidableEq α] (l : List α) : (distinct l).Nodup := by
  induction l with
  | nil => simp [distinct]
  | cons a l ih => exact List.nodup_cons.2 ⟨by simp, ih.sublist List.filter_sublist⟩

example : distinct [2, 1, 2, 3, 1] = [2, 1, 3] := by decide

/-- The members of a list without those that count as one with an earlier member. -/
def distinctBy {α : Type _} (same : α → α → Bool) : List α → List α
  | [] => []
  | a :: rest => a :: (distinctBy same rest).filter (!same a ·)

end Lexicon
