import Lexicon.Text.Basic

/-! Code points. Besides the characters these are the surrogates, halves of characters that have no form
in UTF-8. A text of code points has bytes when it is one of characters. -/
namespace Lexicon

/-- What a text can consist of. Every character is such a letter. -/
class Letter (γ : Type) where
  ofChar : Char → γ
  /-- The character that a letter is, if it is one. -/
  char? : γ → Option Char
  char?_eq_some_iff : ∀ {a : γ} {c : Char}, char? a = some c ↔ a = ofChar c

instance : Letter Char where
  ofChar := id
  char? := some
  char?_eq_some_iff := Option.some_inj

@[simp] theorem Letter.ofChar_char (c : Char) : Letter.ofChar c = c := rfl

@[simp] theorem Letter.char?_char (c : Char) : Letter.char? c = some c := rfl

/-- A character, or the surrogate at a place among the surrogates. -/
inductive CodePoint where
  | char (c : Char)
  | surrogate (n : Fin 0x800)
  deriving DecidableEq

abbrev RawText := TextOf CodePoint

namespace CodePoint

instance : Coe Char CodePoint := ⟨char⟩

def firstSurrogate : Nat := 0xD800

def toNat : CodePoint → Nat
  | char c => c.toNat
  | surrogate n => firstSurrogate + n

/-- The code point of a number of 16 bits. -/
def ofUnit (n : Nat) : CodePoint :=
  if h : firstSurrogate ≤ n ∧ n < firstSurrogate + 0x800 then
    surrogate ⟨n - firstSurrogate, by omega⟩
  else char (Char.ofNat n)

/-- The first half of the surrogates begins a character, the second half ends one. -/
def joined? : CodePoint → CodePoint → Option Char
  | surrogate high, surrogate low =>
    if high < 0x400 ∧ 0x400 ≤ low then some (Char.ofNat (0x10000 + high * 0x400 + (low - 0x400)))
    else none
  | _, _ => none

instance : LT CodePoint := ⟨fun a b => a.toNat < b.toNat⟩

instance : DecidableLT CodePoint := fun a b => inferInstanceAs (Decidable (a.toNat < b.toNat))

instance : Letter CodePoint where
  ofChar := char
  char?
    | char c => some c
    | surrogate _ => none
  char?_eq_some_iff {a c} := by cases a <;> simp

@[simp] theorem char?_char (c : Char) : Letter.char? (char c) = some c := rfl

@[simp] theorem char?_surrogate (n : Fin 0x800) : Letter.char? (surrogate n) = none := rfl

end CodePoint

/-- The characters of a text, unless a letter is none. -/
def TextOf.text? {γ : Type} [Letter γ] : TextOf γ → Option Text
  | [] => some []
  | a :: s => do return (← Letter.char? a) :: (← TextOf.text? s)

/-- The characters as code points. -/
def Text.raw (s : Text) : RawText := s.map .char

instance : Coe String RawText := ⟨fun s => Text.raw s.toList⟩

namespace Text

@[simp] theorem raw_nil : raw [] = [] := rfl

@[simp] theorem raw_cons (c : Char) (s : Text) : raw (c :: s) = .char c :: raw s := rfl

@[simp] theorem raw_append (s t : Text) : raw (s ++ t) = raw s ++ raw t := List.map_append

@[simp] theorem length_raw (s : Text) : (raw s).length = s.length := List.length_map _

@[simp] theorem raw_inj {s t : Text} : raw s = raw t ↔ s = t :=
  List.map_inj_right fun _ _ => CodePoint.char.inj

@[simp] theorem text?_raw (s : Text) : (raw s).text? = some s := by
  induction s with
  | nil => rfl
  | cons c s ih => simp [TextOf.text?, ih]

end Text

namespace RawText

theorem text?_eq_some_iff {s : RawText} {t : Text} : s.text? = some t ↔ s = t.raw := by
  refine ⟨fun h => ?_, fun h => h ▸ Text.text?_raw t⟩
  induction s generalizing t with
  | nil =>
    obtain rfl : [] = t := Option.some.inj h
    rfl
  | cons a s ih =>
    obtain ⟨c, hc, h⟩ := Option.bind_eq_some_iff.1 h
    obtain ⟨u, hu, h⟩ := Option.bind_eq_some_iff.1 h
    obtain rfl : c :: u = t := Option.some.inj h
    rw [Text.raw_cons, ← ih hu, Letter.char?_eq_some_iff.1 hc]
    rfl

/-- The characters before the first surrogate. -/
def front : RawText → Text
  | .char c :: s => c :: front s
  | _ => []

/-- The first surrogate with everything after it. -/
def afterFront : RawText → RawText
  | .char _ :: s => afterFront s
  | s => s

/-- A text with something for the runs of characters between its surrogates, given the characters of the
first run that stand before it. -/
def mapRunsFrom (f : Text → Text) (run : Text) : RawText → RawText
  | [] => (f run).raw
  | .char c :: s => mapRunsFrom f (run ++ [c]) s
  | a :: s => (f run).raw ++ a :: mapRunsFrom f [] s

/-- A text with something for every run of characters between its surrogates. -/
def mapRuns (f : Text → Text) (s : RawText) : RawText := mapRunsFrom f [] s

/-- The text with a mark in place of every surrogate. -/
def marked (s : RawText) : Text := s.map fun
  | .char c => c
  | .surrogate _ => '\uFFFD'

@[simp] theorem marked_raw (s : Text) : marked s.raw = s := by
  simp [marked, Text.raw, Function.comp_def]

end RawText
end Lexicon
