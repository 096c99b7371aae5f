import Lexicon.Ini.Basic

/-! References in values. `%(name)s` stands for the value of another entry, `%%` for a percent sign,
and any other percent sign is malformed. -/
namespace Lexicon.Ini

inductive ReferenceError where
  | malformed
  | missing
  | tooDeep
  deriving DecidableEq

/-- The name of a reference after its opening `%(`, and what follows the reference. -/
def reference? (s : Text) : Option (Text × Text) :=
  match s.takeWhile (· ≠ ')'), s.dropWhile (· ≠ ')') with
  | c :: name, ')' :: 's' :: rest => some (c :: name, rest)
  | _, _ => none

theorem length_of_reference? {s name rest : Text} (h : reference? s = some (name, rest)) :
    rest.length < s.length := by
  have hs : s.takeWhile (· ≠ ')') ++ s.dropWhile (· ≠ ')') = s := List.takeWhile_append_dropWhile
  unfold reference? at h
  split at h
  · rename_i hd
    simp only [Option.some.injEq, Prod.mk.injEq] at h
    rw [← hs, hd, ← h.2]
    simp
    omega
  · simp at h

/-- A part of a value. -/
inductive Piece where
  | char (c : Char)
  | reference (name : Text)
  | stray
  deriving DecidableEq

/-- The parts of a value up to its first malformed percent sign. -/
def pieces : Text → List Piece
  | [] => []
  | '%' :: '%' :: s => .char '%' :: pieces s
  | '%' :: '(' :: s =>
    match _h : reference? s with
    | some (name, rest) => .reference name :: pieces rest
    | none => [.stray]
  | c :: s => if c = '%' then [.stray] else .char c :: pieces s
termination_by s => s.length
decreasing_by
  · simp only [List.length_cons]
    omega
  · have := length_of_reference? (by assumption)
    simp only [List.length_cons]
    omega
  · simp

/-- A value without percent signs consists of its characters. -/
theorem pieces_eq_map {s : Text} (h : '%' ∉ s) : pieces s = s.map .char := by
  induction s with
  | nil => simp [pieces]
  | cons c s ih =>
    simp only [List.mem_cons, not_or] at h
    have hc : c ≠ '%' := Ne.symm h.1
    rw [pieces]
    · simp [hc, ih h.2]
    · rintro _ rfl; exact absurd rfl hc
    · rintro _ rfl; exact absurd rfl hc

/-- A value with its references followed, at most `levels` deep. Names are looked up in lower
case. -/
def expand (lookup : Text → Option Text) : Nat → Text → Except ReferenceError Text
  | 0, _ => .error .tooDeep
  | levels + 1, s => do
    let parts ← (pieces s).mapM fun
      | .char c => pure [c]
      | .stray => throw .malformed
      | .reference name =>
        match lookup (Text.lowercase name) with
        | none => throw .missing
        | some value => if '%' ∈ value then expand lookup levels value else pure value
    return parts.flatten

/-- How deep references are followed. -/
def maxLevels : Nat := 10

/-- The value of an entry with its references followed. -/
def expanded (doc : Ini) (part name : Text) : Except ReferenceError Text :=
  match doc.get? part name with
  | some value => expand (doc.get? part) maxLevels value
  | none => .error .missing

/-- The text without its doubled percent signs. -/
def dropDoubled : Text → Text
  | [] => []
  | '%' :: '%' :: s => dropDoubled s
  | c :: s => c :: dropDoubled s

/-- A value may be written when its percent signs, the doubled ones taken away first, all belong to
references. -/
def isWritable (value : Text) : Bool := !(pieces (dropDoubled value)).contains .stray

example : isWritable "50%%".toList ∧ isWritable "%(x)s".toList ∧ ¬ isWritable "%".toList := by
  decide +kernel

end Lexicon.Ini
