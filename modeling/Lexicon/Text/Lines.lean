import Lexicon.Text.Basic

/-! The lines of a text. A line ends at a newline, a carriage return, or both in this order. -/
namespace Lexicon.Text

/-- Every line end as one newline. -/
def unifyBreaks : Text → Text
  | [] => []
  | '\r' :: '\n' :: s => '\n' :: unifyBreaks s
  | c :: s => (if c = '\r' then '\n' else c) :: unifyBreaks s

theorem unifyBreaks_eq_self {s : Text} (h : '\r' ∉ s) : unifyBreaks s = s := by
  fun_induction unifyBreaks s with
  | case1 => rfl
  | case2 s ih => simp at h
  | case3 c s _ ih =>
    simp only [List.mem_cons, not_or] at h
    rw [if_neg (Ne.symm h.1), ih h.2]

/-- The pieces between separators. There is one more of them than there are separators. -/
def split (separator : Char) : Text → List Text
  | [] => [[]]
  | c :: s =>
    if c = separator then [] :: split separator s
    else
      match split separator s with
      | piece :: rest => (c :: piece) :: rest
      | [] => [[c]]

theorem split_ne_nil (separator : Char) (s : Text) : split separator s ≠ [] := by
  fun_cases split separator s <;> simp

theorem split_of_not_mem {separator : Char} {s : Text} (h : separator ∉ s) :
    split separator s = [s] := by
  induction s with
  | nil => rfl
  | cons c s ih =>
    simp only [List.mem_cons, not_or] at h
    simp [split, Ne.symm h.1, ih h.2]

/-- A separator ends the pieces before it. -/
theorem split_append_cons (separator : Char) (s t : Text) :
    split separator (s ++ separator :: t) = split separator s ++ split separator t := by
  induction s with
  | nil => simp [split]
  | cons c s ih =>
    by_cases h : c = separator
    · simp [split, h, ih]
    · obtain ⟨piece, rest, hs⟩ := List.exists_cons_of_ne_nil (split_ne_nil separator s)
      simp [split, h, ih, hs]

/-- The lines, without their ends; what follows the last line end is the last line. -/
def lines (s : Text) : List Text := split '\n' (unifyBreaks s)

example : lines "a\r\nb\r\rc\n".toList = ["a".toList, "b".toList, [], "c".toList, []] := by
  decide +kernel

end Lexicon.Text
