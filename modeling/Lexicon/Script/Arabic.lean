import Lexicon.Text.Basic

/-! Arabic letters, and the vowel marks that are usually left out in writing. -/
namespace Lexicon.Arabic

/-- Marks that a spelling may carry or omit. -/
def optionalMarks : List Char := [
  '\u0618', '\u0619', '\u061A', '\u064B', '\u064C', '\u064D', '\u064E', '\u064F',
  '\u0650', '\u0651', '\u0652', '\u0653', '\u0654', '\u0655', '\u0656', '\u0670']

def stripMarks (s : Text) : Text := s.filter (· ∉ optionalMarks)

def isLetter (c : Char) : Bool :=
  let n := c.toNat
  (0x0620 ≤ n && n ≤ 0x065F) || (0x066E ≤ n && n ≤ 0x06D3) || n == 0x06D5
    || (0x06EE ≤ n && n ≤ 0x06EF) || (0x06FA ≤ n && n ≤ 0x06FC) || n == 0x06FF

@[simp] theorem stripMarks_nil : stripMarks [] = [] := rfl

theorem stripMarks_idem (s : Text) : stripMarks (stripMarks s) = stripMarks s := by
  simp [stripMarks]

end Lexicon.Arabic
