import Lexicon.Text.LetterCase
import Mathlib.Data.List.Basic

/-! Lowercase texts. No lowercase form has a lowercase form of its own, neither by the table nor among the
characters that need more than the table, so a text that was lowercased once stays as it is. -/
namespace Lexicon.Text

namespace CaseRun

/-- The first of the lowercase forms of a run. -/
def lowerFirst (r : CaseRun) : ℕ := (r.first + r.shift).toNat

/-- The last of the lowercase forms of a run. -/
def lowerLast (r : CaseRun) : ℕ := (r.last + r.shift).toNat

/-- No lowercase form of one run is covered by another: all of them lie before or behind it, or between
the code points that a run with gaps covers. -/
def clears (r q : CaseRun) : Bool :=
  r.lowerLast.blt q.first || q.last.blt r.lowerFirst ||
    (q.step == 2 && (r.step == 2 || r.lowerFirst == r.lowerLast) &&
      (r.lowerFirst + q.first) % 2 == 1)

/-- Lowercase forms lie from the first to the last, with the gaps of the run. -/
theorem toNat_add_shift {r : CaseRun} (hpositive : 0 < r.lowerFirst) {n : ℕ} (h : r.Covers n) :
    r.lowerFirst ≤ (n + r.shift).toNat ∧ (n + r.shift).toNat ≤ r.lowerLast ∧
      ((n + r.shift).toNat - r.lowerFirst) % r.step = 0 := by
  obtain ⟨hfirst, hlast, hstep⟩ := h
  unfold lowerFirst lowerLast at *
  have hgap : (n + r.shift).toNat - (r.first + r.shift).toNat = n - r.first := by omega
  rw [hgap]
  omega

theorem not_covers_of_clears {r q : CaseRun} (h : r.clears q = true) (hpositive : 0 < r.lowerFirst)
    {n : ℕ} (hr : r.Covers n) : ¬ q.Covers (n + r.shift).toNat := by
  obtain ⟨hfirst, hlast, hgaps⟩ := toNat_add_shift hpositive hr
  rintro ⟨hfirst', hlast', hq⟩
  simp only [clears, Bool.or_eq_true, Bool.and_eq_true, Nat.blt_eq, beq_iff_eq] at h
  rcases h with (hbefore | hbehind) | ⟨⟨hstep, hstep' | hsingle⟩, hodd⟩
  · omega
  · omega
  · rw [hstep'] at hgaps
    rw [hstep] at hq
    omega
  · rw [hstep] at hq
    omega

end CaseRun

/-- The check of the table: lowercase forms lie where no run is. -/
theorem clears_lowercaseRuns :
    ∀ r ∈ lowercaseRuns, ∀ q ∈ lowercaseRuns, r.clears q = true := by
  have hall : (lowercaseRuns.all fun r => lowercaseRuns.all r.clears) = true := by decide +kernel
  exact fun r hr => List.all_eq_true.1 (List.all_eq_true.1 hall r hr)

/-- Neither a run nor its lowercase forms begin at zero, and the capital dotted i is no lowercase form. -/
theorem bounds_lowercaseRuns : ∀ r ∈ lowercaseRuns, 0 < r.first ∧ 0 < r.lowerFirst ∧
    (r.lowerLast < 0x130 ∨ 0x130 < r.lowerFirst) := by
  decide +kernel

/-- Characters that are their own lowercase form, wherever they stand. -/
def IsLower (c : Char) : Prop := ∀ before after, lowerAt before c after = [c]

theorem lowerChar_of_forall_not_covers {c : Char} (h : ∀ q ∈ lowercaseRuns, ¬ q.Covers c.toNat) :
    lowerChar c = c := by
  have hnone : (lowercaseRuns.find? fun run => run.Covers c.toNat) = none :=
    List.find?_eq_none.2 fun q hq hcovers => h q hq (of_decide_eq_true hcovers)
  rw [lowerChar, hnone]

/-- A character that no run covers stays, the capital dotted i excepted. -/
theorem isLower_of_forall_not_covers {c : Char} (h : ∀ q ∈ lowercaseRuns, ¬ q.Covers c.toNat)
    (hdotted : c ≠ 'İ') : IsLower c := by
  have hsigma : c ≠ 'Σ' := by
    rintro rfl
    exact absurd h (by decide +kernel)
  intro before after
  rw [lowerAt, if_neg hsigma, if_neg hdotted, lowerChar_of_forall_not_covers h]

/-- The code point of a character that is made of a number, which may be no code point. -/
theorem toNat_ofNat (n : ℕ) : (Char.ofNat n).toNat = n ∨ (Char.ofNat n).toNat = 0 := by
  by_cases h : n.isValidChar
  · rw [Char.ofNat, dif_pos h]
    exact .inl rfl
  · rw [Char.ofNat, dif_neg h]
    exact .inr rfl

theorem isLower_lowerChar {c : Char} (hdotted : c ≠ 'İ') : IsLower (lowerChar c) := by
  cases hfind : lowercaseRuns.find? fun run => run.Covers c.toNat with
  | none =>
    have hnone := List.find?_eq_none.1 hfind
    have hplain : ∀ q ∈ lowercaseRuns, ¬ q.Covers c.toNat := fun q hq hcovers =>
      hnone q hq (decide_eq_true hcovers)
    rw [lowerChar_of_forall_not_covers hplain]
    exact isLower_of_forall_not_covers hplain hdotted
  | some r =>
    have hfound := List.find?_some hfind
    have hcovers : r.Covers c.toNat := of_decide_eq_true hfound
    have hr := List.mem_of_find?_eq_some hfind
    obtain ⟨-, hpositive, hother⟩ := bounds_lowercaseRuns r hr
    have hchar : lowerChar c = Char.ofNat (c.toNat + r.shift).toNat := by rw [lowerChar, hfind]
    have hcode := toNat_ofNat (c.toNat + r.shift).toNat
    rw [← hchar] at hcode
    refine isLower_of_forall_not_covers (fun q hq hq' => ?_) fun hdot => ?_
    · rcases hcode with hcode | hcode
      · rw [hcode] at hq'
        exact CaseRun.not_covers_of_clears (clears_lowercaseRuns r hr q hq) hpositive hcovers hq'
      · have hfirst := (bounds_lowercaseRuns q hq).1
        exact absurd hq'.1 (by omega)
    · have hlower := CaseRun.toNat_add_shift hpositive hcovers
      have hdotted' : (lowerChar c).toNat = 0x130 := by rw [hdot]; rfl
      omega

/-- The characters that are written for the two outside the table are not in it. -/
theorem not_covers_written :
    ∀ d ∈ ['ς', 'σ', 'i', '\u0307'], ∀ q ∈ lowercaseRuns, ¬ q.Covers d.toNat := by
  have hall : (['ς', 'σ', 'i', '\u0307'].all fun d =>
      lowercaseRuns.all fun q => !decide (q.Covers d.toNat)) = true := by decide +kernel
  intro d hd q hq
  simpa using List.all_eq_true.1 (List.all_eq_true.1 hall d hd) q hq

/-- What is written for a character is lowercase. -/
theorem isLower_of_mem_lowerAt {before after : Text} {c d : Char} (h : d ∈ lowerAt before c after) :
    IsLower d := by
  have hforms : ∀ d ∈ ['ς', 'σ', 'i', '\u0307'], IsLower d := by
    intro d hd
    refine isLower_of_forall_not_covers (not_covers_written d hd) ?_
    rintro rfl
    exact absurd hd (by decide)
  unfold lowerAt at h
  split at h
  · refine hforms d ?_
    split at h <;> simp_all
  · split at h
    · exact hforms d (by simp_all)
    · next hdotted =>
      rw [List.mem_singleton.1 h]
      exact isLower_lowerChar hdotted

theorem isLower_of_mem_lowerAfter {before s : Text} {d : Char} (h : d ∈ lowerAfter before s) :
    IsLower d := by
  induction s generalizing before with
  | nil => cases h
  | cons c s ih =>
    rcases List.mem_append.1 h with h | h
    · exact isLower_of_mem_lowerAt h
    · exact ih h

theorem lowerAfter_eq_self {before s : Text} (h : ∀ c ∈ s, IsLower c) : lowerAfter before s = s := by
  induction s generalizing before with
  | nil => rfl
  | cons c s ih =>
    obtain ⟨hc, hs⟩ := List.forall_mem_cons.1 h
    rw [lowerAfter, hc, ih hs, List.singleton_append]

/-- Lowercasing twice is lowercasing once. -/
theorem lowercase_idem (s : Text) : s.lowercase.lowercase = s.lowercase :=
  lowerAfter_eq_self fun _ => isLower_of_mem_lowerAfter

end Lexicon.Text
