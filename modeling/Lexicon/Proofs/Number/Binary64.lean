import Lexicon.Number.Shortest
import Lexicon.Proofs.Text.Digits

/-! The decimal that stands for a number reads back as the number: the grid search keeps only such
decimals, and the digits of all units are exact. -/
namespace Lexicon.Binary64

section Rounding

variable {c num den : ℕ}

theorem roundDiv_mul_left (hc : 0 < c) (num den : ℕ) :
    roundDiv (c * num) (c * den) = roundDiv num den := by
  have hlt (a b : ℕ) : 2 * (c * a) < c * b ↔ 2 * a < b := by
    rw [Nat.mul_left_comm, Nat.mul_lt_mul_left hc]
  have hgt (a b : ℕ) : c * b < 2 * (c * a) ↔ b < 2 * a := by
    rw [Nat.mul_left_comm, Nat.mul_lt_mul_left hc]
  simp only [roundDiv, Nat.mul_div_mul_left _ _ hc, Nat.mul_mod_mul_left, hlt, hgt]

theorem roundDiv_mul_self (q : ℕ) (hden : 0 < den) : roundDiv (q * den) den = q := by
  simp [roundDiv, Nat.mul_div_cancel _ hden, hden]

theorem nearestCode_mul_left (hc : 0 < c) (num den : ℕ) :
    nearestCode (c * num) (c * den) = nearestCode num den := by
  simp only [nearestCode, Nat.mul_div_mul_left _ _ hc, Nat.mul_assoc, roundDiv_mul_left hc]

theorem ofRatio?_mul_left (hc : 0 < c) (negative : Bool) (num den : ℕ) :
    ofRatio? negative (c * num) (c * den) = ofRatio? negative num den := by
  simp only [ofRatio?, Nat.mul_assoc, nearestCode_mul_left hc]

theorem perExponent_eq : perExponent = 2 ^ 52 := rfl

theorem log2_of_lt_perExponent {code : ℕ} (h : code < perExponent) : code.log2 - 52 = 0 := by
  by_cases hzero : code = 0
  · subst hzero
    decide
  · have hlog := (Nat.log2_lt hzero).2 (perExponent_eq ▸ h)
    omega

theorem log2_mul_two_pow {r : ℕ} (hr : r < perExponent) (k : ℕ) :
    ((perExponent + r) * 2 ^ k).log2 = 52 + k := by
  have hpow : 0 < 2 ^ k := Nat.two_pow_pos k
  have hne : (perExponent + r) * 2 ^ k ≠ 0 :=
    Nat.mul_ne_zero (by rw [perExponent_eq]; omega) hpow.ne'
  refine (Nat.log2_eq_iff hne).2 ⟨?_, ?_⟩
  · rw [Nat.pow_add, ← perExponent_eq]
    exact Nat.mul_le_mul_right _ (Nat.le_add_right ..)
  · have hlt : perExponent + r < 2 * perExponent := by omega
    calc (perExponent + r) * 2 ^ k
        < 2 * perExponent * 2 ^ k := (Nat.mul_lt_mul_right hpow).2 hlt
      _ = 2 ^ (52 + k + 1) := by rw [perExponent_eq, ← Nat.pow_succ', ← Nat.pow_add]; congr 1; omega

/-- The units at a position are nearest to that position. -/
theorem nearestCode_unitsAt (code : ℕ) : nearestCode (unitsAt code) 1 = code := by
  by_cases hcode : code < perExponent
  · have hscale := log2_of_lt_perExponent hcode
    have hround := roundDiv_mul_self code Nat.one_pos
    rw [Nat.mul_one] at hround
    simp only [nearestCode, unitsAt, if_pos hcode, Nat.div_one, hscale]
    simp [hround]
  · have hpos : 0 < perExponent := by decide
    have hr := Nat.mod_lt code hpos
    have hscale := log2_mul_two_pow hr (code / perExponent - 1)
    have hone : 1 ≤ code / perExponent := (Nat.one_le_div_iff hpos).2 (Nat.le_of_not_lt hcode)
    have hcancel : 52 + (code / perExponent - 1) - 52 = code / perExponent - 1 := by omega
    have hround := roundDiv_mul_self (perExponent + code % perExponent)
      (Nat.two_pow_pos (code / perExponent - 1))
    have hparts : code / perExponent * perExponent + code % perExponent = code :=
      Nat.div_add_mod' ..
    simp only [nearestCode, unitsAt, if_neg hcode, Nat.div_one, Nat.one_mul, Nat.pow_eq, hscale,
      hcancel, hround]
    have hsplit : (code / perExponent - 1) * perExponent + perExponent
        = code / perExponent * perExponent := by
      rw [← Nat.succ_mul, Nat.succ_eq_add_one, Nat.sub_add_cancel hone]
    omega

end Rounding

section Decimal

/-- Between the bounds on the places the number is the rounded quotient of two powers. -/
theorem ofDecimal?_eq (negative : Bool) (digits : ℕ) (exponent : ℤ) :
    ofDecimal? negative digits exponent =
      if digits = 0 ∨ ((Nat.toDigits 10 digits).length : ℤ) + exponent < -330 then
        some ⟨negative, 0, by decide⟩
      else if 310 < ((Nat.toDigits 10 digits).length : ℤ) + exponent then none
      else ofRatio? negative (digits * 10 ^ exponent.toNat) (10 ^ (-exponent).toNat) := by
  simp only [ofDecimal?, Nat.pow_eq]
  by_cases hexponent : 0 ≤ exponent
  · have hden : (-exponent).toNat = 0 := by omega
    simp only [if_pos hexponent, hden, Nat.pow_zero]
  · have hnum : exponent.toNat = 0 := by omega
    simp only [if_neg hexponent, hnum, Nat.pow_zero, Nat.mul_one]

theorem length_toDigits_mul_ten {digits : ℕ} (hdigits : digits ≠ 0) :
    (Nat.toDigits 10 (10 * digits)).length = (Nat.toDigits 10 digits).length + 1 := by
  rw [Nat.toDigits_of_base_le (by decide) (by omega), List.length_append, List.length_singleton,
    Nat.mul_div_cancel_left _ (by decide)]

/-- A zero more at the end of the digits makes up for one place less. -/
theorem ofDecimal?_mul_ten (negative : Bool) {digits : ℕ} (hdigits : digits ≠ 0) (exponent : ℤ) :
    ofDecimal? negative (10 * digits) (exponent - 1) = ofDecimal? negative digits exponent := by
  have hplaces : ((Nat.toDigits 10 (10 * digits)).length : ℤ) + (exponent - 1)
      = (Nat.toDigits 10 digits).length + exponent := by
    rw [length_toDigits_mul_ten hdigits]
    omega
  have hratio : ofRatio? negative (10 * digits * 10 ^ (exponent - 1).toNat)
        (10 ^ (-(exponent - 1)).toNat)
      = ofRatio? negative (digits * 10 ^ exponent.toNat) (10 ^ (-exponent).toNat) := by
    by_cases hexponent : 1 ≤ exponent
    · have hnum : exponent.toNat = (exponent - 1).toNat + 1 := by omega
      have hden : (-(exponent - 1)).toNat = (-exponent).toNat := by omega
      rw [hnum, hden, Nat.pow_succ', Nat.mul_comm 10 digits, Nat.mul_assoc]
    · have hnum : (exponent - 1).toNat = 0 := by omega
      have hnum' : exponent.toNat = 0 := by omega
      have hden : (-(exponent - 1)).toNat = (-exponent).toNat + 1 := by omega
      rw [hnum, hnum', hden, Nat.pow_zero, Nat.mul_one, Nat.mul_one, Nat.pow_succ',
        ofRatio?_mul_left (by decide)]
  have hten : 10 * digits ≠ 0 := by omega
  simp only [ofDecimal?_eq, hplaces, hratio, hdigits, hten, false_or]

theorem ofDecimal?_mul_pow (negative : Bool) {digits : ℕ} (hdigits : digits ≠ 0) (exponent : ℤ)
    (k : ℕ) :
    ofDecimal? negative (digits * 10 ^ k) (exponent - k) = ofDecimal? negative digits exponent := by
  induction k with
  | zero => simp
  | succ k ih =>
    have hpow : digits * 10 ^ k ≠ 0 := Nat.mul_ne_zero hdigits (Nat.pow_pos (by decide)).ne'
    have hsucc : digits * 10 ^ (k + 1) = 10 * (digits * 10 ^ k) := by
      rw [Nat.pow_succ', Nat.mul_left_comm]
    have hplace : exponent - ((k + 1 : ℕ) : ℤ) = exponent - k - 1 := by omega
    rw [hsucc, hplace, ofDecimal?_mul_ten negative hpow, ih]

/-- The magnitude does not depend on the sign. -/
theorem ofDecimal?_eq_map (negative : Bool) (digits : ℕ) (exponent : ℤ) :
    ofDecimal? negative digits exponent =
      (ofDecimal? false digits exponent).map fun y => ⟨negative, y.code, y.code_lt⟩ := by
  simp only [ofDecimal?_eq, ofRatio?]
  split
  · rfl
  · split
    · rfl
    · split <;> rfl

theorem ofDecimal?_of_readsAs {d : Decimal} {code : ℕ} (h : d.readsAs code = true)
    (hlt : code < 2047 * perExponent) (negative : Bool) :
    ofDecimal? negative d.digits d.exponent = some ⟨negative, code, hlt⟩ := by
  unfold Decimal.readsAs at h
  split at h
  · next y hy =>
    obtain rfl : y.code = code := by simpa using h
    rw [ofDecimal?_eq_map, hy]
    rfl
  · cases h

end Decimal

section Shortest

variable {code : ℕ}

theorem unitsAt_pos (hpos : 0 < code) : 0 < unitsAt code := by
  unfold unitsAt
  split
  · exact hpos
  · exact Nat.mul_pos (Nat.add_pos_left (by decide) _) (Nat.two_pow_pos _)

theorem unitsAt_lt (hlt : code < 2047 * perExponent) : unitsAt code < 2 ^ (53 + 2045) := by
  have hexponent : code / perExponent < 2047 := (Nat.div_lt_iff_lt_mul (by decide)).2 hlt
  have hr := Nat.mod_lt code (y := perExponent) (by decide)
  have hlarge (m : ℕ) (hm : code / perExponent - 1 ≤ m) :
      (perExponent + code % perExponent) * 2 ^ (code / perExponent - 1) < 2 ^ (53 + m) := by
    rw [Nat.pow_add]
    exact Nat.mul_lt_mul_of_lt_of_le (by rw [perExponent_eq] at *; omega)
      (Nat.pow_le_pow_right (by decide) hm) (Nat.two_pow_pos _)
  unfold unitsAt
  split
  · next h => exact h.trans (by decide +kernel)
  · exact hlarge 2045 (by omega)

theorem length_toDigits_mul {u f least greatest m : ℕ} (hu : 0 < u) (hu' : u < 2 ^ m)
    (hleast : 10 ^ least ≤ f) (hgreatest : 2 ^ m * f ≤ 10 ^ greatest) (hpos : 0 < least)
    (hpos' : 0 < greatest) :
    u * f ≠ 0 ∧ least < (Nat.toDigits 10 (u * f)).length ∧
      (Nat.toDigits 10 (u * f)).length ≤ greatest := by
  have hf : 0 < f := Nat.lt_of_lt_of_le (Nat.pow_pos (by decide)) hleast
  refine ⟨(Nat.mul_pos hu hf).ne', ?_, ?_⟩
  · have hn := hleast.trans (Nat.le_mul_of_pos_left f hu)
    rw [← Nat.not_le, Nat.length_toDigits_le_iff (by decide) hpos]
    exact Nat.not_lt.2 hn
  · rw [Nat.length_toDigits_le_iff (by decide) hpos']
    exact Nat.lt_of_lt_of_le ((Nat.mul_lt_mul_right hf).2 hu') hgreatest

/-- All units written out are exact. -/
theorem nearestCode_mul_unitsPerOne {f q : ℕ} (h : f * unitsPerOne = 10 ^ q) :
    nearestCode (unitsAt code * f * unitsPerOne) (10 ^ q) = code := by
  have hq : 0 < 10 ^ q := Nat.pow_pos (by decide)
  calc nearestCode (unitsAt code * f * unitsPerOne) (10 ^ q)
      = nearestCode (10 ^ q * unitsAt code) (10 ^ q * 1) := by
        rw [Nat.mul_assoc, h, Nat.mul_comm, Nat.mul_one]
    _ = code := by rw [nearestCode_mul_left hq, nearestCode_unitsAt]

theorem readsAs_of_nearestCode {n q : ℕ} (hn : n ≠ 0) (hlt : code < 2047 * perExponent)
    (hleast : q - 330 ≤ (Nat.toDigits 10 n).length)
    (hgreatest : (Nat.toDigits 10 n).length ≤ q + 310)
    (h : nearestCode (n * unitsPerOne) (10 ^ q) = code) :
    (Decimal.mk n (-q)).readsAs code = true := by
  have hplaces : ¬ (n = 0 ∨ ((Nat.toDigits 10 n).length : ℤ) + -q < -330) := by omega
  have hplaces' : ¬ 310 < ((Nat.toDigits 10 n).length : ℤ) + -q := by omega
  have hnum : (-(q : ℤ)).toNat = 0 := by omega
  have hden : (- -(q : ℤ)).toNat = q := by omega
  have hvalue : ofDecimal? false n (-q) = some ⟨false, code, hlt⟩ := by
    rw [ofDecimal?_eq, if_neg hplaces, if_neg hplaces', hnum, hden, Nat.pow_zero, Nat.mul_one]
    simp only [ofRatio?, h, dif_pos hlt]
  simp [Decimal.readsAs, hvalue]

theorem readsAs_exactDecimal (hpos : 0 < code) (hlt : code < 2047 * perExponent) :
    (exactDecimal code).readsAs code = true := by
  have hone : 5 ^ 1074 * unitsPerOne = 10 ^ 1074 := by decide +kernel
  have hleast : 10 ^ 744 ≤ 5 ^ 1074 := by decide +kernel
  have hgreatest : 2 ^ (53 + 2045) * 5 ^ 1074 ≤ 10 ^ 1384 := by decide +kernel
  obtain ⟨hn, hlong, hshort⟩ :=
    length_toDigits_mul (unitsAt_pos hpos) (unitsAt_lt hlt) hleast hgreatest (by decide) (by decide)
  have hreads := readsAs_of_nearestCode hn hlt (by omega) (by omega)
    (nearestCode_mul_unitsPerOne hone)
  have hfive : Nat.pow 5 1074 = 5 ^ 1074 := by decide +kernel
  rw [exactDecimal, hfive]
  exact hreads

theorem readsAs_of_searchGrids {num den : ℕ} {point : ℤ} {tries count : ℕ} {d : Decimal}
    (h : searchGrids num den code point tries count = some d) : d.readsAs code = true := by
  induction tries generalizing count with
  | zero => cases h
  | succ tries ih =>
    unfold searchGrids at h
    split at h
    · next e he =>
      cases h
      exact List.find?_some (p := fun d : Decimal => d.readsAs code) he
    · exact ih h

/-- The decimal of a number reads back as the number. -/
theorem readsAs_shortestOf (hpos : 0 < code) (hlt : code < 2047 * perExponent) :
    (shortestOf code).readsAs code = true := by
  simp only [shortestOf]
  cases hsearch : searchGrids (unitsAt code) unitsPerOne code (pointOf (unitsAt code) unitsPerOne)
      17 1 with
  | some d => exact readsAs_of_searchGrids hsearch
  | none => exact readsAs_exactDecimal hpos hlt

/-- No integer part has more than 640 digits. -/
theorem length_ofNat_truncate_le (x : Binary64) :
    (Text.ofNat x.truncate.natAbs).length ≤ 640 := by
  have hunits : x.truncate.natAbs = x.units / unitsPerOne := by
    unfold truncate
    split
    · rw [Int.natAbs_neg, Int.natAbs_natCast]
    · rw [Int.natAbs_natCast]
  have hgreatest : 2 ^ (53 + 2045) ≤ 10 ^ 640 * unitsPerOne := by decide +kernel
  have hpos : 0 < unitsPerOne := by decide +kernel
  rw [Text.length_ofNat_le_iff (by decide), hunits, Nat.div_lt_iff_lt_mul hpos]
  exact Nat.lt_of_lt_of_le (unitsAt_lt x.code_lt) hgreatest

end Shortest

end Lexicon.Binary64
