import Lexicon.Proofs.Text.Basic
import Lexicon.Text.Digits
import Mathlib.Algebra.Group.Nat.Defs
import Mathlib.Data.List.Induction

/-! Decimal digits of numbers, and the numbers read back from them. -/
namespace Lexicon.Text

section

theorem exists_digitChar_eq {c : Char} (h : c.isDigit = true) :
    ∃ d < 10, Nat.digitChar d = c := by
  have hc : 48 ≤ c.toNat ∧ c.toNat ≤ 57 := by
    simpa [Char.isDigit, UInt32.le_iff_toNat_le] using h
  refine ⟨c.toNat - 48, by omega, Char.toNat_inj.1 ?_⟩
  rw [Nat.toNat_digitChar_of_lt_ten (by omega)]
  omega

/-- A fact about the ten digits holds for every digit. -/
theorem forall_isDigit {p : Char → Prop} (h : ∀ d < 10, p (Nat.digitChar d)) {c : Char}
    (hc : c.isDigit = true) : p c := by
  obtain ⟨d, hd, rfl⟩ := exists_digitChar_eq hc
  exact h d hd

theorem isDigit_of_mem_ofNat {n : ℕ} : ∀ c ∈ ofNat n, c.isDigit = true :=
  fun _ hc => Nat.isDigit_of_mem_toDigits (by decide) (by decide) hc

theorem ofNat_ne_nil (n : ℕ) : ofNat n ≠ [] := Nat.toDigits_ne_nil

/-- No number but zero starts with a zero. -/
theorem head?_ofNat_ne {n : ℕ} (h : n ≠ 0) : (ofNat n).head? ≠ some '0' := by
  induction n using Nat.strongRecOn with
  | _ n ih =>
    by_cases hn : n < 10
    · simpa [ofNat, Nat.toDigits_of_lt_base hn] using h
    · have hhead := ih (n / 10) (by omega) (by omega)
      rw [ofNat, Nat.toDigits_of_base_le (by decide) (by omega),
        List.head?_append_of_ne_nil _ Nat.toDigits_ne_nil]
      exact hhead

theorem ofDigitChars_lt {s : Text} (h : ∀ c ∈ s, c.isDigit = true) :
    Nat.ofDigitChars 10 s 0 < 10 ^ s.length := by
  induction s using List.reverseRecOn with
  | nil => simp
  | append_singleton s c ih =>
    obtain ⟨d, hd, rfl⟩ := exists_digitChar_eq (h c (by simp))
    have hs := ih fun c hc => h c (List.mem_append_left _ hc)
    rw [Nat.ofDigitChars_append, Nat.ofDigitChars_cons_digitChar_of_lt_ten hd,
      Nat.ofDigitChars_nil, List.length_append, List.length_singleton, Nat.pow_succ]
    omega

theorem length_ofNat_le_iff {n k : ℕ} (hk : 0 < k) : (ofNat n).length ≤ k ↔ n < 10 ^ k :=
  Nat.length_toDigits_le_iff (by decide) hk

end

section

variable {n : ℕ} {s : Text}

theorem digitValue?_digitChar : ∀ d < 10, digitValue? (Nat.digitChar d) = some d := by decide

theorem lt_ten_of_digitValue? {c : Char} {d : ℕ} (h : digitValue? c = some d) : d < 10 := by
  obtain ⟨first, hfirst, rfl⟩ := Option.map_eq_some_iff.1 h
  have := List.find?_some hfirst
  grind

theorem digitsAfter_of_isDigit (h : ∀ c ∈ s, c.isDigit = true) (value : ℕ) :
    digitsAfter value s = some (Nat.ofDigitChars 10 s value) := by
  induction s generalizing value with
  | nil => simp [digitsAfter]
  | cons c s ih =>
    obtain ⟨d, hd, rfl⟩ := exists_digitChar_eq (h c (by simp))
    have hs := ih (fun c hc => h c (List.mem_cons_of_mem _ hc)) (10 * value + d)
    rw [digitsAfter]
    · simp [digitValue?_digitChar d hd, Nat.ofDigitChars_cons_digitChar_of_lt_ten hd, hs]
    · intro e rest he
      have hc := h _ (List.mem_cons_self ..)
      rw [he] at hc
      exact absurd hc (by decide)

theorem digits?_ofNat (n : ℕ) : digits? (ofNat n) = some n := by
  obtain ⟨c, s, hcs⟩ := List.exists_cons_of_ne_nil (ofNat_ne_nil n)
  have hdigits : ∀ c' ∈ c :: s, c'.isDigit = true := hcs ▸ isDigit_of_mem_ofNat
  have hvalue : Nat.ofDigitChars 10 (c :: s) 0 = n := hcs ▸ Nat.ofDigitChars_ten_toDigits
  obtain ⟨d, hd, rfl⟩ := exists_digitChar_eq (hdigits c (by simp))
  rw [Nat.ofDigitChars_cons_digitChar_of_lt_ten hd, Nat.mul_zero, Nat.zero_add] at hvalue
  rw [hcs]
  simp [digits?, digitValue?_digitChar d hd,
    digitsAfter_of_isDigit fun c hc => hdigits c (List.mem_cons_of_mem _ hc), hvalue]

theorem signed?_ofInt (n : ℤ) : signed? (ofInt n) = some n := by
  cases n with
  | negSucc n => simp [ofInt, signed?, digits?_ofNat, Int.negSucc_eq]
  | ofNat n =>
    have hsign : ∀ c ∈ ofNat n, c ≠ '-' ∧ c ≠ '+' := fun c hc =>
      forall_isDigit (p := fun c => c ≠ '-' ∧ c ≠ '+') (by decide) (isDigit_of_mem_ofNat c hc)
    simp only [ofInt, signed?]
    split
    · next h => exact absurd rfl (hsign '-' (h ▸ List.mem_cons_self ..)).1
    · next h => exact absurd rfl (hsign '+' (h ▸ List.mem_cons_self ..)).2
    · simp [digits?_ofNat]

/-- A fact about the minus sign and the ten digits holds throughout an integer. -/
theorem forall_mem_ofInt {p : Char → Prop} (hsign : p '-') (h : ∀ d < 10, p (Nat.digitChar d))
    (n : ℤ) : ∀ c ∈ ofInt n, p c := by
  intro c hc
  cases n with
  | ofNat n => exact forall_isDigit h (isDigit_of_mem_ofNat c hc)
  | negSucc n =>
    rcases List.mem_cons.1 hc with rfl | hc
    · exact hsign
    · exact forall_isDigit h (isDigit_of_mem_ofNat c hc)

theorem ofInt_ne_nil (n : ℤ) : ofInt n ≠ [] := by
  cases n with
  | ofNat n => exact ofNat_ne_nil n
  | negSucc n => exact List.cons_ne_nil _ _

theorem digitCount_ofInt (n : ℤ) : digitCount (ofInt n) = (ofNat n.natAbs).length := by
  have hdigits (n : ℕ) : digitCount (ofNat n) = (ofNat n).length :=
    List.countP_eq_length.2 fun c hc =>
      forall_isDigit (p := fun c => (digitValue? c).isSome = true) (by decide)
        (isDigit_of_mem_ofNat c hc)
  cases n with
  | ofNat n => exact hdigits n
  | negSucc n =>
    have hsign : digitValue? '-' = none := by decide
    have hn := hdigits (n + 1)
    simp only [digitCount] at hn
    simp [ofInt, digitCount, hsign, hn]

/-- The digits of an integer are read back when there are not too many of them. -/
theorem toIntWithin?_ofInt {limit : ℕ} {n : ℤ} (h : (ofNat n.natAbs).length ≤ limit) :
    toIntWithin? limit (ofInt n) = some n := by
  have hblank := forall_mem_ofInt (p := fun c => isNumberBlank c = false) (by decide) (by decide) n
  have hfront : (ofInt n).dropWhile isNumberBlank = ofInt n :=
    TextOf.dropWhile_eq_self fun c hc => hblank c (List.mem_of_mem_head? hc)
  have hback : (ofInt n).reverse.dropWhile isNumberBlank = (ofInt n).reverse :=
    TextOf.dropWhile_eq_self fun c hc => hblank c (List.mem_reverse.1 (List.mem_of_mem_head? hc))
  rw [toIntWithin?, if_pos (digitCount_ofInt n ▸ h), hfront, hback, List.reverse_reverse,
    signed?_ofInt]

theorem digitCount_cons_of_digitValue? {c : Char} {d : ℕ} (h : digitValue? c = some d) :
    digitCount (c :: s) = digitCount s + 1 := by
  simp [digitCount, h]

theorem digit_mul_pow_le {value d : ℕ} (hd : d < 10) (k : ℕ) :
    (10 * value + d + 1) * 10 ^ k ≤ (value + 1) * 10 ^ (k + 1) := by
  calc (10 * value + d + 1) * 10 ^ k
      ≤ (value + 1) * 10 * 10 ^ k := Nat.mul_le_mul_right _ (by omega)
    _ = (value + 1) * 10 ^ (k + 1) := by rw [Nat.pow_succ', Nat.mul_assoc]

theorem lt_of_digitsAfter_eq_some {value : ℕ} (h : digitsAfter value s = some n) :
    n < (value + 1) * 10 ^ digitCount s := by
  induction value, s using digitsAfter.induct with
  | case1 value =>
    simp only [digitsAfter, Option.some.injEq] at h
    simp [digitCount, h]
  | case2 value c s ih =>
    simp only [digitsAfter, bind, Option.bind_eq_some_iff] at h
    obtain ⟨d, hd, h⟩ := h
    have hunderscore : digitCount ('_' :: c :: s) = digitCount (c :: s) := by
      have hnone : digitValue? '_' = none := by decide
      simp [digitCount, hnone]
    rw [hunderscore, digitCount_cons_of_digitValue? hd]
    exact Nat.lt_of_lt_of_le (ih d h) (digit_mul_pow_le (lt_ten_of_digitValue? hd) _)
  | case3 value c s hc ih =>
    simp only [digitsAfter, bind, Option.bind_eq_some_iff] at h
    obtain ⟨d, hd, h⟩ := h
    rw [digitCount_cons_of_digitValue? hd]
    exact Nat.lt_of_lt_of_le (ih d h) (digit_mul_pow_le (lt_ten_of_digitValue? hd) _)

theorem lt_of_digits?_eq_some (h : digits? s = some n) :
    0 < digitCount s ∧ n < 10 ^ digitCount s := by
  cases s with
  | nil => simp [digits?] at h
  | cons c s =>
    simp only [digits?, bind, Option.bind_eq_some_iff] at h
    obtain ⟨d, hd, h⟩ := h
    have hn := lt_of_digitsAfter_eq_some h
    have hpow : (d + 1) * 10 ^ digitCount s ≤ 10 * 10 ^ digitCount s :=
      Nat.mul_le_mul_right _ (lt_ten_of_digitValue? hd)
    rw [digitCount_cons_of_digitValue? hd, Nat.pow_succ']
    omega

theorem lt_of_signed?_eq_some {n : ℤ} (h : signed? s = some n) :
    0 < digitCount s ∧ n.natAbs < 10 ^ digitCount s := by
  have hsign {c : Char} (hc : digitValue? c = none) (s : Text) :
      digitCount (c :: s) = digitCount s := by
    simp [digitCount, hc]
  unfold signed? at h
  split at h
  · obtain ⟨m, hm, rfl⟩ := Option.map_eq_some_iff.1 h
    obtain ⟨k, hk, ⟨⟩⟩ := Option.bind_eq_some_iff.1 hm
    rw [hsign (by decide), Int.natAbs_neg]
    exact lt_of_digits?_eq_some hk
  · obtain ⟨m, hm, rfl⟩ := Option.map_eq_some_iff.1 h
    rw [hsign (by decide)]
    exact lt_of_digits?_eq_some hm
  · obtain ⟨m, hm, rfl⟩ := Option.map_eq_some_iff.1 h
    exact lt_of_digits?_eq_some hm

/-- A number that is read has no more digits than the limit allows. -/
theorem length_ofNat_le_of_toIntWithin? {limit : ℕ} {n : ℤ}
    (h : toIntWithin? limit s = some n) : (ofNat n.natAbs).length ≤ limit := by
  unfold toIntWithin? at h
  split at h
  · next hlimit =>
    obtain ⟨hpos, hlt⟩ := lt_of_signed?_eq_some h
    have htrim : ((s.dropWhile isNumberBlank).reverse.dropWhile isNumberBlank).reverse.Sublist s :=
      (List.dropWhile_sublist isNumberBlank).reverse.trans
        (List.reverse_reverse _ ▸ List.dropWhile_sublist isNumberBlank)
    have hcount := htrim.countP_le (p := fun c => (digitValue? c).isSome)
    exact ((length_ofNat_le_iff hpos).2 hlt).trans (hcount.trans hlimit)
  · cases h

end
end Lexicon.Text
