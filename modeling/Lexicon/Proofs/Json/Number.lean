import Lexicon.Json.Reader
import Lexicon.Proofs.Number.Binary64

/-! Numbers read at the start of a text. The parts of a number are each as long as they can be, so a
number is read whole when what follows cannot go on with it. -/
namespace Lexicon.Json

/-- What cannot go on with a number: it starts with no digit, point or exponent letter. -/
def EndsNumber (rest : Text) : Prop :=
  ∀ c ∈ rest.head?, c.isDigit = false ∧ c ≠ '.' ∧ c ≠ 'e' ∧ c ≠ 'E'

/-- At least one digit, and no others. -/
structure IsDigits (digits : Text) : Prop where
  ne_nil : digits ≠ []
  isDigit : ∀ c ∈ digits, c.isDigit = true

theorem isDigits_ofNat (n : ℕ) : IsDigits (Text.ofNat n) :=
  ⟨Text.ofNat_ne_nil n, Text.isDigit_of_mem_ofNat⟩

@[simp] theorem digitsValue_ofNat (n : ℕ) : digitsValue (Text.ofNat n) = n :=
  Nat.ofDigitChars_ten_toDigits

section Parts

variable {digits rest : Text}

/-- Zeros before a number do not count. -/
theorem digitsValue_replicate_append (k : ℕ) (digits : Text) :
    digitsValue (List.replicate k '0' ++ digits) = digitsValue digits := by
  rw [digitsValue, Nat.ofDigitChars_append, Nat.ofDigitChars_replicate_zero, Nat.mul_zero,
    digitsValue]

theorem digitsValue_append_replicate (digits : Text) (k : ℕ) :
    digitsValue (digits ++ List.replicate k '0') = digitsValue digits * 10 ^ k := by
  rw [digitsValue, Nat.ofDigitChars_append, Nat.ofDigitChars_replicate_zero, Nat.mul_comm,
    digitsValue]

theorem digitsValue_ne_zero {c : Char} (hc : c ≠ '0') (h : IsDigits (c :: digits)) :
    digitsValue (c :: digits) ≠ 0 := by
  obtain ⟨d, hd, rfl⟩ := Text.exists_digitChar_eq (h.isDigit c (List.mem_cons_self ..))
  have hzero : d ≠ 0 := by
    rintro rfl
    exact hc rfl
  have hpow : 0 < 10 ^ digits.length := Nat.pow_pos (by decide)
  rw [digitsValue, Nat.ofDigitChars_cons_digitChar_of_lt_ten hd,
    Nat.ofDigitChars_eq_ofDigitChars_zero, Nat.mul_zero, Nat.zero_add]
  have hmul := Nat.mul_ne_zero hpow.ne' hzero
  omega

theorem wholePart?_zero (rest : Text) : wholePart? ('0' :: rest) = some (['0'], rest) := by
  rfl

theorem wholePart?_append {c : Char} (hc : c ≠ '0') (h : IsDigits (c :: digits))
    (hrest : ∀ c ∈ rest.head?, c.isDigit = false) :
    wholePart? (c :: digits ++ rest) = some (c :: digits, rest) := by
  have hdigits : ∀ c ∈ digits, c.isDigit = true :=
    fun c hc => h.isDigit c (List.mem_cons_of_mem _ hc)
  rw [List.cons_append, wholePart?]
  · rw [if_pos (h.isDigit c (List.mem_cons_self ..)), TextOf.takeWhile_append_eq hdigits hrest,
      TextOf.dropWhile_append_eq hdigits hrest]
  · exact hc

theorem fractionPart_append (h : IsDigits digits) (hrest : ∀ c ∈ rest.head?, c.isDigit = false) :
    fractionPart ('.' :: (digits ++ rest)) = (some digits, rest) := by
  have hne : digits.isEmpty = false := List.isEmpty_eq_false_iff.2 h.ne_nil
  simp only [fractionPart, TextOf.takeWhile_append_eq h.isDigit hrest,
    TextOf.dropWhile_append_eq h.isDigit hrest, hne]
  simp

theorem fractionPart_of_head (hrest : ∀ c ∈ rest.head?, c ≠ '.') :
    fractionPart rest = (none, rest) := by
  unfold fractionPart
  split
  · next tail => exact absurd rfl (hrest '.' rfl)
  · rfl

theorem exponentDigits_append (negative : Bool) (h : IsDigits digits)
    (hrest : ∀ c ∈ rest.head?, c.isDigit = false) :
    exponentDigits negative (digits ++ rest) =
      some (if negative then -(digitsValue digits : ℤ) else digitsValue digits, rest) := by
  have hne : digits.isEmpty = false := List.isEmpty_eq_false_iff.2 h.ne_nil
  simp only [exponentDigits, TextOf.takeWhile_append_eq h.isDigit hrest,
    TextOf.dropWhile_append_eq h.isDigit hrest, hne]
  simp

theorem exponentPart_of_head (hrest : ∀ c ∈ rest.head?, c ≠ 'e' ∧ c ≠ 'E') :
    exponentPart rest = (none, rest) := by
  have hletter {c : Char} {tail : Text} (h : rest = c :: tail) : ¬ (c = 'e' ∨ c = 'E') := by
    have hc := hrest c (by rw [h]; rfl)
    exact fun h => h.elim hc.1 hc.2
  unfold exponentPart
  split
  · simp only [if_neg (hletter rfl)]
  · simp only [if_neg (hletter rfl)]
  · simp only [if_neg (hletter rfl)]
  · rfl

theorem isDigits_exponent (e : ℤ) :
    IsDigits (List.replicate (2 - (Text.ofNat e.natAbs).length) '0' ++ Text.ofNat e.natAbs) where
  ne_nil h := Text.ofNat_ne_nil _ (List.append_eq_nil_iff.1 h).2
  isDigit c hc := by
    rcases List.mem_append.1 hc with hc | hc
    · rw [(List.mem_replicate.1 hc).2]
      decide
    · exact Text.isDigit_of_mem_ofNat c hc

theorem exponentPart_exponentText (e : ℤ) (hrest : ∀ c ∈ rest.head?, c.isDigit = false) :
    exponentPart (Binary64.exponentText e ++ rest) = (some e, rest) := by
  have hvalue : digitsValue (List.replicate (2 - (Text.ofNat e.natAbs).length) '0'
      ++ Text.ofNat e.natAbs) = e.natAbs := by
    rw [digitsValue_replicate_append, digitsValue_ofNat]
  by_cases he : e < 0
  · have hread := exponentDigits_append true (isDigits_exponent e) hrest
    have hsign : (if true = true then -(e.natAbs : ℤ) else e.natAbs) = e := by
      rw [if_pos rfl]
      omega
    rw [hvalue, hsign] at hread
    simp only [Binary64.exponentText, if_pos he, List.cons_append, exponentPart, true_or, if_true,
      hread]
  · have hread := exponentDigits_append false (isDigits_exponent e) hrest
    have hsign : (if false = true then -(e.natAbs : ℤ) else e.natAbs) = e := by
      rw [if_neg (by decide)]
      omega
    rw [hvalue, hsign] at hread
    simp only [Binary64.exponentText, if_neg he, List.cons_append, exponentPart, true_or, if_true,
      hread]

end Parts

section Numeral

variable {whole rest : Text}

/-- The digits before the point of a number: a lone zero, or digits that start with another one. -/
def IsWhole (whole : Text) : Prop :=
  whole = ['0'] ∨ ∃ c digits, whole = c :: digits ∧ c ≠ '0' ∧ IsDigits whole

theorem isWhole_ofNat (n : ℕ) : IsWhole (Text.ofNat n) := by
  by_cases hn : n = 0
  · exact .inl (by rw [hn]; decide)
  · obtain ⟨c, digits, hdigits⟩ := List.exists_cons_of_ne_nil (Text.ofNat_ne_nil n)
    have hhead := Text.head?_ofNat_ne hn
    rw [hdigits] at hhead
    exact .inr ⟨c, digits, hdigits, fun hc => hhead (by rw [hc]; rfl), isDigits_ofNat n⟩

theorem wholePart?_of_isWhole (h : IsWhole whole) (hrest : ∀ c ∈ rest.head?, c.isDigit = false) :
    wholePart? (whole ++ rest) = some (whole, rest) := by
  rcases h with rfl | ⟨c, digits, rfl, hc, h⟩
  · exact wholePart?_zero rest
  · exact wholePart?_append hc h hrest

theorem exists_cons_of_isWhole (h : IsWhole whole) :
    ∃ c digits, whole = c :: digits ∧ c.isDigit = true := by
  rcases h with rfl | ⟨c, digits, rfl, -, h⟩
  · exact ⟨'0', [], rfl, by decide⟩
  · exact ⟨c, digits, rfl, h.isDigit c (List.mem_cons_self ..)⟩

/-- The fraction of a number, if it has one. -/
def fractionText (fraction? : Option Text) : Text := fraction?.elim [] ('.' :: ·)

/-- The exponent of a number, if it has one. -/
def exponentText (exponent? : Option ℤ) : Text := exponent?.elim [] Binary64.exponentText

theorem head?_exponentText (exponent? : Option ℤ) (hrest : EndsNumber rest) :
    ∀ c ∈ (exponentText exponent? ++ rest).head?, c.isDigit = false ∧ c ≠ '.' := by
  cases exponent? with
  | none => exact fun c hc => ⟨(hrest c hc).1, (hrest c hc).2.1⟩
  | some e =>
    rintro c ⟨⟩
    decide

/-- The three parts of a number are found one after the other. -/
theorem number_eq (limit : ℕ) (negative : Bool) (fraction? : Option Text) (exponent? : Option ℤ)
    (hwhole : IsWhole whole) (hfraction : ∀ fraction ∈ fraction?, IsDigits fraction)
    (hrest : EndsNumber rest) :
    number limit negative (whole ++ (fractionText fraction? ++ (exponentText exponent? ++ rest))) =
      if fraction?.isNone && exponent?.isNone then
        (integer limit negative whole).map fun v => (v, rest)
      else
        .ok ((Binary64.ofDecimal? negative (digitsValue (whole ++ fraction?.getD []))
          (exponent?.getD 0 - (fraction?.getD []).length)).elim (.infinity negative) .float, rest) := by
  have hexponent : exponentPart (exponentText exponent? ++ rest) = (exponent?, rest) := by
    cases exponent? with
    | none => exact exponentPart_of_head fun c hc => (hrest c hc).2.2
    | some e => exact exponentPart_exponentText e fun c hc => (hrest c hc).1
  have hhead := head?_exponentText exponent? hrest
  have hpoint : fractionPart (fractionText fraction? ++ (exponentText exponent? ++ rest))
      = (fraction?, exponentText exponent? ++ rest) := by
    cases fraction? with
    | none => exact fractionPart_of_head fun c hc => (hhead c hc).2
    | some fraction => exact fractionPart_append (hfraction _ rfl) fun c hc => (hhead c hc).1
  have hafter : ∀ c ∈ (fractionText fraction? ++ (exponentText exponent? ++ rest)).head?,
      c.isDigit = false := by
    cases fraction? with
    | none => exact fun c hc => (hhead c hc).1
    | some fraction =>
      rintro c ⟨⟩
      decide
  simp only [number, wholePart?_of_isWhole hwhole hafter, hpoint, hexponent]
  split
  · rfl
  · split
    · next x hx => rw [hx]; rfl
    · next hx => rw [hx]; rfl

end Numeral

section Layout

variable {c : Char} {tail whole : Text} {point : ℤ} {fraction? : Option Text} {exponent? : Option ℤ}

/-- The parts of a number that is worth some digits with the point at some place. -/
structure Lays (digits : Text) (point : ℤ) (whole : Text) (fraction? : Option Text)
    (exponent? : Option ℤ) : Prop where
  isWhole : IsWhole whole
  isDigits : ∀ fraction ∈ fraction?, IsDigits fraction
  isFloat : (fraction?.isNone && exponent?.isNone) = false
  sameValue : ∀ negative,
    Binary64.ofDecimal? negative (digitsValue (whole ++ fraction?.getD []))
        (exponent?.getD 0 - (fraction?.getD []).length)
      = Binary64.ofDecimal? negative (digitsValue digits) (point - digits.length)

theorem isDigits_append {s t : Text} (hs : IsDigits s) (ht : ∀ c ∈ t, c.isDigit = true) :
    IsDigits (s ++ t) :=
  ⟨fun h => hs.ne_nil (List.append_eq_nil_iff.1 h).1,
    fun c hc => (List.mem_append.1 hc).elim (hs.isDigit c) (ht c)⟩

theorem isDigit_of_mem_replicate {k : ℕ} : ∀ c ∈ List.replicate k '0', c.isDigit = true := by
  intro c hc
  rw [(List.mem_replicate.1 hc).2]
  decide

theorem lays_scientific (hc : c ≠ '0') (h : IsDigits (c :: tail)) (point : ℤ) :
    Lays (c :: tail) point [c] (if tail = [] then none else some tail) (some (point - 1)) where
  isWhole := .inr ⟨c, [], rfl, hc, by simp, fun d hd => h.isDigit d (by simp_all)⟩
  isDigits := by
    split
    · simp
    · next htail =>
      rintro fraction ⟨⟩
      exact ⟨htail, fun d hd => h.isDigit d (List.mem_cons_of_mem _ hd)⟩
  isFloat := by simp
  sameValue negative := by
    have htail : (if tail = [] then none else some tail).getD [] = tail := by
      split <;> simp_all
    have hexponent : (some (point - 1)).getD 0 - (tail.length : ℤ)
        = point - (c :: tail).length := by
      simp only [Option.getD_some, List.length_cons]
      omega
    rw [htail, hexponent, List.singleton_append]

theorem lays_small (h : IsDigits (c :: tail)) (hpoint : point ≤ 0) :
    Lays (c :: tail) point ['0'] (some (List.replicate (-point).toNat '0' ++ c :: tail)) none where
  isWhole := .inl rfl
  isDigits := by
    rintro fraction ⟨⟩
    exact ⟨by simp, fun d hd => (List.mem_append.1 hd).elim (isDigit_of_mem_replicate d)
      (h.isDigit d)⟩
  isFloat := by simp
  sameValue negative := by
    have hzeros : ['0'] ++ (List.replicate (-point).toNat '0' ++ c :: tail)
        = List.replicate ((-point).toNat + 1) '0' ++ c :: tail := by
      simp [List.replicate_succ]
    have hexponent : (none : Option ℤ).getD 0
        - ((List.replicate (-point).toNat '0' ++ c :: tail).length : ℤ)
          = point - (c :: tail).length := by
      simp only [Option.getD_none, List.length_append, List.length_replicate]
      omega
    rw [Option.getD_some, hzeros, digitsValue_replicate_append, hexponent]

theorem lays_integral (hc : c ≠ '0') (h : IsDigits (c :: tail)) {k : ℕ}
    (hpoint : point = (c :: tail).length + k) :
    Lays (c :: tail) point (c :: tail ++ List.replicate k '0') (some ['0']) none where
  isWhole := .inr ⟨c, tail ++ List.replicate k '0', rfl, hc,
    isDigits_append h isDigit_of_mem_replicate⟩
  isDigits := by
    rintro fraction ⟨⟩
    exact ⟨by simp, List.forall_mem_singleton.2 (by decide)⟩
  isFloat := by simp
  sameValue negative := by
    have hzeros : (c :: tail ++ List.replicate k '0') ++ ['0']
        = c :: tail ++ List.replicate (k + 1) '0' := by
      rw [List.append_assoc, ← List.replicate_succ']
    have hexponent : (none : Option ℤ).getD 0 - ((['0'] : Text).length : ℤ)
        = point - (c :: tail).length - (k + 1 : ℕ) := by
      simp only [Option.getD_none, List.length_singleton]
      omega
    rw [Option.getD_some, hzeros, digitsValue_append_replicate, hexponent,
      Binary64.ofDecimal?_mul_pow negative (digitsValue_ne_zero hc h)]

theorem lays_mixed (hc : c ≠ '0') (h : IsDigits (c :: tail)) {k : ℕ} (hk : k < tail.length) :
    Lays (c :: tail) (k + 1 : ℕ) (c :: tail.take k) (some (tail.drop k)) none where
  isWhole := .inr ⟨c, tail.take k, rfl, hc, by simp,
    fun d hd => h.isDigit d (List.cons_subset_cons _ (List.take_subset _ _) hd)⟩
  isDigits := by
    rintro fraction ⟨⟩
    exact ⟨by simpa using hk,
      fun d hd => h.isDigit d (List.mem_cons_of_mem _ (List.drop_subset _ _ hd))⟩
  isFloat := by simp
  sameValue negative := by
    have hexponent : (none : Option ℤ).getD 0 - ((tail.drop k).length : ℤ)
        = (k + 1 : ℕ) - (c :: tail).length := by
      simp only [Option.getD_none, List.length_drop, List.length_cons]
      omega
    rw [Option.getD_some, List.cons_append, List.take_append_drop, hexponent]

/-- However the point and the exponent are placed, the digits keep their worth. -/
theorem exists_lays (hc : c ≠ '0') (h : IsDigits (c :: tail)) (point : ℤ) :
    ∃ whole fraction? exponent?, Lays (c :: tail) point whole fraction? exponent? ∧
      Binary64.layout (c :: tail) point
        = whole ++ (fractionText fraction? ++ exponentText exponent?) := by
  unfold Binary64.layout
  split
  · refine ⟨_, _, _, lays_scientific hc h point, ?_⟩
    rcases tail with _ | ⟨d, tail⟩ <;> simp [fractionText, exponentText]
  · split
    · next hpoint => exact ⟨_, _, _, lays_small h hpoint, by simp [fractionText, exponentText]⟩
    · next hpoint =>
      split
      · next hlength =>
        refine ⟨_, _, _, lays_integral hc h (k := point.toNat - (c :: tail).length) (by omega), ?_⟩
        simp [fractionText, exponentText]
      · next hlength =>
        obtain ⟨k, rfl⟩ : ∃ k : ℕ, point = (k + 1 : ℕ) := ⟨point.toNat - 1, by omega⟩
        refine ⟨_, _, _, lays_mixed hc h (k := k) (by simpa using hlength), ?_⟩
        simp [fractionText, exponentText]

end Layout

section Spelled

variable {limit : ℕ}

/-- An optional minus sign, and a text that starts with a digit and is read whole as the value. -/
def Spells (limit : ℕ) (s : Text) (v : Json) : Prop :=
  ∃ negative c tail, s = (if negative then '-' :: c :: tail else c :: tail) ∧ c.isDigit = true ∧
    ∀ rest, EndsNumber rest → number limit negative (c :: tail ++ rest) = .ok (v, rest)

theorem number_ofNat {n : ℕ} {rest : Text} (hn : (Text.ofNat n).length ≤ limit)
    (hrest : EndsNumber rest) (negative : Bool) :
    number limit negative (Text.ofNat n ++ rest)
      = .ok (.int (if negative then -(n : ℤ) else n), rest) := by
  have hread := number_eq limit negative none none (isWhole_ofNat n) (by simp) hrest
  have hinteger : integer limit negative (Text.ofNat n)
      = .ok (.int (if negative then -(n : ℤ) else n)) := by
    rw [integer, if_pos hn, digitsValue_ofNat]
  rw [hinteger] at hread
  exact hread

/-- An integer is spelled by its digits. -/
theorem spells_ofInt {n : ℤ} (hn : (Text.ofNat n.natAbs).length ≤ limit) :
    Spells limit (Text.ofInt n) (.int n) := by
  obtain ⟨c, tail, hdigits⟩ := List.exists_cons_of_ne_nil (Text.ofNat_ne_nil n.natAbs)
  have hc : c.isDigit = true := Text.isDigit_of_mem_ofNat c (hdigits ▸ List.mem_cons_self ..)
  cases n with
  | ofNat n =>
    refine ⟨false, c, tail, hdigits, hc, fun rest hrest => ?_⟩
    rw [← hdigits]
    exact number_ofNat hn hrest false
  | negSucc n =>
    refine ⟨true, c, tail, congrArg ('-' :: ·) hdigits, hc, fun rest hrest => ?_⟩
    rw [← hdigits]
    exact number_ofNat hn hrest true

theorem exists_replicate_eq (s : Text) :
    ∃ k, s = (s.reverse.dropWhile (· = '0')).reverse ++ List.replicate k '0' := by
  have hzeros : ∀ c ∈ s.reverse.takeWhile (· = '0'), c = '0' :=
    fun c hc => by simpa using List.mem_takeWhile_imp hc
  refine ⟨(s.reverse.takeWhile (· = '0')).length, ?_⟩
  have hparts := congrArg List.reverse
    (List.takeWhile_append_dropWhile (p := (· = '0')) (l := s.reverse))
  rw [List.reverse_append, List.reverse_reverse, List.eq_replicate_of_mem hzeros,
    List.reverse_replicate] at hparts
  simpa using hparts.symm

/-- The significant digits and the place of the point are worth the decimal. -/
theorem significant_eq {d : Binary64.Decimal} (hd : d.digits ≠ 0) :
    ∃ c tail, d.significant.1 = c :: tail ∧ c ≠ '0' ∧ IsDigits (c :: tail) ∧
      ∀ negative, Binary64.ofDecimal? negative (digitsValue (c :: tail))
          (d.significant.2 - (c :: tail).length)
        = Binary64.ofDecimal? negative d.digits d.exponent := by
  obtain ⟨k, hk⟩ := exists_replicate_eq (Text.ofNat d.digits)
  have hvalue := digitsValue_ofNat d.digits
  rw [hk, digitsValue_append_replicate] at hvalue
  have hlength := congrArg List.length hk
  rw [List.length_append, List.length_replicate] at hlength
  have hmem : ∀ c ∈ d.significant.1, c.isDigit = true := fun c hc =>
    Text.isDigit_of_mem_ofNat (n := d.digits) c (by rw [hk]; exact List.mem_append_left _ hc)
  have hpoint : d.significant.2 - (d.significant.1.length : ℤ) = k + d.exponent := by
    simp only [Binary64.Decimal.significant]
    omega
  have hne : digitsValue d.significant.1 ≠ 0 := by
    intro hzero
    apply hd
    rw [← hvalue]
    exact Nat.mul_eq_zero.2 (.inl hzero)
  obtain ⟨c, tail, hdigits⟩ : ∃ c tail, d.significant.1 = c :: tail :=
    List.exists_cons_of_ne_nil fun hnil => hne (by rw [hnil]; rfl)
  have hhead : (Text.ofNat d.digits).head? = some c := by
    rw [hk]
    exact congrArg (fun s => (s ++ List.replicate k '0').head?) hdigits
  refine ⟨c, tail, hdigits, ?_, ⟨by simp, hdigits ▸ hmem⟩, fun negative => ?_⟩
  · rintro rfl
    exact Text.head?_ofNat_ne hd hhead
  · have hcancel : (k : ℤ) + d.exponent - k = d.exponent := by omega
    have hshift := Binary64.ofDecimal?_mul_pow negative hne (k + d.exponent) k
    rw [← hdigits, hpoint, ← hshift, hcancel]
    exact congrArg (Binary64.ofDecimal? negative · d.exponent) hvalue

theorem digits_ne_zero_of_readsAs {d : Binary64.Decimal} {code : ℕ} (hpos : 0 < code)
    (h : d.readsAs code = true) : d.digits ≠ 0 := by
  intro hzero
  have hread : Binary64.ofDecimal? false d.digits d.exponent = some ⟨false, 0, by decide⟩ := by
    rw [Binary64.ofDecimal?_eq, if_pos (.inl hzero)]
  simp only [Binary64.Decimal.readsAs, hread, beq_iff_eq] at h
  omega

/-- The text of a magnitude is read as the number, whatever its sign. -/
theorem number_magnitude (limit : ℕ) {code : ℕ} (hpos : 0 < code)
    (hlt : code < 2047 * Binary64.perExponent)
    {digits : Text} {point : ℤ}
    (hsignificant : (Binary64.shortestOf code).significant = (digits, point)) :
    ∃ c tail, Binary64.layout digits point = c :: tail ∧ c.isDigit = true ∧
      ∀ negative rest, EndsNumber rest →
        number limit negative (c :: tail ++ rest) = .ok (.float ⟨negative, code, hlt⟩, rest) := by
  have hreads := Binary64.readsAs_shortestOf hpos hlt
  obtain ⟨c, tail, hdigits, hc, h, hvalue⟩ :=
    significant_eq (digits_ne_zero_of_readsAs hpos hreads)
  rw [hsignificant] at hdigits hvalue
  obtain rfl : digits = c :: tail := hdigits
  obtain ⟨whole, fraction?, exponent?, hlays, hlayout⟩ := exists_lays hc h point
  obtain ⟨d, after, hwhole, hd⟩ := exists_cons_of_isWhole hlays.isWhole
  refine ⟨d, after ++ (fractionText fraction? ++ exponentText exponent?), ?_, hd,
    fun negative rest hrest => ?_⟩
  · rw [hlayout, hwhole, List.cons_append]
  · have hread := number_eq limit negative fraction? exponent? hlays.isWhole hlays.isDigits hrest
    rw [hlays.isFloat, if_neg (by decide), hlays.sameValue, hvalue,
      Binary64.ofDecimal?_of_readsAs hreads hlt negative, hwhole] at hread
    rw [← List.cons_append, List.append_assoc, List.append_assoc]
    exact hread

/-- A number is spelled by its shortest decimal text. -/
theorem spells_toText (limit : ℕ) (x : Binary64) : Spells limit x.toText (.float x) := by
  obtain ⟨negative, code, hlt⟩ := x
  by_cases hzero : code = 0
  · subst hzero
    refine ⟨negative, '0', ['.', '0'], ?_, by decide, fun rest hrest => ?_⟩
    · simp [Binary64.toText, Binary64.isZero]
    · have hfraction : ∀ fraction ∈ some ['0'], IsDigits fraction := by
        rintro fraction ⟨⟩
        exact isDigits_ofNat 0
      exact number_eq limit negative (some ['0']) none (isWhole_ofNat 0) hfraction hrest
  · have hpos : 0 < code := Nat.pos_of_ne_zero hzero
    obtain ⟨c, tail, hlayout, hc, hread⟩ := number_magnitude limit hpos hlt rfl
    refine ⟨negative, c, tail, ?_, hc, hread negative⟩
    have hnonzero : (code == 0) = false := by simpa using hzero
    simp only [Binary64.toText, Binary64.isZero, hnonzero]
    rw [← hlayout]
    rfl

end Spelled

end Lexicon.Json
