import Lexicon.Script.Hangul
import Mathlib.Data.List.Basic
import Mathlib.Data.List.Nodup

/-! Syllables found again in a jamo text. A syllable's own jamo are taken together again whenever
what follows cannot be drawn into it, and jamo that come from another syllable or from outside the
script never can. -/
namespace Lexicon.Hangul

section Compounds

variable {ks : List Compound} {c d w : Char}

theorem parts_eq (ks : List Compound) (c : Char) :
    parts ks c = [c] ∨ ∃ k ∈ ks, k.whole = c ∧ parts ks c = [k.first, k.second] := by
  unfold parts
  split
  · next k hk =>
    exact .inr ⟨k, List.mem_of_find?_eq_some hk, by simpa using List.find?_some hk, rfl⟩
  · exact .inl rfl

theorem exists_of_combine?_eq_some (h : combine? ks c d = some w) :
    ∃ k ∈ ks, k.first = c ∧ k.second = d ∧ k.whole = w := by
  obtain ⟨k, hk, rfl⟩ := Option.map_eq_some_iff.1 h
  have hcd : k.first = c ∧ k.second = d := by simpa using List.find?_some hk
  exact ⟨k, List.mem_of_find?_eq_some hk, hcd.1, hcd.2, rfl⟩

theorem combine?_of_mem_compoundVowels :
    ∀ k ∈ compoundVowels, combine? compoundVowels k.first k.second = some k.whole := by
  decide +kernel

theorem combine?_of_mem_clusters :
    ∀ k ∈ clusters, combine? clusters k.first k.second = some k.whole := by
  decide +kernel

theorem isVowel_of_mem_compoundVowels :
    ∀ k ∈ compoundVowels, isVowel k.first = true ∧ isVowel k.second = true := by
  decide +kernel

theorem isTrailing_of_mem_clusters :
    ∀ k ∈ clusters, isTrailing k.first = true ∧ isTrailing k.second = true := by
  decide +kernel

end Compounds

theorem isVowel_eq_false_of_leading : ∀ c ∈ leading, isVowel c = false := by
  have hall : leading.all (fun c => !isVowel c) = true := by decide +kernel
  exact fun c hc => (Bool.not_eq_true' _).mp (List.all_eq_true.1 hall c hc)

theorem isVowel_eq_false_of_trailing : ∀ c ∈ trailing, isVowel c = false := by
  have hall : trailing.all (fun c => !isVowel c) = true := by decide +kernel
  exact fun c hc => (Bool.not_eq_true' _).mp (List.all_eq_true.1 hall c hc)

theorem isCompatibilityJamo_of_mem :
    ∀ c ∈ leading ++ vowels ++ trailing, isCompatibilityJamo c = true :=
  List.all_eq_true.1 (by decide +kernel)

theorem isVowel_eq_false_of_isTrailing {c : Char} (h : isTrailing c = true) : isVowel c = false :=
  isVowel_eq_false_of_trailing c (of_decide_eq_true h)

/-- A text that cannot be drawn into a syllable before it: no vowel stands first, and a consonant
that stands first has a vowel of its own. -/
structure IsClear (s : Text) : Prop where
  noVowel : startsWithVowel s = false
  ownVowel : ∀ c rest, s = c :: rest → isTrailing c = true → startsWithVowel rest = true

theorem isClear_nil : IsClear [] := ⟨rfl, fun _ _ h => absurd h (by simp)⟩

section Clear

variable {rest : Text}

/-- The jamo of a vowel are joined again when no vowel follows. -/
theorem takeVowel_parts {vowel : Char} (hvowel : vowel ∈ vowels)
    (hrest : startsWithVowel rest = false) :
    ∃ first tail, parts compoundVowels vowel = first :: tail ∧ isVowel first = true ∧
      takeVowel first (tail ++ rest) = (vowel, rest) := by
  rcases parts_eq compoundVowels vowel with hparts | ⟨k, hk, rfl, hparts⟩
  · refine ⟨vowel, [], hparts, decide_eq_true hvowel, ?_⟩
    cases rest with
    | nil => rfl
    | cons d rest =>
      have hnone : combine? compoundVowels vowel d = none := by
        by_contra hsome
        obtain ⟨w, hw⟩ := Option.ne_none_iff_exists'.1 hsome
        obtain ⟨k, hk, -, rfl, -⟩ := exists_of_combine?_eq_some hw
        have hvowel := (isVowel_of_mem_compoundVowels k hk).2
        simp [startsWithVowel, hvowel] at hrest
      simp only [List.nil_append, takeVowel, hnone]
  · refine ⟨k.first, [k.second], hparts, (isVowel_of_mem_compoundVowels k hk).1, ?_⟩
    simp only [List.cons_append, List.nil_append, takeVowel, combine?_of_mem_compoundVowels k hk]

/-- Nothing closes a syllable before a clear text. -/
theorem takeClosing_eq_none (h : IsClear rest) : takeClosing rest = (none, rest) := by
  cases rest with
  | nil => rfl
  | cons c rest =>
    have hc : (isTrailing c && !startsWithVowel rest) = false := by
      by_cases hc : isTrailing c = true
      · simp [h.ownVowel c rest rfl hc]
      · simp [hc]
    simp [takeClosing, hc]

/-- The jamo of an ending are joined again before a clear text. -/
theorem takeClosing_parts {closing : Char} (hclosing : closing ∈ trailing) (h : IsClear rest) :
    takeClosing (parts clusters closing ++ rest) = (some closing, rest) := by
  rcases parts_eq clusters closing with hparts | ⟨k, hk, rfl, hparts⟩
  · have htrailing : isTrailing closing = true := decide_eq_true hclosing
    rw [hparts]
    cases rest with
    | nil => simp [takeClosing, htrailing, startsWithVowel]
    | cons d after =>
      simp only [List.cons_append, List.nil_append, takeClosing, htrailing, h.noVowel,
        Bool.not_false, Bool.and_true, if_true]
      split
      · next cluster hcluster =>
        obtain ⟨k, hk, -, rfl, -⟩ := exists_of_combine?_eq_some hcluster
        have hafter := h.ownVowel _ after rfl (isTrailing_of_mem_clusters k hk).2
        rw [if_pos hafter]
      · rfl
  · obtain ⟨hfirst, hsecond⟩ := isTrailing_of_mem_clusters k hk
    have hvowel : startsWithVowel (k.second :: rest) = false :=
      isVowel_eq_false_of_isTrailing hsecond
    rw [hparts]
    simp [takeClosing, hfirst, hvowel, combine?_of_mem_clusters k hk, h.noVowel]

/-- The jamo of an optional ending. -/
def closingParts (closing : Option Char) : Text := closing.toList.flatMap (parts clusters)

theorem takeClosing_closingParts {closing : Option Char} (hclosing : ∀ t ∈ closing, t ∈ trailing)
    (h : IsClear rest) : takeClosing (closingParts closing ++ rest) = (closing, rest) := by
  cases closing with
  | none => exact takeClosing_eq_none h
  | some t => simpa [closingParts] using takeClosing_parts (hclosing t rfl) h

theorem startsWithVowel_closingParts {closing : Option Char}
    (hclosing : ∀ t ∈ closing, t ∈ trailing) (h : IsClear rest) :
    startsWithVowel (closingParts closing ++ rest) = false := by
  cases closing with
  | none => exact h.noVowel
  | some t =>
    have ht := hclosing t rfl
    rcases parts_eq clusters t with hparts | ⟨k, hk, -, hparts⟩
    · simpa [closingParts, hparts, startsWithVowel] using isVowel_eq_false_of_trailing t ht
    · simpa [closingParts, hparts, startsWithVowel] using
        isVowel_eq_false_of_isTrailing (isTrailing_of_mem_clusters k hk).1

/-- The jamo of a syllable are taken as that syllable before a clear text. -/
theorem takeSyllable?_parts {opening vowel : Char} {closing : Option Char}
    (hopening : opening ∈ leading) (hvowel : vowel ∈ vowels)
    (hclosing : ∀ t ∈ closing, t ∈ trailing) (h : IsClear rest) :
    takeSyllable? (opening :: parts compoundVowels vowel ++ closingParts closing ++ rest) =
      some (syllable opening vowel closing, rest) := by
  obtain ⟨first, tail, hparts, hfirst, htake⟩ :=
    takeVowel_parts hvowel (startsWithVowel_closingParts hclosing h)
  have hleading : isLeading opening = true := decide_eq_true hopening
  simp only [hparts, List.cons_append, List.append_assoc, takeSyllable?, hleading, hfirst, htake,
    takeClosing_closingParts hclosing h, Bool.and_self, if_true]

end Clear

theorem isSyllable_iff {c : Char} :
    isSyllable c = true ↔ firstSyllable ≤ c.toNat ∧ c.toNat ≤ lastSyllable := by
  simp [isSyllable]

/-- There is a syllable for each of 19 openings, 21 vowels and 28 endings. -/
theorem sub_firstSyllable_lt {c : Char} (h : isSyllable c = true) :
    c.toNat - firstSyllable < 19 * 21 * 28 := by
  obtain ⟨-, hlast⟩ := isSyllable_iff.1 h
  rw [lastSyllable] at hlast
  rw [firstSyllable]
  omega

/-- The parts of the syllable at an index, and the syllable they make. -/
theorem exists_jamoAt_eq {index : ℕ} (h : index < 19 * 21 * 28) :
    ∃ opening ∈ leading, ∃ vowel ∈ vowels, ∃ closing : Option Char, (∀ t ∈ closing, t ∈ trailing) ∧
      jamoAt index = opening :: parts compoundVowels vowel ++ closingParts closing ∧
      syllable opening vowel closing = Char.ofNat (firstSyllable + index) := by
  have hopening : index / 28 / 21 < leading.length := by
    have : leading.length = 19 := rfl
    omega
  have hvowel : index / 28 % 21 < vowels.length := Nat.mod_lt _ (by decide)
  have hopeningIdx : leading.idxOf leading[index / 28 / 21] = index / 28 / 21 :=
    List.Nodup.idxOf_getElem (by decide +kernel) _ hopening
  have hvowelIdx : vowels.idxOf vowels[index / 28 % 21] = index / 28 % 21 :=
    List.Nodup.idxOf_getElem (by decide +kernel) _ hvowel
  refine ⟨_, List.getElem_mem hopening, _, List.getElem_mem hvowel, ?_⟩
  by_cases hzero : index % 28 = 0
  · refine ⟨none, by simp, ?_, ?_⟩
    · simp [jamoAt, hzero, closingParts, List.getElem?_eq_getElem hopening,
        List.getElem?_eq_getElem hvowel]
    · simp only [syllable, hopeningIdx, hvowelIdx]
      exact congrArg Char.ofNat (by omega)
  · have hclosing : index % 28 - 1 < trailing.length := by
      have : trailing.length = 27 := rfl
      omega
    have hclosingIdx : trailing.idxOf trailing[index % 28 - 1] = index % 28 - 1 :=
      List.Nodup.idxOf_getElem (by decide +kernel) _ hclosing
    refine ⟨some trailing[index % 28 - 1], ?_, ?_, ?_⟩
    · intro t ht
      rw [← Option.some.inj ht]
      exact List.getElem_mem hclosing
    · simp [jamoAt, hzero, closingParts, List.getElem?_eq_getElem hopening,
        List.getElem?_eq_getElem hvowel, List.getElem?_eq_getElem hclosing]
    · simp only [syllable, hopeningIdx, hvowelIdx, hclosingIdx]
      exact congrArg Char.ofNat (by omega)

section Assemble

variable {s rest : Text} {c : Char}

theorem assemble_of_takeSyllable? (h : takeSyllable? s = some (c, rest)) :
    assemble s = c :: assemble rest := by
  rw [assemble]
  split
  · next h' =>
    rw [h, Option.some.injEq, Prod.mk.injEq] at h'
    rw [h'.1, h'.2]
  · next h' => exact absurd (h.symm.trans h') (by simp)

theorem assemble_nil : assemble [] = [] := by
  rw [assemble]
  rfl

/-- A character that no syllable is taken at stays. -/
theorem assemble_cons_of_takeSyllable? (h : takeSyllable? (c :: s) = none) :
    assemble (c :: s) = c :: assemble s := by
  rw [assemble]
  split
  · next h' => exact absurd (h.symm.trans h') (by simp)
  · rfl

theorem assemble_cons_of_not_isLeading (h : isLeading c = false) :
    assemble (c :: s) = c :: assemble s := by
  refine assemble_cons_of_takeSyllable? ?_
  cases s <;> simp [takeSyllable?, h]

end Assemble

theorem not_mem_of_isCompatibilityJamo_eq_false {c : Char} (h : isCompatibilityJamo c = false) :
    isLeading c = false ∧ isVowel c = false ∧ isTrailing c = false := by
  have hc : c ∉ leading ++ vowels ++ trailing := fun hmem => by
    simp [isCompatibilityJamo_of_mem c hmem] at h
  simp only [List.mem_append, not_or] at hc
  exact ⟨decide_eq_false hc.1.1, decide_eq_false hc.1.2, decide_eq_false hc.2⟩

theorem disassemble_append (s t : Text) : disassemble (s ++ t) = disassemble s ++ disassemble t :=
  List.flatMap_append

/-- The jamo of a text without typed jamo can never be drawn into a syllable before them. -/
theorem isClear_disassemble_append {s t : Text} (h : ∀ c ∈ s, isCompatibilityJamo c = false)
    (ht : IsClear t) : IsClear (disassemble s ++ t) := by
  cases s with
  | nil => exact ht
  | cons c s =>
    by_cases hc : isSyllable c = true
    · obtain ⟨opening, hopening, vowel, hvowel, closing, hclosing, hjamo, -⟩ :=
        exists_jamoAt_eq (sub_firstSyllable_lt hc)
      obtain ⟨first, tail, hparts, hfirst, -⟩ :=
        takeVowel_parts hvowel (show startsWithVowel [] = false from rfl)
      have hs : disassemble (c :: s) ++ t =
          opening :: first :: (tail ++ closingParts closing ++ disassemble s ++ t) := by
        simp [disassemble, hc, hjamo, hparts]
      rw [hs]
      refine ⟨isVowel_eq_false_of_leading opening hopening, ?_⟩
      rintro d rest ⟨rfl, rfl⟩ -
      exact hfirst
    · obtain ⟨-, hvowel, htrailing⟩ :=
        not_mem_of_isCompatibilityJamo_eq_false (h c List.mem_cons_self)
      have hs : disassemble (c :: s) ++ t = c :: (disassemble s ++ t) := by simp [disassemble, hc]
      rw [hs]
      refine ⟨hvowel, ?_⟩
      rintro d rest ⟨rfl, rfl⟩ hd
      simp [htrailing] at hd

/-- The jamo of a text without typed jamo are composed to that text, whatever clear text follows. -/
theorem assemble_disassemble_append {s t : Text} (h : ∀ c ∈ s, isCompatibilityJamo c = false)
    (ht : IsClear t) : assemble (disassemble s ++ t) = s ++ assemble t := by
  induction s with
  | nil => rfl
  | cons c s ih =>
    have hs : ∀ d ∈ s, isCompatibilityJamo d = false := fun d hd => h d (List.mem_cons_of_mem c hd)
    by_cases hc : isSyllable c = true
    · obtain ⟨opening, hopening, vowel, hvowel, closing, hclosing, hjamo, hsyllable⟩ :=
        exists_jamoAt_eq (sub_firstSyllable_lt hc)
      have hchar : syllable opening vowel closing = c := by
        rw [hsyllable, Nat.add_sub_cancel' (isSyllable_iff.1 hc).1, Char.ofNat_toNat]
      have hsplit : disassemble (c :: s) ++ t =
          opening :: parts compoundVowels vowel ++ closingParts closing ++ (disassemble s ++ t) :=
        by simp [disassemble, hc, hjamo]
      have htake : takeSyllable? (disassemble (c :: s) ++ t) = some (c, disassemble s ++ t) := by
        rw [hsplit, takeSyllable?_parts hopening hvowel hclosing (isClear_disassemble_append hs ht),
          hchar]
      rw [assemble_of_takeSyllable? htake, ih hs, List.cons_append]
    · obtain ⟨hleading, -, -⟩ := not_mem_of_isCompatibilityJamo_eq_false (h c List.mem_cons_self)
      have hcons : disassemble (c :: s) ++ t = c :: (disassemble s ++ t) := by
        simp [disassemble, hc]
      rw [hcons, assemble_cons_of_not_isLeading hleading, ih hs, List.cons_append]

/-- A text without typed jamo is composed again from its jamo. -/
theorem assemble_disassemble {s : Text} (h : ∀ c ∈ s, isCompatibilityJamo c = false) :
    assemble (disassemble s) = s := by
  simpa [assemble_nil] using assemble_disassemble_append h isClear_nil

/-- Clusters, a consonant next to one it could form a cluster with, a compound vowel at the end and
other characters between syllables. -/
theorem assemble_disassemble_mixed :
    (∀ c ∈ "닭각사 a과!".toList, isCompatibilityJamo c = false) ∧
      assemble (disassemble "닭각사 a과!".toList) = "닭각사 a과!".toList := by
  have hall : "닭각사 a과!".toList.all (fun c => !isCompatibilityJamo c) = true := by decide +kernel
  have h : ∀ c ∈ "닭각사 a과!".toList, isCompatibilityJamo c = false :=
    fun c hc => (Bool.not_eq_true' _).mp (List.all_eq_true.1 hall c hc)
  exact ⟨h, assemble_disassemble h⟩

end Lexicon.Hangul
