import Lexicon.Script.Kana
import Mathlib.Data.List.Basic

/-! Kana and ideographs in the normal forms of a text. Katakana become hiragana and marks become vowels, each
once: what is written in their place is neither a katakana nor a mark, and no ideograph comes or goes. -/
namespace Lexicon.Kana

variable {c d : Char} {s : Text} {previous : Option Char}

theorem isKatakana_iff : isKatakana c = true ↔ 0x30A1 ≤ c.toNat ∧ c.toNat ≤ 0x30F6 := by
  rw [isKatakana, Bool.and_eq_true, decide_eq_true_iff, decide_eq_true_iff]

theorem isIdeograph_iff : isIdeograph c = true ↔ 0x4E00 ≤ c.toNat ∧ c.toNat ≤ 0x9FFF := by
  rw [isIdeograph, Bool.and_eq_true, decide_eq_true_iff, decide_eq_true_iff]
  rfl

section Hiragana

theorem hiraganaOf_of_not_isKatakana (h : ¬ isKatakana c = true) : hiraganaOf c = c := if_neg h

theorem toNat_hiraganaOf (h : isKatakana c = true) : (hiraganaOf c).toNat = c.toNat - 0x60 := by
  obtain ⟨hfirst, hlast⟩ := isKatakana_iff.1 h
  have hvalid : (c.toNat - 0x60).isValidChar := .inl (by omega)
  rw [hiraganaOf, if_pos h, Char.ofNat, dif_pos hvalid]
  rfl

theorem not_isKatakana_hiraganaOf (c : Char) : ¬ isKatakana (hiraganaOf c) = true := by
  by_cases h : isKatakana c = true
  · obtain ⟨hfirst, hlast⟩ := isKatakana_iff.1 h
    rw [isKatakana_iff, toNat_hiraganaOf h]
    omega
  · rwa [hiraganaOf_of_not_isKatakana h]

theorem hiraganaOf_eq_self_of_isIdeograph (h : isIdeograph (hiraganaOf c) = true) :
    hiraganaOf c = c := by
  refine hiraganaOf_of_not_isKatakana fun hkatakana => ?_
  rw [isIdeograph_iff, toNat_hiraganaOf hkatakana] at h
  rw [isKatakana_iff] at hkatakana
  omega

theorem not_isKatakana_of_mem_toHiragana (h : c ∈ toHiragana s) : ¬ isKatakana c = true := by
  obtain ⟨d, -, rfl⟩ := List.mem_map.1 h
  exact not_isKatakana_hiraganaOf d

theorem toHiragana_eq_self (h : ∀ c ∈ s, ¬ isKatakana c = true) : toHiragana s = s := by
  refine (List.map_congr_left fun c hc => ?_).trans (List.map_id s)
  exact hiraganaOf_of_not_isKatakana (h c hc)

theorem toHiragana_toHiragana (s : Text) : toHiragana (toHiragana s) = toHiragana s :=
  toHiragana_eq_self fun _ => not_isKatakana_of_mem_toHiragana

theorem isIdeograph_hiraganaOf (c : Char) : isIdeograph (hiraganaOf c) = isIdeograph c := by
  by_cases h : isKatakana c = true
  · rw [Bool.eq_iff_iff, isIdeograph_iff, isIdeograph_iff, toNat_hiraganaOf h]
    rw [isKatakana_iff] at h
    omega
  · rw [hiraganaOf_of_not_isKatakana h]

theorem filter_isIdeograph_toHiragana (s : Text) :
    (toHiragana s).filter isIdeograph = s.filter isIdeograph := by
  induction s with
  | nil => rfl
  | cons c s ih =>
    have hcons : toHiragana (c :: s) = hiraganaOf c :: toHiragana s := rfl
    by_cases h : isIdeograph c = true
    · have hself : hiraganaOf c = c :=
        hiraganaOf_eq_self_of_isIdeograph ((isIdeograph_hiraganaOf c).trans h)
      rw [hcons, hself, List.filter_cons_of_pos h, List.filter_cons_of_pos h, ih]
    · have hwritten : ¬ isIdeograph (hiraganaOf c) = true := by rwa [isIdeograph_hiraganaOf]
      rw [hcons, List.filter_cons_of_neg hwritten, List.filter_cons_of_neg h, ih]

end Hiragana

section Marks

/-- The vowels that are written for marks. -/
def markVowels : List Char := vowelRows.map (·.2)

theorem mem_markVowels_of_vowelOf {kana : Text} (h : vowelOf kana = some c) : c ∈ markVowels := by
  obtain ⟨row, hrow, rfl⟩ := Option.map_eq_some_iff.1 h
  exact List.mem_map_of_mem (List.mem_of_find?_eq_some hrow)

theorem markVowels_plain :
    ∀ v ∈ markVowels, v ≠ prolongedMark ∧ ¬ isKatakana v = true ∧ ¬ isIdeograph v = true := by
  have hall : (markVowels.all fun v =>
      v != prolongedMark && !isKatakana v && !isIdeograph v) = true := by decide
  intro v hv
  simpa [and_assoc] using List.all_eq_true.1 hall v hv

/-- What is written for a character behind another one. -/
def writtenAfter (previous : Option Char) (c : Char) : Char :=
  (if c = prolongedMark then previous.bind fun p => vowelOf [p] else none).getD c

theorem expandAfter_cons (previous : Option Char) (c : Char) (s : Text) :
    expandAfter previous (c :: s) =
      writtenAfter previous c :: expandAfter (some (writtenAfter previous c)) s := rfl

/-- A character stays, or it is a mark and a vowel is written for it. -/
theorem writtenAfter_cases (previous : Option Char) (c : Char) :
    writtenAfter previous c = c ∨ c = prolongedMark ∧ writtenAfter previous c ∈ markVowels := by
  unfold writtenAfter
  split
  · next hmark =>
    cases hvowel : previous.bind fun p => vowelOf [p] with
    | none => exact .inl rfl
    | some v =>
      obtain ⟨p, -, hv⟩ := Option.bind_eq_some_iff.1 hvowel
      exact .inr ⟨hmark, mem_markVowels_of_vowelOf hv⟩
  · exact .inl rfl

/-- What is written stays: a vowel is no mark, and a mark without a vowel before it has none again. -/
theorem writtenAfter_writtenAfter (previous : Option Char) (c : Char) :
    writtenAfter previous (writtenAfter previous c) = writtenAfter previous c := by
  rcases writtenAfter_cases previous c with hself | ⟨-, hvowel⟩
  · rw [hself, hself]
  · have hplain := (markVowels_plain _ hvowel).1
    generalize writtenAfter previous c = v at hplain
    rw [writtenAfter, if_neg hplain, Option.getD_none]

/-- The second pass meets behind every character what the first pass left there. -/
theorem expandAfter_idem (previous : Option Char) (s : Text) :
    expandAfter previous (expandAfter previous s) = expandAfter previous s := by
  induction s generalizing previous with
  | nil => rfl
  | cons c s ih => rw [expandAfter_cons, expandAfter_cons, writtenAfter_writtenAfter, ih]

theorem expandMarks_idem (s : Text) : expandMarks (expandMarks s) = expandMarks s :=
  expandAfter_idem none s

theorem mem_or_mem_of_mem_expandAfter (h : c ∈ expandAfter previous s) :
    c ∈ s ∨ c ∈ markVowels := by
  induction s generalizing previous with
  | nil => cases h
  | cons d s ih =>
    rw [expandAfter_cons, List.mem_cons] at h
    rcases h with rfl | h
    · rcases writtenAfter_cases previous d with hself | ⟨-, hvowel⟩
      · exact .inl (List.mem_cons.2 (.inl hself))
      · exact .inr hvowel
    · exact (ih h).imp_left (List.mem_cons_of_mem d)

/-- Vowels are written in hiragana. -/
theorem toHiragana_expandMarks (h : ∀ c ∈ s, ¬ isKatakana c = true) :
    toHiragana (expandMarks s) = expandMarks s := by
  refine toHiragana_eq_self fun c hc => ?_
  rcases mem_or_mem_of_mem_expandAfter hc with hc | hc
  · exact h c hc
  · exact (markVowels_plain c hc).2.1

theorem filter_isIdeograph_expandAfter (previous : Option Char) (s : Text) :
    (expandAfter previous s).filter isIdeograph = s.filter isIdeograph := by
  induction s generalizing previous with
  | nil => rfl
  | cons c s ih =>
    rw [expandAfter_cons]
    rcases writtenAfter_cases previous c with hself | ⟨rfl, hvowel⟩
    · rw [hself, List.filter_cons, List.filter_cons, ih]
    · have hmark : ¬ isIdeograph prolongedMark = true := by decide
      rw [List.filter_cons_of_neg (markVowels_plain _ hvowel).2.2, List.filter_cons_of_neg hmark, ih]

end Marks

end Lexicon.Kana
