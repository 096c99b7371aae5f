import Lexicon.Deinflection.Kind
import Mathlib.Data.List.Basic

/-! By how much a rule can make a text longer. A rule for whole words gives one text only, and a phrase
loses at least what stands between its words, so only replaced affixes count. -/
namespace Lexicon

variable {γ : Type} [Letter γ]

namespace TextOf

theorem length_splitWord_le (s : TextOf γ) :
    (splitWord s).1.length + (splitWord s).2.flatten.length + (splitWord s).2.length ≤ s.length := by
  induction s with
  | nil => simp [splitWord]
  | cons c s ih =>
    by_cases hc : Letter.isBlank c = true
    · cases hword : (splitWord s).1 with
      | nil =>
        simp only [hword, List.length_nil, Nat.zero_add] at ih
        simp only [splitWord, hc, hword, if_true, List.isEmpty_nil, List.length_nil, List.length_cons]
        omega
      | cons d word =>
        simp only [hword, List.length_cons] at ih
        simp only [splitWord, hc, hword, if_true, List.isEmpty_cons, Bool.false_eq_true, if_false,
          List.flatten_cons, List.length_append, List.length_nil, List.length_cons]
        omega
    · simp only [splitWord, hc, Bool.false_eq_true, if_false, List.length_cons]
      omega

/-- The words of a text and one blank before each but the first fit into it. -/
theorem length_words_le {s first : TextOf γ} {rest : List (TextOf γ)} (h : words s = first :: rest) :
    first.length + rest.flatten.length + rest.length ≤ s.length := by
  have hle := length_splitWord_le s
  unfold words at h
  cases hword : (splitWord s).1 with
  | nil =>
    simp only [hword, List.isEmpty_nil, if_true] at h
    simp only [hword, h, List.flatten_cons, List.length_append, List.length_cons,
      List.length_nil] at hle
    omega
  | cons c word =>
    simp only [hword, List.isEmpty_cons, Bool.false_eq_true, if_false, List.cons.injEq] at h
    obtain ⟨rfl, rfl⟩ := h
    simpa [hword] using hle

end TextOf

namespace Phrasal

theorem words_of_verbAndFollower? {s verb follower : TextOf γ}
    (h : verbAndFollower? s = some (verb, follower)) : s.words = [verb, follower] := by
  unfold verbAndFollower? at h
  split at h
  · rename_i v f hwords
    obtain ⟨-, hvf⟩ := Option.ite_none_right_eq_some.1 h
    obtain ⟨rfl, rfl⟩ := Prod.mk.inj (Option.some.inj hvf)
    exact hwords
  · contradiction

theorem length_of_splitVerb? [DecidableEq γ] {s ending stem follower : TextOf γ}
    (h : splitVerb? s ending = some (stem, follower)) :
    stem.length + ending.length + 1 + follower.length ≤ s.length := by
  unfold splitVerb? at h
  split at h
  · rename_i verb f hverb
    obtain ⟨rest, hrest, heq⟩ := Option.map_eq_some_iff.1 h
    obtain ⟨rfl, rfl⟩ := Prod.mk.inj heq
    obtain rfl := TextOf.dropBack?_eq_some_iff.1 hrest
    have hle := TextOf.length_words_le (words_of_verbAndFollower? hverb)
    simp only [List.flatten_cons, List.flatten_nil, List.length_append, List.length_cons,
      List.length_nil] at hle
    omega
  · contradiction

theorem length_of_dropObject? {s t : TextOf γ} (h : dropObject? s = some t) : t.length ≤ s.length := by
  unfold dropObject? at h
  split at h
  · rename_i verb object rest hwords
    split at h
    · rename_i particle more hrest
      obtain ⟨-, ht⟩ := Option.ite_none_right_eq_some.1 h
      obtain rfl := Option.some.inj ht
      obtain rfl : rest = more.reverse ++ [particle] := by
        simpa using congrArg List.reverse hrest
      have hle := TextOf.length_words_le hwords
      simp only [List.flatten_cons, List.flatten_append, List.flatten_nil, List.length_append,
        List.length_cons, List.length_nil] at hle
      simp only [List.length_append, List.length_cons]
      omega
    · contradiction
  · contradiction

end Phrasal

variable [DecidableEq γ]

theorem AffixChange.stem?_eq_some_iff {change : AffixChange (TextOf γ)} {s stem : TextOf γ} :
    change.stem? s = some stem ↔
      s = change.inflectedFront ++ (stem ++ change.inflectedBack) ∧ change.accepts stem = true := by
  simp only [stem?, Option.bind_eq_bind, Option.bind_eq_some_iff, TextOf.dropFront?_eq_some_iff,
    TextOf.dropBack?_eq_some_iff, Option.ite_none_right_eq_some, Option.some.injEq]
  constructor
  · rintro ⟨_, rfl, _, rfl, haccepts, rfl⟩
    exact ⟨rfl, haccepts⟩
  · rintro ⟨rfl, haccepts⟩
    exact ⟨_, rfl, _, rfl, haccepts, rfl⟩

namespace Kind

/-- By how much a rule lengthens the texts it replaces affixes of. -/
def growth : Kind (TextOf γ) → ℕ
  | suffix inflected deinflected => deinflected.length - inflected.length
  | opening inflected deinflected => deinflected.length - inflected.length
  | wholeWord _ _ => 0
  | affix change => (change.deinflectedFront.length + change.deinflectedBack.length) -
      (change.inflectedFront.length + change.inflectedBack.length)
  | phrasalSuffix inflected deinflected => deinflected.length - inflected.length
  | interposedObject => 0

/-- Size of the one text that a rule for whole words gives. -/
def wordSize : Kind (TextOf γ) → ℕ
  | wholeWord _ deinflected => deinflected.length
  | _ => 0

theorem length_deinflect_le {k : Kind (TextOf γ)} {s t : TextOf γ} (h : k.deinflect s = some t) :
    t.length ≤ max (s.length + k.growth) k.wordSize := by
  cases k with
  | suffix inflected deinflected =>
    obtain ⟨stem, rfl, rfl⟩ := deinflect_suffix_eq_some_iff.1 h
    simp only [growth, List.length_append]
    omega
  | opening inflected deinflected =>
    obtain ⟨stem, rfl, rfl⟩ := deinflect_opening_eq_some_iff.1 h
    simp only [growth, List.length_append]
    omega
  | wholeWord inflected deinflected =>
    simp only [deinflect, Option.ite_none_right_eq_some, Option.some.injEq] at h
    obtain ⟨-, rfl⟩ := h
    exact Nat.le_max_right _ _
  | affix change =>
    obtain ⟨stem, hstem, rfl⟩ := Option.map_eq_some_iff.1 h
    obtain ⟨rfl, -⟩ := AffixChange.stem?_eq_some_iff.1 hstem
    simp only [growth, List.length_append]
    omega
  | phrasalSuffix inflected deinflected =>
    simp only [deinflect, Option.map_eq_some_iff, Prod.exists] at h
    obtain ⟨stem, follower, hsplit, rfl⟩ := h
    have hle := Phrasal.length_of_splitVerb? hsplit
    simp only [growth, List.length_append, List.length_cons]
    omega
  | interposedObject =>
    have hle := Phrasal.length_of_dropObject? h
    simp only [growth]
    omega

end Kind
end Lexicon
