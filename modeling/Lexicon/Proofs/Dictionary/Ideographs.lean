import Lexicon.Dictionary.Search
import Lexicon.Proofs.Language.Variants
import Lexicon.Proofs.Language.Shipped

/-! Ideographs along derivations. A rule whose new ending has no ideograph that the old one lacks adds none to
a text, so however many of them are applied, the ideographs of a word stand in the text that it came from;
normal forms leave ideographs alone. Hence the candidates of a Japanese text pass the test for ideographs. -/
namespace Lexicon

/-- A rule that replaces an ending by one with no ideographs but those of the old one. -/
def Kind.keepsIdeographs : Kind Text → Bool
  | suffix inflected deinflected => deinflected.all fun c => !Kana.isIdeograph c || c ∈ inflected
  | _ => false

/-- Whether some rule leads from one form to another, rule by rule. -/
theorem Form.rewrites_iff {rules : List (Rule Text)} {a b : Form Text} :
    Form.Rewrites rules a b ↔
      (rules.any fun r => r.admits a.conditions && r.kind.deinflect a.text == some b.text &&
        b.conditions == r.conditionsOut) = true := by
  simp only [Form.Rewrites, List.any_eq_true, Bool.and_eq_true, Rule.admits_iff, beq_iff_eq,
    and_assoc]
  rfl

section Ideographs

variable {rs : RuleSet Text} {s t w : Text} {c : Char}

theorem Kind.mem_of_isIdeograph {k : Kind Text} (hk : k.keepsIdeographs = true)
    (h : k.deinflect s = some t) (hc : c ∈ t) (hideograph : Kana.isIdeograph c = true) : c ∈ s := by
  cases k with
  | suffix inflected deinflected =>
    obtain ⟨stem, rfl, rfl⟩ := deinflect_suffix_eq_some_iff.1 h
    rcases List.mem_append.1 hc with hc | hc
    · exact List.mem_append_left _ hc
    · have hcovered := List.all_eq_true.1 hk c hc
      rw [hideograph] at hcovered
      exact List.mem_append_right _ (by simpa using hcovered)
  | _ => cases hk

/-- Along a chain no ideograph is added. -/
theorem Chain.mem_of_isIdeograph (hrules : ∀ r ∈ rs.rules, r.kind.keepsIdeographs = true)
    {places : List ℕ} {d : Derivation Text} (h : Chain rs.rules s places d) (hc : c ∈ d.text)
    (hideograph : Kana.isIdeograph c = true) : c ∈ s := by
  induction h with
  | source => exact hc
  | step _ hk hstep ih =>
    have hkeeps := hrules _ (List.mem_of_getElem? hk)
    exact ih (Kind.mem_of_isIdeograph hkeeps hstep.text_eq hc hideograph)

theorem RuleSet.mem_of_isIdeograph_of_mem_deinflections
    (hrules : ∀ r ∈ rs.rules, r.kind.keepsIdeographs = true) {words : List Text}
    (h : rs.deinflections s = .ok words) (hw : w ∈ words) (hc : c ∈ w)
    (hideograph : Kana.isIdeograph c = true) : c ∈ s := by
  obtain ⟨ds, hds, rfl⟩ := deinflections_eq_ok_iff.1 h
  obtain ⟨d, hd, rfl⟩ := List.mem_map.1 (mem_distinct.1 hw)
  obtain ⟨places, hchain, -⟩ := (mem_derivations_iff hds).1 hd
  exact hchain.mem_of_isIdeograph hrules hc hideograph

end Ideographs

namespace Language

theorem keepsIdeographs_japaneseRules :
    ∀ r ∈ japaneseRules.rules, r.kind.keepsIdeographs = true :=
  List.all_eq_true.1 (by decide +kernel)

/-- The variants of a Japanese text have its ideographs, each as often and in the same order. -/
theorem filter_isIdeograph_of_mem_variants {s v : Text} (h : v ∈ Language.japanese.variants s) :
    v.filter Kana.isIdeograph = s.filter Kana.isIdeograph := by
  have hspellings : Language.japanese.spellings s =
      [s, Kana.toHiragana s, Kana.expandMarks (Kana.toHiragana s)] := rfl
  have hhiragana := Kana.filter_isIdeograph_toHiragana s
  rw [variants, mem_distinct, hspellings] at h
  rcases List.mem_cons.1 h with rfl | h
  · rfl
  · rcases List.mem_cons.1 h with rfl | h
    · exact hhiragana
    · rw [List.mem_singleton.1 h, Kana.expandMarks, Kana.filter_isIdeograph_expandAfter, hhiragana]

theorem mem_of_isIdeograph_of_mem_deinflect {v w : Text} {c : Char}
    (hw : w ∈ Language.japanese.deinflect v) (hc : c ∈ w)
    (hideograph : Kana.isIdeograph c = true) : c ∈ v := by
  have hwords := deinflections_eq_ok .japanese v
  exact RuleSet.mem_of_isIdeograph_of_mem_deinflections keepsIdeographs_japaneseRules hwords hw hc
    hideograph

end Language

namespace Search

/-- The test for ideographs discards no form. Every candidate of a Japanese text, made by the rules that come
with the language, has only ideographs that occur in the text, so it is valid. -/
theorem isValid_of_mem_candidates (s : Text) :
    ∀ candidate ∈ candidates Language.deinflect .japanese s,
      (∀ c ∈ candidate.word, Kana.isIdeograph c = true → c ∈ s) ∧
        isValid .japanese s candidate.word = true := by
  intro candidate hcandidate
  have hoccurs : ∀ c ∈ candidate.word, Kana.isIdeograph c = true → c ∈ s := by
    rw [candidates, List.mem_cons] at hcandidate
    rcases hcandidate with rfl | hcandidate
    · exact fun c hc _ => hc
    · obtain ⟨v, hv, hcandidate⟩ := List.mem_flatMap.1 hcandidate
      obtain ⟨w, hw, rfl⟩ := List.mem_map.1 hcandidate
      intro c hc hideograph
      have hvariant : c ∈ v := Language.mem_of_isIdeograph_of_mem_deinflect
        (List.mem_of_mem_filter hw) hc hideograph
      have hfilter : c ∈ v.filter Kana.isIdeograph := List.mem_filter.2 ⟨hvariant, hideograph⟩
      rw [Language.filter_isIdeograph_of_mem_variants hv] at hfilter
      exact List.mem_of_mem_filter hfilter
  refine ⟨hoccurs, ?_⟩
  unfold isValid
  simp only [Bool.or_eq_true, List.all_eq_true, Bool.not_eq_true', decide_eq_true_iff]
  refine .inr fun c hc => ?_
  by_cases hideograph : Kana.isIdeograph c = true
  · exact .inr (hoccurs c hc hideograph)
  · exact .inl (by simpa using hideograph)

/-- A form that the rules reach is a candidate, unless it is empty. -/
theorem mem_candidates_of_rewrites {s w : Text} {conditions : Mask} (hw : w ≠ [])
    (h : Relation.ReflTransGen (Form.Rewrites Language.japaneseRules.rules) ⟨s, 0⟩ ⟨w, conditions⟩) :
    ⟨w, s.length, "deinflect"⟩ ∈ candidates Language.deinflect .japanese s := by
  have hdeinflect : w ∈ Language.japanese.deinflect s := by
    have hwords := Language.deinflections_eq_ok .japanese s
    obtain ⟨ds, hds, hdistinct⟩ := RuleSet.deinflections_eq_ok_iff.1 hwords
    obtain ⟨places, d, hchain, hform⟩ :=
      exists_guardedChain_of_rewrites (Language.distinct_ruleSet .japanese) h
    have hd : d ∈ ds := (RuleSet.mem_derivations_iff hds).2 ⟨places, hchain⟩
    have htext : d.text = w := congrArg Form.text hform
    rw [← hdistinct, mem_distinct, ← htext]
    exact List.mem_map_of_mem hd
  have hvariant : s ∈ Language.japanese.variants s :=
    List.mem_of_head? (Language.head?_variants .japanese s)
  refine List.mem_cons_of_mem _ (List.mem_flatMap.2 ⟨s, hvariant, ?_⟩)
  exact List.mem_map.2 ⟨w, List.mem_filter.2 ⟨hdeinflect, by simpa using hw⟩, rfl⟩

/-- The polite past of a verb whose rules carry an ideograph on both sides. -/
theorem isValid_of_mem_candidates_came :
    (⟨"来る".toList, 4, "deinflect"⟩ : Candidate) ∈
        candidates Language.deinflect .japanese "来ました".toList ∧
      (∀ c ∈ "来る".toList, Kana.isIdeograph c = true → c ∈ "来ました".toList) ∧
      isValid .japanese "来ました".toList "来る".toList = true := by
  have hpast : Form.Rewrites Language.japaneseRules.rules ⟨"来ました".toList, 0⟩ ⟨"来ます".toList, 64⟩ :=
    Form.rewrites_iff.2 (by decide +kernel)
  have hpolite : Form.Rewrites Language.japaneseRules.rules ⟨"来ます".toList, 64⟩ ⟨"来る".toList, 4⟩ :=
    Form.rewrites_iff.2 (by decide +kernel)
  have hmem := mem_candidates_of_rewrites (List.cons_ne_nil _ _) (.tail (.single hpast) hpolite)
  exact ⟨hmem, isValid_of_mem_candidates "来ました".toList _ hmem⟩

end Search
end Lexicon
