import Lexicon.Language.Basic
import Lexicon.Proofs.Deinflection.Comparison
import Lexicon.Deinflection.ValueForm

/-! Text put in front. A rule for endings does behind any front what it does without one, and a step
counts as taken behind the front when it was taken without it. So the longer text, which may carry more
endings, loses no form of the shorter one. -/
namespace Lexicon

section Carries

variable {α : Type} [WordForm α]

/-- A map of forms that loses no rule: it keeps forms apart, a rule makes the image of what it makes, and
a rule that can be put to the image of a form can be put to the form. -/
structure RuleSet.Carries (rs : RuleSet α) (g : α → α) : Prop where
  same_eq : ∀ v w, WordForm.same (g v) (g w) = WordForm.same v w
  deinflect_eq : ∀ r ∈ rs.rules, ∀ v w, WordForm.deinflect r.kind v = some w →
    WordForm.deinflect r.kind (g v) = some (g w)
  fault?_eq : ∀ r ∈ rs.rules, ∀ v, WordForm.fault? r.kind (g v) = none →
    WordForm.fault? r.kind v = none

variable {rs : RuleSet α} {g : α → α} {r : Rule α} {d e : Derivation α} {s : α}

/-- A step from a derivation is one from its image. -/
theorem RuleSet.Carries.extend? (h : rs.Carries g) (hr : r ∈ rs.rules)
    (he : r.extend? d = some e) : r.extend? (d.mapText g) = some (e.mapText g) := by
  obtain ⟨hadmits, htext, hconditions, htrace, hnew⟩ := Rule.extend?_eq_some_iff.1 he
  refine Rule.extend?_eq_some_iff.2
    ⟨hadmits, h.deinflect_eq r hr _ _ htext, hconditions, ?_, ?_⟩
  · rw [Derivation.mapText, htrace]
    rfl
  · have hany := d.any_same_mapText h.same_eq r
    intro f hf hsame
    have htaken := hany.symm.trans (List.any_eq_true.2 ⟨f, hf, hsame⟩)
    obtain ⟨f', hf', hsame'⟩ := List.any_eq_true.1 htaken
    exact hnew f' hf' hsame'

theorem filterMap_sublist_filterMap {β γ : Type} {f f' : β → Option γ} {l : List β}
    (h : ∀ b ∈ l, ∀ c, f b = some c → f' b = some c) : (l.filterMap f).Sublist (l.filterMap f') := by
  induction l with
  | nil => exact .slnil
  | cons b l ih =>
    obtain ⟨hb, hl⟩ := List.forall_mem_cons.1 h
    cases hfb : f b with
    | none =>
      rw [List.filterMap_cons_none hfb]
      refine (ih hl).trans ?_
      cases hfb' : f' b with
      | none => rw [List.filterMap_cons_none hfb']
      | some c =>
        rw [List.filterMap_cons_some hfb']
        exact List.sublist_cons_self ..
    | some c =>
      rw [List.filterMap_cons_some hfb, List.filterMap_cons_some (hb c hfb)]
      exact (ih hl).cons_cons c

/-- All steps from a derivation are among those from its image, in their order. -/
theorem RuleSet.Carries.map_successors_sublist (h : rs.Carries g) (d : Derivation α) :
    ((d.successors rs.rules).map (Derivation.mapText g)).Sublist
      ((d.mapText g).successors rs.rules) := by
  rw [Derivation.successors, Derivation.successors, List.map_filterMap]
  refine filterMap_sublist_filterMap fun r hr e he => ?_
  obtain ⟨e', he', rfl⟩ := Option.map_eq_some_iff.1 he
  exact h.extend? hr he'

/-- What is found for a form is found for its image, steps and conditions included, where the search for
the image returns. -/
theorem RuleSet.Carries.exists_derivations_sublist (h : rs.Carries g) (hends : rs.Ends (g s)) :
    ∃ ds ds', rs.derivations s = .ok ds ∧ rs.derivations (g s) = .ok ds' ∧
      (ds.map (Derivation.mapText g)).Sublist ds' := by
  obtain ⟨ds', hds'⟩ := ends_iff.1 hends
  obtain ⟨ds, hds, hsub⟩ := exists_derivations_map_sublist (f := Derivation.mapText g) rfl
    h.map_successors_sublist (fun d hd => Derivation.fault?_eq_none_iff.2 fun r hr hadmits =>
      h.fault?_eq r hr _ (Derivation.fault?_eq_none_iff.1 hd r hr hadmits)) hds'
  exact ⟨ds, ds', hds, hds', hsub⟩

/-- The form with another text. -/
def Form.mapText (g : α → α) (f : Form α) : Form α := { f with text := g f.text }

theorem RuleSet.Carries.exists_forms_sublist (h : rs.Carries g) (hends : rs.Ends (g s)) :
    ∃ fs fs', rs.forms s = .ok fs ∧ rs.forms (g s) = .ok fs' ∧
      (fs.map (Form.mapText g)).Sublist fs' := by
  obtain ⟨ds, ds', hds, hds', hsub⟩ := h.exists_derivations_sublist hends
  refine ⟨ds.map (·.form), ds'.map (·.form), ?_, ?_, ?_⟩
  · rw [forms, hds]
    rfl
  · rw [forms, hds']
    rfl
  · have hforms := hsub.map Derivation.form
    rw [List.map_map] at hforms ⊢
    exact hforms

end Carries

/-! Rules for endings carry every front. -/
section Endings

/-- A rule that replaces an ending. -/
def Kind.isSuffix {α : Type} : Kind α → Bool
  | suffix _ _ => true
  | _ => false

/-- A rule set of nothing but rules for endings. -/
def RuleSet.OnlySuffixes {α : Type} (rs : RuleSet α) : Prop :=
  ∀ r ∈ rs.rules, r.kind.isSuffix = true

instance {α : Type} (rs : RuleSet α) : Decidable rs.OnlySuffixes :=
  inferInstanceAs (Decidable (∀ r ∈ rs.rules, _))

/-- The value with a text in front, if it is a text. -/
def Json.prepend (front : RawText) : Json → Json
  | str s => str (front ++ s)
  | v => v

section

variable {γ : Type} [DecidableEq γ] {front s t : TextOf γ}

theorem TextOf.endsWith_iff {back : TextOf γ} : s.endsWith back = true ↔ ∃ stem, s = stem ++ back := by
  simp only [TextOf.endsWith, Option.isSome_iff_exists, TextOf.dropBack?_eq_some_iff]

theorem Kind.deinflect_prepend [Letter γ] {k : Kind (TextOf γ)} (hk : k.isSuffix = true)
    (h : k.deinflect s = some t) : k.deinflect (front ++ s) = some (front ++ t) := by
  cases k with
  | suffix inflected deinflected =>
    obtain ⟨stem, rfl, rfl⟩ := deinflect_suffix_eq_some_iff.1 h
    refine deinflect_suffix_eq_some_iff.2 ⟨front ++ stem, ?_, ?_⟩
    · rw [List.append_assoc]
    · rw [List.append_assoc]
  | _ => cases hk

end

theorem RuleSet.OnlySuffixes.carries_append {rs : RuleSet Text} (h : rs.OnlySuffixes)
    (front : Text) : rs.Carries (front ++ ·) where
  same_eq := Text.same_map (List.append_right_injective front)
  deinflect_eq r hr _ _ := Kind.deinflect_prepend (h r hr)
  fault?_eq _ _ _ _ := rfl

theorem Json.same_prepend (front : RawText) (v w : Json) :
    (v.prepend front).same (w.prepend front) = v.same w := by
  cases v with
  | str s =>
    cases w with
    | str t => simp only [prepend, same, List.append_cancel_left_eq]
    | _ => rfl
  | _ => cases w <;> rfl

variable {front : RawText}

theorem Kind.deinflectValue_prepend {k : Kind Json} (hk : k.isSuffix = true) {v w : Json}
    (h : k.deinflectValue v = some w) :
    k.deinflectValue (v.prepend front) = some (w.prepend front) := by
  cases k with
  | suffix inflected deinflected =>
    cases v with
    | str s =>
      obtain ⟨t, ht, rfl⟩ := Option.map_eq_some_iff.1 h
      obtain ⟨k, hk, ht⟩ := Option.bind_eq_some_iff.1 ht
      have hsuffix : k.isSuffix = true := by
        obtain ⟨i, -, hk⟩ := Option.bind_eq_some_iff.1 hk
        obtain ⟨d, -, hk⟩ := Option.bind_eq_some_iff.1 hk
        cases hk
        rfl
      have hfront : k.deinflect (front ++ s) = some (front ++ t) := deinflect_prepend hsuffix ht
      exact Option.map_eq_some_iff.2 ⟨_, Option.bind_eq_some_iff.2 ⟨k, hk, hfront⟩, rfl⟩
    | _ => cases h
  | _ => cases hk

/-- An ending that the text carries, the text carries behind a front. -/
theorem Kind.valueFault?_prepend {k : Kind Json} (hk : k.isSuffix = true) {v : Json}
    (h : k.valueFault? (v.prepend front) = none) : k.valueFault? v = none := by
  cases k with
  | suffix inflected deinflected =>
    cases v with
    | str s =>
      cases inflected with
      | str inflected =>
        have hfront : ¬ ((front ++ s).endsWith inflected && deinflected.text?.isNone) = true :=
          fun hlacks => by simp [Json.prepend, valueFault?, lacksText, hlacks] at h
        have hself : ¬ (s.endsWith inflected && deinflected.text?.isNone) = true := by
          rw [Bool.and_eq_true] at hfront ⊢
          rintro ⟨hends, hnone⟩
          obtain ⟨stem, rfl⟩ := TextOf.endsWith_iff.1 hends
          exact hfront ⟨TextOf.endsWith_iff.2 ⟨front ++ stem, (List.append_assoc ..).symm⟩, hnone⟩
        exact if_neg hself
      | _ => cases h
    | _ => cases h
  | _ => cases hk

theorem RuleSet.OnlySuffixes.carries_prepend {rs : RuleSet Json} (h : rs.OnlySuffixes)
    (front : RawText) : rs.Carries (Json.prepend front) where
  same_eq := Json.same_prepend front
  deinflect_eq r hr _ _ := Kind.deinflectValue_prepend (h r hr)
  fault?_eq r hr _ := Kind.valueFault?_prepend (h r hr)

end Endings

namespace RuleSet

/-- Putting text in front never loses a form. Rules for endings, as those of five languages are, find for
a text behind a front, wherever they come to an end there, all forms that they find for the text, behind
the front, in the same condition and in the same order; so do rules read from a document. -/
theorem forms_append_sublist :
    (∀ l ∈ [Language.japanese, .korean, .french, .portuguese, .latin], l.ruleSet.OnlySuffixes) ∧
      (∀ rs : RuleSet Text, rs.OnlySuffixes → ∀ front s : Text, rs.Ends (front ++ s) →
        ∃ fs fs', rs.forms s = .ok fs ∧ rs.forms (front ++ s) = .ok fs' ∧
          (fs.map (Form.mapText (front ++ ·))).Sublist fs') ∧
      ∀ rs : RuleSet Json, rs.OnlySuffixes → ∀ front s : RawText, rs.Ends (.str (front ++ s)) →
        ∃ fs fs', rs.forms (.str s) = .ok fs ∧ rs.forms (.str (front ++ s)) = .ok fs' ∧
          (fs.map (Form.mapText (Json.prepend front))).Sublist fs' := by
  refine ⟨?_, ?_, ?_⟩
  · decide +kernel
  · exact fun rs h front s hends => (h.carries_append front).exists_forms_sublist hends
  · exact fun rs h front s hends => (h.carries_prepend front).exists_forms_sublist hends

/-- Two endings, one of which is longer. -/
def pluralRules : RuleSet Text where
  transforms := [⟨['p'], [⟨['p'], 0, 1, 2, .suffix "es".toList []⟩,
    ⟨['p'], 1, 1, 2, .suffix ['s'] []⟩]⟩]
  flags := []

/-- The same endings in a document. -/
def pluralDocument : RuleSet Json where
  transforms := [⟨.str ['p'], [⟨.str ['p'], 0, 1, 2, .suffix (.text "es") (.text "")⟩,
    ⟨.str ['p'], 1, 1, 2, .suffix (.text "s") (.text "")⟩]⟩]
  flags := []

/-- Behind a front that ends in a vowel, the form of a lone ending is found between two others. -/
theorem forms_append_sublist_plural :
    pluralRules.OnlySuffixes ∧ pluralRules.Ends ("be".toList ++ ['s']) ∧
      pluralRules.forms ['s'] = .ok [⟨['s'], 0⟩, ⟨[], 2⟩] ∧
      pluralRules.forms ("be".toList ++ ['s']) =
        .ok [⟨"bes".toList, 0⟩, ⟨['b'], 2⟩, ⟨"be".toList, 2⟩] ∧
      pluralDocument.OnlySuffixes ∧ pluralDocument.Ends (.str (Text.raw "be".toList ++ [.char 's'])) ∧
      (∃ fs fs', pluralRules.forms ['s'] = .ok fs ∧
        pluralRules.forms ("be".toList ++ ['s']) = .ok fs' ∧
        (fs.map (Form.mapText ("be".toList ++ ·))).Sublist fs') ∧
      ∃ fs fs', pluralDocument.forms (.str ['s']) = .ok fs ∧
        pluralDocument.forms (.str (Text.raw "be".toList ++ [.char 's'])) = .ok fs' ∧
        (fs.map (Form.mapText (Json.prepend "be"))).Sublist fs' := by
  have hrules : pluralRules.OnlySuffixes := by decide
  have hshort : pluralRules.derivations ['s'] = .ok [⟨['s'], 0, []⟩, ⟨[], 2, [⟨['p'], 1, ['s']⟩]⟩] :=
    derivations_eq_ok_iff.2 ⟨by decide, by decide⟩
  have hlong : pluralRules.derivations ("be".toList ++ ['s']) =
      .ok [⟨"bes".toList, 0, []⟩, ⟨['b'], 2, [⟨['p'], 0, "bes".toList⟩]⟩,
        ⟨"be".toList, 2, [⟨['p'], 1, "bes".toList⟩]⟩] :=
    derivations_eq_ok_iff.2 ⟨by decide, by decide⟩
  have hends : pluralRules.Ends ("be".toList ++ ['s']) := ends_iff.2 ⟨_, hlong⟩
  have hdocument : pluralDocument.OnlySuffixes := by decide
  have hvalues : pluralDocument.derivations (.str (Text.raw "be".toList ++ [.char 's'])) =
      .ok [⟨.text "bes", 0, []⟩, ⟨.text "b", 2, [⟨.str ['p'], 0, .text "bes"⟩]⟩,
        ⟨.text "be", 2, [⟨.str ['p'], 1, .text "bes"⟩]⟩] :=
    derivations_eq_ok_iff.2 ⟨rfl, by decide⟩
  have hdocumentEnds : pluralDocument.Ends (.str (Text.raw "be".toList ++ [.char 's'])) :=
    ends_iff.2 ⟨_, hvalues⟩
  obtain ⟨-, htexts, hjson⟩ := forms_append_sublist
  refine ⟨hrules, hends, ?_, ?_, hdocument, hdocumentEnds, htexts _ hrules _ _ hends,
    hjson _ hdocument _ _ hdocumentEnds⟩
  · rw [forms, hshort]
    rfl
  · rw [forms, hlong]
    rfl

end RuleSet
end Lexicon
