import Lexicon.Proofs.Deinflection.Termination

/-! Two searches compared along a map of derivations. Where the map turns the successors of a
derivation into those of its image, one search finds the images of what the other one finds; where it
turns them into some of those, in their order, so it does with everything that is found. Hence a search
with more rules loses nothing. -/
namespace Lexicon

open Lexicon.Derivation (successors)

section Map

variable {α β : Type} [WordForm α] [WordForm β] {f : Derivation α → Derivation β}

/-- Successors follow a map that goes together with every rule. -/
theorem Derivation.map_successors {rules : List (Rule α)} {g : Rule α → Rule β} {d : Derivation α}
    (h : ∀ r ∈ rules, (r.extend? d).map f = (g r).extend? (f d)) :
    (successors rules d).map f = successors (rules.map g) (f d) := by
  rw [successors, successors, List.map_filterMap, List.filterMap_map]
  exact List.filterMap_congr h

/-- The step of a rule follows a map when the rule at the other end admits the image where the rule admits
the derivation, makes the image of its text, and has been applied to the one where it has to the
other. -/
theorem Rule.map_extend? {r : Rule α} {r' : Rule β} {g : α → β} {d : Derivation α}
    (hadmits : r'.admits (f d).conditions = r.admits d.conditions)
    (htext : WordForm.deinflect r'.kind (f d).text = (WordForm.deinflect r.kind d.text).map g)
    (htaken : (f d).trace.any (·.same (r'.frame (f d).text)) =
      d.trace.any (·.same (r.frame d.text)))
    (hnext : ∀ t, f ⟨t, r.conditionsOut, r.frame d.text :: d.trace⟩ =
      ⟨g t, r'.conditionsOut, r'.frame (f d).text :: (f d).trace⟩) :
    (r.extend? d).map f = r'.extend? (f d) := by
  unfold extend?
  rw [hadmits, htext]
  split
  · cases WordForm.deinflect r.kind d.text with
    | none => rfl
    | some t =>
      simp only [Option.map_some, htaken]
      split
      · rfl
      · exact congrArg some (hnext t)
  · rfl

variable {rs : RuleSet α} {rs' : RuleSet β} {s : α} {t : β}

/-- A search that returns is followed by one that finds the images. -/
theorem RuleSet.derivations_eq_ok_map (hsource : f (.source s) = .source t)
    (hnext : ∀ d, (successors rs.rules d).map f = successors rs'.rules (f d))
    (hfault : ∀ d, d.fault? rs.rules = none → (f d).fault? rs'.rules = none)
    {ds : List (Derivation α)} (h : rs.derivations s = .ok ds) :
    rs'.derivations t = .ok (ds.map f) := by
  obtain ⟨hds, hnone⟩ := derivations_eq_ok_iff.1 h
  refine derivations_eq_ok_iff.2 ⟨?_, List.forall_mem_map.2 fun d hd => hfault d (hnone d hd)⟩
  calc ds.map f = (.source s :: ds.flatMap (successors rs.rules)).map f := congrArg _ hds
    _ = .source t :: ds.flatMap fun d => (successors rs.rules d).map f := by
      rw [List.map_cons, hsource, List.map_flatMap]
    _ = .source t :: (ds.map f).flatMap (successors rs'.rules) := by
      rw [List.flatMap_map]
      simp only [hnext]

/-- A search returns where one that finds more returns, and what it finds keeps its order. -/
theorem RuleSet.exists_derivations_map_sublist (hsource : f (.source s) = .source t)
    (hnext : ∀ d, ((successors rs.rules d).map f).Sublist (successors rs'.rules (f d)))
    (hfault : ∀ d, (f d).fault? rs'.rules = none → d.fault? rs.rules = none)
    {ds' : List (Derivation β)} (h : rs'.derivations t = .ok ds') :
    ∃ ds, rs.derivations s = .ok ds ∧ (ds.map f).Sublist ds' := by
  obtain ⟨⟨n, hn, rfl⟩, hnone⟩ := derivations_eq_ok_iff_level.1 h
  have hlevel := map_level_sublist hnext (.source s) n
  have hbelow := map_levelsBelow_sublist hnext (.source s) n
  rw [hsource] at hlevel hbelow
  rw [hn, List.sublist_nil, List.map_eq_nil_iff] at hlevel
  refine ⟨_, derivations_eq_ok_iff_level.2 ⟨⟨n, hlevel, rfl⟩, fun d hd => ?_⟩, hbelow⟩
  exact hfault d (hnone _ (hbelow.subset (List.mem_map_of_mem hd)))

end Map

section Texts

variable {α : Type} {g : α → α}

/-- The step with another text. -/
def Frame.mapText (g : α → α) (f : Frame α) : Frame α := { f with text := g f.text }

/-- The derivation with other texts throughout. -/
def Derivation.mapText (g : α → α) (d : Derivation α) : Derivation α :=
  ⟨g d.text, d.conditions, d.trace.map (Frame.mapText g)⟩

variable [WordForm α]

/-- A map that makes no two forms one keeps steps apart as well. -/
theorem Frame.same_mapText (hg : ∀ v w, WordForm.same (g v) (g w) = WordForm.same v w)
    (f e : Frame α) : (f.mapText g).same (e.mapText g) = f.same e := by
  rw [Frame.same, Frame.same]
  exact congrArg (_ && ·) (hg f.text e.text)

/-- A step was taken with the other texts where it was taken with the texts. -/
theorem Derivation.any_same_mapText (hg : ∀ v w, WordForm.same (g v) (g w) = WordForm.same v w)
    (r : Rule α) (d : Derivation α) :
    (d.mapText g).trace.any (·.same (r.frame (d.mapText g).text)) =
      d.trace.any (·.same (r.frame d.text)) := by
  rw [Derivation.mapText, List.any_map]
  exact congrArg d.trace.any (funext fun f => Frame.same_mapText hg f (r.frame d.text))

/-- A rule that goes together with a map of texts goes together with it along derivations. -/
theorem Rule.map_extend?_mapText (hg : ∀ v w, WordForm.same (g v) (g w) = WordForm.same v w)
    {r : Rule α} {d : Derivation α}
    (hr : WordForm.deinflect r.kind (g d.text) = (WordForm.deinflect r.kind d.text).map g) :
    (r.extend? d).map (Derivation.mapText g) = r.extend? (d.mapText g) :=
  map_extend? rfl hr (d.any_same_mapText hg r) fun _ => rfl

theorem Text.same_map {g : Text → Text} (hg : Function.Injective g) (s t : Text) :
    WordForm.same (g s) (g t) = WordForm.same s t := by
  simp only [WordForm.same, hg.eq_iff]

/-- Where every rule goes together with a map of texts, so does the search. -/
theorem RuleSet.derivations_mapText {rs : RuleSet Text} {g : Text → Text}
    (hg : Function.Injective g)
    (hrules : ∀ r ∈ rs.rules, ∀ t, r.kind.deinflect (g t) = (r.kind.deinflect t).map g) {s : Text}
    {ds : List (Derivation Text)} (h : rs.derivations s = .ok ds) :
    rs.derivations (g s) = .ok (ds.map (Derivation.mapText g)) := by
  refine derivations_eq_ok_map (f := Derivation.mapText g) rfl ?_
    (fun d _ => fault?_eq_none rs.rules _) h
  intro d
  have hsame := Text.same_map hg
  rw [Derivation.map_successors fun r hr => Rule.map_extend?_mapText hsame (hrules r hr d.text),
    List.map_id']

end Texts

namespace RuleSet

section Sublist

variable {α : Type} [WordForm α] {rs rs' : RuleSet α}

/-- More rules lose no derivation: where a search with them returns, one with some of the rules returns
as well, and what it finds is found again, steps and conditions included, in the same order. -/
theorem derivations_sublist_of_rules_sublist (hrules : rs.rules.Sublist rs'.rules) {s : α}
    (hends : rs'.Ends s) :
    rs.Ends s ∧
      ∃ ds ds', rs.derivations s = .ok ds ∧ rs'.derivations s = .ok ds' ∧ ds.Sublist ds' := by
  obtain ⟨ds', hds'⟩ := ends_iff.1 hends
  obtain ⟨ds, hds, hsub⟩ := exists_derivations_map_sublist (f := id) rfl
    (fun d => by rw [List.map_id]; exact hrules.filterMap _)
    (fun d hd => Derivation.fault?_eq_none_iff.2 fun r hr =>
      Derivation.fault?_eq_none_iff.1 hd r (hrules.subset hr)) hds'
  rw [List.map_id] at hsub
  exact ⟨ends_iff.2 ⟨ds, hds⟩, ds, ds', hds, hds', hsub⟩

end Sublist

/-- The two rules of `backAndForth`, and before them one with the name and the place of the first. -/
def backForthAndOn : RuleSet Text where
  transforms := [
    ⟨['f'], [⟨['f'], 0, 1, 1, .suffix ['b'] ['c']⟩, ⟨['f'], 0, 1, 1, .suffix ['a'] ['b']⟩]⟩,
    ⟨['b'], [⟨['b'], 0, 1, 1, .suffix ['b'] ['a']⟩]⟩]
  flags := [(['n'], 1)]

theorem derivations_backForthAndOn :
    backForthAndOn.derivations ['a'] = .ok [⟨['a'], 0, []⟩, ⟨['b'], 1, [⟨['f'], 0, ['a']⟩]⟩,
      ⟨['c'], 1, [⟨['f'], 0, ['b']⟩, ⟨['f'], 0, ['a']⟩]⟩,
      ⟨['a'], 1, [⟨['b'], 0, ['b']⟩, ⟨['f'], 0, ['a']⟩]⟩] :=
  derivations_eq_ok_iff.2 ⟨by decide, by decide⟩

/-- What the third rule gives stands among what the other two give. -/
theorem derivations_sublist_of_rules_sublist_backForthAndOn :
    backAndForth.rules.Sublist backForthAndOn.rules ∧ backForthAndOn.Ends ['a'] ∧
      backAndForth.Ends ['a'] ∧
      ∃ ds ds', backAndForth.derivations ['a'] = .ok ds ∧ backForthAndOn.derivations ['a'] = .ok ds' ∧
        ds.Sublist ds' := by
  have hrules : backAndForth.rules.Sublist backForthAndOn.rules := List.sublist_cons_self ..
  have hends : backForthAndOn.Ends ['a'] := ends_iff.2 ⟨_, derivations_backForthAndOn⟩
  exact ⟨hrules, hends, derivations_sublist_of_rules_sublist hrules hends⟩

end RuleSet
end Lexicon
