import Lexicon.Deinflection.Descriptor
import Lexicon.Proofs.Basic
import Lexicon.Proofs.Deinflection.LoopGuard

/-! What compilation leaves in place. A rule is compiled to the name and the place at which it is
specified, so names that are given once keep the rules of a set apart. -/
namespace Lexicon

namespace RuleSpec

variable {flags : FlagTable} {transform : Text}

theorem key_of_compile {index : ℕ} {spec : RuleSpec} {r : Rule Text}
    (h : spec.compile flags transform index = .ok r) :
    (r.transformId, r.index) = (transform, index) := by
  obtain ⟨conditionsIn, -, h⟩ := bind_eq_ok_iff.1 h
  obtain ⟨conditionsOut, -, h⟩ := bind_eq_ok_iff.1 h
  cases h
  rfl

theorem keys_of_compileAll {index : ℕ} {specs : List RuleSpec} {rules : List (Rule Text)}
    (h : compileAll flags transform index specs = .ok rules) :
    rules.map (fun r => (r.transformId, r.index)) =
      (List.range' index specs.length).map fun i => (transform, i) := by
  induction specs generalizing index rules with
  | nil =>
    cases h
    rfl
  | cons spec rest ih =>
    obtain ⟨r, hr, h⟩ := bind_eq_ok_iff.1 h
    obtain ⟨compiled, hrest, h⟩ := bind_eq_ok_iff.1 h
    cases h
    rw [List.map_cons, key_of_compile hr, ih hrest, List.length_cons, List.range'_succ,
      List.map_cons]

end RuleSpec

namespace Descriptor

variable {d : Descriptor} {rs : RuleSet Text}

/-- Transforms are compiled one by one. -/
theorem transforms_of_compile (h : d.compile = .ok rs) :
    List.Forall₂ (fun spec t => t.id = spec.id ∧
        RuleSpec.compileAll rs.flags spec.id 0 spec.rules = .ok t.rules)
      d.transforms rs.transforms := by
  obtain ⟨flags, -, h⟩ := bind_eq_ok_iff.1 h
  obtain ⟨transforms, htransforms, h⟩ := bind_eq_ok_iff.1 h
  cases h
  refine (mapM_eq_ok_iff.1 htransforms).imp ?_
  intro spec t ht
  obtain ⟨rules, hrules, h⟩ := bind_eq_ok_iff.1 ht
  cases h
  exact ⟨rfl, hrules⟩

/-- The names and places of the compiled rules, in order. -/
theorem keys_of_compile (h : d.compile = .ok rs) :
    rs.rules.map (fun r => (r.transformId, r.index)) =
      d.transforms.flatMap fun spec => (List.range' 0 spec.rules.length).map fun i => (spec.id, i) := by
  have hall := transforms_of_compile h
  rw [RuleSet.rules, List.map_flatMap]
  generalize d.transforms = specs at hall ⊢
  generalize rs.transforms = transforms at hall ⊢
  induction hall with
  | nil => rfl
  | cons ht _ ih => rw [List.flatMap_cons, List.flatMap_cons, ih, RuleSpec.keys_of_compileAll ht.2]

/-- Rules stay apart when every transform has a name of its own. -/
theorem distinct_of_compile (h : d.compile = .ok rs) (hids : (d.transforms.map (·.id)).Nodup) :
    rs.Distinct := by
  rw [RuleSet.Distinct, keys_of_compile h, List.nodup_flatMap]
  refine ⟨?_, (List.pairwise_map.1 hids).imp ?_⟩
  · intro spec _
    exact List.Nodup.map (fun i j hij => (Prod.ext_iff.1 hij).2) List.nodup_range'
  · intro spec spec' hne key hkey hkey'
    obtain ⟨i, -, rfl⟩ := List.mem_map.1 hkey
    obtain ⟨j, -, hj⟩ := List.mem_map.1 hkey'
    exact hne (Prod.ext_iff.1 hj).1.symm

end Descriptor
end Lexicon
