import Lexicon.Deinflection.Document
import Lexicon.Proofs.Deinflection.Comparison
import Mathlib.Data.Nat.BitIndices
import Mathlib.Logic.Equiv.Defs

/-! Conditions under other bits. A permutation of the bits goes through masks, rules and derivations, and
a rule does with the permuted mask what it did with the mask, the one without bits included. So searches
with rules that differ in their bits alone find the same forms in the same order. -/
namespace Lexicon

namespace Mask

variable {σ : Equiv.Perm ℕ} {mask other : Mask}

/-- The mask with every bit moved to where the permutation takes it. -/
def permute (σ : Equiv.Perm ℕ) (mask : Mask) : Mask :=
  mask.bitIndices.foldr (fun i moved => 1 <<< σ i ||| moved) 0

theorem testBit_foldr_iff {places : List ℕ} {j : ℕ} :
    (places.foldr (fun i moved => 1 <<< σ i ||| moved) 0).testBit j = true ↔
      ∃ i ∈ places, σ i = j := by
  induction places with
  | nil => simp
  | cons i places ih =>
    rw [List.foldr_cons, Nat.testBit_or, Bool.or_eq_true, ih, Nat.one_shiftLeft,
      Nat.testBit_two_pow, decide_eq_true_iff, List.exists_mem_cons_iff]

theorem testBit_permute (σ : Equiv.Perm ℕ) (mask : Mask) (j : ℕ) :
    (mask.permute σ).testBit j = mask.testBit (σ.symm j) := by
  rw [Bool.eq_iff_iff, permute, testBit_foldr_iff]
  constructor
  · rintro ⟨i, hi, rfl⟩
    rw [σ.symm_apply_apply]
    exact Nat.mem_bitIndices.1 hi
  · exact fun h => ⟨_, Nat.mem_bitIndices.2 h, σ.apply_symm_apply j⟩

@[simp] theorem permute_zero (σ : Equiv.Perm ℕ) : permute σ 0 = 0 := rfl

theorem permute_or (σ : Equiv.Perm ℕ) (mask other : Mask) :
    permute σ (mask ||| other) = mask.permute σ ||| other.permute σ :=
  Nat.eq_of_testBit_eq fun j => by
    rw [Nat.testBit_or, testBit_permute, testBit_permute, testBit_permute, Nat.testBit_or]

theorem permute_and (σ : Equiv.Perm ℕ) (mask other : Mask) :
    permute σ (mask &&& other) = mask.permute σ &&& other.permute σ :=
  Nat.eq_of_testBit_eq fun j => by
    rw [Nat.testBit_and, testBit_permute, testBit_permute, testBit_permute, Nat.testBit_and]

@[simp] theorem permute_symm_permute (σ : Equiv.Perm ℕ) (mask : Mask) :
    (mask.permute σ).permute σ.symm = mask :=
  Nat.eq_of_testBit_eq fun j => by
    rw [testBit_permute, testBit_permute, Equiv.symm_symm, σ.symm_apply_apply]

theorem permute_eq_zero_iff : mask.permute σ = 0 ↔ mask = 0 := by
  constructor
  · intro h
    rw [← permute_symm_permute σ mask, h, permute_zero]
  · rintro rfl
    exact permute_zero σ

end Mask

section Permute

variable {α : Type}

/-- The rule under other bits. -/
def Rule.permute (σ : Equiv.Perm ℕ) (r : Rule α) : Rule α :=
  { r with
    conditionsIn := r.conditionsIn.permute σ
    conditionsOut := r.conditionsOut.permute σ }

def Transform.permute (σ : Equiv.Perm ℕ) (t : Transform α) : Transform α :=
  { t with rules := t.rules.map (Rule.permute σ) }

@[simp] theorem Rule.permute_symm_permute (σ : Equiv.Perm ℕ) (r : Rule α) :
    (r.permute σ).permute σ.symm = r := by
  simp only [permute, Mask.permute_symm_permute]

@[simp] theorem Transform.permute_symm_permute (σ : Equiv.Perm ℕ) (t : Transform α) :
    (t.permute σ).permute σ.symm = t := by
  simp [permute, Function.comp_def]

/-- The derivation under other bits: its text and its steps stay. -/
def Derivation.permute (σ : Equiv.Perm ℕ) (d : Derivation α) : Derivation α :=
  { d with conditions := d.conditions.permute σ }

/-- A rule admits the same under other bits, and no knowledge stays no knowledge. -/
theorem Rule.admits_permute (σ : Equiv.Perm ℕ) (r : Rule α) (conditions : Mask) :
    (r.permute σ).admits (conditions.permute σ) = r.admits conditions := by
  rw [Bool.eq_iff_iff, admits_iff, admits_iff, Rule.permute, ← Mask.permute_and, ne_eq, ne_eq,
    Mask.permute_eq_zero_iff, Mask.permute_eq_zero_iff]

variable [WordForm α]

theorem Rule.map_extend?_permute (σ : Equiv.Perm ℕ) (r : Rule α) (d : Derivation α) :
    (r.extend? d).map (Derivation.permute σ) = (r.permute σ).extend? (d.permute σ) :=
  map_extend? (g := id) (admits_permute σ r d.conditions) (congrFun Option.map_id _).symm rfl
    fun _ => rfl

theorem Derivation.fault?_permute (σ : Equiv.Perm ℕ) (rules : List (Rule α)) (d : Derivation α) :
    (d.permute σ).fault? (rules.map (Rule.permute σ)) = d.fault? rules := by
  rw [fault?, fault?, List.findSome?_map]
  congr 1
  funext r
  exact congrArg (fun admitted : Bool => if admitted then WordForm.fault? r.kind d.text else none)
    (Rule.admits_permute σ r d.conditions)

end Permute

/-- The same conditions have flags, under other bits. -/
def FlagTable.Renumbered (σ : Equiv.Perm ℕ) (flags flags' : FlagTable) : Prop :=
  ∀ name, flags'.get? name = (flags.get? name).map (Mask.permute σ)

namespace RuleSet

section Renumbered

variable {α : Type} {σ : Equiv.Perm ℕ} {rs rs' : RuleSet α}

/-- Two rule sets that differ in nothing but their bits and the order of their flags. -/
structure Renumbered (σ : Equiv.Perm ℕ) (rs rs' : RuleSet α) : Prop where
  flags : rs.flags.Renumbered σ rs'.flags
  transforms : rs'.transforms = rs.transforms.map (Transform.permute σ)

theorem Renumbered.rules_eq (h : rs.Renumbered σ rs') :
    rs'.rules = rs.rules.map (Rule.permute σ) := by
  rw [rules, rules, h.transforms, List.flatMap_map, List.map_flatMap]
  rfl

theorem Renumbered.symm (h : rs.Renumbered σ rs') : rs'.Renumbered σ.symm rs := by
  refine ⟨fun name => ?_, ?_⟩
  · rw [h.flags name, Option.map_map]
    simp [Function.comp_def]
  · rw [h.transforms, List.map_map]
    simp [Function.comp_def]

variable [WordForm α]

/-- The derivations of one search are those of the other one under its bits. -/
theorem Renumbered.derivations (h : rs.Renumbered σ rs') {s : α} {ds : List (Derivation α)}
    (hds : rs.derivations s = .ok ds) :
    rs'.derivations s = .ok (ds.map (Derivation.permute σ)) := by
  refine derivations_eq_ok_map (f := Derivation.permute σ) ?_ ?_ ?_ hds
  · rw [Derivation.permute, Derivation.source, Mask.permute_zero]
  · intro d
    rw [h.rules_eq]
    exact Derivation.map_successors fun r _ => Rule.map_extend?_permute σ r d
  · intro d hd
    rw [h.rules_eq, Derivation.fault?_permute, hd]

theorem Renumbered.ends_iff (h : rs.Renumbered σ rs') {s : α} : rs.Ends s ↔ rs'.Ends s := by
  rw [RuleSet.ends_iff, RuleSet.ends_iff]
  exact ⟨fun ⟨_, hds⟩ => ⟨_, h.derivations hds⟩, fun ⟨_, hds⟩ => ⟨_, h.symm.derivations hds⟩⟩

end Renumbered

end RuleSet

/-! Rules read from a document under other bits: where one reading succeeds or fails, so does the other,
with the same defect. -/
section Compile

variable {σ : Equiv.Perm ℕ} {flags flags' : FlagTable}

namespace FlagTable

theorem Renumbered.unionOfValues? (h : flags.Renumbered σ flags') (names : List Json) :
    flags'.unionOfValues? names = Option.map (Mask.permute σ) <$> flags.unionOfValues? names := by
  fun_induction FlagTable.unionOfValues? flags names with
  | case1 => rfl
  | case2 name rest mask hname ih =>
    have hname' : flags'.get? name = some (mask.permute σ) := by rw [h name, hname]; rfl
    simp only [FlagTable.unionOfValues?, hname', ih, map_bind, bind_map_left, map_pure,
      Option.map_map, Function.comp_def, Mask.permute_or]
  | case3 name rest hname =>
    have hname' : flags'.get? name = none := by rw [h name, hname]; rfl
    simp only [FlagTable.unionOfValues?, hname']
    rfl
  | case4 v rest hv hscalar =>
    rw [FlagTable.unionOfValues?, if_pos hscalar]
    · rfl
    · exact hv
  | case5 v rest hv hscalar =>
    rw [FlagTable.unionOfValues?, if_neg hscalar]
    · rfl
    · exact hv

theorem Renumbered.knows (h : flags.Renumbered σ flags') (v : Json) :
    flags'.knows v = flags.knows v := by
  cases v with
  | str name => simp only [FlagTable.knows, h name, Option.isSome_map]
  | _ => rfl

theorem Renumbered.mask (h : flags.Renumbered σ flags') (key : Text) (transform : RawText)
    (index : ℕ) (names : List Json) :
    flags'.mask key transform index names =
      Mask.permute σ <$> flags.mask key transform index names := by
  simp only [FlagTable.mask, h.unionOfValues?, h.knows, map_bind, bind_map_left]
  refine congrArg _ (funext fun union? => ?_)
  cases union? with
  | some mask => rfl
  | none =>
    simp only [Option.map_none]
    split <;> rfl

end FlagTable

namespace Document

theorem compileRule_renumbered (h : flags.Renumbered σ flags') (transform : Json) (index : ℕ)
    (v : Json) :
    compileRule flags' transform index v = Rule.permute σ <$> compileRule flags transform index v := by
  cases v with
  | object fields =>
    simp only [compileRule, h.mask]
    -- the type and the fields of a rule are read first; only the last case meets its conditions
    split
    · rfl
    · split
      · rfl
      · split
        · rfl
        · rfl
        · simp only [map_bind, bind_map_left, map_pure]
          rfl
  | _ => rfl

theorem compileRules_renumbered (h : flags.Renumbered σ flags') (transform : Json) (index : ℕ)
    (vs : List Json) :
    compileRules flags' transform index vs =
      List.map (Rule.permute σ) <$> compileRules flags transform index vs := by
  induction vs generalizing index with
  | nil => rfl
  | cons v rest ih =>
    simp only [compileRules, compileRule_renumbered h, ih, map_bind, bind_map_left, map_pure,
      List.map_cons]

theorem compileTransform_renumbered (h : flags.Renumbered σ flags') (position : ℕ) (v : Json) :
    compileTransform flags' position v =
      Transform.permute σ <$> compileTransform flags position v := by
  cases v with
  | object fields =>
    simp only [compileTransform]
    split
    · rfl
    · simp only [compileRules_renumbered h, map_bind, bind_map_left, map_pure]
      rfl
  | _ => rfl

theorem compileTransforms_renumbered (h : flags.Renumbered σ flags') (position : ℕ)
    (vs : List Json) :
    compileTransforms flags' position vs =
      List.map (Transform.permute σ) <$> compileTransforms flags position vs := by
  induction vs generalizing position with
  | nil => rfl
  | cons v rest ih =>
    simp only [compileTransforms, compileTransform_renumbered h, ih, map_bind, bind_map_left,
      map_pure, List.map_cons]

end Document
end Compile

end Lexicon
