import Lexicon.Proofs.Deinflection.ConditionDocument
import Lexicon.Proofs.Deinflection.Renumbering

/-! Conditions declared in another order. Which names are missing, how many leaves there are and what
leads to a cycle does not depend on the order, and a flag is decided by the leaves that a condition leads
to, so only the bits that stand for the leaves change places. Documents therefore compile alike
whichever order their conditions are in. -/
namespace Lexicon

section Places

variable {α : Type} [DecidableEq α] {l l' : List α}

/-- Where the item at a place stands in another list; places without an item stay. -/
def placeIn (l l' : List α) (i : ℕ) : ℕ := (l[i]?.map l'.idxOf).getD i

theorem getElem?_placeIn (h : l.Perm l') (i : ℕ) : l'[placeIn l l' i]? = l[i]? := by
  unfold placeIn
  cases hi : l[i]? with
  | none =>
    rw [List.getElem?_eq_none_iff] at hi
    exact List.getElem?_eq_none (h.length_eq ▸ hi)
  | some a => exact List.getElem?_idxOf (h.subset (List.mem_of_getElem? hi))

theorem placeIn_placeIn (hl : l.Nodup) (h : l.Perm l') (i : ℕ) :
    placeIn l' l (placeIn l l' i) = i := by
  have hback : placeIn l' l (placeIn l l' i) = (l[i]?.map l.idxOf).getD (placeIn l l' i) := by
    rw [placeIn, getElem?_placeIn h]
  rw [hback]
  cases hi : l[i]? with
  | none => simp [placeIn, hi]
  | some a =>
    obtain ⟨hlt, rfl⟩ := List.getElem?_eq_some_iff.1 hi
    exact hl.idxOf_getElem i hlt

/-- The places of items in a list, taken to their places in the list rearranged. -/
def places (hl : l.Nodup) (h : l.Perm l') : Equiv.Perm ℕ where
  toFun := placeIn l l'
  invFun := placeIn l' l
  left_inv := placeIn_placeIn hl h
  right_inv := placeIn_placeIn (h.nodup hl) h.symm

theorem getElem?_places (hl : l.Nodup) (h : l.Perm l') (i : ℕ) : l'[places hl h i]? = l[i]? :=
  getElem?_placeIn h i

theorem places_eq_self (hl : l.Nodup) (h : l.Perm l') {i : ℕ} (hi : l.length ≤ i) :
    places hl h i = i := by
  change placeIn l l' i = i
  rw [placeIn, List.getElem?_eq_none hi]
  rfl

end Places

namespace ConditionTable

variable {table table' : ConditionTable}

section Perm

variable (h : table.Perm table')

include h

theorem refers_of_perm : table'.Refers = table.Refers := by
  funext name sub
  exact propext (exists_congr fun _ => and_congr_left fun _ => h.mem_iff.symm)

theorem reaches_of_perm : table'.Reaches = table.Reaches :=
  congrArg Relation.ReflTransGen (refers_of_perm h)

theorem reachesCycle_of_perm : table'.ReachesCycle = table.ReachesCycle := by
  funext name
  rw [ReachesCycle, ReachesCycle, reaches_of_perm h, refers_of_perm h]

theorem keys_perm : table.keys.Perm table'.keys := h.map _

theorem leafNames_perm : table.leafNames.Perm table'.leafNames := (h.filter _).map _

theorem isClosed_iff_of_perm : table.IsClosed ↔ table'.IsClosed := by
  rw [IsClosed, IsClosed, refers_of_perm h]
  exact forall₃_congr fun _ _ _ => (keys_perm h).mem_iff

section Masks

variable {σ : Equiv.Perm ℕ} (hσ : ∀ i, table'.leafNames[σ i]? = table.leafNames[i]?)

include hσ

/-- A mask for the leaves at their places becomes one for the leaves at their new places. -/
theorem IsMaskOf.permute {mask : Mask} {name : RawText} (hmask : table.IsMaskOf mask name) :
    table'.IsMaskOf (mask.permute σ) name := by
  intro i
  have hleaf := hσ (σ.symm i)
  rw [σ.apply_symm_apply] at hleaf
  rw [Mask.testBit_permute, hmask, hleaf, reaches_of_perm h]

theorem HasFlags.renumbered {fs fs' : FlagTable} (hfs : table.HasFlags fs)
    (hfs' : table'.HasFlags fs') : fs.Renumbered σ fs' := by
  intro name
  cases hmask : fs.get? name with
  | some mask =>
    have hname : name ∈ table'.keys := (keys_perm h).subset ((hfs.exists_iff name).1 ⟨mask, hmask⟩)
    obtain ⟨mask', hmask'⟩ := (hfs'.exists_iff name).2 hname
    rw [hmask', Option.map_some, (hfs'.isMaskOf name mask' hmask').unique
      ((hfs.isMaskOf name mask hmask).permute h hσ)]
  | none =>
    refine Option.eq_none_iff_forall_ne_some.2 fun mask' hmask' => ?_
    have hname : name ∈ table.keys := (keys_perm h).symm.subset ((hfs'.exists_iff name).1 ⟨mask', hmask'⟩)
    obtain ⟨mask, hsome⟩ := (hfs.exists_iff name).2 hname
    exact absurd (hmask.symm.trans hsome) (by simp)

end Masks

/-- The passes over a table rearranged end alike: with flags under other bits, or for a reason of the
same kind. -/
theorem agree_flags (hkeys : table.keys.Nodup) :
    Agree ConditionError.label
      (fun fs fs' => ∃ σ : Equiv.Perm ℕ, (∀ i, maxLeaves ≤ i → σ i = i) ∧ fs.Renumbered σ fs')
      table.flags table'.flags := by
  have hkeys' : table'.keys.Nodup := (keys_perm h).nodup hkeys
  have hlength := (leafNames_perm h).length_eq
  have hcycles := reachesCycle_of_perm h
  by_cases hclosed : table.IsClosed
  · have hclosed' := (isClosed_iff_of_perm h).1 hclosed
    by_cases hle : table.leafNames.length ≤ maxLeaves
    · by_cases hcycle : ∃ name, table.ReachesCycle name
      · obtain ⟨name, hname⟩ := hcycle
        obtain ⟨names, hflags⟩ := exists_flags_eq_cycle hkeys hclosed hle hname
        obtain ⟨names', hflags'⟩ :=
          exists_flags_eq_cycle hkeys' hclosed' (hlength ▸ hle) (hcycles ▸ hname)
        rw [hflags, hflags']
        exact .error rfl
      · have hacyclic := not_exists.1 hcycle
        obtain ⟨fs, hflags, hfs⟩ := exists_hasFlags hkeys hclosed hle hacyclic
        obtain ⟨fs', hflags', hfs'⟩ :=
          exists_hasFlags hkeys' hclosed' (hlength ▸ hle) (hcycles ▸ hacyclic)
        have hleaves : table.leafNames.Nodup := hkeys.sublist (List.filter_sublist.map _)
        rw [hflags, hflags']
        exact .ok ⟨places hleaves (leafNames_perm h),
          fun i hi => places_eq_self hleaves (leafNames_perm h) (hle.trans hi),
          hfs.renumbered h (getElem?_places hleaves (leafNames_perm h)) hfs'⟩
    · have hmany := Nat.not_le.1 hle
      rw [flags_eq_limit hkeys hclosed hmany, flags_eq_limit hkeys' hclosed' (hlength ▸ hmany)]
      exact .error rfl
  · obtain ⟨name, sub, hflags, -⟩ := flags_of_not_isClosed hclosed
    obtain ⟨name', sub', hflags', -⟩ := flags_of_not_isClosed (mt (isClosed_iff_of_perm h).2 hclosed)
    rw [hflags, hflags']
    exact .error rfl

end Perm

end ConditionTable

namespace Document

section Order

variable {fields conditions conditions' : Fields}

theorem WellFormed.perm (h : WellFormed conditions) (hperm : conditions.Perm conditions') :
    WellFormed conditions' :=
  ⟨(hperm.map _).nodup h.distinct, fun entry hentry => h.defines entry (hperm.mem_iff.2 hentry)⟩

/-- The order in which conditions are declared does not matter. A document compiles with them in one order
where it does in the other, and else fails for a reason of the same kind. Where it compiles, one
permutation of the bits makes the flags and the rules of one rule set those of the other; and a value for
which rewriting ends has the same forms by the same steps under both, in the same order, in conditions
that the permutation makes those of the other. -/
theorem compile_agrees_of_conditions_perm
    (hconditions : Table.get? fields "conditions" = some (.object conditions))
    (hwf : WellFormed conditions) (hperm : conditions.Perm conditions') :
    Agree CompileError.label
      (fun rs rs' => ∃ σ : Equiv.Perm ℕ, (∀ i, ConditionTable.maxLeaves ≤ i → σ i = i) ∧
        rs.Renumbered σ rs' ∧ ∀ v, (rs.Ends v ↔ rs'.Ends v) ∧ ∀ ds, rs.derivations v = .ok ds →
          rs'.derivations v = .ok (ds.map (Derivation.permute σ)))
      (compile (.object fields))
      (compile (.object (Table.set fields "conditions" (.object conditions')))) := by
  have htables : (tableOf conditions).Perm (tableOf conditions') := hperm.map _
  have hkeys : (tableOf conditions).keys.Nodup := keys_tableOf conditions ▸ hwf.distinct
  have hflags := Agree.of_eq (agree_conditionFlags hwf) (agree_conditionFlags (hwf.perm hperm))
    ((ConditionTable.agree_flags htables hkeys).mapError fun _ => rfl)
  have hitems : itemsOf (Table.set fields "conditions" (.object conditions')) "transforms" =
      itemsOf fields "transforms" := by
    rw [itemsOf, itemsOf, Table.get?_set, if_neg (by decide)]
  rw [compile_object, compile_object, hconditions, Table.get?_set, if_pos rfl, hitems]
  -- from here on both take the same items, under flags that differ in their bits
  refine hflags.bind fun flags flags' ⟨σ, hσ, hrenumbered⟩ => ?_
  simp only [compileTransforms_renumbered hrenumbered, bind_map_left]
  refine (Agree.refl _ (itemsOf fields "transforms")).bind fun items _ hitems => ?_
  subst hitems
  refine (Agree.refl _ (compileTransforms flags 0 items)).bind fun transforms _ htransforms => ?_
  subst htransforms
  have hsets : RuleSet.Renumbered σ ⟨transforms, flags⟩
      ⟨transforms.map (Transform.permute σ), flags'⟩ := ⟨hrenumbered, rfl⟩
  exact .ok ⟨σ, hσ, hsets, fun v => ⟨hsets.ends_iff, fun ds => hsets.derivations⟩⟩

/-- A composite that is declared before its parts, and the two leaves that it is made of. -/
def nounOrVerb : Fields := [
  ("x", .object [("subConditions", .array [.text "n", .text "v"])]),
  ("n", .object []), ("v", .null)]

/-- The same conditions, the parts first and in the other order. -/
def partsFirst : Fields := [
  ("v", .null), ("n", .object []),
  ("x", .object [("subConditions", .array [.text "n", .text "v"])])]

/-- A rule from a verb to either. -/
def eitherDocument : Fields := [
  ("conditions", .object nounOrVerb),
  ("transforms", .array [.object [("id", .text "t"), ("rules", .array [
    .object [("type", .text "suffix"), ("inflected", .text "s"),
      ("conditionsIn", .array [.text "v"]),
      ("conditionsOut", .array [.text "x"])]])]])]

theorem wellFormed_nounOrVerb : WellFormed nounOrVerb := by
  refine ⟨by decide, ?_⟩
  simp only [nounOrVerb, List.forall_mem_cons, List.not_mem_nil, false_imp_iff, implies_true,
    and_true]
  exact ⟨⟨some ["n", "v"], .composite rfl rfl⟩, ⟨none, .leaf rfl⟩, ⟨none, .leaf rfl⟩⟩

/-- The two leaves have exchanged their bits. -/
theorem compile_agrees_of_conditions_perm_partsFirst :
    Table.get? eitherDocument "conditions" = some (.object nounOrVerb) ∧
      WellFormed nounOrVerb ∧ nounOrVerb.Perm partsFirst ∧
      ∃ rs rs', compile (.object eitherDocument) = .ok rs ∧
        compile (.object (Table.set eitherDocument "conditions" (.object partsFirst))) =
          .ok rs' ∧
        rs.flags.get? "n" = some 1 ∧ rs'.flags.get? "n" = some 2 ∧
        ∃ σ : Equiv.Perm ℕ, (∀ i, ConditionTable.maxLeaves ≤ i → σ i = i) ∧ rs.Renumbered σ rs' ∧
          ∀ v, (rs.Ends v ↔ rs'.Ends v) ∧ ∀ ds, rs.derivations v = .ok ds →
            rs'.derivations v = .ok (ds.map (Derivation.permute σ)) := by
  have hconditions : Table.get? eitherDocument "conditions" = some (.object nounOrVerb) := rfl
  have hperm : nounOrVerb.Perm partsFirst := List.reverse_perm partsFirst
  have hfirst : (compile (.object eitherDocument)).toOption.bind
      (fun rs => rs.flags.get? "n") = some 1 := by decide +kernel
  have hsecond : (compile (.object (Table.set eitherDocument "conditions"
      (.object partsFirst)))).toOption.bind (fun rs => rs.flags.get? "n") = some 2 := by
    decide +kernel
  have hagree := compile_agrees_of_conditions_perm hconditions wellFormed_nounOrVerb hperm
  refine ⟨hconditions, wellFormed_nounOrVerb, hperm, ?_⟩
  generalize compile (.object eitherDocument) = first,
    compile (.object (Table.set eitherDocument "conditions" (.object partsFirst))) = second
    at hfirst hsecond hagree ⊢
  cases hagree with
  | error => cases hfirst
  | @ok rs rs' h =>
    obtain ⟨σ, hσ, hsets, hforms⟩ := h
    exact ⟨rs, rs', rfl, rfl, hfirst, hsecond, σ, hσ, hsets, hforms⟩

end Order

end Document
end Lexicon
