import Lexicon.Deinflection.Document
import Lexicon.Proofs.Basic
import Lexicon.Proofs.Table

/-! Where the rules of a document come from. Each is read from one object of the document, and the type of
that object decides what it is read as. -/
namespace Lexicon.Document

section Kinds

variable {fields : Fields} {kind : Kind Json}

theorem exists_of_readChange {change : Json → Json → Kind Json} {type : Text}
    (h : readChange change type fields = .ok kind) : ∃ inflected,
      (fields.get? "inflected").bind Json.toOption = some inflected ∧
        kind = change inflected (optionalText fields "deinflected") := by
  unfold readChange at h
  split at h
  · next inflected hinflected =>
    cases h
    exact ⟨inflected, hinflected, rfl⟩
  · cases h

/-- What a rule's object is read as: a change of one form, a change of affixes, or the rule for objects
between verb and particle. -/
theorem exists_of_readKind? (h : readKind? fields = some (.ok kind)) :
    (∃ inflected, (fields.get? "inflected").bind Json.toOption = some inflected ∧
      ∃ change ∈ [Kind.suffix, Kind.opening, Kind.wholeWord, Kind.phrasalSuffix],
        kind = change inflected (optionalText fields "deinflected")) ∨
    (∃ initial final arabicOnly, kind = .affix ⟨optionalText fields "inflectedPrefix",
      optionalText fields "deinflectedPrefix", optionalText fields "inflectedSuffix",
      optionalText fields "deinflectedSuffix", initial, final, arabicOnly⟩) ∨
    kind = .interposedObject := by
  obtain ⟨read, hread, h⟩ := Option.map_eq_some_iff.1 h
  cases htype : typeOf fields with
  | str type =>
    rw [htype] at hread
    obtain ⟨word, -, hget⟩ := Option.bind_eq_some_iff.1 hread
    have hmem := Table.mem_of_get?_eq_some hget
    simp only [kindReaders, List.mem_cons, List.not_mem_nil, or_false, Prod.mk.injEq] at hmem
    rcases hmem with ⟨-, rfl⟩ | ⟨-, rfl⟩ | ⟨-, rfl⟩ | ⟨-, rfl⟩ | ⟨-, rfl⟩ | ⟨-, rfl⟩
    · obtain ⟨inflected, hinflected, rfl⟩ := exists_of_readChange h
      exact .inl ⟨inflected, hinflected, .suffix, by simp, rfl⟩
    · obtain ⟨inflected, hinflected, rfl⟩ := exists_of_readChange h
      exact .inl ⟨inflected, hinflected, .opening, by simp, rfl⟩
    · obtain ⟨inflected, hinflected, rfl⟩ := exists_of_readChange h
      exact .inl ⟨inflected, hinflected, .wholeWord, by simp, rfl⟩
    · obtain ⟨initial, -, h⟩ := bind_eq_ok_iff.1 h
      obtain ⟨final, -, h⟩ := bind_eq_ok_iff.1 h
      cases h
      exact .inr (.inl ⟨initial, final, _, rfl⟩)
    · obtain ⟨inflected, hinflected, rfl⟩ := exists_of_readChange h
      exact .inl ⟨inflected, hinflected, .phrasalSuffix, by simp, rfl⟩
    · cases h
      exact .inr (.inr rfl)
  | _ =>
    rw [htype] at hread
    cases hread

end Kinds

section Rules

variable {flags : FlagTable} {transform v document : Json} {vs : List Json} {r : Rule Json}
  {rules : List (Rule Json)} {t : Transform Json} {transforms : List (Transform Json)}
  {rs : RuleSet Json} {index position : ℕ}

/-- Objects of a document that rules are read from, with the ids under which they stand. -/
def IsRuleObject (document id : Json) (fields : Fields) : Prop :=
  ∃ (top transform : Fields) (items rules : List Json), document = .object top ∧
    itemsOf top "transforms" = .ok items ∧ .object transform ∈ items ∧
    Table.get? transform "id" = some id ∧ itemsOf transform "rules" = .ok rules ∧
    .object fields ∈ rules

theorem exists_of_compileRule (h : compileRule flags transform index v = .ok r) :
    ∃ fields, v = .object fields ∧ r.transformId = transform ∧
      readKind? fields = some (.ok r.kind) := by
  cases v with
  | object fields =>
    simp only [compileRule] at h
    split at h
    · cases h
    · split at h
      · cases h
      · next read hread =>
        split at h
        · cases h
        · cases h
        · next kind hkind =>
          obtain ⟨_, -, h⟩ := bind_eq_ok_iff.1 h
          obtain ⟨_, -, h⟩ := bind_eq_ok_iff.1 h
          obtain ⟨_, -, h⟩ := bind_eq_ok_iff.1 h
          obtain ⟨_, -, h⟩ := bind_eq_ok_iff.1 h
          cases h
          exact ⟨fields, rfl, rfl, Option.map_eq_some_iff.2 ⟨read, hread, hkind⟩⟩
  | _ => cases h

/-- Rules are numbered as they stand in their transform. -/
theorem compileRules_eq_mapM (flags : FlagTable) (transform : Json) (index : ℕ) (vs : List Json) :
    compileRules flags transform index vs =
      (vs.zipIdx index).mapM fun (v, i) => compileRule flags transform i v := by
  induction vs generalizing index with
  | nil => rfl
  | cons v vs ih => rw [compileRules, List.zipIdx_cons, List.mapM_cons, ih]

theorem compileTransforms_eq_mapM (flags : FlagTable) (position : ℕ) (vs : List Json) :
    compileTransforms flags position vs =
      (vs.zipIdx position).mapM fun (v, i) => compileTransform flags i v := by
  induction vs generalizing position with
  | nil => rfl
  | cons v vs ih => rw [compileTransforms, List.zipIdx_cons, List.mapM_cons, ih]

theorem exists_of_mem_compileRules (h : compileRules flags transform index vs = .ok rules)
    (hr : r ∈ rules) : ∃ fields, .object fields ∈ vs ∧ r.transformId = transform ∧
      readKind? fields = some (.ok r.kind) := by
  rw [compileRules_eq_mapM] at h
  obtain ⟨⟨v, i⟩, hmem, hrule⟩ := exists_mem_of_forall₂ (mapM_eq_ok_iff.1 h) hr
  obtain ⟨fields, rfl, hid, hkind⟩ := exists_of_compileRule hrule
  exact ⟨fields, List.fst_mem_of_mem_zipIdx hmem, hid, hkind⟩

theorem exists_of_compileTransform (h : compileTransform flags position v = .ok t) :
    ∃ fields items index, v = .object fields ∧ Table.get? fields "id" = some t.id ∧
      itemsOf fields "rules" = .ok items ∧ compileRules flags t.id index items = .ok t.rules := by
  cases v with
  | object fields =>
    simp only [compileTransform] at h
    split at h
    · cases h
    · next id hid =>
      obtain ⟨items, hitems, h⟩ := bind_eq_ok_iff.1 h
      obtain ⟨rules, hrules, h⟩ := bind_eq_ok_iff.1 h
      cases h
      exact ⟨fields, items, 0, rfl, (Option.filter_eq_some_iff.1 hid).1, hitems, hrules⟩
  | _ => cases h

theorem exists_of_mem_compileTransforms
    (h : compileTransforms flags position vs = .ok transforms) (ht : t ∈ transforms) :
    ∃ v ∈ vs, ∃ position, compileTransform flags position v = .ok t := by
  rw [compileTransforms_eq_mapM] at h
  obtain ⟨⟨v, i⟩, hmem, ht⟩ := exists_mem_of_forall₂ (mapM_eq_ok_iff.1 h) ht
  exact ⟨v, List.fst_mem_of_mem_zipIdx hmem, i, ht⟩

/-- Every rule is read from an object of the document. -/
theorem exists_isRuleObject (h : compile document = .ok rs) (hr : r ∈ rs.rules) :
    ∃ fields, IsRuleObject document r.transformId fields ∧
      readKind? fields = some (.ok r.kind) := by
  cases document with
  | object top =>
    obtain ⟨_, -, h⟩ := bind_eq_ok_iff.1 h
    obtain ⟨flags, -, h⟩ := bind_eq_ok_iff.1 h
    obtain ⟨items, hitems, h⟩ := bind_eq_ok_iff.1 h
    obtain ⟨transforms, htransforms, h⟩ := bind_eq_ok_iff.1 h
    cases h
    obtain ⟨t, ht, hr⟩ := List.mem_flatMap.1 hr
    obtain ⟨v, hv, position, ht⟩ := exists_of_mem_compileTransforms htransforms ht
    obtain ⟨transform, rules, index, rfl, hid, hrules, hcompile⟩ := exists_of_compileTransform ht
    obtain ⟨fields, hfields, hidr, hkind⟩ := exists_of_mem_compileRules hcompile hr
    exact ⟨fields, ⟨top, transform, items, rules, rfl, hitems, hv, hidr ▸ hid, hrules, hfields⟩,
      hkind⟩
  | _ => cases h

end Rules
end Lexicon.Document
