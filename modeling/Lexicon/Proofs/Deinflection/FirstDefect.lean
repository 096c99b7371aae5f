import Lexicon.Proofs.Deinflection.Defect
import Lexicon.Proofs.Deinflection.Document

/-! The first defect is the one that is reported. Every part of a document is gone through in the order in
which defects count, so each step reports the first of those that the list has for its part, and where the
list is empty it gives what the document describes. -/
namespace Lexicon

namespace ConditionTable

variable {table : ConditionTable}

open Classical in
/-- Where names are known and leaves are few, only cycles are left to be found. -/
theorem reports_flags (hkeys : table.keys.Nodup) (hclosed : table.IsClosed)
    (hfew : table.leafNames.length ≤ maxLeaves) :
    Reports table.HasFlags (Document.cycleDefects table) table.flags := by
  have hanswer := isAnswer_flags hkeys hclosed
  generalize table.flags = answer at hanswer
  match answer with
  | .ok fs =>
    rw [Document.cycleDefects_eq_nil_iff.2 hanswer.2.1]
    exact .ok (hasFlags_of_isAnswer hkeys hanswer)
  | .error (.cycle names) =>
    obtain ⟨-, hne, hsub, hcycle⟩ := hanswer
    have hnames : names = table.keys.filter fun name => table.ReachesCycle name :=
      eq_filter_of_sublist hsub hkeys fun name => by
        rw [hcycle, decide_eq_true_iff]
        exact (and_iff_right_of_imp mem_keys_of_reachesCycle).symm
    rw [Document.cycleDefects, ← hnames, Document.together_of_ne_nil hne]
    exact .error _ []
  | .error .limit => exact absurd hfew (Nat.not_le.2 hanswer)
  | .error (.unknown _ _) => exact hanswer.elim

end ConditionTable

namespace FlagTable

variable {flags : FlagTable} {known : List RawText}

theorem unionKnown_cons (name : RawText) (names : List RawText) :
    flags.unionKnown (name :: names) = (flags.get? name).getD 0 ||| flags.unionKnown names := by
  have hmap (names : List RawText) : flags.unionKnown names =
      (names.map fun name => (flags.get? name).getD 0).foldl (· ||| ·) 0 := by
    rw [List.foldl_map]
    rfl
  rw [hmap, hmap, List.map_cons, List.foldl_cons, Nat.or_comm, List.foldl_assoc]

variable (hknown : ∀ name, (∃ mask, flags.get? name = some mask) ↔ name ∈ known)

include hknown

theorem get?_eq_none_of_not_mem {name : RawText} (hname : name ∉ known) : flags.get? name = none :=
  Option.eq_none_iff_forall_ne_some.2 fun mask hmask => hname ((hknown name).1 ⟨mask, hmask⟩)

theorem unionOfValues?_eq (names : List RawText) : flags.unionOfValues? (names.map .str) =
    .ok (if (Document.missing known names).isEmpty then some (flags.unionKnown names) else none) := by
  induction names with
  | nil => rfl
  | cons name names ih =>
    rw [List.map_cons, unionOfValues?]
    by_cases hname : name ∈ known
    · obtain ⟨mask, hmask⟩ := (hknown name).2 hname
      rw [Document.missing_cons_of_mem hname, unionKnown_cons]
      simp only [hmask, ih]
      split <;> rfl
    · rw [Document.missing_cons_of_not_mem hname, get?_eq_none_of_not_mem hknown hname]
      rfl

theorem knows_str_iff (name : RawText) : flags.knows (.str name) = true ↔ name ∈ known := by
  rw [← hknown]
  exact Option.isSome_iff_exists

/-- Names that are all known are united, and else the unknown ones among them are reported. -/
theorem reports_mask (key : Text) (id : RawText) (index : ℕ) (names : List RawText) :
    Reports (· = flags.unionKnown names)
      (Document.together (fun unknown => .unknownConditions key id index (unknown.map .str))
        (Document.missing known names))
      (flags.mask key id index (names.map .str)) := by
  rw [mask, unionOfValues?_eq hknown]
  by_cases hall : Document.missing known names = []
  · rw [hall]
    exact .ok rfl
  · have hunknown : (names.map Json.str).filter (fun v => !flags.knows v) =
        (Document.missing known names).map .str := by
      rw [List.filter_map]
      refine congrArg _ (List.filter_congr fun name _ => congrArg not ?_)
      rw [Bool.eq_iff_iff, TextOf.isAmong_iff]
      exact knows_str_iff hknown name
    have hscalar : (names.map Json.str).all Json.isScalar = true := by simp [Json.isScalar]
    rw [Document.together_of_ne_nil hall, ← hunknown, if_neg (by simpa using hall)]
    simp only [hscalar]
    exact .error _ []

end FlagTable

namespace Document

section Conditions

variable {conditions : Fields}

/-- The flags of conditions, or the first defect of the conditions. -/
theorem reports_conditionFlags (h : WellFormed conditions) :
    Reports (tableOf conditions).HasFlags
      ((conditionDefects (tableOf conditions)).map .condition)
      (conditionFlags (.object conditions)) := by
  have hkeys : (tableOf conditions).keys.Nodup := keys_tableOf conditions ▸ h.distinct
  rw [conditionDefects, List.map_append]
  refine (reports_conditionTable h).bind ?_
  rintro _ ⟨rfl, hclosed, hfew⟩
  exact (ConditionTable.reports_flags hkeys hclosed hfew).mapError

end Conditions

section Fields

variable {fields : Fields} {key : String} {type : Text}

/-- A text, or null or nothing. -/
theorem HasText.cases (h : HasText fields key) :
    (∃ s, textIn? fields key = some s ∧ fields.get? key = some (.str s)) ∨
      textIn? fields key = none ∧
        (fields.get? key = some .null ∨ fields.get? key = none) := by
  cases hv : fields.get? key with
  | none => exact .inr ⟨by rw [textIn?, hv]; rfl, .inr rfl⟩
  | some v =>
    cases v with
    | null => exact .inr ⟨by rw [textIn?, hv]; rfl, .inl rfl⟩
    | str s => exact .inl ⟨s, by rw [textIn?, hv]; rfl, rfl⟩
    | _ => exact absurd (h _ hv) (by simp [Json.isNull, Json.text?])

theorem HasText.toOption_eq (h : HasText fields key) :
    (fields.get? key).bind Json.toOption = (textIn? fields key).map .str := by
  rcases h.cases with ⟨s, htext, hv⟩ | ⟨htext, hv | hv⟩ <;> rw [htext, hv] <;> rfl

theorem HasText.optionalText_eq (h : HasText fields key) :
    optionalText fields key = .str (textIn fields key) := by
  rw [optionalText, textIn]
  rcases h.cases with ⟨s, htext, hv⟩ | ⟨htext, hv | hv⟩
  · rw [htext, hv]
    cases s <;> rfl
  · rw [htext, hv]
    rfl
  · rw [htext, hv]
    rfl

theorem HasText.filter_isTruthy (h : HasText fields key) :
    (fields.get? key).filter Json.isTruthy = givenIn fields key := by
  rw [givenIn]
  rcases h.cases with ⟨s, htext, hv⟩ | ⟨htext, hv | hv⟩
  · rw [htext, hv]
    cases s <;> rfl
  · rw [htext, hv]
    rfl
  · rw [htext, hv]
    rfl

/-- The empty text is not given; another one is the text that is given. -/
theorem givenIn_cases (fields : Fields) (key : String) :
    textIn fields key = [] ∧ givenIn fields key = none ∨
      textIn fields key ≠ [] ∧ textIn? fields key = some (textIn fields key) ∧
        givenIn fields key = some (.str (textIn fields key)) := by
  unfold givenIn textIn
  match textIn? fields key with
  | none => exact .inl ⟨rfl, rfl⟩
  | some [] => exact .inl ⟨rfl, rfl⟩
  | some (c :: s) => exact .inr ⟨List.cons_ne_nil c s, rfl, rfl⟩

theorem HasText.reports_guardValue (h : HasText fields key) :
    Reports (fun guard => guard = givenIn fields key ∧ (textIn fields key).length ≤ 1)
      (guardDefects fields key) (guardValue fields key) := by
  rw [guardValue, h.filter_isTruthy, guardDefects]
  rcases givenIn_cases fields key with ⟨hnil, hgiven⟩ | ⟨hne, -, hgiven⟩
  · rw [hgiven, hnil]
    exact .ok ⟨rfl, Nat.zero_le _⟩
  · rw [hgiven]
    -- a text that is given is not empty, so at most one character means exactly one
    have hpos := List.length_pos_of_ne_nil hne
    simp only [Json.items?, List.length_map]
    split
    · next hlength =>
      rw [if_pos (by omega)]
      exact .ok ⟨rfl, hlength⟩
    · rw [if_neg (by omega)]
      exact .error _ []

theorem HasNames.itemsOf_eq (h : HasNames fields key) :
    itemsOf fields key = .ok ((namesIn fields key).map .str) := by
  obtain ⟨names, hnames⟩ := h
  have hself : (names.map Json.str).filterMap Json.text? = names := by
    rw [List.filterMap_map]
    exact List.filterMap_some
  rw [namesIn, itemsIn, hnames]
  exact congrArg (fun names : List RawText => Except.ok (names.map Json.str)) hself.symm

/-- A change is read where the form that it undoes is there. -/
theorem reports_readChange (h : HasRuleShape fields) (htype : typeIn? fields = some type)
    {change : Json → Json → Kind Json} (hchange : (type, change) ∈ changes) :
    Reports (Describes fields) (fieldDefects fields) (readChange change type fields) := by
  rw [fieldDefects_of_change htype (Table.mem_keys_of_mem hchange), readChange,
    (h.texts "inflected" (by decide)).toOption_eq]
  cases hinflected : textIn? fields "inflected" with
  | none => exact .error _ []
  | some inflected =>
    rw [Option.map_some, (h.texts "deinflected" (by decide)).optionalText_eq]
    exact .ok (.change htype hchange hinflected)

theorem reports_readAffix (h : HasRuleShape fields)
    (htype : typeIn? fields = some "affix".toList) :
    Reports (Describes fields) (fieldDefects fields) (readAffix fields) := by
  rw [fieldDefects_of_affix htype rfl, readAffix,
    (h.texts "inflectedPrefix" (by decide)).optionalText_eq,
    (h.texts "deinflectedPrefix" (by decide)).optionalText_eq,
    (h.texts "inflectedSuffix" (by decide)).optionalText_eq,
    (h.texts "deinflectedSuffix" (by decide)).optionalText_eq]
  refine (h.texts "initialDisallow" (by decide)).reports_guardValue.bind ?_
  rintro _ ⟨rfl, hinitial⟩
  refine (h.texts "finalDisallow" (by decide)).reports_guardValue.map ?_
  rintro _ ⟨rfl, hfinal⟩
  exact .affix htype hinitial hfinal

theorem nodup_keys_kindReaders : (Table.keys kindReaders).Nodup := by decide

theorem kindReaders_perm_typeNames : (Table.keys kindReaders).Perm typeNames := by decide

/-- An object of a known type is read by the reader of that type. -/
theorem exists_reports_read (h : HasRuleShape fields) (htype : typeIn? fields = some type)
    (hmem : type ∈ typeNames) : ∃ read, kindReader? (.str type.raw) = some read ∧
      Reports (Describes fields) (fieldDefects fields) (read fields) := by
  have hread {read : Fields → Except RuleError (Kind Json)} (hmem : (type, read) ∈ kindReaders) :
      kindReader? (.str type.raw) = some read := by
    rw [kindReader?, Text.text?_raw]
    exact Table.get?_of_mem nodup_keys_kindReaders hmem
  rcases List.mem_append.1 hmem with hkey | hmem
  · obtain ⟨⟨_, change⟩, hchange, rfl⟩ := List.mem_map.1 hkey
    refine ⟨_, hread ?_, reports_readChange h htype hchange⟩
    simp only [changes, List.mem_cons, List.not_mem_nil, or_false, Prod.mk.injEq] at hchange
    rcases hchange with ⟨rfl, rfl⟩ | ⟨rfl, rfl⟩ | ⟨rfl, rfl⟩ | ⟨rfl, rfl⟩ <;> simp [kindReaders]
  · rcases List.mem_cons.1 hmem with rfl | hmem
    · exact ⟨_, hread (by simp [kindReaders]), reports_readAffix h htype⟩
    · obtain rfl := List.mem_singleton.1 hmem
      refine ⟨fun _ => .ok .interposedObject, hread (by simp [kindReaders]), ?_⟩
      rw [fieldDefects_of_interposedObject htype rfl]
      exact .ok (.interposedObject htype)

end Fields

section Rules

variable {fields top : Fields} {known : List RawText} {flags : FlagTable} {id : RawText}

theorem isScalar_typeOf (h : HasText fields "type") : (typeOf fields).isScalar = true := by
  rw [typeOf]
  rcases h.cases with ⟨s, -, hv⟩ | ⟨-, hv | hv⟩ <;> rw [hv] <;> rfl

theorem typeOf_eq_str {s : RawText} (h : textIn? fields "type" = some s) :
    typeOf fields = .str s := by
  obtain ⟨v, hv, htext⟩ := Option.bind_eq_some_iff.1 h
  cases v with
  | str s =>
    cases htext
    rw [typeOf, hv]
    rfl
  | _ => cases htext

theorem typeOf_of_typeIn? {type : Text} (h : typeIn? fields = some type) :
    typeOf fields = .str type.raw := by
  obtain ⟨s, hs, htext⟩ := Option.bind_eq_some_iff.1 h
  rw [typeOf_eq_str hs, RawText.text?_eq_some_iff.1 htext]

theorem kindReader?_eq_none (h : ¬ ∃ type ∈ typeNames, typeIn? fields = some type) :
    kindReader? (typeOf fields) = none := by
  cases htext : textIn? fields "type" with
  | some s =>
    rw [typeOf_eq_str htext, kindReader?, Option.bind_eq_none_iff]
    intro type htype
    refine Table.get?_eq_none_iff.2 fun hmem => ?_
    exact h ⟨type, kindReaders_perm_typeNames.mem_iff.1 hmem,
      Option.bind_eq_some_iff.2 ⟨s, htext, htype⟩⟩
  | none =>
    rw [typeOf]
    cases hv : fields.get? "type" with
    | none => rfl
    | some v =>
      rw [textIn?, hv] at htext
      cases v with
      | str => cases htext
      | _ => rfl

/-- What the reader of a rule reports, with the place of the rule. -/
def placed (id : RawText) (index : ℕ) : RuleError → CompileError
  | .wrongType => .wrongType
  | e => .rule id index e

theorem map_placed_fieldDefects (index : ℕ) :
    (fieldDefects fields).map (placed id index) = (fieldDefects fields).map (.rule id index) := by
  refine List.map_congr_left fun e he => ?_
  cases e with
  | wrongType =>
    simp only [fieldDefects, guardDefects] at he
    repeat' split at he
    all_goals simp at he
  | _ => rfl

theorem compileRule_object {read : Fields → Except RuleError (Kind Json)}
    (hscalar : (typeOf fields).isScalar = true) (hread : kindReader? (typeOf fields) = some read)
    (index : ℕ) :
    compileRule flags (.str id) index (.object fields) = do
      let kind ← (read fields).mapError (placed id index)
      let conditionsIn ← conditionNames fields "conditionsIn" >>=
        flags.mask "conditionsIn".toList id index
      let conditionsOut ← conditionNames fields "conditionsOut" >>=
        flags.mask "conditionsOut".toList id index
      return ⟨.str id, index, conditionsIn, conditionsOut, kind⟩ := by
  simp only [compileRule, hscalar, hread, bind_assoc]
  cases read fields with
  | ok kind => rfl
  | error e => cases e <;> rfl

variable (hknown : ∀ name, (∃ mask, flags.get? name = some mask) ↔ name ∈ known)

include hknown

theorem reports_conditions {key : String} (h : HasNames fields key) (index : ℕ) :
    Reports (· = flags.unionKnown (namesIn fields key)) (nameDefects known id index fields key)
      (conditionNames fields key >>= flags.mask key.toList id index) := by
  have hnames : conditionNames fields key = .ok ((namesIn fields key).map .str) := h.itemsOf_eq
  rw [hnames]
  exact flags.reports_mask hknown key.toList id index (namesIn fields key)

/-- Type, fields and the conditions of either side are looked at one after the other. -/
theorem reports_compileRule {entry : Json × ℕ}
    (h : ∀ rule, entry.1 = .object rule → HasRuleShape rule) :
    Reports (IsRule flags id entry) (ruleDefects known id entry)
      (compileRule flags (.str id) entry.2 entry.1) := by
  obtain ⟨rule, index⟩ := entry
  cases rule with
  | object fields =>
    have hshape := h fields rfl
    have hscalar := isScalar_typeOf (hshape.texts "type" (by decide))
    by_cases htype : ∃ type ∈ typeNames, typeIn? fields = some type
    · obtain ⟨type, hmem, htype⟩ := htype
      obtain ⟨read, hread, hreports⟩ := exists_reports_read hshape htype hmem
      rw [ruleDefects, typeDefects_eq_nil_iff.2 ⟨type, hmem, htype⟩, ← map_placed_fieldDefects,
        compileRule_object hscalar (typeOf_of_typeIn? htype ▸ hread)]
      rw [List.nil_append, List.append_assoc]
      refine hreports.mapError.bind fun kind hkind => ?_
      refine (reports_conditions hknown hshape.conditionsIn index).bind ?_
      rintro _ rfl
      refine (reports_conditions hknown hshape.conditionsOut index).map ?_
      rintro _ rfl
      exact .mk hkind
    · rw [ruleDefects, typeDefects, if_neg htype]
      simp only [compileRule, hscalar, kindReader?_eq_none htype]
      exact .error _ _
  | _ => exact .error _ []

theorem reports_compileRules {rules : List Json}
    (h : ∀ rule, .object rule ∈ rules → HasRuleShape rule) :
    Reports (List.Forall₂ (IsRule flags id) rules.zipIdx)
      (rules.zipIdx.flatMap (ruleDefects known id)) (compileRules flags (.str id) 0 rules) := by
  rw [compileRules_eq_mapM]
  refine Reports.mapM fun entry hentry => reports_compileRule hknown fun rule hrule => h rule ?_
  exact hrule ▸ List.fst_mem_of_mem_zipIdx hentry

/-- An id is looked for before the rules are. -/
theorem reports_compileTransform {entry : Json × ℕ}
    (h : ∀ transform, entry.1 = .object transform → HasTransformShape transform) :
    Reports (IsTransform flags entry.1) (transformDefects known entry)
      (compileTransform flags entry.2 entry.1) := by
  obtain ⟨transform, position⟩ := entry
  cases transform with
  | object fields =>
    have hshape := h fields rfl
    obtain ⟨rules, hitems, hrules⟩ := hshape.rules
    have hrulesIn : itemsIn fields "rules" = rules := by
      rw [itemsIn, hitems]
      rfl
    simp only [compileTransform, hshape.id.filter_isTruthy, hitems, transformDefects, hrulesIn]
    rcases givenIn_cases fields "id" with ⟨hid, hgiven⟩ | ⟨hid, htext, hgiven⟩
    · rw [hgiven, if_pos hid]
      exact .error _ []
    · rw [hgiven, if_neg hid]
      exact (reports_compileRules hknown hrules).map fun _ h => .mk htext (hrulesIn.symm ▸ h)
  | _ => exact .error _ []

theorem reports_compileTransforms {transforms : List Json}
    (h : ∀ transform, .object transform ∈ transforms → HasTransformShape transform) :
    Reports (List.Forall₂ (IsTransform flags) transforms)
      (transforms.zipIdx.flatMap (transformDefects known))
      (compileTransforms flags 0 transforms) := by
  have hentries : Reports (List.Forall₂ (fun entry => IsTransform flags entry.1) transforms.zipIdx)
      (transforms.zipIdx.flatMap (transformDefects known))
      (compileTransforms flags 0 transforms) := by
    rw [compileTransforms_eq_mapM]
    refine Reports.mapM fun entry hentry =>
      reports_compileTransform hknown fun transform htransform => h transform ?_
    exact htransform ▸ List.fst_mem_of_mem_zipIdx hentry
  refine hentries.mono fun compiled hcompiled => ?_
  rw [← List.zipIdx_map_fst 0 transforms]
  exact List.forall₂_map_left_iff.2 hcompiled

end Rules

section Documents

variable {top : Fields}

/-- The conditions come before the transforms. -/
theorem reports_compile (h : HasShape top) :
    Reports (IsRuleSet top) (defects top) (compile (.object top)) := by
  obtain ⟨conditions, hconditions, hwf⟩ := h.conditions
  obtain ⟨transforms, hitems, htransforms⟩ := h.transforms
  have hdeclared : declared top = tableOf conditions := by
    rw [declared, hconditions]
  have hitemsIn : itemsIn top "transforms" = transforms := by
    rw [itemsIn, hitems]
    rfl
  rw [compile_object, hconditions, defects, hdeclared, hitemsIn, hitems]
  refine (reports_conditionFlags hwf).bind fun flags hflags => ?_
  refine (reports_compileTransforms hflags.exists_iff htransforms).map fun compiled hcompiled => ?_
  exact ⟨hdeclared ▸ hflags, hitemsIn ▸ hcompiled⟩

/-- A document of the shape that is asked for is compiled exactly when it is valid, to the rule set that it
describes; else the first of its defects is reported. -/
theorem compile_reports_first_defect (h : HasShape top) :
    ((∃ rs, compile (.object top) = .ok rs) ↔ IsValid top) ∧
      (∀ rs, compile (.object top) = .ok rs → IsRuleSet top rs) ∧
      ∀ e, compile (.object top) = .error e ↔ (defects top).head? = some e := by
  have hreports := reports_compile h
  rw [isValid_iff]
  exact ⟨hreports.exists_ok_iff, fun rs => hreports.of_eq_ok, fun e => hreports.eq_error_iff⟩

/-- A document with a rule for plurals, and other transforms behind it. -/
def pluralsAnd (rest : List Json) : Fields := [
  ("conditions", .object [("n", .object [])]),
  ("transforms", .array (.object [("id", .text "plural"), ("rules", .array [
    .object [("type", .text "suffix"), ("inflected", .text "s"),
      ("conditionsIn", .array [.text "n"])]])] :: rest))]

/-- The second of its rules has a guard of two characters and a condition that is not known. -/
def irregular : Json := .object [("id", .text "irregular"), ("rules", .array [
  .object [("type", .text "wholeWord"), ("inflected", .text "mice"),
    ("deinflected", .text "mouse")],
  .object [("type", .text "affix"), ("finalDisallow", .text "ss"),
    ("conditionsIn", .array [.text "n", .text "v"])],
  .object [("type", .text "infix")]])]

theorem hasShape_pluralsAnd {rest : List Json}
    (h : ∀ transform, .object transform ∈ rest → HasTransformShape transform) :
    HasShape (pluralsAnd rest) := by
  refine ⟨⟨_, rfl, by decide, ?_⟩, _, rfl, ?_⟩
  · rintro entry hentry
    obtain rfl := List.mem_singleton.1 hentry
    exact ⟨none, .leaf rfl⟩
  · intro transform htransform
    rcases List.mem_cons.1 htransform with heq | htransform
    · obtain rfl := Json.object.inj heq
      refine ⟨by decide, _, rfl, fun rule hrule => ?_⟩
      obtain rfl := Json.object.inj (List.mem_singleton.1 hrule)
      exact ⟨by decide, ⟨["n"], rfl⟩, [], rfl⟩
    · exact h transform htransform

theorem hasTransformShape_of_mem_irregular {transform : Fields}
    (h : .object transform ∈ [irregular, .int 7]) : HasTransformShape transform := by
  rcases List.mem_cons.1 h with heq | h
  · obtain rfl := Json.object.inj heq
    refine ⟨by decide, _, rfl, fun rule hrule => ?_⟩
    simp only [List.mem_cons, List.not_mem_nil, or_false, Json.object.injEq] at hrule
    rcases hrule with rfl | rfl | rfl
    · exact ⟨by decide, ⟨[], rfl⟩, [], rfl⟩
    · exact ⟨by decide, ⟨["n", "v"], rfl⟩, [], rfl⟩
    · exact ⟨by decide, ⟨[], rfl⟩, [], rfl⟩
  · cases List.mem_singleton.1 h

theorem conditionDefects_pluralsAnd (rest : List Json) :
    conditionDefects (declared (pluralsAnd rest)) = [] := by
  have hdeclared : declared (pluralsAnd rest) = [(("n" : RawText), none)] := rfl
  have hleaf (name sub : RawText) : ¬ (declared (pluralsAnd rest)).Refers name sub := by
    rintro ⟨names, hmem, -⟩
    cases List.mem_singleton.1 (hdeclared ▸ hmem)
  refine conditionDefects_eq_nil_iff.2 ⟨fun name sub h => absurd h (hleaf name sub), ?_, ?_⟩
  · rw [hdeclared]
    decide
  · intro name hcycle
    obtain ⟨sub, hrefers, -⟩ := ConditionTable.reachesCycle_iff.1 hcycle
    exact hleaf name sub hrefers

/-- What is wrong behind the rule for plurals, in order. -/
theorem defects_irregular : defects (pluralsAnd [irregular, .int 7]) = [
    .rule "irregular" 1 (.guard "finalDisallow".toList (.text "ss")),
    .unknownConditions "conditionsIn".toList "irregular" 1 [.text "v"],
    .unsupportedType (.text "infix") "irregular" 2, .transformNotObject 2] := by
  rw [defects, conditionDefects_pluralsAnd]
  rfl

/-- Without the others the transform for plurals is compiled; with them the guard is reported, and nothing
of what comes after it. -/
theorem compile_reports_first_defect_irregular :
    (HasShape (pluralsAnd []) ∧ ∃ rs, compile (.object (pluralsAnd [])) = .ok rs ∧
      IsRuleSet (pluralsAnd []) rs) ∧
    HasShape (pluralsAnd [irregular, .int 7]) ∧ ¬ IsValid (pluralsAnd [irregular, .int 7]) ∧
      compile (.object (pluralsAnd [irregular, .int 7])) =
        .error (.rule "irregular" 1 (.guard "finalDisallow".toList (.text "ss"))) := by
  have hplural : HasShape (pluralsAnd []) := hasShape_pluralsAnd fun _ h => nomatch h
  have hboth : HasShape (pluralsAnd [irregular, .int 7]) :=
    hasShape_pluralsAnd fun _ => hasTransformShape_of_mem_irregular
  have hnone : defects (pluralsAnd []) = [] := by
    rw [defects, conditionDefects_pluralsAnd]
    rfl
  obtain ⟨hvalid, hcompiled, -⟩ := compile_reports_first_defect hplural
  obtain ⟨rs, hrs⟩ := hvalid.2 (isValid_iff.2 hnone)
  refine ⟨⟨hplural, rs, hrs, hcompiled rs hrs⟩, hboth, ?_, ?_⟩
  · rw [isValid_iff, defects_irregular]
    exact List.cons_ne_nil _ _
  · rw [(compile_reports_first_defect hboth).2.2, defects_irregular]
    rfl

end Documents

end Document
end Lexicon
