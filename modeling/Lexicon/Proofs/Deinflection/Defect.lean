import Lexicon.Proofs.Deinflection.ConditionDocument

/-! What can be wrong with a document. A document of the shape that is asked for has objects, lists, texts
and nulls where these are looked for, and names of conditions where names are. Its defects are listed in
the order in which they count: the conditions come first, then the transforms and their rules, and within a
rule its type, its fields and the conditions of either side. A document is valid exactly when the list is
empty. -/
namespace Lexicon

namespace Document

section Parts

variable (fields : Fields) (key : String)

/-- The text under a name; null counts as none. -/
def textIn? : Option RawText := (fields.get? key).bind Json.text?

/-- The type of a rule, if it is one of characters. -/
def typeIn? : Option Text := (textIn? fields "type").bind TextOf.text?

/-- The text under a name that may be left out. -/
def textIn : RawText := (textIn? fields key).getD []

/-- The items under a name that may be left out. -/
def itemsIn : List Json := (itemsOf fields key).toOption.getD []

/-- The texts among the items under a name. -/
def namesIn : List RawText := (itemsIn fields key).filterMap Json.text?

/-- The text under a name where an empty one counts as none. -/
def givenIn : Option Json := ((textIn? fields key).filter fun s => !s.isEmpty).map .str

/-- Under a name stands a text, null or nothing. -/
def HasText : Prop :=
  ∀ v ∈ fields.get? key, v.isNull = true ∨ v.text?.isSome = true

instance : Decidable (HasText fields key) :=
  inferInstanceAs (Decidable (∀ v ∈ fields.get? key, _))

/-- Under a name stands a list of names or nothing. -/
def HasNames : Prop := ∃ names : List RawText, itemsOf fields key = .ok (names.map .str)

end Parts

section Shape

/-- The names of texts in a rule. -/
def textKeys : List String :=
  ["type", "inflected", "deinflected", "inflectedPrefix", "deinflectedPrefix", "inflectedSuffix",
    "deinflectedSuffix", "initialDisallow", "finalDisallow"]

structure HasRuleShape (fields : Fields) : Prop where
  texts : ∀ key ∈ textKeys, HasText fields key
  conditionsIn : HasNames fields "conditionsIn"
  conditionsOut : HasNames fields "conditionsOut"

/-- Among the rules there may be values that are no objects. -/
structure HasTransformShape (fields : Fields) : Prop where
  id : HasText fields "id"
  rules : ∃ items, itemsOf fields "rules" = .ok items ∧
    ∀ rule, .object rule ∈ items → HasRuleShape rule

/-- Among the transforms there may be values that are no objects. -/
structure HasShape (top : Fields) : Prop where
  conditions : ∃ conditions,
    (Table.get? top "conditions").getD (.object []) = .object conditions ∧
      WellFormed conditions
  transforms : ∃ items, itemsOf top "transforms" = .ok items ∧
    ∀ transform, .object transform ∈ items → HasTransformShape transform

end Shape

section Validity

/-- The condition table that a document declares. -/
def declared (top : Fields) : ConditionTable :=
  match (Table.get? top "conditions").getD (.object []) with
  | .object conditions => tableOf conditions
  | _ => []

/-- The types of rules that replace one form by another. -/
def changes : List (Text × (Json → Json → Kind Json)) :=
  [("suffix".toList, .suffix), ("prefix".toList, .opening), ("wholeWord".toList, .wholeWord),
    ("phrasalSuffix".toList, .phrasalSuffix)]

/-- What the object of a rule says that is undone. -/
inductive Describes (fields : Fields) : Kind Json → Prop
  | change {type : Text} {inflected : RawText} {change : Json → Json → Kind Json}
      (htype : typeIn? fields = some type) (hchange : (type, change) ∈ changes)
      (hinflected : textIn? fields "inflected" = some inflected) :
      Describes fields (change (.str inflected) (.str (textIn fields "deinflected")))
  | affix (htype : typeIn? fields = some "affix".toList)
      (hinitial : (textIn fields "initialDisallow").length ≤ 1)
      (hfinal : (textIn fields "finalDisallow").length ≤ 1) :
      Describes fields (.affix ⟨.str (textIn fields "inflectedPrefix"),
        .str (textIn fields "deinflectedPrefix"), .str (textIn fields "inflectedSuffix"),
        .str (textIn fields "deinflectedSuffix"), givenIn fields "initialDisallow",
        givenIn fields "finalDisallow", (fields.get? "requireArabicLetters").any Json.isTruthy⟩)
  | interposedObject (htype : typeIn? fields = some "phrasalInterposedObject".toList) :
      Describes fields .interposedObject

/-- A rule is an object that says what is undone and names only known conditions. -/
inductive IsValidRule (known : List RawText) : Json → Prop
  | mk {fields : Fields} {kind : Kind Json} (describes : Describes fields kind)
      (conditionsIn : ∀ name ∈ namesIn fields "conditionsIn", name ∈ known)
      (conditionsOut : ∀ name ∈ namesIn fields "conditionsOut", name ∈ known) :
      IsValidRule known (.object fields)

/-- A transform is an object with an id and valid rules. -/
inductive IsValidTransform (known : List RawText) : Json → Prop
  | mk {fields : Fields} (id : textIn fields "id" ≠ [])
      (rules : ∀ rule ∈ itemsIn fields "rules", IsValidRule known rule) :
      IsValidTransform known (.object fields)

structure IsValid (top : Fields) : Prop where
  closed : (declared top).IsClosed
  few : (declared top).leafNames.length ≤ ConditionTable.maxLeaves
  acyclic : ∀ name, ¬ (declared top).ReachesCycle name
  transforms : ∀ transform ∈ itemsIn top "transforms",
    IsValidTransform (declared top).keys transform

end Validity

section Compiled

/-- The rule at an index of a transform, under the masks of the conditions that it names. -/
inductive IsRule (flags : FlagTable) (id : RawText) : Json × ℕ → Rule Json → Prop
  | mk {fields : Fields} {index : ℕ} {kind : Kind Json} (describes : Describes fields kind) :
      IsRule flags id (.object fields, index) ⟨.str id, index,
        flags.unionKnown (namesIn fields "conditionsIn"),
        flags.unionKnown (namesIn fields "conditionsOut"), kind⟩

/-- The transform of an object, its rules in order. -/
inductive IsTransform (flags : FlagTable) : Json → Transform Json → Prop
  | mk {fields : Fields} {id : RawText} {rules : List (Rule Json)}
      (hid : textIn? fields "id" = some id)
      (hrules : List.Forall₂ (IsRule flags id) (itemsIn fields "rules").zipIdx rules) :
      IsTransform flags (.object fields) ⟨.str id, rules⟩

/-- The rule set of a document, its transforms in order. -/
structure IsRuleSet (top : Fields) (rs : RuleSet Json) : Prop where
  flags : (declared top).HasFlags rs.flags
  transforms : List.Forall₂ (IsTransform rs.flags) (itemsIn top "transforms") rs.transforms

end Compiled

section Defects

variable {α β : Type}

/-- One report of all that is found, if anything is. -/
def together (report : List α → β) (found : List α) : List β :=
  if found.isEmpty then [] else [report found]

theorem together_eq_nil_iff {report : List α → β} {found : List α} :
    together report found = [] ↔ found = [] := by
  cases found <;> simp [together]

theorem together_of_ne_nil {report : List α → β} {found : List α} (h : found ≠ []) :
    together report found = [report found] :=
  if_neg (by simpa using h)

open Classical in
/-- Cycles are reported together. -/
noncomputable def cycleDefects (table : ConditionTable) : List ConditionError :=
  together .cycle (table.keys.filter fun name => table.ReachesCycle name)

/-- Names that are missing come first, then too many leaves, then cycles. -/
noncomputable def conditionDefects (table : ConditionTable) : List ConditionError :=
  unknownDefects table ++ limitDefects table ++ cycleDefects table

/-- The types of rules. -/
def typeNames : List Text :=
  Table.keys changes ++ ["affix".toList, "phrasalInterposedObject".toList]

def typeDefects (id : RawText) (index : ℕ) (fields : Fields) : List CompileError :=
  if ∃ type ∈ typeNames, typeIn? fields = some type then []
  else [.unsupportedType (typeOf fields) id index]

def guardDefects (fields : Fields) (key : String) : List RuleError :=
  if (textIn fields key).length ≤ 1 then [] else [.guard key.toList (.str (textIn fields key))]

/-- A change needs the form that it undoes; the guards of an affix are looked at one after the other. -/
def fieldDefects (fields : Fields) : List RuleError :=
  match typeIn? fields with
  | some type =>
    if type.isAmong (Table.keys changes) then
      if textIn? fields "inflected" = none then [.missing "inflected".toList type] else []
    else if type = "affix".toList then
      guardDefects fields "initialDisallow" ++ guardDefects fields "finalDisallow"
    else []
  | none => []

/-- The unknown names of one side are reported together. -/
def nameDefects (known : List RawText) (id : RawText) (index : ℕ) (fields : Fields) (key : String) :
    List CompileError :=
  together (fun unknown => .unknownConditions key.toList id index (unknown.map .str))
    (missing known (namesIn fields key))

/-- The type comes first, then the fields, then the conditions that are asked for and those that are left. -/
def ruleDefects (known : List RawText) (id : RawText) : Json × ℕ → List CompileError
  | (.object fields, index) =>
    typeDefects id index fields ++ (fieldDefects fields).map (.rule id index) ++
      nameDefects known id index fields "conditionsIn" ++
      nameDefects known id index fields "conditionsOut"
  | (_, index) => [.ruleNotObject id index]

def transformDefects (known : List RawText) : Json × ℕ → List CompileError
  | (.object fields, position) =>
    if textIn fields "id" = [] then [.transformWithoutId position]
    else (itemsIn fields "rules").zipIdx.flatMap (ruleDefects known (textIn fields "id"))
  | (_, position) => [.transformNotObject position]

/-- The defects of a document in the order in which they count. -/
noncomputable def defects (top : Fields) : List CompileError :=
  (conditionDefects (declared top)).map .condition ++
    (itemsIn top "transforms").zipIdx.flatMap (transformDefects (declared top).keys)

section Valid

variable {fields top : Fields} {table : ConditionTable} {known : List RawText} {id : RawText} {type : Text}
  {rule transform : Json} {index position : ℕ} {key : String}

theorem cycleDefects_eq_nil_iff : cycleDefects table = [] ↔ ∀ name, ¬ table.ReachesCycle name := by
  rw [cycleDefects, together_eq_nil_iff, List.filter_eq_nil_iff]
  simp only [decide_eq_true_iff]
  constructor
  · exact fun h name hname => h name (ConditionTable.mem_keys_of_reachesCycle hname) hname
  · exact fun h name _ => h name

theorem conditionDefects_eq_nil_iff : conditionDefects table = [] ↔ table.IsClosed ∧
    table.leafNames.length ≤ ConditionTable.maxLeaves ∧ ∀ name, ¬ table.ReachesCycle name := by
  rw [conditionDefects, List.append_eq_nil_iff, List.append_eq_nil_iff, unknownDefects_eq_nil_iff,
    limitDefects_eq_nil_iff, cycleDefects_eq_nil_iff, and_assoc]

theorem guardDefects_eq_nil_iff : guardDefects fields key = [] ↔ (textIn fields key).length ≤ 1 := by
  simp [guardDefects]

theorem typeDefects_eq_nil_iff : typeDefects id index fields = [] ↔
    ∃ type ∈ typeNames, typeIn? fields = some type := by
  unfold typeDefects
  split
  · next h => exact iff_of_true rfl h
  · next h => exact iff_of_false (List.cons_ne_nil _ _) h

section Types

variable (htype : typeIn? fields = some type)

include htype

theorem fieldDefects_of_change (hchange : type ∈ Table.keys changes) : fieldDefects fields =
    if textIn? fields "inflected" = none then [.missing "inflected".toList type] else [] := by
  rw [fieldDefects, htype]
  exact if_pos (TextOf.isAmong_iff.2 hchange)

theorem fieldDefects_of_affix (haffix : type = "affix".toList) : fieldDefects fields =
    guardDefects fields "initialDisallow" ++ guardDefects fields "finalDisallow" := by
  have hchange : ¬ TextOf.isAmong "affix".toList (Table.keys changes) = true := by decide
  rw [fieldDefects, htype, haffix]
  exact (if_neg hchange).trans (if_pos rfl)

theorem fieldDefects_of_interposedObject (hobject : type = "phrasalInterposedObject".toList) :
    fieldDefects fields = [] := by
  have hchange : ¬ TextOf.isAmong "phrasalInterposedObject".toList (Table.keys changes) = true := by
    decide
  have haffix : "phrasalInterposedObject".toList ≠ "affix".toList := by decide
  rw [fieldDefects, htype, hobject]
  exact (if_neg hchange).trans (if_neg haffix)

end Types

/-- An object says what is undone exactly when neither its type nor its fields have a defect. -/
theorem exists_describes_iff : (∃ kind, Describes fields kind) ↔
    typeDefects id index fields = [] ∧ fieldDefects fields = [] := by
  rw [typeDefects_eq_nil_iff]
  constructor
  · rintro ⟨_, h⟩
    cases h with
    | change htype hchange hinflected =>
      have hkey := Table.mem_keys_of_mem hchange
      rw [fieldDefects_of_change htype hkey, hinflected]
      exact ⟨⟨_, List.mem_append_left _ hkey, htype⟩, if_neg (Option.some_ne_none _)⟩
    | affix htype hinitial hfinal =>
      rw [fieldDefects_of_affix htype rfl, List.append_eq_nil_iff, guardDefects_eq_nil_iff,
        guardDefects_eq_nil_iff]
      exact ⟨⟨_, List.mem_append_right _ List.mem_cons_self, htype⟩, hinitial, hfinal⟩
    | interposedObject htype =>
      have hmem : "phrasalInterposedObject".toList ∈ typeNames := by decide
      exact ⟨⟨_, hmem, htype⟩, fieldDefects_of_interposedObject htype rfl⟩
  · rintro ⟨⟨type, hmem, htype⟩, hfields⟩
    rcases List.mem_append.1 hmem with hkey | hmem
    · obtain ⟨⟨_, change⟩, hchange, rfl⟩ := List.mem_map.1 hkey
      rw [fieldDefects_of_change htype hkey] at hfields
      cases hinflected : textIn? fields "inflected" with
      | none => simp [hinflected] at hfields
      | some inflected => exact ⟨_, .change htype hchange hinflected⟩
    · rcases List.mem_cons.1 hmem with rfl | hmem
      · rw [fieldDefects_of_affix htype rfl, List.append_eq_nil_iff, guardDefects_eq_nil_iff,
          guardDefects_eq_nil_iff] at hfields
        exact ⟨_, .affix htype hfields.1 hfields.2⟩
      · obtain rfl := List.mem_singleton.1 hmem
        exact ⟨_, .interposedObject htype⟩

theorem nameDefects_eq_nil_iff : nameDefects known id index fields key = [] ↔
    ∀ name ∈ namesIn fields key, name ∈ known := by
  rw [nameDefects, together_eq_nil_iff, missing_eq_nil_iff]

theorem isValidRule_iff : IsValidRule known rule ↔ ruleDefects known id (rule, index) = [] := by
  cases rule with
  | object fields =>
    simp only [ruleDefects, List.append_eq_nil_iff, List.map_eq_nil_iff, nameDefects_eq_nil_iff,
      ← exists_describes_iff]
    constructor
    · rintro ⟨hdescribes, hin, hout⟩
      exact ⟨⟨⟨_, hdescribes⟩, hin⟩, hout⟩
    · rintro ⟨⟨⟨kind, hdescribes⟩, hin⟩, hout⟩
      exact ⟨hdescribes, hin, hout⟩
  | _ => exact iff_of_false (fun h => nomatch h) (List.cons_ne_nil _ _)

/-- Whether items have defects does not depend on where they stand. -/
theorem flatMap_zipIdx_eq_nil_iff {p : α → Prop} {found : α × ℕ → List β} {xs : List α}
    (h : ∀ a i, p a ↔ found (a, i) = []) : xs.zipIdx.flatMap found = [] ↔ ∀ a ∈ xs, p a := by
  rw [List.flatMap_eq_nil_iff]
  constructor
  · intro hall a ha
    obtain ⟨i, hi⟩ := List.mem_iff_getElem?.1 ha
    exact (h a i).2 (hall _ (List.mk_mem_zipIdx_iff_getElem?.2 hi))
  · rintro hall ⟨a, i⟩ hmem
    exact (h a i).1 (hall a (List.fst_mem_of_mem_zipIdx hmem))

theorem isValidTransform_iff :
    IsValidTransform known transform ↔ transformDefects known (transform, position) = [] := by
  cases transform with
  | object fields =>
    rw [transformDefects]
    split
    · next hid => exact iff_of_false (fun ⟨hne, _⟩ => hne hid) (List.cons_ne_nil _ _)
    · next hid =>
      rw [flatMap_zipIdx_eq_nil_iff fun _ _ => isValidRule_iff]
      exact ⟨fun ⟨_, hrules⟩ => hrules, fun hrules => ⟨hid, hrules⟩⟩
  | _ => exact iff_of_false (fun h => nomatch h) (List.cons_ne_nil _ _)

/-- A document is valid exactly when it has no defects. -/
theorem isValid_iff : IsValid top ↔ defects top = [] := by
  rw [defects, List.append_eq_nil_iff, List.map_eq_nil_iff, conditionDefects_eq_nil_iff,
    flatMap_zipIdx_eq_nil_iff fun _ _ => isValidTransform_iff]
  constructor
  · exact fun h => ⟨⟨h.closed, h.few, h.acyclic⟩, h.transforms⟩
  · rintro ⟨⟨hclosed, hfew, hacyclic⟩, htransforms⟩
    exact ⟨hclosed, hfew, hacyclic, htransforms⟩

end Valid

end Defects

end Document
end Lexicon
