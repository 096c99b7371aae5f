import Lexicon.Deinflection.Document
import Lexicon.Proofs.Deinflection.Condition

/-! Conditions read from a document. When every definition is that of a leaf or lists names, they make up a
table, and what is checked before the passes are made finds the same defects as the passes. -/
namespace Lexicon

namespace Json

variable {v : Json}

theorem isNull_eq_false_of_items? {items : List Json} (h : v.items? = some items) :
    v.isNull = false := by
  cases v with
  | null => cases h
  | _ => rfl

theorem eq_nil_of_not_isTruthy {names : List RawText} (hv : ¬ v.isTruthy = true)
    (hitems : v.items? = some (names.map .str)) : names = [] := by
  cases v with
  | str | array | object => simp_all [Json.isTruthy, Json.items?]
  | _ => cases hitems

end Json

namespace Document

/-- A definition is that of a leaf, or it lists names. -/
inductive Defines (v : Json) : Option (List RawText) → Prop
  | leaf (h : subConditions v = .ok .null) : Defines v none
  | composite {list : Json} {names : List RawText} (h : subConditions v = .ok list)
      (hnames : list.items? = some (names.map .str)) : Defines v (some names)

/-- Conditions under names of their own, each a leaf or a composite that lists names. -/
structure WellFormed (conditions : Fields) : Prop where
  distinct : (Table.keys conditions).Nodup
  defines : ∀ entry ∈ conditions, ∃ parts, Defines entry.2 parts

section Definitions

variable {v : Json} {parts : Option (List RawText)} {names : List RawText}

/-- The value in which a definition lists its parts. -/
def listOf (v : Json) : Json := (subConditions v).toOption.getD .null

/-- The names that a definition lists; nothing for a leaf. -/
def partsOf (v : Json) : Option (List RawText) :=
  (listOf v).items?.map fun items => items.filterMap Json.text?

theorem Defines.subConditions_eq (h : Defines v parts) : subConditions v = .ok (listOf v) := by
  cases h with
  | leaf h => rw [listOf, h]; rfl
  | composite h => rw [listOf, h]; rfl

/-- A leaf lists nothing, and a composite its names. -/
theorem Defines.listOf_cases (h : Defines v parts) :
    parts = none ∧ listOf v = .null ∨
      ∃ names, parts = some names ∧ (listOf v).items? = some (names.map .str) := by
  cases h with
  | leaf h => exact .inl ⟨rfl, by rw [listOf, h]; rfl⟩
  | composite h hnames => exact .inr ⟨_, rfl, by rw [listOf, h]; exact hnames⟩

theorem Defines.partsOf_eq (h : Defines v parts) : partsOf v = parts := by
  rcases h.listOf_cases with ⟨rfl, hlist⟩ | ⟨names, rfl, hitems⟩
  · rw [partsOf, hlist]
    rfl
  · rw [partsOf, hitems, Option.map_some, List.filterMap_map]
    exact congrArg some List.filterMap_some

/-- A name that is listed, if the table has it. -/
def knownName (known : List RawText) (name sub : RawText) : Except CompileError RawText :=
  if TextOf.isAmong sub known then .ok sub else .error (.condition (.unknown name sub))

theorem checkedNames_eq (hitems : v.items? = some (names.map .str)) (known : List RawText)
    (name : RawText) : checkedNames known name v = names.mapM (knownName known name) := by
  unfold checkedNames
  rw [hitems]
  split
  · exact List.mapM_map
  · next hfalsy =>
    rw [Json.eq_nil_of_not_isTruthy hfalsy hitems]
    rfl

/-- The names of a list that a table lacks. -/
def missing (known names : List RawText) : List RawText := names.filter fun name => !name.isAmong known

theorem missing_cons_of_mem {known : List RawText} {name : RawText} (h : name ∈ known)
    (names : List RawText) : missing known (name :: names) = missing known names :=
  List.filter_cons_of_neg (by simpa using h)

theorem missing_cons_of_not_mem {known : List RawText} {name : RawText} (h : name ∉ known)
    (names : List RawText) : missing known (name :: names) = name :: missing known names := by
  have hamong : name.isAmong known = false := by rwa [Bool.eq_false_iff, Ne, TextOf.isAmong_iff]
  exact List.filter_cons_of_pos (by rw [hamong]; rfl)

theorem missing_eq_nil_iff {known names : List RawText} :
    missing known names = [] ↔ ∀ name ∈ names, name ∈ known := by
  simp [missing]

/-- The names that the table lacks are reported one by one. -/
theorem reports_knownName (known : List RawText) (name : RawText) (names : List RawText) :
    Reports (fun subs => subs = names ∧ ∀ sub ∈ names, sub ∈ known)
      ((missing known names).map fun sub => .condition (.unknown name sub))
      (names.mapM (knownName known name)) := by
  induction names with
  | nil => exact .ok ⟨rfl, List.forall_mem_nil _⟩
  | cons sub names ih =>
    rw [List.mapM_cons, knownName]
    by_cases hsub : sub ∈ known
    · rw [if_pos (TextOf.isAmong_iff.2 hsub), missing_cons_of_mem hsub]
      refine ih.map fun subs h => ?_
      rw [h.1, List.forall_mem_cons]
      exact ⟨rfl, hsub, h.2⟩
    · rw [if_neg (mt TextOf.isAmong_iff.1 hsub), missing_cons_of_not_mem hsub]
      exact .error _ _

theorem Defines.reports_checkedNames (h : Defines v parts) (known : List RawText) (name : RawText) :
    Reports (fun names => names = parts.getD [] ∧ ∀ sub ∈ parts.getD [], sub ∈ known)
      ((missing known (parts.getD [])).map fun sub => .condition (.unknown name sub))
      (checkedNames known name (listOf v)) := by
  rcases h.listOf_cases with ⟨rfl, hlist⟩ | ⟨names, rfl, hitems⟩
  · rw [hlist]
    exact .ok ⟨rfl, List.forall_mem_nil _⟩
  · rw [checkedNames_eq hitems, Option.getD_some]
    exact reports_knownName known name names

end Definitions

section Conditions

variable {conditions : Fields}

/-- The table that conditions of a document declare. -/
def tableOf (conditions : Fields) : ConditionTable :=
  conditions.map fun entry => (entry.1, partsOf entry.2)

theorem WellFormed.defines_partsOf (h : WellFormed conditions) :
    ∀ entry ∈ conditions, Defines entry.2 (partsOf entry.2) := by
  intro entry hentry
  obtain ⟨parts, hparts⟩ := h.defines entry hentry
  rwa [hparts.partsOf_eq]

theorem keys_tableOf (conditions : Fields) : (tableOf conditions).keys = Table.keys conditions := by
  rw [Table.keys, tableOf, List.map_map]
  rfl

theorem isClosed_tableOf_iff :
    (tableOf conditions).IsClosed ↔
      ∀ entry ∈ conditions, ∀ sub ∈ (partsOf entry.2).getD [], sub ∈ Table.keys conditions := by
  rw [ConditionTable.isClosed_iff, keys_tableOf, tableOf, List.forall_mem_map]

theorem checkComposites_cons_of_items? {v : Json} {items : List Json} (h : v.items? = some items)
    (n : ℕ) (rest : List Json) : checkComposites n (v :: rest) = checkComposites n rest := by
  cases v with
  | null => cases h
  | _ => rw [checkComposites, if_pos (by rw [h]; rfl)]; simp

/-- The leaves are counted. -/
theorem checkComposites_listOf
    (hdefines : ∀ entry ∈ conditions, Defines entry.2 (partsOf entry.2)) {n : ℕ}
    (hn : n ≤ ConditionTable.maxLeaves) :
    checkComposites n (conditions.map fun entry => listOf entry.2) =
      if ConditionTable.maxLeaves < n + (tableOf conditions).leafNames.length then
        .error (.condition .limit)
      else .ok () := by
  induction conditions generalizing n with
  | nil => exact (if_neg (Nat.not_lt.2 hn)).symm
  | cons entry rest ih =>
    obtain ⟨hentry, hrest⟩ := List.forall_mem_cons.1 hdefines
    rcases hentry.listOf_cases with ⟨hparts, hlist⟩ | ⟨names, hparts, hitems⟩
    · have hleaves : (tableOf (entry :: rest)).leafNames = entry.1 :: (tableOf rest).leafNames := by
        rw [tableOf, List.map_cons, hparts]
        rfl
      rw [List.map_cons, hlist, checkComposites, hleaves, List.length_cons]
      split
      · rw [if_pos (by omega)]
      · rw [ih hrest (by omega), Nat.add_right_comm, Nat.add_assoc]
    · have hleaves : (tableOf (entry :: rest)).leafNames = (tableOf rest).leafNames := by
        rw [tableOf, List.map_cons, hparts]
        rfl
      rw [List.map_cons, checkComposites_cons_of_items? hitems, hleaves, ih hrest hn]

theorem conditionTable_eq (hdefines : ∀ entry ∈ conditions, Defines entry.2 (partsOf entry.2)) :
    conditionTable (.object conditions) = do
      let names ← conditions.mapM fun entry =>
        checkedNames (Table.keys conditions) entry.1 (listOf entry.2)
      checkComposites 0 (conditions.map fun entry => listOf entry.2)
      return (Table.keys conditions).zip
        (((conditions.map fun entry => listOf entry.2).zip names).map fun (v, names) =>
          if v.isNull then none else some names) := by
  have hlists : conditions.mapM (fun entry => subConditions entry.2) =
      pure (conditions.map fun entry => listOf entry.2) := by
    refine mapM_eq_ok_iff.2 (List.forall₂_map_right_iff.2 (List.forall₂_same.2 fun entry hentry => ?_))
    exact (hdefines entry hentry).subConditions_eq
  simp only [conditionTable, hlists, pure_bind, List.zip_map', List.mapM_map, Table.keys,
    Function.comp_def]

/-- What is read of each definition makes up the table. -/
theorem zip_listOf_partsOf (hdefines : ∀ entry ∈ conditions, Defines entry.2 (partsOf entry.2)) :
    ((Table.keys conditions).zip
        (((conditions.map fun entry => listOf entry.2).zip
          (conditions.map fun entry => (partsOf entry.2).getD [])).map fun (v, names) =>
            if v.isNull then none else some names)) = tableOf conditions := by
  rw [List.zip_map', List.map_map, Table.keys, List.zip_map', tableOf]
  refine List.map_congr_left fun entry hentry => Prod.ext rfl ?_
  rcases (hdefines entry hentry).listOf_cases with ⟨hparts, hlist⟩ | ⟨names, hparts, hitems⟩
  · simp [hparts, hlist, Json.isNull]
  · simp [hparts, Json.isNull_eq_false_of_items? hitems]

/-- Names that are listed and missing, in table order. -/
def unknownDefects (table : ConditionTable) : List ConditionError :=
  table.flatMap fun entry => (missing table.keys (entry.2.getD [])).map (.unknown entry.1)

def limitDefects (table : ConditionTable) : List ConditionError :=
  if ConditionTable.maxLeaves < table.leafNames.length then [.limit] else []

section Table

variable {table : ConditionTable}

theorem unknownDefects_eq_nil_iff : unknownDefects table = [] ↔ table.IsClosed := by
  simp [unknownDefects, ConditionTable.isClosed_iff, missing_eq_nil_iff]

theorem limitDefects_eq_nil_iff :
    limitDefects table = [] ↔ table.leafNames.length ≤ ConditionTable.maxLeaves := by
  simp [limitDefects]

theorem exists_head?_unknownDefects (h : ¬ table.IsClosed) :
    ∃ name sub, (unknownDefects table).head? = some (.unknown name sub) := by
  cases hdefects : unknownDefects table with
  | nil => exact absurd (unknownDefects_eq_nil_iff.1 hdefects) h
  | cons e rest =>
    have he : e ∈ unknownDefects table := hdefects ▸ List.mem_cons_self
    obtain ⟨entry, -, he⟩ := List.mem_flatMap.1 he
    obtain ⟨sub, -, rfl⟩ := List.mem_map.1 he
    exact ⟨entry.1, sub, rfl⟩

end Table

/-- Names that are missing come before too many leaves. -/
theorem reports_conditionTable (h : WellFormed conditions) :
    Reports (fun table => table = tableOf conditions ∧ table.IsClosed ∧
        table.leafNames.length ≤ ConditionTable.maxLeaves)
      ((unknownDefects (tableOf conditions) ++ limitDefects (tableOf conditions)).map .condition)
      (conditionTable (.object conditions)) := by
  have hdefines := h.defines_partsOf
  have hunknown : (unknownDefects (tableOf conditions)).map CompileError.condition =
      conditions.flatMap fun entry => (missing (Table.keys conditions)
        ((partsOf entry.2).getD [])).map fun sub => .condition (.unknown entry.1 sub) := by
    rw [unknownDefects, keys_tableOf, List.map_flatMap, tableOf, List.flatMap_map]
    simp only [List.map_map, Function.comp_def]
  have hnames := Reports.mapM fun entry hentry =>
    (hdefines entry hentry).reports_checkedNames (Table.keys conditions) entry.1
  rw [conditionTable_eq hdefines, List.map_append, hunknown]
  refine hnames.bind fun names hnames => ?_
  rw [checkComposites_listOf hdefines (Nat.zero_le _), Nat.zero_add, limitDefects]
  split
  · exact .error _ []
  · next hfew =>
    have htable := zip_listOf_partsOf hdefines
    obtain ⟨rfl, hclosed⟩ := forall₂_eq_and_iff.1 hnames
    exact .ok ⟨htable, htable ▸ isClosed_tableOf_iff.2 hclosed, htable ▸ Nat.not_lt.1 hfew⟩

/-- The flags of the conditions of a document. -/
def conditionFlags (conditions : Json) : Except CompileError FlagTable := do
  (← conditionTable conditions).flags.mapError .condition

theorem compile_object (fields : Fields) :
    compile (.object fields) = do
      let flags ← conditionFlags ((Table.get? fields "conditions").getD (.object []))
      let items ← itemsOf fields "transforms"
      let transforms ← compileTransforms flags 0 items
      return ⟨transforms, flags⟩ := by
  simp only [compile, conditionFlags, bind_assoc]

/-- What is checked before the passes finds nothing that these would not find. -/
theorem agree_conditionFlags (h : WellFormed conditions) :
    Agree CompileError.label (· = ·) (conditionFlags (.object conditions))
      ((tableOf conditions).flags.mapError .condition) := by
  have hkeys : (tableOf conditions).keys.Nodup := keys_tableOf conditions ▸ h.distinct
  have hreports := reports_conditionTable h
  rw [conditionFlags]
  by_cases hclosed : (tableOf conditions).IsClosed
  · rw [unknownDefects_eq_nil_iff.2 hclosed, List.nil_append] at hreports
    by_cases hfew : (tableOf conditions).leafNames.length ≤ ConditionTable.maxLeaves
    · rw [limitDefects_eq_nil_iff.2 hfew] at hreports
      obtain ⟨table, htable⟩ := hreports.exists_ok_iff.2 rfl
      obtain ⟨rfl, -⟩ := hreports.of_eq_ok htable
      rw [htable]
      exact Agree.refl _ _
    · have hmany := Nat.not_le.1 hfew
      rw [limitDefects, if_pos hmany] at hreports
      rw [hreports.eq_error_iff.2 rfl, ConditionTable.flags_eq_limit hkeys hclosed hmany]
      exact .error rfl
  · obtain ⟨name, sub, hhead⟩ := exists_head?_unknownDefects hclosed
    obtain ⟨name', sub', hflags, -⟩ := ConditionTable.flags_of_not_isClosed hclosed
    have herror : conditionTable (.object conditions) = .error (.condition (.unknown name sub)) := by
      rw [hreports.eq_error_iff, List.head?_map, List.head?_append, hhead]
      rfl
    rw [herror, hflags]
    exact .error rfl

end Conditions

end Document
end Lexicon
