import Lexicon.Json.Reader
import Lexicon.Proofs.Table

/-! Values gone through to every depth: how deep they are nested, what holds everywhere inside them,
and the limits that they keep to. -/
namespace Lexicon.Json

/-- What holds of a value when it holds of everything in it holds of all values. -/
theorem induction {motive : Json → Prop} (null : motive .null) (bool : ∀ b, motive (.bool b))
    (int : ∀ n, motive (.int n)) (float : ∀ x, motive (.float x))
    (infinity : ∀ negative, motive (.infinity negative)) (str : ∀ s, motive (.str s))
    (array : ∀ items, (∀ v ∈ items, motive v) → motive (.array items))
    (object : ∀ fields : Fields, (∀ field ∈ fields, motive field.2) → motive (.object fields))
    (v : Json) : motive v :=
  @Json.rec motive (fun items => ∀ v ∈ items, motive v)
    (fun fields => ∀ field ∈ fields, motive field.2) (fun field => motive field.2)
    null bool int float infinity str (fun items => array items) (fun fields => object fields)
    (by simp) (fun _ _ hv hrest => List.forall_mem_cons.2 ⟨hv, hrest⟩)
    (by simp) (fun _ _ hfield hrest => List.forall_mem_cons.2 ⟨hfield, hrest⟩)
    (fun _ _ hv => hv) v

mutual

/-- How many arrays and objects stand around the deepest value, the value itself counted. -/
def depth : Json → ℕ
  | array items => depthItems items + 1
  | object fields => depthFields fields + 1
  | _ => 0

def depthItems : List Json → ℕ
  | [] => 0
  | v :: rest => max (depth v) (depthItems rest)

def depthFields : List (RawText × Json) → ℕ
  | [] => 0
  | (_, v) :: rest => max (depth v) (depthFields rest)

end

mutual

/-- Whether a test is passed by the value and by everything inside it. -/
def everywhere (p : Json → Bool) : Json → Bool
  | array items => p (.array items) && everyItem p items
  | object fields => p (.object fields) && everyField p fields
  | v => p v

def everyItem (p : Json → Bool) : List Json → Bool
  | [] => true
  | v :: rest => everywhere p v && everyItem p rest

def everyField (p : Json → Bool) : List (RawText × Json) → Bool
  | [] => true
  | (_, v) :: rest => everywhere p v && everyField p rest

end

section

variable {p : Json → Bool} {items : List Json} {fields : Fields} {d : ℕ}

theorem depthItems_le_iff : depthItems items ≤ d ↔ ∀ v ∈ items, v.depth ≤ d := by
  induction items with
  | nil => simp [depthItems]
  | cons v rest ih => rw [depthItems, Nat.max_le, ih, List.forall_mem_cons]

theorem depthFields_le_iff : depthFields fields ≤ d ↔ ∀ field ∈ fields, field.2.depth ≤ d := by
  induction fields with
  | nil => simp [depthFields]
  | cons field rest ih => rw [depthFields, Nat.max_le, ih, List.forall_mem_cons]

theorem depth_array_le_iff :
    (array items).depth ≤ d ↔ 0 < d ∧ ∀ v ∈ items, v.depth ≤ d - 1 := by
  rw [depth, ← depthItems_le_iff]
  omega

theorem depth_object_le_iff :
    (object fields).depth ≤ d ↔ 0 < d ∧ ∀ field ∈ fields, field.2.depth ≤ d - 1 := by
  rw [depth, ← depthFields_le_iff]
  omega

theorem everyItem_iff : everyItem p items = true ↔ ∀ v ∈ items, v.everywhere p = true := by
  induction items with
  | nil => simp [everyItem]
  | cons v rest ih => simp [everyItem, ih]

theorem everyField_iff :
    everyField p fields = true ↔ ∀ field ∈ fields, field.2.everywhere p = true := by
  induction fields with
  | nil => simp [everyField]
  | cons field rest ih => simp [everyField, ih]

theorem everywhere_array_iff :
    (array items).everywhere p = true ↔
      p (array items) = true ∧ ∀ v ∈ items, v.everywhere p = true := by
  rw [everywhere, Bool.and_eq_true, everyItem_iff]

theorem everywhere_object_iff :
    (object fields).everywhere p = true ↔
      p (object fields) = true ∧ ∀ field ∈ fields, field.2.everywhere p = true := by
  rw [everywhere, Bool.and_eq_true, everyField_iff]

end

/-- Whether no name stands twice in an object. -/
def hasOwnNames : Json → Bool
  | object fields => decide (Table.keys fields).Nodup
  | _ => true

/-- Whether an integer has at most so many digits. -/
def isShort (limit : ℕ) : Json → Bool
  | int n => decide ((Text.ofNat n.natAbs).length ≤ limit)
  | _ => true

/-- Whether a text, or every name of an object, is one of characters. -/
def isOfCharacters : Json → Bool
  | str s => s.text?.isSome
  | object fields => fields.all fun field => field.1.text?.isSome
  | _ => true

/-- A value in which no object has a name twice. -/
def HasDistinctNames (v : Json) : Prop := v.everywhere hasOwnNames = true

instance (v : Json) : Decidable v.HasDistinctNames := inferInstanceAs (Decidable (_ = true))

/-- A value without surrogates in its texts and names. -/
def HasCharacters (v : Json) : Prop := v.everywhere isOfCharacters = true

instance (v : Json) : Decidable v.HasCharacters := inferInstanceAs (Decidable (_ = true))

/-- A value that is nested no deeper and has no longer integers than the limits allow. -/
structure Fits (limits : Limits) (v : Json) : Prop where
  depth_le : v.depth ≤ limits.depth
  isShort : v.everywhere (isShort limits.digits) = true

theorem fits_iff {limits : Limits} {v : Json} :
    v.Fits limits ↔ v.depth ≤ limits.depth ∧ v.everywhere (Json.isShort limits.digits) = true :=
  ⟨fun h => ⟨h.depth_le, h.isShort⟩, fun h => ⟨h.1, h.2⟩⟩

instance (limits : Limits) (v : Json) : Decidable (v.Fits limits) :=
  decidable_of_iff _ fits_iff.symm

theorem exists_isShort (v : Json) : ∃ n, ∀ m ≥ n, v.everywhere (isShort m) = true := by
  induction v using Json.induction with
  | int i => exact ⟨(Text.ofNat i.natAbs).length, fun m hm => decide_eq_true hm⟩
  | array items ih =>
    suffices h : ∃ n, ∀ m ≥ n, everyItem (isShort m) items = true by
      obtain ⟨n, hn⟩ := h
      exact ⟨n, fun m hm => everywhere_array_iff.2 ⟨rfl, everyItem_iff.1 (hn m hm)⟩⟩
    induction items with
    | nil => exact ⟨0, fun _ _ => rfl⟩
    | cons v rest ihrest =>
      obtain ⟨n, hn⟩ := ih v (List.mem_cons_self ..)
      obtain ⟨k, hk⟩ := ihrest fun w hw => ih w (List.mem_cons_of_mem _ hw)
      refine ⟨max n k, fun m hm => ?_⟩
      rw [everyItem, hn m (by omega), hk m (by omega)]
      rfl
  | object fields ih =>
    suffices h : ∃ n, ∀ m ≥ n, everyField (isShort m) fields = true by
      obtain ⟨n, hn⟩ := h
      exact ⟨n, fun m hm => everywhere_object_iff.2 ⟨rfl, everyField_iff.1 (hn m hm)⟩⟩
    induction fields with
    | nil => exact ⟨0, fun _ _ => rfl⟩
    | cons field rest ihrest =>
      obtain ⟨n, hn⟩ := ih field (List.mem_cons_self ..)
      obtain ⟨k, hk⟩ := ihrest fun w hw => ih w (List.mem_cons_of_mem _ hw)
      refine ⟨max n k, fun m hm => ?_⟩
      rw [everyField, hn m (by omega), hk m (by omega)]
      rfl
  | _ => exact ⟨0, fun _ _ => rfl⟩

/-- For every value there are limits that it fits. -/
theorem exists_fits (v : Json) : ∃ limits, v.Fits limits := by
  obtain ⟨n, hn⟩ := exists_isShort v
  exact ⟨⟨v.depth, max 640 n, Nat.le_max_left ..⟩, Nat.le_refl _, hn _ (Nat.le_max_right ..)⟩

end Lexicon.Json
