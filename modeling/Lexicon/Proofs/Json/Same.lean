import Lexicon.Proofs.Json.Basic
import Lexicon.Proofs.Number.Binary64

/-! Values that count as one. A value without repeated names counts as itself, and scalars count as one
exactly when they are compared by one key: a number by its value, whatever its form. -/
namespace Lexicon

namespace Binary64

theorem unitsAt_injective : Function.Injective unitsAt := by
  intro m n h
  rw [← nearestCode_unitsAt m, h, nearestCode_unitsAt]

theorem sameValue_self (x : Binary64) : x.sameValue x = true := by
  simp [sameValue]

/-- The value of a number in units of the smallest positive one. -/
def signedUnits (x : Binary64) : ℤ := if x.negative then -(x.units : ℤ) else x.units

theorem units_eq_zero_iff {x : Binary64} : x.units = 0 ↔ x.isZero = true := by
  rw [isZero, beq_iff_eq]
  exact unitsAt_injective.eq_iff (b := 0)

/-- Numbers are compared by value. -/
theorem sameValue_iff {x y : Binary64} : x.sameValue y = true ↔ x.signedUnits = y.signedUnits := by
  have hcode : x.code = y.code ↔ x.units = y.units := unitsAt_injective.eq_iff.symm
  rw [sameValue, Bool.and_eq_true, Bool.or_eq_true, beq_iff_eq, beq_iff_eq, hcode,
    ← units_eq_zero_iff, signedUnits, signedUnits]
  cases x.negative <;> cases y.negative <;> simp <;> omega

theorem isInt_iff {x : Binary64} {n : ℤ} : x.isInt n = true ↔ x.signedUnits = n * unitsPerOne := by
  rw [isInt, beq_iff_eq, signedUnits]

theorem mul_unitsPerOne_inj {m n : ℤ} : m * unitsPerOne = n * unitsPerOne ↔ m = n := by
  have hpos : 0 < unitsPerOne := by decide +kernel
  exact Int.mul_eq_mul_right_iff (by omega)

end Binary64

namespace Json

/-- What a scalar is compared by. -/
inductive ScalarKey where
  | null
  | number (units : ℤ)
  | infinity (negative : Bool)
  | text (s : RawText)

/-- Truth values count as numbers. -/
def scalarKey? : Json → Option ScalarKey
  | null => some .null
  | bool b => some (.number ((if b then 1 else 0) * Binary64.unitsPerOne))
  | int n => some (.number (n * Binary64.unitsPerOne))
  | float x => some (.number x.signedUnits)
  | infinity negative => some (.infinity negative)
  | str s => some (.text s)
  | _ => none

/-- Scalars count as one exactly when they have one key. -/
theorem same_iff_of_isScalar {v w : Json} (hv : v.isScalar = true) (hw : w.isScalar = true) :
    v.same w = true ↔ v.scalarKey? = w.scalarKey? := by
  cases v <;> cases w <;> simp only [isScalar, Bool.false_eq_true] at hv hw <;>
    simp only [same, toInt?, scalarKey?, Binary64.sameValue_iff, Binary64.isInt_iff,
      Option.some.injEq, ScalarKey.number.injEq, Binary64.mul_unitsPerOne_inj] <;> grind

/-- Of the keys only those of null, zero and the empty text are of values that count as absent. -/
def ScalarKey.IsPresent (key : ScalarKey) : Prop :=
  key ≠ .null ∧ key ≠ .number 0 ∧ key ≠ .text []

theorem isPresent_number_iff {units : ℤ} : (ScalarKey.number units).IsPresent ↔ units ≠ 0 := by
  simp only [ScalarKey.IsPresent, ne_eq, reduceCtorEq, not_false_eq_true, true_and, and_true,
    ScalarKey.number.injEq]

theorem isTruthy_iff_of_scalarKey? {v : Json} {key : ScalarKey} (h : v.scalarKey? = some key) :
    v.isTruthy = true ↔ key.IsPresent := by
  have hpos : (Binary64.unitsPerOne : ℤ) ≠ 0 := by decide +kernel
  cases v with
  | null =>
    cases h
    exact ⟨nofun, fun h => absurd rfl h.1⟩
  | bool b =>
    cases h
    rw [isPresent_number_iff]
    cases b with
    | false => exact ⟨nofun, fun h => absurd (Int.zero_mul _) h⟩
    | true => exact ⟨fun _ => by rwa [if_pos rfl, Int.one_mul], fun _ => rfl⟩
  | int n =>
    cases h
    rw [isPresent_number_iff, Int.mul_ne_zero_iff, and_iff_left hpos]
    exact bne_iff_ne
  | float x =>
    cases h
    have hzero : x.signedUnits = 0 ↔ x.isZero = true := by
      rw [← Binary64.units_eq_zero_iff, Binary64.signedUnits]
      split <;> omega
    rw [isPresent_number_iff, Ne, hzero, isTruthy, Bool.not_eq_true', Bool.not_eq_true]
  | infinity negative =>
    cases h
    exact ⟨fun _ => ⟨nofun, nofun, nofun⟩, fun _ => rfl⟩
  | str s =>
    cases h
    cases s with
    | nil => exact ⟨nofun, fun h => absurd rfl h.2.2⟩
    | cons c s => exact ⟨fun _ => ⟨nofun, nofun, nofun⟩, fun _ => rfl⟩
  | array | object => cases h

theorem exists_scalarKey? {v : Json} (hv : v.isScalar = true) : ∃ key, v.scalarKey? = some key := by
  cases v with
  | array | object => cases hv
  | _ => exact ⟨_, rfl⟩

theorem isTruthy_eq_of_scalarKey? {v w : Json} (hv : v.isScalar = true)
    (h : v.scalarKey? = w.scalarKey?) : v.isTruthy = w.isTruthy := by
  obtain ⟨key, hkey⟩ := exists_scalarKey? hv
  rw [Bool.eq_iff_iff, isTruthy_iff_of_scalarKey? hkey, isTruthy_iff_of_scalarKey? (h ▸ hkey)]

theorem scalarKey?_eq_text_iff {v : Json} {s : RawText} :
    v.scalarKey? = some (.text s) ↔ v = .str s := by
  cases v <;> simp only [scalarKey?, reduceCtorEq, Option.some.injEq, ScalarKey.text.injEq, str.injEq]

/-- A text counts as one with itself only. -/
theorem str_same_iff {s : RawText} {v : Json} : (str s).same v = true ↔ str s = v := by
  cases v <;> simp [same, toInt?]

/-- A value in which no object has a name twice counts as itself. -/
theorem same_self {v : Json} (h : v.HasDistinctNames) : v.same v = true := by
  induction v using Json.induction with
  | null => rfl
  | bool b => simp [same, toInt?]
  | int n => simp [same, toInt?]
  | float x => simp [same, Binary64.sameValue_self]
  | infinity negative => simp [same]
  | str s => simp [same]
  | array items ih =>
    obtain ⟨-, hitems⟩ := everywhere_array_iff.1 h
    have hsame : ∀ items' ⊆ items, sameItems items' items' = true := by
      intro items' hsub
      induction items' with
      | nil => rfl
      | cons v rest ihrest =>
        obtain ⟨hv, hrest⟩ := List.cons_subset.1 hsub
        rw [sameItems, ih v hv (hitems v hv), ihrest hrest]
        rfl
    rw [same]
    exact hsame items (List.Subset.refl _)
  | object fields ih =>
    obtain ⟨hnames, hfields⟩ := everywhere_object_iff.1 h
    have hsame : ∀ rest ⊆ fields, sameFields rest fields = true := by
      intro rest hsub
      induction rest with
      | nil => rfl
      | cons field rest ihrest =>
        obtain ⟨hfield, hrest⟩ := List.cons_subset.1 hsub
        have hget : Table.get? fields field.1 = some field.2 :=
          Table.get?_of_mem (of_decide_eq_true hnames) hfield
        rw [sameFields, hget, ihrest hrest]
        simp [ih field hfield (hfields field hfield)]
    rw [same, hsame fields (List.Subset.refl _)]
    simp

end Json
end Lexicon
