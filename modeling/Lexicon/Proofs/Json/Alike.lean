import Lexicon.Proofs.Json.RoundTrip
import Lexicon.Proofs.Text.Basic
import Mathlib.Data.List.Sort

/-! Values that are equal but for the order of members. An object is what it gives for each name, so two
objects are alike when they have the same names with values that are alike. Values are alike exactly when
they have one canonical text. -/
namespace Lexicon.Json

/-- Equal but for the order of members at every depth. Integers, floating-point numbers, truth values and
texts are kept apart, and floating-point numbers are compared by their text. -/
inductive Alike : Json → Json → Prop
  | null : Alike null null
  | bool (b : Bool) : Alike (bool b) (bool b)
  | int (n : ℤ) : Alike (int n) (int n)
  | float {x y : Binary64} (h : x.toText = y.toText) : Alike (float x) (float y)
  | infinity (negative : Bool) : Alike (infinity negative) (infinity negative)
  | str (s : RawText) : Alike (str s) (str s)
  | array {xs ys : List Json} (h : List.Forall₂ Alike xs ys) : Alike (array xs) (array ys)
  | object {xs ys : Fields} (h : ∀ name, Option.Rel Alike (xs.get? name) (ys.get? name)) :
    Alike (object xs) (object ys)

section Members

variable {xs ys : Fields}

/-- Members in the order of their names show which members there are, and nothing else. -/
theorem sorted_eq_iff_get?_eq (hxs : xs.keys.Nodup) (hys : ys.keys.Nodup) :
    (xs.mergeSort fun a b => TextOf.le a.1 b.1) = (ys.mergeSort fun a b => TextOf.le a.1 b.1) ↔
      ∀ name, xs.get? name = ys.get? name := by
  rw [← Table.perm_iff_get?_eq hxs hys]
  have hsorted (fields : Fields) :
      (fields.mergeSort fun a b => TextOf.le a.1 b.1).Pairwise fun a b =>
        TextOf.le a.1 b.1 = true :=
    @List.pairwise_mergeSort _ (fun a b : RawText × Json => TextOf.le a.1 b.1)
      (fun _ _ _ => RawText.le_trans) (fun a b => RawText.le_total a.1 b.1) fields
  have hxs' := List.mergeSort_perm xs fun a b => TextOf.le a.1 b.1
  have hys' := List.mergeSort_perm ys fun a b => TextOf.le a.1 b.1
  constructor
  · intro h
    exact hxs'.symm.trans (h ▸ hys')
  · intro h
    have hperm := hxs'.trans (h.trans hys'.symm)
    refine List.Perm.eq_of_pairwise ?_ (hsorted xs) (hsorted ys) hperm
    intro a b ha hb hab hba
    exact List.inj_on_of_nodup_map hys (h.mem_iff.1 (hxs'.mem_iff.1 ha)) (hys'.mem_iff.1 hb)
      (RawText.eq_of_le_of_le hab hba)

end Members

theorem toText_injective : Function.Injective Binary64.toText := fun x y h =>
  float.inj (eq_of_render_eq isPlain_spaced (v := float x) (w := float y) rfl rfl
    (congrArg Text.raw h))

theorem alike_array_iff {xs ys : List Json} :
    (array xs).Alike (array ys) ↔ List.Forall₂ Alike xs ys :=
  ⟨fun h => by cases h with | array h => exact h, .array⟩

theorem alike_object_iff {xs ys : Fields} :
    (object xs).Alike (object ys) ↔ ∀ name, Option.Rel Alike (xs.get? name) (ys.get? name) :=
  ⟨fun h => by cases h with | object h => exact h, .object⟩

theorem sortKeysItems_eq_iff {xs ys : List Json} :
    sortKeysItems xs = sortKeysItems ys ↔ List.Forall₂ (fun v w => v.sortKeys = w.sortKeys) xs ys := by
  rw [sortKeysItems_eq, sortKeysItems_eq, ← List.forall₂_eq_eq_eq, List.forall₂_map_left_iff,
    List.forall₂_map_right_iff]

/-- Sorted members are the same exactly when each name has the same sorted value. -/
theorem sortKeys_object_eq_iff {xs ys : Fields} (hxs : xs.keys.Nodup) (hys : ys.keys.Nodup) :
    (object xs).sortKeys = (object ys).sortKeys ↔
      ∀ name, (xs.get? name).map sortKeys = (ys.get? name).map sortKeys := by
  have hkeys (fields : Fields) :
      Table.keys (fields.map fun field => (field.1, field.2.sortKeys)) = fields.keys :=
    List.map_map
  rw [sortKeys, sortKeys, object.injEq, sortKeysFields_eq, sortKeysFields_eq,
    sorted_eq_iff_get?_eq ((hkeys xs).symm ▸ hxs) ((hkeys ys).symm ▸ hys)]
  simp only [Table.get?_map]

/-- Values without repeated names are alike exactly when they are the same with their members sorted. -/
theorem sortKeys_eq_iff_alike {v w : Json} (hv : v.HasDistinctNames) (hw : w.HasDistinctNames) :
    v.sortKeys = w.sortKeys ↔ v.Alike w := by
  induction v using Json.induction generalizing w with
  | array xs ih =>
    cases w with
    | array ys =>
      obtain ⟨-, hxs⟩ := everywhere_array_iff.1 hv
      obtain ⟨-, hys⟩ := everywhere_array_iff.1 hw
      rw [alike_array_iff, sortKeys, sortKeys, array.injEq, sortKeysItems_eq_iff,
        List.forall₂_iff_get, List.forall₂_iff_get]
      refine and_congr_right fun _ => forall_congr' fun i => forall₂_congr fun hi hi' => ?_
      exact ih _ (List.get_mem ..) (hxs _ (List.get_mem ..)) (hys _ (List.get_mem ..))
    | _ => constructor <;> intro h <;> cases h
  | object xs ih =>
    cases w with
    | object ys =>
      obtain ⟨hxs, hxs'⟩ := everywhere_object_iff.1 hv
      obtain ⟨hys, hys'⟩ := everywhere_object_iff.1 hw
      rw [alike_object_iff,
        sortKeys_object_eq_iff (of_decide_eq_true hxs) (of_decide_eq_true hys)]
      refine forall_congr' fun name => ?_
      cases hx : xs.get? name with
      | none =>
        cases hy : Table.get? ys name with
        | none => exact iff_of_true rfl .none
        | some w => constructor <;> intro h <;> cases h
      | some v =>
        cases hy : Table.get? ys name with
        | none => constructor <;> intro h <;> cases h
        | some w =>
          have hvmem := Table.mem_of_get?_eq_some hx
          rw [Option.map_some, Option.map_some, Option.some.injEq, Option.rel_some_some]
          exact ih _ hvmem (hxs' _ hvmem) (hys' _ (Table.mem_of_get?_eq_some hy))
    | _ => constructor <;> intro h <;> cases h
  | float x =>
    cases w with
    | float y =>
      constructor
      · intro h
        cases h
        exact .float rfl
      · intro h
        cases h with
        | float h => rw [toText_injective h]
    | _ => constructor <;> intro h <;> cases h
  | _ =>
    constructor
    · intro h
      cases w <;> cases h
      constructor
    · intro h
      cases h
      rfl

end Lexicon.Json
