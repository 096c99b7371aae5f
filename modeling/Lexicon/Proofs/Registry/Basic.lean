import Lexicon.Registry.Basic
import Mathlib.Data.List.Nodup

/-! Registries built from lists, and changed in one place. Dictionaries with ids of their own stay as
they are listed, sorting what is sorted changes nothing, and a change to one dictionary leaves the
others as they were. -/
namespace Lexicon

namespace DictionaryInfo

variable {info other : DictionaryInfo} {infos : List DictionaryInfo}

theorem putInto_of_not_mem (h : info.id ∉ infos.map (·.id)) :
    info.putInto infos = infos ++ [info] := by
  induction infos with
  | nil => rfl
  | cons first rest ih =>
    rw [List.map_cons, List.mem_cons, not_or] at h
    rw [putInto, if_neg (Ne.symm h.1), ih h.2, List.cons_append]

theorem mem_or_eq_of_mem_putInto (h : other ∈ info.putInto infos) :
    other ∈ infos ∨ other = info := by
  induction infos with
  | nil => exact .inr (List.mem_singleton.1 h)
  | cons first rest ih =>
    unfold putInto at h
    split at h
    · exact (List.mem_cons.1 h).symm.imp_left (List.mem_cons_of_mem _)
    · rcases List.mem_cons.1 h with rfl | h
      · exact .inl (List.mem_cons_self ..)
      · exact (ih h).imp_left (List.mem_cons_of_mem _)

end DictionaryInfo

namespace Registry

variable {infos : List DictionaryInfo} {info : DictionaryInfo}

theorem eq_of_infos_eq {r r' : Registry} (h : r.infos = r'.infos) : r = r' := by
  cases r
  cases r'
  cases h
  rfl

theorem infos_foldl_put {r : Registry} (h : ((r.infos ++ infos).map (·.id)).Nodup) :
    (infos.foldl put r).infos = r.infos ++ infos := by
  induction infos generalizing r with
  | nil => simp
  | cons info infos ih =>
    have hput : (r.put info).infos = r.infos ++ [info] := by
      rw [List.map_append, List.map_cons] at h
      exact DictionaryInfo.putInto_of_not_mem fun hmem =>
        List.disjoint_of_nodup_append h hmem (List.mem_cons_self ..)
    rw [List.append_cons, ← hput] at h ⊢
    exact ih h

/-- Dictionaries with ids of their own are a registry as they are listed. -/
theorem infos_ofList (h : (infos.map (·.id)).Nodup) : (ofList infos).infos = infos :=
  infos_foldl_put h

theorem mem_of_mem_ofList (h : info ∈ (ofList infos).infos) : info ∈ infos := by
  refine List.foldlRecOn infos put (motive := fun r => info ∈ r.infos → info ∈ infos) ?_ ?_ h
  · exact fun h => absurd h List.not_mem_nil
  · intro r ih other hother h
    rcases DictionaryInfo.mem_or_eq_of_mem_putInto h with h | rfl
    · exact ih h
    · exact hother

theorem le_maxId {r : Registry} {id : Int} (h : id ∈ r.ids) : id ≤ r.maxId := by
  have hfold (l : List Int) (first : Int) :
      first ≤ l.foldl max first ∧ ∀ id ∈ l, id ≤ l.foldl max first := by
    induction l generalizing first with
    | nil => exact ⟨Int.le_refl _, List.forall_mem_nil _⟩
    | cons a l ih =>
      obtain ⟨hfirst, hl⟩ := ih (max first a)
      exact ⟨Int.le_trans (Int.le_max_left ..) hfirst,
        List.forall_mem_cons.2 ⟨Int.le_trans (Int.le_max_right ..) hfirst, hl⟩⟩
  unfold maxId
  cases hids : r.ids with
  | nil => exact absurd (hids ▸ h) List.not_mem_nil
  | cons first rest =>
    rw [hids, List.mem_cons] at h
    rcases h with rfl | h
    · exact (hfold rest id).1
    · exact (hfold rest first).2 id h

/-- The id after the greatest one is not taken. -/
theorem not_mem_ids_maxId_add_one (r : Registry) : r.maxId + 1 ∉ r.ids := fun h => by
  have := le_maxId h
  omega

theorem nodup_sorted (r : Registry) : (r.sorted.map (·.id)).Nodup :=
  (r.sorted_perm.map (·.id)).nodup_iff.2 r.nodup

section Toggle

variable {id other : Int}

theorem get?_snapshot (r : Registry) (id : Int) :
    r.snapshot.get? id = (r.get? id).map (·.state) := by
  simp only [snapshot, Table.get?, Registry.get?, List.find?_map, Option.map_map]
  rfl

theorem exists_get?_eq_some {r : Registry} (h : id ∈ r.ids) :
    ∃ info, r.get? id = some info ∧ info.id = id := by
  obtain ⟨info, hinfo⟩ := Option.isSome_iff_exists.1 ((r.contains_iff id).2 h)
  exact ⟨info, hinfo, by simpa using List.find?_some hinfo⟩

/-- Only the dictionary that is changed is found changed. -/
theorem get?_modify (r : Registry) (id : Int) (f : DictionaryState → DictionaryState)
    (other : Int) : (r.modify id f).get? other = (r.get? other).map fun info =>
      if info.id = id then { info with state := f info.state } else info := by
  rw [Registry.get?, modify, List.find?_map]
  refine congrArg _ (congrArg (List.find? · r.infos) (funext fun info => ?_))
  simp only [Function.comp_apply]
  split <;> rfl

theorem get?_modify_of_ne (h : other ≠ id) (r : Registry) (f : DictionaryState → DictionaryState) :
    (r.modify id f).get? other = r.get? other := by
  rw [get?_modify]
  cases hinfo : r.get? other with
  | none => rfl
  | some info =>
    have hid : info.id = other := by simpa using List.find?_some hinfo
    rw [Option.map_some, if_neg (hid ▸ h)]

theorem isEnabled_toggle_self {r : Registry} (h : id ∈ r.ids) (enabled : Bool) :
    (r.toggle id enabled).snapshot.isEnabled id = enabled := by
  obtain ⟨info, hinfo, hid⟩ := exists_get?_eq_some h
  simp [Snapshot.isEnabled, get?_snapshot, toggle, get?_modify, hinfo, hid]

theorem isEnabled_toggle_of_ne (h : other ≠ id) (r : Registry) (enabled : Bool) :
    (r.toggle id enabled).snapshot.isEnabled other = r.snapshot.isEnabled other := by
  simp only [Snapshot.isEnabled, get?_snapshot, toggle, get?_modify_of_ne h]

/-- Switching a dictionary on or off leaves every priority as it is. -/
theorem priorityOf_toggle (r : Registry) (id : Int) (enabled : Bool) (other : Int) :
    (r.toggle id enabled).snapshot.priorityOf other = r.snapshot.priorityOf other := by
  rw [Snapshot.priorityOf, Snapshot.priorityOf, get?_snapshot, get?_snapshot, toggle, get?_modify]
  cases r.get? other with
  | none => rfl
  | some info =>
    simp only [Option.map_some, Option.bind_some]
    split <;> rfl

end Toggle

section Hides

variable {id : Int}

/-- A dictionary is in the registry and switched off. -/
def Hides (r : Registry) (id : Int) : Prop :=
  ∃ info ∈ r.infos, info.id = id ∧ info.state.enabled = false

instance (r : Registry) (id : Int) : Decidable (r.Hides id) :=
  inferInstanceAs (Decidable (∃ info ∈ r.infos, info.id = id ∧ info.state.enabled = false))

/-- The dictionaries that are not hidden are in use, those that the registry does not know included. -/
theorem not_hides_iff (r : Registry) : ¬ r.Hides id ↔ r.snapshot.isEnabled id = true := by
  rw [Snapshot.isEnabled, get?_snapshot]
  cases hinfo : r.get? id with
  | none =>
    have hid : id ∉ r.ids := fun h => by
      obtain ⟨info, hsome, -⟩ := exists_get?_eq_some h
      rw [hinfo] at hsome
      cases hsome
    refine iff_of_true ?_ rfl
    rintro ⟨info, hmem, rfl, -⟩
    exact hid (List.mem_map_of_mem hmem)
  | some info =>
    obtain rfl : info.id = id := by simpa using List.find?_some hinfo
    have hmem : info ∈ r.infos := List.mem_of_find?_eq_some hinfo
    rw [Option.map_some, Option.map_some, Option.getD_some, ← Bool.not_eq_false]
    refine not_congr ⟨?_, fun hoff => ⟨info, hmem, rfl, hoff⟩⟩
    rintro ⟨other, hother, hid, hoff⟩
    rwa [List.inj_on_of_nodup_map r.nodup hother hmem hid] at hoff

end Hides

/-- Sorted dictionaries with ids of their own are the sorted dictionaries of a registry. -/
theorem sorted_ofList (hids : (infos.map (·.id)).Nodup)
    (hsorted : infos.Pairwise fun a b => a.le b = true) : (ofList infos).sorted = infos := by
  rw [sorted, infos_ofList hids]
  exact List.mergeSort_of_pairwise hsorted

end Registry

end Lexicon
