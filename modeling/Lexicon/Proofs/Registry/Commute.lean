import Lexicon.Proofs.Basic
import Lexicon.Proofs.Registry.Edit

/-! Changes in another order. Two changes can be made in either order exactly when they can on every single
dictionary, which is when neither undoes what the other does; and changes of which any two can, in any order. -/
namespace Lexicon

namespace DictionaryInfo

variable {info : DictionaryInfo} {id other : ℤ} {enabled enabled' : Bool} {place? other? : Option ℕ}

theorem switchedAt_of_ne (h : info.id ≠ id) (enabled : Bool) : info.switchedAt id enabled = info :=
  if_neg h

theorem placedAt_switchedAt (place? : Option ℕ) (id : ℤ) (enabled : Bool) (info : DictionaryInfo) :
    (info.switchedAt id enabled).placedAt place? = (info.placedAt place?).switchedAt id enabled := by
  rw [switchedAt, switchedAt]
  by_cases hid : info.id = id
  · rw [if_pos hid, id_placedAt, if_pos hid]
    rfl
  · rw [if_neg hid, id_placedAt, if_neg hid]

theorem switchedAt_comm_iff :
    (∀ info : DictionaryInfo, (info.switchedAt id enabled).switchedAt other enabled' =
      (info.switchedAt other enabled').switchedAt id enabled) ↔
      (id = other → enabled = enabled') := by
  constructor
  · rintro h rfl
    have hstate := congrArg (·.state.enabled) (h ⟨id, [], ⟨true, none⟩⟩)
    simpa [switchedAt, eq_comm] using hstate
  · intro h info
    by_cases hid : info.id = id
    · by_cases hother : info.id = other
      · obtain rfl := hid.symm.trans hother
        rw [h rfl]
      · rw [switchedAt_of_ne hother, switchedAt_of_ne (by rwa [id_switchedAt])]
    · rw [switchedAt_of_ne hid]
      exact (switchedAt_of_ne (by rwa [id_switchedAt]) enabled).symm

theorem placedAt_comm_iff :
    (info.placedAt place?).placedAt other? = (info.placedAt other?).placedAt place? ↔
      ∀ i ∈ place?, ∀ j ∈ other?, i = j := by
  constructor
  · intro h i hi j hj
    obtain rfl : place? = some i := hi
    obtain rfl : other? = some j := hj
    have hpriority : some (j : ℤ) = some (i : ℤ) := congrArg (·.state.priority) h
    exact Int.ofNat.inj (Option.some.inj hpriority).symm
  · intro h
    cases hplace : place? with
    | none => rfl
    | some i =>
      cases hother : other? with
      | none => rfl
      | some j => rw [h i hplace j hother]

end DictionaryInfo

namespace RegistryEdit

variable {edit other : RegistryEdit}

section Single

/-- Changes can be made in either order when they can on every dictionary. -/
theorem commute_iff_change? :
    (∀ r, other.apply (edit.apply r) = edit.apply (other.apply r)) ↔
      ∀ info, (edit.change? info).bind other.change? = (other.change? info).bind edit.change? := by
  constructor
  · intro h info
    have hhead (f : DictionaryInfo → Option DictionaryInfo) : ([info].filterMap f).head? = f info := by
      cases hf : f info <;> simp [hf]
    have hinfos := congrArg (·.infos.head?) (h ⟨[info], List.nodup_singleton _⟩)
    simpa only [infos_apply, List.filterMap_filterMap, hhead] using hinfos
  · intro h r
    refine Registry.eq_of_infos_eq ?_
    simp only [infos_apply, List.filterMap_filterMap]
    exact congrArg (List.filterMap · r.infos) (funext h)

/-- It does not matter whether a dictionary is changed before it is deleted. -/
theorem change?_delete_comm (edit : RegistryEdit) (id : ℤ) (info : DictionaryInfo) :
    ((delete id).change? info).bind edit.change? = (edit.change? info).bind (delete id).change? := by
  rw [change?]
  split
  case isTrue hid =>
    refine (Option.bind_eq_none_iff.2 fun left hleft => ?_).symm
    exact if_pos ((id_of_change? hleft).trans hid)
  case isFalse hid =>
    rw [Option.bind_some]
    cases hleft : edit.change? info with
    | none => rfl
    | some left => exact (if_neg (id_of_change? hleft ▸ hid)).symm

theorem change?_toggle_reorder_comm (id : ℤ) (enabled : Bool) (order : List ℤ)
    (info : DictionaryInfo) :
    ((toggle id enabled).change? info).bind (reorder order).change? =
      ((reorder order).change? info).bind (toggle id enabled).change? := by
  simp only [change?, Option.bind_some, DictionaryInfo.id_switchedAt,
    DictionaryInfo.placedAt_switchedAt]

/-- Two orders may be given in either order when no dictionary gets two places from them. -/
theorem change?_reorder_comm_iff (order order' : List ℤ) :
    (∀ info, ((reorder order).change? info).bind (reorder order').change? =
      ((reorder order').change? info).bind (reorder order).change?) ↔
      ∀ id ∈ order, id ∈ order' → lastPlace order id = lastPlace order' id := by
  simp only [change?, Option.bind_some, Option.some.injEq, DictionaryInfo.id_placedAt,
    DictionaryInfo.placedAt_comm_iff]
  constructor
  · intro h id hid hid'
    obtain ⟨i, hi⟩ := exists_lastPlaceFrom 0 hid
    obtain ⟨j, hj⟩ := exists_lastPlaceFrom 0 hid'
    rw [lastPlace, lastPlace, hi, hj, h ⟨id, [], ⟨true, none⟩⟩ i hi j hj]
  · intro h info i hi j hj
    have hplaces := h info.id (mem_of_lastPlaceFrom hi) (mem_of_lastPlaceFrom hj)
    rw [hi, hj] at hplaces
    exact Option.some.inj hplaces

end Single

section Independent

/-- Changes of which neither undoes what the other does: of one dictionary to one state, and of dictionaries
to one place. -/
def Independent : RegistryEdit → RegistryEdit → Prop
  | toggle id enabled, toggle id' enabled' => id = id' → enabled = enabled'
  | reorder order, reorder order' =>
    ∀ id ∈ order, id ∈ order' → lastPlace order id = lastPlace order' id
  | _, _ => True

theorem change?_comm_iff (edit other : RegistryEdit) :
    (∀ info, (edit.change? info).bind other.change? = (other.change? info).bind edit.change?) ↔
      edit.Independent other := by
  cases edit with
  | delete id =>
    exact iff_of_true (change?_delete_comm other id) (by cases other <;> trivial)
  | toggle id enabled =>
    cases other with
    | toggle id' enabled' =>
      simp only [change?, Option.bind_some, Option.some.injEq]
      exact DictionaryInfo.switchedAt_comm_iff
    | delete id' => exact iff_of_true (fun info => (change?_delete_comm _ id' info).symm) trivial
    | reorder order => exact iff_of_true (change?_toggle_reorder_comm id enabled order) trivial
  | reorder order =>
    cases other with
    | toggle id' enabled' =>
      exact iff_of_true (fun info => (change?_toggle_reorder_comm id' enabled' order info).symm) trivial
    | delete id' => exact iff_of_true (fun info => (change?_delete_comm _ id' info).symm) trivial
    | reorder order' => exact change?_reorder_comm_iff order order'

instance decidableIndependent : (edit other : RegistryEdit) → Decidable (edit.Independent other)
  | toggle id enabled, toggle id' enabled' =>
    inferInstanceAs (Decidable (id = id' → enabled = enabled'))
  | reorder order, reorder order' =>
    inferInstanceAs (Decidable (∀ id ∈ order, id ∈ order' → lastPlace order id = lastPlace order' id))
  | toggle .., delete _ | toggle .., reorder _ | delete _, toggle .. | delete _, delete _
  | delete _, reorder _ | reorder _, toggle .. | reorder _, delete _ => inferInstanceAs (Decidable True)

/-- Two changes lead to one registry in either order exactly when they are independent, as a toggle and an
order are, a deletion and any change, and toggles of two dictionaries, whether the dictionaries are there or not.
Changes of which any two are independent may be made in any order. -/
theorem independent_edits_commute :
    (∀ edit other : RegistryEdit, edit.Independent other ↔
      ∀ r, other.apply (edit.apply r) = edit.apply (other.apply r)) ∧
    ∀ edits edits' : List RegistryEdit, edits.Pairwise Independent → edits.Perm edits' →
      ∀ r, edits.foldl apply r = edits'.foldl apply r := by
  have hcommute (edit other : RegistryEdit) : edit.Independent other ↔
      ∀ r, other.apply (edit.apply r) = edit.apply (other.apply r) :=
    (change?_comm_iff edit other).symm.trans commute_iff_change?.symm
  refine ⟨hcommute, fun edits edits' hindependent hperm r => ?_⟩
  refine hperm.foldl_eq' (fun edit hedit other hother r => ?_) r
  rcases eq_or_ne edit other with rfl | hne
  · rfl
  · rcases rel_or_rel_of_pairwise hindependent hedit hother hne with h | h
    · exact (hcommute edit other).1 h r
    · exact ((hcommute other edit).1 h r).symm

/-- Changes of three dictionaries and of two that are not there, forwards and backwards. -/
theorem independent_edits_commute_threeDictionaries :
    [toggle 1 false, reorder [3, 9, 1, 3], delete 7, toggle 2 true, delete 3].foldl apply
        Registry.threeDictionaries =
      [delete 3, toggle 2 true, delete 7, reorder [3, 9, 1, 3], toggle 1 false].foldl apply
        Registry.threeDictionaries :=
  independent_edits_commute.2 _ _ (by decide) (by decide) _

end Independent

end RegistryEdit
end Lexicon
