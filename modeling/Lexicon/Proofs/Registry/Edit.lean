import Lexicon.Proofs.Registry.Document
import Lexicon.Proofs.Registry.Reorder
import Lexicon.Registry.Edit

/-! Changes to registries. A change acts on every dictionary by itself, so what it does to a registry shows in
the sorted dictionaries, whatever the order in which they were added; and a changed registry can be written if
the registry could be. -/
namespace Lexicon

namespace DictionaryInfo

theorem id_eq_of_le {a b : DictionaryInfo} (hab : a.le b = true) (hba : b.le a = true) :
    a.id = b.id := by
  simp only [le] at *
  grind

/-- The dictionary with an id switched on or off, and any other one as it is. -/
def switchedAt (id : ℤ) (enabled : Bool) (info : DictionaryInfo) : DictionaryInfo :=
  if info.id = id then { info with state := { info.state with enabled := enabled } } else info

@[simp] theorem id_switchedAt (id : ℤ) (enabled : Bool) (info : DictionaryInfo) :
    (info.switchedAt id enabled).id = info.id := by
  rw [switchedAt]
  split <;> rfl

end DictionaryInfo

namespace Registry

variable {r r' : Registry} {info : DictionaryInfo} {limit : ℕ}

section Order

/-- A registry has its dictionaries in one order only that is sorted. -/
theorem sorted_eq_of_pairwise {infos : List DictionaryInfo} (hperm : infos.Perm r.infos)
    (hsorted : infos.Pairwise fun a b => a.le b = true) : r.sorted = infos := by
  have hperm' : r.sorted.Perm infos := r.sorted_perm.trans hperm.symm
  refine List.Perm.eq_of_pairwise ?_ r.pairwise_sorted hsorted hperm'
  intro a b ha hb hab hba
  exact List.inj_on_of_nodup_map r.nodup_sorted ha (hperm'.mem_iff.2 hb)
    (DictionaryInfo.id_eq_of_le hab hba)

/-- Sorting forgets the order in which dictionaries were added, and nothing else. -/
theorem sorted_eq_iff_perm : r.sorted = r'.sorted ↔ r.infos.Perm r'.infos := by
  constructor
  · intro h
    exact r.sorted_perm.symm.trans (h ▸ r'.sorted_perm)
  · intro h
    exact sorted_eq_of_pairwise (r'.sorted_perm.trans h.symm) r'.pairwise_sorted

theorem contains_eq_of_perm (h : r.infos.Perm r'.infos) (id : ℤ) :
    r.contains id = r'.contains id := by
  rw [Bool.eq_iff_iff, contains_iff, contains_iff]
  exact (h.map (·.id)).mem_iff

end Order

section Absent

variable {id : ℤ}

theorem modify_of_not_mem (h : id ∉ r.ids) (f : DictionaryState → DictionaryState) :
    r.modify id f = r := by
  refine eq_of_infos_eq ((List.map_congr_left fun info hinfo => ?_).trans (List.map_id r.infos))
  exact if_neg fun hid => h (List.mem_map.2 ⟨info, hinfo, hid⟩)

theorem delete_of_not_mem (h : id ∉ r.ids) : r.delete id = r := by
  refine eq_of_infos_eq (List.filter_eq_self.2 fun info hinfo => ?_)
  exact decide_eq_true fun hid => h (List.mem_map.2 ⟨info, hinfo, hid⟩)

end Absent

section Writable

/-- A registry that a file can hold under a limit for numbers. -/
def Writable (limit : ℕ) (r : Registry) : Prop :=
  ∀ info ∈ r.infos, Ini.IsNormal info.name ∧ info.Fits limit

theorem Writable.persists (h : r.Writable limit) : r.Persists limit :=
  persists_of_forall_mem (fun info hinfo => (h info hinfo).1) fun info hinfo => (h info hinfo).2

theorem Writable.modify (h : r.Writable limit) (id : ℤ) {f : DictionaryState → DictionaryState}
    (hf : ∀ info ∈ r.infos, ∀ priority ∈ (f info.state).priority,
      (Text.ofNat priority.natAbs).length ≤ limit) : (r.modify id f).Writable limit := by
  refine List.forall_mem_map.2 fun info hinfo => ?_
  obtain ⟨hname, hfits⟩ := h info hinfo
  split
  · exact ⟨hname, hfits.id_le, hf info hinfo⟩
  · exact ⟨hname, hfits⟩

theorem Writable.reorderFrom (hlimit : 0 < limit) {position : ℕ} {order : List ℤ}
    (h : r.Writable limit) (hlength : position + order.length ≤ 10 ^ limit) :
    (r.reorderFrom position order).Writable limit := by
  induction order generalizing r position with
  | nil => exact h
  | cons id rest ih =>
    rw [List.length_cons] at hlength
    refine ih (h.modify id fun info _ priority hpriority => ?_) (by omega)
    obtain rfl : (position : ℤ) = priority := Option.some.inj hpriority
    rw [Int.natAbs_natCast, Text.length_ofNat_le_iff hlimit]
    omega

end Writable

end Registry

namespace RegistryEdit

variable {r r' : Registry} {edit : RegistryEdit} {info left : DictionaryInfo} {limit : ℕ}

section Single

/-- What a change makes of a dictionary, if it leaves it. -/
def change? : RegistryEdit → DictionaryInfo → Option DictionaryInfo
  | toggle id enabled, info => some (info.switchedAt id enabled)
  | delete id, info => if info.id = id then none else some info
  | reorder order, info => some (info.placedAt (lastPlace order info.id))

/-- A change acts on every dictionary by itself. -/
theorem infos_apply (r : Registry) (edit : RegistryEdit) :
    (edit.apply r).infos = r.infos.filterMap edit.change? := by
  cases edit with
  | toggle id enabled => exact (congrFun List.filterMap_eq_map _).symm
  | reorder order => exact (r.infos_reorder order).trans (congrFun List.filterMap_eq_map _).symm
  | delete id =>
    have hguard : (delete id).change? = Option.guard fun info => info.id ≠ id := by
      funext info
      by_cases hid : info.id = id <;> simp [change?, Option.guard, hid]
    rw [hguard, List.filterMap_eq_filter]
    rfl

theorem id_of_change? (h : edit.change? info = some left) : left.id = info.id := by
  cases edit with
  | toggle id enabled =>
    obtain rfl := Option.some.inj h
    exact info.id_switchedAt id enabled
  | delete id =>
    rw [change?] at h
    split at h <;> cases h
    rfl
  | reorder order =>
    obtain rfl := Option.some.inj h
    rfl

theorem perm_apply (h : r.infos.Perm r'.infos) (edit : RegistryEdit) :
    (edit.apply r).infos.Perm (edit.apply r').infos := by
  rw [infos_apply, infos_apply]
  exact h.filterMap edit.change?

end Single

theorem missingId?_eq_of_perm (h : r.infos.Perm r'.infos) (edit : RegistryEdit) :
    edit.missingId? r = edit.missingId? r' := by
  cases edit <;> simp only [missingId?, Registry.contains_eq_of_perm h]

/-- A change that is about a dictionary that is not there changes nothing. -/
theorem apply_of_missingId? {id : ℤ} (h : edit.missingId? r = some id) : edit.apply r = r := by
  have hnot {id' : ℤ} (hmissing : (if r.contains id' then none else some id') = some id) :
      id' ∉ r.ids := by
    rw [← Registry.contains_iff]
    intro hcontains
    rw [if_pos hcontains] at hmissing
    cases hmissing
  cases edit with
  | toggle id' enabled =>
    exact Registry.modify_of_not_mem (hnot h) fun state => { state with enabled := enabled }
  | delete => exact Registry.delete_of_not_mem (hnot h)
  | reorder => cases h

/-- The positions that a change gives have no more digits than the limit allows. -/
def Fits (limit : ℕ) : RegistryEdit → Prop
  | reorder order => order.length ≤ 10 ^ limit
  | _ => True

theorem writable_apply (hlimit : 0 < limit) (h : r.Writable limit) (hedit : edit.Fits limit) :
    (edit.apply r).Writable limit := by
  cases edit with
  | toggle id enabled => exact h.modify id fun info hinfo => (h info hinfo).2.priority_le
  | delete id => exact fun info hinfo => h info (List.mem_of_mem_filter hinfo)
  | reorder order => exact h.reorderFrom hlimit (by rw [Nat.zero_add]; exact hedit)

end RegistryEdit
end Lexicon
