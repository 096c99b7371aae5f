import Lexicon.Proofs.Registry.Basic
import Mathlib.Data.Int.Notation
import Mathlib.Data.List.Dedup
import Mathlib.Data.Nat.Notation

/-! Orders of dictionaries. An order gives every dictionary its last place in it, whatever else it lists; so
the listed dictionaries are sorted as they stand last in the order, and the others stay as they are. -/
namespace Lexicon

section LastPlace

variable {order rest : List ℤ} {id first other : ℤ} {position place : ℕ}

/-- The last place of an id in an order whose places are counted from `position`. -/
def lastPlaceFrom (position : ℕ) : List ℤ → ℤ → Option ℕ
  | [], _ => none
  | first :: rest, id =>
    (lastPlaceFrom (position + 1) rest id).or (if first = id then some position else none)

/-- The last place of an id in an order. -/
def lastPlace (order : List ℤ) (id : ℤ) : Option ℕ := lastPlaceFrom 0 order id

theorem lastPlaceFrom_eq_none_iff : lastPlaceFrom position order id = none ↔ id ∉ order := by
  induction order generalizing position with
  | nil => simp [lastPlaceFrom]
  | cons first rest ih =>
    rw [lastPlaceFrom, Option.or_eq_none_iff, ih, List.mem_cons, not_or]
    by_cases hfirst : first = id
    · simp [hfirst]
    · simp [hfirst, Ne.symm hfirst]

theorem exists_lastPlaceFrom (position : ℕ) (h : id ∈ order) :
    ∃ place, lastPlaceFrom position order id = some place :=
  Option.ne_none_iff_exists'.1 fun hnone => lastPlaceFrom_eq_none_iff.1 hnone h

theorem mem_of_lastPlaceFrom (h : lastPlaceFrom position order id = some place) : id ∈ order := by
  by_contra hnot
  rw [lastPlaceFrom_eq_none_iff.2 hnot] at h
  cases h

/-- Whatever stands first, an id of the rest has its last place there. -/
theorem lastPlaceFrom_cons_of_mem (h : id ∈ rest) :
    lastPlaceFrom position (first :: rest) id = lastPlaceFrom (position + 1) rest id := by
  obtain ⟨place, hplace⟩ := exists_lastPlaceFrom (position + 1) h
  rw [lastPlaceFrom, hplace, Option.some_or]

theorem lastPlaceFrom_cons_of_not_mem (h : id ∉ rest) :
    lastPlaceFrom position (first :: rest) id = if first = id then some position else none := by
  rw [lastPlaceFrom, lastPlaceFrom_eq_none_iff.2 h, Option.none_or]

/-- A last place is one of the rest, unless it is the first one. -/
theorem eq_some_of_lastPlaceFrom_cons
    (h : lastPlaceFrom position (first :: rest) id = some place) :
    lastPlaceFrom (position + 1) rest id = some place ∨ first = id ∧ position = place := by
  by_cases hmem : id ∈ rest
  · exact .inl (lastPlaceFrom_cons_of_mem hmem ▸ h)
  · rw [lastPlaceFrom_cons_of_not_mem hmem] at h
    split at h
    case isTrue hfirst => exact .inr ⟨hfirst, Option.some.inj h⟩
    case isFalse => cases h

theorem le_lastPlaceFrom (h : lastPlaceFrom position order id = some place) : position ≤ place := by
  induction order generalizing position with
  | nil => cases h
  | cons first rest ih =>
    rcases eq_some_of_lastPlaceFrom_cons h with h | ⟨-, rfl⟩
    · exact Nat.le_of_succ_le (ih h)
    · exact Nat.le_refl _

/-- No two ids have one place. -/
theorem lastPlaceFrom_inj (h : lastPlaceFrom position order id = some place)
    (hother : lastPlaceFrom position order other = some place) : id = other := by
  induction order generalizing position with
  | nil => cases h
  | cons first rest ih =>
    rcases eq_some_of_lastPlaceFrom_cons h with h | ⟨rfl, rfl⟩
    · rcases eq_some_of_lastPlaceFrom_cons hother with hother | ⟨-, rfl⟩
      · exact ih h hother
      · exact absurd (le_lastPlaceFrom h) (Nat.not_succ_le_self _)
    · rcases eq_some_of_lastPlaceFrom_cons hother with hother | ⟨rfl, -⟩
      · exact absurd (le_lastPlaceFrom hother) (Nat.not_succ_le_self _)
      · rfl

/-- The last occurrences of ids stand in the order of their places. -/
theorem pairwise_dedup_lastPlaceFrom (position : ℕ) (order : List ℤ) :
    order.dedup.Pairwise fun a b => ∀ i ∈ lastPlaceFrom position order a,
      ∀ j ∈ lastPlaceFrom position order b, i < j := by
  induction order generalizing position with
  | nil => exact List.Pairwise.nil
  | cons first rest ih =>
    have hrest : rest.dedup.Pairwise fun a b => ∀ i ∈ lastPlaceFrom position (first :: rest) a,
        ∀ j ∈ lastPlaceFrom position (first :: rest) b, i < j := by
      refine (ih (position + 1)).imp_of_mem fun ha hb hlt => ?_
      rwa [lastPlaceFrom_cons_of_mem (List.mem_dedup.1 ha),
        lastPlaceFrom_cons_of_mem (List.mem_dedup.1 hb)]
    by_cases hfirst : first ∈ rest
    · rwa [List.dedup_cons_of_mem hfirst]
    · rw [List.dedup_cons_of_notMem hfirst]
      refine List.pairwise_cons.2 ⟨fun b hb i hi j hj => ?_, hrest⟩
      rw [lastPlaceFrom_cons_of_not_mem hfirst, if_pos rfl, Option.mem_some_iff] at hi
      rw [lastPlaceFrom_cons_of_mem (List.mem_dedup.1 hb)] at hj
      exact hi ▸ le_lastPlaceFrom hj

/-- The last place of an id is not behind that of another one, where both have a place. -/
def NotBehind (order : List ℤ) (id other : ℤ) : Prop :=
  ∀ i ∈ lastPlace order id, ∀ j ∈ lastPlace order other, i ≤ j

theorem pairwise_dedup_notBehind (order : List ℤ) : order.dedup.Pairwise (NotBehind order) := by
  refine (pairwise_dedup_lastPlaceFrom 0 order).imp ?_
  intro a b h i hi j hj
  exact Nat.le_of_lt (h i hi j hj)

theorem NotBehind.antisymm (h : NotBehind order id other) (h' : NotBehind order other id)
    (hid : id ∈ order) (hother : other ∈ order) : id = other := by
  obtain ⟨i, hi⟩ := exists_lastPlaceFrom 0 hid
  obtain ⟨j, hj⟩ := exists_lastPlaceFrom 0 hother
  obtain rfl := Nat.le_antisymm (h i hi j hj) (h' j hj i hi)
  exact lastPlaceFrom_inj hi hj

end LastPlace

namespace DictionaryInfo

/-- Takes a place as the priority, if there is one. -/
def placedAt (place? : Option ℕ) (info : DictionaryInfo) : DictionaryInfo :=
  { info with state :=
    { info.state with priority := (place?.map Int.ofNat).or info.state.priority } }

@[simp] theorem id_placedAt (place? : Option ℕ) (info : DictionaryInfo) :
    (info.placedAt place?).id = info.id :=
  rfl

theorem placedAt_none (info : DictionaryInfo) : info.placedAt none = info := rfl

theorem placedAt_placedAt (place? : Option ℕ) (info : DictionaryInfo) :
    (info.placedAt place?).placedAt place? = info.placedAt place? := by
  cases place? <;> rfl

theorem sortPriority_le_of_le {a b : DictionaryInfo} (h : a.le b = true) :
    a.sortPriority ≤ b.sortPriority := by
  rw [le] at h
  split at h
  · exact Int.le_of_lt (of_decide_eq_true h)
  · next heq => exact Int.le_of_eq (not_not.1 heq)

end DictionaryInfo

namespace Registry

variable {r : Registry} {id : ℤ} {info : DictionaryInfo} {order : List ℤ}

theorem infos_reorderFrom (r : Registry) (position : ℕ) (order : List ℤ) :
    (r.reorderFrom position order).infos =
      r.infos.map fun info => info.placedAt (lastPlaceFrom position order info.id) := by
  induction order generalizing r position with
  | nil => exact (List.map_id _).symm
  | cons id rest ih =>
    rw [reorderFrom, ih, setPriority, modify, List.map_map]
    refine List.map_congr_left fun info _ => ?_
    rw [Function.comp_apply, lastPlaceFrom]
    by_cases hid : info.id = id
    · rw [if_pos hid, if_pos hid.symm, DictionaryInfo.placedAt, DictionaryInfo.placedAt]
      cases lastPlaceFrom (position + 1) rest info.id <;> rfl
    · rw [if_neg hid, if_neg (Ne.symm hid), Option.or_none]

/-- An order gives every dictionary its last place. -/
theorem infos_reorder (r : Registry) (order : List ℤ) :
    (r.reorder order).infos = r.infos.map fun info => info.placedAt (lastPlace order info.id) :=
  infos_reorderFrom r 0 order

@[simp] theorem ids_reorder (r : Registry) (order : List ℤ) : (r.reorder order).ids = r.ids := by
  rw [ids, infos_reorder, List.map_map]
  rfl

theorem get?_reorder (r : Registry) (order : List ℤ) (id : ℤ) :
    (r.reorder order).get? id =
      (r.get? id).map fun info => info.placedAt (lastPlace order info.id) := by
  rw [get?, infos_reorder, List.find?_map]
  rfl

/-- A dictionary that is not listed stays as it is. -/
theorem get?_reorder_of_not_mem (h : id ∉ order) (r : Registry) :
    (r.reorder order).get? id = r.get? id := by
  rw [get?_reorder]
  cases hinfo : r.get? id with
  | none => rfl
  | some info =>
    obtain rfl : info.id = id := by simpa using List.find?_some hinfo
    rw [Option.map_some, lastPlace, lastPlaceFrom_eq_none_iff.2 h, DictionaryInfo.placedAt_none]

theorem reorder_reorder (r : Registry) (order : List ℤ) :
    (r.reorder order).reorder order = r.reorder order := by
  refine eq_of_infos_eq ?_
  rw [infos_reorder, infos_reorder, List.map_map]
  exact List.map_congr_left fun info _ => info.placedAt_placedAt (lastPlace order info.id)

/-- A listed dictionary is sorted by its last place. -/
theorem sortPriority_of_mem_reorder (h : info ∈ (r.reorder order).infos) {place : ℕ}
    (hplace : lastPlace order info.id = some place) : info.sortPriority = place := by
  rw [infos_reorder] at h
  obtain ⟨info, -, rfl⟩ := List.mem_map.1 h
  have hplace : lastPlace order info.id = some place := hplace
  rw [DictionaryInfo.sortPriority, DictionaryInfo.placedAt, hplace]
  rfl

theorem pairwise_sorted_reorder (r : Registry) (order : List ℤ) :
    ((r.reorder order).sorted.map (·.id)).Pairwise (NotBehind order) := by
  refine List.pairwise_map.2 ((pairwise_sorted _).imp_of_mem fun ha hb hle i hi j hj => ?_)
  have hpriority := DictionaryInfo.sortPriority_le_of_le hle
  rw [sortPriority_of_mem_reorder ((sorted_perm _).mem_iff.1 ha) hi,
    sortPriority_of_mem_reorder ((sorted_perm _).mem_iff.1 hb) hj] at hpriority
  exact Int.ofNat_le.1 hpriority

theorem mem_map_id_sorted_reorder (r : Registry) (order : List ℤ) (id : ℤ) :
    id ∈ (r.reorder order).sorted.map (·.id) ↔ id ∈ r.ids := by
  rw [((sorted_perm _).map _).mem_iff, ← ids_reorder r order, ids]

/-- The listed dictionaries are sorted as they stand last in the order. -/
theorem filter_sorted_reorder (r : Registry) (order : List ℤ) :
    ((r.reorder order).sorted.map (·.id)).filter (· ∈ order) = order.dedup.filter (· ∈ r.ids) := by
  have hperm : (((r.reorder order).sorted.map (·.id)).filter (· ∈ order)).Perm
      (order.dedup.filter (· ∈ r.ids)) := by
    refine (List.perm_ext_iff_of_nodup ((nodup_sorted _).filter _)
      ((List.nodup_dedup order).filter _)).2 fun id => ?_
    simp only [List.mem_filter, mem_map_id_sorted_reorder, List.mem_dedup, decide_eq_true_eq,
      and_comm]
  refine List.Perm.eq_of_pairwise ?_ ((pairwise_sorted_reorder r order).filter _)
    ((pairwise_dedup_notBehind order).filter _) hperm
  intro a b ha hb hab hba
  exact hab.antisymm hba (of_decide_eq_true (List.mem_filter.1 ha).2)
    (List.mem_dedup.1 (List.mem_of_mem_filter hb))

/-- An order may list ids that are unknown or repeated. The others that it lists are sorted as they stand last
in it, dictionaries that are not listed stay as they are, and so does everything but the priorities. An order of
all dictionaries is the order that they are then listed in, and to give an order twice is to give it once. -/
theorem reorder_sorts_by_last_place (r : Registry) (order : List ℤ) :
    ((r.reorder order).sorted.map (·.id)).filter (· ∈ order) = order.dedup.filter (· ∈ r.ids) ∧
    (∀ id ∉ order, (r.reorder order).get? id = r.get? id) ∧
    ((r.reorder order).infos.map fun info => (info.id, info.name, info.state.enabled)) =
      (r.infos.map fun info => (info.id, info.name, info.state.enabled)) ∧
    (r.ids ⊆ order →
      (r.reorder order).sorted.map (·.id) = order.dedup.filter (· ∈ r.ids)) ∧
    (r.reorder order).reorder order = r.reorder order := by
  refine ⟨filter_sorted_reorder r order, fun id h => get?_reorder_of_not_mem h r, ?_, fun hall => ?_,
    reorder_reorder r order⟩
  · rw [infos_reorder, List.map_map]
    rfl
  · rw [← filter_sorted_reorder, List.filter_eq_self.2]
    intro id hid
    exact decide_eq_true (hall ((mem_map_id_sorted_reorder r order id).1 hid))

/-- Three dictionaries with the priorities in which they were added. -/
def threeDictionaries : Registry where
  infos := [⟨1, "a".toList, ⟨true, some 0⟩⟩, ⟨2, "b".toList, ⟨false, some 1⟩⟩,
    ⟨3, "c".toList, ⟨true, some 2⟩⟩]
  nodup := by decide

/-- The first of two places of a dictionary does not count, nor does an unknown id. -/
theorem reorder_sorts_by_last_place_threeDictionaries :
    (threeDictionaries.reorder [3, 1, 404, 2, 3]).sorted.map (·.id) = [1, 2, 3] ∧
      (threeDictionaries.reorder [3, 404, 1]).get? 2 = threeDictionaries.get? 2 := by
  obtain ⟨-, -, -, hall, -⟩ := reorder_sorts_by_last_place threeDictionaries [3, 1, 404, 2, 3]
  obtain ⟨-, hothers, -⟩ := reorder_sorts_by_last_place threeDictionaries [3, 404, 1]
  exact ⟨hall (by decide), hothers 2 (by decide)⟩

end Registry
end Lexicon
