import Lexicon.Table
import Mathlib.Data.List.Nodup

/-! Tables seen through their keys. -/
namespace Lexicon.Table

section
variable {κ α : Type*} {table : Table κ α} {key : κ} {value : α}

@[simp] theorem keys_nil : keys ([] : Table κ α) = [] := rfl

@[simp] theorem keys_cons (entry : κ × α) (table : Table κ α) :
    keys (entry :: table) = entry.1 :: keys table := rfl

@[simp] theorem keys_append (table other : Table κ α) :
    keys (table ++ other) = keys table ++ keys other := List.map_append

theorem mem_keys_of_mem (h : (key, value) ∈ table) : key ∈ keys table := List.mem_map_of_mem h

theorem not_mem_keys_of_nodup {entry : κ × α} {rest : Table κ α}
    (h : (keys (table ++ entry :: rest)).Nodup) : entry.1 ∉ keys table := by
  rw [keys_append, keys_cons] at h
  exact fun hmem => List.disjoint_of_nodup_append h hmem (List.mem_cons_self ..)

/-- Under distinct keys a key has one value. -/
theorem eq_of_mem_of_mem (h : (keys table).Nodup) {value' : α} (hv : (key, value) ∈ table)
    (hv' : (key, value') ∈ table) : value = value' :=
  congrArg Prod.snd (List.inj_on_of_nodup_map h hv hv' rfl)

end

section
variable {κ α : Type*} [DecidableEq κ] {table : Table κ α} {key : κ} {value : α}

theorem mem_of_get?_eq_some (h : get? table key = some value) : (key, value) ∈ table := by
  obtain ⟨⟨k, v⟩, hfind, rfl⟩ := Option.map_eq_some_iff.1 h
  obtain rfl : k = key := by simpa using List.find?_some hfind
  exact List.mem_of_find?_eq_some hfind

theorem get?_cons_of_ne {other : κ} (h : other ≠ key) (value : α) (table : Table κ α) :
    get? ((other, value) :: table) key = get? table key := by
  rw [get?_cons, if_neg h]

theorem get?_append (table other : Table κ α) (key : κ) :
    get? (table ++ other) key = (get? table key <|> get? other key) := by
  induction table with
  | nil => simp
  | cons entry rest ih =>
    rw [List.cons_append, get?_cons, get?_cons, ih]
    split <;> rfl

theorem exists_get?_eq_some_iff : (∃ value, get? table key = some value) ↔ key ∈ keys table := by
  induction table with
  | nil => simp [keys]
  | cons entry rest ih =>
    rw [get?_cons, keys_cons, List.mem_cons]
    by_cases h : entry.1 = key
    · simp [h]
    · rw [if_neg h, ih]
      simp [Ne.symm h]

theorem set_of_not_mem (h : key ∉ keys table) (value : α) :
    set table key value = table ++ [(key, value)] := by
  induction table with
  | nil => rfl
  | cons entry rest ih =>
    obtain ⟨k, v⟩ := entry
    rw [keys_cons, List.mem_cons, not_or] at h
    rw [set, if_neg (Ne.symm h.1), ih h.2, List.cons_append]

/-- The last entry takes a new value at its place. -/
theorem set_concat (h : key ∉ keys table) (old value : α) :
    set (table ++ [(key, old)]) key value = table ++ [(key, value)] := by
  induction table with
  | nil => simp [set]
  | cons entry rest ih =>
    obtain ⟨k, v⟩ := entry
    rw [keys_cons, List.mem_cons, not_or] at h
    rw [List.cons_append, set, if_neg (Ne.symm h.1), ih h.2, List.cons_append]

/-- Under distinct keys every entry is found. -/
theorem get?_of_mem (h : (keys table).Nodup) (hmem : (key, value) ∈ table) :
    get? table key = some value := by
  obtain ⟨other, hother⟩ := exists_get?_eq_some_iff.2 (mem_keys_of_mem hmem)
  rw [hother, eq_of_mem_of_mem h hmem (mem_of_get?_eq_some hother)]

/-- Under distinct keys it does not matter in which order the entries stand. -/
theorem get?_eq_of_perm {other : Table κ α} (hperm : table.Perm other) (h : (keys table).Nodup)
    (key : κ) : get? table key = get? other key := by
  have hother : (keys other).Nodup := (hperm.map Prod.fst).nodup_iff.1 h
  refine Option.ext fun value => ⟨fun hvalue => ?_, fun hvalue => ?_⟩
  · exact get?_of_mem hother (hperm.mem_iff.1 (mem_of_get?_eq_some hvalue))
  · exact get?_of_mem h (hperm.mem_iff.2 (mem_of_get?_eq_some hvalue))

/-- Under distinct keys, tables hold the same entries exactly when every key has the same value. -/
theorem perm_iff_get?_eq {other : Table κ α} (h : (keys table).Nodup) (hother : (keys other).Nodup) :
    table.Perm other ↔ ∀ key, get? table key = get? other key := by
  refine ⟨fun hperm => get?_eq_of_perm hperm h, fun heq => ?_⟩
  refine (List.perm_ext_iff_of_nodup h.of_map hother.of_map).2 ?_
  rintro ⟨key, value⟩
  constructor
  · intro hmem
    exact mem_of_get?_eq_some ((heq key).symm.trans (get?_of_mem h hmem))
  · intro hmem
    exact mem_of_get?_eq_some ((heq key).trans (get?_of_mem hother hmem))

theorem get?_map {β : Type*} (f : α → β) (table : Table κ α) (key : κ) :
    get? (table.map fun entry => (entry.1, f entry.2)) key = (get? table key).map f := by
  rw [get?, List.find?_map, Option.map_map, get?, Option.map_map]
  rfl

theorem get?_eq_none_iff : get? table key = none ↔ key ∉ keys table := by
  rw [← exists_get?_eq_some_iff, ← Option.isSome_iff_exists, Option.not_isSome_iff_eq_none]

theorem get?_concat (h : key ∉ keys table) (value : α) :
    get? (table ++ [(key, value)]) key = some value := by
  rw [get?_append, get?_eq_none_iff.2 h, get?_cons, if_pos rfl]
  rfl

theorem keys_set (table : Table κ α) (key : κ) (value : α) :
    keys (set table key value) = if key ∈ keys table then keys table else keys table ++ [key] := by
  induction table with
  | nil => simp [set, keys]
  | cons entry rest ih =>
    obtain ⟨k, v⟩ := entry
    by_cases h : k = key
    · simp [set, h]
    · simp only [set, if_neg h, keys_cons, ih, List.mem_cons, Ne.symm h, false_or]
      split <;> simp

theorem nodup_keys_set (h : (keys table).Nodup) (key : κ) (value : α) :
    (keys (set table key value)).Nodup := by
  rw [keys_set]
  split
  · exact h
  · next hkey => exact h.append (List.nodup_singleton key) (List.disjoint_singleton.2 hkey)

theorem mem_or_eq_of_mem_set {entry : κ × α} (h : entry ∈ set table key value) :
    entry ∈ table ∨ entry = (key, value) := by
  induction table with
  | nil => exact .inr (List.mem_singleton.1 h)
  | cons other rest ih =>
    obtain ⟨k, v⟩ := other
    by_cases hkey : k = key
    · rw [set, if_pos hkey, List.mem_cons] at h
      rcases h with h | h
      · exact .inr (by rw [h, hkey])
      · exact .inl (List.mem_cons_of_mem _ h)
    · rw [set, if_neg hkey, List.mem_cons] at h
      rcases h with rfl | h
      · exact .inl (List.mem_cons_self ..)
      · exact (ih h).imp_left (List.mem_cons_of_mem _)

theorem foldl_set_eq_append {entries : List (κ × α)} (h : (keys (table ++ entries)).Nodup) :
    entries.foldl (fun table entry => set table entry.1 entry.2) table = table ++ entries := by
  induction entries generalizing table with
  | nil => simp
  | cons entry entries ih =>
    have hkey := not_mem_keys_of_nodup h
    rw [List.append_cons] at h ⊢
    rw [List.foldl_cons, set_of_not_mem hkey]
    exact ih h

/-- Entries under distinct keys are a table as they are. -/
theorem ofList_eq_self {entries : List (κ × α)} (h : (keys entries).Nodup) :
    ofList entries = entries :=
  foldl_set_eq_append h

theorem nodup_keys_ofList (entries : List (κ × α)) : (keys (ofList entries)).Nodup :=
  List.foldlRecOn entries _ (motive := fun table => (keys table).Nodup) List.nodup_nil
    fun _ h entry _ => nodup_keys_set h entry.1 entry.2

theorem mem_of_mem_ofList {entries : List (κ × α)} {entry : κ × α} (h : entry ∈ ofList entries) :
    entry ∈ entries := by
  refine List.foldlRecOn entries _ (motive := fun table => entry ∈ table → entry ∈ entries) ?_ ?_ h
  · exact fun h => absurd h List.not_mem_nil
  · intro table ih other hother h
    rcases mem_or_eq_of_mem_set h with h | rfl
    · exact ih h
    · exact hother

end
end Lexicon.Table
