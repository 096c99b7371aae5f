import Lexicon.Dictionary.Ranking

/-! The registry of installed dictionaries. No two dictionaries have one id, and every change keeps
the others in their places. -/
namespace Lexicon

structure DictionaryInfo where
  id : Int
  name : Text
  state : DictionaryState
  deriving DecidableEq

namespace DictionaryInfo

/-- The priority that a dictionary is sorted by; without one it goes last. -/
def sortPriority (info : DictionaryInfo) : Int := info.state.priority.getD Snapshot.lastPriority

/-- By priority, then by id. -/
def le (a b : DictionaryInfo) : Bool :=
  if a.sortPriority ≠ b.sortPriority then a.sortPriority < b.sortPriority else a.id ≤ b.id

theorem le_trans {a b c : DictionaryInfo} (hab : a.le b = true) (hbc : b.le c = true) :
    a.le c = true := by
  simp only [le] at *
  grind

theorem le_total (a b : DictionaryInfo) : (a.le b || b.le a) = true := by
  simp only [le]
  grind

/-- Puts a dictionary in the place of the one with its id, or last. -/
def putInto (info : DictionaryInfo) : List DictionaryInfo → List DictionaryInfo
  | [] => [info]
  | other :: rest => if other.id = info.id then info :: rest else other :: info.putInto rest

theorem map_id_putInto (info : DictionaryInfo) (infos : List DictionaryInfo) :
    (info.putInto infos).map (·.id) =
      if info.id ∈ infos.map (·.id) then infos.map (·.id) else infos.map (·.id) ++ [info.id] := by
  induction infos with
  | nil => simp [putInto]
  | cons other rest ih =>
    by_cases h : other.id = info.id
    · simp [putInto, h]
    · have h' : ¬ info.id = other.id := fun e => h e.symm
      simp only [putInto, if_neg h, List.map_cons, ih, List.mem_cons, h', false_or]
      split <;> simp

theorem nodup_putInto (info : DictionaryInfo) {infos : List DictionaryInfo}
    (h : (infos.map (·.id)).Nodup) : ((info.putInto infos).map (·.id)).Nodup := by
  rw [map_id_putInto]
  split
  · exact h
  · rename_i hmem
    refine List.nodup_append.2 ⟨h, by simp, fun a ha b hb hab => hmem ?_⟩
    rw [← List.mem_singleton.1 hb, ← hab]
    exact ha

end DictionaryInfo

/-- The dictionaries in the order in which they were added. -/
structure Registry where
  infos : List DictionaryInfo
  nodup : (infos.map (·.id)).Nodup
  deriving DecidableEq

namespace Registry

def empty : Registry := ⟨[], by simp⟩

def ids (r : Registry) : List Int := r.infos.map (·.id)

def get? (r : Registry) (id : Int) : Option DictionaryInfo := r.infos.find? fun info => info.id = id

def contains (r : Registry) (id : Int) : Bool := (r.get? id).isSome

def put (r : Registry) (info : DictionaryInfo) : Registry :=
  ⟨info.putInto r.infos, info.nodup_putInto r.nodup⟩

/-- Dictionaries put in one after the other. -/
def ofList (infos : List DictionaryInfo) : Registry := infos.foldl put empty

/-- The greatest id, or zero when there are no dictionaries. -/
def maxId (r : Registry) : Int :=
  match r.ids with
  | [] => 0
  | id :: rest => rest.foldl max id

/-- A dictionary to be added. Without an id of its own it gets the one after the greatest, and
without a priority the number of dictionaries. -/
def newInfo (r : Registry) (name : Text) (id? : Option Int) (enabled : Bool)
    (priority? : Option Int) : DictionaryInfo :=
  ⟨id?.getD (r.maxId + 1), name, ⟨enabled, some (priority?.getD r.infos.length)⟩⟩

/-- Changes the state of the dictionary with an id, if there is one. -/
def modify (r : Registry) (id : Int) (f : DictionaryState → DictionaryState) : Registry where
  infos := r.infos.map fun info =>
    if info.id = id then { info with state := f info.state } else info
  nodup := by
    have h : (r.infos.map fun info =>
        if info.id = id then { info with state := f info.state } else info).map (·.id)
          = r.infos.map (·.id) := by
      simp only [List.map_map, List.map_inj_left, Function.comp_apply]
      intro info _
      split <;> rfl
    rw [h]
    exact r.nodup

def toggle (r : Registry) (id : Int) (enabled : Bool) : Registry :=
  r.modify id fun state => { state with enabled := enabled }

def delete (r : Registry) (id : Int) : Registry where
  infos := r.infos.filter fun info => info.id ≠ id
  nodup := r.nodup.sublist (List.filter_sublist.map _)

def setPriority (r : Registry) (id priority : Int) : Registry :=
  r.modify id fun state => { state with priority := some priority }

/-- Priorities from `position` on for some ids. -/
def reorderFrom (r : Registry) (position : Nat) : List Int → Registry
  | [] => r
  | id :: rest => (r.setPriority id position).reorderFrom (position + 1) rest

/-- The priority of every listed dictionary becomes its position in the list, the last one if it is
listed more than once. -/
def reorder (r : Registry) (order : List Int) : Registry := r.reorderFrom 0 order

/-- The listed ids that no dictionary has. -/
def unknownIds (r : Registry) (order : List Int) : List Int := order.filter fun id => !r.contains id

/-- The dictionaries by priority. -/
def sorted (r : Registry) : List DictionaryInfo := r.infos.mergeSort DictionaryInfo.le

theorem sorted_perm (r : Registry) : r.sorted.Perm r.infos := List.mergeSort_perm _ _

theorem pairwise_sorted (r : Registry) : r.sorted.Pairwise fun a b => a.le b = true :=
  @List.pairwise_mergeSort _ DictionaryInfo.le (fun _ _ _ => DictionaryInfo.le_trans)
    DictionaryInfo.le_total r.infos

/-- The states of the dictionaries, as searches see them. -/
def snapshot (r : Registry) : Snapshot := r.infos.map fun info => (info.id, info.state)

def names (r : Registry) : Table Int Text := r.infos.map fun info => (info.id, info.name)

@[simp] theorem ids_modify (r : Registry) (id : Int) (f : DictionaryState → DictionaryState) :
    (r.modify id f).ids = r.ids := by
  simp only [ids, modify, List.map_map, List.map_inj_left, Function.comp_apply]
  intro info _
  split <;> rfl

@[simp] theorem ids_delete (r : Registry) (id : Int) :
    (r.delete id).ids = r.ids.filter (· ≠ id) := by
  simp [ids, delete, List.filter_map, Function.comp_def]

theorem contains_iff (r : Registry) (id : Int) : r.contains id = true ↔ id ∈ r.ids := by
  simp [contains, get?, ids]

end Registry
end Lexicon
