/-! Tables: lists of keys with values in which the order of keys is kept. -/
namespace Lexicon

abbrev Table (κ : Type _) (α : Type _) := List (κ × α)

namespace Table

variable {κ : Type _} {α : Type _} [DecidableEq κ]

def get? (table : Table κ α) (key : κ) : Option α :=
  (table.find? fun entry => entry.1 = key).map (·.2)

/-- A key that is there keeps its place and takes the new value; another one goes last. -/
def set (table : Table κ α) (key : κ) (value : α) : Table κ α :=
  match table with
  | [] => [(key, value)]
  | (k, v) :: rest => if k = key then (k, value) :: rest else (k, v) :: set rest key value

/-- Entries written one after the other. -/
def ofList (entries : List (κ × α)) : Table κ α :=
  entries.foldl (fun table entry => set table entry.1 entry.2) []

/-- The keys in order. -/
def keys (table : Table κ α) : List κ := table.map (·.1)

@[simp] theorem get?_nil (key : κ) : get? ([] : Table κ α) key = none := rfl

@[simp] theorem get?_cons (entry : κ × α) (table : Table κ α) (key : κ) :
    get? (entry :: table) key = if entry.1 = key then some entry.2 else get? table key := by
  by_cases h : entry.1 = key <;> simp [get?, h]

theorem get?_set (table : Table κ α) (key other : κ) (value : α) :
    get? (set table key value) other = if key = other then some value else get? table other := by
  induction table with
  | nil => simp [set]
  | cons entry rest ih =>
    obtain ⟨k, v⟩ := entry
    by_cases h : k = key
    · subst h
      by_cases h' : k = other <;> simp [set, h']
    · simp only [set, if_neg h, get?_cons, ih]
      grind

end Table
end Lexicon
