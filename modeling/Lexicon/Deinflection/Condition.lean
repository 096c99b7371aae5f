import Lexicon.Table
import Lexicon.Text.Quoted

/-! Conditions: the word classes a rule can ask for. A leaf has a bit of its own; a composite is the
union of the conditions it lists, which may come later in the table. -/
namespace Lexicon

/-- Names in order; a leaf lists nothing, a composite lists the names it unites. -/
abbrev ConditionTable := Table RawText (Option (List RawText))

/-- A set of leaves, one bit each. -/
abbrev Mask := Nat

/-- The bits given so far. -/
abbrev FlagTable := Table RawText Mask

namespace FlagTable

/-- The union of the named flags, when every name has one. -/
def union? (flags : FlagTable) : List RawText → Option Mask
  | [] => some 0
  | name :: rest => do return (← flags.get? name) ||| (← flags.union? rest)

/-- The union of the named flags that exist. -/
def unionKnown (flags : FlagTable) (names : List RawText) : Mask :=
  names.foldl (fun mask name => mask ||| (flags.get? name).getD 0) 0

end FlagTable

inductive ConditionError where
  | unknown (name sub : RawText)
  | limit
  | cycle (names : List RawText)

namespace ConditionError

/-- The word for the kind of defect. -/
def label : ConditionError → Text
  | unknown _ _ => "UnknownConditionError".toList
  | limit => "ConditionLimitError".toList
  | cycle _ => "ConditionCycleError".toList

def message : ConditionError → RawText
  | unknown name sub =>
    Text.raw
      ("Condition ".toList ++ name.quoted ++ " refers to unknown condition ".toList ++ sub.quoted)
  | limit => "Maximum condition count exceeded (32)"
  | cycle names =>
    Text.raw "Cycle in condition definitions: ".toList ++ (Text.raw [',', ' ']).intercalate names

end ConditionError

namespace ConditionTable

def maxLeaves : Nat := 32

/-- The first name, in table order, that a composite lists and the table lacks. -/
def firstUnknown? (table : ConditionTable) : Option (RawText × RawText) :=
  table.findSome? fun entry =>
    ((entry.2.getD []).find? fun sub => !table.any (·.1 = sub)).map fun sub => (entry.1, sub)

/-- Flags and the number of leaves seen so far, and the entries that have to wait. -/
structure Sweep where
  flags : FlagTable
  leaves : Nat
  waiting : ConditionTable

/-- Gives a leaf the next bit, and a composite the union of its parts once all have flags. -/
def sweepEntry (sweep : Sweep) (entry : RawText × Option (List RawText)) : Except ConditionError Sweep :=
  match entry.2 with
  | none =>
    if maxLeaves ≤ sweep.leaves then .error .limit
    else .ok { sweep with
      flags := sweep.flags ++ [(entry.1, 1 <<< sweep.leaves)], leaves := sweep.leaves + 1 }
  | some names =>
    match sweep.flags.union? names with
    | some mask => .ok { sweep with flags := sweep.flags ++ [(entry.1, mask)] }
    | none => .ok { sweep with waiting := sweep.waiting ++ [entry] }

/-- One pass over the waiting entries in table order. -/
def sweepAll (flags : FlagTable) (leaves : Nat) (waiting : ConditionTable) :
    Except ConditionError Sweep :=
  waiting.foldlM sweepEntry ⟨flags, leaves, []⟩

theorem length_waiting_of_foldlM {entries : ConditionTable} {sweep next : Sweep}
    (h : entries.foldlM sweepEntry sweep = .ok next) :
    next.waiting.length ≤ sweep.waiting.length + entries.length := by
  induction entries generalizing sweep with
  | nil =>
    obtain rfl : sweep = next := by simpa [pure, Except.pure] using h
    simp
  | cons entry rest ih =>
    rw [List.foldlM_cons] at h
    cases hentry : sweepEntry sweep entry with
    | error e => rw [hentry] at h; cases h
    | ok mid =>
      rw [hentry] at h
      have hmid : mid.waiting.length ≤ sweep.waiting.length + 1 := by
        unfold sweepEntry at hentry
        repeat' split at hentry
        all_goals cases hentry
        all_goals simp
      have hrest := ih h
      simp only [List.length_cons]
      omega

/-- A pass leaves no more entries than it was given. -/
theorem length_waiting_le {flags : FlagTable} {leaves : Nat} {waiting : ConditionTable}
    {sweep : Sweep} (h : sweepAll flags leaves waiting = .ok sweep) :
    sweep.waiting.length ≤ waiting.length := by
  simpa using length_waiting_of_foldlM h

/-- Passes until nothing waits. A pass without progress leaves only entries that wait for each
other. -/
def settle (flags : FlagTable) (leaves : Nat) (waiting : ConditionTable) :
    Except ConditionError FlagTable :=
  if waiting.isEmpty then .ok flags
  else
    match _h : sweepAll flags leaves waiting with
    | .error e => .error e
    | .ok sweep =>
      if _hlength : sweep.waiting.length = waiting.length then
        .error (.cycle (sweep.waiting.map (·.1)))
      else settle sweep.flags sweep.leaves sweep.waiting
termination_by waiting.length
decreasing_by exact Nat.lt_of_le_of_ne (length_waiting_le (by assumption)) (by assumption)

/-- The flag of every condition. -/
def flags (table : ConditionTable) : Except ConditionError FlagTable :=
  match table.firstUnknown? with
  | some (name, sub) => .error (.unknown name sub)
  | none => settle [] 0 table

end ConditionTable
end Lexicon
