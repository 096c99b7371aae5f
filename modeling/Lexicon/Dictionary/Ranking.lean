import Lexicon.Json.Basic

/-! Ranking of entries: longer matches first, then the dictionaries by priority, then frequency. -/
namespace Lexicon

/-- Whether a dictionary is in use, and its priority when it has one. -/
structure DictionaryState where
  enabled : Bool
  priority : Option Int
  deriving DecidableEq

/-- The states of the configured dictionaries by id. -/
abbrev Snapshot := Table Int DictionaryState

namespace Snapshot

/-- An unconfigured dictionary is in use. -/
def isEnabled (snapshot : Snapshot) (id : Int) : Bool :=
  ((snapshot.get? id).map (·.enabled)).getD true

/-- Stands for a missing priority. -/
def lastPriority : Int := 999

def priorityOf (snapshot : Snapshot) (id : Int) : Int :=
  ((snapshot.get? id).bind (·.priority)).getD lastPriority

end Snapshot

/-- A record found for a term. The match covers so many characters of the searched text; the word is
the form under which the store holds the record. -/
structure Entry where
  term : Json
  reading : Json
  source : Int
  wordBytes : Nat
  matchLength : Nat
  frequency : Int
  record : Fields
  termTags : Json
  word : Text

/-- What entries are compared by. -/
structure RankKey where
  length : Int
  priority : Int
  frequency : Int
  deriving DecidableEq

namespace RankKey

/-- Lexicographic order. -/
def le (a b : RankKey) : Bool :=
  if a.length ≠ b.length then a.length < b.length
  else if a.priority ≠ b.priority then a.priority < b.priority
  else a.frequency ≤ b.frequency

theorem le_trans {a b c : RankKey} (hab : a.le b = true) (hbc : b.le c = true) : a.le c = true := by
  simp only [le] at *
  grind

theorem le_total (a b : RankKey) : (a.le b || b.le a) = true := by
  simp only [le]
  grind

end RankKey

namespace Entry

/-- Lengths and frequencies are negated, so that smaller keys come first. -/
def rankKey (snapshot : Snapshot) (e : Entry) : RankKey :=
  ⟨-(e.matchLength : Int), snapshot.priorityOf e.source, -e.frequency⟩

end Entry

/-- Entries by rank; those with equal keys keep their order. -/
def rankEntries (snapshot : Snapshot) (entries : List Entry) : List Entry :=
  entries.mergeSort fun a b => (a.rankKey snapshot).le (b.rankKey snapshot)

theorem rankEntries_perm (snapshot : Snapshot) (entries : List Entry) :
    (rankEntries snapshot entries).Perm entries :=
  List.mergeSort_perm _ _

end Lexicon
