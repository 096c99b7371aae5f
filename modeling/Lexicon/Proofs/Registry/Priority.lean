import Lexicon.Proofs.Dictionary.Ranking
import Lexicon.Proofs.Registry.Basic
import Mathlib.Algebra.Order.Group.Int
import Mathlib.Data.List.Pairwise

/-! Dictionaries without a priority. They are sorted by a number that stands for the missing one, so they
come last where all priorities are below it, and not behind priorities that reach it. -/
namespace Lexicon

namespace Registry

/-- The priority of a dictionary, if it is configured and has one. -/
def priority? (r : Registry) (id : ℤ) : Option ℤ := (r.get? id).bind (·.state.priority)

section Lookup

variable {r : Registry} {id : ℤ}

theorem priorityOf_snapshot (r : Registry) (id : ℤ) :
    r.snapshot.priorityOf id = (r.priority? id).getD Snapshot.lastPriority := by
  rw [Snapshot.priorityOf, get?_snapshot, priority?]
  cases r.get? id <;> rfl

theorem priority?_of_not_mem (h : id ∉ r.ids) : r.priority? id = none := by
  cases hinfo : r.get? id with
  | none => rw [priority?, hinfo, Option.bind_none]
  | some info =>
    obtain rfl : info.id = id := by simpa using List.find?_some hinfo
    exact absurd (List.mem_map_of_mem (List.mem_of_find?_eq_some hinfo)) h

end Lookup

/-- Between entries of one length, one of a dictionary without a priority stands first only before others of
such dictionaries. -/
def EntriesInOrder (r : Registry) (e f : Entry) : Prop :=
  e.matchLength = f.matchLength → r.priority? e.source = none → r.priority? f.source = none

/-- A dictionary without a priority stands first only before others without one. -/
def InfosInOrder (a b : DictionaryInfo) : Prop :=
  a.state.priority = none → b.state.priority = none

section Entries

variable {r : Registry}

/-- Behind an entry without a priority stand, among those of its length, only priorities that reach the one
it is ranked by. -/
theorem pairwise_rankEntries_lastPriority_le (r : Registry) (entries : List Entry) :
    (rankEntries r.snapshot entries).Pairwise fun e f => e.matchLength = f.matchLength →
      r.priority? e.source = none → ∀ p, r.priority? f.source = some p →
        Snapshot.lastPriority ≤ p := by
  refine (pairwise_rankEntries r.snapshot entries).imp ?_
  intro e f hrank hlength he p hf
  have hle : r.snapshot.priorityOf e.source ≤ r.snapshot.priorityOf f.source := by
    rcases hrank with (hlonger | ⟨-, hlower | ⟨heq, -⟩⟩) | ⟨-, heq, -⟩
    · exact absurd hlength.symm (Nat.ne_of_lt hlonger)
    · exact hlower.le
    · exact heq.le
    · exact heq.le
  simpa [priorityOf_snapshot, he, hf] using hle

/-- An entry of a dictionary, for a word of one letter. -/
def plainEntry (id : ℤ) : Entry where
  term := .text "a"
  reading := .null
  source := id
  wordBytes := 1
  matchLength := 1
  frequency := 0
  record := []
  termTags := .null
  word := "a".toList

/-- Where the first of two like entries has no priority, it stays first before one that reaches the priority
it is ranked by. -/
theorem rankEntries_plainEntry {id other p : ℤ} (hid : r.priority? id = none)
    (hother : r.priority? other = some p) (hp : Snapshot.lastPriority ≤ p) :
    rankEntries r.snapshot [plainEntry id, plainEntry other] = [plainEntry id, plainEntry other] := by
  refine List.mergeSort_of_pairwise (List.pairwise_pair.2 ?_)
  have hid' : r.snapshot.priorityOf (plainEntry id).source = Snapshot.lastPriority := by
    rw [priorityOf_snapshot, plainEntry, hid, Option.getD_none]
  have hother' : r.snapshot.priorityOf (plainEntry other).source = p := by
    rw [priorityOf_snapshot, plainEntry, hother, Option.getD_some]
  rw [Entry.rankKey, Entry.rankKey, hid', hother']
  simp only [RankKey.le, plainEntry]
  grind

/-- Entries without a priority come last among those of their length exactly when all priorities are below
the one they are ranked by. -/
theorem forall_pairwise_entriesInOrder_iff (r : Registry) :
    (∀ entries, (rankEntries r.snapshot entries).Pairwise r.EntriesInOrder) ↔
      ∀ id p, r.priority? id = some p → p < Snapshot.lastPriority := by
  constructor
  · intro h id p hp
    by_contra hlast
    have hfresh := priority?_of_not_mem r.not_mem_ids_maxId_add_one
    have hpair := h [plainEntry (r.maxId + 1), plainEntry id]
    rw [rankEntries_plainEntry hfresh hp (not_lt.1 hlast), List.pairwise_pair] at hpair
    have hnone : r.priority? id = none := hpair rfl hfresh
    rw [hp] at hnone
    cases hnone
  · intro h entries
    refine (pairwise_rankEntries_lastPriority_le r entries).imp ?_
    intro e f hrank hlength he
    cases hf : r.priority? f.source with
    | none => rfl
    | some p => exact absurd (h _ p hf) (not_lt.2 (hrank hlength he p hf))

end Entries

section Infos

variable {r : Registry} {a b : DictionaryInfo} {p : ℤ}

theorem le_iff_of_priority (ha : a.state.priority = some p) (hb : b.state.priority = none) :
    a.le b = true ↔ p < Snapshot.lastPriority ∨ p = Snapshot.lastPriority ∧ a.id ≤ b.id := by
  simp only [DictionaryInfo.le, DictionaryInfo.sortPriority, ha, hb, Option.getD_some,
    Option.getD_none]
  grind

theorem ge_iff_of_priority (ha : a.state.priority = some p) (hb : b.state.priority = none) :
    b.le a = true ↔ Snapshot.lastPriority < p ∨ p = Snapshot.lastPriority ∧ b.id ≤ a.id := by
  simp only [DictionaryInfo.le, DictionaryInfo.sortPriority, ha, hb, Option.getD_some,
    Option.getD_none]
  grind

/-- Dictionaries without a priority come last exactly when each of them is beaten by every priority, with the
smaller id where the priority is the one that they are sorted by. -/
theorem pairwise_infosInOrder_iff (r : Registry) :
    r.sorted.Pairwise InfosInOrder ↔ ∀ a ∈ r.infos, ∀ b ∈ r.infos, ∀ p,
      a.state.priority = some p → b.state.priority = none →
        p < Snapshot.lastPriority ∨ p = Snapshot.lastPriority ∧ a.id < b.id := by
  have hmem (info : DictionaryInfo) : info ∈ r.sorted ↔ info ∈ r.infos := r.sorted_perm.mem_iff
  constructor
  · intro h a ha b hb p hap hbp
    have hne : a ≠ b := by
      rintro rfl
      rw [hap] at hbp
      cases hbp
    -- one of the two stands before the other, and it cannot be the one without a priority
    have hle : a.le b = true := by
      rcases rel_or_rel_of_pairwise (r.pairwise_sorted.and h) ((hmem a).2 ha) ((hmem b).2 hb) hne
        with ⟨hle, -⟩ | ⟨-, horder⟩
      · exact hle
      · have hnone : a.state.priority = none := horder hbp
        rw [hap] at hnone
        cases hnone
    refine ((le_iff_of_priority hap hbp).1 hle).imp_right fun ⟨hlast, hid⟩ => ⟨hlast, ?_⟩
    exact lt_of_le_of_ne hid fun hids => hne (List.inj_on_of_nodup_map r.nodup ha hb hids)
  · intro h
    refine r.pairwise_sorted.imp_of_mem ?_
    intro b a hb ha hle hbp
    cases hap : a.state.priority with
    | none => rfl
    | some p =>
      have hbelow := h a ((hmem a).1 ha) b ((hmem b).1 hb) p hap hbp
      have habove := (ge_iff_of_priority hap hbp).1 hle
      omega

end Infos

section Late

/-- Where dictionaries without a priority stand. Behind an entry of one come, among those of its length, only
priorities that reach the number that stands for a missing one; so such entries come last whatever entries
there are exactly when every priority is below that number. Sorted dictionaries also come out right with a
priority that equals it, where the id is the smaller one. -/
theorem unconfigured_last_iff (r : Registry) :
    (∀ entries, (rankEntries r.snapshot entries).Pairwise fun e f => e.matchLength = f.matchLength →
      r.priority? e.source = none → ∀ p, r.priority? f.source = some p →
        Snapshot.lastPriority ≤ p) ∧
    ((∀ entries, (rankEntries r.snapshot entries).Pairwise r.EntriesInOrder) ↔
      ∀ id p, r.priority? id = some p → p < Snapshot.lastPriority) ∧
    (r.sorted.Pairwise InfosInOrder ↔ ∀ a ∈ r.infos, ∀ b ∈ r.infos, ∀ p,
      a.state.priority = some p → b.state.priority = none →
        p < Snapshot.lastPriority ∨ p = Snapshot.lastPriority ∧ a.id < b.id) :=
  ⟨pairwise_rankEntries_lastPriority_le r, forall_pairwise_entriesInOrder_iff r,
    pairwise_infosInOrder_iff r⟩

/-- Two dictionaries, of which only the second has a priority. -/
def lateRegistry (p : ℤ) : Registry :=
  ofList [⟨1, "a".toList, ⟨true, none⟩⟩, ⟨2, "b".toList, ⟨true, some p⟩⟩]

theorem infos_lateRegistry (p : ℤ) : (lateRegistry p).infos =
    [⟨1, "a".toList, ⟨true, none⟩⟩, ⟨2, "b".toList, ⟨true, some p⟩⟩] :=
  infos_ofList (by simp)

theorem priority?_lateRegistry (p id : ℤ) :
    (lateRegistry p).priority? id = if id = 2 then some p else none := by
  rw [priority?, get?, infos_lateRegistry]
  by_cases h1 : 1 = id
  · subst h1
    rfl
  · by_cases h2 : 2 = id
    · subst h2
      rfl
    · simp [h1, h2, Ne.symm h2]

/-- The second dictionary comes first with the priority before the one that stands for a missing one. -/
theorem unconfigured_last_iff_lateRegistry :
    (∀ entries, (rankEntries (lateRegistry 998).snapshot entries).Pairwise
      (lateRegistry 998).EntriesInOrder) ∧ (lateRegistry 998).sorted.Pairwise InfosInOrder := by
  refine ⟨(unconfigured_last_iff _).2.1.2 ?_, (unconfigured_last_iff _).2.2.2 ?_⟩
  · intro id p hp
    rw [priority?_lateRegistry] at hp
    split at hp
    · cases hp
      decide
    · cases hp
  · rw [infos_lateRegistry]
    decide

/-- A dictionary with priority 1000 comes after one without a priority, and so do its entries. -/
theorem not_unconfigured_last_lateRegistry :
    (lateRegistry 1000).sorted.map (·.id) = [1, 2] ∧
      (rankEntries (lateRegistry 1000).snapshot [plainEntry 1, plainEntry 2]).map (·.source) =
        [1, 2] ∧
      ¬ (rankEntries (lateRegistry 1000).snapshot [plainEntry 1, plainEntry 2]).Pairwise
        (lateRegistry 1000).EntriesInOrder ∧
      ¬ (lateRegistry 1000).sorted.Pairwise InfosInOrder := by
  have hsorted : (lateRegistry 1000).sorted =
      [⟨1, "a".toList, ⟨true, none⟩⟩, ⟨2, "b".toList, ⟨true, some 1000⟩⟩] :=
    sorted_ofList (by simp) (by decide)
  have hranked : rankEntries (lateRegistry 1000).snapshot [plainEntry 1, plainEntry 2] =
      [plainEntry 1, plainEntry 2] :=
    rankEntries_plainEntry (priority?_lateRegistry 1000 1) (priority?_lateRegistry 1000 2) (by decide)
  rw [hsorted, hranked]
  refine ⟨rfl, rfl, ?_, ?_⟩
  · rw [List.pairwise_pair, EntriesInOrder, priority?_lateRegistry, priority?_lateRegistry]
    decide
  · rw [List.pairwise_pair]
    intro h
    cases h rfl

end Late

end Registry
end Lexicon
