import Lexicon.Dictionary.Ranking
import Lexicon.Proofs.Basic

/-! The order of ranked entries: by rank, and in the order of the input where ranks are equal. -/
namespace Lexicon

namespace Entry

variable (snapshot : Snapshot)

/-- Longer matches come first, then dictionaries of lower priority, then higher frequencies. -/
def Outranks (e f : Entry) : Prop :=
  f.matchLength < e.matchLength ∨ e.matchLength = f.matchLength ∧
    (snapshot.priorityOf e.source < snapshot.priorityOf f.source ∨
      snapshot.priorityOf e.source = snapshot.priorityOf f.source ∧ f.frequency < e.frequency)

/-- Entries between which the ranking does not decide. -/
def Ties (e f : Entry) : Prop :=
  e.matchLength = f.matchLength ∧ snapshot.priorityOf e.source = snapshot.priorityOf f.source ∧
    e.frequency = f.frequency

variable {snapshot} {e f : Entry}

theorem outranks_or_ties (h : (e.rankKey snapshot).le (f.rankKey snapshot) = true) :
    e.Outranks snapshot f ∨
      e.Ties snapshot f ∧ (f.rankKey snapshot).le (e.rankKey snapshot) = true := by
  simp only [Outranks, Ties, RankKey.le, rankKey] at *
  grind

end Entry

/-- No entry is outranked by one that stands behind it. -/
theorem pairwise_rankEntries (snapshot : Snapshot) (entries : List Entry) :
    (rankEntries snapshot entries).Pairwise fun e f =>
      e.Outranks snapshot f ∨ e.Ties snapshot f := by
  have hsorted := @List.pairwise_mergeSort _
    (fun e f : Entry => (e.rankKey snapshot).le (f.rankKey snapshot))
    (fun _ _ _ => RankKey.le_trans) (fun _ _ => RankKey.le_total _ _) entries
  exact hsorted.imp fun hle => (Entry.outranks_or_ties hle).imp_right And.left

/-- Entries that are left out leave the ranking of the others as it is. -/
theorem filter_rankEntries (snapshot : Snapshot) (p : Entry → Bool) (entries : List Entry) :
    (rankEntries snapshot entries).filter p = rankEntries snapshot (entries.filter p) := by
  refine filter_mergeSort _ ?_ ?_ p entries
  · exact fun _ _ _ => RankKey.le_trans
  · exact fun _ _ => RankKey.le_total _ _

/-- Only the priorities in a snapshot rank entries. -/
theorem rankEntries_congr {a b : Snapshot} (h : ∀ id, a.priorityOf id = b.priorityOf id)
    (entries : List Entry) : rankEntries a entries = rankEntries b entries := by
  have hkey : Entry.rankKey a = Entry.rankKey b := by
    funext e
    simp only [Entry.rankKey, h]
  rw [rankEntries, rankEntries, hkey]

section
variable {α : Type} {r : α → α → Prop} {xs : List α}

/-- Ranked entries, with what they come from in the same order. -/
theorem exists_rankEntries_eq_map (snapshot : Snapshot) (f : α → Entry) (hxs : xs.Pairwise r) :
    ∃ ys : List α, ys.Perm xs ∧ rankEntries snapshot (xs.map f) = ys.map f ∧
      ys.Pairwise fun a b =>
        (f a).Outranks snapshot (f b) ∨ (f a).Ties snapshot (f b) ∧ r a b := by
  refine ⟨xs.mergeSort fun a b => ((f a).rankKey snapshot).le ((f b).rankKey snapshot),
    List.mergeSort_perm _ _, ?_, ?_⟩
  · rw [rankEntries, List.map_mergeSort]
    exact fun _ _ _ _ => rfl
  · have hsorted := pairwise_mergeSort_of_pairwise
      (fun a b => ((f a).rankKey snapshot).le ((f b).rankKey snapshot))
      (fun _ _ _ => RankKey.le_trans) (fun _ _ => RankKey.le_total _ _) hxs
    refine hsorted.imp ?_
    rintro a b ⟨hle, hr⟩
    rcases Entry.outranks_or_ties hle with h | ⟨h, hge⟩
    · exact .inl h
    · exact .inr ⟨h, hr hge⟩

end
end Lexicon
