import Lexicon.Proofs.Dictionary.Definitions
import Mathlib.Order.Bounds.Basic

/-! The lengths that grouped results of a search show. Entries are ranked by length first and a result is
opened by the first entry of its form, so results come longest first and each has the greatest length of
its entries. -/
namespace Lexicon

namespace Grouping

/-- The lengths of the entries of a result. -/
def lengthsOf (entries : List Entry) (g : Group) : Set ℕ :=
  {n | ∃ e ∈ entries, belongs e g = true ∧ e.matchLength = n}

variable {names : NameTable} {entries es : List Entry} {groups flat : List Group} {e : Entry}
  {g first : Group}

theorem map_matchLength_eq (h : List.Forall₂ (Shows names) es flat) :
    flat.map (·.matchLength) = es.map (·.matchLength) := by
  induction h with
  | nil => rfl
  | cons hg _ ih => rw [List.map_cons, List.map_cons, hg.matchLength_eq, ih]

theorem pairwise_of_forall₂ (h : List.Forall₂ (Shows names) es flat)
    (hes : es.Pairwise fun e f => f.matchLength ≤ e.matchLength) :
    flat.Pairwise fun g h => h.matchLength ≤ g.matchLength := by
  have hlengths : (flat.map (·.matchLength)).Pairwise fun m n => n ≤ m := by
    rw [map_matchLength_eq h]
    exact List.pairwise_map.2 hes
  exact List.pairwise_map.1 hlengths

/-- The first result of a form has the greatest length of the form. -/
theorem isGreatest_matchLength (hes : es.Pairwise fun e f => f.matchLength ≤ e.matchLength)
    (hscalar : ∀ e ∈ es, HasScalarTerm e) (h : List.Forall₂ (Shows names) es flat)
    (hfirst : first ∈ distinctBy sameForm flat) :
    IsGreatest (lengthsOf es first) first.matchLength := by
  have hforms := hasScalarForm_of_forall₂ h
  have hmem := mem_of_mem_distinctBy hfirst
  constructor
  · obtain ⟨e, he, hshows⟩ := exists_mem_of_forall₂ h hmem
    obtain ⟨content, -, hholds⟩ := hshows.holds
    refine ⟨e, he, (hholds.sameForm_iff (hscalar e he) (hforms first hmem)).1 ?_,
      hshows.matchLength_eq.symm⟩
    exact (sameForm_iff (hforms first hmem) (hforms first hmem)).2 rfl
  · rintro _ ⟨e, he, hbelongs, rfl⟩
    obtain ⟨g, hg, hshows⟩ := exists_mem_of_forall₂ h.flip he
    obtain ⟨content, -, hholds⟩ := hshows.holds
    have hsame := (hholds.sameForm_iff (hscalar e he) (hforms first hmem)).2 hbelongs
    have hsymm : ∀ x ∈ flat, ∀ y ∈ flat, sameForm x y = true → sameForm y x = true := by
      intro x hx y hy hxy
      rw [sameForm_iff (hforms x hx) (hforms y hy)] at hxy
      exact (sameForm_iff (hforms y hy) (hforms x hx)).2 hxy.symm
    rw [← hshows.matchLength_eq]
    rcases rel_of_mem_distinctBy (pairwise_of_forall₂ h hes) hsymm hfirst hg hsame with rfl | hle
    · exact Nat.le_refl _
    · exact hle

theorem belongs_iff_eq {headword reading : RawText} (hterm : orEmpty e.term = .str headword)
    (hreading : orEmpty e.reading = .str reading) :
    belongs e g = true ↔ orEmpty e.term = g.headword ∧ orEmpty e.reading = g.reading := by
  rw [belongs, Bool.and_eq_true, hterm, hreading, Json.str_same_iff, Json.str_same_iff]

end Grouping

namespace Search

open Grouping

theorem pairwise_entries_run (source : Source) (s : Text) (offset : ℤ) (l : Language)
    (maxLength : ℤ) :
    (run source s offset l maxLength).entries.Pairwise fun e f => f.matchLength ≤ e.matchLength := by
  rw [run, ofWindow]
  refine (pairwise_rankEntries _ _).imp ?_
  rintro e f ((hlonger | ⟨heq, -⟩) | ⟨heq, -⟩)
  · exact hlonger.le
  · exact heq.ge
  · exact heq.ge

/-- Results of a search come longest first, and each has the greatest length of the entries of its form.
Where headwords and readings are stored as texts or not at all, these are the entries with the headword and
the reading of the result. -/
theorem grouped_longest_first (source : Source) (names : NameTable) (s : Text) (offset : ℤ)
    (l : Language) (maxLength : ℤ) (groups : List Group)
    (h : groupEntries names true (run source s offset l maxLength).entries = .ok groups) :
    let found := IsHit source l (Search.window s offset maxLength)
    let entries := (run source s offset l maxLength).entries
    (groups.Pairwise fun g h => h.matchLength ≤ g.matchLength) ∧
    (∀ g ∈ groups, IsGreatest (lengthsOf entries g) g.matchLength) ∧
    ((∀ h, found h → h.stored.HasTextForm) → ∀ e ∈ entries, ∀ g ∈ groups,
      (belongs e g = true ↔ orEmpty e.term = g.headword ∧ orEmpty e.reading = g.reading)) := by
  intro found entries
  have hentries := pairwise_entries_run source s offset l maxLength
  obtain ⟨flat, hscalar, hflat, rfl⟩ := exists_merge_of_groupEntries h
  rw [List.filter_eq_self.2 (hasTerm_of_mem_run source s offset l maxLength)] at hscalar hflat
  refine ⟨?_, ?_, ?_⟩
  · have hlengths := (pairwise_of_forall₂ hflat hentries).sublist (distinctBy_sublist sameForm flat)
    exact List.pairwise_map.2 hlengths
  · intro g hg
    obtain ⟨first, hfirst, rfl⟩ := List.mem_map.1 hg
    have hlength : IsGreatest (lengthsOf entries first) first.matchLength :=
      isGreatest_matchLength hentries hscalar hflat hfirst
    exact hlength
  · intro htext e he g _
    obtain ⟨hit, hhit, rfl⟩ := (mem_entries_run source s offset l maxLength).1 he
    obtain ⟨headword, reading, hterm, hreading⟩ := exists_form_of_hasTextForm (htext hit hhit)
    exact belongs_iff_eq hterm hreading

/-- A word whose record stands also under its first character, next to that of the character. -/
def catSource : Source where
  lookup w :=
    if w = "猫背".toList then some [(1, .plain [1])]
    else if w = "猫".toList then some [(1, .plain []), (1, .plain [1])]
    else some []
  decode blob :=
    if blob = .plain [] then .ok ⟨1, [], .null, .text "ねこ", .null⟩
    else .ok ⟨1, [("content", .text "stoop")], .text "猫背", .text "ねこぜ", .null⟩
  deinflect _ s := [s]
  snapshot := []

/-- The entry of the first character for the longer word is shown in the result of that word. -/
theorem grouped_longest_first_catSource :
    let entries := (run catSource "猫背".toList 0 .chinese 24).entries
    (∀ h, IsHit catSource .chinese (Search.window "猫背".toList 0 24) h → h.stored.HasTextForm) ∧
      ∃ groups, groupEntries [] true entries = .ok groups ∧ groups.map (·.matchLength) = [2, 1] ∧
        (groups.Pairwise fun g h => h.matchLength ≤ g.matchLength) ∧
        (∀ g ∈ groups, IsGreatest (lengthsOf entries g) g.matchLength) ∧
        ∀ e ∈ entries, ∀ g ∈ groups,
          (belongs e g = true ↔ orEmpty e.term = g.headword ∧ orEmpty e.reading = g.reading) := by
  intro entries
  have htext : ∀ h, IsHit catSource .chinese (Search.window "猫背".toList 0 24) h →
      h.stored.HasTextForm := by
    intro h hhit
    obtain ⟨rows, id, blob, -, -, -, hr⟩ := hhit.yields
    simp only [catSource] at hr
    split at hr
    · rw [← Except.ok.inj hr]
      exact ⟨.inl rfl, .inr ⟨_, rfl⟩⟩
    · rw [← Except.ok.inj hr]
      exact ⟨.inr ⟨_, rfl⟩, .inr ⟨_, rfl⟩⟩
  have hentries : entries = (collected catSource .chinese "猫背".toList).filterMap entryOf? :=
    List.mergeSort_of_pairwise (by decide)
  have hgroups : ∃ groups, groupEntries [] true entries = .ok groups ∧
      groups.map (·.matchLength) = [2, 1] := by
    rw [hentries]
    exact ⟨_, rfl, rfl⟩
  obtain ⟨groups, hgroups, hlengths⟩ := hgroups
  obtain ⟨hsorted, hgreatest, hform⟩ :=
    grouped_longest_first catSource [] "猫背".toList 0 .chinese 24 groups hgroups
  exact ⟨htext, groups, hgroups, hlengths, hsorted, hgreatest, hform htext⟩

end Search
end Lexicon
