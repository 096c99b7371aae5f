import Lexicon.Proofs.Dictionary.Collection
import Lexicon.Proofs.Dictionary.Ranking

/-! What a search returns: one entry for every record that may be shown under a word of the window, with
the longest front that gives the word, ranked. -/
namespace Lexicon

namespace Source

variable {source : Source} {w : Text} {i : ℕ} {r : StoredRecord}

/-- A row of a word holds a record, and its dictionary is not switched off. -/
def Yields (source : Source) (w : Text) (i : ℕ) (r : StoredRecord) : Prop :=
  ∃ rows id blob, source.lookup w = some rows ∧ rows[i]? = some (id, blob) ∧
    source.snapshot.isEnabled id = true ∧ source.decode blob = .ok r

/-- The record in a numbered row, unless it cannot be read or its dictionary is switched off. -/
def record? (source : Source) (p : (Int × Blob) × ℕ) : Option (ℕ × StoredRecord) :=
  if source.snapshot.isEnabled p.1.1 then
    match source.decode p.1.2 with
    | .ok r => some (p.2, r)
    | .error _ => none
  else none

theorem record?_eq_some_iff {p : (Int × Blob) × ℕ} {q : ℕ × StoredRecord} :
    source.record? p = some q ↔
      source.snapshot.isEnabled p.1.1 = true ∧ source.decode p.1.2 = .ok q.2 ∧ p.2 = q.1 := by
  obtain ⟨i, r⟩ := q
  unfold record?
  split
  · cases source.decode p.1.2 <;> simp [*, and_comm]
  · simp [*]

/-- The records of a word that may be shown, with the positions of their rows. -/
def records (source : Source) (w : Text) : List (ℕ × StoredRecord) :=
  ((source.lookup w).getD []).zipIdx.filterMap source.record?

theorem mem_records : (i, r) ∈ source.records w ↔ source.Yields w i r := by
  simp only [records, List.mem_filterMap, record?_eq_some_iff, Prod.exists,
    List.mk_mem_zipIdx_iff_getElem?]
  constructor
  · rintro ⟨id, blob, i, hrow, henabled, hdecode, rfl⟩
    cases hrows : source.lookup w with
    | none => simp [hrows] at hrow
    | some rows => exact ⟨rows, id, blob, hrows, by simpa [hrows] using hrow, henabled, hdecode⟩
  · rintro ⟨rows, id, blob, hrows, hrow, henabled, hdecode⟩
    exact ⟨id, blob, i, by simpa [hrows] using hrow, henabled, hdecode, rfl⟩

theorem Yields.unique {r' : StoredRecord} (h : source.Yields w i r) (h' : source.Yields w i r') :
    r = r' := by
  obtain ⟨rows, id, blob, hrows, hrow, -, hr⟩ := h
  obtain ⟨rows', id', blob', hrows', hrow', -, hr'⟩ := h'
  obtain rfl : rows = rows' := Option.some.inj (hrows.symm.trans hrows')
  obtain ⟨rfl, rfl⟩ := Prod.mk.inj (Option.some.inj (hrow.symm.trans hrow'))
  exact Except.ok.inj (hr.symm.trans hr')

theorem pairwise_records (source : Source) (w : Text) :
    (source.records w).Pairwise fun p q => p.1 < q.1 := by
  refine (pairwise_snd_lt_zipIdx _).filterMap _ ?_
  intro p q hpq a ha b hb
  rw [← (record?_eq_some_iff.1 ha).2.2, ← (record?_eq_some_iff.1 hb).2.2]
  exact hpq

end Source

namespace Search

/-- A record found: its word, the characters that the word stands for, the place of the word among those
of the same characters, and the row in which the record is. -/
structure Hit where
  word : Text
  length : ℕ
  place : ℕ
  row : ℕ
  stored : StoredRecord

namespace Hit

/-- The entry that shows a record. -/
def entry (h : Hit) : Entry where
  term := if h.stored.headword.isTruthy then h.stored.headword else .str h.word.raw
  reading := h.stored.reading
  source := h.stored.dictionaryId
  wordBytes := h.word.byteSize
  matchLength := h.length
  frequency := h.stored.frequency
  record := h.stored.record
  termTags := h.stored.termTags
  word := h.word

/-- The order in which candidates, and then the rows of each, are met. -/
def MetBefore (g h : Hit) : Prop := g.place < h.place ∨ g.place = h.place ∧ g.row < h.row

/-- The order of a result: by rank, and as met where the ranking does not decide. -/
def Before (snapshot : Snapshot) (g h : Hit) : Prop :=
  g.entry.Outranks snapshot h.entry ∨ g.entry.Ties snapshot h.entry ∧ g.MetBefore h

end Hit

/-- A record that may be shown under a word, with the longest front of the window that gives it. -/
structure IsHit (source : Source) (l : Language) (window : Text) (h : Hit) : Prop where
  spans : Spans source l window h.word h.length
  place_eq : h.place = place source l window h.word h.length
  yields : source.Yields h.word h.row h.stored

variable {source : Source} {l : Language} {window : Text}

/-- A word of the window and a row of it make one hit. -/
theorem existsUnique_isHit {w : Text} {n i : ℕ} {r : StoredRecord} (hpos : 1 ≤ n)
    (hle : n ≤ window.length) (hw : w ∈ words source l (window.take n))
    (hr : source.Yields w i r) : ∃! h, IsHit source l window h ∧ h.word = w ∧ h.row = i := by
  obtain ⟨c, hc, rfl⟩ := exists_mem_lookedUp hpos hle hw
  have hspans := spans_of_mem_lookedUp hc
  refine ⟨⟨c.word, c.sourceLength, place source l window c.word c.sourceLength, i, r⟩,
    ⟨⟨hspans, rfl, hr⟩, rfl, rfl⟩, ?_⟩
  rintro ⟨w, m, k, i, r'⟩ ⟨⟨hspans', hplace, hr'⟩, rfl, rfl⟩
  obtain rfl : m = c.sourceLength := hspans'.unique hspans
  obtain rfl : r' = r := hr'.unique hr
  obtain rfl : k = place source l window c.word c.sourceLength := hplace
  rfl

/-- The hit of a word and a row shows the record there, with as many characters at least as a front that
gives the word. -/
theorem exists_isHit_of_mem_words {w : Text} {n i : ℕ} {r : StoredRecord} (hpos : 1 ≤ n)
    (hle : n ≤ window.length) (hw : w ∈ words source l (window.take n))
    (hr : source.Yields w i r) :
    ∃ h, IsHit source l window h ∧ h.word = w ∧ h.row = i ∧ h.stored = r ∧ n ≤ h.length := by
  obtain ⟨h, ⟨hhit, rfl, rfl⟩, -⟩ := existsUnique_isHit hpos hle hw hr
  refine ⟨h, hhit, rfl, rfl, hhit.yields.unique hr, ?_⟩
  by_contra hlonger
  exact hhit.spans.longest n (Nat.lt_of_not_le hlonger) hle hw

/-- The records shown for a candidate. -/
def hitsOf (source : Source) (l : Language) (window : Text) (c : Candidate) : List Hit :=
  (source.records c.word).map fun p =>
    ⟨c.word, c.sourceLength, place source l window c.word c.sourceLength, p.1, p.2⟩

theorem entries_fetch (c : Candidate) :
    (fetch source c).filterMap entryOf? = (hitsOf source l window c).map Hit.entry := by
  unfold fetch hitsOf Source.records
  cases source.lookup c.word with
  | none => rfl
  | some rows =>
    have hrows : rows = rows.zipIdx.map Prod.fst := (List.zipIdx_map_fst 0 rows).symm
    rw [Option.getD_some, List.map_map, List.map_filterMap, List.filterMap_filterMap]
    conv_lhs => rw [hrows, List.filterMap_map]
    refine congrArg (List.filterMap · rows.zipIdx) (funext fun p => ?_)
    unfold Source.record?
    simp only [Function.comp_apply, entryOfRow?]
    split
    · cases source.decode p.1.2 <;> rfl
    · rfl

/-- Everything that is found, in the order in which it is met. -/
def hits (source : Source) (l : Language) (window : Text) : List Hit :=
  (lookedUp source l window).flatMap (hitsOf source l window)

theorem entries_collected :
    (collected source l window).filterMap entryOf? = (hits source l window).map Hit.entry := by
  rw [collected_eq, hits, List.filterMap_flatMap, List.map_flatMap]
  exact List.flatMap_congr fun c _ => entries_fetch c

theorem mem_hits {h : Hit} : h ∈ hits source l window ↔ IsHit source l window h := by
  obtain ⟨w, n, k, i, r⟩ := h
  simp only [hits, hitsOf, List.mem_flatMap, List.mem_map, Prod.exists, Source.mem_records,
    Hit.mk.injEq]
  constructor
  · rintro ⟨c, hc, i, r, hr, rfl, rfl, rfl, rfl, rfl⟩
    exact ⟨spans_of_mem_lookedUp hc, rfl, hr⟩
  · rintro ⟨hspans, hplace, hr⟩
    obtain ⟨c, hc, rfl, rfl⟩ := exists_mem_lookedUp_iff.2 hspans
    exact ⟨c, hc, i, r, hr, rfl, rfl, hplace.symm, rfl, rfl⟩

theorem mem_entries_run {e : Entry} (source : Source) (s : Text) (offset : Int) (l : Language)
    (maxLength : Int) : e ∈ (run source s offset l maxLength).entries ↔
      ∃ h, IsHit source l (Search.window s offset maxLength) h ∧ h.entry = e := by
  rw [run, ofWindow, (rankEntries_perm _ _).mem_iff, entries_collected, List.mem_map]
  simp only [mem_hits]

theorem pairwise_hits (source : Source) (l : Language) (window : Text) :
    (hits source l window).Pairwise fun g h =>
      h.length < g.length ∨ g.length = h.length ∧ g.MetBefore h := by
  rw [hits, List.pairwise_flatMap]
  refine ⟨?_, (pairwise_lookedUp window).imp ?_⟩
  · intro c _
    refine List.pairwise_map.2 ((source.pairwise_records c.word).imp ?_)
    intro p q hpq
    exact .inr ⟨rfl, .inr ⟨rfl, hpq⟩⟩
  · intro c d hcd g hg h hh
    obtain ⟨p, -, rfl⟩ := List.mem_map.1 hg
    obtain ⟨q, -, rfl⟩ := List.mem_map.1 hh
    exact hcd.imp_right fun ⟨hlength, hplace⟩ => ⟨hlength, .inl hplace⟩

/-- How many characters are searched, at most. When the length leads back behind the start of the text,
the end counts from the end of the text. -/
def reach (s : Text) (offset maxLength : Int) : ℕ :=
  if s.charIndex offset + maxLength < 0 then (s.length + maxLength).toNat else maxLength.toNat

theorem window_eq_take_reach (s : Text) (offset maxLength : Int) :
    Search.window s offset maxLength =
      (s.drop (s.charIndex offset)).take (reach s offset maxLength) := by
  rw [Search.window, Text.slice, List.drop_take]
  congr 1
  unfold reach
  split <;> omega

theorem window_eq (s : Text) (offset : Int) (maxLength : ℕ) :
    Search.window s offset maxLength = (s.drop (s.charIndex offset)).take maxLength := by
  have hstop : ¬ ((s.charIndex offset : Int) + maxLength < 0) := by omega
  rw [window_eq_take_reach, reach, if_neg hstop, Int.toNat_natCast]

/-- A search lists exactly the records that may be shown under the words of its window, each once and
with the longest front that gives the word. Longer matches come first, then dictionaries of lower
priority, then higher frequencies, then candidates and rows as they are met. -/
theorem run_lists_hits (source : Source) (s : Text) (offset : Int) (l : Language) (maxLength : ℕ) :
    let window := (s.drop (s.charIndex offset)).take maxLength
    (∀ w n i r, 1 ≤ n → n ≤ window.length → w ∈ words source l (window.take n) →
        source.Yields w i r → ∃! h, IsHit source l window h ∧ h.word = w ∧ h.row = i) ∧
      ∃ found : List Hit, (∀ h, h ∈ found ↔ IsHit source l window h) ∧
        found.Pairwise (Hit.Before source.snapshot) ∧
        (run source s offset l maxLength).entries = found.map Hit.entry := by
  intro window
  refine ⟨fun w n i r hpos hle hw hr => existsUnique_isHit hpos hle hw hr, ?_⟩
  obtain ⟨found, hperm, hentries, hbefore⟩ :=
    exists_rankEntries_eq_map source.snapshot Hit.entry (pairwise_hits source l window)
  refine ⟨found, fun h => hperm.mem_iff.trans mem_hits, hbefore.imp ?_, ?_⟩
  · rintro g h (hrank | ⟨hties, hshort | ⟨-, hmet⟩⟩)
    · exact .inl hrank
    · exact absurd hties.1.symm (Nat.ne_of_lt hshort)
    · exact .inr ⟨hties, hmet⟩
  · rw [run, window_eq, ofWindow, entries_collected, hentries]

/-- A word that every text of more than one character may come from. -/
def oneWord : Source where
  lookup w := if w = ['x'] then some [(1, .plain []), (2, .plain [])] else some []
  decode _ := .ok ⟨1, [], .null, .null, .null⟩
  deinflect _ s := if 2 ≤ s.length then [['x']] else []
  snapshot := [(2, ⟨false, none⟩)]

/-- Two fronts give the word; it is found once, with the longer one, and in one of its two rows. -/
theorem run_lists_hits_of_oneWord :
    ['x'] ∈ words oneWord .korean ['a', 'b', 'c'] ∧ ['x'] ∈ words oneWord .korean ['a', 'b'] ∧
      ∃ h, (IsHit oneWord .korean ['a', 'b', 'c'] h ∧ h.word = ['x'] ∧ h.row = 0) ∧ h.length = 3 ∧
        ∃ found : List Hit, h ∈ found ∧
          (run oneWord ['a', 'b', 'c'] 0 .korean 24).entries = found.map Hit.entry := by
  have hlong : ['x'] ∈ words oneWord .korean ['a', 'b', 'c'] := by decide
  have hyields : oneWord.Yields ['x'] 0 ⟨1, [], .null, .null, .null⟩ :=
    ⟨[(1, .plain []), (2, .plain [])], 1, .plain [], rfl, rfl, rfl, rfl⟩
  obtain ⟨hunique, found, hmem, -, hentries⟩ := run_lists_hits oneWord ['a', 'b', 'c'] 0 .korean 24
  obtain ⟨h, ⟨hhit, hword, hrow⟩, -⟩ :=
    hunique ['x'] 3 0 _ (by decide) (by decide) hlong hyields
  have hlength : h.length = 3 := by
    have hle : h.length ≤ 3 := hhit.spans.le
    by_contra hne
    exact hhit.spans.longest 3 (by omega) (by decide) (hword ▸ hlong)
  exact ⟨hlong, by decide, h, ⟨hhit, hword, hrow⟩, hlength, found, (hmem h).2 hhit, hentries⟩

end Search
end Lexicon
