import Lexicon.Proofs.Dictionary.Grouping
import Lexicon.Proofs.Dictionary.Visibility

/-! When results can be shown. A search ends with entries whatever its store holds, but the members of a
record are free-form, and they are looked at only when entries are grouped: one value of another type
than ruby or a list of tags is made of, and nothing at all is shown. -/
namespace Lexicon

namespace Grouping

/-- Where a list is asked for, what counts as absent stands for an empty one. -/
def isListing (v : Json) : Bool := !v.isTruthy || v.items?.isSome

/-- What an entry holds can be shown. Its tags are looked at only when it gives a definition. -/
structure Usable (e : Entry) : Prop where
  ruby : (orEmpty e.reading).isTruthy = false ∨
    (orEmpty e.term).same (orEmpty e.reading) = true ∨
    hasPositions (orEmpty e.term) = true ∧ hasPositions (orEmpty e.reading) = true
  termTags : frequencyValue? e.record = none → isListing e.termTags = true
  tags : frequencyValue? e.record = none → StoredRecord.isGlossary e.record = true →
    isListing ((e.record.get? "tags").getD .null) = true

section Results

variable {dictionary : Text} {e : Entry} {entries es met : List Entry} {v : Json}

theorem exists_itemsOrNone_iff : (∃ items, itemsOrNone v = .ok items) ↔ isListing v = true := by
  unfold itemsOrNone isListing
  cases v.isTruthy
  · simp
  · cases v.items? <;> simp

theorem exists_openGroup_iff : (∃ g, openGroup e = .ok g) ↔
    ((orEmpty e.reading).isTruthy = false ∨ (orEmpty e.term).same (orEmpty e.reading) = true ∨
      hasPositions (orEmpty e.term) = true ∧ hasPositions (orEmpty e.reading) = true) ∧
    (frequencyValue? e.record = none → isListing e.termTags = true) := by
  rw [← exists_furiganaOf_eq_ok_iff, ← exists_itemsOrNone_iff]
  unfold openGroup
  cases hvalue : frequencyValue? e.record with
  | some value => simp [bind_eq_ok_iff, pure, Except.pure]
  | none => simp [bind_eq_ok_iff, pure, Except.pure]

theorem exists_contentOf_iff : (∃ content, contentOf dictionary e = .ok content) ↔
    (frequencyValue? e.record = none → StoredRecord.isGlossary e.record = true →
      isListing ((e.record.get? "tags").getD .null) = true) := by
  rw [← exists_itemsOrNone_iff]
  unfold contentOf definitionOf
  cases hvalue : frequencyValue? e.record with
  | some value => simp
  | none =>
    cases hglossary : StoredRecord.isGlossary e.record <;>
      simp [map_eq_ok_iff, bind_eq_ok_iff, pure, Except.pure]

/-- An entry has a result exactly when what it holds can be shown. -/
theorem exists_resultOf_iff (names : NameTable) : (∃ g, resultOf names e = .ok g) ↔ Usable e := by
  constructor
  · rintro ⟨g, h⟩
    obtain ⟨o, ho, h⟩ := bind_eq_ok_iff.1 h
    obtain ⟨content, hcontent, -⟩ := addEntry_eq_ok_iff.1 h
    obtain ⟨hruby, htermTags⟩ := exists_openGroup_iff.1 ⟨o, ho⟩
    exact ⟨hruby, htermTags, exists_contentOf_iff.1 ⟨content, hcontent⟩⟩
  · rintro ⟨hruby, htermTags, htags⟩
    obtain ⟨o, ho⟩ := exists_openGroup_iff.2 ⟨hruby, htermTags⟩
    obtain ⟨content, hcontent⟩ := exists_contentOf_iff.2 htags
    exact ⟨_, bind_eq_ok_iff.2 ⟨o, ho, addEntry_eq_ok_iff.2 ⟨content, hcontent, rfl⟩⟩⟩

theorem exists_groupEntries_false_iff (names : NameTable)
    (hes : ∀ e ∈ entries, hasTerm e = true) :
    (∃ groups, groupEntries names false entries = .ok groups) ↔ ∀ e ∈ entries, Usable e := by
  have hresults (groups : List Group) : groupEntries names false entries = .ok groups ↔
      ∃ flat, entries.mapM (resultOf names) = .ok flat ∧ [] ++ flat = groups := by
    rw [groupEntries, foldlM_step_false hes, map_eq_ok_iff]
  simp only [hresults, ← exists_resultOf_iff names, ← exists_mapM_eq_ok_iff]
  constructor
  · rintro ⟨_, flat, hflat, -⟩
    exact ⟨flat, hflat⟩
  · rintro ⟨flat, hflat⟩
    exact ⟨_, flat, hflat, rfl⟩

theorem Usable.untagged (h : Usable e) : Usable (untagged e) := ⟨h.ruby, fun _ => rfl, h.tags⟩

/-- What holds of all entries without the term tags of repeated forms. -/
theorem forall_mem_untagRepeats_iff {p : Entry → Prop} : (∀ e ∈ untagRepeats met es, p e) ↔
    ∀ earlier e later, es = earlier ++ e :: later →
      p (if (met ++ earlier).any (sharesForm e) then Grouping.untagged e else e) := by
  induction es generalizing met with
  | nil => simp [untagRepeats]
  | cons a rest ih =>
    rw [untagRepeats, List.forall_mem_cons, ih]
    constructor
    · rintro ⟨ha, hrest⟩ earlier e later heq
      cases earlier with
      | nil =>
        obtain ⟨rfl, rfl⟩ := List.cons.inj heq
        rwa [List.append_nil]
      | cons b earlier =>
        obtain ⟨rfl, rfl⟩ := List.cons.inj heq
        rw [List.append_cons]
        exact hrest earlier e later rfl
    · intro h
      refine ⟨by simpa using h [] a rest rfl, fun earlier e later heq => ?_⟩
      rw [← List.append_cons]
      exact h (a :: earlier) e later (by rw [heq, List.cons_append])

/-- Grouped mode asks for the term tags of an entry only where its form is new. -/
theorem exists_groupEntries_true_iff (names : NameTable)
    (hes : ∀ e ∈ entries, hasTerm e = true) :
    (∃ groups, groupEntries names true entries = .ok groups) ↔
      (∀ e ∈ entries, HasScalarTerm e ∧ Usable (untagged e)) ∧
        ∀ earlier e later, entries = earlier ++ e :: later → earlier.any (sharesForm e) = false →
          Usable e := by
  have hmerge (groups : List Group) : groupEntries names true entries = .ok groups ↔
      (∀ e ∈ entries, HasScalarTerm e) ∧
        ∃ flat, (untagRepeats [] entries).mapM (resultOf names) = .ok flat ∧
          groups = merge ([] ++ flat) :=
    foldlM_step_merge_eq_ok_iff hes (List.forall_mem_nil _) rfl
  have hflat : (∃ flat, (untagRepeats [] entries).mapM (resultOf names) = .ok flat) ↔
      (∀ e ∈ entries, Usable (untagged e)) ∧
        ∀ earlier e later, entries = earlier ++ e :: later → earlier.any (sharesForm e) = false →
          Usable e := by
    simp only [exists_mapM_eq_ok_iff, exists_resultOf_iff, forall_mem_untagRepeats_iff,
      List.nil_append]
    constructor
    · intro h
      refine ⟨fun e he => ?_, fun earlier e later heq hnew => ?_⟩
      · obtain ⟨earlier, later, heq⟩ := List.append_of_mem he
        have husable := h earlier e later heq
        split at husable
        · exact husable
        · exact husable.untagged
      · simpa [hnew] using h earlier e later heq
    · rintro ⟨huntagged, hnew⟩ earlier e later heq
      split
      · exact huntagged e (heq ▸ List.mem_append_right _ (List.mem_cons_self ..))
      · next hany => exact hnew earlier e later heq (Bool.eq_false_iff.2 hany)
  constructor
  · rintro ⟨groups, h⟩
    obtain ⟨hscalar, flat, h, -⟩ := (hmerge groups).1 h
    obtain ⟨huntagged, hnew⟩ := hflat.1 ⟨flat, h⟩
    exact ⟨fun e he => ⟨hscalar e he, huntagged e he⟩, hnew⟩
  · rintro ⟨hall, hnew⟩
    obtain ⟨flat, h⟩ := hflat.2 ⟨fun e he => (hall e he).2, hnew⟩
    exact ⟨_, (hmerge _).2 ⟨fun e he => (hall e he).1, flat, h, rfl⟩⟩

end Results

end Grouping

/-- The members of a record are what dictionaries write: texts for headword and reading, arrays for tags,
or nothing. -/
structure StoredRecord.IsTyped (r : StoredRecord) : Prop where
  headword : r.headword = .null ∨ ∃ s, r.headword = .str s
  reading : r.reading = .null ∨ ∃ s, r.reading = .str s
  termTags : r.termTags = .null ∨ ∃ items, r.termTags = .array items
  tags : ∀ v, r.record.get? "tags" = some v → v = .null ∨ ∃ items, v = .array items

/-- Headword and reading of a record are texts, or nothing. -/
structure StoredRecord.HasTextForm (r : StoredRecord) : Prop where
  headword : r.headword = .null ∨ ∃ s, r.headword = .str s
  reading : r.reading = .null ∨ ∃ s, r.reading = .str s

namespace Search

open Grouping

variable {source : Source} {l : Language} {window s : Text} {h : Hit} {e : Entry}

theorem ne_nil_of_mem_words {w : Text} (hs : s ≠ []) (hw : w ∈ words source l s) : w ≠ [] := by
  obtain ⟨c, hc, rfl⟩ := List.mem_map.1 hw
  unfold admitted at hc
  split at hc
  · exact absurd hc List.not_mem_nil
  · have hc := List.mem_of_mem_filter hc
    simp only [candidates, List.mem_cons, List.mem_flatMap, List.mem_map, List.mem_filter] at hc
    rcases hc with rfl | ⟨variant, -, word, ⟨-, hword⟩, rfl⟩
    · exact hs
    · simpa using hword

/-- The word stands in for a missing headword, so that no entry is left out for it. -/
theorem IsHit.hasTerm (hhit : IsHit source l window h) : hasTerm h.entry = true := by
  have hwindow : window.take h.length ≠ [] := by
    have hpos := hhit.spans.pos
    have hle := hhit.spans.le
    rw [← List.length_pos_iff, List.length_take_of_le hle]
    omega
  have hword : (Json.str h.word.raw).isTruthy = true := by
    simpa [Json.isTruthy, Text.raw] using ne_nil_of_mem_words hwindow hhit.spans.mem
  have hterm : h.entry.term.isTruthy = true := by
    simp only [Hit.entry]
    split
    · assumption
    · exact hword
  simp only [Grouping.hasTerm, orEmpty, hterm, if_true]

theorem hasTerm_of_mem_run (source : Source) (s : Text) (offset : Int) (l : Language)
    (maxLength : Int) : ∀ e ∈ (run source s offset l maxLength).entries, hasTerm e = true := by
  intro e he
  obtain ⟨h, hhit, rfl⟩ := (mem_entries_run ..).1 he
  exact hhit.hasTerm

/-- The word stands in for a missing headword, and nothing to read for a missing reading. -/
theorem exists_form_of_hasTextForm (hr : h.stored.HasTextForm) : ∃ headword reading,
    orEmpty h.entry.term = .str headword ∧ orEmpty h.entry.reading = .str reading := by
  have hempty {v : Json} (hv : v = .null ∨ ∃ s, v = .str s) : ∃ s, orEmpty v = .str s := by
    rcases hv with rfl | ⟨s, rfl⟩
    · exact ⟨[], rfl⟩
    · unfold orEmpty
      split
      · exact ⟨s, rfl⟩
      · exact ⟨[], rfl⟩
  have hterm : h.entry.term = .null ∨ ∃ s, h.entry.term = .str s := by
    simp only [Hit.entry]
    split
    · exact hr.headword
    · exact .inr ⟨_, rfl⟩
  obtain ⟨headword, hheadword⟩ := hempty hterm
  obtain ⟨reading, hreading⟩ := hempty hr.reading
  exact ⟨headword, reading, hheadword, hreading⟩

theorem exists_form_of_isTyped (hr : h.stored.IsTyped) : ∃ headword reading,
    orEmpty h.entry.term = .str headword ∧ orEmpty h.entry.reading = .str reading :=
  exists_form_of_hasTextForm ⟨hr.headword, hr.reading⟩

theorem usable_of_isTyped (hr : h.stored.IsTyped) : Usable h.entry := by
  obtain ⟨headword, reading, hheadword, hreading⟩ := exists_form_of_isTyped hr
  have hlisting {v : Json} (hv : v = .null ∨ ∃ items, v = .array items) : isListing v = true := by
    rcases hv with rfl | ⟨items, rfl⟩
    · rfl
    · simp [isListing, Json.items?]
  refine ⟨?_, fun _ => hlisting hr.termTags, fun _ _ => hlisting ?_⟩
  · rw [hheadword, hreading]
    exact .inr (.inr ⟨rfl, rfl⟩)
  · have hrecord : h.entry.record = h.stored.record := rfl
    rw [hrecord]
    cases htags : h.stored.record.get? "tags" with
    | none => exact .inl rfl
    | some v => exact hr.tags v htags

/-- Whether what is found can be shown. Shown on their own, all records found have to be usable. Grouped,
they have to be of forms that can be looked up and usable but for their term tags, which are asked for
only where a form is new. Where all members are what dictionaries write, both hold; a single record with
another value in them is enough for nothing to be shown. -/
theorem exists_groupEntries_run_iff (source : Source) (names : NameTable) (s : Text) (offset : Int)
    (l : Language) (maxLength : Int) :
    let found := IsHit source l (Search.window s offset maxLength)
    let entries := (run source s offset l maxLength).entries
    ((∃ groups, groupEntries names false entries = .ok groups) ↔ ∀ h, found h → Usable h.entry) ∧
    ((∃ groups, groupEntries names true entries = .ok groups) ↔
      (∀ h, found h → HasScalarTerm h.entry ∧ Usable (untagged h.entry)) ∧
        ∀ earlier e later, entries = earlier ++ e :: later → earlier.any (sharesForm e) = false →
          Usable e) ∧
    ((∀ h, found h → h.stored.IsTyped) →
      ∀ mode, ∃ groups, groupEntries names mode entries = .ok groups) := by
  intro found entries
  have hforall {p : Entry → Prop} : (∀ e ∈ entries, p e) ↔ ∀ h, found h → p h.entry := by
    simp [entries, mem_entries_run, found]
  have hterms : ∀ e ∈ entries, hasTerm e = true := hasTerm_of_mem_run source s offset l maxLength
  have hflat := exists_groupEntries_false_iff names hterms
  have hmerged := exists_groupEntries_true_iff names hterms
  rw [hforall] at hflat hmerged
  refine ⟨hflat, hmerged, fun htyped mode => ?_⟩
  have husable : ∀ e ∈ entries, Usable e := hforall.2 fun h hhit => usable_of_isTyped (htyped h hhit)
  cases mode with
  | false => exact hflat.2 (hforall.1 husable)
  | true =>
    refine hmerged.2 ⟨fun h hhit => ⟨?_, (hforall.1 husable h hhit).untagged⟩, ?_⟩
    · obtain ⟨headword, reading, hheadword, hreading⟩ := exists_form_of_isTyped (htyped h hhit)
      exact ⟨by rw [hheadword]; rfl, by rw [hreading]; rfl⟩
    · rintro earlier e later heq -
      exact husable e (heq ▸ List.mem_append_right _ (List.mem_cons_self ..))

theorem exists_groupEntries_run_iff_sharedSource :
    let found := IsHit sharedSource .korean (Search.window "食べる".toList 0 24)
    (∃ h, found h) ∧ (∀ h, found h → h.stored.IsTyped) ∧ (∀ h, found h → Usable h.entry) ∧
      ∃ groups, groupEntries [] true (run sharedSource "食べる".toList 0 .korean 24).entries =
        .ok groups := by
  intro found
  have hsaved : ∀ p ∈ sharedWord, p.2.toJson.HasDistinctNames ∧ p.2.toJson.Fits .standard := by
    decide
  have htyped : ∀ h, found h → h.stored.IsTyped := by
    intro h hhit
    obtain ⟨rows, id, blob, hrows, hrow, -, hr⟩ := hhit.yields
    have hmem := (Source.mem_of_decode_ofRecords hsaved hrows (List.mem_of_getElem? hrow) hr).1
    simp only [sharedWord, List.mem_cons, Prod.mk.injEq, List.not_mem_nil, or_false] at hmem
    rcases hmem with ⟨-, hr⟩ | ⟨-, hr⟩ | ⟨-, hr⟩ <;> rw [hr] <;>
      exact ⟨by simp, by simp [Json.text], .inl rfl, by simp [Table.get?]⟩
  have hyields : sharedSource.Yields "食べる".toList 0 ⟨2, [], .null, .text "たべる", .null⟩ :=
    Source.yields_ofRecords rfl (by decide) (by decide) (by decide) _
  have hword : ∃! h, found h ∧ h.word = "食べる".toList ∧ h.row = 0 :=
    existsUnique_isHit (n := 3) (by decide) (by decide) (by decide) hyields
  obtain ⟨h, ⟨hhit, -⟩, -⟩ := hword
  obtain ⟨hflat, -, hall⟩ := exists_groupEntries_run_iff sharedSource [] "食べる".toList 0 .korean 24
  exact ⟨⟨h, hhit⟩, htyped, hflat.1 (hall htyped false), hall htyped true⟩

/-- A word whose reading is a number. -/
def numberedReading : StoredRecord where
  dictionaryId := 1
  record := [("type", .text "glossary"), ("content", .array [.text "cat"])]
  headword := .text "猫"
  reading := .int 5
  termTags := .null

def numberedSource : Source := Source.ofRecords [("猫".toList, numberedReading)] fun _ s => [s]

/-- The record can be read and is found, but ruby cannot be made of its reading. -/
theorem not_exists_groupEntries_numberedSource :
    (∃ blob, numberedReading.encode = some blob ∧
        StoredRecord.decode blob = .ok numberedReading) ∧
      ∀ mode, ¬ ∃ groups,
        groupEntries [] mode (run numberedSource "猫".toList 0 .chinese 24).entries = .ok groups := by
  have hnames : numberedReading.toJson.HasDistinctNames := by decide
  have hcharacters : numberedReading.toJson.HasCharacters := by decide
  obtain ⟨blob, hblob⟩ := StoredRecord.exists_encode_iff.2 hcharacters
  have hdecode : StoredRecord.decode blob = .ok numberedReading :=
    StoredRecord.decodeWithin_encode hnames (by decide) hblob
  have hyields : numberedSource.Yields "猫".toList 0 numberedReading :=
    Source.yields_ofRecords rfl hnames (by decide) hcharacters _
  have hfound : ∃! h, IsHit numberedSource .chinese (Search.window "猫".toList 0 24) h ∧
      h.word = "猫".toList ∧ h.row = 0 :=
    existsUnique_isHit (n := 1) (by decide) (by decide) (by decide) hyields
  obtain ⟨h, ⟨hhit, hword, hrow⟩, -⟩ := hfound
  have hstored : h.stored = numberedReading := (hword ▸ hrow ▸ hhit.yields).unique hyields
  have hterm : h.entry.term = .text "猫" := by
    rw [Hit.entry, hstored]
    rfl
  have hreading : h.entry.reading = .int 5 := congrArg StoredRecord.reading hstored
  have hruby : ¬ Usable (untagged h.entry) := by
    intro husable
    have hshown := husable.ruby
    simp [untagged, hterm, hreading, orEmpty, Json.isTruthy, Json.text, Json.same, Json.toInt?,
      hasPositions] at hshown
  have hterms := hasTerm_of_mem_run numberedSource "猫".toList 0 .chinese 24
  have hmem := (mem_entries_run numberedSource "猫".toList 0 .chinese 24).2 ⟨h, hhit, rfl⟩
  refine ⟨⟨blob, hblob, hdecode⟩, fun mode hgroups => hruby ?_⟩
  cases mode with
  | false => exact ((exists_groupEntries_false_iff [] hterms).1 hgroups _ hmem).untagged
  | true => exact (((exists_groupEntries_true_iff [] hterms).1 hgroups).1 _ hmem).2

end Search
end Lexicon
