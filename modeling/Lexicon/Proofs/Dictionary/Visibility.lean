import Lexicon.Dictionary.Store
import Lexicon.Proofs.Dictionary.Record
import Lexicon.Proofs.Dictionary.Search
import Lexicon.Proofs.Registry.Basic

/-! What a search shows when a dictionary is switched off: the same entries without those of the
dictionary. Which words are looked up and how entries are ranked does not depend on the switch, so the
two searches differ only in the rows that they pass over. A row is passed over for the dictionary that it
stands under, and an entry shows the one that its record names; where the two differ, an entry of a
dictionary that is switched off may be shown. -/
namespace Lexicon

/-- The row in which a record is stored under a term, if it can be written. -/
def StoredRecord.row? (r : StoredRecord) (term : Text) : Option Row :=
  r.encode.map fun blob => ⟨term, r.dictionaryId, blob⟩

namespace Source

/-- Every record in a row names the dictionary that the row belongs to. -/
def OwnsRows (source : Source) : Prop :=
  ∀ w rows, source.lookup w = some rows → ∀ row ∈ rows, ∀ r, source.decode row.2 = .ok r →
    r.dictionaryId = row.1

/-- The source with another state of the dictionaries. -/
def withSnapshot (source : Source) (snapshot : Snapshot) : Source :=
  { source with snapshot := snapshot }

/-- A source of stored records. -/
def ofRecords (records : List (Text × StoredRecord)) (deinflect : Language → Text → List Text) :
    Source where
  lookup term := some (RowStore.lookup (records.filterMap fun p => p.2.row? p.1) term)
  decode := StoredRecord.decode
  deinflect := deinflect
  snapshot := []

/-- What is read from a row of a term is a record of the term. -/
theorem mem_of_decode_ofRecords {records : List (Text × StoredRecord)}
    (h : ∀ p ∈ records, p.2.toJson.HasDistinctNames ∧ p.2.toJson.Fits .standard)
    {deinflect : Language → Text → List Text} {w : Text} {rows : List (Int × Blob)}
    {row : Int × Blob} {r : StoredRecord} (hrows : (ofRecords records deinflect).lookup w = some rows)
    (hrow : row ∈ rows) (hr : (ofRecords records deinflect).decode row.2 = .ok r) :
    (w, r) ∈ records ∧ r.dictionaryId = row.1 := by
  obtain rfl := Option.some.inj hrows
  simp only [RowStore.lookup, List.mem_map, List.mem_filter, List.mem_filterMap,
    decide_eq_true_eq] at hrow
  obtain ⟨_, ⟨⟨p, hp, hstored⟩, rfl⟩, rfl⟩ := hrow
  obtain ⟨blob, hblob, rfl⟩ := Option.map_eq_some_iff.1 hstored
  have hread : StoredRecord.decode blob = .ok p.2 :=
    StoredRecord.decodeWithin_encode (h p hp).1 (h p hp).2 hblob
  obtain rfl : p.2 = r := Except.ok.inj (hread.symm.trans hr)
  exact ⟨hp, rfl⟩

theorem filter_term_rows (records : List (Text × StoredRecord)) (w : Text) :
    (records.filterMap fun p => p.2.row? p.1).filter (·.term = w) =
      (records.filter (·.1 = w)).filterMap fun p => p.2.row? p.1 := by
  rw [List.filter_filterMap, List.filterMap_filter]
  refine List.filterMap_congr fun p _ => ?_
  cases hrow : p.2.row? p.1 with
  | none => simp
  | some row =>
    obtain ⟨blob, -, rfl⟩ := Option.map_eq_some_iff.1 hrow
    simp [Option.filter]

/-- The first record of a term is read from the first row of the term. -/
theorem yields_ofRecords {records rest : List (Text × StoredRecord)} {w : Text} {r : StoredRecord}
    (hfirst : records.filter (·.1 = w) = (w, r) :: rest) (hnames : r.toJson.HasDistinctNames)
    (hfits : r.toJson.Fits .standard) (hcharacters : r.toJson.HasCharacters)
    (deinflect : Language → Text → List Text) : (ofRecords records deinflect).Yields w 0 r := by
  obtain ⟨blob, hblob⟩ := StoredRecord.exists_encode_iff.2 hcharacters
  have hrow : r.row? w = some ⟨w, r.dictionaryId, blob⟩ := by rw [StoredRecord.row?, hblob]; rfl
  refine ⟨_, r.dictionaryId, blob, rfl, ?_, rfl,
    StoredRecord.decodeWithin_encode hnames hfits hblob⟩
  simp [RowStore.lookup, filter_term_rows, hfirst, hrow]

/-- Rows that records are written in belong to the dictionaries that the records name. -/
theorem ownsRows_ofRecords {records : List (Text × StoredRecord)}
    (h : ∀ p ∈ records, p.2.toJson.HasDistinctNames ∧ p.2.toJson.Fits .standard)
    (deinflect : Language → Text → List Text) : (ofRecords records deinflect).OwnsRows :=
  fun _ _ hrows _ hrow _ hr => (mem_of_decode_ofRecords h hrows hrow hr).2

end Source

namespace Search

section Hidden

variable {source : Source} {shown hidden : Snapshot} {id : Int}

theorem lookedUp_withSnapshot (source : Source) (snapshot : Snapshot) (l : Language)
    (window : Text) : lookedUp (source.withSnapshot snapshot) l window = lookedUp source l window :=
  rfl

/-- A row shows the same under both states, unless it belongs to the dictionary switched off. -/
theorem entryOfRow?_hidden (hself : hidden.isEnabled id = false)
    (hother : ∀ other, other ≠ id → hidden.isEnabled other = shown.isEnabled other)
    (c : Candidate) {row : Int × Blob}
    (hrow : ∀ r, source.decode row.2 = .ok r → r.dictionaryId = row.1) :
    (entryOfRow? (source.withSnapshot hidden) c row).bind entryOf? =
      ((entryOfRow? (source.withSnapshot shown) c row).bind entryOf?).filter
        fun e => e.source ≠ id := by
  have hsource {r : StoredRecord} (hr : source.decode row.2 = .ok r) :
      (entryOf c r).source = row.1 := hrow r hr
  unfold entryOfRow? Source.withSnapshot
  by_cases hid : row.1 = id
  · simp only [hid, hself, Bool.false_eq_true, if_false, Option.bind_none]
    split
    · cases hr : source.decode row.2 with
      | error e => rfl
      | ok r => simp [entryOf?, Option.filter_some, hsource hr, hid]
    · rfl
  · simp only [hother row.1 hid]
    split
    · cases hr : source.decode row.2 with
      | error e => rfl
      | ok r => simp [entryOf?, Option.filter_some, hsource hr, hid]
    · rfl

theorem entries_fetch_hidden (hrows : source.OwnsRows) (hself : hidden.isEnabled id = false)
    (hother : ∀ other, other ≠ id → hidden.isEnabled other = shown.isEnabled other)
    (c : Candidate) :
    (fetch (source.withSnapshot hidden) c).filterMap entryOf? =
      ((fetch (source.withSnapshot shown) c).filterMap entryOf?).filter fun e => e.source ≠ id := by
  unfold fetch
  cases hlookup : source.lookup c.word with
  | none =>
    simp only [Source.withSnapshot, hlookup]
    rfl
  | some rows =>
    simp only [Source.withSnapshot, hlookup, List.filterMap_filterMap, List.filter_filterMap]
    exact List.filterMap_congr fun row hrow =>
      entryOfRow?_hidden hself hother c (hrows c.word rows hlookup row hrow)

/-- Switching a dictionary off takes its entries out of every window and nothing else. -/
theorem entries_ofWindow_hidden (hrows : source.OwnsRows) (hself : hidden.isEnabled id = false)
    (hother : ∀ other, other ≠ id → hidden.isEnabled other = shown.isEnabled other)
    (hpriority : ∀ other, hidden.priorityOf other = shown.priorityOf other)
    (l : Language) (window : Text) :
    (ofWindow (source.withSnapshot hidden) l window).entries =
      (ofWindow (source.withSnapshot shown) l window).entries.filter fun e => e.source ≠ id := by
  have hcollected : (collected (source.withSnapshot hidden) l window).filterMap entryOf? =
      ((collected (source.withSnapshot shown) l window).filterMap entryOf?).filter
        fun e => e.source ≠ id := by
    rw [collected_eq, collected_eq, lookedUp_withSnapshot, lookedUp_withSnapshot,
      List.filterMap_flatMap, List.filterMap_flatMap, List.filter_flatMap]
    exact List.flatMap_congr fun c _ => entries_fetch_hidden hrows hself hother c
  calc (ofWindow (source.withSnapshot hidden) l window).entries
      = rankEntries hidden ((collected (source.withSnapshot hidden) l window).filterMap entryOf?) :=
        rfl
    _ = rankEntries shown (((collected (source.withSnapshot shown) l window).filterMap
          entryOf?).filter fun e => e.source ≠ id) := by
        rw [hcollected, rankEntries_congr hpriority]
    _ = (ofWindow (source.withSnapshot shown) l window).entries.filter fun e => e.source ≠ id :=
        (filter_rankEntries shown _ _).symm

end Hidden

/-- Switching a dictionary off hides exactly its own entries: a search then finds what it finds with
the dictionary switched on, in the same order, without the entries that come from the dictionary. -/
theorem entries_run_toggle_off (source : Source) (hrows : source.OwnsRows) (r : Registry) (id : Int)
    (hid : id ∈ r.ids) (s : Text) (offset : Int) (l : Language) (maxLength : Int) :
    (run (source.withSnapshot (r.toggle id false).snapshot) s offset l maxLength).entries =
      (run (source.withSnapshot (r.toggle id true).snapshot) s offset l maxLength).entries.filter
        fun e => e.source ≠ id := by
  refine entries_ofWindow_hidden hrows (Registry.isEnabled_toggle_self hid false) ?_ ?_ l _
  · intro other hother
    rw [Registry.isEnabled_toggle_of_ne hother, Registry.isEnabled_toggle_of_ne hother]
  · intro other
    rw [Registry.priorityOf_toggle, Registry.priorityOf_toggle]

/-- Two words that start alike, one of them in two dictionaries. -/
def sharedWord : List (Text × StoredRecord) := [
  ("食".toList, ⟨1, [], .null, .null, .null⟩),
  ("食".toList, ⟨2, [("popularity", .int 5)], .null, .text "しょく", .null⟩),
  ("食べる".toList, ⟨2, [], .null, .text "たべる", .null⟩)]

/-- Two dictionaries, of which one has no priority. -/
def twoDictionaries : Registry :=
  Registry.ofList [⟨1, "a".toList, true, some 4⟩, ⟨2, "b".toList, true, none⟩]

def sharedSource : Source := Source.ofRecords sharedWord fun _ s => [s]

theorem entries_run_toggle_off_sharedWord :
    sharedSource.OwnsRows ∧ 2 ∈ twoDictionaries.ids ∧
      (run (sharedSource.withSnapshot (twoDictionaries.toggle 2 false).snapshot)
          "食べる".toList 0 .korean 24).entries =
        (run (sharedSource.withSnapshot (twoDictionaries.toggle 2 true).snapshot)
          "食べる".toList 0 .korean 24).entries.filter fun e => e.source ≠ 2 := by
  have hrows : sharedSource.OwnsRows := Source.ownsRows_ofRecords (by decide) _
  have hid : 2 ∈ twoDictionaries.ids := by decide
  exact ⟨hrows, hid, entries_run_toggle_off _ hrows _ _ hid _ _ _ _⟩

section Misfiled

/-- No row of a dictionary that is switched off is shown, whatever is in it. But an entry shows the
dictionary that its record names: one that is switched off is never shown if and only if no row in use,
of a word that is looked up, holds a record of such a dictionary. So it is never shown where records are
stored under the dictionaries that they name. -/
theorem forall_not_hides_iff (source : Source) (r : Registry) (s : Text) (offset : Int) (l : Language)
    (maxLength : Int) :
    let shown := source.withSnapshot r.snapshot
    let entries := (run shown s offset l maxLength).entries
    (∀ e ∈ entries, ∃ rows row record, source.lookup e.word = some rows ∧ row ∈ rows ∧
        ¬ r.Hides row.1 ∧ source.decode row.2 = .ok record ∧ record.dictionaryId = e.source) ∧
    ((∀ e ∈ entries, ¬ r.Hides e.source) ↔
      ∀ w n, Spans shown l (Search.window s offset maxLength) w n →
        ∀ rows, source.lookup w = some rows → ∀ row ∈ rows, ¬ r.Hides row.1 →
          ∀ record, source.decode row.2 = .ok record → ¬ r.Hides record.dictionaryId) ∧
    (source.OwnsRows → ∀ e ∈ entries, ¬ r.Hides e.source) := by
  intro shown entries
  have hrow : ∀ e ∈ entries, ∃ rows row record, source.lookup e.word = some rows ∧ row ∈ rows ∧
      ¬ r.Hides row.1 ∧ source.decode row.2 = .ok record ∧ record.dictionaryId = e.source := by
    intro e he
    obtain ⟨h, hhit, rfl⟩ := (mem_entries_run ..).1 he
    obtain ⟨rows, id, blob, hrows, hrow, henabled, hdecode⟩ := hhit.yields
    exact ⟨rows, (id, blob), h.stored, hrows, List.mem_of_getElem? hrow,
      r.not_hides_iff.2 henabled, hdecode, rfl⟩
  refine ⟨hrow, ⟨fun hnone w n hspans rows hrows row hmem hused record hrecord => ?_,
    fun hrows e he => ?_⟩, fun howns e he => ?_⟩
  · obtain ⟨i, hi⟩ := List.mem_iff_getElem?.1 hmem
    have hyields : shown.Yields w i record :=
      ⟨rows, row.1, row.2, hrows, hi, r.not_hides_iff.1 hused, hrecord⟩
    obtain ⟨h, ⟨hhit, hw, hrow⟩, -⟩ := existsUnique_isHit hspans.pos hspans.le hspans.mem hyields
    obtain rfl : h.stored = record := (hw ▸ hrow ▸ hhit.yields).unique hyields
    exact hnone h.entry ((mem_entries_run ..).2 ⟨h, hhit, rfl⟩)
  · obtain ⟨h, hhit, rfl⟩ := (mem_entries_run ..).1 he
    obtain ⟨rows, id, blob, hlookup, hrow, henabled, hdecode⟩ := hhit.yields
    exact hrows h.word h.length hhit.spans rows hlookup (id, blob) (List.mem_of_getElem? hrow)
      (r.not_hides_iff.2 henabled) h.stored hdecode
  · obtain ⟨rows, row, record, hlookup, hmem, hused, hdecode, hsource⟩ := hrow e he
    rw [← hsource, howns e.word rows hlookup row hmem record hdecode]
    exact hused

/-- The second dictionary has an entry for the word, and is switched off. -/
theorem forall_not_hides_iff_sharedSource :
    sharedSource.OwnsRows ∧ (twoDictionaries.toggle 2 false).Hides 2 ∧
      ∀ e ∈ (run (sharedSource.withSnapshot (twoDictionaries.toggle 2 false).snapshot)
        "食べる".toList 0 .korean 24).entries, ¬ (twoDictionaries.toggle 2 false).Hides e.source := by
  have hrows : sharedSource.OwnsRows := Source.ownsRows_ofRecords (by decide) _
  exact ⟨hrows, by decide,
    (forall_not_hides_iff sharedSource _ "食べる".toList 0 .korean 24).2.2 hrows⟩

/-- A record of the second dictionary. -/
def misfiled : StoredRecord := ⟨2, [], .null, .null, .null⟩

/-- It stands in a row of the first one. -/
def misfiledSource : Source where
  lookup term :=
    some (RowStore.lookup (misfiled.encode.toList.map fun blob => ⟨"猫".toList, 1, blob⟩) term)
  decode := StoredRecord.decode
  deinflect _ s := [s]
  snapshot := []

/-- The row is in use, so the record is shown, and with it the dictionary that is switched off. -/
theorem exists_hides_misfiledSource :
    ∃ e ∈ (run (misfiledSource.withSnapshot (twoDictionaries.toggle 2 false).snapshot)
      "猫".toList 0 .chinese 24).entries, (twoDictionaries.toggle 2 false).Hides e.source := by
  obtain ⟨blob, hblob⟩ := StoredRecord.exists_encode_iff.2 (show misfiled.toJson.HasCharacters by decide)
  have hlookup : misfiledSource.lookup "猫".toList = some [(1, blob)] := by
    simp [misfiledSource, hblob, RowStore.lookup]
  have hdecode : StoredRecord.decode blob = .ok misfiled :=
    StoredRecord.decodeWithin_encode (by decide) (by decide) hblob
  have hyields : (misfiledSource.withSnapshot (twoDictionaries.toggle 2 false).snapshot).Yields
      "猫".toList 0 misfiled := ⟨_, 1, blob, hlookup, rfl, by decide, hdecode⟩
  have hmem : "猫".toList ∈ words (misfiledSource.withSnapshot (twoDictionaries.toggle 2 false).snapshot)
      .chinese ((Search.window "猫".toList 0 24).take 1) := by decide
  obtain ⟨h, ⟨hhit, hword, hrow⟩, -⟩ :=
    existsUnique_isHit (by decide) (by decide) hmem hyields
  have hstored : h.stored = misfiled := (hword ▸ hrow ▸ hhit.yields).unique hyields
  have hsource : h.entry.source = 2 := congrArg StoredRecord.dictionaryId hstored
  have hhides : (twoDictionaries.toggle 2 false).Hides 2 := by decide
  exact ⟨h.entry, (mem_entries_run ..).2 ⟨h, hhit, rfl⟩, by rwa [hsource]⟩

end Misfiled

end Search
end Lexicon
