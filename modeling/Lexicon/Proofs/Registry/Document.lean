import Lexicon.Proofs.Files.Basic
import Lexicon.Proofs.Ini.Reader
import Lexicon.Proofs.Ini.RoundTrip
import Lexicon.Proofs.Registry.Basic
import Lexicon.Proofs.Text.Digits
import Lexicon.Registry.Document

/-! The registry kept in a file. Saving loses nothing that a file can hold: the dictionaries come
back in their order, and whatever is loaded can be saved so. Of a name that a file cannot hold a part is
lost, and no more than that as long as there is no carriage return in it. -/
namespace Lexicon

namespace DictionaryInfo

section Writing

variable {info : DictionaryInfo}

/-- A number is a value that a document can hold, also after a word. -/
theorem isNormal_append_ofInt {front : Text} (hblank : ∀ c ∈ front.head?, Text.isBlank c = false)
    (hbreak : '\n' ∉ front ∧ '\r' ∉ front) (n : ℤ) : Ini.IsNormal (front ++ Text.ofInt n) := by
  have hplain := Text.forall_mem_ofInt
    (p := fun c => Text.isBlank c = false ∧ c ≠ '\n' ∧ c ≠ '\r') (by decide) (by decide) n
  have hne := Text.ofInt_ne_nil n
  refine Ini.isNormal_of_line (List.append_ne_nil_of_right_ne_nil _ hne)
    (Text.trim_eq_self_iff.2 ⟨fun c hc => ?_, fun c hc => ?_⟩) ?_ ?_
  · cases front with
    | nil => exact (hplain c (List.mem_of_mem_head? hc)).1
    | cons d front => exact hblank c hc
  · rw [List.getLast?_append_of_ne_nil _ hne] at hc
    exact (hplain c (List.mem_of_getLast? hc)).1
  · rw [List.mem_append, not_or]
    exact ⟨hbreak.1, fun hc => (hplain _ hc).2.1 rfl⟩
  · rw [List.mem_append, not_or]
    exact ⟨hbreak.2, fun hc => (hplain _ hc).2.2 rfl⟩

theorem isNormal_ofInt (n : ℤ) : Ini.IsNormal (Text.ofInt n) :=
  (isNormal_append_ofInt (by simp) (by simp) n : Ini.IsNormal ([] ++ Text.ofInt n))

theorem isNormal_defaultName (id : ℤ) : Ini.IsNormal (defaultName id) :=
  isNormal_append_ofInt (by rintro c ⟨⟩; decide) (by decide) id

theorem sectionName_injective : Function.Injective sectionName := by
  intro a b h
  have hdigits : Text.ofInt a = Text.ofInt b := List.append_cancel_left h
  have hread := congrArg Text.signed? hdigits
  rw [Text.signed?_ofInt, Text.signed?_ofInt] at hread
  exact Option.some.inj hread

theorem isSectionName_sectionName (id : ℤ) : Ini.IsSectionName (sectionName id) where
  ne_nil := List.append_ne_nil_of_left_ne_nil (by decide) _
  noBreak := by
    have hplain := Text.forall_mem_ofInt (p := fun c => c ≠ '\n' ∧ c ≠ '\r') (by decide)
      (by decide) id
    rw [sectionName, List.mem_append, List.mem_append, not_or, not_or]
    exact ⟨⟨by decide, fun hc => (hplain _ hc).1 rfl⟩, ⟨by decide, fun hc => (hplain _ hc).2 rfl⟩⟩
  ne_default := by
    intro h
    have hhead : some 'd' = Ini.defaultSection.head? := congrArg List.head? h
    exact absurd hhead (by decide)

theorem isEntryName_of_mem : ∀ key ∈ [nameKey, enabledKey, priorityKey], Ini.IsEntryName key := by
  decide +kernel

/-- The section of a dictionary with its name. -/
def toSection (info : DictionaryInfo) : Text × Table Text Text :=
  (sectionName info.id, info.toEntries)

/-- The section of a dictionary can be written whatever lines the dictionary's name consists of. -/
theorem isPlainSection (h : '\r' ∉ info.name) : Ini.IsPlainSection info.toSection where
  name := isSectionName_sectionName info.id
  nodup := by
    unfold toSection toEntries
    split
    · exact (by decide : [nameKey, enabledKey, priorityKey].Nodup)
    · exact (by decide : [nameKey, enabledKey].Nodup)
  entries := by
    have hnames := isEntryName_of_mem
    simp only [List.forall_mem_cons] at hnames
    obtain ⟨hname, henabled, hpriority, -⟩ := hnames
    unfold toSection toEntries
    refine List.forall_mem_append.2 ⟨List.forall_mem_cons.2 ⟨⟨hname, h⟩,
      List.forall_mem_singleton.2 ⟨henabled, (Ini.isNormal_switchText _).noReturn⟩⟩, ?_⟩
    split
    · exact List.forall_mem_singleton.2 ⟨hpriority, (isNormal_ofInt _).noReturn⟩
    · exact List.forall_mem_nil _

/-- A dictionary with its name as it is kept in a file. -/
def kept (info : DictionaryInfo) : DictionaryInfo :=
  { info with name := Ini.keptValue info.name }

theorem kept_eq_self (h : Ini.IsNormal info.name) : info.kept = info := by
  rw [kept, Ini.keptValue_eq_self h]

/-- Of the entries of a dictionary only the name can change. -/
theorem keptEntries_toEntries (info : DictionaryInfo) :
    Ini.keptEntries info.toEntries = info.kept.toEntries := by
  have henabled := Ini.keptValue_eq_self (Ini.isNormal_switchText info.state.enabled)
  unfold toEntries kept
  cases info.state.priority with
  | none => simp [Ini.keptEntries, henabled]
  | some priority => simp [Ini.keptEntries, henabled, Ini.keptValue_eq_self (isNormal_ofInt priority)]

theorem keptSections_map_toSection (infos : List DictionaryInfo) :
    Ini.keptSections (infos.map toSection) = (infos.map kept).map toSection := by
  rw [Ini.keptSections, List.map_map, List.map_map]
  exact List.map_congr_left fun info _ => congrArg (sectionName info.id, ·) info.keptEntries_toEntries

end Writing

section Reading

variable {limit : ℕ} {info : DictionaryInfo} {doc : Ini} {part : Text}

/-- A dictionary whose numbers are no longer than the ones that are read. -/
structure Fits (limit : ℕ) (info : DictionaryInfo) : Prop where
  id_le : (Text.ofNat info.id.natAbs).length ≤ limit
  priority_le : ∀ priority ∈ info.state.priority, (Text.ofNat priority.natAbs).length ≤ limit

theorem Fits.mono {limit' : ℕ} (h : Fits limit info) (hle : limit ≤ limit') : Fits limit' info :=
  ⟨h.id_le.trans hle, fun priority hpriority => (h.priority_le priority hpriority).trans hle⟩

theorem exists_fits (info : DictionaryInfo) : ∃ limit, Fits limit info := by
  obtain ⟨id, name, enabled, priority⟩ := info
  cases priority with
  | none => exact ⟨_, le_rfl, by simp⟩
  | some priority =>
    refine ⟨_, le_max_left _ (Text.ofNat priority.natAbs).length, ?_⟩
    rintro _ ⟨⟩
    exact le_max_right ..

/-- The entries of a dictionary are read as the dictionary. -/
theorem ofSection_of_get? (hdoc : ∀ key, doc.get? part key = info.toEntries.get? key)
    (h : Fits limit info) : ofSection limit doc part info.id = (info, []) := by
  have hname : doc.get? part nameKey = some info.name := hdoc nameKey
  have henabled : doc.get? part enabledKey = some (Ini.switchText info.state.enabled) :=
    hdoc enabledKey
  have hpriority : doc.get? part priorityKey = info.state.priority.map Text.ofInt := by
    rw [hdoc priorityKey]
    unfold toEntries
    cases info.state.priority <;> rfl
  obtain ⟨id, name, enabled, priority⟩ := info
  cases priority with
  | none => simp [ofSection, hname, henabled, hpriority, readEntry]
  | some priority =>
    have hread := Text.toIntWithin?_ofInt (h.priority_le priority rfl)
    simp [ofSection, hname, henabled, hpriority, readEntry, hread]

theorem ofSection?_sectionName
    (hdoc : ∀ key, doc.get? (sectionName info.id) key = info.toEntries.get? key)
    (h : Fits limit info) : ofSection? limit doc (sectionName info.id) = (some info, []) := by
  have hid : (sectionName info.id).dropFront? sectionMark = some (Text.ofInt info.id) :=
    TextOf.dropFront?_append ..
  simp only [ofSection?, hid, Text.toIntWithin?_ofInt h.id_le, ofSection_of_get? hdoc h]

theorem isNormal_name_ofSection (h : doc.Holds Ini.IsNormal) (limit : ℕ) (part : Text) (id : ℤ) :
    Ini.IsNormal (ofSection limit doc part id).1.name := by
  have hname : (ofSection limit doc part id).1.name
      = (doc.get? part nameKey).getD (defaultName id) := rfl
  rw [hname]
  cases hvalue : doc.get? part nameKey with
  | none => exact isNormal_defaultName id
  | some value => exact h.of_get? hvalue

theorem fits_ofSection {id : ℤ} (hid : (Text.ofNat id.natAbs).length ≤ limit) (doc : Ini)
    (part : Text) : (ofSection limit doc part id).1.Fits limit := by
  refine ⟨hid, fun priority hpriority => ?_⟩
  have hentry : priority ∈ (readEntry (doc.get? part priorityKey)
    (fun value => (value.toIntWithin? limit).map some) none (.badPriority id)).1 := hpriority
  unfold readEntry at hentry
  split at hentry
  · cases hentry
  · split at hentry
    · next hread =>
      obtain ⟨n, hn, rfl⟩ := Option.map_eq_some_iff.1 hread
      cases hentry
      exact Text.length_ofNat_le_of_toIntWithin? hn
    · cases hentry

/-- Whatever a section of a document says of a dictionary, the dictionary can be written. -/
theorem isNormal_and_fits_of_ofSection? (h : doc.Holds Ini.IsNormal)
    (hinfo : (ofSection? limit doc part).1 = some info) :
    Ini.IsNormal info.name ∧ info.Fits limit := by
  unfold ofSection? at hinfo
  split at hinfo
  · cases hinfo
  · split at hinfo
    · cases hinfo
    · next id hid =>
      cases hinfo
      exact ⟨isNormal_name_ofSection h limit part id,
        fits_ofSection (Text.length_ofNat_le_of_toIntWithin? hid) doc part⟩

end Reading

end DictionaryInfo

namespace Registry

section Writing

variable {limit : ℕ} {r : Registry} {info : DictionaryInfo} {infos : List DictionaryInfo}

theorem exists_forall_fits (infos : List DictionaryInfo) :
    ∃ limit, ∀ info ∈ infos, info.Fits limit := by
  induction infos with
  | nil => exact ⟨0, List.forall_mem_nil _⟩
  | cons info infos ih =>
    obtain ⟨own, hown⟩ := info.exists_fits
    obtain ⟨limit, hlimit⟩ := ih
    exact ⟨max own limit, List.forall_mem_cons.2 ⟨hown.mono (le_max_left ..),
      fun other hother => (hlimit other hother).mono (le_max_right ..)⟩⟩

theorem nodup_keys_map_toSection (h : (infos.map (·.id)).Nodup) :
    (Table.keys (infos.map DictionaryInfo.toSection)).Nodup := by
  have hnames := h.map DictionaryInfo.sectionName_injective
  rw [List.map_map] at hnames
  rwa [Table.keys, List.map_map]

/-- Dictionaries with ids of their own are found under them in a document. -/
theorem get?_map_toSection (h : (infos.map (·.id)).Nodup) (hinfo : info ∈ infos) (key : Text) :
    Ini.get? ⟨[], infos.map DictionaryInfo.toSection⟩ (DictionaryInfo.sectionName info.id) key
      = info.toEntries.get? key := by
  have hmem : (DictionaryInfo.sectionName info.id, info.toEntries)
      ∈ infos.map DictionaryInfo.toSection := List.mem_map_of_mem hinfo
  rw [Ini.get?, Table.get?_of_mem (nodup_keys_map_toSection h) hmem, Option.getD_some,
    Table.get?_nil]
  cases info.toEntries.get? key <;> rfl

/-- A document of dictionaries is read as the dictionaries, and there is nothing to report. -/
theorem ofSection?_map_toSection (h : (infos.map (·.id)).Nodup)
    (hfits : ∀ info ∈ infos, info.Fits limit) (hinfo : info ∈ infos) :
    DictionaryInfo.ofSection? limit ⟨[], infos.map DictionaryInfo.toSection⟩ info.toSection.1
      = (some info, []) :=
  DictionaryInfo.ofSection?_sectionName (get?_map_toSection h hinfo) (hfits info hinfo)

theorem infosOf_map_toSection (h : (infos.map (·.id)).Nodup)
    (hfits : ∀ info ∈ infos, info.Fits limit) :
    infosOf limit ⟨[], infos.map DictionaryInfo.toSection⟩ = infos := by
  rw [infosOf, Table.keys, List.map_map, List.filterMap_map]
  have hread : ∀ info ∈ infos, (DictionaryInfo.ofSection? limit
      ⟨[], infos.map DictionaryInfo.toSection⟩ info.toSection.1).1 = some info := by
    intro info hinfo
    rw [ofSection?_map_toSection h hfits hinfo]
  exact (List.filterMap_congr hread).trans List.filterMap_some

theorem noticesOf_map_toSection (h : (infos.map (·.id)).Nodup)
    (hfits : ∀ info ∈ infos, info.Fits limit) :
    noticesOf limit ⟨[], infos.map DictionaryInfo.toSection⟩ = [] := by
  rw [noticesOf, Table.keys, List.map_map, List.flatMap_map, List.flatMap_eq_nil_iff]
  intro info hinfo
  rw [Function.comp_apply, ofSection?_map_toSection h hfits hinfo]

theorem sections_toIni (r : Registry) :
    r.toIni.sections = r.sorted.map DictionaryInfo.toSection :=
  Table.ofList_eq_self (nodup_keys_map_toSection r.nodup_sorted)

theorem isPlain_toIni (h : ∀ info ∈ r.infos, '\r' ∉ info.name) : r.toIni.IsPlain where
  defaults := rfl
  nodup := r.sections_toIni ▸ nodup_keys_map_toSection r.nodup_sorted
  sections := by
    rw [sections_toIni]
    refine List.forall_mem_map.2 fun info hinfo => ?_
    exact DictionaryInfo.isPlainSection (h info (r.sorted_perm.mem_iff.1 hinfo))

theorem nodup_sorted_kept (r : Registry) :
    ((r.sorted.map DictionaryInfo.kept).map (·.id)).Nodup := by
  rw [List.map_map]
  exact r.nodup_sorted

/-- What is read of a registry's text are its dictionaries with their names as they are kept. -/
theorem ofTextWithin_toText (hnames : ∀ info ∈ r.infos, '\r' ∉ info.name)
    (hfits : ∀ info ∈ r.infos, info.Fits limit) (path : Text) :
    ofTextWithin limit path r.toText
      = ⟨ofList (r.sorted.map DictionaryInfo.kept), [.loaded r.sorted.length path]⟩ := by
  have hread : Ini.read? r.toText
      = some ⟨[], (r.sorted.map DictionaryInfo.kept).map DictionaryInfo.toSection⟩ := by
    rw [toText, Ini.read?_toText (isPlain_toIni hnames), sections_toIni,
      DictionaryInfo.keptSections_map_toSection]
  have hkept : ∀ info ∈ r.sorted.map DictionaryInfo.kept, info.Fits limit := by
    refine List.forall_mem_map.2 fun info hinfo => ?_
    obtain ⟨hid, hpriority⟩ := hfits info (r.sorted_perm.mem_iff.1 hinfo)
    exact ⟨hid, hpriority⟩
  simp only [ofTextWithin, hread, ofIni, infosOf_map_toSection r.nodup_sorted_kept hkept,
    noticesOf_map_toSection r.nodup_sorted_kept hkept, List.nil_append, List.length_map]

/-- Names play no part in how dictionaries are sorted. -/
theorem sorted_ofList_kept (r : Registry) :
    (ofList (r.sorted.map DictionaryInfo.kept)).sorted = r.sorted.map DictionaryInfo.kept :=
  sorted_ofList r.nodup_sorted_kept (List.pairwise_map.2 r.pairwise_sorted)

end Writing

section Reading

variable {limit : ℕ} {doc : Ini} {info : DictionaryInfo} {path : Text}

theorem mem_infosOf_iff : info ∈ infosOf limit doc ↔
    ∃ part ∈ doc.sections.keys, (DictionaryInfo.ofSection? limit doc part).1 = some info :=
  List.mem_filterMap

/-- Every dictionary that a text describes can be written. -/
theorem forall_mem_infos_ofTextWithin (limit : ℕ) (path s : Text) :
    ∀ info ∈ (ofTextWithin limit path s).registry.infos,
      Ini.IsNormal info.name ∧ info.Fits limit := by
  unfold ofTextWithin
  split
  · exact List.forall_mem_nil _
  · next doc hdoc =>
    intro info hinfo
    obtain ⟨part, -, hpart⟩ := mem_infosOf_iff.1 (mem_of_mem_ofList hinfo)
    exact DictionaryInfo.isNormal_and_fits_of_ofSection? (Ini.holds_of_read? hdoc) hpart

theorem forall_mem_infos_of_loadWithin {files : Files} {noted : Noted}
    (h : loadWithin limit files path = .ok noted) :
    ∀ info ∈ noted.registry.infos, Ini.IsNormal info.name ∧ info.Fits limit := by
  unfold loadWithin at h
  split at h
  · cases h
    exact List.forall_mem_nil _
  · cases h
  · split at h
    · cases h
      exact List.forall_mem_nil _
    · cases h
  · next s _ =>
    cases h
    exact forall_mem_infos_ofTextWithin limit path s

end Reading

/-- Wherever a file can be put, the registry is saved and loaded again as it was. -/
def Persists (limit : ℕ) (r : Registry) : Prop :=
  ∀ (files : Files) (path full : Text), Path.target files.isFile path = .ok full →
    full ≠ Files.nullName → ∃ saved noted, r.save files path = .ok saved ∧
      loadWithin limit saved path = .ok noted ∧ noted.registry.sorted = r.sorted

/-- Wherever a file can be put, a registry without carriage returns in its names is saved and loaded
again with the names as they are kept. -/
theorem exists_save_load {limit : ℕ} {r : Registry} {files : Files} {path full : Text}
    (hnames : ∀ info ∈ r.infos, '\r' ∉ info.name) (hfits : ∀ info ∈ r.infos, info.Fits limit)
    (htarget : Path.target files.isFile path = .ok full) (hnull : full ≠ Files.nullName) :
    ∃ saved noted, r.save files path = .ok saved ∧ loadWithin limit saved path = .ok noted ∧
      noted.registry.sorted = r.sorted.map DictionaryInfo.kept ∧
      noted.notices = [.loaded r.sorted.length path] := by
  obtain ⟨saved, hsaved, hread⟩ := Files.exists_write_read htarget hnull r.toText
  have hload := ofTextWithin_toText hnames hfits path
  refine ⟨saved, ofTextWithin limit path r.toText, hsaved, ?_, ?_, ?_⟩
  · rw [loadWithin, hread]
  · rw [hload]
    exact r.sorted_ofList_kept
  · rw [hload]

theorem persists_of_forall_mem {limit : ℕ} {r : Registry}
    (hnames : ∀ info ∈ r.infos, Ini.IsNormal info.name)
    (hfits : ∀ info ∈ r.infos, info.Fits limit) : r.Persists limit := by
  intro files path full htarget hnull
  obtain ⟨saved, noted, hsaved, hload, hsorted, -⟩ :=
    exists_save_load (fun info hinfo => (hnames info hinfo).noReturn) hfits htarget hnull
  have hkept : r.sorted.map DictionaryInfo.kept = r.sorted :=
    (List.map_congr_left fun info hinfo =>
      DictionaryInfo.kept_eq_self (hnames info (r.sorted_perm.mem_iff.1 hinfo))).trans
      (List.map_id r.sorted)
  exact ⟨saved, noted, hsaved, hload, hsorted.trans hkept⟩

/-- A text with defaults, a name of two lines, an id in another spelling and a number that is
none. -/
def sampleText : Text :=
  "[DEFAULT]\nenabled = on\n[dictionary.1]\r\nName: a\n  b\n\n[dictionary.+02]\npriority = x".toList

end Registry
end Lexicon
