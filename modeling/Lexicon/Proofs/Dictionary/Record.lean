import Lexicon.Dictionary.Record
import Lexicon.Proofs.Basic
import Lexicon.Proofs.Json.Reader
import Lexicon.Proofs.Json.RoundTrip

/-! Stored records read back. A record is found again in its blob as it was, and what is read from
any blob is found again in the blob that is written for it. -/
namespace Lexicon.StoredRecord

section Members

variable {v : Json} {r : StoredRecord} {limits : Json.Limits}

theorem get?_member (key : String) (v : Json) :
    Table.get? (storedFields.member key v) key = v.toOption := by
  cases v <;> simp [storedFields.member, Json.isNull, Json.toOption]

theorem get?_member_of_ne {key other : String} (h : key ≠ other) (v : Json) :
    Table.get? (storedFields.member key v) other = none := by
  unfold storedFields.member
  split
  · rfl
  · rw [Table.get?_cons, if_neg fun e => h (String.toList_inj.1 (Text.raw_inj.1 e)), Table.get?_nil]

theorem keys_member_sublist (key : String) (v : Json) :
    (Table.keys (storedFields.member key v)).Sublist [key] := by
  unfold storedFields.member
  split
  · exact List.nil_sublist _
  · exact List.Sublist.refl _

/-- The names in the order in which they are written. -/
def fieldNames : List RawText :=
  ["dictionary_id", "record", "headword", "reading", "term_tags"]

theorem nodup_keys_toFields (r : StoredRecord) : r.toFields.keys.Nodup := by
  have hnames : fieldNames.Nodup := by decide
  refine hnames.sublist ?_
  simp only [toFields, storedFields, Table.keys_append]
  exact (((List.Sublist.refl _).append (keys_member_sublist _ _)).append
    (keys_member_sublist _ _)).append (keys_member_sublist _ _)

theorem getD_toOption (v : Json) : v.toOption.getD .null = v := by cases v <;> rfl

/-- A name other than the first two is looked for among the members that may be left out. -/
theorem get?_toFields {key : String} (hid : key ≠ "dictionary_id") (hrecord : key ≠ "record")
    (r : StoredRecord) :
    r.toFields.get? key =
      (((Table.get? (storedFields.member "headword" r.headword) key
        <|> Table.get? (storedFields.member "reading" r.reading) key)
        <|> Table.get? (storedFields.member "term_tags" r.termTags) key)) := by
  have hne {s t : String} (h : t ≠ s) : (s : RawText) ≠ t :=
    fun e => h (String.toList_inj.1 (Text.raw_inj.1 e)).symm
  have hid' := hne hid
  have hrecord' := hne hrecord
  have hfirst : Table.get? ([("dictionary_id", .int r.dictionaryId), ("record", .object r.record)] :
      Fields) key = none :=
    (Table.get?_cons_of_ne hid' _ _).trans (Table.get?_cons_of_ne hrecord' _ _)
  rw [toFields, storedFields, Table.get?_append, Table.get?_append, Table.get?_append, hfirst]
  rfl

/-- A record is found in its own members: what is left out is null. -/
theorem ofJson_toJson (limits : Json.Limits) (r : StoredRecord) :
    ofJson limits r.toJson = .ok r := by
  have hid : r.toFields.get? "dictionary_id" = some (.int r.dictionaryId) := by rfl
  have hrecord : r.toFields.get? "record" = some (.object r.record) := by rfl
  have hheadword : r.toFields.get? "headword" = r.headword.toOption := by
    rw [get?_toFields (by decide) (by decide), get?_member, get?_member_of_ne (by decide),
      get?_member_of_ne (by decide)]
    cases r.headword <;> rfl
  have hreading : r.toFields.get? "reading" = r.reading.toOption := by
    rw [get?_toFields (by decide) (by decide), get?_member, get?_member_of_ne (by decide),
      get?_member_of_ne (by decide)]
    cases r.reading <;> rfl
  have htags : r.toFields.get? "term_tags" = r.termTags.toOption := by
    rw [get?_toFields (by decide) (by decide), get?_member, get?_member_of_ne (by decide),
      get?_member_of_ne (by decide)]
    rfl
  simp only [ofJson, toJson, ofFields, fieldOf, hid, hrecord, hheadword, hreading, htags,
    getD_toOption]
  rfl

end Members

section Decoded

variable {limits : Json.Limits} {blob : Blob} {r : StoredRecord}

/-- A record that fits the limits is read back from its blob. -/
theorem decodeWithin_encode (hnames : r.toJson.HasDistinctNames) (hfits : r.toJson.Fits limits)
    (h : r.encode = some blob) : decodeWithin limits blob = .ok r := by
  obtain ⟨bytes, hbytes, rfl⟩ := Option.map_eq_some_iff.1 h
  obtain ⟨s, hs, rfl⟩ := Option.map_eq_some_iff.1 hbytes
  have hread : Json.readWithin limits s.raw = .ok r.toJson :=
    RawText.text?_eq_some_iff.1 hs ▸ Json.readWithin_render Json.isPlain_tight hnames hfits
  simp only [decodeWithin, Blob.content?, bind, Except.bind, Text.ofBytes?_toBytes, hread,
    Except.mapError]
  exact ofJson_toJson limits r

/-- Only a surrogate keeps a record from having a blob. -/
theorem exists_encode_iff : (∃ blob, r.encode = some blob) ↔ r.toJson.HasCharacters := by
  rw [← @Json.isSome_text?_render .tight rfl rfl, ← Option.isSome_iff_exists, encode,
    RawText.toBytes?, Option.isSome_map, Option.isSome_map]
  rfl

/-- Every value that counts as an id is short enough to be written. -/
theorem length_ofNat_of_idOf {v : Json} {id : ℤ}
    (hv : v.everywhere (Json.isShort limits.digits) = true) (h : idOf limits v = .ok id) :
    (Text.ofNat id.natAbs).length ≤ limits.digits := by
  unfold idOf at h
  split at h
  · cases h
    exact of_decide_eq_true hv
  · next b =>
    cases h
    have hbit : (Text.ofNat (if b = true then (1 : ℤ) else 0).natAbs).length = 1 := by
      cases b <;> rfl
    rw [hbit]
    exact Nat.le_trans (by decide) limits.le_digits
  · cases h
    exact (Binary64.length_ofNat_truncate_le _).trans limits.le_digits
  · cases h
  · split at h
    · next n hn =>
      cases h
      obtain ⟨s, -, hn⟩ := Option.bind_eq_some_iff.1 hn
      exact Text.length_ofNat_le_of_toIntWithin? hn
    · cases h
  · cases h

theorem exists_of_decodeWithin_eq_ok (h : decodeWithin limits blob = .ok r) :
    ∃ s fields, Json.readWithin limits s = .ok (.object fields) ∧
      ofFields limits fields = .ok r := by
  unfold decodeWithin at h
  obtain ⟨content, -, h⟩ := bind_eq_ok_iff.1 h
  split at h
  · cases h
  · next s hs =>
    obtain ⟨v, hread, h⟩ := bind_eq_ok_iff.1 h
    rw [mapError_eq_ok_iff] at hread
    unfold ofJson at h
    split at h
    · next fields => exact ⟨s.raw, fields, hread, h⟩
    · cases h

theorem mem_of_fieldOf_eq_ok {fields : Fields} {key : String} {v : Json}
    (h : fieldOf fields key = .ok v) : (↑key, v) ∈ fields := by
  unfold fieldOf at h
  split at h
  · next w hw =>
    cases h
    exact Table.mem_of_get?_eq_some hw
  · cases h

/-- The parts of a record that is read stand in the object, or they are null. -/
theorem ofFields_eq_ok {fields : Fields} (h : ofFields limits fields = .ok r) :
    (∃ key id, (key, id) ∈ fields ∧ idOf limits id = .ok r.dictionaryId) ∧
      (∃ key, (key, .object r.record) ∈ fields) ∧
      ∀ v ∈ [r.headword, r.reading, r.termTags], v = .null ∨ ∃ key, (key, v) ∈ fields := by
  have hoptional (key : RawText) : (fields.get? key).getD .null = .null ∨
      ∃ key', (key', (fields.get? key).getD .null) ∈ fields := by
    cases hkey : fields.get? key with
    | none => exact .inl rfl
    | some v => exact .inr ⟨key, Table.mem_of_get?_eq_some hkey⟩
  unfold ofFields at h
  obtain ⟨v, hrecord, h⟩ := bind_eq_ok_iff.1 h
  split at h
  · next record =>
    obtain ⟨id, hid, h⟩ := bind_eq_ok_iff.1 h
    obtain ⟨n, hn, h⟩ := bind_eq_ok_iff.1 h
    cases h
    refine ⟨⟨_, id, mem_of_fieldOf_eq_ok hid, hn⟩, ⟨_, mem_of_fieldOf_eq_ok hrecord⟩, ?_⟩
    simp only [List.forall_mem_cons]
    exact ⟨hoptional _, hoptional _, hoptional _, by simp⟩
  · cases h

theorem isReadable_toJson (h : decodeWithin limits blob = .ok r) :
    Json.IsReadable limits.digits limits.depth r.toJson := by
  obtain ⟨s, fields, hread, hfields⟩ := exists_of_decodeWithin_eq_ok h
  obtain ⟨depth, hdepth, hinside⟩ :=
    Json.exists_isReadable_of_object (Json.isReadable_of_readWithin hread)
  obtain ⟨⟨_, id, hid, hn⟩, ⟨_, hrecord⟩, hoptional⟩ := ofFields_eq_ok hfields
  have hpart : ∀ v ∈ [r.headword, r.reading, r.termTags],
      Json.IsReadable limits.digits depth v := by
    intro v hv
    rcases hoptional v hv with rfl | ⟨key, hkey⟩
    · exact Json.isReadable_null ..
    · exact hinside _ hkey
  have hmember {key : String} {v : Json} (hv : Json.IsReadable limits.digits depth v) :
      ∀ field ∈ storedFields.member key v, Json.IsReadable limits.digits depth field.2 := by
    unfold storedFields.member
    split
    · simp
    · exact List.forall_mem_singleton.2 hv
  rw [hdepth]
  refine Json.isReadable_object (nodup_keys_toFields r) fun field hfield => ?_
  simp only [toFields, storedFields, List.mem_append, List.mem_cons, List.not_mem_nil,
    or_false] at hfield
  rcases hfield with (((rfl | rfl) | hheadword) | hreading) | htags
  · exact Json.isReadable_int (length_ofNat_of_idOf (hinside _ hid).isShort hn) depth
  · have hobject := hinside _ hrecord
    exact hobject
  · exact hmember (hpart _ (by simp)) field hheadword
  · exact hmember (hpart _ (by simp)) field hreading
  · exact hmember (hpart _ (by simp)) field htags

end Decoded

/-- A record without surrogates is found again in its blob as it was, under all limits that it fits, and
there are such limits for every record. What is read from a blob can be written again unless it has a
surrogate, which the text in a blob can spell and its bytes cannot hold; then it is found again in the blob
that is written for it. -/
theorem encode_loses_nothing :
    (∀ r : StoredRecord, r.toJson.HasDistinctNames → r.toJson.HasCharacters →
      (∃ limits, r.toJson.Fits limits) ∧ ∃ blob, r.encode = some blob ∧
        ∀ limits, r.toJson.Fits limits → decodeWithin limits blob = .ok r) ∧
      ∀ limits blob r, decodeWithin limits blob = .ok r →
        ((∃ blob', r.encode = some blob') ↔ r.toJson.HasCharacters) ∧
          ∀ blob', r.encode = some blob' → decodeWithin limits blob' = .ok r := by
  refine ⟨fun r hnames hcharacters => ⟨r.toJson.exists_fits, ?_⟩, fun limits blob r h => ?_⟩
  · obtain ⟨blob, hblob⟩ := exists_encode_iff.2 hcharacters
    exact ⟨blob, hblob, fun limits hfits => decodeWithin_encode hnames hfits hblob⟩
  · obtain ⟨hdepth, hshort, hnames⟩ := isReadable_toJson h
    exact ⟨exists_encode_iff, fun blob' => decodeWithin_encode hnames ⟨hdepth, hshort⟩⟩

/-- A frequency of the word 食べる: an integer beside the floats of the same value and of the least
positive one, texts with escapes, and members that are empty but not absent. -/
def sample : StoredRecord where
  dictionaryId := -7
  record := [
    ("type", .text "frequency"), ("value", .int 3),
    ("weights", .array [.float ⟨false, 0x4008000000000000, by decide⟩,
      .float ⟨true, 1, by decide⟩]),
    ("note", .text "a \"quoted\"\tnote\\"), ([], .array [.null, .object []])]
  headword := .text "食べる"
  reading := .text ""
  termTags := .array []

/-- An object that another program may have written for a record: its id is a text, and a member
that is absent is null. -/
def foreign : Json := .object [("record", .object []),
  ("dictionary_id", .text " 1_0 "), ("reading", .null)]

/-- What is read from it. -/
def foreignRecord : StoredRecord := ⟨10, [], .null, .null, .null⟩

theorem encode_loses_nothing_sample :
    sample.toJson.HasDistinctNames ∧ sample.toJson.HasCharacters ∧ sample.toJson.Fits .standard ∧
      (∃ blob, sample.encode = some blob ∧ decode blob = .ok sample) ∧
      ∃ written, (foreign.render .spaced).toBytes? = some written ∧
        decode (.compressed written) = .ok foreignRecord ∧
        ∃ blob, foreignRecord.encode = some blob ∧ decode blob = .ok foreignRecord := by
  have hnames : sample.toJson.HasDistinctNames := by decide
  have hcharacters : sample.toJson.HasCharacters := by decide
  have hfits : sample.toJson.Fits .standard := by decide
  obtain ⟨-, blob, hblob, hdecode⟩ := encode_loses_nothing.1 sample hnames hcharacters
  have hread : Json.readWithin .standard (foreign.render .spaced) = .ok foreign :=
    Json.readWithin_render Json.isPlain_spaced (by decide) (by decide)
  obtain ⟨s, hs⟩ : ∃ s, (foreign.render .spaced).text? = some s := ⟨_, rfl⟩
  rw [RawText.text?_eq_some_iff.1 hs] at hread
  have hnumber : Text.toIntWithin? Json.Limits.standard.digits " 1_0 ".toList = some 10 := by decide
  have hid : idOf .standard (.text " 1_0 ") = .ok 10 := by
    simp only [idOf, Json.text, Text.text?_raw, Option.bind_some, hnumber]
  have hfields : ofJson .standard foreign = (idOf .standard (.text " 1_0 ")).bind fun id =>
      .ok ⟨id, [], .null, .null, .null⟩ := by rfl
  have hforeign : decode (.compressed s.toBytes) = .ok foreignRecord := by
    simp only [decode, decodeWithin, Blob.content?, bind, Except.bind, Text.ofBytes?_toBytes,
      hread, Except.mapError, hfields, hid]
    rfl
  obtain ⟨hencodes, hagain⟩ := encode_loses_nothing.2 .standard _ _ hforeign
  obtain ⟨blob', hblob'⟩ := hencodes.2 (by decide)
  exact ⟨hnames, hcharacters, hfits, ⟨blob, hblob, hdecode .standard hfits⟩, s.toBytes,
    by rw [RawText.toBytes?, hs]; rfl, hforeign, blob', hblob', hagain blob' hblob'⟩

/-- A text that spells the first surrogate. -/
def surrogateText : Text :=
  "\x7b\"dictionary_id\":1,\"record\":\x7b\"type\":\"\\ud800\"\x7d\x7d".toList

/-- What it says. -/
def surrogateRecord : StoredRecord := ⟨1, [("type", .str [.ofUnit 0xD800])], .null, .null, .null⟩

/-- A record is read from it that cannot be written. -/
theorem encode_surrogateRecord :
    decode (.compressed surrogateText.toBytes) = .ok surrogateRecord ∧
      surrogateRecord.encode = none := by
  have hread : Json.readWithin .standard surrogateText.raw = .ok surrogateRecord.toJson :=
    (Json.readWithin_eq_ok_iff Json.isPlain_tight (by decide)).2 (by decide +kernel)
  refine ⟨?_, rfl⟩
  simp only [decode, decodeWithin, Blob.content?, bind, Except.bind, Text.ofBytes?_toBytes, hread,
    Except.mapError]
  exact ofJson_toJson .standard surrogateRecord

end Lexicon.StoredRecord
