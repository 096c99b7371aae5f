import Lexicon.Proofs.Files.Basic
import Lexicon.Proofs.Ini.Reader
import Lexicon.Proofs.Ini.Reference
import Lexicon.Proofs.Ini.RoundTrip
import Lexicon.Settings.Document

/-! Settings saved and read back. Every value is looked at before the file is opened, so that a save that
fails changes nothing. What is written for a value is the value itself, while reading takes references
and doubled percent signs in it for what they stand for: so the settings that come back are just those
without percent signs whose values a document can hold. -/
namespace Lexicon.Settings

open Setting (groupResults)

section Document

variable {texts : Setting → Text} {p : Text → Prop} {doc : Ini}

/-- The sections of a settings file with some values as the settings. -/
def sectionsOf {α : Type} (values : Setting → α) : Table Text (Table Text α) :=
  Setting.sections.map fun part => (part.1, part.2.map fun k => (k.key, values k))

/-- The document with some texts as the settings. -/
def iniOf (texts : Setting → Text) : Ini := .ofSections (sectionsOf texts)

theorem defaultIni_eq : defaultIni = iniOf Setting.defaultText := rfl

theorem nodup_keys_sectionsOf (texts : Setting → Text) : (sectionsOf texts).keys.Nodup := by
  have hnames : (Setting.sections.map (·.1)).Nodup := by decide
  rwa [sectionsOf, Table.keys, List.map_map]

theorem sections_iniOf (texts : Setting → Text) : (iniOf texts).sections = sectionsOf texts :=
  Table.ofList_eq_self (nodup_keys_sectionsOf texts)

theorem get?_iniOf (texts : Setting → Text) (k : Setting) :
    (iniOf texts).get? k.part k.key = some (texts k) := by
  cases k <;> rfl

theorem holds_iniOf (h : ∀ k, p (texts k)) : (iniOf texts).Holds p where
  defaults := List.forall_mem_nil _
  sections := by
    rw [sections_iniOf]
    exact List.forall_mem_map.2 fun part _ => List.forall_mem_map.2 fun k _ => h k

theorem isPlain_iniOf (h : ∀ k, '\r' ∉ texts k) : (iniOf texts).IsPlain where
  defaults := rfl
  nodup := by
    rw [sections_iniOf]
    exact nodup_keys_sectionsOf texts
  sections := by
    have hkeys : ∀ k ∈ Setting.all, Ini.IsEntryName k.key := by decide +kernel
    have hnodup : ∀ part ∈ Setting.sections, (part.2.map Setting.key).Nodup := by decide
    have hparts : ∀ part ∈ Setting.sections,
        part.1 ≠ [] ∧ ('\n' ∉ part.1 ∧ '\r' ∉ part.1) ∧ part.1 ≠ Ini.defaultSection := by decide
    rw [sections_iniOf]
    refine List.forall_mem_map.2 fun part hpart => ?_
    obtain ⟨hne, hbreak, hdefault⟩ := hparts part hpart
    refine ⟨⟨hne, hbreak, hdefault⟩, ?_, ?_⟩
    · have hpart := hnodup part hpart
      rwa [Table.keys, List.map_map]
    · exact List.forall_mem_map.2 fun k _ => ⟨hkeys k (Setting.mem_all k), h k⟩

/-- A document of settings laid over another one takes its place, with the values as they are kept. -/
theorem laid_iniOf (texts texts' : Setting → Text) :
    (iniOf texts).laid (Ini.keptSections (iniOf texts').sections)
      = iniOf fun k => Ini.keptValue (texts' k) := by
  rw [sections_iniOf]
  rfl

theorem overlay?_toText_iniOf (h : ∀ k, '\r' ∉ texts k) :
    Ini.overlay? defaultIni (iniOf texts).toText = some (iniOf fun k => Ini.keptValue (texts k)) := by
  rw [Ini.overlay?_toText (isPlain_iniOf h), defaultIni_eq, laid_iniOf]

end Document

section Reading

variable {doc : Ini} {s : Settings} {files : Files} {path : Text} {value : Setting → Text}
  {ks : List Setting} {notices : List SettingsNotice}

/-- Settings whose values can all be followed are all taken over. -/
theorem takeOver_eq (h : ∀ k ∈ ks, doc.expanded k.part k.key = .ok (value k)) (s : Settings)
    (notices : List SettingsNotice) :
    takeOver doc s notices ks = ⟨fun k => if k ∈ ks then valueOf k (value k) else s k,
      notices ++ ks.flatMap fun k => noticesFor k (value k), none⟩ := by
  induction ks generalizing s notices with
  | nil => simp [takeOver]
  | cons k ks ih =>
    obtain ⟨hk, hks⟩ := List.forall_mem_cons.1 h
    rw [takeOver, hk]
    simp only [ih hks, List.append_assoc, List.flatMap_cons, Loaded.mk.injEq, and_true]
    funext other
    by_cases hmem : other ∈ ks
    · simp [hmem]
    · by_cases hother : other = k
      · subst hother
        simp [hmem]
      · simp [hmem, hother, set_of_ne]

theorem exists_of_takeOver (h : (takeOver doc s notices ks).error? = none) :
    ∀ k ∈ ks, ∃ text, doc.expanded k.part k.key = .ok text := by
  induction ks generalizing s notices with
  | nil => exact List.forall_mem_nil _
  | cons k ks ih =>
    rw [takeOver] at h
    split at h
    · cases h
    · next text htext => exact List.forall_mem_cons.2 ⟨⟨text, htext⟩, ih h⟩

theorem load_eq (hdoc : document path (files.read path) = .ok (doc, notices))
    (h : ∀ k, doc.expanded k.part k.key = .ok (value k)) (s : Settings) :
    s.load files path = ⟨fun k => valueOf k (value k),
      notices ++ Setting.all.flatMap fun k => noticesFor k (value k), none⟩ := by
  have htake := takeOver_eq (fun k (_ : k ∈ Setting.all) => h k) s notices
  simp only [load, hdoc, htake, Setting.mem_all, if_true]

/-- Settings that are read without an error are the values of a document, followed. -/
theorem exists_of_load (h : (s.load files path).error? = none) :
    ∃ (doc : Ini) (notices : List SettingsNotice) (value : Setting → Text),
      document path (files.read path) = .ok (doc, notices) ∧
      (∀ k, doc.expanded k.part k.key = .ok (value k)) ∧
      (s.load files path).settings = fun k => valueOf k (value k) := by
  cases hdoc : document path (files.read path) with
  | error e =>
    simp only [load, hdoc] at h
    cases h
  | ok read =>
    obtain ⟨doc, notices⟩ := read
    have hall : ∀ k : Setting, ∃ text, doc.expanded k.part k.key = .ok text := by
      simp only [load, hdoc] at h
      exact fun k => exists_of_takeOver h k (Setting.mem_all k)
    choose value hvalue using hall
    exact ⟨doc, notices, value, rfl, hvalue, by rw [load_eq hdoc hvalue]⟩

theorem holds_document (h : document path (files.read path) = .ok (doc, notices)) :
    doc.Holds Ini.IsNormal := by
  have hdefault : defaultIni.Holds Ini.IsNormal := by
    have htexts : ∀ k ∈ Setting.all, Ini.IsNormal k.defaultText := by decide
    exact defaultIni_eq ▸ holds_iniOf fun k => htexts k (Setting.mem_all k)
  unfold document at h
  split at h
  · cases h
    exact hdefault
  · cases h
  · split at h
    · cases h
      exact hdefault
    · cases h
  · split at h
    · next hread =>
      cases h
      exact Ini.holds_of_overlay? hdefault hread
    · cases h
      exact hdefault

end Reading

section Writing

variable {s : Settings} {files : Files} {path full : Text} {values : Setting → RawText}
  {texts : Setting → Text} {sections : List (Text × List (Text × RawText))} {k : Setting}

theorem savedText_str (hk : k ≠ groupResults) (v : RawText) : savedText k (.str v)
    = if Ini.isWritable v.marked then .ok v else .error .strayPercent := by
  simp [savedText, hk, Json.isNull, Json.display, pure, Except.pure, throw, throwThe,
    MonadExceptOf.throw]

theorem savedText_bool (b : Bool) :
    savedText groupResults (.bool b) = .ok (Text.raw (Ini.switchText b)) := by
  cases b <;> decide +kernel

/-- The pieces in which some values of the settings are written. -/
def piecesOf (values : Setting → RawText) : List (Option Text) :=
  (sectionsOf values).flatMap sectionPieces

/-- Settings that all have texts are written as those texts. -/
theorem toSections_eq_ok (h : ∀ k, savedText k (s k) = .ok (values k)) :
    s.toSections = .ok (sectionsOf values) := by
  refine mapM_eq_ok_iff.2 ?_
  rw [sectionsOf, List.forall₂_map_right_iff]
  refine List.forall₂_same.2 fun part _ => bind_eq_ok_iff.2 ⟨_, mapM_eq_ok_iff.2 ?_, rfl⟩
  rw [List.forall₂_map_right_iff]
  exact List.forall₂_same.2 fun k _ => bind_eq_ok_iff.2 ⟨values k, h k, rfl⟩

theorem save_eq (h : ∀ k, savedText k (s k) = .ok (values k)) (files : Files) (path : Text) :
    s.save files path = ((files.writePieces path (piecesOf values)).1.mapError .write,
      (files.writePieces path (piecesOf values)).2) := by
  rw [save, toSections_eq_ok h]
  rfl

theorem exists_savedText_of_toSections (h : s.toSections = .ok sections) (k : Setting) :
    ∃ value, savedText k (s k) = .ok value := by
  obtain ⟨part, hpart, hk⟩ := List.mem_flatMap.1 (Setting.mem_all k)
  obtain ⟨_, h⟩ := exists_mapM_eq_ok_iff.1 ⟨_, h⟩ part hpart
  obtain ⟨entries, hentries, -⟩ := bind_eq_ok_iff.1 h
  obtain ⟨_, h⟩ := exists_mapM_eq_ok_iff.1 ⟨_, hentries⟩ k hk
  obtain ⟨value, hvalue, -⟩ := bind_eq_ok_iff.1 h
  exact ⟨value, hvalue⟩

theorem sectionPieces_raw (name : Text) (entries : Table Text Text) :
    sectionPieces (name, entries.map fun entry => (entry.1, entry.2.raw))
      = (Ini.headerText name :: entries.map Ini.entryText ++ [['\n']]).map some := by
  simp [sectionPieces, Function.comp_def]

/-- Values without surrogates are written as the document with them. -/
theorem piecesOf_raw (texts : Setting → Text) : ∃ pieces : List Text,
    piecesOf (fun k => (texts k).raw) = pieces.map some ∧ pieces.flatten = (iniOf texts).toText := by
  refine ⟨(sectionsOf texts).flatMap fun part =>
    Ini.headerText part.1 :: part.2.map Ini.entryText ++ [['\n']], ?_, ?_⟩
  · have hpart (part : Text × Table Text Text) := sectionPieces_raw part.1 part.2
    have hsections : sectionsOf (fun k => (texts k).raw) = (sectionsOf texts).map fun part =>
        (part.1, part.2.map fun entry => (entry.1, entry.2.raw)) := by
      simp [sectionsOf]
    rw [piecesOf, hsections, List.flatMap_map, List.map_flatMap]
    exact List.flatMap_congr fun part _ => hpart part
  · have hpart (part : Text × Table Text Text) : (Ini.headerText part.1
        :: part.2.map Ini.entryText ++ [['\n']]).flatten = Ini.sectionText part := by
      simp [Ini.sectionText, List.flatMap_def]
    rw [Ini.toText, sections_iniOf, List.flatMap_def, List.flatten_flatten, List.map_map]
    exact congrArg List.flatten (List.map_congr_left fun part _ => hpart part)

/-- Wherever a file can be put, settings are written into it, in place of what was there. -/
theorem exists_save (htarget : Path.target files.isFile path = .ok full)
    (hnull : full ≠ Files.nullName) (htexts : ∀ k, savedText k (s k) = .ok (texts k).raw) :
    ∃ after, s.save files path = (.ok (), after) ∧ after.read path = .text (iniOf texts).toText := by
  obtain ⟨after, hwrite, hread⟩ := Files.exists_write_read htarget hnull (iniOf texts).toText
  obtain ⟨pieces, hpieces, hflatten⟩ := piecesOf_raw texts
  refine ⟨after, ?_, hread⟩
  rw [← hflatten] at hwrite
  rw [save_eq htexts, hpieces, Files.writePieces_map_some hwrite]
  rfl

end Writing

section RoundTrip

variable {s earlier : Settings} {files after : Files} {path full t : Text}

/-- Settings as they are after a reading: texts without carriage returns, and a truth value. -/
structure IsRead (s : Settings) : Prop where
  text : ∀ k, k ≠ groupResults → ∃ t : Text, s k = .str t.raw ∧ '\r' ∉ t
  switch : ∃ b, s groupResults = .bool b

/-- Settings that a file keeps: texts without percent signs that a document can hold, and a truth
value. -/
structure IsKept (s : Settings) : Prop where
  text : ∀ k, k ≠ groupResults → ∃ t : Text, s k = .str t.raw ∧ '%' ∉ t ∧ Ini.IsNormal t
  switch : ∃ b, s groupResults = .bool b

/-- The settings are saved, and what is then read are the settings. -/
def ComesBack (s : Settings) (files : Files) (path : Text) : Prop :=
  ∃ after, s.save files path = (.ok (), after) ∧ (s.load after path).error? = none ∧
    (s.load after path).settings = s

/-- The text that is put into the file for a setting. -/
def written (s : Settings) (k : Setting) : Text :=
  if k = groupResults then Text.lowercase (s.text k) else s.text k

theorem written_of_ne {k : Setting} (hk : k ≠ groupResults) (h : s k = .str t.raw) :
    s.written k = t := by
  rw [written, if_neg hk, text, h, Json.display, RawText.marked_raw]

theorem written_groupResults {b : Bool} (h : s groupResults = .bool b) :
    s.written groupResults = Ini.switchText b := by
  rw [written, if_pos rfl, text, h]
  cases b <;> decide +kernel

/-- Where a file can be put, the text of settings is read over the defaults as the texts that are kept. -/
theorem exists_save_document (htarget : Path.target files.isFile path = .ok full)
    (hnull : full ≠ Files.nullName) (htexts : ∀ k, savedText k (s k) = .ok (s.written k).raw)
    (hreturn : ∀ k, '\r' ∉ s.written k) :
    ∃ after, s.save files path = (.ok (), after) ∧ document path (after.read path)
      = .ok (iniOf fun k => Ini.keptValue (s.written k), []) := by
  obtain ⟨after, hsave, hread⟩ := exists_save htarget hnull htexts
  refine ⟨after, hsave, ?_⟩
  simp only [document, hread, overlay?_toText_iniOf hreturn]

/-- What is written for settings that a file keeps can be read again as what they are. -/
theorem IsKept.written_spec (h : s.IsKept) (k : Setting) :
    '%' ∉ s.written k ∧ Ini.IsNormal (s.written k) ∧ savedText k (s k) = .ok (s.written k).raw ∧
      valueOf k (s.written k) = s k ∧ noticesFor k (s.written k) = [] := by
  by_cases hk : k = groupResults
  · subst hk
    obtain ⟨b, hb⟩ := h.switch
    rw [written_groupResults hb, hb, savedText_bool]
    refine ⟨Ini.not_mem_switchText b, Ini.isNormal_switchText b, rfl, ?_, ?_⟩
    · simp [valueOf]
    · simp [noticesFor]
  · obtain ⟨t, ht, hpercent, hnormal⟩ := h.text k hk
    rw [written_of_ne hk ht, ht, savedText_str hk, RawText.marked_raw,
      if_pos (Ini.isWritable_of_not_mem hpercent)]
    exact ⟨hpercent, hnormal, rfl, if_neg hk, if_neg fun hnotice => hk hnotice.1⟩

/-- Settings that a file keeps come back, whatever settings there are when the file is read. -/
theorem IsKept.exists_save_load (h : s.IsKept) (htarget : Path.target files.isFile path = .ok full)
    (hnull : full ≠ Files.nullName) : ∃ after, s.save files path = (.ok (), after) ∧
      ∀ earlier : Settings, earlier.load after path = ⟨s, [], none⟩ := by
  have hspec := h.written_spec
  obtain ⟨after, hsave, hdoc⟩ := exists_save_document htarget hnull (fun k => (hspec k).2.2.1)
    fun k => (hspec k).2.1.noReturn
  have hexpanded : ∀ k : Setting, (iniOf fun k => Ini.keptValue (s.written k)).expanded k.part k.key
      = .ok (s.written k) := by
    intro k
    have hget := get?_iniOf (fun k => Ini.keptValue (s.written k)) k
    rw [Ini.keptValue_eq_self (hspec k).2.1] at hget
    exact Ini.expanded_eq_ok_of_not_mem hget (hspec k).1
  have hsettings : (fun k => valueOf k (s.written k)) = s := funext fun k => (hspec k).2.2.2.1
  have hnotices : (Setting.all.flatMap fun k => noticesFor k (s.written k)) = [] :=
    List.flatMap_eq_nil_iff.2 fun k _ => (hspec k).2.2.2.2
  refine ⟨after, hsave, fun earlier => ?_⟩
  rw [load_eq hdoc hexpanded, hsettings, hnotices, List.append_nil]

theorem isRead_load (h : (s.load files path).error? = none) :
    (s.load files path).settings.IsRead := by
  obtain ⟨doc, notices, value, hdoc, hvalue, hsettings⟩ := exists_of_load h
  have hreturn : doc.Holds fun value => ∀ c ∈ value, c ≠ '\r' :=
    (holds_document hdoc).imp fun value hnormal c hc hreturn => hnormal.noReturn (hreturn ▸ hc)
  rw [hsettings]
  refine ⟨fun k hk => ⟨value k, if_neg hk, fun hmem => ?_⟩, ⟨_, if_pos rfl⟩⟩
  exact hreturn.forall_mem_of_expanded (hvalue k) _ hmem rfl

/-- What is written for settings that were read, unless there is a stray percent sign in it. -/
theorem IsRead.savedText_eq (h : s.IsRead) (k : Setting) : savedText k (s k)
    = if Ini.isWritable (s.written k) then .ok (s.written k).raw else .error .strayPercent := by
  by_cases hk : k = groupResults
  · subst hk
    obtain ⟨b, hb⟩ := h.switch
    rw [written_groupResults hb, hb, savedText_bool,
      if_pos (Ini.isWritable_of_not_mem (Ini.not_mem_switchText b))]
  · obtain ⟨t, ht, -⟩ := h.text k hk
    rw [written_of_ne hk ht, ht, savedText_str hk, RawText.marked_raw]

theorem IsRead.savedText_eq_ok (h : s.IsRead) (hwritable : ∀ k, Ini.isWritable (s.written k) = true)
    (k : Setting) : savedText k (s k) = .ok (s.written k).raw := by
  rw [h.savedText_eq, if_pos (hwritable k)]

theorem IsRead.not_mem_written (h : s.IsRead) (k : Setting) : '\r' ∉ s.written k := by
  by_cases hk : k = groupResults
  · subst hk
    obtain ⟨b, hb⟩ := h.switch
    rw [written_groupResults hb]
    exact (Ini.isNormal_switchText b).noReturn
  · obtain ⟨t, ht, hreturn⟩ := h.text k hk
    rwa [written_of_ne hk ht]

/-- Where a file can be put, settings that were read are saved just when every text of theirs may be
written. -/
theorem IsRead.save_eq_ok_iff (h : s.IsRead) (htarget : Path.target files.isFile path = .ok full)
    (hnull : full ≠ Files.nullName) :
    (s.save files path).1 = .ok () ↔ ∀ k, Ini.isWritable (s.written k) = true := by
  constructor
  · intro hsave k
    cases hsections : s.toSections with
    | error e =>
      simp only [save, hsections] at hsave
      cases hsave
    | ok sections =>
      obtain ⟨text, htext⟩ := exists_savedText_of_toSections hsections k
      rw [h.savedText_eq] at htext
      by_contra hstray
      rw [if_neg hstray] at htext
      cases htext
  · intro hwritable
    obtain ⟨after, hsave, -⟩ :=
      exists_save htarget hnull (h.savedText_eq_ok hwritable)
    rw [hsave]

/-- When every value of a document of kept texts is the text itself, followed, there are no percent signs
in the texts: none was lost in keeping them, and following a value that has some loses at least one. -/
theorem not_mem_of_expanded {texts : Setting → Text} {k : Setting} (hk : k ≠ groupResults)
    (hswitch : '%' ∉ texts groupResults)
    (h : ∀ k : Setting, k ≠ groupResults →
      (iniOf fun k => Ini.keptValue (texts k)).expanded k.part k.key = .ok (texts k)) :
    '%' ∉ Ini.keptValue (texts k) := by
  have hparts : ∀ k ∈ Setting.all, k ≠ groupResults → k.part = "Settings".toList := by decide
  have hpart (k : Setting) (hk : k ≠ groupResults) : k.part = "Settings".toList :=
    hparts k (Setting.mem_all k) hk
  have hexpand (k : Setting) (hk : k ≠ groupResults) :
      Ini.expand ((iniOf fun k => Ini.keptValue (texts k)).get? "Settings".toList) Ini.maxLevels
        (Ini.keptValue (texts k)) = .ok (texts k) := by
    obtain ⟨value, hvalue, hexpand⟩ := Ini.expanded_eq_ok_iff.1 (h k hk)
    rw [get?_iniOf] at hvalue
    cases hvalue
    rwa [hpart k hk] at hexpand
  have hcount (k : Setting) : (Ini.keptValue (texts k)).count '%' ≤ (texts k).count '%' :=
    Ini.count_keptValue_le (by decide) (texts k)
  refine Ini.not_mem_of_expand ?_ (Nat.le_refl _) (hexpand k hk) (hcount k)
  intro name value hvalue hpercent
  have hvalues : (iniOf fun k => Ini.keptValue (texts k)).Holds
      fun value => ∃ k, Ini.keptValue (texts k) = value := holds_iniOf fun k => ⟨k, rfl⟩
  obtain ⟨other, rfl⟩ := hvalues.of_get? hvalue
  have hother : other ≠ groupResults := by
    rintro rfl
    have hnone := hcount groupResults
    rw [List.count_eq_zero.2 hswitch] at hnone
    exact List.count_eq_zero.1 (Nat.le_zero.1 hnone) hpercent
  exact ⟨_, hexpand other hother, hcount other⟩

/-- Of settings that were read just those come back that a file keeps. -/
theorem IsRead.comesBack_iff (h : s.IsRead) (htarget : Path.target files.isFile path = .ok full)
    (hnull : full ≠ Files.nullName) : s.ComesBack files path ↔ s.IsKept := by
  refine ⟨?_, fun hkept => ?_⟩
  · rintro ⟨after, hsave, hnone, hsame⟩
    obtain ⟨b, hb⟩ := h.switch
    have hwritable := (h.save_eq_ok_iff htarget hnull).1 (congrArg Prod.fst hsave)
    obtain ⟨after', hsave', hdoc⟩ := exists_save_document htarget hnull
      (h.savedText_eq_ok hwritable) h.not_mem_written
    obtain rfl : after = after' := (Prod.mk.inj (hsave.symm.trans hsave')).2
    obtain ⟨doc, notices, value, hdoc', hvalue, hsettings⟩ := exists_of_load hnone
    rw [hdoc] at hdoc'
    cases hdoc'
    -- what is read of a text is the text that was written
    have hback : ∀ k : Setting, k ≠ groupResults →
        (iniOf fun k => Ini.keptValue (s.written k)).expanded k.part k.key = .ok (s.written k) := by
      intro k hk
      have hvalueOf : valueOf k (value k) = s k := congrFun (hsettings.symm.trans hsame) k
      have htext : s k = .str (value k).raw := hvalueOf.symm.trans (if_neg hk)
      rw [written_of_ne hk htext, hvalue k]
    have hswitch : '%' ∉ s.written groupResults := by
      rw [written_groupResults hb]
      exact Ini.not_mem_switchText b
    refine ⟨fun k hk => ?_, b, hb⟩
    obtain ⟨t, ht, hreturn⟩ := h.text k hk
    have hpercent := not_mem_of_expanded hk hswitch hback
    have hkept := Ini.expanded_eq_ok_of_not_mem
      (get?_iniOf (fun k => Ini.keptValue (s.written k)) k) hpercent
    have hself : Ini.keptValue (s.written k) = s.written k :=
      Except.ok.inj (hkept.symm.trans (hback k hk))
    rw [hself] at hpercent
    rw [written_of_ne hk ht] at hself hpercent
    exact ⟨t, ht, hpercent, (Ini.keptValue_eq_self_iff hreturn).1 hself⟩
  · obtain ⟨after, hsave, hload⟩ := hkept.exists_save_load htarget hnull
    exact ⟨after, hsave, by rw [hload], by rw [hload]⟩

end RoundTrip

end Lexicon.Settings
