import Lexicon.Proofs.Settings.Document

/-! What saving the settings promises. Settings that a file keeps come back, and a save that fails leaves
the files alone, unless it comes upon a surrogate: that shows only when the file has been emptied. Not all
settings that can be read are of the kind that a file keeps: a doubled percent sign is read as a single
one, which is not doubled again when it is written. -/
namespace Lexicon.Settings

open Setting (groupResults)

section Failures

variable {s : Settings} {files : Files} {path full : Text} {values : Setting → RawText}

/-- What is wrong with a setting before the file is opened. -/
def faultsOf (s : Settings) (k : Setting) : List SettingsSaveError :=
  match savedText k (s k) with
  | .ok _ => []
  | .error e => [e]

/-- The texts of the settings are looked at in the order of the file. -/
theorem reports_toSections (s : Settings) :
    Reports (fun _ => True) (Setting.all.flatMap s.faultsOf) s.toSections := by
  have htext (k : Setting) : Reports (fun _ => True) (s.faultsOf k) (savedText k (s k)) := by
    unfold faultsOf
    cases savedText k (s k) with
    | ok value => exact .ok trivial
    | error e => exact .error e []
  have hentries (part : Text × List Setting) := Reports.mapM fun k (_ : k ∈ part.2) =>
    (htext k).map (q := fun _ => True) (g := fun value => (k.key, value)) fun _ _ => trivial
  have hsections := Reports.mapM fun part (_ : part ∈ Setting.sections) =>
    (hentries part).map (q := fun _ => True) (g := fun entries => (part.1, entries)) fun _ _ => trivial
  rw [Setting.all, List.flatMap_assoc]
  exact hsections.mono fun _ _ => trivial

theorem savedText_ne_write (k : Setting) (v : Json) (e : WriteError) :
    savedText k v ≠ .error (.write e) := by
  intro h
  simp only [savedText] at h
  split_ifs at h <;> cases h

theorem ne_write_of_mem_faultsOf {e : SettingsSaveError} {k : Setting} (h : e ∈ s.faultsOf k)
    (e' : WriteError) : e ≠ .write e' := by
  rintro rfl
  unfold faultsOf at h
  split at h
  · cases h
  · next hsaved => exact savedText_ne_write _ _ e' (List.mem_singleton.1 h ▸ hsaved)

/-- The pieces all have bytes just when there is no surrogate in the values. -/
theorem all_piecesOf_iff :
    (piecesOf values).all Option.isSome = true ↔ ∀ k, (values k).text?.isSome = true := by
  have hpart (part : Text × List Setting) :
      (sectionPieces (part.1, part.2.map fun k => (k.key, values k))).all Option.isSome = true ↔
        ∀ k ∈ part.2, (values k).text?.isSome = true := by
    simp [sectionPieces]
  rw [piecesOf, sectionsOf, List.flatMap_map, List.all_flatMap, List.all_eq_true]
  refine ⟨fun h k => ?_, fun h part _ => (hpart part).2 fun k _ => h k⟩
  obtain ⟨part, hmem, hk⟩ := List.mem_flatMap.1 (Setting.mem_all k)
  exact (hpart part).1 (h part hmem) k hk

/-- How a save can go: a setting is found at fault, or the file cannot be opened, or the pieces are
written up to the first surrogate. -/
theorem save_cases (s : Settings) (files : Files) (path : Text) :
    (∃ e, (∃ k, e ∈ s.faultsOf k) ∧ s.save files path = (.error e, files)) ∨
    (∃ e, s.save files path = (.error (.write (.path e)), files)) ∨
    ∃ values written, (∀ k, savedText k (s k) = .ok (values k)) ∧
      files.write path (Files.leading (piecesOf values)) = .ok written ∧
      s.save files path = (if (piecesOf values).all Option.isSome then .ok ()
        else .error (.write .noBytes), written) := by
  cases hsections : s.toSections with
  | error e =>
    have hfault := List.mem_of_mem_head? ((reports_toSections s).eq_error_iff.1 hsections)
    obtain ⟨k, -, hk⟩ := List.mem_flatMap.1 hfault
    exact .inl ⟨e, ⟨k, hk⟩, by rw [save, hsections]⟩
  | ok sections =>
    choose values hvalues using exists_savedText_of_toSections hsections
    have hsave := save_eq hvalues files path
    cases hwrite : files.write path (Files.leading (piecesOf values)) with
    | error e =>
      refine .inr (.inl ⟨e, ?_⟩)
      rw [hsave, Files.writePieces, hwrite]
      rfl
    | ok written =>
      refine .inr (.inr ⟨values, written, hvalues, hwrite, ?_⟩)
      rw [hsave, Files.writePieces, hwrite]
      dsimp only
      split <;> rfl

/-- A save that is not stopped by a surrogate writes everything or nothing. -/
theorem snd_save_of_error {e : SettingsSaveError} (h : (s.save files path).1 = .error e)
    (hbytes : e ≠ .write .noBytes) : (s.save files path).2 = files := by
  obtain ⟨e', -, hsave⟩ | ⟨e', hsave⟩ | ⟨values, written, -, -, hsave⟩ := save_cases s files path
  · rw [hsave]
  · rw [hsave]
  · rw [hsave] at h
    split at h
    · cases h
    · exact absurd (Except.error.inj h).symm hbytes

/-- A save is stopped by a surrogate just when it has opened the file and there is one in a setting. -/
theorem save_eq_noBytes_iff : (s.save files path).1 = .error (.write .noBytes) ↔
    ∃ values : Setting → RawText, (∃ full, Path.target files.isFile path = .ok full) ∧
      (∀ k, savedText k (s k) = .ok (values k)) ∧ ∃ k, (values k).text? = none := by
  constructor
  · intro h
    obtain ⟨e, ⟨k, hk⟩, hsave⟩ | ⟨e, hsave⟩ | ⟨values, written, hvalues, hwrite, hsave⟩ :=
      save_cases s files path
    · rw [hsave] at h
      exact absurd (Except.error.inj h) (ne_write_of_mem_faultsOf hk _)
    · rw [hsave] at h
      cases h
    · obtain ⟨full, htarget, -⟩ := bind_eq_ok_iff.1 hwrite
      refine ⟨values, ⟨full, htarget⟩, hvalues, ?_⟩
      rw [hsave] at h
      by_contra hnone
      rw [if_pos (all_piecesOf_iff.2 fun k => Option.isSome_iff_ne_none.2 (not_exists.1 hnone k))] at h
      cases h
  · rintro ⟨values, ⟨full, htarget⟩, hvalues, k, hk⟩
    have hsome : ¬ (piecesOf values).all Option.isSome = true := fun hall => by
      have hk' := all_piecesOf_iff.1 hall k
      rw [hk] at hk'
      cases hk'
    obtain ⟨written, hwrite⟩ : ∃ written,
        files.write path (Files.leading (piecesOf values)) = .ok written :=
      ⟨_, bind_eq_ok_iff.2 ⟨full, htarget, rfl⟩⟩
    rw [save_eq hvalues, Files.writePieces, hwrite]
    exact congrArg (Except.mapError _) (if_neg hsome)

/-- What stands in the file after a save that has opened it. -/
theorem read_save (htarget : Path.target files.isFile path = .ok full)
    (hnull : full ≠ Files.nullName) (hvalues : ∀ k, savedText k (s k) = .ok (values k)) :
    (s.save files path).2.read path = .text (Files.leading (piecesOf values)) := by
  obtain ⟨after, hwrite, hread⟩ :=
    Files.exists_write_read htarget hnull (Files.leading (piecesOf values))
  rw [save_eq hvalues, Files.writePieces, hwrite]
  exact hread

end Failures

/-- Settings that a file would keep if surrogates had bytes. -/
structure IsNormal (s : Settings) : Prop where
  text : ∀ k, k ≠ groupResults → ∃ v, s k = .str v ∧ '%' ∉ v.marked ∧ Ini.IsNormal v.marked
  switch : ∃ b, s groupResults = .bool b

/-- Of the settings without percent signs that are like those of a document, just those are saved that have
no surrogates, and these a file keeps. -/
theorem IsNormal.save_eq_ok_iff {s : Settings} {files : Files} {path full : Text} (h : s.IsNormal)
    (htarget : Path.target files.isFile path = .ok full) (hnull : full ≠ Files.nullName) :
    (s.save files path).1 = .ok () ↔ s.IsKept := by
  refine ⟨fun hsave => ⟨fun k hk => ?_, h.switch⟩, fun hkept => ?_⟩
  · obtain ⟨v, hv, hpercent, hnormal⟩ := h.text k hk
    obtain ⟨e, -, hcase⟩ | ⟨e, hcase⟩ | ⟨values, written, hvalues, -, hcase⟩ :=
      save_cases s files path
    · rw [hcase] at hsave
      cases hsave
    · rw [hcase] at hsave
      cases hsave
    · have hall : (piecesOf values).all Option.isSome = true := by
        by_contra hnot
        rw [hcase, if_neg hnot] at hsave
        cases hsave
      obtain ⟨t, ht⟩ := Option.isSome_iff_exists.1 (all_piecesOf_iff.1 hall k)
      have hvalue := hvalues k
      rw [hv, savedText_str hk, if_pos (Ini.isWritable_of_not_mem hpercent), Except.ok.injEq] at hvalue
      obtain rfl : v = t.raw := hvalue.trans (RawText.text?_eq_some_iff.1 ht)
      rw [RawText.marked_raw] at hpercent hnormal
      exact ⟨t, hv, hpercent, hnormal⟩
  · obtain ⟨after, hsave, -⟩ := hkept.exists_save_load htarget hnull
    rw [hsave]

/-- When a save that fails leaves the files as they were. Every fault but one shows before the file is
opened. A surrogate has no bytes, and that shows only when it is to be written: the file is then left with
what comes before it. Settings without percent signs that are like those of a document are saved just when
there is no surrogate in them, and then they come back, whatever settings there are when the file is read. -/
theorem save_keeps_files_unless_surrogate (s : Settings) (files : Files) (path : Text) :
    (∀ e, (s.save files path).1 = .error e → e ≠ .write .noBytes → (s.save files path).2 = files) ∧
    ((s.save files path).1 = .error (.write .noBytes) ↔
      ∃ values : Setting → RawText, (∃ full, Path.target files.isFile path = .ok full) ∧
        (∀ k, savedText k (s k) = .ok (values k)) ∧ ∃ k, (values k).text? = none) ∧
    ∀ full, Path.target files.isFile path = .ok full → full ≠ Files.nullName →
      (∀ values, (∀ k, savedText k (s k) = .ok (values k)) →
        (s.save files path).2.read path = .text (Files.leading (piecesOf values))) ∧
      (s.IsNormal → ((s.save files path).1 = .ok () ↔ s.IsKept)) ∧
      (s.IsKept → ∃ after, s.save files path = (.ok (), after) ∧
        ∀ earlier : Settings, earlier.load after path = ⟨s, [], none⟩) :=
  ⟨fun _ => snd_save_of_error, save_eq_noBytes_iff, fun _ htarget hnull =>
    ⟨fun _ => read_save htarget hnull, fun hnormal => hnormal.save_eq_ok_iff htarget hnull,
      fun hkept => hkept.exists_save_load htarget hnull⟩⟩

/-- Settings with a value of two lines, the second of which looks like an entry. -/
def twoLineSettings : Settings :=
  (default.set .language (.str "de\nat = x ; y")).set groupResults (.bool false)

/-- Settings with a surrogate for one of them. -/
def surrogateSettings (k : Setting) : Settings := default.set k (.str [.ofUnit 0xD800])

/-- A file with some settings. -/
def settingsFiles (lines : List String) : Files :=
  [("config.ini".toList, .bytes (Text.toBytes (Text.join ['\n'] (lines.map String.toList))))]

theorem save_keeps_files_unless_surrogate_twoLineSettings :
    let files := settingsFiles ["[Settings]", "language = fr"]
    let broken := twoLineSettings.set .storePath (.str "100%")
    (broken.save files "config.ini".toList).1 = .error .strayPercent ∧
      (broken.save files "config.ini".toList).2 = files ∧
      ((surrogateSettings .storePath).save files "config.ini".toList).2.read "config.ini".toList
        = .text "[Settings]\nlanguage = ja\n".toList ∧
      ∃ after, twoLineSettings.save files "config.ini".toList = (.ok (), after) ∧
        ∀ earlier : Settings, earlier.load after "config.ini".toList = ⟨twoLineSettings, [], none⟩ := by
  intro files broken
  have hstray : (broken.save files "config.ini".toList).1 = .error .strayPercent := by
    decide +kernel
  have hkept : twoLineSettings.IsKept := by
    refine ⟨fun k hk => ?_, false, rfl⟩
    cases k with
    | language => exact ⟨_, rfl, by decide, by decide⟩
    | storePath => exact ⟨_, rfl, by decide, by decide⟩
    | dictionariesPath => exact ⟨_, rfl, by decide, by decide⟩
    | logLevel => exact ⟨_, rfl, by decide, by decide⟩
    | groupResults => exact absurd rfl hk
  have hvalues (k : Setting) : savedText k (surrogateSettings .storePath k) = .ok
      (if k = .storePath then [.ofUnit 0xD800] else k.defaultText.raw) := by
    cases k <;> decide +kernel
  obtain ⟨hcut, -, -⟩ := (save_keeps_files_unless_surrogate (surrogateSettings .storePath) files
    "config.ini".toList).2.2 _ rfl (by decide)
  obtain ⟨-, -, hcomeBack⟩ := (save_keeps_files_unless_surrogate twoLineSettings files
    "config.ini".toList).2.2 _ rfl (by decide)
  exact ⟨hstray, (save_keeps_files_unless_surrogate broken files _).1 _ hstray nofun,
    hcut _ hvalues, hcomeBack hkept⟩

/-- A save that fails at a surrogate has lost what was in the file. -/
theorem exists_save_fails_and_changes :
    let files := settingsFiles ["[Settings]", "language = fr"]
    let s := surrogateSettings .language
    s.IsNormal ∧ (s.save files "config.ini".toList).1 = .error (.write .noBytes) ∧
      (s.save files "config.ini".toList).2.read "config.ini".toList
        ≠ files.read "config.ini".toList := by
  refine ⟨⟨fun k hk => ?_, _, rfl⟩, by decide +kernel, by decide +kernel⟩
  cases k with
  | language => exact ⟨_, rfl, by decide, by decide⟩
  | storePath => exact ⟨_, rfl, by decide, by decide⟩
  | dictionariesPath => exact ⟨_, rfl, by decide, by decide⟩
  | logLevel => exact ⟨_, rfl, by decide, by decide⟩
  | groupResults => exact absurd rfl hk

/-- What becomes of settings that were read when they are saved in place of the file they were read from.
They can be saved just when their percent signs all belong to references or are doubled, and they come back
just when there are no percent signs in them and a document can hold them; so they do when no value that
they are read from has a percent sign in it. -/
theorem loaded_settings_come_back_iff (earlier : Settings) (files : Files) (path full : Text)
    (htarget : Path.target files.isFile path = .ok full) (hnull : full ≠ Files.nullName)
    (hload : (earlier.load files path).error? = none) :
    let s := (earlier.load files path).settings
    ((s.save files path).1 = .ok () ↔ ∀ k, Ini.isWritable (s.written k) = true) ∧
    (s.ComesBack files path ↔ s.IsKept) ∧
    ∀ doc notices, document path (files.read path) = .ok (doc, notices) →
      doc.Holds ('%' ∉ ·) → s.ComesBack files path := by
  intro s
  have hread : s.IsRead := isRead_load hload
  refine ⟨hread.save_eq_ok_iff htarget hnull, hread.comesBack_iff htarget hnull, ?_⟩
  intro doc notices hdoc hpercent
  have hnormal := holds_document hdoc
  obtain ⟨doc', notices', value, hdoc', hvalue, hsettings⟩ := exists_of_load hload
  rw [hdoc] at hdoc'
  cases hdoc'
  have hplain : ∀ k, '%' ∉ value k ∧ Ini.IsNormal (value k) := by
    intro k
    obtain ⟨text, htext, -⟩ := Ini.expanded_eq_ok_iff.1 (hvalue k)
    have hself := Ini.expanded_eq_ok_of_not_mem htext (hpercent.of_get? htext)
    rw [hvalue k] at hself
    cases hself
    exact ⟨hpercent.of_get? htext, hnormal.of_get? htext⟩
  refine (hread.comesBack_iff htarget hnull).2 ⟨fun k hk => ⟨value k, ?_, hplain k⟩, hread.switch⟩
  exact (congrFun hsettings k).trans (if_neg hk)

/-- The texts of the settings in a file with a value of two lines and a comment with a percent sign. -/
def twoLineTexts : Setting → Text
  | .language => "de\nat = x".toList
  | .groupResults => "Off".toList
  | k => k.defaultText

theorem loaded_settings_come_back_iff_twoLineTexts :
    let files := settingsFiles ["; 100%", "[Settings]", "language: de", "\tat = x", "", "[Lookup]",
      "Group_Results = Off"]
    let s := (default.load files "config.ini".toList).settings
    s.text .language = "de\nat = x".toList ∧ s.text groupResults = "False".toList ∧
      s.ComesBack files "config.ini".toList := by
  intro files s
  have hdoc : document "config.ini".toList (files.read "config.ini".toList)
      = .ok (iniOf twoLineTexts, []) := by decide +kernel
  have hpercent : ∀ k, '%' ∉ twoLineTexts k := by
    have htexts : ∀ k ∈ Setting.all, '%' ∉ twoLineTexts k := by decide
    exact fun k => htexts k (Setting.mem_all k)
  have hload := load_eq hdoc
    (fun k => Ini.expanded_eq_ok_of_not_mem (get?_iniOf twoLineTexts k) (hpercent k)) default
  have hsettings : s = fun k => valueOf k (twoLineTexts k) := congrArg Loaded.settings hload
  refine ⟨?_, ?_, (loaded_settings_come_back_iff default files _ _ rfl (by decide)
    (congrArg Loaded.error? hload)).2.2 _ _ hdoc (holds_iniOf hpercent)⟩
  · rw [hsettings]
    rfl
  · rw [hsettings]
    decide +kernel

/-- A percent sign that is doubled in the file is a single one in the settings, and those cannot be
saved. -/
theorem exists_load_save_fails :
    (default.load (settingsFiles ["[Settings]", "language = 50%%"]) "config.ini".toList).error? = none ∧
      ((default.load (settingsFiles ["[Settings]", "language = 50%%"]) "config.ini".toList).settings.save
        (settingsFiles ["[Settings]", "language = 50%%"]) "config.ini".toList).1
          = .error .strayPercent := by
  decide +kernel

end Lexicon.Settings
