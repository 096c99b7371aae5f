import Lexicon.Proofs.Command.Session

/-! What becomes of a registry's file that is malformed. It counts as one without dictionaries, so a
command about some dictionary fails before anything is written; but a new order needs no dictionary, and
writing it puts an empty registry in the place of the file. -/
namespace Lexicon

namespace Files

variable {files : Files} {path : Text}

/-- A path under which something is read leads to a file, and writing under it changes that file. -/
theorem exists_target_of_read (hmissing : files.read path ≠ .missing)
    (hbad : files.read path ≠ .badPath) : ∃ full content,
      Path.target files.isFile path = .ok full ∧ files.get full = some content ∧
        files.read path = .ofContent content := by
  have hfind : ∃ content, files.find path = .ok (.file content) ∧
      files.read path = .ofContent content := by
    unfold read at hmissing hbad ⊢
    split at hmissing
    · next content hfind => exact ⟨content, hfind, rfl⟩
    · next hfind =>
      rw [hfind] at hbad
      exact absurd rfl hbad
    · exact absurd rfl hmissing
  obtain ⟨content, hfind, hread⟩ := hfind
  obtain ⟨place, hplace, hfind⟩ := bind_eq_ok_iff.1 hfind
  cases place with
  | directory => cases hfind
  | name full =>
    simp only at hfind
    split at hfind
    · next content' hget =>
      split at hfind
      · cases hfind
      · next hslash =>
        cases hfind
        exact ⟨full, content, Path.target_eq_ok_iff.2 ⟨Bool.eq_false_iff.2 hslash, hplace⟩, hget,
          hread⟩
    · cases hfind

end Files

namespace Registry

variable {files : Files} {path : Text}

/-- What stands under a path is no configuration document: its text breaks the form, or does so before the
bytes that are no text. -/
def IsMalformed (files : Files) (path : Text) : Prop :=
  (∃ s, files.read path = .text s ∧ Ini.read? s = none) ∨
    ∃ readable, files.read path = .undecodable readable ∧ Ini.breaksOff readable = true

/-- A malformed file counts as one without dictionaries. -/
theorem load_of_isMalformed (h : IsMalformed files path) :
    Registry.load files path = .ok ⟨empty, [.fileMalformed path]⟩ := by
  unfold load loadWithin
  rcases h with ⟨s, hread, hs⟩ | ⟨readable, hread, hbreaks⟩
  · simp only [hread, ofTextWithin, hs]
  · simp only [hread, hbreaks, if_true]

/-- A file without any text is not malformed. -/
theorem IsMalformed.read_ne_nil (h : IsMalformed files path) : files.read path ≠ .text [] := by
  rcases h with ⟨s, hread, hs⟩ | ⟨readable, hread, -⟩
  · rw [hread]
    rintro ⟨⟩
    exact absurd hs (by decide)
  · rw [hread]
    nofun

theorem IsMalformed.exists_target (h : IsMalformed files path) :
    ∃ full, Path.target files.isFile path = .ok full ∧ full ≠ Files.nullName := by
  have hread : files.read path ≠ .missing ∧ files.read path ≠ .badPath := by
    rcases h with ⟨s, hread, -⟩ | ⟨readable, hread, -⟩ <;> rw [hread] <;> exact ⟨nofun, nofun⟩
  obtain ⟨full, content, htarget, hget, hcontent⟩ := Files.exists_target_of_read hread.1 hread.2
  refine ⟨full, htarget, ?_⟩
  rintro rfl
  -- the file that is always empty
  obtain rfl : .bytes [] = content := Option.some.inj hget
  exact h.read_ne_nil hcontent

theorem reorder_empty (order : List ℤ) : empty.reorder order = empty := by
  have hfrom (position : ℕ) : empty.reorderFrom position order = empty := by
    induction order generalizing position with
    | nil => rfl
    | cons id rest ih => exact ih (position + 1)
  exact hfrom 0

theorem toText_empty : empty.toText = [] := by
  have hsorted : empty.sorted = [] := List.mergeSort_nil
  rw [toText, toIni, hsorted]
  rfl

end Registry

namespace Command

variable {settingsPath path : Text} {files : Files} {command : RegistryCommand} {args : List Text}
  {level : Text}

/-- A new order finds nothing to order in a malformed file, and is written. -/
theorem exists_run_of_reorder
    (hsettings : (Settings.default.load files settingsPath).error? = none)
    (hpath : (Settings.default.load files settingsPath).settings.text .dictionariesPath = path)
    (hmalformed : Registry.IsMalformed files path) {order : List ℤ}
    (hargs : Request.ofArguments? args = some (.run level (.editDictionaries (.reorder order)))) :
    ∃ log full, Path.target files.isFile path = .ok full ∧
      Files.read (files.set full (.bytes [])) path = .text [] ∧
      run files settingsPath args =
        .ok ⟨0, printedRegistry .empty, log, files.set full (.bytes [])⟩ := by
  obtain ⟨full, htarget, hnull⟩ := hmalformed.exists_target
  have hwrite : files.write path [] = .ok (files.set full (.bytes [])) := by
    rw [Files.write_eq htarget hnull, Text.toBytes_nil]
  have hread : Files.read (files.set full (.bytes [])) path = .text [] := by
    obtain ⟨saved, hsaved, hread⟩ := Files.exists_write_read htarget hnull []
    cases hsaved.symm.trans hwrite
    exact hread
  have hafter : (RegistryEdit.reorder order).apply .empty = .empty := Registry.reorder_empty order
  have hsave : ((RegistryEdit.reorder order).apply .empty).save files path =
      .ok (files.set full (.bytes [])) := by
    rw [hafter, Registry.save, Registry.toText_empty, hwrite]
  obtain ⟨log, hrun⟩ := exists_run_of_save hsettings hpath
    (Registry.load_of_isMalformed hmalformed) hargs rfl hsave
  exact ⟨log, full, htarget, hread, hafter ▸ hrun⟩

/-- A malformed registry file after a command. A list is printed without dictionaries, a command about a
dictionary fails, and both leave all files as they are. A new order, whatever it lists, replaces the file
by an empty one. -/
theorem malformed_registry_after_command
    (hsettings : (Settings.default.load files settingsPath).error? = none)
    (hpath : (Settings.default.load files settingsPath).settings.text .dictionariesPath = path)
    (hmalformed : Registry.IsMalformed files path)
    (hargs : Request.ofArguments? args = some (.run level command.task)) :
    ∃ result, run files settingsPath args = .ok result ∧ result.exit = command.exitCode .empty ∧
      (result.files.read path = files.read path ↔ ∀ order, command ≠ some (.reorder order)) ∧
      ((∀ order, command ≠ some (.reorder order)) → result.files = files) ∧
      ∀ order, command = some (.reorder order) → ∃ full,
        Path.target files.isFile path = .ok full ∧ result.files = files.set full (.bytes []) ∧
          result.files.read path = .text [] := by
  have hload := Registry.load_of_isMalformed hmalformed
  cases command with
  | none =>
    obtain ⟨log, hrun⟩ := exists_run_of_list hsettings hpath hload hargs
    exact ⟨_, hrun, rfl, by simp, fun _ => rfl, nofun⟩
  | some edit =>
    cases edit with
    | toggle id enabled =>
      have hmissing : (RegistryEdit.toggle id enabled).missingId? .empty = some id := rfl
      obtain ⟨log, hrun⟩ := exists_run_of_missingId? hsettings hpath hload hargs hmissing
      exact ⟨_, hrun, rfl, by simp, fun _ => rfl, nofun⟩
    | delete id =>
      have hmissing : (RegistryEdit.delete id).missingId? .empty = some id := rfl
      obtain ⟨log, hrun⟩ := exists_run_of_missingId? hsettings hpath hload hargs hmissing
      exact ⟨_, hrun, rfl, by simp, fun _ => rfl, nofun⟩
    | reorder order =>
      obtain ⟨log, full, htarget, hread, hrun⟩ :=
        exists_run_of_reorder hsettings hpath hmalformed hargs
      have hchanged : files.read path ≠ .text [] := hmalformed.read_ne_nil
      refine ⟨_, hrun, rfl, ?_, fun h => absurd rfl (h order), ?_⟩
      · simp [hread, hchanged.symm]
      · rintro _ -
        exact ⟨full, htarget, rfl, hread⟩

section Broken

/-- A directory whose registry file holds a line before any section, and no settings. -/
def brokenFiles : Files := [("dictionaries.ini".toList, .bytes (Text.toBytes "oops".toList))]

theorem isMalformed_brokenFiles : Registry.IsMalformed brokenFiles "dictionaries.ini".toList := by
  have hfind : brokenFiles.find "dictionaries.ini".toList =
      .ok (.file (.bytes (Text.toBytes "oops".toList))) := rfl
  refine .inl ⟨"oops".toList, ?_, by decide +kernel⟩
  simp only [Files.read, hfind, FileText.ofContent, FileText.ofBytes, Text.ofBytes?_toBytes]

theorem settings_brokenFiles :
    (Settings.default.load brokenFiles "config.ini".toList).error? = none ∧
      (Settings.default.load brokenFiles "config.ini".toList).settings.text .dictionariesPath =
        "dictionaries.ini".toList := by
  decide +kernel

theorem malformed_registry_after_command_brokenFiles :
    ∃ result, run brokenFiles "config.ini".toList
        ["dictionaries".toList, "toggle".toList, "1".toList, "on".toList] = .ok result ∧
      result.exit = 1 ∧ result.files = brokenFiles := by
  obtain ⟨hsettings, hpath⟩ := settings_brokenFiles
  have hargs : Request.ofArguments? ["dictionaries".toList, "toggle".toList, "1".toList,
      "on".toList] = some (.run [] (RegistryCommand.task (some (.toggle 1 true)))) := rfl
  obtain ⟨result, hrun, hexit, -, hfiles, -⟩ :=
    malformed_registry_after_command hsettings hpath isMalformed_brokenFiles hargs
  exact ⟨result, hrun, hexit, hfiles (by simp)⟩

/-- The new order is no fault, but what the file held is gone. -/
theorem reorder_brokenFiles :
    Registry.IsMalformed brokenFiles "dictionaries.ini".toList ∧
      ∃ result, run brokenFiles "config.ini".toList
          ["dictionaries".toList, "reorder".toList, "1".toList] = .ok result ∧
        result.exit = 0 ∧
        result.files.read "dictionaries.ini".toList = .text [] ∧
        brokenFiles.read "dictionaries.ini".toList ≠ .text [] := by
  obtain ⟨hsettings, hpath⟩ := settings_brokenFiles
  have hargs : Request.ofArguments? ["dictionaries".toList, "reorder".toList, "1".toList] =
      some (.run [] (.editDictionaries (.reorder [1]))) := rfl
  obtain ⟨log, full, -, hread, hrun⟩ :=
    exists_run_of_reorder hsettings hpath isMalformed_brokenFiles hargs
  exact ⟨isMalformed_brokenFiles, _, hrun, rfl, hread, isMalformed_brokenFiles.read_ne_nil⟩

end Broken

end Command
end Lexicon
