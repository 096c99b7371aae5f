import Lexicon.Command.Run
import Lexicon.Proofs.Registry.Edit

/-! Commands on dictionaries, run as processes that each load the registry, change it and save it. What
they print, the exit codes they end with and the registry they leave are those of one registry that is
kept in memory. -/
namespace Lexicon.Command

/-- A command on dictionaries: a change, or none, which lists them. -/
abbrev RegistryCommand := Option RegistryEdit

namespace RegistryCommand

def task : RegistryCommand → Task
  | none => .listDictionaries
  | some edit => .editDictionaries edit

def Fits (limit : ℕ) (command : RegistryCommand) : Prop := ∀ edit ∈ command, edit.Fits limit

/-- A registry after a command. -/
def apply (r : Registry) : RegistryCommand → Registry
  | none => r
  | some edit => edit.apply r

/-- The exit code of a command: one if it is about a dictionary that is not there. -/
def exitCode (r : Registry) : RegistryCommand → ℕ
  | none => 0
  | some edit => if (edit.missingId? r).isSome then 1 else 0

/-- Commands on one registry: after each its exit code and the registry. -/
def inMemory (r : Registry) : List RegistryCommand → List (ℕ × Registry)
  | [] => []
  | command :: rest => (command.exitCode r, command.apply r) :: inMemory (command.apply r) rest

end RegistryCommand

/-- Processes, one after the other, each on the files that the one before has left. -/
def inProcesses (settingsPath : Text) (files : Files) :
    List (List Text) → Except Fault (List Result)
  | [] => .ok []
  | args :: rest => do
    let result ← run files settingsPath args
    return result :: (← inProcesses settingsPath result.files rest)

/-- Settings can be read that lead to a place for the registry's file, other than their own. -/
structure Serves (settingsPath path full : Text) (files : Files) : Prop where
  settings : (Settings.default.load files settingsPath).error? = none
  path_eq : (Settings.default.load files settingsPath).settings.text .dictionariesPath = path
  target : Path.target files.isFile path = .ok full
  ne_null : full ≠ Files.nullName
  elsewhere : Path.place files.isFile settingsPath ≠ .ok (.name full)

section Step

variable {settingsPath path full : Text} {files : Files} {noted : Registry.Noted} {r : Registry}
  {command : RegistryCommand}

/-- Writing the registry's file leaves the settings as they are. -/
theorem Serves.set (h : Serves settingsPath path full files) (content : FileContent) :
    Serves settingsPath path full (files.set full content) := by
  have hload : Settings.default.load (files.set full content) settingsPath =
      Settings.default.load files settingsPath := by
    simp only [Settings.load, Files.read_set_of_ne h.elsewhere]
  refine ⟨hload ▸ h.settings, hload ▸ h.path_eq, Path.target_eq_ok_of_target_eq_ok h.target,
    h.ne_null, fun hplace => h.elsewhere (Path.place_eq_ok_of_place_eq_ok hplace)⟩

/-- The registry's file holds the dictionaries of a registry. -/
def Keeps (path : Text) (files : Files) (r : Registry) : Prop :=
  ∃ noted, Registry.load files path = .ok noted ∧ noted.registry.sorted = r.sorted

/-- A process ends as the command does in memory, and leaves its registry in the file. -/
structure Agrees (path : Text) (r : Registry) (code : ℕ) (result : Result) : Prop where
  exit_eq : result.exit = code
  output_eq : result.output = if code = 0 then printedRegistry r else []
  keeps : Keeps path result.files r

theorem printedRegistry_congr {r r' : Registry} (h : r.sorted = r'.sorted) :
    printedRegistry r = printedRegistry r' := by
  rw [printedRegistry, printedRegistry, h]

section Run

variable {args : List Text} {level : Text} {edit : RegistryEdit}

theorem exists_run_of_execute (hsettings : (Settings.default.load files settingsPath).error? = none)
    {task : Task} (hargs : Request.ofArguments? args = some (.run level task)) {outcome : Outcome}
    (houtcome : task.execute files (Settings.default.load files settingsPath).settings =
      .ok outcome) :
    ∃ log, run files settingsPath args = .ok ⟨outcome.exit, outcome.output, log, outcome.files⟩ := by
  simp only [run, hsettings, hargs, houtcome]
  exact ⟨_, rfl⟩

/-- A process that lists dictionaries writes nothing. -/
theorem exists_run_of_list (hsettings : (Settings.default.load files settingsPath).error? = none)
    (hpath : (Settings.default.load files settingsPath).settings.text .dictionariesPath = path)
    (hload : Registry.load files path = .ok noted)
    (hargs : Request.ofArguments? args = some (.run level .listDictionaries)) :
    ∃ log, run files settingsPath args = .ok ⟨0, printedRegistry noted.registry, log, files⟩ := by
  have houtcome : listDictionaries files (Settings.default.load files settingsPath).settings =
      .ok ⟨0, printedRegistry noted.registry, noted.notices.map .registry, files⟩ := by
    simp only [listDictionaries, loadRegistry, hpath, hload]
    rfl
  exact exists_run_of_execute hsettings hargs houtcome

/-- A process that is about a dictionary that is not there fails and writes nothing. -/
theorem exists_run_of_missingId?
    (hsettings : (Settings.default.load files settingsPath).error? = none)
    (hpath : (Settings.default.load files settingsPath).settings.text .dictionariesPath = path)
    (hload : Registry.load files path = .ok noted)
    (hargs : Request.ofArguments? args = some (.run level (.editDictionaries edit))) {id : ℤ}
    (hmissing : edit.missingId? noted.registry = some id) :
    ∃ log, run files settingsPath args = .ok ⟨1, [], log, files⟩ := by
  obtain ⟨notices, houtcome⟩ : ∃ notices,
      editDictionaries files (Settings.default.load files settingsPath).settings edit =
        .ok ⟨1, [], notices, files⟩ := by
    simp only [editDictionaries, loadRegistry, hpath, hload, Except.mapError, bind, Except.bind,
      hmissing]
    exact ⟨_, rfl⟩
  exact exists_run_of_execute hsettings hargs houtcome

/-- A process that makes a change prints the changed registry and writes it. -/
theorem exists_run_of_save (hsettings : (Settings.default.load files settingsPath).error? = none)
    (hpath : (Settings.default.load files settingsPath).settings.text .dictionariesPath = path)
    (hload : Registry.load files path = .ok noted)
    (hargs : Request.ofArguments? args = some (.run level (.editDictionaries edit)))
    (hmissing : edit.missingId? noted.registry = none) {saved : Files}
    (hsave : (edit.apply noted.registry).save files path = .ok saved) :
    ∃ log, run files settingsPath args =
      .ok ⟨0, printedRegistry (edit.apply noted.registry), log, saved⟩ := by
  obtain ⟨notices, houtcome⟩ : ∃ notices,
      editDictionaries files (Settings.default.load files settingsPath).settings edit =
        .ok ⟨0, printedRegistry (edit.apply noted.registry), notices, saved⟩ := by
    simp only [editDictionaries, loadRegistry, hpath, hload, Except.mapError, bind, Except.bind,
      hmissing, hsave]
    exact ⟨_, rfl⟩
  exact exists_run_of_execute hsettings hargs houtcome

end Run

/-- A process about a dictionary that is not there agrees with the command, which changes nothing. -/
theorem exists_agrees_of_missingId? (h : Serves settingsPath path full files)
    (hkeeps : Keeps path files r) {args : List Text} {level : Text} {edit : RegistryEdit} {id : ℤ}
    (hargs : Request.ofArguments? args = some (.run level (.editDictionaries edit)))
    (hmissing : edit.missingId? r = some id) :
    ∃ result, run files settingsPath args = .ok result ∧ Agrees path r 1 result ∧
      result.files = files := by
  obtain ⟨noted, hload, hsorted⟩ := hkeeps
  have hmissing' : edit.missingId? noted.registry = some id :=
    (RegistryEdit.missingId?_eq_of_perm (Registry.sorted_eq_iff_perm.1 hsorted) edit).trans hmissing
  obtain ⟨log, hrun⟩ := exists_run_of_missingId? h.settings h.path_eq hload hargs hmissing'
  exact ⟨_, hrun, ⟨rfl, rfl, noted, hload, hsorted⟩, rfl⟩

/-- A process that makes a change leaves the changed registry in the file. -/
theorem exists_agrees_of_change (h : Serves settingsPath path full files) (hkeeps : Keeps path files r)
    {args : List Text} {level : Text} {edit : RegistryEdit} (hfits : edit.Fits Text.maxDigits)
    (hargs : Request.ofArguments? args = some (.run level (.editDictionaries edit)))
    (hmissing : edit.missingId? r = none) :
    ∃ result, run files settingsPath args = .ok result ∧ Agrees path (edit.apply r) 0 result ∧
      Serves settingsPath path full result.files := by
  obtain ⟨noted, hload, hsorted⟩ := hkeeps
  have hperm := Registry.sorted_eq_iff_perm.1 hsorted
  have hmissing' : edit.missingId? noted.registry = none :=
    (RegistryEdit.missingId?_eq_of_perm hperm edit).trans hmissing
  have happly : (edit.apply noted.registry).sorted = (edit.apply r).sorted :=
    Registry.sorted_eq_iff_perm.2 (RegistryEdit.perm_apply hperm edit)
  -- what was loaded can be written, and so can what the change makes of it
  have hwritable : noted.registry.Writable Text.maxDigits :=
    Registry.forall_mem_infos_of_loadWithin hload
  obtain ⟨saved, after, hsave, hafter, hafter_sorted⟩ :=
    (RegistryEdit.writable_apply (by decide) hwritable hfits).persists files path full h.target
      h.ne_null
  have hsaved : saved = files.set full (.bytes (edit.apply noted.registry).toText.toBytes) :=
    Except.ok.inj (hsave.symm.trans (Files.write_eq h.target h.ne_null _))
  obtain ⟨log, hrun⟩ := exists_run_of_save h.settings h.path_eq hload hargs hmissing' hsave
  exact ⟨_, hrun, ⟨rfl, printedRegistry_congr happly, after, hafter, hafter_sorted.trans happly⟩,
    hsaved ▸ h.set _⟩

/-- One process does what the command does in memory, and leaves the files so that the next one can. -/
theorem exists_run (h : Serves settingsPath path full files) (hkeeps : Keeps path files r)
    (hfits : command.Fits Text.maxDigits) {args : List Text} {level : Text}
    (hargs : Request.ofArguments? args = some (.run level command.task)) :
    ∃ result, run files settingsPath args = .ok result ∧
      Agrees path (command.apply r) (command.exitCode r) result ∧
      Serves settingsPath path full result.files := by
  cases command with
  | none =>
    obtain ⟨noted, hload, hsorted⟩ := hkeeps
    obtain ⟨log, hrun⟩ := exists_run_of_list h.settings h.path_eq hload hargs
    exact ⟨_, hrun, ⟨rfl, printedRegistry_congr hsorted, noted, hload, hsorted⟩, h⟩
  | some edit =>
    cases hmissing : edit.missingId? r with
    | some id =>
      have hcode : RegistryCommand.exitCode r (some edit) = 1 := by
        rw [RegistryCommand.exitCode, hmissing]
        rfl
      have hsame : RegistryCommand.apply r (some edit) = r := RegistryEdit.apply_of_missingId? hmissing
      obtain ⟨result, hrun, hagrees, hfiles⟩ := exists_agrees_of_missingId? h hkeeps hargs hmissing
      rw [hcode, hsame]
      exact ⟨result, hrun, hagrees, hfiles.symm ▸ h⟩
    | none =>
      have hcode : RegistryCommand.exitCode r (some edit) = 0 := by
        rw [RegistryCommand.exitCode, hmissing]
        rfl
      rw [hcode]
      exact exists_agrees_of_change h hkeeps (hfits edit rfl) hargs hmissing

end Step

section Session

variable {settingsPath path full : Text} {files : Files} {noted : Registry.Noted} {r : Registry}
  {commands : List RegistryCommand} {processes : List (List Text)}

/-- Whether the arguments of processes ask for some commands. -/
def Asks (processes : List (List Text)) (commands : List RegistryCommand) : Prop :=
  List.Forall₂ (fun args command => ∃ level,
    Request.ofArguments? args = some (.run level (RegistryCommand.task command))) processes commands

theorem exists_inProcesses (h : Serves settingsPath path full files) (hkeeps : Keeps path files r)
    (hasks : Asks processes commands) (hfits : ∀ command ∈ commands, command.Fits Text.maxDigits) :
    ∃ results, inProcesses settingsPath files processes = .ok results ∧
      List.Forall₂ (fun result state => Agrees path state.2 state.1 result) results
        (RegistryCommand.inMemory r commands) := by
  induction hasks generalizing files r with
  | nil => exact ⟨[], rfl, .nil⟩
  | cons hargs hasks ih =>
    obtain ⟨hcommand, hfits⟩ := List.forall_mem_cons.1 hfits
    obtain ⟨level, hargs⟩ := hargs
    obtain ⟨result, hrun, hagrees, hserves⟩ := exists_run h hkeeps hcommand hargs
    obtain ⟨results, hresults, hall⟩ := ih hserves hagrees.keeps hfits
    refine ⟨result :: results, ?_, .cons hagrees hall⟩
    exact bind_eq_ok_iff.2 ⟨result, hrun, bind_eq_ok_iff.2 ⟨results, hresults, rfl⟩⟩

/-- However many commands are run as processes, they agree with the same commands on the registry that
was loaded first and then kept in memory, as long as no new order is so long that its positions could
not be read again. A command about a dictionary that is not there fails and leaves the files as they
are. -/
theorem processes_agree_with_memory (h : Serves settingsPath path full files)
    (hload : Registry.load files path = .ok noted) :
    (∀ (processes : List (List Text)) (commands : List RegistryCommand), Asks processes commands →
      (∀ command ∈ commands, command.Fits Text.maxDigits) →
      ∃ results, inProcesses settingsPath files processes = .ok results ∧
        List.Forall₂ (fun result state => Agrees path state.2 state.1 result) results
          (RegistryCommand.inMemory noted.registry commands)) ∧
    ∀ (args : List Text) (level : Text) (id : ℤ) (edit : RegistryEdit), id ∉ noted.registry.ids →
      ((∃ enabled, edit = .toggle id enabled) ∨ edit = .delete id) →
      Request.ofArguments? args = some (.run level (.editDictionaries edit)) →
      ∃ result, run files settingsPath args = .ok result ∧ result.exit = 1 ∧
        result.files = files := by
  have hkeeps : Keeps path files noted.registry := ⟨noted, hload, rfl⟩
  refine ⟨fun processes commands hasks hfits => exists_inProcesses h hkeeps hasks hfits, ?_⟩
  intro args level id edit hid hedit hargs
  have hcontains : noted.registry.contains id = false :=
    Bool.eq_false_iff.2 fun hcontains => hid ((noted.registry.contains_iff id).1 hcontains)
  have hmissing : edit.missingId? noted.registry = some id := by
    rcases hedit with ⟨enabled, rfl⟩ | rfl <;> simp [RegistryEdit.missingId?, hcontains]
  obtain ⟨result, hrun, hagrees, hfiles⟩ := exists_agrees_of_missingId? h hkeeps hargs hmissing
  exact ⟨result, hrun, hagrees.exit_eq, hfiles⟩

end Session

/-- A directory with a registry and no settings. -/
def servedFiles : Files := [("dictionaries.ini".toList, .bytes Registry.sampleText.toBytes)]

def servedNoted : Registry.Noted :=
  Registry.ofTextWithin Text.maxDigits "dictionaries.ini".toList Registry.sampleText

theorem serves_servedFiles : Serves "config.ini".toList "dictionaries.ini".toList
    "dictionaries.ini".toList servedFiles where
  settings := by decide +kernel
  path_eq := by decide +kernel
  target := rfl
  ne_null := by decide
  elsewhere := by decide

theorem load_servedFiles : Registry.load servedFiles "dictionaries.ini".toList = .ok servedNoted := by
  have hfind : servedFiles.find "dictionaries.ini".toList =
      .ok (.file (.bytes Registry.sampleText.toBytes)) := rfl
  simp only [Registry.load, Registry.loadWithin, Files.read, hfind, FileText.ofContent,
    FileText.ofBytes, Text.ofBytes?_toBytes, servedNoted]

/-- Arguments that ask for a new order, for a dictionary that is not there to be deleted, for one to be
switched off, and for the list. -/
def sampleProcesses : List (List Text) :=
  [["dictionaries".toList, "reorder".toList, "2".toList, "1".toList],
    ["dictionaries".toList, "delete".toList, "7".toList],
    ["dictionaries".toList, "toggle".toList, "2".toList, "off".toList],
    ["dictionaries".toList, "list".toList]]

def sampleCommands : List RegistryCommand :=
  [some (.reorder [2, 1]), some (.delete 7), some (.toggle 2 false), none]

theorem asks_sampleCommands : Asks sampleProcesses sampleCommands :=
  .cons ⟨[], rfl⟩ (.cons ⟨[], rfl⟩ (.cons ⟨[], rfl⟩ (.cons ⟨[], rfl⟩ .nil)))

theorem processes_agree_with_memory_servedFiles :
    (∃ results, inProcesses "config.ini".toList servedFiles sampleProcesses = .ok results ∧
      results.map (·.exit) = [0, 1, 0, 0]) ∧
    ∃ result, run servedFiles "config.ini".toList
        ["dictionaries".toList, "delete".toList, "7".toList] = .ok result ∧
      result.exit = 1 ∧ result.files = servedFiles := by
  obtain ⟨hsession, hunknown⟩ := processes_agree_with_memory serves_servedFiles load_servedFiles
  have hlength : 2 ≤ 10 ^ Text.maxDigits :=
    Nat.le_trans (by decide) (Nat.le_self_pow (by decide) 10)
  have hfits : ∀ command ∈ sampleCommands, command.Fits Text.maxDigits := by
    simp [sampleCommands, RegistryCommand.Fits, RegistryEdit.Fits, hlength]
  obtain ⟨results, hresults, hagree⟩ := hsession _ _ asks_sampleCommands hfits
  have hcodes : (RegistryCommand.inMemory servedNoted.registry sampleCommands).map (·.1) =
      [0, 1, 0, 0] := by
    decide +kernel
  have hexits : List.Forall₂ (· = ·) (results.map (·.exit))
      ((RegistryCommand.inMemory servedNoted.registry sampleCommands).map (·.1)) := by
    rw [List.forall₂_map_left_iff, List.forall₂_map_right_iff]
    exact hagree.imp fun _ _ h => h.exit_eq
  rw [List.forall₂_eq_eq_eq, hcodes] at hexits
  exact ⟨⟨results, hresults, hexits⟩, hunknown _ [] 7 (.delete 7) (by decide +kernel) (.inr rfl) rfl⟩

end Lexicon.Command
