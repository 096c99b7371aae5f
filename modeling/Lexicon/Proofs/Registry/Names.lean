import Lexicon.Proofs.Registry.Document

/-! What the names of dictionaries can do to the registry's file. A name is written as the lines of a
value, and whatever its lines look like, headers, entries, comments or nothing at all, they stay inside the
value: ids, switches and priorities come back. Only a carriage return breaks a line of the file without
being one of the value's lines. -/
namespace Lexicon.Registry

variable {r r' : Registry}

/-- Registries that list the same states under the same ids, in whatever order, agree as maps. -/
theorem get?_snapshot_eq_of_sorted
    (h : r'.sorted.map (fun info => (info.id, info.state))
      = r.sorted.map fun info => (info.id, info.state)) (id : ℤ) :
    r'.snapshot.get? id = r.snapshot.get? id := by
  have hperm : r'.snapshot.Perm r.snapshot :=
    ((r'.sorted_perm.map _).symm.trans (List.Perm.of_eq h)).trans (r.sorted_perm.map _)
  have hkeys : (Table.keys r'.snapshot).Nodup := by
    rw [snapshot, Table.keys, List.map_map]
    exact r'.nodup
  exact Table.get?_eq_of_perm hperm hkeys id

/-- Names without carriage returns cannot disturb the registry's file. Under every limit that the numbers
keep to, and they do keep to one, what is saved is loaded with nothing to report but the loading, with
the same states under the same ids, and of the names only that is lost which no file keeps. -/
theorem save_keeps_states (r : Registry) (hnames : ∀ info ∈ r.infos, '\r' ∉ info.name) :
    (∃ limit, ∀ info ∈ r.infos, info.Fits limit) ∧
    ∀ limit, (∀ info ∈ r.infos, info.Fits limit) →
      ∀ (files : Files) (path full : Text), Path.target files.isFile path = .ok full →
        full ≠ Files.nullName → ∃ saved noted, r.save files path = .ok saved ∧
          loadWithin limit saved path = .ok noted ∧
          (∀ id, noted.registry.snapshot.get? id = r.snapshot.get? id) ∧
          noted.registry.sorted = r.sorted.map DictionaryInfo.kept ∧
          noted.notices = [.loaded r.sorted.length path] := by
  refine ⟨exists_forall_fits r.infos, fun limit hfits files path full htarget hnull => ?_⟩
  obtain ⟨saved, noted, hsaved, hload, hsorted, hnotices⟩ :=
    exists_save_load hnames hfits htarget hnull
  refine ⟨saved, noted, hsaved, hload, get?_snapshot_eq_of_sorted ?_, hsorted, hnotices⟩
  rw [hsorted, List.map_map]
  rfl

/-- Dictionaries whose names look like headers, entries, comments and empty lines. -/
def unrulyRegistry : Registry :=
  ofList [⟨1, "[dictionary.2]\nenabled = false\n\n# x\n= y\n".toList, true, some 1⟩,
    ⟨2, "\n[DEFAULT]\n\tpriority: 7".toList, false, none⟩]

theorem save_keeps_states_unrulyRegistry :
    ∃ saved noted, unrulyRegistry.save [] "d.ini".toList = .ok saved ∧
      load saved "d.ini".toList = .ok noted ∧
      (∀ id, noted.registry.snapshot.get? id = unrulyRegistry.snapshot.get? id) ∧
      noted.registry.sorted = unrulyRegistry.sorted.map DictionaryInfo.kept ∧
      noted.notices = [.loaded unrulyRegistry.sorted.length "d.ini".toList] := by
  have hnames : ∀ info ∈ unrulyRegistry.infos, '\r' ∉ info.name := by decide
  have hfits : ∀ info ∈ unrulyRegistry.infos, info.Fits Text.maxDigits := by
    have hdigits : ∀ n ∈ [1, 2], (Text.ofNat n).length ≤ Text.maxDigits := by decide
    refine List.forall_mem_cons.2 ⟨⟨hdigits 1 (by decide), ?_⟩,
      List.forall_mem_singleton.2 ⟨hdigits 2 (by decide), ?_⟩⟩
    · rintro _ ⟨⟩
      exact hdigits 1 (by decide)
    · rintro _ ⟨⟩
  exact (save_keeps_states unrulyRegistry hnames).2 _ hfits [] _ "d.ini".toList rfl (by decide)

/-- A dictionary with a carriage return in its name. -/
def returnRegistry : Registry := ofList [⟨1, "a\rb".toList, true, some 0⟩]

/-- The part of the name behind the carriage return is read as a line of its own. The line is no entry, so
the file counts as malformed. -/
theorem exists_save_load_returnRegistry_loses :
    ∃ saved noted, returnRegistry.save [] "d.ini".toList = .ok saved ∧
      load saved "d.ini".toList = .ok noted ∧
      noted.registry.snapshot.get? 1 = none ∧
      returnRegistry.snapshot.get? 1 = some ⟨true, some 0⟩ := by
  have htarget : Path.target (Files.isFile []) "d.ini".toList = .ok "d.ini".toList := rfl
  obtain ⟨saved, hsaved, hread⟩ :=
    Files.exists_write_read htarget (by decide) returnRegistry.toText
  have hmalformed : Ini.read? returnRegistry.toText = none := by decide +kernel
  refine ⟨saved, ⟨empty, [.fileMalformed "d.ini".toList]⟩, hsaved, ?_, rfl, rfl⟩
  simp only [load, loadWithin, hread, ofTextWithin, hmalformed]

end Lexicon.Registry
