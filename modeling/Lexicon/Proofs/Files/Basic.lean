import Lexicon.Files.Basic
import Lexicon.Proofs.Basic
import Lexicon.Proofs.Table
import Lexicon.Proofs.Text.Basic

/-! Files read after they are written. A path that leads to a name leads there whatever files there
are: they only decide why another path leads nowhere. So a path that leads elsewhere reads as before. -/
namespace Lexicon

namespace Path

variable {isFile isFile' : Text → Bool} {path full : Text} {place : Place}

theorem walk_eq_ok_of_walk_eq_ok {d : Directory} {parts : List Text}
    (h : walk isFile d parts = .ok place) : walk isFile' d parts = .ok place := by
  induction parts generalizing d with
  | nil => exact h
  | cons component rest ih =>
    unfold walk at h ⊢
    split at h
    · exact ih h
    · split at h
      · next hrest =>
        rw [if_pos hrest]
        exact h
      · cases h
    · cases h

theorem place_eq_ok_of_place_eq_ok (h : Path.place isFile path = .ok place) :
    Path.place isFile' path = .ok place := by
  obtain ⟨d, hd, h⟩ := bind_eq_ok_iff.1 h
  exact bind_eq_ok_iff.2 ⟨d, hd, walk_eq_ok_of_walk_eq_ok h⟩

/-- A path under which a file can be put leads to the file's name. -/
theorem target_eq_ok_iff : target isFile path = .ok full ↔
    hasTrailingSlash path = false ∧ Path.place isFile path = .ok (.name full) := by
  constructor
  · intro h
    obtain ⟨d, hd, h⟩ := bind_eq_ok_iff.1 h
    simp only at h
    split at h
    · obtain ⟨_ | _, -, h⟩ := bind_eq_ok_iff.1 h <;> cases h
    · next hslash =>
      obtain ⟨p, hp, h⟩ := bind_eq_ok_iff.1 h
      cases p with
      | directory d => cases h
      | name name =>
        cases h
        exact ⟨Bool.eq_false_iff.2 hslash, bind_eq_ok_iff.2 ⟨d, hd, hp⟩⟩
  · rintro ⟨hslash, hplace⟩
    obtain ⟨d, hd, hp⟩ := bind_eq_ok_iff.1 hplace
    refine bind_eq_ok_iff.2 ⟨d, hd, ?_⟩
    simp only [hslash]
    exact bind_eq_ok_iff.2 ⟨_, hp, rfl⟩

theorem target_eq_ok_of_target_eq_ok (h : target isFile path = .ok full) :
    target isFile' path = .ok full := by
  rw [target_eq_ok_iff] at h ⊢
  exact ⟨h.1, place_eq_ok_of_place_eq_ok h.2⟩

theorem walk_ne_malformed (d : Directory) (parts : List Text) :
    walk isFile d parts ≠ .error .malformed := by
  induction parts generalizing d with
  | nil => nofun
  | cons component rest ih =>
    have henter : enter d component ≠ .error .malformed := by
      unfold enter
      repeat' split
      all_goals nofun
    unfold walk
    split
    · exact ih _
    · split
      · nofun
      · split <;> nofun
    · next e he => exact fun h => henter (he.trans h)

end Path

namespace Files

variable {files : Files} {path full s : Text}

theorem get_set_self (hnull : full ≠ nullName) (content : FileContent) :
    get (files.set full content) full = some content := by
  rw [get, if_neg hnull, Table.get?_set, if_pos rfl]

theorem get_set_of_ne {name : Text} (hne : name ≠ full) (content : FileContent) :
    get (files.set full content) name = files.get name := by
  rw [get, get, Table.get?_set, if_neg (Ne.symm hne)]

theorem read_of_place_eq_error {e : PathError} (h : Path.place files.isFile path = .error e)
    (he : e ≠ .malformed) : files.read path = .missing := by
  have hfind : files.find path = .error e := by
    rw [find, h]
    rfl
  rw [read, hfind]
  split
  · next heq => cases heq
  · next heq =>
    cases heq
    exact absurd rfl he
  · rfl

/-- A path that leads elsewhere reads as it did before a file was put. -/
theorem read_set_of_ne (hne : Path.place files.isFile path ≠ .ok (.name full))
    (content : FileContent) : read (files.set full content) path = files.read path := by
  cases hstart : Path.start path with
  | error e =>
    have hplace (isFile : Text → Bool) : Path.place isFile path = .error e := by
      rw [Path.place, hstart]
      rfl
    simp only [read, find, hplace]
    rfl
  | ok d =>
    have hplace (isFile : Text → Bool) :
        Path.place isFile path = Path.walk isFile d (Path.components path) := by
      rw [Path.place, hstart]
      rfl
    cases hwalk : Path.walk files.isFile d (Path.components path) with
    | ok place =>
      have hplace' : Path.place (isFile (files.set full content)) path = .ok place :=
        Path.place_eq_ok_of_place_eq_ok ((hplace files.isFile).trans hwalk)
      rw [hplace, hwalk] at hne
      have hfind : find (files.set full content) path = files.find path := by
        rw [find, find, hplace', hplace, hwalk]
        cases place with
        | directory d => rfl
        | name name =>
          have hname : name ≠ full := fun h => hne (h ▸ rfl)
          simp only [bind, Except.bind, get_set_of_ne hname]
      rw [read, read, hfind]
    | error e =>
      have he : e ≠ .malformed := fun h => Path.walk_ne_malformed d _ (h ▸ hwalk)
      rw [read_of_place_eq_error ((hplace _).trans hwalk) he]
      cases hwalk' : Path.walk (isFile (files.set full content)) d (Path.components path) with
      | ok place => exact absurd (Path.walk_eq_ok_of_walk_eq_ok hwalk') (by rw [hwalk]; nofun)
      | error e' =>
        exact read_of_place_eq_error ((hplace _).trans hwalk') fun h =>
          Path.walk_ne_malformed d _ (h ▸ hwalk')

/-- Writing under a path puts the text in place of the file. -/
theorem write_eq (htarget : Path.target files.isFile path = .ok full) (hnull : full ≠ nullName)
    (s : Text) : files.write path s = .ok (files.set full (.bytes s.toBytes)) := by
  rw [write, put, htarget]
  exact congrArg Except.ok (if_neg hnull)

/-- What is written under a path is read under it. -/
theorem exists_write_read (htarget : Path.target files.isFile path = .ok full)
    (hnull : full ≠ nullName) (s : Text) :
    ∃ saved, files.write path s = .ok saved ∧ saved.read path = .text s := by
  refine ⟨files.set full (.bytes s.toBytes), write_eq htarget hnull s, ?_⟩
  obtain ⟨hslash, hplace⟩ := Path.target_eq_ok_iff.1 (Path.target_eq_ok_of_target_eq_ok htarget)
  have hfind : find (files.set full (.bytes s.toBytes)) path = .ok (.file (.bytes s.toBytes)) := by
    rw [find, hplace]
    simp only [bind, Except.bind, get_set_self hnull, hslash]
    rfl
  simp only [read, hfind, FileText.ofContent, FileText.ofBytes, Text.ofBytes?_toBytes]

theorem leading_map_some (pieces : List Text) : leading (pieces.map some) = pieces.flatten := by
  induction pieces with
  | nil => rfl
  | cons piece pieces ih => rw [List.map_cons, leading, ih, List.flatten_cons]

/-- Pieces that all have bytes are written as one text. -/
theorem writePieces_map_some {pieces : List Text} {written : Files}
    (h : files.write path pieces.flatten = .ok written) :
    files.writePieces path (pieces.map some) = (.ok (), written) := by
  simp [writePieces, leading_map_some, h]

end Files

end Lexicon
