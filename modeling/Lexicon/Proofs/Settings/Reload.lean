import Lexicon.Proofs.Settings.Save

/-! What a reading that fails leaves behind. The path is taken over before the file is read, and the settings
one by one, so those before the first value that cannot be followed are those of the file, and the others are
those that there were. -/
namespace Lexicon.Settings

section TakingOver

variable {doc : Ini} {s : Settings} {notices : List SettingsNotice} {ks : List Setting} {k : Setting}

/-- The value of a setting in a document, if it can be followed. -/
def value? (doc : Ini) (k : Setting) : Option Json :=
  (doc.expanded k.part k.key).toOption.map (valueOf k)

/-- The settings before the first one whose value cannot be followed. -/
def takenOver (doc : Ini) (ks : List Setting) : List Setting :=
  ks.takeWhile fun k => (value? doc k).isSome

theorem value?_of_ok {text : Text} (h : doc.expanded k.part k.key = .ok text) :
    value? doc k = some (valueOf k text) := by
  rw [value?, h]
  rfl

theorem value?_of_error {e : Ini.ReferenceError} (h : doc.expanded k.part k.key = .error e) :
    value? doc k = none := by
  rw [value?, h]
  rfl

theorem exists_value?_of_mem (h : k ∈ takenOver doc ks) : ∃ v, value? doc k = some v := by
  have hsome := List.mem_takeWhile_imp (p := fun k => (value? doc k).isSome) h
  exact Option.isSome_iff_exists.1 hsome

/-- Exactly the settings before the first value that cannot be followed are taken over. -/
theorem settings_takeOver (doc : Ini) (s : Settings) (notices : List SettingsNotice)
    (ks : List Setting) (k : Setting) :
    (takeOver doc s notices ks).settings k =
      if k ∈ takenOver doc ks then (value? doc k).getD (s k) else s k := by
  induction ks generalizing s notices with
  | nil => simp [takeOver, takenOver]
  | cons k' ks ih =>
    rw [takeOver]
    split
    · next e herror => simp [takenOver, value?_of_error herror]
    · next text htext =>
      have hvalue := value?_of_ok htext
      rw [ih, takenOver, takenOver, List.takeWhile_cons_of_pos (by rw [hvalue]; rfl)]
      by_cases hk : k = k'
      · subst hk
        simp [hvalue]
      · simp [hk, set_of_ne]

/-- Taking over stops at the first value that cannot be followed. -/
theorem exists_of_takeOver_error {e : SettingsReadError}
    (h : (takeOver doc s notices ks).error? = some e) :
    ∃ k rest error, ks = takenOver doc ks ++ k :: rest ∧ doc.expanded k.part k.key = .error error ∧
      e = .reference error := by
  induction ks generalizing s notices with
  | nil => cases h
  | cons k ks ih =>
    rw [takeOver] at h
    split at h
    · next error herror =>
      cases h
      exact ⟨k, ks, error, by simp [takenOver, value?_of_error herror], herror, rfl⟩
    · next text htext =>
      obtain ⟨k', rest, error, hks, herror, rfl⟩ := ih h
      refine ⟨k', rest, error, ?_, herror, rfl⟩
      rw [takenOver, List.takeWhile_cons_of_pos (by rw [value?_of_ok htext]; rfl), List.cons_append]
      exact congrArg (k :: ·) hks

end TakingOver

section Reading

variable {s : Settings} {files : Files} {path : Text} {doc : Ini} {notices : List SettingsNotice}

theorem settings_load (hdoc : document path (files.read path) = .ok (doc, notices)) (s : Settings)
    (k : Setting) : (s.load files path).settings k =
      if k ∈ takenOver doc Setting.all then (value? doc k).getD (s k) else s k := by
  simp only [load, hdoc, settings_takeOver]

/-- A reading leaves the settings as they are just when those that are taken over have their values
already. -/
theorem settings_load_eq_self_iff : (s.load files path).settings = s ↔
    ∀ doc notices, document path (files.read path) = .ok (doc, notices) →
      ∀ k ∈ takenOver doc Setting.all, value? doc k = some (s k) := by
  constructor
  · intro hsame doc notices hdoc k hk
    have hload := settings_load hdoc s k
    obtain ⟨v, hvalue⟩ := exists_value?_of_mem hk
    rw [hsame, if_pos hk, hvalue, Option.getD_some] at hload
    rw [hvalue, hload]
  · intro hsame
    cases hdoc : document path (files.read path) with
    | error e => simp only [load, hdoc]
    | ok read =>
      funext k
      rw [settings_load hdoc]
      split
      · next hk => rw [hsame _ _ hdoc k hk, Option.getD_some]
      · rfl

end Reading

end Lexicon.Settings

namespace Lexicon.Configuration

open Lexicon.Settings

/-- What a reading that fails leaves behind. It stops at the first value that cannot be followed, and the
settings before it are those of the file, while the others are as they were. So everything is as it was just
when the path is the one there was and the settings before that value were those of the file already. -/
theorem reload_eq_self_iff_of_error (c : Configuration) (files : Files) (path : Text)
    (e : SettingsReadError) (h : (c.reload files path).2.error? = some e) :
    ((c.reload files path).1 = c ↔ path = c.path ∧
      ∀ doc notices, document path (files.read path) = .ok (doc, notices) →
        ∀ k ∈ takenOver doc Setting.all, value? doc k = some (c.settings k)) ∧
    ∀ doc notices, document path (files.read path) = .ok (doc, notices) →
      (∃ k rest error, Setting.all = takenOver doc Setting.all ++ k :: rest ∧
        doc.expanded k.part k.key = .error error ∧ e = .reference error) ∧
      ∀ k, (c.reload files path).1.settings k =
        if k ∈ takenOver doc Setting.all then (value? doc k).getD (c.settings k) else c.settings k := by
  refine ⟨?_, fun doc notices hdoc => ⟨?_, settings_load hdoc c.settings⟩⟩
  · rw [← settings_load_eq_self_iff]
    obtain ⟨path', s⟩ := c
    rw [reload, Configuration.mk.injEq]
  · simp only [reload, load, hdoc] at h
    exact exists_of_takeOver_error h

/-- A file with a reference that leads nowhere. -/
def brokenFiles : Files :=
  settingsFiles ["[Settings]", "language = fr", "store_path = %(nowhere)s"]

/-- The texts of the settings in it. -/
def brokenTexts : Setting → Text
  | .language => "fr".toList
  | .storePath => "%(nowhere)s".toList
  | k => k.defaultText

/-- The language is that of the file, while the path of the store, which cannot be read, is as it was. -/
theorem reload_eq_self_iff_of_error_brokenFiles :
    let c : Configuration := ⟨"config.ini".toList, .default⟩
    (c.reload brokenFiles c.path).2.error? = some (.reference .missing) ∧
      (c.reload brokenFiles c.path).1.settings .language = .str "fr" ∧
      (c.reload brokenFiles c.path).1.settings .storePath = c.settings .storePath ∧
      (c.reload brokenFiles c.path).1 ≠ c := by
  intro c
  have herror : (c.reload brokenFiles c.path).2.error? = some (.reference .missing) := by
    decide +kernel
  have hdoc : document c.path (brokenFiles.read c.path) = .ok (iniOf brokenTexts, []) := by
    decide +kernel
  have htaken : takenOver (iniOf brokenTexts) Setting.all = [.language] := by decide +kernel
  have hvalue : value? (iniOf brokenTexts) .language = some (.str "fr") :=
    value?_of_ok (Ini.expanded_eq_ok_of_not_mem (get?_iniOf brokenTexts .language) (by decide))
  obtain ⟨hsame, hafter⟩ := reload_eq_self_iff_of_error c brokenFiles c.path _ herror
  obtain ⟨-, hsettings⟩ := hafter _ _ hdoc
  rw [htaken] at hsettings
  refine ⟨herror, ?_, ?_, fun heq => ?_⟩
  · rw [hsettings, if_pos (List.mem_singleton_self _), hvalue, Option.getD_some]
  · rw [hsettings, if_neg (by decide)]
  · have hkept := (hsame.1 heq).2 _ _ hdoc .language (by rw [htaken]; exact List.mem_singleton_self _)
    rw [hvalue] at hkept
    exact absurd (Json.str.inj (Option.some.inj hkept)) (by decide)

/-- A reading that fails at its second value leaves the first one changed. -/
theorem exists_reload_fails_and_changes :
    let c : Configuration := ⟨"config.ini".toList, .default⟩
    (c.reload brokenFiles c.path).2.error? = some (.reference .missing) ∧
      (c.reload brokenFiles c.path).1.settings.text .language ≠ c.settings.text .language := by
  decide +kernel

end Lexicon.Configuration
