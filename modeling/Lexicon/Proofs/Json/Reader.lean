import Lexicon.Proofs.Basic
import Lexicon.Proofs.Json.Basic
import Lexicon.Proofs.Text.Digits

/-! What the reader returns: values without repeated names that keep to the limits of the reader. -/
namespace Lexicon.Json

section

variable {limit : ℕ} {v : Json}

theorem mapValue_eq_ok_iff {α β : Type} {f : α → β} {step : Step α} {b : β} {rest : RawText} :
    step.mapValue f = .ok (b, rest) ↔ ∃ a, step = .ok (a, rest) ∧ f a = b := by
  cases step with
  | error e => simp [Step.mapValue, Except.map]
  | ok read => simp [Step.mapValue, Except.map, Prod.ext_iff, and_comm]

/-- A value that the reader may return where so many arrays and objects can still be opened. -/
structure IsReadable (limit depth : ℕ) (v : Json) : Prop where
  depth_le : v.depth ≤ depth
  isShort : v.everywhere (isShort limit) = true
  hasDistinctNames : v.HasDistinctNames

theorem isReadable_array {depth : ℕ} {items : List Json}
    (h : ∀ v ∈ items, IsReadable limit depth v) : IsReadable limit (depth + 1) (.array items) where
  depth_le := depth_array_le_iff.2 ⟨by omega, fun v hv => (h v hv).depth_le⟩
  isShort := everywhere_array_iff.2 ⟨rfl, fun v hv => (h v hv).isShort⟩
  hasDistinctNames := everywhere_array_iff.2 ⟨rfl, fun v hv => (h v hv).hasDistinctNames⟩

theorem isReadable_object {depth : ℕ} {fields : Fields} (hnames : fields.keys.Nodup)
    (h : ∀ field ∈ fields, IsReadable limit depth field.2) :
    IsReadable limit (depth + 1) (.object fields) where
  depth_le := depth_object_le_iff.2 ⟨by omega, fun field hfield => (h field hfield).depth_le⟩
  isShort := everywhere_object_iff.2 ⟨rfl, fun field hfield => (h field hfield).isShort⟩
  hasDistinctNames := everywhere_object_iff.2
    ⟨decide_eq_true hnames, fun field hfield => (h field hfield).hasDistinctNames⟩

/-- What is inside an object is nested less deep. -/
theorem exists_isReadable_of_object {depth : ℕ} {fields : Fields}
    (h : IsReadable limit depth (.object fields)) :
    ∃ d, depth = d + 1 ∧ ∀ field ∈ fields, IsReadable limit d field.2 := by
  obtain ⟨hpos, hdepth⟩ := depth_object_le_iff.1 h.depth_le
  refine ⟨depth - 1, by omega, fun field hfield => ⟨hdepth field hfield, ?_, ?_⟩⟩
  · exact (everywhere_object_iff.1 h.isShort).2 field hfield
  · exact (everywhere_object_iff.1 h.hasDistinctNames).2 field hfield

theorem isReadable_null (limit depth : ℕ) : IsReadable limit depth .null :=
  ⟨Nat.zero_le _, rfl, rfl⟩

theorem isReadable_int {n : ℤ} (h : (Text.ofNat n.natAbs).length ≤ limit) (depth : ℕ) :
    IsReadable limit depth (.int n) :=
  ⟨Nat.zero_le _, decide_eq_true h, rfl⟩

theorem isDigit_of_wholePart? {s rest digits : Text} (h : wholePart? s = some (digits, rest)) :
    0 < digits.length ∧ ∀ c ∈ digits, c.isDigit = true := by
  unfold wholePart? at h
  split at h
  · cases h
  · cases h
    exact ⟨by decide, List.forall_mem_singleton.2 (by decide)⟩
  · split at h
    · next hc =>
      cases h
      refine ⟨by simp, List.forall_mem_cons.2 ⟨hc, fun d hd => List.mem_takeWhile_imp hd⟩⟩
    · cases h

/-- Digits within the limit make an integer within the limit. -/
theorem isReadable_of_integer {negative : Bool} {digits : Text} (hpos : 0 < digits.length)
    (hdigits : ∀ c ∈ digits, c.isDigit = true) (h : integer limit negative digits = .ok v)
    (depth : ℕ) : IsReadable limit depth v := by
  unfold integer at h
  split at h
  · next hlength =>
    cases h
    have hlt : digitsValue digits < 10 ^ digits.length := Text.ofDigitChars_lt hdigits
    have hshort := ((Text.length_ofNat_le_iff hpos).2 hlt).trans hlength
    have habs : (if negative = true then -(digitsValue digits : ℤ) else digitsValue digits).natAbs
        = digitsValue digits := by
      split <;> simp
    refine isReadable_int ?_ depth
    rw [habs]
    exact hshort
  · cases h

theorem isReadable_of_number {negative : Bool} {s rest : Text}
    (h : number limit negative s = .ok (v, rest)) (depth : ℕ) : IsReadable limit depth v := by
  unfold number at h
  split at h
  · cases h
  · next whole after hwhole =>
    obtain ⟨hpos, hdigits⟩ := isDigit_of_wholePart? hwhole
    split at h
    split at h
    split at h
    · cases hinteger : integer limit negative whole with
      | error e =>
        rw [hinteger] at h
        cases h
      | ok w =>
        rw [hinteger] at h
        cases h
        exact isReadable_of_integer hpos hdigits hinteger depth
    · dsimp only at h
      split at h <;> cases h <;> exact ⟨Nat.zero_le _, rfl, rfl⟩

theorem isReadable_of_magnitude {negative : Bool} {s rest : RawText}
    (h : magnitude limit negative s = .ok (v, rest)) (depth : ℕ) : IsReadable limit depth v := by
  unfold magnitude at h
  split at h
  · cases h
    exact ⟨Nat.zero_le _, rfl, rfl⟩
  · obtain ⟨⟨w, after⟩, hnumber, heq⟩ := map_eq_ok_iff.1 h
    cases heq
    exact isReadable_of_number hnumber depth

end

section

variable {limit fuel : ℕ}

theorem isReadable_of_readValue
    (hitems : ∀ depth s items rest, readItems limit fuel depth s = .ok (items, rest) →
      ∀ v ∈ items, IsReadable limit depth v)
    (hmembers : ∀ depth s members rest, readMembers limit fuel depth s = .ok (members, rest) →
      ∀ member ∈ members, IsReadable limit depth member.2)
    {depth : ℕ} {s rest : RawText} {v : Json}
    (h : readValue limit (fuel + 1) depth s = .ok (v, rest)) : IsReadable limit depth v := by
  unfold readValue at h
  split at h
  · obtain ⟨s, -, rfl⟩ := mapValue_eq_ok_iff.1 h
    exact ⟨Nat.zero_le _, rfl, rfl⟩
  · split at h
    · cases h
    · split at h
      · cases h
        exact isReadable_array (by simp)
      · obtain ⟨items, hread, rfl⟩ := mapValue_eq_ok_iff.1 h
        exact isReadable_array (hitems _ _ _ _ hread)
  · split at h
    · cases h
    · split at h
      · cases h
        exact isReadable_object List.nodup_nil (by simp)
      · obtain ⟨members, hread, rfl⟩ := mapValue_eq_ok_iff.1 h
        exact isReadable_object (Table.nodup_keys_ofList members) fun field hfield =>
          hmembers _ _ _ _ hread field (Table.mem_of_mem_ofList hfield)
  · cases h
    exact ⟨Nat.zero_le _, rfl, rfl⟩
  · cases h
    exact ⟨Nat.zero_le _, rfl, rfl⟩
  · cases h
    exact ⟨Nat.zero_le _, rfl, rfl⟩
  · exact isReadable_of_magnitude h depth
  · exact isReadable_of_magnitude h depth

theorem isReadable_of_readItems {depth : ℕ} {s rest : RawText} {items : List Json}
    (hvalue : ∀ s v rest, readValue limit fuel depth s = .ok (v, rest) → IsReadable limit depth v)
    (hitems : ∀ s items rest, readItems limit fuel depth s = .ok (items, rest) →
      ∀ v ∈ items, IsReadable limit depth v)
    (h : readItems limit (fuel + 1) depth s = .ok (items, rest)) :
    ∀ v ∈ items, IsReadable limit depth v := by
  unfold readItems at h
  split at h
  · cases h
  · next v after hread =>
    have hv := hvalue _ _ _ hread
    split at h
    · cases h
      exact List.forall_mem_singleton.2 hv
    · obtain ⟨items, hrest, rfl⟩ := mapValue_eq_ok_iff.1 h
      exact List.forall_mem_cons.2 ⟨hv, hitems _ _ _ hrest⟩
    · cases h

theorem isReadable_of_readMembers {depth : ℕ} {s rest : RawText} {members : List (RawText × Json)}
    (hvalue : ∀ s v rest, readValue limit fuel depth s = .ok (v, rest) → IsReadable limit depth v)
    (hmembers : ∀ s members rest, readMembers limit fuel depth s = .ok (members, rest) →
      ∀ member ∈ members, IsReadable limit depth member.2)
    (h : readMembers limit (fuel + 1) depth s = .ok (members, rest)) :
    ∀ member ∈ members, IsReadable limit depth member.2 := by
  unfold readMembers at h
  split at h
  · split at h
    · cases h
    · split at h
      · split at h
        · cases h
        · next v after hread =>
          have hv := hvalue _ _ _ hread
          split at h
          · cases h
            exact List.forall_mem_singleton.2 hv
          · obtain ⟨members, hrest, rfl⟩ := mapValue_eq_ok_iff.1 h
            exact List.forall_mem_cons.2 ⟨hv, hmembers _ _ _ hrest⟩
          · cases h
      · cases h
  · cases h

/-- Whatever the depth of calls, only such values are read. -/
theorem isReadable_of_read (limit fuel : ℕ) :
    (∀ depth s v rest, readValue limit fuel depth s = .ok (v, rest) → IsReadable limit depth v) ∧
    (∀ depth s items rest, readItems limit fuel depth s = .ok (items, rest) →
      ∀ v ∈ items, IsReadable limit depth v) ∧
    (∀ depth s members rest, readMembers limit fuel depth s = .ok (members, rest) →
      ∀ member ∈ members, IsReadable limit depth member.2) := by
  induction fuel with
  | zero =>
    refine ⟨fun _ _ _ _ h => ?_, fun _ _ _ _ h => ?_, fun _ _ _ _ h => ?_⟩ <;> cases h
  | succ fuel ih =>
    obtain ⟨hvalue, hitems, hmembers⟩ := ih
    exact ⟨fun _ _ _ _ h => isReadable_of_readValue hitems hmembers h,
      fun depth _ _ _ h => isReadable_of_readItems (hvalue depth) (hitems depth) h,
      fun depth _ _ _ h => isReadable_of_readMembers (hvalue depth) (hmembers depth) h⟩

/-- A value that is read has no name twice in an object, and it fits the limits. -/
theorem isReadable_of_readWithin {limits : Limits} {s : RawText} {v : Json}
    (h : readWithin limits s = .ok v) : IsReadable limits.digits limits.depth v := by
  unfold readWithin at h
  split at h
  · cases h
  · next w rest hread =>
    split at h
    · cases h
      exact (isReadable_of_read _ _).1 _ _ _ _ hread
    · cases h

end

end Lexicon.Json
