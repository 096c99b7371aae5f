import Lexicon.Proofs.Script.Hangul

/-! Typed jamo moved away and back. A jamo that was moved away is drawn into no syllable, so what stands
before it and what stands after it are composed apart. Moving back undoes moving away in every text
without characters where jamo are moved to. -/
namespace Lexicon.Hangul

section Moved

variable {c : Char} {s t : Text}

theorem isCompatibilityJamo_iff :
    isCompatibilityJamo c = true ↔ 0x3131 ≤ c.toNat ∧ c.toNat ≤ 0x318E := by
  rw [isCompatibilityJamo, Bool.and_eq_true, decide_eq_true_iff, decide_eq_true_iff]

theorem isShielded_iff : isShielded c = true ↔ 0xF000 ≤ c.toNat ∧ c.toNat ≤ 0xF05D := by
  rw [isShielded, Bool.and_eq_true, decide_eq_true_iff, decide_eq_true_iff]
  rfl

/-- Where a typed jamo is moved to. -/
def shieldOf (c : Char) : Char := Char.ofNat (c.toNat + shieldOffset)

theorem toNat_shieldOf (hc : isCompatibilityJamo c = true) :
    (shieldOf c).toNat = c.toNat + shieldOffset := by
  obtain ⟨hfirst, hlast⟩ := isCompatibilityJamo_iff.1 hc
  have hvalid : (c.toNat + shieldOffset).isValidChar := by
    unfold shieldOffset
    exact .inr ⟨by omega, by omega⟩
  rw [shieldOf, Char.ofNat, dif_pos hvalid]
  rfl

theorem isShielded_shieldOf (hc : isCompatibilityJamo c = true) :
    isShielded (shieldOf c) = true := by
  obtain ⟨hfirst, hlast⟩ := isCompatibilityJamo_iff.1 hc
  rw [isShielded_iff, toNat_shieldOf hc, shieldOffset]
  omega

/-- What was moved away is neither a typed jamo nor a syllable. -/
theorem isCompatibilityJamo_eq_false_of_isShielded (hc : isShielded c = true) :
    isCompatibilityJamo c = false := by
  obtain ⟨hfirst, -⟩ := isShielded_iff.1 hc
  rw [← Bool.not_eq_true, isCompatibilityJamo_iff]
  omega

theorem isSyllable_eq_false_of_isShielded (hc : isShielded c = true) : isSyllable c = false := by
  obtain ⟨hfirst, -⟩ := isShielded_iff.1 hc
  rw [← Bool.not_eq_true, isSyllable_iff, lastSyllable]
  omega

theorem shield_append (s t : Text) : shield (s ++ t) = shield s ++ shield t := List.map_append

theorem shield_cons (hc : isCompatibilityJamo c = true) (s : Text) :
    shield (c :: s) = shieldOf c :: shield s := by
  rw [shield, List.map_cons, if_pos hc]
  rfl

theorem unshield_append (s t : Text) : unshield (s ++ t) = unshield s ++ unshield t :=
  List.map_append

theorem unshield_cons_shieldOf (hc : isCompatibilityJamo c = true) (s : Text) :
    unshield (shieldOf c :: s) = c :: unshield s := by
  rw [unshield, List.map_cons, if_pos (isShielded_shieldOf hc), toNat_shieldOf hc,
    Nat.add_sub_cancel, Char.ofNat_toNat]
  rfl

/-- No typed jamo are left. -/
theorem forall_mem_shield (s : Text) : ∀ c ∈ shield s, isCompatibilityJamo c = false := by
  refine List.forall_mem_map.2 fun c _ => ?_
  split
  · next hc => exact isCompatibilityJamo_eq_false_of_isShielded (isShielded_shieldOf hc)
  · next hc => simpa using hc

theorem unshield_shield (h : ∀ c ∈ s, isShielded c = false) : unshield (shield s) = s := by
  rw [unshield, shield, List.map_map]
  refine (List.map_congr_left fun c hc => ?_).trans (List.map_id s)
  by_cases hjamo : isCompatibilityJamo c = true
  · have hmoved : unshield (shield [c]) = [c] := by
      rw [shield_cons hjamo, unshield_cons_shieldOf hjamo]
      rfl
    exact List.head_eq_of_cons_eq hmoved
  · simp [hjamo, h c hc]

end Moved

section Apart

variable {c : Char} {s : Text}

theorem disassemble_cons_of_not_isSyllable (hc : isSyllable c = false) (s : Text) :
    disassemble (c :: s) = c :: disassemble s := by
  simp [disassemble, hc]

/-- A character that is no jamo keeps what stands before it apart from what stands after it. -/
theorem assemble_disassemble_append_cons (hs : ∀ d ∈ s, isCompatibilityJamo d = false)
    (hc : isCompatibilityJamo c = false) (t : Text) :
    assemble (disassemble s ++ c :: t) = s ++ c :: assemble t := by
  obtain ⟨hleading, hvowel, htrailing⟩ := not_mem_of_isCompatibilityJamo_eq_false hc
  have hclear : IsClear (c :: t) := by
    refine ⟨hvowel, ?_⟩
    rintro d rest ⟨rfl, rfl⟩ hd
    rw [htrailing] at hd
    cases hd
  rw [assemble_disassemble_append hs hclear, assemble_cons_of_not_isLeading hleading]

end Apart
end Lexicon.Hangul
