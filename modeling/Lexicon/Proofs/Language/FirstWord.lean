import Lexicon.Proofs.Language.Shipped
import Lexicon.Proofs.Script.Shield

/-! The first of the words that a text may be an inflected form of. It is the text itself, except that in
Korean characters of the private use area are taken for typed jamo that were moved there. -/
namespace Lexicon

/-- The first word found is the text. -/
theorem RuleSet.exists_eq_cons_of_deinflections {rs : RuleSet Text} {s : Text} {words : List Text}
    (h : rs.deinflections s = .ok words) : ∃ rest, words = s :: rest := by
  obtain ⟨ds, hds, rfl⟩ := deinflections_eq_ok_iff.1 h
  rw [(derivations_eq_ok_iff.1 hds).1]
  exact ⟨_, rfl⟩

namespace Hangul

/-- What is moved back is what was moved away and what stood there before. -/
theorem unshield_shield_eq_unshield (s : Text) : unshield (shield s) = unshield s := by
  rw [unshield, shield, List.map_map, unshield]
  refine List.map_congr_left fun c _ => ?_
  by_cases hjamo : isCompatibilityJamo c = true
  · have hplain : isShielded c = false := by
      rw [← Bool.not_eq_true]
      intro hshielded
      rw [isCompatibilityJamo_eq_false_of_isShielded hshielded] at hjamo
      cases hjamo
    have hback : unshield (shield [c]) = [c] := by
      rw [shield_cons hjamo, unshield_cons_shieldOf hjamo]
      rfl
    rw [hplain]
    exact List.head_eq_of_cons_eq hback
  · rw [Function.comp_apply, if_neg hjamo]

/-- A text stays as it is when nothing in it stands where jamo are moved to. -/
theorem unshield_eq_self_iff {s : Text} : unshield s = s ↔ ∀ c ∈ s, isShielded c = false := by
  constructor
  · intro h c hc
    rw [← Bool.not_eq_true]
    intro hshielded
    have hsame := List.map_inj_left.1 (h.trans (List.map_id s).symm) c hc
    rw [if_pos hshielded, id] at hsame
    obtain ⟨hfirst, hlast⟩ := isShielded_iff.1 hshielded
    have hvalid : (c.toNat - shieldOffset).isValidChar := .inl (by unfold shieldOffset; omega)
    have hmoved : (Char.ofNat (c.toNat - shieldOffset)).toNat = c.toNat - shieldOffset := by
      rw [Char.ofNat, dif_pos hvalid]
      rfl
    rw [hsame, shieldOffset] at hmoved
    omega
  · intro h
    rw [unshield]
    refine (List.map_congr_left fun c hc => ?_).trans (List.map_id s)
    rw [h c hc]
    rfl

end Hangul

namespace Language

open Hangul

theorem head?_deinflect (l : Language) (s : Text) :
    (l.deinflect s).head? = some (if l = .korean then unshield s else s) := by
  have hwords := deinflections_eq_ok l s
  rw [deinflections] at hwords
  split at hwords
  · next hkorean =>
    obtain ⟨terms, hterms, hwords⟩ := map_eq_ok_iff.1 hwords
    obtain ⟨rest, rfl⟩ := RuleSet.exists_eq_cons_of_deinflections hterms
    rw [← hwords, reassembled, List.map_cons, distinct, List.head?_cons, if_pos hkorean,
      assemble_disassemble (forall_mem_shield s), unshield_shield_eq_unshield]
  · next hother =>
    obtain ⟨rest, hrest⟩ := RuleSet.exists_eq_cons_of_deinflections hwords
    rw [hrest, List.head?_cons, if_neg hother]

theorem mem_deinflect_self {l : Language} (h : l ≠ .korean) (s : Text) : s ∈ l.deinflect s := by
  refine List.mem_of_head? ?_
  rw [head?_deinflect, if_neg h]

/-- Every text has a list of words, and the first of them is the text itself, unless the language is Korean
and something in the text stands where typed jamo are moved to. -/
theorem head?_deinflect_eq_self_iff (l : Language) (s : Text) :
    l.deinflections s = .ok (l.deinflect s) ∧
      ((l.deinflect s).head? = some s ↔
        (l = .korean → ∀ c ∈ s, c.toNat < 0xF000 ∨ 0xF05D < c.toNat)) := by
  refine ⟨deinflections_eq_ok l s, ?_⟩
  rw [head?_deinflect, Option.some.injEq]
  by_cases hkorean : l = .korean
  · rw [if_pos hkorean, unshield_eq_self_iff, forall_prop_of_true hkorean]
    refine forall₂_congr fun c _ => ?_
    rw [← Bool.not_eq_true, isShielded_iff]
    omega
  · rw [if_neg hkorean, iff_true_intro rfl, true_iff]
    exact fun hother => absurd hother hkorean

/-- A character of the private use area is taken for the jamo that would be moved there. -/
theorem head?_deinflect_privateUse :
    (Language.korean.deinflect ['\uF000']).head? = some ['ㄱ'] ∧
      (Language.korean.deinflect ['\uF000']).head? ≠ some ['\uF000'] := by
  have hfirst : (Language.korean.deinflect ['\uF000']).head? = some ['ㄱ'] := by
    rw [head?_deinflect]
    decide
  refine ⟨hfirst, ?_⟩
  rw [hfirst]
  decide

end Language
end Lexicon
