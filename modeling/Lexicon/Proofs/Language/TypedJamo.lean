import Lexicon.Language.Deinflection
import Lexicon.Proofs.Deinflection.Comparison
import Lexicon.Proofs.Language.Shipped
import Lexicon.Proofs.Script.Shield
import Lexicon.Proofs.Text.Basic

/-! Typed jamo in Korean. The rules replace endings in which no jamo stands that was typed, so the search
takes place behind the last one of these, and what stands before it comes back as it was. -/
namespace Lexicon

open Hangul

section Barrier

variable {c : Char}

/-- A rule replaces an ending, and no jamo that was moved away stands in it. -/
def Kind.sparesTypedJamo : Kind Text → Bool
  | suffix inflected _ => inflected.all (!isShielded ·)
  | _ => false

/-- Such a rule works behind a jamo that was moved away. -/
theorem Kind.deinflect_append_cons {k : Kind Text} (hk : k.sparesTypedJamo = true)
    (hc : isShielded c = true) (front s : Text) :
    k.deinflect (front ++ c :: s) = (k.deinflect s).map fun t => front ++ c :: t := by
  cases k with
  | suffix inflected deinflected =>
    have hmem : c ∉ inflected := fun hmem => by
      simpa [hc] using List.all_eq_true.1 hk c hmem
    simp only [deinflect, TextOf.dropBack?_append_cons hmem, Option.map_map, Function.comp_def,
      List.append_assoc, List.cons_append]
  | _ => cases hk

theorem append_cons_injective (front : Text) (c : Char) :
    Function.Injective fun s => front ++ c :: s := fun _ _ h =>
  (List.cons.inj (List.append_cancel_left h)).2

/-- Words are found behind a jamo that was moved away as they are found on their own. -/
theorem RuleSet.deinflections_append_cons {rs : RuleSet Text}
    (hrules : ∀ r ∈ rs.rules, r.kind.sparesTypedJamo = true) (hc : isShielded c = true)
    (front : Text) {s : Text} {terms : List Text} (h : rs.deinflections s = .ok terms) :
    rs.deinflections (front ++ c :: s) = .ok (terms.map fun t => front ++ c :: t) := by
  have hinj := append_cons_injective front c
  obtain ⟨ds, hds, rfl⟩ := deinflections_eq_ok_iff.1 h
  refine deinflections_eq_ok_iff.2 ⟨_, derivations_mapText hinj
    (fun r hr t => Kind.deinflect_append_cons (hrules r hr) hc front t) hds, ?_⟩
  rw [List.map_map, ← distinct_map hinj, List.map_map]
  rfl

end Barrier

namespace Hangul

variable {u v : Text} {c : Char}

theorem disassemble_shield_append_cons (hc : isCompatibilityJamo c = true) (u v : Text) :
    disassemble (shield (u ++ c :: v)) =
      disassemble (shield u) ++ shieldOf c :: disassemble (shield v) := by
  rw [shield_append, shield_cons hc, disassemble_append,
    disassemble_cons_of_not_isSyllable (isSyllable_eq_false_of_isShielded (isShielded_shieldOf hc))]

/-- Words found behind a typed jamo are put together behind the text up to it. -/
theorem reassembled_append_cons (hu : ∀ d ∈ u, isShielded d = false)
    (hc : isCompatibilityJamo c = true) (terms : List Text) :
    reassembled (terms.map fun t => disassemble (shield u) ++ shieldOf c :: t) =
      (reassembled terms).map fun w => u ++ c :: w := by
  have hplain := isCompatibilityJamo_eq_false_of_isShielded (isShielded_shieldOf hc)
  have hword : ∀ t, unshield (assemble (disassemble (shield u) ++ shieldOf c :: t)) =
      u ++ c :: unshield (assemble t) := fun t => by
    rw [assemble_disassemble_append_cons (forall_mem_shield u) hplain, unshield_append,
      unshield_shield hu, unshield_cons_shieldOf hc]
  rw [reassembled, reassembled, ← distinct_map (append_cons_injective u c), List.map_map,
    List.map_map]
  exact congrArg distinct (List.map_congr_left fun t _ => hword t)

end Hangul

namespace Language

theorem sparesTypedJamo_koreanRules :
    ∀ r ∈ koreanRules.rules, r.kind.sparesTypedJamo = true :=
  List.all_eq_true.1 (by decide +kernel)

/-- A typed jamo shields what stands before it: up to the last one a Korean text comes back as it was,
followed by the words that the rest on its own may be an inflected form of, in the same order. -/
theorem korean_deinflections_append_cons {u : Text}
    (hu : ∀ d ∈ u, d.toNat < 0xF000 ∨ 0xF05D < d.toNat) {c : Char} (hfirst : 0x3131 ≤ c.toNat)
    (hlast : c.toNat ≤ 0x318E) (v : Text) :
    ∃ words, Language.korean.deinflections v = .ok words ∧
      Language.korean.deinflections (u ++ c :: v) = .ok (words.map fun w => u ++ c :: w) := by
  have hc : isCompatibilityJamo c = true := isCompatibilityJamo_iff.2 ⟨hfirst, hlast⟩
  have hplain : ∀ d ∈ u, isShielded d = false := fun d hd => by
    rw [← Bool.not_eq_true, isShielded_iff]
    have := hu d hd
    omega
  obtain ⟨terms, hterms⟩ := exists_deinflections_ruleSet .korean (disassemble (shield v))
  refine ⟨reassembled terms, congrArg (Except.map reassembled) hterms, ?_⟩
  have hbehind := RuleSet.deinflections_append_cons sparesTypedJamo_koreanRules
    (isShielded_shieldOf hc) (disassemble (shield u)) hterms
  change koreanRules.jamoDeinflections _ = _
  rw [RuleSet.jamoDeinflections, disassemble_shield_append_cons hc, hbehind, Except.map,
    reassembled_append_cons hplain hc]

/-- What is typed before a verb is left alone. -/
theorem korean_deinflections_append_cons_ate :
    (∀ d ∈ "한".toList, d.toNat < 0xF000 ∨ 0xF05D < d.toNat) ∧ 0x3131 ≤ 'ㅋ'.toNat ∧
      'ㅋ'.toNat ≤ 0x318E ∧
      ∃ words, Language.korean.deinflections "먹었다".toList = .ok words ∧
        Language.korean.deinflections ("한".toList ++ 'ㅋ' :: "먹었다".toList) =
          .ok (words.map fun w => "한".toList ++ 'ㅋ' :: w) := by
  have hu : ∀ d ∈ "한".toList, d.toNat < 0xF000 ∨ 0xF05D < d.toNat := by
    intro d hd
    obtain rfl : d = '한' := List.mem_singleton.1 hd
    exact .inl (by decide)
  exact ⟨hu, by decide, by decide, korean_deinflections_append_cons hu (by decide) (by decide) _⟩

end Language
end Lexicon
