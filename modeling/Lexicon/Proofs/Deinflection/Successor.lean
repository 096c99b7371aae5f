import Lexicon.Deinflection.RuleSet
import Lexicon.Proofs.Deinflection.Level

/-! One step further from a derivation, decided by its own trace alone. The derivations reached in
exactly so many steps form a level. -/
namespace Lexicon

variable {α : Type} [WordForm α]

namespace Rule

/-- The derivation one step further, unless the same step was taken before. -/
def extend? (r : Rule α) (d : Derivation α) : Option (Derivation α) :=
  if r.admits d.conditions then
    match WordForm.deinflect r.kind d.text with
    | some t =>
      if d.trace.any (·.same (r.frame d.text)) then none
      else some ⟨t, r.conditionsOut, r.frame d.text :: d.trace⟩
    | none => none
  else none

/-- Why the rule cannot be put to the form, if it has to be. -/
def fault? (r : Rule α) (d : Derivation α) : Option FormFault :=
  if r.admits d.conditions then WordForm.fault? r.kind d.text else none

theorem extend?_eq_some_iff {r : Rule α} {d e : Derivation α} :
    r.extend? d = some e ↔
      r.admits d.conditions = true ∧ WordForm.deinflect r.kind d.text = some e.text ∧
        e.conditions = r.conditionsOut ∧ e.trace = r.frame d.text :: d.trace ∧
        ∀ f ∈ d.trace, ¬ f.same (r.frame d.text) = true := by
  obtain ⟨t, c, trace⟩ := e
  unfold extend?
  by_cases hadmits : r.admits d.conditions = true
  · cases hd : WordForm.deinflect r.kind d.text with
    | none => simp [hadmits]
    | some u =>
      by_cases hany : d.trace.any (·.same (r.frame d.text)) = true
      · simp only [hadmits, hany, if_true, reduceCtorEq, false_iff]
        rintro ⟨-, -, -, -, hnone⟩
        obtain ⟨f, hf, hsame⟩ := List.any_eq_true.1 hany
        exact hnone f hf hsame
      · simp only [hadmits, hany, if_true, Bool.false_eq_true, if_false, Option.some.injEq,
          Derivation.mk.injEq, true_and]
        have hnone : ∀ f ∈ d.trace, ¬ f.same (r.frame d.text) = true := fun f hf hsame =>
          hany (List.any_eq_true.2 ⟨f, hf, hsame⟩)
        constructor
        · rintro ⟨rfl, rfl, rfl⟩
          exact ⟨rfl, rfl, rfl, hnone⟩
        · rintro ⟨rfl, rfl, rfl, -⟩
          exact ⟨rfl, rfl, rfl⟩
  · simp [hadmits]

end Rule

namespace Derivation

/-- All one-step extensions, in the order of the rules. -/
def successors (rules : List (Rule α)) (d : Derivation α) : List (Derivation α) :=
  rules.filterMap (·.extend? d)

/-- The first fault of a rule that is put to the form. -/
def fault? (rules : List (Rule α)) (d : Derivation α) : Option FormFault :=
  rules.findSome? (·.fault? d)

theorem mem_successors {rules : List (Rule α)} {d e : Derivation α} :
    e ∈ successors rules d ↔ ∃ r ∈ rules, r.extend? d = some e := by
  simp [successors]

theorem fault?_eq_none_iff {rules : List (Rule α)} {d : Derivation α} :
    fault? rules d = none ↔
      ∀ r ∈ rules, r.admits d.conditions = true → WordForm.fault? r.kind d.text = none := by
  simp [fault?, Rule.fault?]

theorem length_trace_of_mem_successors {rules : List (Rule α)} {d e : Derivation α}
    (h : e ∈ successors rules d) : e.trace.length = d.trace.length + 1 := by
  obtain ⟨r, -, he⟩ := mem_successors.1 h
  obtain ⟨-, -, -, htrace, -⟩ := Rule.extend?_eq_some_iff.1 he
  rw [htrace, List.length_cons]

theorem length_trace_lt {rules : List (Rule α)} (d : Derivation α) :
    ∀ e ∈ successors rules d, d.trace.length < e.trace.length := by
  intro e he
  rw [length_trace_of_mem_successors he]
  exact Nat.lt_succ_self _

end Derivation
end Lexicon
