import Lexicon.Proofs.Deinflection.Listing
import Mathlib.Data.List.Nodup
import Mathlib.Logic.Relation

/-! The guard against repeated steps. A step that a chain has taken before led to the form and the
condition that it would lead to again, so the guard takes no form away: whatever the rules reach
without it, a guarded chain reaches. -/
namespace Lexicon

section
variable {α : Type} [WordForm α]

/-- One use of some rule, whatever was done before. -/
def Form.Rewrites (rules : List (Rule α)) (a b : Form α) : Prop :=
  ∃ r ∈ rules, (a.conditions = 0 ∨ a.conditions &&& r.conditionsIn ≠ 0) ∧
    WordForm.deinflect r.kind a.text = some b.text ∧ b.conditions = r.conditionsOut

/-- No two rules stand under one name at one place. -/
def RuleSet.Distinct (rs : RuleSet α) : Prop :=
  (rs.rules.map fun r => (r.transformId, r.index)).Nodup

end

/-- A rewriting step from the end of a guarded chain leads to the end of a guarded chain, either
because it is new, or because the chain took it before. -/
theorem GuardedChain.exists_of_rewrites {rs : RuleSet Text} (hrules : rs.Distinct) {s : Text}
    {c : List ℕ} {d : Derivation Text} (h : GuardedChain rs.rules s c d) {f : Form Text}
    (hf : d.form.Rewrites rs.rules f) : ∃ c' d', GuardedChain rs.rules s c' d' ∧ d'.form = f := by
  obtain ⟨t, m⟩ := f
  obtain ⟨r, hr, hdemand, htext, rfl⟩ := hf
  let e : Derivation Text := ⟨t, r.conditionsOut, r.frame d.text :: d.trace⟩
  have hstep : r.Step d e := ⟨hdemand, htext, rfl, rfl⟩
  by_cases htaken : r.frame d.text ∈ d.trace
  · obtain ⟨b, d', k, q, e', -, hq, hstep', hframe, hchain⟩ := h.exists_step_of_mem_trace htaken
    have hsame : q = r := by
      have hkey : (q.transformId, q.index) = (r.transformId, r.index) := by
        simpa [Rule.frame] using And.intro (congrArg Frame.transformId hframe).symm
          (congrArg Frame.index hframe).symm
      exact List.inj_on_of_nodup_map hrules hq hr hkey
    have hform : d'.text = d.text := (congrArg Frame.text hframe).symm
    refine ⟨k :: b, e', hchain, ?_⟩
    have htext' : e'.text = t := by
      have heq := hstep'.text_eq
      rw [hsame, hform] at heq
      exact Option.some.inj (heq.symm.trans htext)
    rw [Derivation.form, htext', hstep'.conditions_eq, hsame]
  · have hguarded : e.Guarded := by
      refine List.pairwise_cons.2 ⟨?_, h.guarded⟩
      intro f hf hsame
      exact htaken (Frame.same_iff.1 hsame ▸ hf)
    obtain ⟨k, hk⟩ := List.mem_iff_getElem?.1 hr
    exact ⟨k :: c, e, ⟨h.chain.step hk hstep, hguarded⟩, rfl⟩

/-- Every form that the rules reach without a guard is the result of a guarded chain. -/
theorem exists_guardedChain_of_rewrites {rs : RuleSet Text} (hrules : rs.Distinct) {s : Text}
    {f : Form Text} (h : Relation.ReflTransGen (Form.Rewrites rs.rules) ⟨s, 0⟩ f) :
    ∃ c d, GuardedChain rs.rules s c d ∧ d.form = f := by
  induction h with
  | refl => exact ⟨[], .source s, ⟨.source, List.Pairwise.nil⟩, rfl⟩
  | tail _ hstep ih =>
    obtain ⟨c, d, hchain, rfl⟩ := ih
    exact hchain.exists_of_rewrites hrules hstep

namespace RuleSet

/-- The guard never costs a form: where the rewriting ends, every form and condition that rules reach
without it are among the forms found. -/
theorem mem_forms_of_rewrites {rs : RuleSet Text} (hrules : rs.Distinct) {s : Text}
    (hends : rs.Ends s) {f : Form Text}
    (hreach : Relation.ReflTransGen (Form.Rewrites rs.rules) ⟨s, 0⟩ f) :
    ∃ fs, rs.forms s = .ok fs ∧ f ∈ fs := by
  obtain ⟨ds, hds⟩ := ends_iff.1 hends
  obtain ⟨c, d, hchain, rfl⟩ := exists_guardedChain_of_rewrites hrules hreach
  have hd : d ∈ ds := (mem_derivations_iff hds).2 ⟨c, hchain⟩
  exact ⟨ds.map (·.form), by simp [forms, hds, Except.map], List.mem_map_of_mem hd⟩

end RuleSet
end Lexicon
