import Lexicon.Language.Deinflection
import Lexicon.Proofs.Deinflection.Descriptor
import Lexicon.Proofs.Deinflection.Termination

/-! The rule sets that come with the languages. A check over the rules of each, made once by evaluation,
shows that it compiles, that its rules can be told apart, and that a rule which lengthens a text leaves
a condition that no rule accepts. -/
namespace Lexicon

namespace Descriptor

/-- The descriptor compiles, no two transforms have one name, and rules that lengthen a text are the
last ones of a derivation. -/
def isSettled (d : Descriptor) : Bool :=
  (match d.compile with
    | .ok rs => decide rs.Settles
    | .error _ => false) && decide (d.transforms.map (·.id)).Nodup

theorem isSettled_iff {d : Descriptor} :
    d.isSettled = true ↔
      (∃ rs, d.compile = .ok rs ∧ rs.Settles) ∧ (d.transforms.map (·.id)).Nodup := by
  rw [isSettled, Bool.and_eq_true, decide_eq_true_iff]
  cases d.compile with
  | ok rs => simp
  | error e => simp

end Descriptor

namespace Language

/-- The descriptors of the languages that have rules. -/
def descriptor? : Language → Option Descriptor
  | .japanese => some Rules.japanese
  | .english => some Rules.english
  | .korean => some Rules.korean
  | .arabic => some Rules.arabic
  | .spanish => some Rules.spanish
  | .french => some Rules.french
  | .german => some Rules.german
  | .portuguese => some Rules.portuguese
  | .latin => some Rules.latin
  | .tagalog => some Rules.tagalog
  | _ => none

/-- The check over all rules of all languages. -/
theorem all_isSettled : all.all (fun l => l.descriptor?.all Descriptor.isSettled) = true := by
  decide +kernel

theorem isSettled_of_descriptor? {l : Language} {d : Descriptor} (h : l.descriptor? = some d) :
    d.isSettled = true := by
  have hl : l ∈ all := by cases l <;> decide
  simpa [h] using List.all_eq_true.1 all_isSettled l hl

theorem compile_eq_compiled {d : Descriptor} {rs : RuleSet Text} (h : d.compile = .ok rs) :
    compiled d = rs := by
  simp [compiled, h]

theorem ruleSet_eq (l : Language) : l.ruleSet = (l.descriptor?.map compiled).getD .empty := by
  cases l <;> rfl

/-- Every descriptor compiles to the rule set of its language. -/
theorem compile_descriptor? {l : Language} {d : Descriptor} (h : l.descriptor? = some d) :
    d.compile = .ok l.ruleSet := by
  obtain ⟨⟨rs, hrs, -⟩, -⟩ := Descriptor.isSettled_iff.1 (isSettled_of_descriptor? h)
  rw [ruleSet_eq, h, Option.map_some, Option.getD_some, compile_eq_compiled hrs, hrs]

theorem ruleSet_of_descriptor?_eq_none {l : Language} (h : l.descriptor? = none) :
    l.ruleSet = .empty := by
  rw [ruleSet_eq, h, Option.map_none, Option.getD_none]

theorem settles_ruleSet (l : Language) : l.ruleSet.Settles := by
  cases hd : l.descriptor? with
  | none =>
    rw [ruleSet_of_descriptor?_eq_none hd]
    exact fun r hr => absurd hr List.not_mem_nil
  | some d =>
    obtain ⟨⟨rs, hrs, hsettles⟩, -⟩ := Descriptor.isSettled_iff.1 (isSettled_of_descriptor? hd)
    obtain rfl : rs = l.ruleSet := Except.ok.inj (hrs.symm.trans (compile_descriptor? hd))
    exact hsettles

/-- Deinflection returns for every text. -/
theorem exists_deinflections_ruleSet (l : Language) (s : Text) :
    ∃ words, l.ruleSet.deinflections s = .ok words := by
  obtain ⟨ds, hds⟩ := (settles_ruleSet l).exists_derivations s
  exact ⟨_, RuleSet.deinflections_eq_ok_iff.2 ⟨ds, hds, rfl⟩⟩

/-- No text is without a list of words because the rules came to a halt. -/
theorem deinflections_eq_ok (l : Language) (s : Text) : l.deinflections s = .ok (l.deinflect s) := by
  have hwords : ∃ words, l.deinflections s = .ok words := by
    rw [deinflections]
    split
    · obtain ⟨terms, hterms⟩ := exists_deinflections_ruleSet l _
      exact ⟨_, map_eq_ok_iff.2 ⟨terms, hterms, rfl⟩⟩
    · exact exists_deinflections_ruleSet l s
  obtain ⟨words, hwords⟩ := hwords
  rw [deinflect, hwords]

theorem distinct_ruleSet (l : Language) : l.ruleSet.Distinct := by
  cases hd : l.descriptor? with
  | none =>
    rw [ruleSet_of_descriptor?_eq_none hd]
    exact List.Pairwise.nil
  | some d =>
    have hids := (Descriptor.isSettled_iff.1 (isSettled_of_descriptor? hd)).2
    exact Descriptor.distinct_of_compile (compile_descriptor? hd) hids

/-- Every descriptor that comes with a language compiles, and the search with its rules returns for
every text. -/
theorem derivations_ruleSet_return (l : Language) :
    (∀ d, l.descriptor? = some d → d.compile = .ok l.ruleSet) ∧
      ∀ s, ∃ ds, l.ruleSet.derivations s = .ok ds :=
  ⟨fun _ => compile_descriptor?, (settles_ruleSet l).exists_derivations⟩

/-- French rules lengthen some endings, but only as the last step. -/
theorem derivations_ruleSet_return_french :
    Language.french.descriptor? = some Rules.french ∧
      Rules.french.compile = .ok Language.french.ruleSet ∧
      ∃ ds, Language.french.ruleSet.derivations "mange".toList = .ok ds :=
  ⟨rfl, (derivations_ruleSet_return .french).1 _ rfl, (derivations_ruleSet_return .french).2 _⟩

end Language

namespace RuleSet

/-- The guard never costs a form, as long as no two rules stand under one name at one place: where the
rewriting ends, every form and condition that the rules reach without a guard are found. The rule sets
that come with languages keep their rules apart. -/
theorem guard_costs_no_form :
    (∀ l : Language, l.ruleSet.Distinct) ∧
      ∀ rs : RuleSet Text, rs.Distinct → ∀ s, rs.Ends s → ∀ f,
        Relation.ReflTransGen (Form.Rewrites rs.rules) ⟨s, 0⟩ f →
          ∃ fs, rs.forms s = .ok fs ∧ f ∈ fs := by
  refine ⟨Language.distinct_ruleSet, ?_⟩
  intro rs hrules s hends f hreach
  exact mem_forms_of_rewrites hrules hends hreach

/-- Three uses of two rules that undo each other lead back to a form found by one. -/
theorem guard_costs_no_form_of_backAndForth :
    backAndForth.Distinct ∧ backAndForth.Ends ['a'] ∧
      Relation.ReflTransGen (Form.Rewrites backAndForth.rules) ⟨['a'], 0⟩ ⟨['b'], 1⟩ ∧
      ∃ fs, backAndForth.forms ['a'] = .ok fs ∧ ⟨['b'], 1⟩ ∈ fs := by
  have hrules : backAndForth.Distinct := by unfold Distinct; decide
  have hends : backAndForth.Ends ['a'] := ends_iff.2 ⟨_, derivations_backAndForth⟩
  have hforth : ∀ m, m = 0 ∨ m = 1 →
      Form.Rewrites backAndForth.rules ⟨['a'], m⟩ ⟨['b'], 1⟩ := by
    intro m hm
    refine ⟨⟨['f'], 0, 1, 1, .suffix ['a'] ['b']⟩, by simp [rules, backAndForth], ?_, rfl, rfl⟩
    rcases hm with rfl | rfl <;> decide
  have hback : Form.Rewrites backAndForth.rules ⟨['b'], 1⟩ ⟨['a'], 1⟩ :=
    ⟨⟨['b'], 0, 1, 1, .suffix ['b'] ['a']⟩, by simp [rules, backAndForth], by decide, rfl, rfl⟩
  have hreach : Relation.ReflTransGen (Form.Rewrites backAndForth.rules) ⟨['a'], 0⟩ ⟨['b'], 1⟩ :=
    .tail (.tail (.single (hforth 0 (.inl rfl))) hback) (hforth 1 (.inr rfl))
  exact ⟨hrules, hends, hreach, guard_costs_no_form.2 _ hrules _ hends _ hreach⟩

end RuleSet
end Lexicon
