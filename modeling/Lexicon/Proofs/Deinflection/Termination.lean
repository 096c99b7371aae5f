import Lexicon.Proofs.Deinflection.Listing
import Lexicon.Proofs.Deinflection.Size
import Mathlib.Data.Finite.Sum
import Mathlib.Data.Set.Finite.List

/-! When a search returns. Texts of bounded size are finitely many, and so are the steps that rules can
take from them; a guarded chain takes each once. The texts are of bounded size when every rule that
lengthens one leaves a condition that no rule accepts. -/
namespace Lexicon

instance finiteChar : Finite Char :=
  Finite.of_injective (fun c : Char => c.val.toFin) fun _ _ h => Char.ext (UInt32.toFin_inj.1 h)

instance finiteCodePoint : Finite CodePoint := by
  refine Finite.of_surjective (Sum.elim CodePoint.char CodePoint.surrogate) fun a => ?_
  cases a with
  | char c => exact ⟨.inl c, rfl⟩
  | surrogate n => exact ⟨.inr n, rfl⟩

namespace GuardedChain

variable {α : Type} {rules : List (Rule α)} {s : α} {c : List ℕ} {d : Derivation α} {forms : Set α}

/-- The steps that rules take from some forms. -/
def framesFrom (rules : List (Rule α)) (forms : Set α) : Set (Frame α) :=
  {f | ∃ r ∈ rules, ∃ v ∈ forms, r.frame v = f}

theorem finite_framesFrom (rules : List (Rule α)) (hforms : forms.Finite) :
    (framesFrom rules forms).Finite := by
  have hrules : {r | r ∈ rules}.Finite := rules.finite_toSet
  refine ((hrules.prod hforms).image fun p => p.1.frame p.2).subset ?_
  rintro f ⟨r, hr, v, hv, rfl⟩
  exact ⟨(r, v), ⟨hr, hv⟩, rfl⟩

variable [WordForm α]

/-- Steps that count as themselves are each taken once. -/
theorem nodup_trace (hself : ∀ f ∈ d.trace, f.same f = true) (h : GuardedChain rules s c d) :
    d.trace.Nodup := by
  refine List.Pairwise.imp_of_mem ?_ h.guarded
  rintro later earlier hlater - hne rfl
  exact hne (hself later hlater)

theorem mem_framesFrom (hmem : ∀ c d, GuardedChain rules s c d → d.text ∈ forms)
    (h : GuardedChain rules s c d) : ∀ f ∈ d.trace, f ∈ framesFrom rules forms := by
  intro f hf
  obtain ⟨b, d', k, r, e, hd', hr, -, rfl, -⟩ := h.exists_step_of_mem_trace hf
  exact ⟨r, hr, d'.text, hmem b d' hd', rfl⟩

/-- Guarded chains through finitely many forms are no longer than the steps from these are many. -/
theorem exists_length_le (hforms : forms.Finite)
    (hself : ∀ f ∈ framesFrom rules forms, f.same f = true)
    (hmem : ∀ c d, GuardedChain rules s c d → d.text ∈ forms) :
    ∃ n, ∀ c d, GuardedChain rules s c d → c.length ≤ n := by
  classical
  have hframes := finite_framesFrom rules hforms
  refine ⟨hframes.toFinset.card, fun c d h => ?_⟩
  have hsteps := mem_framesFrom hmem h
  have hnodup := nodup_trace (fun f hf => hself f (hsteps f hf)) h
  have hsubset : d.trace.toFinset ⊆ hframes.toFinset := fun f hf =>
    hframes.mem_toFinset.2 (hsteps f (List.mem_toFinset.1 hf))
  calc c.length = d.trace.length := h.chain.length_trace.symm
    _ = d.trace.toFinset.card := (List.toFinset_card_of_nodup hnodup).symm
    _ ≤ hframes.toFinset.card := Finset.card_le_card hsubset

end GuardedChain

namespace RuleSet

variable {rs : RuleSet Text}

theorem fault?_eq_none (rules : List (Rule Text)) (d : Derivation Text) : d.fault? rules = none :=
  Derivation.fault?_eq_none_iff.2 fun _ _ _ => rfl

/-- A search returns when the texts it meets are of bounded size. -/
theorem exists_derivations_of_text_length_le {s : Text} {n : ℕ}
    (hsize : ∀ c d, GuardedChain rs.rules s c d → d.text.length ≤ n) :
    ∃ ds, rs.derivations s = .ok ds := by
  obtain ⟨m, hm⟩ := GuardedChain.exists_length_le (List.finite_length_le Char n)
    (fun f _ => Frame.same_iff.2 rfl) hsize
  exact exists_derivations_of_length_le hm fun _ d _ => fault?_eq_none rs.rules d

/-- Rules that lengthen a text leave a condition that no rule accepts. -/
def Settles (rs : RuleSet Text) : Prop :=
  ∀ r ∈ rs.rules, r.kind.growth = 0 ∨ ∀ q ∈ rs.rules, ¬ q.admits r.conditionsOut = true

instance (rs : RuleSet Text) : Decidable rs.Settles :=
  inferInstanceAs (Decidable (∀ r ∈ rs.rules, _))

theorem exists_forall_le (f : Rule Text → ℕ) (rules : List (Rule Text)) :
    ∃ n, ∀ r ∈ rules, f r ≤ n := by
  obtain ⟨n, hn⟩ := (rules.finite_toSet.image f).bddAbove
  exact ⟨n, fun r hr => hn ⟨r, hr, rfl⟩⟩

/-- Only the last step of a chain lengthens a text beyond the source and the words that rules give. -/
theorem Settles.length_le (hrs : rs.Settles) {s : Text} {size growth : ℕ} (hs : s.length ≤ size)
    (hsize : ∀ r ∈ rs.rules, r.kind.wordSize ≤ size)
    (hgrowth : ∀ r ∈ rs.rules, r.kind.growth ≤ growth) {c : List ℕ} {d : Derivation Text}
    (h : Chain rs.rules s c d) :
    d.text.length ≤ size + growth ∧
      ((∃ q ∈ rs.rules, q.admits d.conditions = true) → d.text.length ≤ size) := by
  induction h with
  | source => exact ⟨by dsimp only; omega, fun _ => hs⟩
  | @step b d e k r _ hk hstep ih =>
    have hr : r ∈ rs.rules := List.mem_of_getElem? hk
    have hd : d.text.length ≤ size := ih.2 ⟨r, hr, Rule.admits_iff.2 hstep.demand⟩
    have he := Kind.length_deinflect_le hstep.text_eq
    have hword := hsize r hr
    rcases hrs r hr with hzero | hdead
    · rw [hzero] at he
      exact ⟨by omega, fun _ => by omega⟩
    · have := hgrowth r hr
      refine ⟨by omega, ?_⟩
      rintro ⟨q, hq, hadmits⟩
      exact absurd (hstep.conditions_eq ▸ hadmits) (hdead q hq)

/-- A search with such rules returns for every text. -/
theorem Settles.exists_derivations (hrs : rs.Settles) (s : Text) :
    ∃ ds, rs.derivations s = .ok ds := by
  obtain ⟨size, hsize⟩ := exists_forall_le (·.kind.wordSize) rs.rules
  obtain ⟨growth, hgrowth⟩ := exists_forall_le (·.kind.growth) rs.rules
  refine exists_derivations_of_text_length_le (n := max s.length size + growth) ?_
  intro c d h
  exact (hrs.length_le (Nat.le_max_left _ _)
    (fun r hr => (hsize r hr).trans (Nat.le_max_right _ _)) hgrowth h.chain).1

end RuleSet
end Lexicon
