import Lexicon.Proofs.Basic
import Lexicon.Proofs.Deinflection.Arena
import Mathlib.Data.Set.Finite.Lattice
import Mathlib.Order.Bounds.Basic

/-! Chains: rules applied one after the other, starting with a source in the condition that accepts
every rule. A search lists the results of the chains that take no step twice, shorter chains first,
then in the order of the chains they continue, then in the order of the rules. -/
namespace Lexicon

variable {α : Type} [WordForm α]

/-- One application of a rule: the condition meets its demand, the form carries its inflection, and the
step joins the trace. -/
structure Rule.Step (r : Rule α) (d e : Derivation α) : Prop where
  demand : d.conditions = 0 ∨ d.conditions &&& r.conditionsIn ≠ 0
  text_eq : WordForm.deinflect r.kind d.text = some e.text
  conditions_eq : e.conditions = r.conditionsOut
  trace_eq : e.trace = ⟨r.transformId, r.index, d.text⟩ :: d.trace

/-- The rules at some places, given newest first, lead from a source to a derivation. -/
inductive Chain (rules : List (Rule α)) (s : α) : List ℕ → Derivation α → Prop
  | source : Chain rules s [] ⟨s, 0, []⟩
  | step {c d e k r} (chain : Chain rules s c d) (rule : rules[k]? = some r) (step : r.Step d e) :
      Chain rules s (k :: c) e

/-- No rule was applied twice to the same form. -/
def Derivation.Guarded (d : Derivation α) : Prop :=
  d.trace.Pairwise fun later earlier => ¬ earlier.same later = true

/-- A chain that takes no step twice. -/
structure GuardedChain (rules : List (Rule α)) (s : α) (c : List ℕ) (d : Derivation α) : Prop where
  chain : Chain rules s c d
  guarded : d.Guarded

/-- The order of chains: by length, then by the chains they continue, then by the rules they end
with. -/
inductive Before : List ℕ → List ℕ → Prop
  | length {b c} (h : b.length < c.length) : Before b c
  | parent {b c} (h : b.length = c.length) (hbc : Before b c) (j k : ℕ) : Before (j :: b) (k :: c)
  | rule {j k} (h : j < k) (c : List ℕ) : Before (j :: c) (k :: c)

theorem Before.ne {b c : List ℕ} (h : Before b c) : b ≠ c := by
  induction h with
  | length h => rintro rfl; exact lt_irrefl _ h
  | parent _ _ _ _ ih => exact fun heq => ih (List.cons.inj heq).2
  | rule h c => exact fun heq => h.ne (List.cons.inj heq).1

theorem Rule.extend?_eq_some_iff_step {r : Rule α} {d e : Derivation α} (hd : d.Guarded) :
    r.extend? d = some e ↔ r.Step d e ∧ e.Guarded := by
  rw [extend?_eq_some_iff, admits_iff]
  constructor
  · rintro ⟨hdemand, htext, hconditions, htrace, hnew⟩
    refine ⟨⟨hdemand, htext, hconditions, htrace⟩, ?_⟩
    rw [Derivation.Guarded, htrace]
    exact List.pairwise_cons.2 ⟨hnew, hd⟩
  · rintro ⟨hstep, he⟩
    rw [Derivation.Guarded, hstep.trace_eq] at he
    exact ⟨hstep.demand, hstep.text_eq, hstep.conditions_eq, hstep.trace_eq,
      (List.pairwise_cons.1 he).1⟩

theorem Rule.Step.guarded {r : Rule α} {d e : Derivation α} (h : r.Step d e) (he : e.Guarded) :
    d.Guarded := by
  rw [Derivation.Guarded, h.trace_eq] at he
  exact (List.pairwise_cons.1 he).2

namespace Chain

variable {rules : List (Rule α)} {s : α} {c : List ℕ} {d : Derivation α}

theorem length_trace (h : Chain rules s c d) : d.trace.length = c.length := by
  induction h with
  | source => rfl
  | step _ _ hstep ih => rw [hstep.trace_eq, List.length_cons, List.length_cons, ih]

/-- The extensions of a derivation, each with its chain. -/
def next (rules : List (Rule α)) (p : List ℕ × Derivation α) : List (List ℕ × Derivation α) :=
  rules.zipIdx.filterMap fun rk => (rk.1.extend? p.2).map fun e => (rk.2 :: p.1, e)

theorem map_snd_next (rules : List (Rule α)) (p : List ℕ × Derivation α) :
    (next rules p).map Prod.snd = Derivation.successors rules p.2 := by
  have hrules : rules.zipIdx.map Prod.fst = rules := by simp
  conv_rhs => rw [Derivation.successors, ← hrules, List.filterMap_map]
  rw [next, List.map_filterMap]
  refine List.filterMap_congr fun rk _ => ?_
  cases hrk : rk.1.extend? p.2 <;> simp [hrk]

theorem mem_next {p q : List ℕ × Derivation α} :
    q ∈ next rules p ↔ ∃ k r, rules[k]? = some r ∧ r.extend? p.2 = some q.2 ∧ q.1 = k :: p.1 := by
  obtain ⟨c, e⟩ := q
  simp only [next, List.mem_filterMap, Prod.exists, List.mem_zipIdx_iff_getElem?,
    Option.map_eq_some_iff, Prod.mk.injEq]
  constructor
  · rintro ⟨r, k, hk, _, he, rfl, rfl⟩
    exact ⟨k, r, hk, he, rfl⟩
  · rintro ⟨k, r, hk, he, rfl⟩
    exact ⟨r, k, hk, e, he, rfl, rfl⟩

/-- A level holds the guarded chains of its length. -/
theorem mem_level_next {n : ℕ} :
    (c, d) ∈ level (next rules) ([], .source s) n ↔ c.length = n ∧ GuardedChain rules s c d := by
  induction n generalizing c d with
  | zero =>
    simp only [level, List.mem_singleton, Prod.mk.injEq]
    constructor
    · rintro ⟨rfl, rfl⟩
      exact ⟨rfl, .source, List.Pairwise.nil⟩
    · rintro ⟨hc, hchain, -⟩
      obtain rfl := List.eq_nil_of_length_eq_zero hc
      cases hchain
      exact ⟨rfl, rfl⟩
  | succ n ih =>
    simp only [level, List.mem_flatMap, Prod.exists, mem_next]
    constructor
    · rintro ⟨b, e, hb, k, r, hk, hd, rfl⟩
      obtain ⟨rfl, hchain, hguarded⟩ := ih.1 hb
      obtain ⟨hstep, hd⟩ := (Rule.extend?_eq_some_iff_step hguarded).1 hd
      exact ⟨rfl, hchain.step hk hstep, hd⟩
    · rintro ⟨hc, hchain, hguarded⟩
      cases hchain with
      | source => simp at hc
      | @step b e _ k r hchain hk hstep =>
        have he := hstep.guarded hguarded
        exact ⟨b, e, ih.2 ⟨by simpa using hc, hchain, he⟩, k, r, hk,
          (Rule.extend?_eq_some_iff_step he).2 ⟨hstep, hguarded⟩, rfl⟩

theorem pairwise_next (p : List ℕ × Derivation α) :
    (next rules p).Pairwise fun q r => Before q.1 r.1 := by
  rw [next, List.pairwise_filterMap]
  refine (pairwise_snd_lt_zipIdx rules).imp ?_
  intro a b hab q hq r hr
  obtain ⟨_, -, rfl⟩ := Option.map_eq_some_iff.1 hq
  obtain ⟨_, -, rfl⟩ := Option.map_eq_some_iff.1 hr
  exact .rule hab p.1

theorem pairwise_level_next (n : ℕ) :
    (level (next rules) ([], .source s) n).Pairwise fun p q => Before p.1 q.1 := by
  induction n with
  | zero => exact List.pairwise_singleton _ _
  | succ n ih =>
    rw [level, List.pairwise_flatMap]
    refine ⟨fun p _ => pairwise_next p, ih.imp_of_mem ?_⟩
    intro p q hp hq hpq p' hp' q' hq'
    obtain ⟨j, -, -, -, hj⟩ := mem_next.1 hp'
    obtain ⟨k, -, -, -, hk⟩ := mem_next.1 hq'
    rw [hj, hk]
    exact .parent (by rw [(mem_level_next.1 hp).1, (mem_level_next.1 hq).1]) hpq j k

theorem pairwise_levelsBelow_next (n : ℕ) :
    (levelsBelow (next rules) ([], .source s) n).Pairwise fun p q => Before p.1 q.1 := by
  rw [levelsBelow, List.pairwise_flatMap]
  refine ⟨fun k _ => pairwise_level_next k, List.pairwise_lt_range.imp ?_⟩
  intro j k hjk p hp q hq
  exact .length (by rw [(mem_level_next.1 hp).1, (mem_level_next.1 hq).1]; exact hjk)

end Chain

namespace GuardedChain

variable {rules : List (Rule α)} {s : α} {c : List ℕ} {d : Derivation α}

/-- A step in the trace of a guarded chain was taken by a rule at the end of a shorter one. -/
theorem exists_step_of_mem_trace {f : Frame α} (h : GuardedChain rules s c d) (hf : f ∈ d.trace) :
    ∃ b d' k r e, GuardedChain rules s b d' ∧ r ∈ rules ∧ r.Step d' e ∧ f = r.frame d'.text ∧
      GuardedChain rules s (k :: b) e := by
  obtain ⟨hchain, hguarded⟩ := h
  induction hchain with
  | source => exact absurd hf List.not_mem_nil
  | @step b d' e k r hchain hk hstep ih =>
    have hd' := hstep.guarded hguarded
    rw [hstep.trace_eq] at hf
    rcases List.mem_cons.1 hf with rfl | hf
    · exact ⟨b, d', k, r, e, ⟨hchain, hd'⟩, List.mem_of_getElem? hk, hstep, rfl,
        ⟨hchain.step hk hstep, hguarded⟩⟩
    · exact ih hf hd'

end GuardedChain
end Lexicon
