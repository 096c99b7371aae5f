import Lexicon.Proofs.Deinflection.Listing

/-! When a search stops at a fault. However long a search goes on, every form that it finds is visited, so
a chain to a form that a rule cannot be put to stops it, and nothing else does. -/
namespace Lexicon

namespace Arena

open Lexicon.Derivation (successors)

variable {α : Type} [WordForm α] {rules : List (Rule α)} {s : α} {a b : Arena α} {i : ℕ}
  {d : Derivation α}

/-- What stands in a half-read list are results of guarded chains. -/
theorem Visited.exists_guardedChain (ha : Visited rules s a i) (hd : d ∈ a.derivations) :
    ∃ c, GuardedChain rules s c d := by
  induction hn : d.trace.length using Nat.strongRecOn generalizing d with
  | ind n ih =>
    rw [ha.derivations_eq, List.mem_cons, List.mem_flatMap] at hd
    rcases hd with rfl | ⟨d', hd', hsuccessor⟩
    · exact ⟨[], .source, List.Pairwise.nil⟩
    · have hlength := Derivation.length_trace_lt d' d hsuccessor
      obtain ⟨c, hchain⟩ := ih _ (hn ▸ hlength) (List.mem_of_mem_take hd') rfl
      obtain ⟨r, hr, hextend⟩ := Derivation.mem_successors.1 hsuccessor
      obtain ⟨hstep, hguarded⟩ := (Rule.extend?_eq_some_iff_step hchain.guarded).1 hextend
      obtain ⟨k, hk⟩ := List.mem_iff_getElem?.1 hr
      exact ⟨k :: c, hchain.chain.step hk hstep, hguarded⟩

theorem fault?_of_visit_eq_error {h : i < a.nodes.size} {fault : FormFault}
    (hv : visit i rules a h = .error fault) :
    (a.derivation i h).fault? rules = some fault := by
  have heq := visit_eq rules a i h
  rw [hv] at heq
  cases hfault : (a.derivation i h).fault? rules with
  | none => simp [hfault, Except.map] at heq
  | some fault' => simpa [hfault, Except.map, eq_comm] using heq

/-- A scan stops at a fault of a form that a guarded chain leads to. -/
theorem Visited.exists_fault_of_scan {fault : FormFault} (ha : Visited rules s a i)
    (h : scan rules a i = some (.error fault)) :
    ∃ c d, GuardedChain rules s c d ∧ d.fault? rules = some fault := by
  refine scan.partial_correctness rules
    (fun a i result => result = .error fault → Visited rules s a i →
      ∃ c d, GuardedChain rules s c d ∧ d.fault? rules = some fault)
    ?_ a i _ h rfl ha
  intro scan ih a i result hresult hfault ha
  split at hresult
  · next hi =>
    split at hresult
    · next fault' hv =>
      simp only [Option.some.injEq] at hresult
      obtain rfl : fault' = fault := Except.error.inj (hresult.trans hfault)
      have hd : a.derivation i hi ∈ a.derivations := by
        have hi' : i < a.derivations.length := by simpa using hi
        exact getElem_derivations hi' ▸ List.getElem_mem hi'
      obtain ⟨c, hchain⟩ := ha.exists_guardedChain hd
      exact ⟨c, _, hchain, fault?_of_visit_eq_error hv⟩
    · next grown hv => exact ih grown (i+1) result hresult hfault (ha.of_visit hv)
  · simp only [Option.some.injEq] at hresult
    rw [← hresult] at hfault
    cases hfault

/-- A scan without end visits as many forms as there are to be. -/
theorem Visited.exists_of_scan_eq_none (ha : Visited rules s a i) (h : scan rules a i = none) (n : ℕ) :
    ∃ b, Visited rules s b (i+n) ∧ scan rules b (i+n) = none := by
  induction n with
  | zero => exact ⟨a, ha, h⟩
  | succ n ih =>
    obtain ⟨b, hb, hscan⟩ := ih
    by_cases hi : i + n < b.nodes.size
    · cases hv : visit (i+n) rules b hi with
      | error fault =>
        rw [scan_of_visit_eq_error hv] at hscan
        cases hscan
      | ok grown => exact ⟨grown, hb.of_visit hv, (scan_of_visit_eq_ok hv).symm.trans hscan⟩
    · rw [Arena.scan, dif_neg hi] at hscan
      cases hscan

/-- When as many forms have been visited as stand below a level, these were among them. -/
theorem Visited.levelsBelow_prefix (ha : Visited rules s a i) {n : ℕ}
    (h : (levelsBelow (successors rules) (.source s) n).length ≤ i) :
    levelsBelow (successors rules) (.source s) n <+: a.derivations.take i := by
  induction n with
  | zero => exact List.nil_prefix
  | succ n ih =>
    have hbelow : (levelsBelow (successors rules) (.source s) n).length ≤ i := by
      rw [levelsBelow_succ, List.length_append] at h
      omega
    refine List.prefix_take_iff.2 ⟨?_, h⟩
    rw [levelsBelow_succ_eq_cons, ha.derivations_eq]
    exact (List.prefix_cons_inj _).2 ((ih hbelow).flatMap _)

end Arena

namespace RuleSet

section Faults

variable {α : Type} [WordForm α] {rs : RuleSet α} {s : α}

theorem fault?_eq_none_of_ok {ds : List (Derivation α)} (h : rs.derivations s = .ok ds) {c : List ℕ}
    {d : Derivation α} (hchain : GuardedChain rs.rules s c d) : d.fault? rs.rules = none :=
  (derivations_eq_ok_iff.1 h).2 d ((mem_derivations_iff h).2 ⟨c, hchain⟩)

/-- A search without end meets no fault. -/
theorem fault?_eq_none_of_unsettled (h : rs.derivations s = .error .unsettled) {c : List ℕ}
    {d : Derivation α} (hchain : GuardedChain rs.rules s c d) : d.fault? rs.rules = none := by
  have hscan : Arena.scan rs.rules (.source s) 0 = none := by
    unfold derivations at h
    split at h <;> simp_all
  let below := levelsBelow (Derivation.successors rs.rules) (.source s) (c.length + 1)
  have hd : d ∈ below := by
    have hlevel := Chain.mem_level_next.2 ⟨rfl, hchain⟩
    refine mem_levelsBelow.2 ⟨c.length, Nat.lt_succ_self _, ?_⟩
    rw [← map_snd_level_next]
    exact List.mem_map_of_mem hlevel
  obtain ⟨b, hb, -⟩ := (Arena.visited_source rs.rules s).exists_of_scan_eq_none hscan below.length
  rw [Nat.zero_add] at hb
  exact hb.fault?_eq d ((hb.levelsBelow_prefix le_rfl).subset hd)

/-- A search stops at a fault exactly when some chain leads to a form that a rule whose demand is met
cannot be put to. -/
theorem exists_fault_iff : (∃ fault, rs.derivations s = .error (.fault fault)) ↔
    ∃ c d, GuardedChain rs.rules s c d ∧ d.fault? rs.rules ≠ none := by
  constructor
  · rintro ⟨fault, h⟩
    have hscan : Arena.scan rs.rules (.source s) 0 = some (.error fault) := by
      unfold derivations at h
      split at h <;> simp_all
    obtain ⟨c, d, hchain, hfault⟩ := (Arena.visited_source rs.rules s).exists_fault_of_scan hscan
    exact ⟨c, d, hchain, by simp [hfault]⟩
  · rintro ⟨c, d, hchain, hfault⟩
    match h : rs.derivations s with
    | .ok ds => exact absurd (fault?_eq_none_of_ok h hchain) hfault
    | .error .unsettled => exact absurd (fault?_eq_none_of_unsettled h hchain) hfault
    | .error (.fault fault) => exact ⟨fault, rfl⟩

end Faults

end RuleSet

end Lexicon
