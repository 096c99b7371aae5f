import Lexicon.Proofs.Deinflection.Chain

/-! What a search returns: exactly the guarded chains, in their order. It ends exactly when there are
finitely many of them and none leads to a form that a rule is at fault with. -/
namespace Lexicon

variable {α : Type} [WordForm α]

/-- Chains listed with their results, each once and in order. -/
structure Listing (rules : List (Rule α)) (s : α) (chains : List (List ℕ))
    (ds : List (Derivation α)) : Prop where
  sorted : chains.Pairwise Before
  nodup : chains.Nodup
  mem_iff : ∀ c, c ∈ chains ↔ ∃ d, GuardedChain rules s c d
  results : List.Forall₂ (GuardedChain rules s) chains ds

namespace RuleSet

variable {rs : RuleSet α} {s : α}

/-- The rewriting of a form ends: it has finitely many guarded chains, and every rule whose demand is
met can be put to the form that a chain leads to. -/
structure Ends (rs : RuleSet α) (s : α) : Prop where
  finite : {c | ∃ d, GuardedChain rs.rules s c d}.Finite
  fault?_eq : ∀ c d, GuardedChain rs.rules s c d → ∀ r ∈ rs.rules, r.admits d.conditions = true →
    WordForm.fault? r.kind d.text = none

theorem map_snd_level_next (n : ℕ) :
    (level (Chain.next rs.rules) ([], .source s) n).map Prod.snd =
      level (Derivation.successors rs.rules) (.source s) n :=
  map_level (Chain.map_snd_next rs.rules) _ n

theorem map_snd_levelsBelow_next (n : ℕ) :
    (levelsBelow (Chain.next rs.rules) ([], .source s) n).map Prod.snd =
      levelsBelow (Derivation.successors rs.rules) (.source s) n :=
  map_levelsBelow (Chain.map_snd_next rs.rules) _ n

/-- Below an empty level stand all guarded chains. -/
theorem mem_levelsBelow_next {n : ℕ}
    (hn : level (Derivation.successors rs.rules) (.source s) n = []) {c : List ℕ}
    {d : Derivation α} :
    (c, d) ∈ levelsBelow (Chain.next rs.rules) ([], .source s) n ↔ GuardedChain rs.rules s c d := by
  have hempty : level (Chain.next rs.rules) ([], .source s) n = [] := by
    simpa [← map_snd_level_next] using hn
  rw [mem_levelsBelow]
  constructor
  · rintro ⟨k, -, hk⟩
    exact (Chain.mem_level_next.1 hk).2
  · intro h
    have hlevel := Chain.mem_level_next.2 ⟨rfl, h⟩
    refine ⟨c.length, ?_, hlevel⟩
    by_contra hlong
    rw [level_eq_nil_of_le hempty (by omega)] at hlevel
    exact List.not_mem_nil hlevel

/-- The levels below an empty one list the guarded chains. -/
theorem listing_levelsBelow {n : ℕ}
    (hn : level (Derivation.successors rs.rules) (.source s) n = []) :
    Listing rs.rules s ((levelsBelow (Chain.next rs.rules) ([], .source s) n).map Prod.fst)
      (levelsBelow (Derivation.successors rs.rules) (.source s) n) := by
  have hsorted : ((levelsBelow (Chain.next rs.rules) ([], .source s) n).map Prod.fst).Pairwise
      Before := by
    rw [List.pairwise_map]
    exact Chain.pairwise_levelsBelow_next n
  refine ⟨hsorted, hsorted.imp Before.ne, ?_, ?_⟩
  · intro c
    simp only [List.mem_map, Prod.exists, exists_and_right, exists_eq_right,
      mem_levelsBelow_next hn]
  · rw [← map_snd_levelsBelow_next, List.forall₂_map_left_iff, List.forall₂_map_right_iff,
      List.forall₂_same]
    exact fun p hp => (mem_levelsBelow_next hn).1 hp

theorem exists_listing {ds : List (Derivation α)} (h : rs.derivations s = .ok ds) :
    ∃ chains, Listing rs.rules s chains ds := by
  obtain ⟨⟨n, hn, rfl⟩, -⟩ := derivations_eq_ok_iff_level.1 h
  exact ⟨_, listing_levelsBelow hn⟩

/-- The derivations found are the results of the guarded chains. -/
theorem mem_derivations_iff {ds : List (Derivation α)} (h : rs.derivations s = .ok ds)
    {d : Derivation α} : d ∈ ds ↔ ∃ c, GuardedChain rs.rules s c d := by
  obtain ⟨⟨n, hn, rfl⟩, -⟩ := derivations_eq_ok_iff_level.1 h
  simp only [← map_snd_levelsBelow_next, List.mem_map, Prod.exists, exists_eq_right,
    mem_levelsBelow_next hn]

/-- Beyond the length of all guarded chains the levels are empty. -/
theorem level_successors_eq_nil {n : ℕ}
    (hlength : ∀ c d, GuardedChain rs.rules s c d → c.length ≤ n) :
    level (Derivation.successors rs.rules) (.source s) (n+1) = [] := by
  have hempty : level (Chain.next rs.rules) ([], .source s) (n+1) = [] := by
    rw [List.eq_nil_iff_forall_not_mem]
    rintro ⟨c, d⟩ hcd
    obtain ⟨hc, hchain⟩ := Chain.mem_level_next.1 hcd
    have := hlength c d hchain
    omega
  rw [← map_snd_level_next, hempty, List.map_nil]

/-- A search comes to its end, be it with a fault, when the guarded chains are of bounded length. -/
theorem derivations_ne_unsettled_of_length_le {n : ℕ}
    (hlength : ∀ c d, GuardedChain rs.rules s c d → c.length ≤ n) :
    rs.derivations s ≠ .error .unsettled :=
  derivations_ne_unsettled_of_level (level_successors_eq_nil hlength)

/-- A search returns when the guarded chains are of bounded length and meet no fault. -/
theorem exists_derivations_of_length_le {n : ℕ}
    (hlength : ∀ c d, GuardedChain rs.rules s c d → c.length ≤ n)
    (hfault : ∀ c d, GuardedChain rs.rules s c d → d.fault? rs.rules = none) :
    ∃ ds, rs.derivations s = .ok ds := by
  have hn := level_successors_eq_nil hlength
  refine ⟨_, derivations_eq_ok_iff_level.2 ⟨⟨n+1, hn, rfl⟩, fun d hd => ?_⟩⟩
  rw [← map_snd_levelsBelow_next, List.mem_map] at hd
  obtain ⟨⟨c, e⟩, hce, rfl⟩ := hd
  obtain ⟨k, -, hk⟩ := mem_levelsBelow.1 hce
  exact hfault c e (Chain.mem_level_next.1 hk).2

theorem ends_iff : rs.Ends s ↔ ∃ ds, rs.derivations s = .ok ds := by
  constructor
  · intro h
    obtain ⟨n, hn⟩ := (h.finite.image List.length).bddAbove
    refine exists_derivations_of_length_le (n := n) ?_ ?_
    · exact fun c d hchain => hn ⟨c, ⟨d, hchain⟩, rfl⟩
    · exact fun c d hchain => Derivation.fault?_eq_none_iff.2 (h.fault?_eq c d hchain)
  · rintro ⟨ds, h⟩
    obtain ⟨chains, hlisting⟩ := exists_listing h
    refine ⟨?_, ?_⟩
    · refine chains.finite_toSet.subset ?_
      exact fun c hc => (hlisting.mem_iff c).2 hc
    · intro c d hchain
      have hd : d ∈ ds := (mem_derivations_iff h).2 ⟨c, hchain⟩
      exact Derivation.fault?_eq_none_iff.1 ((derivations_eq_ok_iff.1 h).2 d hd)

/-- The words found are the texts of the derivations, each once. -/
theorem deinflections_eq_ok_iff {rs : RuleSet Text} {s : Text} {words : List Text} :
    rs.deinflections s = .ok words ↔
      ∃ ds, rs.derivations s = .ok ds ∧ distinct (ds.map (·.text)) = words := by
  rw [deinflections, forms, map_eq_ok_iff]
  constructor
  · rintro ⟨fs, hfs, rfl⟩
    obtain ⟨ds, hds, rfl⟩ := map_eq_ok_iff.1 hfs
    exact ⟨ds, hds, by rw [List.map_map]; rfl⟩
  · rintro ⟨ds, hds, rfl⟩
    exact ⟨_, map_eq_ok_iff.2 ⟨ds, hds, rfl⟩, by rw [List.map_map]; rfl⟩

/-- A search returns exactly when the rewriting ends, and then it returns exactly the results of the
guarded chains, one for each chain, in the order of the chains. -/
theorem derivations_list_guarded_chains (rs : RuleSet α) (s : α) :
    (rs.Ends s ↔ ∃ ds, rs.derivations s = .ok ds) ∧
      ∀ ds, rs.derivations s = .ok ds → ∃ chains, Listing rs.rules s chains ds :=
  ⟨ends_iff, fun _ => exists_listing⟩

/-- Two rules that undo each other. -/
def backAndForth : RuleSet Text where
  transforms := [
    ⟨['f'], [⟨['f'], 0, 1, 1, .suffix ['a'] ['b']⟩]⟩,
    ⟨['b'], [⟨['b'], 0, 1, 1, .suffix ['b'] ['a']⟩]⟩]
  flags := [(['n'], 1)]

theorem derivations_backAndForth :
    backAndForth.derivations ['a'] = .ok [⟨['a'], 0, []⟩, ⟨['b'], 1, [⟨['f'], 0, ['a']⟩]⟩,
      ⟨['a'], 1, [⟨['b'], 0, ['b']⟩, ⟨['f'], 0, ['a']⟩]⟩] :=
  derivations_eq_ok_iff.2 ⟨by decide, by decide⟩

/-- The form comes back once; the step to it is not taken again. -/
theorem derivations_list_guarded_chains_of_backAndForth :
    ∃ ds chains, backAndForth.derivations ['a'] = .ok ds ∧ ds.length = 3 ∧
      Listing backAndForth.rules ['a'] chains ds :=
  have h := derivations_backAndForth
  have ⟨chains, hchains⟩ := (derivations_list_guarded_chains backAndForth ['a']).2 _ h
  ⟨_, chains, h, rfl, hchains⟩

end RuleSet
end Lexicon
