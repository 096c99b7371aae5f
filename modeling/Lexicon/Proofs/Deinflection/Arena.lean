import Lexicon.Proofs.Deinflection.Successor

/-! The growing list of a search. Going back from place to place gives the trace of a derivation;
adding a form leaves the earlier derivations as they are, so a visit adds the successors of one
derivation, and a finished scan holds the successors of all its members. -/
namespace Lexicon.Arena

open Lexicon.Derivation (successors)

section
variable {α : Type}

theorem trace_of_origin_eq_none {a : Arena α} {i : ℕ} {h : i < a.nodes.size}
    (ho : a.nodes[i].origin = none) : a.trace i h = [] := by
  rw [trace]
  split
  · rfl
  · simp_all

theorem trace_of_origin_eq_some {a : Arena α} {i p : ℕ} {r : Rule α} {h : i < a.nodes.size}
    (hp : p < a.nodes.size) (ho : a.nodes[i].origin = some (p, r)) :
    a.trace i h = r.frame a.nodes[p].text :: a.trace p hp := by
  rw [trace]
  split
  · simp_all
  · rename_i q s hqs
    obtain ⟨rfl, rfl⟩ : q = p ∧ s = r := by simpa [hqs] using ho
    rfl

@[simp] theorem size_add (a : Arena α) (i : ℕ) (h : i < a.nodes.size) (r : Rule α) (t : α) :
    (a.add i h r t).nodes.size = a.nodes.size + 1 := by
  simp [add]

theorem getElem_add_of_lt {a : Arena α} {i j : ℕ} {h : i < a.nodes.size} {r : Rule α} {t : α}
    (hj : j < a.nodes.size) (hj' : j < (a.add i h r t).nodes.size) :
    (a.add i h r t).nodes[j] = a.nodes[j] := by
  simp [add, Array.getElem_push_lt hj]

theorem getElem_add_size {a : Arena α} {i : ℕ} {h : i < a.nodes.size} {r : Rule α} {t : α}
    (hj : a.nodes.size < (a.add i h r t).nodes.size) :
    (a.add i h r t).nodes[a.nodes.size] = ⟨t, r.conditionsOut, some (i, r)⟩ := by
  simp [add]

/-- The way back from an earlier place does not lead past what is added. -/
theorem trace_add_of_lt {a : Arena α} {i : ℕ} {h : i < a.nodes.size} {r : Rule α} {t : α} (j : ℕ)
    (hj : j < a.nodes.size) (hj' : j < (a.add i h r t).nodes.size) :
    (a.add i h r t).trace j hj' = a.trace j hj := by
  induction j using Nat.strongRecOn with
  | ind j ih =>
    have hnode := getElem_add_of_lt (h := h) (r := r) (t := t) hj hj'
    cases ho : a.nodes[j].origin with
    | none => rw [trace_of_origin_eq_none ho, trace_of_origin_eq_none (hnode ▸ ho)]
    | some origin =>
      obtain ⟨p, q⟩ := origin
      have hp : p < j := a.origin_lt j hj p q ho
      have hpa : p < a.nodes.size := Nat.lt_trans hp hj
      have hpb : p < (a.add i h r t).nodes.size := Nat.lt_trans hp hj'
      rw [trace_of_origin_eq_some hpa ho, trace_of_origin_eq_some hpb (hnode ▸ ho),
        getElem_add_of_lt hpa hpb, ih p hp hpa hpb]

theorem derivation_add_of_lt {a : Arena α} {i j : ℕ} {h : i < a.nodes.size} {r : Rule α} {t : α}
    (hj : j < a.nodes.size) (hj' : j < (a.add i h r t).nodes.size) :
    (a.add i h r t).derivation j hj' = a.derivation j hj := by
  simp only [derivation, getElem_add_of_lt hj hj', trace_add_of_lt j hj hj']

theorem derivation_add_size {a : Arena α} {i : ℕ} {h : i < a.nodes.size} {r : Rule α} {t : α}
    (hj : a.nodes.size < (a.add i h r t).nodes.size) :
    (a.add i h r t).derivation a.nodes.size hj =
      ⟨t, r.conditionsOut, r.frame a.nodes[i].text :: a.trace i h⟩ := by
  have hi : i < (a.add i h r t).nodes.size := by simp; omega
  have ho : (a.add i h r t).nodes[a.nodes.size].origin = some (i, r) := by
    rw [getElem_add_size hj]
  simp only [derivation, getElem_add_size hj, trace_of_origin_eq_some hi ho, getElem_add_of_lt h hi,
    trace_add_of_lt i h hi]

@[simp] theorem length_derivations (a : Arena α) : a.derivations.length = a.nodes.size := by
  simp [derivations]

theorem getElem_derivations {a : Arena α} {i : ℕ} (h : i < a.derivations.length) :
    a.derivations[i] = a.derivation i (by simpa using h) := by
  simp [derivations]

theorem take_succ_derivations {a : Arena α} {i : ℕ} (h : i < a.nodes.size) :
    a.derivations.take (i+1) = a.derivations.take i ++ [a.derivation i h] := by
  have hi : i < a.derivations.length := by simpa using h
  rw [List.take_succ_eq_append_getElem hi, getElem_derivations]

theorem derivations_source (s : α) : (source s).derivations = [.source s] := by
  have h : 0 < (source s).nodes.size := Nat.zero_lt_one
  have ho : (source s).nodes[0].origin = none := rfl
  have hd : (source s).derivation 0 h = .source s := by
    rw [derivation, trace_of_origin_eq_none ho]
    rfl
  simpa [derivations, source] using hd

/-- Adding a form adds its derivation and leaves the others alone. -/
theorem derivations_add (a : Arena α) (i : ℕ) (h : i < a.nodes.size) (r : Rule α) (t : α) :
    (a.add i h r t).derivations =
      a.derivations ++ [⟨t, r.conditionsOut, r.frame a.nodes[i].text :: a.trace i h⟩] := by
  apply List.ext_getElem
  · simp
  · intro j hj _
    rw [getElem_derivations, List.getElem_append]
    split
    · rename_i hlt
      rw [getElem_derivations, derivation_add_of_lt (by simpa using hlt)]
    · rename_i hge
      obtain rfl : j = a.nodes.size := by simp at hj hge; omega
      simp [derivation_add_size]

end

section
variable {α : Type} [WordForm α]

/-- Going back looks for a step in the trace. -/
theorem hasTaken_eq (a : Arena α) (step : Frame α) (i : ℕ) (h : i < a.nodes.size) :
    a.hasTaken step i h = (a.trace i h).any (·.same step) := by
  induction i using Nat.strongRecOn with
  | ind i ih =>
    rw [hasTaken]
    split
    · rename_i ho
      simp [trace_of_origin_eq_none ho]
    · rename_i p r ho
      have hp : p < i := a.origin_lt i h p r ho
      simp [trace_of_origin_eq_some (Nat.lt_trans hp h) ho, ih p hp]

theorem result?_eq_error {a : Arena α} {i : ℕ} {h : i < a.nodes.size} {r : Rule α}
    {fault : FormFault} (hfault : r.fault? (a.derivation i h) = some fault) :
    a.result? i h r = .error fault := by
  by_cases hadmits : r.admits a.nodes[i].conditions = true
  · have hkind : WordForm.fault? r.kind a.nodes[i].text = some fault := by
      simpa [Rule.fault?, derivation, hadmits] using hfault
    simp [result?, hadmits, hkind]
  · simp [Rule.fault?, derivation, hadmits] at hfault

/-- A rule that is at no fault gives the text of the derivation one step further. -/
theorem result?_eq_ok {a : Arena α} {i : ℕ} {h : i < a.nodes.size} {r : Rule α}
    (hfault : r.fault? (a.derivation i h) = none) :
    a.result? i h r = .ok ((r.extend? (a.derivation i h)).map (·.text)) := by
  by_cases hadmits : r.admits a.nodes[i].conditions = true
  · have hkind : WordForm.fault? r.kind a.nodes[i].text = none := by
      simpa [Rule.fault?, derivation, hadmits] using hfault
    cases hd : WordForm.deinflect r.kind a.nodes[i].text with
    | none => simp [result?, Rule.extend?, derivation, hadmits, hkind, hd]
    | some t =>
      by_cases hany : (a.trace i h).any (·.same (r.frame a.nodes[i].text)) = true
      · simp [result?, Rule.extend?, derivation, hadmits, hkind, hd, hasTaken_eq, hany]
      · simp [result?, Rule.extend?, derivation, hadmits, hkind, hd, hasTaken_eq, hany]
  · simp [result?, Rule.extend?, derivation, hadmits]

/-- A visit adds the successors of one derivation, unless a rule is at fault with its form. -/
theorem visit_eq (rules : List (Rule α)) (a : Arena α) (i : ℕ) (h : i < a.nodes.size) :
    (visit i rules a h).map derivations =
      match Derivation.fault? rules (a.derivation i h) with
      | some fault => .error fault
      | none => .ok (a.derivations ++ successors rules (a.derivation i h)) := by
  induction rules generalizing a with
  | nil => simp [visit, Derivation.fault?, successors, Except.map]
  | cons r rest ih =>
    cases hfault : r.fault? (a.derivation i h) with
    | some fault =>
      rw [visit, result?_eq_error hfault]
      simp [Derivation.fault?, hfault, Except.map]
    | none =>
      cases he : r.extend? (a.derivation i h) with
      | none =>
        rw [visit, result?_eq_ok hfault, he]
        simpa [Derivation.fault?, successors, hfault, he] using ih a h
      | some e =>
        have hi : i < (a.add i h r e.text).nodes.size := by simp; omega
        have hsame : (a.add i h r e.text).derivation i hi = a.derivation i h :=
          derivation_add_of_lt h hi
        have hnew : (a.add i h r e.text).derivations = a.derivations ++ [e] := by
          obtain ⟨-, -, hconditions, htrace, -⟩ := Rule.extend?_eq_some_iff.1 he
          obtain ⟨t, c, trace⟩ := e
          simp only at hconditions htrace
          rw [derivations_add, hconditions, htrace]
          rfl
        rw [visit, result?_eq_ok hfault, he]
        simpa [Derivation.fault?, successors, hfault, he, hsame, hnew] using ih _ hi

/-- The first forms have been visited: their successors, and nothing else, follow the source, and
none of them is at fault with a rule. -/
structure Visited (rules : List (Rule α)) (s : α) (a : Arena α) (i : ℕ) : Prop where
  le_size : i ≤ a.nodes.size
  derivations_eq : a.derivations = .source s :: (a.derivations.take i).flatMap (successors rules)
  fault?_eq : ∀ d ∈ a.derivations.take i, d.fault? rules = none

theorem visited_source (rules : List (Rule α)) (s : α) : Visited rules s (source s) 0 where
  le_size := Nat.zero_le _
  derivations_eq := by simp [derivations_source]
  fault?_eq := by simp

theorem derivations_of_visit {rules : List (Rule α)} {a b : Arena α} {i : ℕ} {h : i < a.nodes.size}
    (hv : visit i rules a h = .ok b) :
    (a.derivation i h).fault? rules = none ∧
      b.derivations = a.derivations ++ successors rules (a.derivation i h) := by
  have heq := visit_eq rules a i h
  rw [hv] at heq
  cases hfault : (a.derivation i h).fault? rules with
  | some fault => simp [hfault, Except.map] at heq
  | none => exact ⟨rfl, by simpa [hfault, Except.map] using heq⟩

theorem take_derivations_of_visit {rules : List (Rule α)} {a b : Arena α} {i : ℕ}
    {h : i < a.nodes.size} (hv : visit i rules a h = .ok b) :
    b.derivations.take (i+1) = a.derivations.take (i+1) := by
  have hi : i + 1 ≤ a.derivations.length := by rw [length_derivations]; omega
  rw [(derivations_of_visit hv).2, List.take_append_of_le_length hi]

/-- A visit takes the half-read list one form further. -/
theorem Visited.of_visit {rules : List (Rule α)} {s : α} {a b : Arena α} {i : ℕ}
    {h : i < a.nodes.size} (ha : Visited rules s a i) (hv : visit i rules a h = .ok b) :
    Visited rules s b (i+1) := by
  obtain ⟨hfault, hb⟩ := derivations_of_visit hv
  have htake := take_derivations_of_visit hv
  refine ⟨?_, ?_, ?_⟩
  · have hlen := congrArg List.length hb
    simp only [length_derivations, List.length_append] at hlen
    omega
  · rw [htake, take_succ_derivations h, List.flatMap_append, ← List.cons_append,
      ← ha.derivations_eq, hb]
    simp
  · rw [htake, take_succ_derivations h]
    intro d hd
    rcases List.mem_append.1 hd with hd | hd
    · exact ha.fault?_eq d hd
    · obtain rfl : d = a.derivation i h := by simpa using hd
      exact hfault

theorem scan_of_visit_eq_error {rules : List (Rule α)} {a : Arena α} {i : ℕ} {h : i < a.nodes.size}
    {fault : FormFault} (hv : visit i rules a h = .error fault) :
    Arena.scan rules a i = some (.error fault) := by
  rw [Arena.scan, dif_pos h, hv]

theorem scan_of_visit_eq_ok {rules : List (Rule α)} {a b : Arena α} {i : ℕ} {h : i < a.nodes.size}
    (hv : visit i rules a h = .ok b) : Arena.scan rules a i = Arena.scan rules b (i+1) := by
  rw [Arena.scan, dif_pos h, hv]

/-- A scan that ends has visited every form. -/
theorem Visited.of_scan {rules : List (Rule α)} {s : α} {a b : Arena α} {i : ℕ}
    (ha : Visited rules s a i) (h : scan rules a i = some (.ok b)) :
    Visited rules s b b.nodes.size := by
  refine scan.partial_correctness rules
    (fun a i result => ∀ b, result = .ok b → Visited rules s a i → Visited rules s b b.nodes.size)
    ?_ a i _ h b rfl ha
  intro scan ih a i result hresult b hb ha
  split at hresult
  · split at hresult
    · simp only [Option.some.injEq] at hresult
      rw [← hresult] at hb
      contradiction
    · rename_i grown hv
      exact ih grown (i+1) result hresult b hb (ha.of_visit hv)
  · simp only [Option.some.injEq] at hresult
    obtain rfl : a = b := by simpa [← hresult] using hb
    obtain rfl : i = a.nodes.size := by have := ha.le_size; omega
    exact ha

/-- A scan comes to its end if some list is completed by the successors of its members: it then holds
that list, or some form of the list is at fault with a rule. -/
theorem Visited.exists_scan {rules : List (Rule α)} {s : α} {l : List (Derivation α)}
    (hl : l = .source s :: l.flatMap (successors rules)) {a : Arena α} {i : ℕ}
    (ha : Visited rules s a i) (hinit : a.derivations <+: l) :
    (∃ fault, Arena.scan rules a i = some (.error fault) ∧ ∃ d ∈ l, d.fault? rules = some fault) ∨
      ∃ b, Arena.scan rules a i = some (.ok b) ∧ b.derivations = l := by
  induction hk : l.length - i using Nat.strongRecOn generalizing a i with
  | ind k ih =>
    by_cases h : i < a.nodes.size
    · have hi : i < a.derivations.length := by simpa using h
      have hsize := hinit.length_le
      have hd : a.derivation i h ∈ l :=
        hinit.subset (getElem_derivations hi ▸ List.getElem_mem hi)
      have heq := visit_eq rules a i h
      cases hv : visit i rules a h with
      | error fault =>
        rw [hv] at heq
        cases hfault : (a.derivation i h).fault? rules with
        | none => simp [hfault, Except.map] at heq
        | some fault' =>
          obtain rfl : fault = fault' := by simpa [hfault, Except.map] using heq
          exact .inl ⟨fault, scan_of_visit_eq_error hv, _, hd, hfault⟩
      | ok b =>
        have hb := ha.of_visit hv
        have hbl : b.derivations <+: l := by
          have htake : b.derivations.take (i+1) <+: l := by
            rw [take_derivations_of_visit hv]
            exact (List.take_prefix _ _).trans hinit
          rw [hb.derivations_eq, hl]
          exact (List.prefix_cons_inj _).2 (htake.flatMap _)
        rw [scan_of_visit_eq_ok hv]
        exact ih (l.length - (i+1)) (by omega) hb hbl rfl
    · -- nothing is left to visit, so the list found is complete
      have hsize : a.derivations.length ≤ i := by simpa using h
      have hcomplete := ha.derivations_eq
      rw [List.take_of_length_le hsize] at hcomplete
      exact .inr ⟨a, by rw [Arena.scan, dif_neg h],
        eq_of_prefix_of_eq_cons Derivation.length_trace_lt hcomplete hl hinit⟩

end
end Lexicon.Arena

namespace Lexicon.RuleSet

open Lexicon.Derivation (successors)

variable {α : Type} [WordForm α] {rs : RuleSet α} {s : α} {ds : List (Derivation α)}

/-- The derivations found are the source and their own successors, in order. -/
theorem derivations_eq_ok_iff :
    rs.derivations s = .ok ds ↔
      ds = .source s :: ds.flatMap (successors rs.rules) ∧ ∀ d ∈ ds, d.fault? rs.rules = none := by
  constructor
  · intro h
    unfold derivations at h
    split at h
    · contradiction
    · contradiction
    · rename_i found hscan
      have hfound := (Arena.visited_source rs.rules s).of_scan hscan
      have hall : found.derivations.take found.nodes.size = found.derivations :=
        List.take_of_length_le (by simp)
      obtain rfl : found.derivations = ds := by simpa using h
      have hcomplete := hfound.derivations_eq
      have hsound := hfound.fault?_eq
      rw [hall] at hcomplete hsound
      exact ⟨hcomplete, hsound⟩
  · rintro ⟨hl, hfault⟩
    have hinit : (Arena.source s).derivations <+: ds := by
      rw [Arena.derivations_source, hl]
      exact (List.prefix_cons_inj _).2 List.nil_prefix
    rcases (Arena.visited_source rs.rules s).exists_scan hl hinit with
      ⟨fault, -, d, hd, hd'⟩ | ⟨b, hscan, rfl⟩
    · rw [hfault d hd] at hd'
      cases hd'
    · simp [derivations, hscan]

/-- A search comes to its end, be it with a fault, when a level is empty. -/
theorem derivations_ne_unsettled_of_level {n : ℕ}
    (hn : level (successors rs.rules) (.source s) n = []) : rs.derivations s ≠ .error .unsettled := by
  have hl := levelsBelow_eq_cons hn
  have hinit : (Arena.source s).derivations <+: levelsBelow (successors rs.rules) (.source s) n := by
    rw [Arena.derivations_source, hl]
    exact (List.prefix_cons_inj _).2 List.nil_prefix
  rcases (Arena.visited_source rs.rules s).exists_scan hl hinit with
    ⟨fault, hscan, -⟩ | ⟨b, hscan, -⟩ <;> simp [derivations, hscan]

/-- The derivations found are those of the levels below an empty one. -/
theorem derivations_eq_ok_iff_level :
    rs.derivations s = .ok ds ↔
      (∃ n, level (successors rs.rules) (.source s) n = [] ∧
        ds = levelsBelow (successors rs.rules) (.source s) n) ∧
      ∀ d ∈ ds, d.fault? rs.rules = none := by
  rw [derivations_eq_ok_iff]
  refine and_congr_left fun _ => ⟨exists_eq_levelsBelow Derivation.length_trace_lt, ?_⟩
  rintro ⟨n, hn, rfl⟩
  exact levelsBelow_eq_cons hn

end Lexicon.RuleSet
