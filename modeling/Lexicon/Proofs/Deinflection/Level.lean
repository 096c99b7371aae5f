import Mathlib.Data.List.Flatten
import Mathlib.Data.List.Infix

/-! Lists in which every member is followed, further on, by its successors. Such a list is cut into
levels: what is found after exactly so many steps. It is finite exactly when a level is empty. -/
namespace Lexicon

variable {β γ : Type*}

/-- What is found after exactly so many steps, in order. -/
def level (next : β → List β) (start : β) : ℕ → List β
  | 0 => [start]
  | n+1 => (level next start n).flatMap next

/-- What is found in fewer steps, one level after the other. -/
def levelsBelow (next : β → List β) (start : β) (n : ℕ) : List β :=
  (List.range n).flatMap (level next start)

section
variable {next : β → List β} {start : β}

theorem levelsBelow_succ (n : ℕ) :
    levelsBelow next start (n+1) = levelsBelow next start n ++ level next start n := by
  simp [levelsBelow, List.range_succ, List.flatMap_append]

theorem levelsBelow_succ_eq_cons (n : ℕ) :
    levelsBelow next start (n+1) = start :: (levelsBelow next start n).flatMap next := by
  induction n with
  | zero => simp [levelsBelow, level]
  | succ n ih =>
    calc levelsBelow next start (n+1+1)
        = levelsBelow next start (n+1) ++ level next start (n+1) := levelsBelow_succ (n+1)
      _ = start :: (levelsBelow next start n).flatMap next ++ (level next start n).flatMap next := by
          rw [ih, level]
      _ = start :: (levelsBelow next start (n+1)).flatMap next := by
          rw [levelsBelow_succ, List.flatMap_append, List.cons_append]

theorem mem_levelsBelow {n : ℕ} {b : β} :
    b ∈ levelsBelow next start n ↔ ∃ k < n, b ∈ level next start k := by
  simp [levelsBelow]

/-- Nothing is found beyond an empty level. -/
theorem level_eq_nil_of_le {m n : ℕ} (hm : level next start m = []) (hmn : m ≤ n) :
    level next start n = [] := by
  induction hmn with
  | refl => exact hm
  | step _ ih => simp [level, ih]

/-- The levels below an empty one make a list that its own successors complete. -/
theorem levelsBelow_eq_cons {n : ℕ} (h : level next start n = []) :
    levelsBelow next start n = start :: (levelsBelow next start n).flatMap next := by
  rw [← levelsBelow_succ_eq_cons, levelsBelow_succ, h, List.append_nil]

theorem levelsBelow_prefix_of_eq_cons {l : List β} (h : l = start :: l.flatMap next) (n : ℕ) :
    levelsBelow next start n <+: l := by
  induction n with
  | zero => exact List.nil_prefix
  | succ n ih =>
    rw [levelsBelow_succ_eq_cons, h]
    exact (List.prefix_cons_inj start).2 (ih.flatMap next)

theorem le_length_levelsBelow {n : ℕ} (h : ∀ k < n, level next start k ≠ []) :
    n ≤ (levelsBelow next start n).length := by
  induction n with
  | zero => exact Nat.zero_le _
  | succ n ih =>
    have hn := List.length_pos_of_ne_nil (h n (Nat.lt_succ_self n))
    have hbelow := ih fun k hk => h k (by omega)
    rw [levelsBelow_succ, List.length_append]
    omega

/-- A list of which every member follows another one of smaller rank is empty. -/
theorem eq_nil_of_flatMap_eq_self {rank : β → ℕ} (hrank : ∀ b, ∀ c ∈ next b, rank b < rank c)
    {l : List β} (h : l.flatMap next = l) : l = [] := by
  have hle : ∀ k, ∀ b ∈ l, k ≤ rank b := by
    intro k
    induction k with
    | zero => exact fun b _ => Nat.zero_le _
    | succ k ih =>
      intro c hc
      rw [← h, List.mem_flatMap] at hc
      obtain ⟨b, hb, hbc⟩ := hc
      exact Nat.lt_of_le_of_lt (ih b hb) (hrank b c hbc)
  rw [List.eq_nil_iff_forall_not_mem]
  intro b hb
  exact absurd (hle (rank b + 1) b hb) (by omega)

/-- Only one list is completed by its own successors, if steps raise a rank. -/
theorem eq_of_prefix_of_eq_cons {rank : β → ℕ} (hrank : ∀ b, ∀ c ∈ next b, rank b < rank c)
    {l m : List β} (hl : l = start :: l.flatMap next) (hm : m = start :: m.flatMap next)
    (h : l <+: m) : l = m := by
  obtain ⟨rest, rfl⟩ := h
  have hclosed : rest.flatMap next = rest := by
    rw [List.flatMap_append, ← List.cons_append, ← hl] at hm
    exact (List.append_cancel_left hm).symm
  rw [eq_nil_of_flatMap_eq_self hrank hclosed, List.append_nil]

/-- A list completed by its own successors consists of the levels below an empty one. -/
theorem exists_eq_levelsBelow {rank : β → ℕ} (hrank : ∀ b, ∀ c ∈ next b, rank b < rank c)
    {l : List β} (h : l = start :: l.flatMap next) :
    ∃ n, level next start n = [] ∧ l = levelsBelow next start n := by
  obtain ⟨n, hn⟩ : ∃ n, level next start n = [] := by
    by_contra hne
    push Not at hne
    have hlong := le_length_levelsBelow (n := l.length + 1) fun k _ => hne k
    have hshort := (levelsBelow_prefix_of_eq_cons h (l.length + 1)).length_le
    omega
  exact ⟨n, hn, (eq_of_prefix_of_eq_cons hrank (levelsBelow_eq_cons hn) h
    (levelsBelow_prefix_of_eq_cons h n)).symm⟩

end

/-- Levels follow a map that commutes with taking successors. -/
theorem map_level {next : β → List β} {next' : γ → List γ} {f : β → γ}
    (h : ∀ b, (next b).map f = next' (f b)) (start : β) (n : ℕ) :
    (level next start n).map f = level next' (f start) n := by
  induction n with
  | zero => rfl
  | succ n ih => simp only [level, ← ih, List.map_flatMap, List.flatMap_map, h]

/-- A map that turns successors into successors of its image, if not into all of them, does so with
levels. -/
theorem map_level_sublist {next : β → List β} {next' : γ → List γ} {f : β → γ}
    (h : ∀ b, ((next b).map f).Sublist (next' (f b))) (start : β) (n : ℕ) :
    ((level next start n).map f).Sublist (level next' (f start) n) := by
  induction n with
  | zero => exact List.Sublist.refl _
  | succ n ih =>
    have hnext : ((level next start n).flatMap fun b => (next b).map f).Sublist
        ((level next start n).flatMap fun b => next' (f b)) :=
      List.Sublist.flatMap_right _ fun b _ => h b
    have hlevel : (((level next start n).map f).flatMap next').Sublist
        ((level next' (f start) n).flatMap next') := ih.flatMap _
    rw [level, level, List.map_flatMap]
    rw [List.flatMap_map] at hlevel
    exact hnext.trans hlevel

theorem map_levelsBelow_sublist {next : β → List β} {next' : γ → List γ} {f : β → γ}
    (h : ∀ b, ((next b).map f).Sublist (next' (f b))) (start : β) (n : ℕ) :
    ((levelsBelow next start n).map f).Sublist (levelsBelow next' (f start) n) := by
  rw [levelsBelow, levelsBelow, List.map_flatMap]
  exact List.Sublist.flatMap_right _ fun k _ => map_level_sublist h start k

theorem map_levelsBelow {next : β → List β} {next' : γ → List γ} {f : β → γ}
    (h : ∀ b, (next b).map f = next' (f b)) (start : β) (n : ℕ) :
    (levelsBelow next start n).map f = levelsBelow next' (f start) n := by
  simp only [levelsBelow, List.map_flatMap, map_level h]

end Lexicon
