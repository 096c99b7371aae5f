import Lexicon.Text.Basic
import Mathlib.Data.List.Forall2
import Mathlib.Data.List.Nodup
import Mathlib.Data.List.Pairwise
import Mathlib.Data.List.Perm.Subperm

/-! Computations that may fail, taken apart when they succeed, compared when they end alike and measured
against a list of all that is wrong. Lists with the positions of their items, which a stable sort keeps in
order where it does not decide; such a sort goes together with leaving items out. Where members are kept
once, what is left out counts as one with what is kept. -/
namespace Lexicon

section
variable {α β ε : Type}

theorem bind_eq_ok_iff {x : Except ε α} {f : α → Except ε β} {b : β} :
    x >>= f = .ok b ↔ ∃ a, x = .ok a ∧ f a = .ok b := by
  cases x <;> simp [bind, Except.bind]

theorem map_eq_ok_iff {x : Except ε α} {f : α → β} {b : β} :
    x.map f = .ok b ↔ ∃ a, x = .ok a ∧ f a = b := by
  cases x <;> simp [Except.map]

theorem mapError_eq_ok_iff {ε' : Type} {x : Except ε α} {f : ε → ε'} {a : α} :
    x.mapError f = .ok a ↔ x = .ok a := by
  cases x <;> simp [Except.mapError]

/-- A traversal succeeds exactly when it succeeds item by item. -/
theorem mapM_eq_ok_iff {f : α → Except ε β} {xs : List α} {ys : List β} :
    xs.mapM f = .ok ys ↔ List.Forall₂ (fun x y => f x = .ok y) xs ys := by
  induction xs generalizing ys with
  | nil => cases ys <;> simp [pure, Except.pure]
  | cons x xs ih =>
    rw [List.mapM_cons, List.forall₂_cons_left_iff]
    constructor
    · intro h
      obtain ⟨y, hy, h⟩ := bind_eq_ok_iff.1 h
      obtain ⟨zs, hzs, h⟩ := bind_eq_ok_iff.1 h
      cases h
      exact ⟨y, zs, hy, ih.1 hzs, rfl⟩
    · rintro ⟨y, zs, hy, hzs, rfl⟩
      exact bind_eq_ok_iff.2 ⟨y, hy, bind_eq_ok_iff.2 ⟨zs, ih.2 hzs, rfl⟩⟩

theorem exists_mem_of_forall₂ {r : α → β → Prop} {xs : List α} {ys : List β}
    (h : List.Forall₂ r xs ys) {y : β} (hy : y ∈ ys) : ∃ x ∈ xs, r x y := by
  induction h with
  | nil => cases hy
  | @cons x y' xs ys hx _ ih =>
    rcases List.mem_cons.1 hy with rfl | hy
    · exact ⟨x, List.mem_cons_self .., hx⟩
    · obtain ⟨x, hmem, hx⟩ := ih hy
      exact ⟨x, List.mem_cons_of_mem _ hmem, hx⟩

/-- Items that are given by those of another list, which all have a property. -/
theorem forall₂_eq_and_iff {f : α → β} {p : α → Prop} {xs : List α} {ys : List β} :
    List.Forall₂ (fun x y => y = f x ∧ p x) xs ys ↔ ys = xs.map f ∧ ∀ x ∈ xs, p x := by
  induction xs generalizing ys with
  | nil => simp
  | cons x xs ih =>
    rw [List.forall₂_cons_left_iff]
    simp only [ih, List.map_cons, List.forall_mem_cons]
    constructor
    · rintro ⟨_, _, ⟨rfl, hx⟩, ⟨rfl, hxs⟩, rfl⟩
      exact ⟨rfl, hx, hxs⟩
    · rintro ⟨rfl, hx, hxs⟩
      exact ⟨_, _, ⟨rfl, hx⟩, ⟨rfl, hxs⟩, rfl⟩

theorem exists_mapM_eq_ok_iff {f : α → Except ε β} {xs : List α} :
    (∃ ys, xs.mapM f = .ok ys) ↔ ∀ x ∈ xs, ∃ y, f x = .ok y := by
  induction xs with
  | nil => exact ⟨fun _ => List.forall_mem_nil _, fun _ => ⟨[], rfl⟩⟩
  | cons x xs ih =>
    rw [List.forall_mem_cons, ← ih]
    simp only [List.mapM_cons]
    constructor
    · rintro ⟨_, h⟩
      obtain ⟨y, hy, h⟩ := bind_eq_ok_iff.1 h
      obtain ⟨ys, hys, -⟩ := bind_eq_ok_iff.1 h
      exact ⟨⟨y, hy⟩, ys, hys⟩
    · rintro ⟨⟨y, hy⟩, ys, hys⟩
      exact ⟨y :: ys, bind_eq_ok_iff.2 ⟨y, hy, bind_eq_ok_iff.2 ⟨ys, hys, rfl⟩⟩⟩

/-- A traversal that gives results gives those of the items, one after the other. -/
theorem mapM_eq_some_iff {f : α → Option β} {xs : List α} {ys : List β} :
    xs.mapM f = some ys ↔ xs.map f = ys.map some := by
  induction xs generalizing ys with
  | nil => cases ys <;> simp
  | cons x xs ih =>
    simp only [List.mapM_cons, Option.bind_eq_bind, Option.bind_eq_some_iff, Option.pure_def,
      Option.some.injEq, ih]
    cases ys with
    | nil => simp
    | cons y ys => simp

theorem mem_iff_of_mapM_eq_some {f : α → Option β} {xs : List α} {ys : List β}
    (h : xs.mapM f = some ys) {y : β} : y ∈ ys ↔ ∃ x ∈ xs, f x = some y := by
  rw [← List.mem_map, mapM_eq_some_iff.1 h]
  simp

theorem exists_mapM_eq_some_iff {f : α → Option β} {xs : List α} :
    (∃ ys, xs.mapM f = some ys) ↔ ∀ x ∈ xs, ∃ y, f x = some y := by
  induction xs with
  | nil => simp
  | cons x xs ih =>
    rw [List.forall_mem_cons, ← ih]
    simp only [List.mapM_cons, Option.bind_eq_bind, Option.bind_eq_some_iff, Option.pure_def,
      Option.some.injEq]
    constructor
    · rintro ⟨_, y, hy, ys, hys, rfl⟩
      exact ⟨⟨y, hy⟩, ys, hys⟩
    · rintro ⟨⟨y, hy⟩, ys, hys⟩
      exact ⟨y :: ys, y, hy, ys, hys, rfl⟩

end

section Agree
variable {α β γ δ ε ε' κ : Type} {kind : ε → κ} {r : α → β → Prop} {x : Except ε α} {y : Except ε β}

/-- Two computations agree: both give results, which are related, or both fail for reasons of one
kind. -/
inductive Agree (kind : ε → κ) (r : α → β → Prop) : Except ε α → Except ε β → Prop
  | ok {a b} (h : r a b) : Agree kind r (.ok a) (.ok b)
  | error {e e'} (h : kind e = kind e') : Agree kind r (.error e) (.error e')

theorem Agree.refl (kind : ε → κ) (x : Except ε α) : Agree kind (· = ·) x x := by
  cases x with
  | ok => exact .ok rfl
  | error => exact .error rfl

theorem Agree.bind {s : γ → δ → Prop} {f : α → Except ε γ} {g : β → Except ε δ}
    (h : Agree kind r x y) (hnext : ∀ a b, r a b → Agree kind s (f a) (g b)) :
    Agree kind s (x >>= f) (y >>= g) := by
  cases h with
  | ok h => exact hnext _ _ h
  | error h => exact .error h

theorem Agree.mapError {kind' : ε' → κ} {f : ε → ε'} (hf : ∀ e, kind' (f e) = kind e)
    (h : Agree kind r x y) : Agree kind' r (x.mapError f) (y.mapError f) := by
  cases h with
  | ok h => exact .ok h
  | error h => exact .error (by rw [hf, hf, h])

/-- The same computation, or another one that gives the same results, in place of each. -/
theorem Agree.of_eq {x' : Except ε α} {y' : Except ε β} (hx : Agree kind (· = ·) x x')
    (hy : Agree kind (· = ·) y y') (h : Agree kind r x' y') : Agree kind r x y := by
  cases h with
  | ok h =>
    cases hx with | ok hx =>
    cases hy with | ok hy =>
    exact .ok (hx ▸ hy ▸ h)
  | error h =>
    cases hx with | error hx =>
    cases hy with | error hy =>
    exact .error (hx.trans (h.trans hy.symm))

end Agree

section Reports
variable {α β ε ε' : Type} {p : α → Prop} {q : β → Prop} {defects defects' : List ε}
  {x : Except ε α}

/-- A computation reports defects: it gives a right result where there are none, and else it fails for
the first of them. -/
inductive Reports (p : α → Prop) : List ε → Except ε α → Prop
  | ok {a} (h : p a) : Reports p [] (.ok a)
  | error (e : ε) (rest : List ε) : Reports p (e :: rest) (.error e)

theorem Reports.mono {p' : α → Prop} (h : Reports p defects x) (himp : ∀ a, p a → p' a) :
    Reports p' defects x := by
  cases h with
  | ok h => exact .ok (himp _ h)
  | error e rest => exact .error e rest

/-- What is computed next adds its defects behind those that have been found. -/
theorem Reports.bind {f : α → Except ε β} (h : Reports p defects x)
    (hnext : ∀ a, p a → Reports q defects' (f a)) : Reports q (defects ++ defects') (x >>= f) := by
  cases h with
  | ok h => exact hnext _ h
  | error e rest => exact .error e (rest ++ defects')

/-- What is made of a result has no defects of its own. -/
theorem Reports.map {g : α → β} (h : Reports p defects x) (himp : ∀ a, p a → q (g a)) :
    Reports q defects (x >>= fun a => pure (g a)) := by
  cases h with
  | ok h => exact .ok (himp _ h)
  | error e rest => exact .error e rest

theorem Reports.mapError {f : ε → ε'} (h : Reports p defects x) :
    Reports p (defects.map f) (x.mapError f) := by
  cases h with
  | ok h => exact .ok h
  | error e rest => exact .error (f e) (rest.map f)

/-- A traversal reports the defects of the items, one item after the other. -/
theorem Reports.mapM {r : α → β → Prop} {found : α → List ε} {f : α → Except ε β} {xs : List α}
    (h : ∀ a ∈ xs, Reports (r a) (found a) (f a)) :
    Reports (List.Forall₂ r xs) (xs.flatMap found) (xs.mapM f) := by
  induction xs with
  | nil => exact .ok .nil
  | cons a xs ih =>
    obtain ⟨ha, hxs⟩ := List.forall_mem_cons.1 h
    rw [List.mapM_cons, List.flatMap_cons]
    exact ha.bind fun b hb => (ih hxs).map fun bs hbs => .cons hb hbs

theorem Reports.exists_ok_iff (h : Reports p defects x) : (∃ a, x = .ok a) ↔ defects = [] := by
  cases h with
  | ok h => exact iff_of_true ⟨_, rfl⟩ rfl
  | error e rest => exact iff_of_false (fun ⟨a, ha⟩ => nomatch ha) (List.cons_ne_nil e rest)

theorem Reports.of_eq_ok {a : α} (h : Reports p defects x) (hx : x = .ok a) : p a := by
  cases h with
  | ok h =>
    cases hx
    exact h
  | error e rest => cases hx

theorem Reports.eq_error_iff {e : ε} (h : Reports p defects x) :
    x = .error e ↔ defects.head? = some e := by
  cases h with
  | ok h => exact iff_of_false (fun hx => nomatch hx) (fun hhead => nomatch hhead)
  | error e' rest => rw [List.head?_cons, Except.error.injEq, Option.some.injEq]

end Reports

section
variable {α : Type} {r : α → α → Prop} {xs : List α}

/-- Of two elements of a list, one stands before the other. -/
theorem rel_or_rel_of_pairwise {x y : α} (h : xs.Pairwise r) (hx : x ∈ xs) (hy : y ∈ xs)
    (hne : x ≠ y) : r x y ∨ r y x := by
  have : Std.Symm fun a b => r a b ∨ r b a := ⟨fun _ _ => Or.symm⟩
  have hor : xs.Pairwise fun a b => r a b ∨ r b a := h.imp Or.inl
  exact hor.forall hx hy hne

/-- A sublist of distinct items is decided by its members. -/
theorem eq_filter_of_sublist {xs' : List α} {p : α → Bool} (h : xs'.Sublist xs)
    (hxs : xs.Nodup) (hp : ∀ a, a ∈ xs' ↔ a ∈ xs ∧ p a = true) : xs' = xs.filter p := by
  have hself : xs'.filter p = xs' := List.filter_eq_self.2 fun a ha => ((hp a).1 ha).2
  have hfront : xs'.Sublist (xs.filter p) := hself ▸ h.filter p
  have hback : xs.filter p ⊆ xs' := fun a ha => (hp a).2 (List.mem_filter.1 ha)
  exact hfront.eq_of_length_le (List.subperm_of_subset (hxs.filter p) hback).length_le

theorem pairwise_snd_lt_zipIdx (xs : List α) : xs.zipIdx.Pairwise fun p q => p.2 < q.2 := by
  rw [← List.pairwise_map, List.zipIdx_map_snd]
  exact List.pairwise_lt_range'

/-- A stable sort keeps the order of items that compare alike. -/
theorem pairwise_mergeSort_of_pairwise (le : α → α → Bool)
    (htrans : ∀ a b c, le a b = true → le b c = true → le a c = true)
    (htotal : ∀ a b, (le a b || le b a) = true) (hxs : xs.Pairwise r) :
    (xs.mergeSort le).Pairwise fun a b => le a b = true ∧ (le b a = true → r a b) := by
  have hsorted := List.pairwise_mergeSort (List.zipIdxLE_trans htrans) (List.zipIdxLE_total htotal)
    xs.zipIdx
  have hpositions : (xs.zipIdx.mergeSort (List.zipIdxLE le)).Pairwise fun p q => p.2 ≠ q.2 :=
    ((List.mergeSort_perm _ _).pairwise_iff fun h => h.symm).2
      ((pairwise_snd_lt_zipIdx xs).imp Nat.ne_of_lt)
  rw [← List.mergeSort_zipIdx, List.pairwise_map]
  refine (hsorted.and hpositions).imp_of_mem ?_
  rintro ⟨a, i⟩ ⟨b, j⟩ ha hb ⟨hle, hne⟩
  rw [List.mem_mergeSort, List.mk_mem_zipIdx_iff_getElem?] at ha hb
  by_cases hab : le a b = true
  · refine ⟨hab, fun hba => ?_⟩
    have hij : i ≤ j := by simpa [List.zipIdxLE, hab, hba] using hle
    obtain ⟨hi, rfl⟩ := List.getElem?_eq_some_iff.1 ha
    obtain ⟨hj, rfl⟩ := List.getElem?_eq_some_iff.1 hb
    exact List.pairwise_iff_getElem.1 hxs i j hi hj (Nat.lt_of_le_of_ne hij hne)
  · simp [List.zipIdxLE, hab] at hle

/-- Leaving items out and sorting the others may be done in either order. -/
theorem filter_mergeSort (le : α → α → Bool)
    (htrans : ∀ a b c, le a b = true → le b c = true → le a c = true)
    (htotal : ∀ a b, (le a b || le b a) = true) (p : α → Bool) (xs : List α) :
    (xs.mergeSort le).filter p = (xs.filter p).mergeSort le := by
  -- with their positions, no two items compare alike, so only one order is sorted
  let le' (a b : α × ℕ) : Bool := le a.1 b.1
  let p' (a : α × ℕ) : Bool := p a.1
  have hmap (ys : List (α × ℕ)) :
      (ys.mergeSort le').map Prod.fst = (ys.map Prod.fst).mergeSort le :=
    List.map_mergeSort fun _ _ _ _ => rfl
  have hfilter (ys : List (α × ℕ)) : (ys.filter p').map Prod.fst = (ys.map Prod.fst).filter p :=
    List.filter_map.symm
  have hsorted {ys : List (α × ℕ)} (hys : ys.Pairwise fun a b => a.2 < b.2) :
      (ys.mergeSort le').Pairwise fun a b => le' a b = true ∧ (le' b a = true → a.2 < b.2) :=
    pairwise_mergeSort_of_pairwise le' (fun a b c => htrans a.1 b.1 c.1)
      (fun a b => htotal a.1 b.1) hys
  have hpositions := pairwise_snd_lt_zipIdx xs
  have heq : (xs.zipIdx.mergeSort le').filter p' = (xs.zipIdx.filter p').mergeSort le' := by
    refine List.Perm.eq_of_pairwise ?_ ((hsorted hpositions).filter p')
      (hsorted (hpositions.filter p')) ?_
    · rintro a b - - ⟨hab, hlt⟩ ⟨hba, hlt'⟩
      exact absurd (hlt hba) (Nat.lt_asymm (hlt' hab))
    · exact ((List.mergeSort_perm _ _).filter p').trans (List.mergeSort_perm _ _).symm
  calc (xs.mergeSort le).filter p
      = ((xs.zipIdx.mergeSort le').filter p').map Prod.fst := by
        rw [hfilter, hmap, List.zipIdx_map_fst]
    _ = ((xs.zipIdx.filter p').mergeSort le').map Prod.fst := by rw [heq]
    _ = (xs.filter p).mergeSort le := by rw [hmap, hfilter, List.zipIdx_map_fst]

end

section Distinct

variable {α : Type} {same : α → α → Bool} {l : List α} {a b : α}

theorem distinctBy_sublist (same : α → α → Bool) (l : List α) : (distinctBy same l).Sublist l := by
  induction l with
  | nil => exact .slnil
  | cons a l ih => exact (List.filter_sublist.trans ih).cons_cons a

theorem mem_of_mem_distinctBy (h : a ∈ distinctBy same l) : a ∈ l :=
  (distinctBy_sublist same l).mem h

theorem pairwise_distinctBy (same : α → α → Bool) (l : List α) :
    (distinctBy same l).Pairwise fun a b => same a b = false := by
  induction l with
  | nil => exact List.Pairwise.nil
  | cons a l ih =>
    refine List.pairwise_cons.2 ⟨fun b hb => ?_, ih.filter _⟩
    simpa using (List.mem_filter.1 hb).2

/-- What is kept stands before what it is kept for. -/
theorem rel_of_mem_distinctBy {r : α → α → Prop} (hl : l.Pairwise r)
    (hsymm : ∀ x ∈ l, ∀ y ∈ l, same x y = true → same y x = true) (ha : a ∈ distinctBy same l)
    (hb : b ∈ l) (hab : same a b = true) : a = b ∨ r a b := by
  induction l with
  | nil => cases hb
  | cons c l ih =>
    obtain ⟨hc, hl⟩ := List.pairwise_cons.1 hl
    have hsymm' : ∀ x ∈ l, ∀ y ∈ l, same x y = true → same y x = true := fun x hx y hy =>
      hsymm x (List.mem_cons_of_mem _ hx) y (List.mem_cons_of_mem _ hy)
    rcases List.mem_cons.1 ha with rfl | ha
    · rcases List.mem_cons.1 hb with rfl | hb
      · exact .inl rfl
      · exact .inr (hc b hb)
    · obtain ⟨hkept, hca⟩ := List.mem_filter.1 ha
      rcases List.mem_cons.1 hb with rfl | hb
      · have hmem := List.mem_cons_of_mem b (mem_of_mem_distinctBy hkept)
        rw [hsymm a hmem b (List.mem_cons_self ..) hab] at hca
        cases hca
      · exact ih hl hsymm' hkept hb

/-- A property that goes from members to those they are left out for shows in what is kept. -/
theorem any_distinctBy {p : α → Bool}
    (h : ∀ x ∈ l, ∀ y ∈ l, same x y = true → p y = true → p x = true) :
    (distinctBy same l).any p = l.any p := by
  induction l with
  | nil => rfl
  | cons b l ih =>
    have ih := ih fun x hx y hy => h x (List.mem_cons_of_mem _ hx) y (List.mem_cons_of_mem _ hy)
    rw [distinctBy, List.any_cons, List.any_cons, ← ih, List.any_filter]
    by_cases hb : p b = true
    · rw [hb, Bool.true_or, Bool.true_or]
    · congr 1
      rw [Bool.eq_iff_iff, List.any_eq_true, List.any_eq_true]
      refine exists_congr fun y => and_congr_right fun hy => ?_
      rw [Bool.and_eq_true, and_iff_right_iff_imp, Bool.not_eq_true', ← Bool.not_eq_true]
      intro hpy hby
      have hy' := List.mem_cons_of_mem b (mem_of_mem_distinctBy hy)
      exact hb (h b (List.mem_cons_self ..) y hy' hby hpy)

/-- One more member is kept unless it counts as one with an earlier member. -/
theorem distinctBy_concat (same : α → α → Bool) (l : List α) (a : α) :
    distinctBy same (l ++ [a]) =
      if l.any (same · a) then distinctBy same l else distinctBy same l ++ [a] := by
  induction l with
  | nil => rfl
  | cons b l ih =>
    rw [List.cons_append, distinctBy, ih, distinctBy, List.any_cons]
    cases hba : same b a <;> cases hla : l.any (same · a) <;> simp [hba]

/-- First occurrences follow a map under which no two members become one. -/
theorem distinct_map {β : Type} [DecidableEq α] [DecidableEq β] {f : α → β}
    (hf : Function.Injective f) (l : List α) : distinct (l.map f) = (distinct l).map f := by
  induction l with
  | nil => rfl
  | cons a l ih =>
    rw [List.map_cons, distinct, distinct, ih, List.map_cons, List.filter_map]
    simp only [Function.comp_def, ne_eq, hf.eq_iff]

end Distinct

end Lexicon
