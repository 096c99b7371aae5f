import Lexicon.Language.Deinflection
import Lexicon.Proofs.Script.Kana
import Lexicon.Proofs.Text.LetterCase
import Mathlib.Data.List.TakeWhile

/-! The spellings under which a text is deinflected. They are normal forms that absorb each other: a later
form of an earlier one is the later form, and so is an earlier form of a later one. So the spellings of a
spelling are those from it on, and the last one stands alone. -/
namespace Lexicon

section Distinct

variable {α : Type} [DecidableEq α]

theorem distinct_append (l m : List α) :
    distinct (l ++ m) = distinct l ++ (distinct m).filter (· ∉ l) := by
  induction l with
  | nil => simp [distinct]
  | cons a l ih =>
    rw [List.cons_append, distinct, ih, distinct, List.filter_append, List.filter_filter,
      List.cons_append]
    simp only [List.mem_cons, not_or, Bool.decide_and, decide_not]

/-- Repeats before the first place are repeats behind it. -/
theorem distinct_append_cons_of_forall_eq {l : List α} {a : α} (h : ∀ b ∈ l, b = a) (m : List α) :
    distinct (l ++ a :: m) = distinct (a :: m) := by
  induction l with
  | nil => rfl
  | cons b l ih =>
    obtain ⟨rfl, hl⟩ := List.forall_mem_cons.1 h
    rw [List.cons_append, distinct, ih hl, distinct]
    simp

/-- From its last member on, a list without repeats is that member. -/
theorem dropWhile_ne_getLast {l : List α} (hl : l.Nodup) {a : α} (h : l.getLast? = some a) :
    l.dropWhile (· ≠ a) = [a] := by
  obtain ⟨front, rfl⟩ := List.getLast?_eq_some_iff.1 h
  have hfront : ∀ b ∈ front, decide (b ≠ a) = true := by
    intro b hb
    have hne := (List.nodup_append.1 hl).2.2 b hb a (List.mem_singleton.2 rfl)
    exact decide_eq_true hne
  rw [List.dropWhile_append_of_pos hfront]
  simp

end Distinct

section Absorbing

variable {α : Type}

/-- Maps to normal forms, each of which has nothing left to do after itself or a later one, and leaves a later
one what it had to do. -/
structure Absorbing (forms : List (α → α)) : Prop where
  idem : ∀ f ∈ forms, ∀ s, f (f s) = f s
  pairwise : forms.Pairwise fun f g => ∀ s, f (g s) = g s ∧ g (f s) = g s

theorem absorbing_id : Absorbing [(id : α → α)] where
  idem := by simp
  pairwise := List.pairwise_singleton _ _

/-- One normal form behind the text itself. -/
theorem absorbing_id_cons {f : α → α} (h : ∀ s, f (f s) = f s) : Absorbing [id, f] where
  idem := by simp [h]
  pairwise := by simp

variable [DecidableEq α]

/-- The normal forms of a normal form are those of the text from it on. -/
theorem Absorbing.distinct_map_eq {forms : List (α → α)} (h : Absorbing forms) {s v : α}
    (hv : v ∈ forms.map (· s)) :
    distinct (forms.map (· v)) = (distinct (forms.map (· s))).dropWhile (· ≠ v) := by
  obtain ⟨g, hg, hgv⟩ := List.mem_map.1 hv
  have hfound : (forms.find? fun f => f s = v).isSome = true :=
    List.find?_isSome.2 ⟨g, hg, decide_eq_true hgv⟩
  obtain ⟨f, hf⟩ := Option.isSome_iff_exists.1 hfound
  obtain ⟨hfv, before, after, rfl, hbefore⟩ := List.find?_eq_some_iff_append.1 hf
  obtain rfl : f s = v := of_decide_eq_true hfv
  have hfirst : ∀ b ∈ before, b s ≠ f s := fun b hb => by simpa using hbefore b hb
  obtain ⟨-, hpairs, hacross⟩ := List.pairwise_append.1 h.pairwise
  obtain ⟨hafter, -⟩ := List.pairwise_cons.1 hpairs
  have hself : f (f s) = f s := h.idem f (by simp) s
  -- what comes before the form has nothing left to do, and what comes after it does what it did
  have hold : ∀ w ∈ before.map (· (f s)), w = f s := by
    intro w hw
    obtain ⟨b, hb, rfl⟩ := List.mem_map.1 hw
    exact (hacross b hb f List.mem_cons_self s).1
  have hnew : after.map (· (f s)) = after.map (· s) :=
    List.map_congr_left fun a ha => (hafter a ha s).2
  -- no later form is an earlier one, since then the form would be that one too
  have hapart : ∀ w ∈ distinct (f s :: after.map (· s)), decide (w ∉ before.map (· s)) = true := by
    intro w hw
    refine decide_eq_true fun hmem => ?_
    obtain ⟨b, hb, rfl⟩ := List.mem_map.1 hmem
    rw [mem_distinct, List.mem_cons] at hw
    rcases hw with heq | hw
    · exact hfirst b hb heq
    · obtain ⟨a, ha, heq⟩ := List.mem_map.1 hw
      have hthrough : f (b s) = f s := (hacross b hb f List.mem_cons_self s).2
      have hlater : f (a s) = a s := (hafter a ha s).1
      refine hfirst b hb ?_
      calc b s = a s := heq.symm
        _ = f (a s) := hlater.symm
        _ = f s := by rw [show a s = b s from heq, hthrough]
  have hfront : ∀ w ∈ distinct (before.map (· s)), decide (w ≠ f s) = true := by
    intro w hw
    obtain ⟨b, hb, rfl⟩ := List.mem_map.1 (mem_distinct.1 hw)
    exact decide_eq_true (hfirst b hb)
  rw [List.map_append, List.map_append, List.map_cons, List.map_cons, hself, hnew,
    distinct_append_cons_of_forall_eq hold, distinct_append, List.filter_eq_self.2 hapart,
    List.dropWhile_append_of_pos hfront]
  simp [distinct]

end Absorbing

namespace Language

/-- The maps that make the spellings of a language. -/
def normalForms (l : Language) : List (Text → Text) :=
  if l = .japanese then [id, Kana.toHiragana, fun s => Kana.expandMarks (Kana.toHiragana s)]
  else if l = .arabic then [id, Arabic.stripMarks]
  else if l.hasCase then [id, Text.lowercase]
  else [id]

theorem spellings_eq_map (l : Language) (s : Text) : l.spellings s = l.normalForms.map (· s) := by
  unfold spellings normalForms
  repeat' split
  all_goals rfl

/-- Marks are expanded in hiragana, which stay hiragana. -/
theorem absorbing_kana :
    Absorbing [id, Kana.toHiragana, fun s => Kana.expandMarks (Kana.toHiragana s)] := by
  have hexpanded (s : Text) : Kana.toHiragana (Kana.expandMarks (Kana.toHiragana s)) =
      Kana.expandMarks (Kana.toHiragana s) :=
    Kana.toHiragana_expandMarks fun _ => Kana.not_isKatakana_of_mem_toHiragana
  constructor
  · simp [Kana.toHiragana_toHiragana, hexpanded, Kana.expandMarks_idem]
  · simp [Kana.toHiragana_toHiragana, hexpanded]

theorem absorbing_normalForms (l : Language) : Absorbing l.normalForms := by
  unfold normalForms
  split
  · exact absorbing_kana
  · split
    · exact absorbing_id_cons Arabic.stripMarks_idem
    · split
      · exact absorbing_id_cons Text.lowercase_idem
      · exact absorbing_id

/-- Variants are closed under normalisation. The text itself comes first and nothing repeats; the variants of
a variant are those of the text from it on; and the last one is its own only variant. -/
theorem variants_of_mem_variants (l : Language) (s : Text) :
    (l.variants s).head? = some s ∧ (l.variants s).Nodup ∧
      (∀ v ∈ l.variants s, l.variants v = (l.variants s).dropWhile (· ≠ v)) ∧
      ∃ v, (l.variants s).getLast? = some v ∧ l.variants v = [v] := by
  have htail : ∀ v ∈ l.variants s, l.variants v = (l.variants s).dropWhile (· ≠ v) := by
    intro v hv
    rw [variants, mem_distinct, spellings_eq_map] at hv
    rw [variants, variants, spellings_eq_map, spellings_eq_map]
    exact (absorbing_normalForms l).distinct_map_eq hv
  have hfirst := head?_variants l s
  have hnodup : (l.variants s).Nodup := nodup_distinct _
  refine ⟨hfirst, hnodup, htail, ?_⟩
  have hne : l.variants s ≠ [] := by
    intro hnil
    rw [hnil] at hfirst
    cases hfirst
  have hv := List.getLast?_eq_some_getLast hne
  refine ⟨_, hv, ?_⟩
  rw [htail _ (List.mem_of_getLast? hv), dropWhile_ne_getLast hnodup hv]

/-- A word in katakana with two marks: its form in hiragana, which still has the marks, has one variant less,
and the form without marks is alone. -/
theorem variants_of_mem_variants_super :
    "すーぱー".toList ∈ Language.japanese.variants "スーパー".toList ∧
      Language.japanese.variants "すーぱー".toList = ["すーぱー".toList, "すうぱあ".toList] ∧
      Language.japanese.variants "すうぱあ".toList = ["すうぱあ".toList] := by
  have hword : Language.japanese.variants "スーパー".toList =
      ["スーパー".toList, "すーぱー".toList, "すうぱあ".toList] := by decide
  obtain ⟨-, -, htail, v, hlast, halone⟩ := variants_of_mem_variants .japanese "スーパー".toList
  have hmem : "すーぱー".toList ∈ Language.japanese.variants "スーパー".toList := by rw [hword]; simp
  refine ⟨hmem, ?_, ?_⟩
  · rw [htail _ hmem, hword]
    decide
  · rw [hword] at hlast
    cases hlast
    exact halone

end Language
end Lexicon
