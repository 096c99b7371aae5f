import Lexicon.Dictionary.Grouping
import Lexicon.Proofs.Json.Same
import Mathlib.Data.List.Infix

/-! Ruby over headwords. A headword and a reading have one cut at the longest front that they share and the
longest back of what remains; the parts put together are the headword, and ruby read in place of what it
stands over gives the reading exactly when there is something left of both. -/
namespace Lexicon

namespace Furigana

variable {α : Type*} {xs ys front back restX restY : List α} {eq : α → α → Bool}

section Shared

/-- No longer list stands in front of both. -/
structure IsLongestFront (front xs ys : List α) : Prop where
  left : front <+: xs
  right : front <+: ys
  longest : ∀ other, other <+: xs → other <+: ys → other.length ≤ front.length

/-- No longer list stands at the back of both. -/
structure IsLongestBack (back xs ys : List α) : Prop where
  left : back <:+ xs
  right : back <:+ ys
  longest : ∀ other, other <:+ xs → other <:+ ys → other.length ≤ back.length

theorem isLongestFront_reverse_iff :
    IsLongestFront back.reverse xs.reverse ys.reverse ↔ IsLongestBack back xs ys := by
  constructor
  · rintro ⟨hleft, hright, hlongest⟩
    refine ⟨List.reverse_prefix.1 hleft, List.reverse_prefix.1 hright, fun other hx hy => ?_⟩
    simpa using hlongest other.reverse (List.reverse_prefix.2 hx) (List.reverse_prefix.2 hy)
  · rintro ⟨hleft, hright, hlongest⟩
    refine ⟨List.reverse_prefix.2 hleft, List.reverse_prefix.2 hright, fun other hx hy => ?_⟩
    rw [← List.reverse_reverse other, List.reverse_prefix] at hx hy
    simpa using hlongest other.reverse hx hy

theorem IsLongestFront.unique {other : List α} (h : IsLongestFront front xs ys)
    (hother : IsLongestFront other xs ys) : front = other := by
  have hprefix : front <+: other := List.prefix_of_prefix_length_le h.left hother.left
    (hother.longest front h.left h.right)
  exact hprefix.eq_of_length_le (h.longest other hother.left hother.right)

theorem IsLongestBack.unique {other : List α} (h : IsLongestBack back xs ys)
    (hother : IsLongestBack other xs ys) : back = other :=
  List.reverse_injective
    ((isLongestFront_reverse_iff.2 h).unique (isLongestFront_reverse_iff.2 hother))

/-- A shared front is the longest one exactly when what remains does not start alike. -/
theorem isLongestFront_append_iff :
    IsLongestFront front (front ++ restX) (front ++ restY) ↔
      ∀ a ∈ restX.head?, ∀ b ∈ restY.head?, a ≠ b := by
  constructor
  · rintro h a ha _ hb rfl
    obtain ⟨restX, rfl⟩ := List.head?_eq_some_iff.1 ha
    obtain ⟨restY, rfl⟩ := List.head?_eq_some_iff.1 hb
    have hlength := h.longest (front ++ [a]) (by simp) (by simp)
    rw [List.length_append, List.length_singleton] at hlength
    omega
  · intro h
    refine ⟨List.prefix_append _ _, List.prefix_append _ _, fun other hx hy => ?_⟩
    by_contra hlonger
    obtain ⟨more, rfl⟩ : front <+: other :=
      List.prefix_of_prefix_length_le (List.prefix_append _ _) hx (by omega)
    rw [List.prefix_append_right_inj] at hx hy
    cases more with
    | nil => simp at hlonger
    | cons a more =>
      obtain ⟨_, rfl⟩ := hx
      obtain ⟨_, rfl⟩ := hy
      exact h a rfl a rfl rfl

/-- A shared back is the longest one exactly when what remains does not end alike. -/
theorem isLongestBack_append_iff :
    IsLongestBack back (restX ++ back) (restY ++ back) ↔
      ∀ a ∈ restX.getLast?, ∀ b ∈ restY.getLast?, a ≠ b := by
  rw [← isLongestFront_reverse_iff, List.reverse_append, List.reverse_append,
    isLongestFront_append_iff, List.head?_reverse, List.head?_reverse]

end Shared

section Cut

theorem exists_commonFront (heq : ∀ a b, eq a b = true ↔ a = b) (xs ys : List α) :
    ∃ shared restX restY, commonFront eq xs ys = (shared, restX, restY) ∧
      xs = shared ++ restX ∧ ys = shared ++ restY ∧
      ∀ a ∈ restX.head?, ∀ b ∈ restY.head?, a ≠ b := by
  fun_induction commonFront eq xs ys with
  | case1 x xs y ys hxy shared restX restY hcommon ih =>
    obtain ⟨_, _, _, h, hx, hy, hne⟩ := ih
    rw [hcommon] at h
    cases h
    obtain rfl := (heq x y).1 hxy
    exact ⟨x :: shared, restX, restY, rfl, by rw [hx]; rfl, by rw [hy]; rfl, hne⟩
  | case2 x xs y ys hxy =>
    refine ⟨[], x :: xs, y :: ys, rfl, rfl, rfl, ?_⟩
    rintro _ ⟨⟩ _ ⟨⟩ rfl
    exact hxy ((heq _ _).2 rfl)
  | case3 xs ys hcons =>
    refine ⟨[], xs, ys, rfl, rfl, rfl, fun a ha b hb => ?_⟩
    obtain ⟨xs, rfl⟩ := List.head?_eq_some_iff.1 ha
    obtain ⟨ys, rfl⟩ := List.head?_eq_some_iff.1 hb
    exact (hcons a xs b ys rfl rfl).elim

/-- A headword and a reading cut at the longest front that they share and at the longest back of what
remains. -/
structure Splits (c : Cut α) (headword reading : List α) : Prop where
  headword_eq : headword = c.front ++ c.middle ++ c.back
  reading_eq : reading = c.front ++ c.ruby ++ c.back
  front : IsLongestFront c.front headword reading
  back : IsLongestBack c.back (c.middle ++ c.back) (c.ruby ++ c.back)

variable {c other : Cut α} {headword reading : List α}

theorem splits_cut (heq : ∀ a b, eq a b = true ↔ a = b) (headword reading : List α) :
    Splits (cut eq headword reading) headword reading := by
  obtain ⟨front, restX, restY, hfront, hx, hy, hstart⟩ := exists_commonFront heq headword reading
  obtain ⟨back, middle, ruby, hback, hmiddle, hruby, hend⟩ :=
    exists_commonFront heq restX.reverse restY.reverse
  rw [List.reverse_eq_iff, List.reverse_append] at hmiddle hruby
  simp only [cut, hfront, hback]
  refine ⟨?_, ?_, ?_, ?_⟩
  · rw [hx, hmiddle, List.append_assoc]
  · rw [hy, hruby, List.append_assoc]
  · rw [hx, hy]
    exact isLongestFront_append_iff.2 hstart
  · rw [isLongestBack_append_iff, List.getLast?_reverse, List.getLast?_reverse]
    exact hend

/-- There is one such cut. -/
theorem Splits.unique (h : Splits c headword reading) (hother : Splits other headword reading) :
    c = other := by
  obtain ⟨front, middle, ruby, back⟩ := c
  obtain ⟨front', middle', ruby', back'⟩ := other
  obtain rfl : front = front' := h.front.unique hother.front
  have hmiddle := h.headword_eq.symm.trans hother.headword_eq
  have hruby := h.reading_eq.symm.trans hother.reading_eq
  simp only [List.append_assoc, List.append_cancel_left_eq] at hmiddle hruby
  obtain rfl : back = back' := by
    have hback := h.back
    rw [hmiddle, hruby] at hback
    exact hback.unique hother.back
  rw [List.append_cancel_right_eq] at hmiddle hruby
  rw [hmiddle, hruby]

/-- What is left of both neither starts nor ends alike. -/
theorem Splits.ends_ne (h : Splits c headword reading) (hmiddle : c.middle ≠ [])
    (hruby : c.ruby ≠ []) :
    c.middle.head? ≠ c.ruby.head? ∧ c.middle.getLast? ≠ c.ruby.getLast? := by
  have hfront := h.front
  rw [h.headword_eq, h.reading_eq, List.append_assoc, List.append_assoc,
    isLongestFront_append_iff, List.head?_append_of_ne_nil _ hmiddle,
    List.head?_append_of_ne_nil _ hruby] at hfront
  have hback := isLongestBack_append_iff.1 h.back
  have differ {o o' : Option α} (h : ∀ a ∈ o, ∀ b ∈ o', a ≠ b) (hsome : o.isSome = true) :
      o ≠ o' := by
    rintro rfl
    obtain ⟨a, ha⟩ := Option.isSome_iff_exists.1 hsome
    exact h a ha a ha rfl
  exact ⟨differ hfront (List.isSome_head?.2 hmiddle), differ hback (List.getLast?_isSome.2 hmiddle)⟩

end Cut

section Parts

/-- The parts read out: ruby in place of what it stands over. -/
def readAloud (parts : List (RawText × RawText)) : RawText :=
  parts.flatMap fun part => if part.2 = [] then part.1 else part.2

variable {c : Cut CodePoint} {headword reading : RawText}

theorem parts_eq_filter (c : Cut α) :
    parts c = [(c.front, []), (c.middle, c.ruby), (c.back, [])].filter (!·.1.isEmpty) := by
  simp only [parts, List.filter_cons, List.filter_nil]
  cases c.front.isEmpty <;> cases c.middle.isEmpty <;> cases c.back.isEmpty <;> rfl

theorem flatMap_fst_parts (c : Cut α) :
    (parts c).flatMap (·.1) = c.front ++ c.middle ++ c.back := by
  obtain ⟨front, middle, ruby, back⟩ := c
  cases front <;> cases middle <;> cases back <;> simp [parts]

theorem countP_parts_le (c : Cut CodePoint) : (parts c).countP (·.2 ≠ []) ≤ 1 := by
  obtain ⟨front, middle, ruby, back⟩ := c
  cases front <;> cases middle <;> cases ruby <;> cases back <;> simp [parts]

theorem readAloud_parts (c : Cut CodePoint) :
    readAloud (parts c) =
      c.front ++ (if c.middle ≠ [] ∧ c.ruby ≠ [] then c.ruby else c.middle) ++ c.back := by
  obtain ⟨front, middle, ruby, back⟩ := c
  cases front <;> cases middle <;> cases ruby <;> cases back <;> simp [parts, readAloud]

theorem Splits.readAloud_parts_eq_iff (h : Splits c headword reading) (hne : headword ≠ reading) :
    readAloud (parts c) = reading ↔ c.middle ≠ [] ∧ c.ruby ≠ [] := by
  rw [readAloud_parts]
  split
  case isTrue hboth => exact iff_of_true h.reading_eq.symm hboth
  case isFalse hnot => exact iff_of_false (fun heq => hne (h.headword_eq.trans heq)) hnot

theorem ofText_of_ne (hreading : reading ≠ []) (hne : headword ≠ reading) :
    ofText headword reading = parts (cut (fun a b => decide (a = b)) headword reading) := by
  rw [ofText, if_neg]
  simp [hreading, hne]

end Parts

/-- Over texts the ruby of records is the ruby of texts. -/
theorem furiganaOf_str (headword reading : RawText) :
    Grouping.furiganaOf (.str headword) (.str reading) =
      .ok ((ofText headword reading).map fun part => (.str part.1, .str part.2)) := by
  have hplain : (!(Json.str reading).isTruthy || (Json.str headword).same (.str reading)) =
      (reading.isEmpty || decide (headword = reading)) := by
    rw [Bool.eq_iff_iff, Bool.or_eq_true, Bool.or_eq_true, Json.str_same_iff]
    simp [Json.isTruthy]
  rw [Grouping.furiganaOf, hplain]
  by_cases h : (reading.isEmpty || decide (headword = reading)) = true
  · rw [if_pos h, ofText, if_pos h]
    rfl
  · rw [if_neg h]

/-- Ruby over a headword never fails where the reading is a text or absent, which counts as empty. Its parts put
together are the headword, and at most one of them has a ruby. A headword and another reading have one cut at
what they share, and the parts are its pieces without the empty ones. What is left of both, if there is
something left of both, neither starts nor ends alike, and only then the ruby in place of what it stands over
gives the reading. -/
theorem ruby_stands_over_middle (headword reading : RawText) :
    (Grouping.furiganaOf (.str headword) (.str reading) =
        .ok ((ofText headword reading).map fun part => (.str part.1, .str part.2)) ∧
      Grouping.furiganaOf (.str headword) .null =
        Grouping.furiganaOf (.str headword) (.str [])) ∧
    (ofText headword reading).flatMap (·.1) = headword ∧
    (ofText headword reading).countP (·.2 ≠ []) ≤ 1 ∧
    (reading ≠ [] → headword ≠ reading →
      (∃! c : Cut CodePoint, Splits c headword reading) ∧
      ∀ c : Cut CodePoint, Splits c headword reading →
        ofText headword reading =
          [(c.front, []), (c.middle, c.ruby), (c.back, [])].filter (!·.1.isEmpty) ∧
        (c.middle ≠ [] → c.ruby ≠ [] →
          c.middle.head? ≠ c.ruby.head? ∧ c.middle.getLast? ≠ c.ruby.getLast?) ∧
        (readAloud (ofText headword reading) = reading ↔ c.middle ≠ [] ∧ c.ruby ≠ [])) := by
  have hsplits : Splits (cut (fun a b : CodePoint => decide (a = b)) headword reading) headword reading :=
    splits_cut (fun a b => decide_eq_true_iff) headword reading
  refine ⟨⟨furiganaOf_str headword reading, rfl⟩, ?_⟩
  by_cases hplain : reading = [] ∨ headword = reading
  · have hparts : ofText headword reading = [(headword, [])] := by
      rw [ofText, if_pos (by simpa using hplain)]
    rw [hparts]
    refine ⟨by simp, by simp, fun hreading hne => ?_⟩
    exact (hplain.elim hreading hne).elim
  · rw [not_or] at hplain
    rw [ofText_of_ne hplain.1 hplain.2]
    refine ⟨(flatMap_fst_parts _).trans hsplits.headword_eq.symm, countP_parts_le _,
      fun _ hne => ⟨⟨_, hsplits, fun c hc => hc.unique hsplits⟩, fun c hc => ?_⟩⟩
    obtain rfl := hc.unique hsplits
    exact ⟨parts_eq_filter _, hc.ends_ne, hc.readAloud_parts_eq_iff hne⟩

/-- Shared kana on both sides of an ideograph. -/
theorem ruby_stands_over_middle_polite :
    ofText ("お食べ" : RawText) "おたべ" =
        ([("お", []), ("食", "た"), ("べ", [])] : List (RawText × RawText)) ∧
      readAloud (ofText "お食べ" "おたべ") = "おたべ" := by
  have hcut : Splits (⟨"お", "食", "た", "べ"⟩ : Cut CodePoint) "お食べ" "おたべ" :=
    splits_cut (fun a b : CodePoint => decide_eq_true_iff (p := a = b)) "お食べ" "おたべ"
  obtain ⟨hparts, -, hread⟩ :=
    ((ruby_stands_over_middle "お食べ" "おたべ").2.2.2 (by decide) (by decide)).2 _ hcut
  exact ⟨hparts, hread.2 ⟨by decide, by decide⟩⟩

end Furigana
end Lexicon
