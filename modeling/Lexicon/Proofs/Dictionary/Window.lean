import Lexicon.Proofs.Dictionary.Spelling

/-! Searches of one text within different lengths. A search goes so many characters on from its offset;
no match is longer, and a greater length takes nothing away, since the fronts of the smaller window are
fronts of the greater one. Only a length that leads back behind the start of the text bounds nothing: the
end then counts from the end of the text, and the search is that of another length. -/
namespace Lexicon.Search

/-- Everything that a search finds within one length, a search within another finds at the same offset: in
the same row of the same word, and with a match at least as long. -/
structure Retains (source : Source) (l : Language) (s : Text) (offset maxLength longer : Int) :
    Prop where
  hits : ∀ h, IsHit source l (window s offset maxLength) h →
    ∃ g, IsHit source l (window s offset longer) g ∧ g.Extends h
  entries : ∀ e ∈ (run source s offset l maxLength).entries,
    ∃ n, e.matchLength ≤ n ∧ { e with matchLength := n } ∈ (run source s offset l longer).entries

section Reach

variable {source : Source} {l : Language} {s : Text} {offset maxLength longer : Int} {h : Hit}
  {e : Entry}

theorem reach_of_nonneg (hstop : 0 ≤ s.charIndex offset + maxLength) :
    reach s offset maxLength = maxLength.toNat :=
  if_neg (Int.not_lt.2 hstop)

theorem reach_of_neg (hstop : s.charIndex offset + maxLength < 0) :
    reach s offset maxLength = (s.length + maxLength).toNat :=
  if_pos hstop

theorem length_le_reach (hhit : IsHit source l (window s offset maxLength) h) :
    h.length ≤ reach s offset maxLength := by
  have hle := hhit.spans.le
  rw [window_eq_take_reach] at hle
  exact hle.trans (List.length_take_le _ _)

/-- A match has a character at least, and no more than are searched. -/
theorem matchLength_bounds (he : e ∈ (run source s offset l maxLength).entries) :
    1 ≤ e.matchLength ∧ e.matchLength ≤ reach s offset maxLength := by
  obtain ⟨h, hhit, rfl⟩ := (mem_entries_run ..).1 he
  exact ⟨hhit.spans.pos, length_le_reach hhit⟩

/-- A record is found within every length that its match does not exceed. -/
theorem exists_isHit_of_length_le (hhit : IsHit source l (window s offset maxLength) h)
    (hle : h.length ≤ reach s offset longer) :
    ∃ g, IsHit source l (window s offset longer) g ∧ g.Extends h := by
  have hfront : (window s offset longer).take h.length =
      (window s offset maxLength).take h.length := by
    rw [window_eq_take_reach, window_eq_take_reach, List.take_take, List.take_take,
      Nat.min_eq_left hle, Nat.min_eq_left (length_le_reach hhit)]
  have hlength : h.length ≤ (window s offset longer).length := by
    have hrest := hhit.spans.le
    rw [window_eq_take_reach, List.length_take] at hrest ⊢
    omega
  exact exists_isHit_extends hhit hlength (hfront ▸ hhit.spans.mem)

/-- What is found within one length is found within another exactly when no match exceeds it. -/
theorem retains_iff : Retains source l s offset maxLength longer ↔
    ∀ e ∈ (run source s offset l maxLength).entries, e.matchLength ≤ reach s offset longer := by
  constructor
  · intro hretains e he
    obtain ⟨n, hle, hn⟩ := hretains.entries e he
    exact hle.trans (matchLength_bounds hn).2
  · intro hbound
    have hits : ∀ h, IsHit source l (window s offset maxLength) h →
        ∃ g, IsHit source l (window s offset longer) g ∧ g.Extends h := by
      intro h hhit
      exact exists_isHit_of_length_le hhit
        (hbound h.entry ((mem_entries_run ..).2 ⟨h, hhit, rfl⟩))
    exact ⟨hits, fun e he => exists_mem_entries_of_extends hits he⟩

theorem retains_iff_of_nonneg (hstop : 0 ≤ s.charIndex offset + longer) :
    Retains source l s offset maxLength longer ↔
      ∀ e ∈ (run source s offset l maxLength).entries, (e.matchLength : Int) ≤ max longer 0 := by
  rw [retains_iff, reach_of_nonneg hstop]
  refine forall₂_congr fun e _ => ?_
  omega

/-- A greater length retains everything, unless only the smaller one leads back behind the start. -/
theorem retains_of_le (hle : maxLength ≤ longer)
    (hside : s.charIndex offset + maxLength < 0 → s.charIndex offset + longer < 0) :
    Retains source l s offset maxLength longer := by
  have hreach : reach s offset maxLength ≤ reach s offset longer := by
    by_cases hstop : s.charIndex offset + maxLength < 0
    case pos =>
      rw [reach_of_neg hstop, reach_of_neg (hside hstop)]
      omega
    case neg =>
      rw [reach_of_nonneg (by omega), reach_of_nonneg (by omega)]
      exact Int.toNat_le_toNat hle
  exact retains_iff.2 fun _ he => (matchLength_bounds he).2.trans hreach

theorem forall_matchLength_le_iff :
    (∀ e ∈ (run source s offset l maxLength).entries, (e.matchLength : Int) ≤ max maxLength 0) ↔
      0 ≤ s.charIndex offset + maxLength ∨ (run source s offset l maxLength).entries = [] := by
  constructor
  · intro hbound
    refine or_iff_not_imp_left.2 fun hstop => List.eq_nil_iff_forall_not_mem.2 fun e he => ?_
    -- the length is below zero, and a match has a character
    have hpos := (matchLength_bounds he).1
    have hle := hbound e he
    omega
  · rintro (hstop | hnone) e he
    · have hle := (matchLength_bounds he).2
      rw [reach_of_nonneg hstop] at hle
      omega
    · exact absurd (hnone ▸ he) List.not_mem_nil

/-- Searches that go equally far are the same. -/
theorem run_eq_of_reach_eq (h : reach s offset maxLength = reach s offset longer) :
    run source s offset l maxLength = run source s offset l longer := by
  rw [run, run, window_eq_take_reach, window_eq_take_reach, h]

end Reach

/-- No match is longer than the length of a search, and a greater length loses nothing, unless the length
leads back behind the start of the text. Then the end counts from the end of the text, and the search is
the one whose length is greater by that of the text. It stays within its own length only if it finds
nothing; a greater length finds all of it exactly when that leads back behind the start too, or when no
match exceeds it. -/
theorem maxLength_bounds_matches (source : Source) (s : Text) (offset : Int) (l : Language)
    (maxLength : Int) :
    let start : Int := s.charIndex offset
    let entries := (run source s offset l maxLength).entries
    (0 ≤ start + maxLength →
      (∀ e ∈ entries, (e.matchLength : Int) ≤ max maxLength 0) ∧
        ∀ longer, maxLength ≤ longer → Retains source l s offset maxLength longer) ∧
    (start + maxLength < 0 →
      run source s offset l maxLength = run source s offset l (max (s.length + maxLength) 0) ∧
        ((∀ e ∈ entries, (e.matchLength : Int) ≤ max maxLength 0) ↔ entries = []) ∧
        ∀ longer, maxLength ≤ longer → (Retains source l s offset maxLength longer ↔
          start + longer < 0 ∨ ∀ e ∈ entries, (e.matchLength : Int) ≤ max longer 0)) := by
  intro start entries
  constructor
  · intro hstop
    refine ⟨forall_matchLength_le_iff.2 (.inl hstop), fun longer hlonger => ?_⟩
    exact retains_of_le hlonger fun hback => absurd hstop (Int.not_le.2 hback)
  · intro hback
    refine ⟨run_eq_of_reach_eq ?_, ?_, fun longer hlonger => ?_⟩
    · rw [reach_of_neg hback, reach_of_nonneg (by omega)]
      omega
    · exact forall_matchLength_le_iff.trans (or_iff_right (Int.not_le.2 hback))
    · by_cases hback' : start + longer < 0
      case pos => exact iff_of_true (retains_of_le hlonger fun _ => hback') (.inl hback')
      case neg =>
        exact (retains_iff_of_nonneg (Int.not_lt.1 hback')).trans (or_iff_right hback').symm

/-- A store of one word, of which the plural is known. -/
def wordWithPlural : Source where
  lookup w := some (if w = "cat".toList then [(1, .plain [])] else [])
  decode _ := .ok ⟨1, [], .null, .null, .null⟩
  deinflect _ s := if s = "cats".toList then ["cat".toList] else [s]
  snapshot := []

/-- The word is found where its letters are searched. -/
theorem exists_entry_wordWithPlural (maxLength : Int)
    (hwindow : window "cats".toList 0 maxLength = "cat".toList) :
    ∃ e ∈ (run wordWithPlural "cats".toList 0 .english maxLength).entries,
      e.word = "cat".toList ∧ e.matchLength = 3 := by
  have hyields : wordWithPlural.Yields "cat".toList 0 ⟨1, [], .null, .null, .null⟩ :=
    ⟨[(1, .plain [])], 1, .plain [], congrArg some (if_pos rfl), rfl, rfl, rfl⟩
  obtain ⟨h, hhit, hword, hlength⟩ :=
    exists_isHit_self (l := .english) (by decide) (by decide) hyields
  exact ⟨h.entry, (mem_entries_run ..).2 ⟨h, hwindow.symm ▸ hhit, rfl⟩, hword, hlength⟩

/-- Three characters and more find the word, and the search that ends before the last character is that
of three characters. -/
theorem maxLength_bounds_matches_wordWithPlural :
    let start : Int := Text.charIndex "cats".toList 0
    (0 ≤ start + 3 ∧ (3 : Int) ≤ 24 ∧
      ∃ e ∈ (run wordWithPlural "cats".toList 0 .english 24).entries,
        e.word = "cat".toList ∧ 3 ≤ e.matchLength) ∧
    (start + -1 < 0 ∧ (-1 : Int) ≤ 3 ∧
      run wordWithPlural "cats".toList 0 .english (-1) =
        run wordWithPlural "cats".toList 0 .english 3 ∧
      Retains wordWithPlural .english "cats".toList 0 (-1) 3) := by
  intro start
  have hstop : 0 ≤ start + 3 := by decide
  have hback : start + -1 < 0 := by decide
  obtain ⟨hbound, hretains⟩ :=
    (maxLength_bounds_matches wordWithPlural "cats".toList 0 .english 3).1 hstop
  obtain ⟨hsame, -, hiff⟩ :=
    (maxLength_bounds_matches wordWithPlural "cats".toList 0 .english (-1)).2 hback
  obtain ⟨e, he, hword, hlength⟩ := exists_entry_wordWithPlural 3 (by decide)
  obtain ⟨n, hle, hn⟩ := (hretains 24 (by decide)).entries e he
  refine ⟨⟨hstop, by decide, _, hn, hword, hlength ▸ hle⟩, hback, by decide, hsame, ?_⟩
  refine (hiff 3 (by decide)).2 (.inr ?_)
  rw [hsame]
  exact hbound

/-- The search that ends before the last character finds the word, though its length is below zero, and
the search of no characters loses it. -/
theorem not_maxLength_bounds_matches_wordWithPlural :
    (¬ ∀ e ∈ (run wordWithPlural "cats".toList 0 .english (-1)).entries,
      (e.matchLength : Int) ≤ max (-1) 0) ∧
    ¬ Retains wordWithPlural .english "cats".toList 0 (-1) 0 := by
  obtain ⟨e, he, -, hlength⟩ := exists_entry_wordWithPlural (-1) (by decide)
  constructor
  · intro hbound
    have hle := hbound e he
    omega
  · intro hretains
    have hle := retains_iff.1 hretains e he
    have hreach : reach "cats".toList 0 0 = 0 := by decide
    omega

end Lexicon.Search
