import Lexicon.Proofs.Text.Basic
import Lexicon.Text.Blank
import Lexicon.Text.Lines
import Mathlib.Algebra.GroupWithZero.Nat

/-! Lines taken apart and joined again, and the blanks around them. -/
namespace Lexicon.Text

section Lines

variable {separator : Char} {s line : Text} {lines : List Text}

theorem join_cons_cons (separator : Char) (line next : Text) (rest : List Text) :
    join [separator] (line :: next :: rest)
      = line ++ separator :: join [separator] (next :: rest) := by
  simp [join, List.intercalate, List.intersperse]

theorem join_singleton (separator : Char) (line : Text) : join [separator] [line] = line := by
  simp [join, List.intercalate]

theorem eq_or_exists_mem_of_mem_join {c : Char} (h : c ∈ join [separator] lines) :
    c = separator ∨ ∃ line ∈ lines, c ∈ line := by
  induction lines with
  | nil => simp [join] at h
  | cons line rest ih =>
    cases rest with
    | nil =>
      rw [join_singleton] at h
      exact .inr ⟨line, List.mem_cons_self .., h⟩
    | cons next rest =>
      rw [join_cons_cons, List.mem_append, List.mem_cons] at h
      rcases h with h | h | h
      · exact .inr ⟨line, List.mem_cons_self .., h⟩
      · exact .inl h
      · exact (ih h).imp_right fun ⟨l, hl, hc⟩ => ⟨l, List.mem_cons_of_mem _ hl, hc⟩

/-- Between the pieces there is nothing but separators. -/
theorem count_join {c : Char} (hc : c ≠ separator) (lines : List Text) :
    (join [separator] lines).count c = (lines.map (List.count c)).sum := by
  induction lines with
  | nil => simp [join]
  | cons line rest ih =>
    cases rest with
    | nil => simp [join_singleton]
    | cons next rest =>
      rw [join_cons_cons, List.count_append, List.count_cons_of_ne (Ne.symm hc), ih]
      rfl

/-- The pieces of a text make the text again. -/
theorem join_split (separator : Char) (s : Text) : join [separator] (split separator s) = s := by
  induction s with
  | nil => rfl
  | cons c s ih =>
    obtain ⟨line, rest, hs⟩ := List.exists_cons_of_ne_nil (split_ne_nil separator s)
    rw [hs] at ih
    by_cases hc : c = separator
    · subst hc
      rw [split, if_pos rfl, hs, join_cons_cons, ih, List.nil_append]
    · simp only [split, if_neg hc, hs]
      cases rest with
      | nil =>
        rw [join_singleton] at ih ⊢
        rw [ih]
      | cons next rest =>
        rw [join_cons_cons] at ih ⊢
        rw [List.cons_append, ih]

/-- Pieces without separators are found again between the separators. -/
theorem split_join (hne : lines ≠ []) (h : ∀ line ∈ lines, separator ∉ line) :
    split separator (join [separator] lines) = lines := by
  induction lines with
  | nil => exact absurd rfl hne
  | cons line rest ih =>
    have hline := split_of_not_mem (h line (List.mem_cons_self ..))
    cases rest with
    | nil => rw [join_singleton, hline]
    | cons next rest =>
      rw [join_cons_cons, split_append_cons, hline,
        ih (by simp) fun l hl => h l (List.mem_cons_of_mem _ hl), List.singleton_append]

theorem mem_split_cons_iff {c : Char} :
    line ∈ split separator (c :: s) ↔
      (c = separator ∧ (line = [] ∨ line ∈ split separator s)) ∨
      (c ≠ separator ∧ ((∃ first rest, split separator s = first :: rest ∧ line = c :: first) ∨
        line ∈ (split separator s).tail)) := by
  obtain ⟨first, rest, hs⟩ := List.exists_cons_of_ne_nil (split_ne_nil separator s)
  by_cases hc : c = separator
  · simp [split, hc]
  · simp [split, hc, hs]

theorem not_mem_of_mem_split (h : line ∈ split separator s) : separator ∉ line := by
  induction s generalizing line with
  | nil =>
    obtain rfl : line = [] := by simpa [split] using h
    simp
  | cons c s ih =>
    rcases mem_split_cons_iff.1 h with ⟨-, rfl | h⟩ | ⟨hc, ⟨first, rest, hs, rfl⟩ | h⟩
    · simp
    · exact ih h
    · have hfirst := ih (hs ▸ List.mem_cons_self ..)
      simp [hfirst, Ne.symm hc]
    · exact ih (List.mem_of_mem_tail h)

theorem mem_of_mem_split {c : Char} (h : line ∈ split separator s) (hc : c ∈ line) : c ∈ s := by
  induction s generalizing line with
  | nil =>
    obtain rfl : line = [] := by simpa [split] using h
    simp at hc
  | cons d s ih =>
    rcases mem_split_cons_iff.1 h with ⟨-, rfl | h⟩ | ⟨-, ⟨first, rest, hs, rfl⟩ | h⟩
    · simp at hc
    · exact List.mem_cons_of_mem _ (ih h hc)
    · rcases List.mem_cons.1 hc with rfl | hc
      · exact List.mem_cons_self ..
      · exact List.mem_cons_of_mem _ (ih (hs ▸ List.mem_cons_self ..) hc)
    · exact List.mem_cons_of_mem _ (ih (List.mem_of_mem_tail h) hc)

/-- Reading a text leaves no carriage return in it. -/
theorem not_mem_unifyBreaks (s : Text) : '\r' ∉ unifyBreaks s := by
  fun_induction unifyBreaks s with
  | case1 => simp
  | case2 s ih => simp [ih]
  | case3 c s _ ih =>
    by_cases hc : c = '\r'
    · simp [hc, ih]
    · simp [hc, ih, Ne.symm hc]

/-- A line has no line end in it. -/
theorem not_mem_of_mem_lines (h : line ∈ Text.lines s) : '\n' ∉ line ∧ '\r' ∉ line :=
  ⟨not_mem_of_mem_split h, fun hc => not_mem_unifyBreaks s (mem_of_mem_split h hc)⟩

end Lines

section Blanks

variable {s t : Text}

theorem head?_dropWhile (p : Char → Bool) (s : Text) :
    ∀ c ∈ (s.dropWhile p).head?, p c = false := by
  intro c hc
  have hhead := List.head?_dropWhile_not p s
  rw [Option.mem_def.1 hc] at hhead
  exact hhead

theorem getLast?_trimBack (s : Text) : ∀ c ∈ (trimBack s).getLast?, isBlank c = false := by
  rw [trimBack, List.getLast?_reverse]
  exact head?_dropWhile isBlank s.reverse

/-- What is cut off the end of a text is blank. -/
theorem exists_trimBack_append (s : Text) :
    ∃ blanks, s = trimBack s ++ blanks ∧ ∀ c ∈ blanks, isBlank c = true := by
  refine ⟨(s.reverse.takeWhile isBlank).reverse, ?_, fun c hc => ?_⟩
  · rw [trimBack, ← List.reverse_append, List.takeWhile_append_dropWhile, List.reverse_reverse]
  · exact List.mem_takeWhile_imp (List.mem_reverse.1 hc)

theorem trimBack_append (s : Text) (h : ∀ c ∈ t, isBlank c = true) :
    trimBack (s ++ t) = trimBack s := by
  rw [trimBack, List.reverse_append,
    List.dropWhile_append_of_pos fun c hc => h c (List.mem_reverse.1 hc), trimBack]

theorem trimBack_eq_self (h : ∀ c ∈ s.getLast?, isBlank c = false) : trimBack s = s := by
  rw [trimBack, TextOf.dropWhile_eq_self (by rwa [List.head?_reverse]), List.reverse_reverse]

@[simp] theorem trimBack_trimBack (s : Text) : trimBack (trimBack s) = trimBack s :=
  trimBack_eq_self (getLast?_trimBack s)

theorem head?_trim (s : Text) : ∀ c ∈ (trim s).head?, isBlank c = false := by
  intro c hc
  obtain ⟨blanks, hs, -⟩ := exists_trimBack_append (trimFront s)
  refine head?_dropWhile isBlank s c ?_
  rw [← trimFront, hs, List.head?_append, ← trim, Option.mem_def.1 hc]
  rfl

theorem getLast?_trim (s : Text) : ∀ c ∈ (trim s).getLast?, isBlank c = false :=
  getLast?_trimBack (trimFront s)

/-- A text is trimmed when neither end of it is blank. -/
theorem trim_eq_self_iff :
    trim s = s ↔ (∀ c ∈ s.head?, isBlank c = false) ∧ ∀ c ∈ s.getLast?, isBlank c = false := by
  constructor
  · intro h
    rw [← h]
    exact ⟨head?_trim s, getLast?_trim s⟩
  · rintro ⟨hfront, hback⟩
    rw [trim, trimFront, TextOf.dropWhile_eq_self hfront, trimBack_eq_self hback]

@[simp] theorem trim_trim (s : Text) : trim (trim s) = trim s :=
  trim_eq_self_iff.2 ⟨head?_trim s, getLast?_trim s⟩

theorem trim_append_front (h : ∀ c ∈ s, isBlank c = true) (t : Text) : trim (s ++ t) = trim t := by
  rw [trim, trimFront, List.dropWhile_append_of_pos h, trim, trimFront]

theorem trimBack_sublist (s : Text) : (trimBack s).Sublist s := by
  obtain ⟨blanks, hs, -⟩ := exists_trimBack_append s
  conv_rhs => rw [hs]
  exact List.sublist_append_left ..

theorem trim_sublist (s : Text) : (trim s).Sublist s :=
  (trimBack_sublist _).trans (List.dropWhile_sublist isBlank)

theorem mem_of_mem_trim {c : Char} (h : c ∈ trim s) : c ∈ s := (trim_sublist s).subset h

theorem trim_append_back (s : Text) (h : ∀ c ∈ t, isBlank c = true) : trim (s ++ t) = trim s := by
  have ht : t.dropWhile isBlank = [] := List.dropWhile_eq_nil_iff.2 h
  rw [trim, trim, trimFront, trimFront, List.dropWhile_append, ht]
  split
  · next hs => rw [List.isEmpty_iff.1 hs]
  · exact trimBack_append _ h

@[simp] theorem trim_trimBack (s : Text) : trim (trimBack s) = trim s := by
  obtain ⟨blanks, hs, hblanks⟩ := exists_trimBack_append s
  conv_rhs => rw [hs, trim_append_back _ hblanks]

end Blanks

end Lexicon.Text
