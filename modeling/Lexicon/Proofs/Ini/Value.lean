import Lexicon.Ini.Reader
import Lexicon.Proofs.Text.Lines
import Mathlib.Data.List.Induction

/-! The values that a configuration document can hold. The lines of a value are trimmed, a line
after the first that starts like a comment is lost, and so are empty lines at the end; what is then left
of any other value is one that a document can hold. -/
namespace Lexicon.Ini

/-- A value that a document can hold. -/
structure IsNormal (value : Text) : Prop where
  noReturn : '\r' ∉ value
  trimmed : ∀ line ∈ Text.split '\n' value, line.trim = line
  endsFull : value ≠ [] → (Text.split '\n' value).getLast? ≠ some []
  noComment : ∀ line ∈ (Text.split '\n' value).tail, ∀ c ∈ line.head?, c ≠ '#' ∧ c ≠ ';'

theorem isNormal_iff {value : Text} : IsNormal value ↔ '\r' ∉ value ∧
    (Text.split '\n' value).all (fun line => line.trim = line) = true ∧
    (value = [] ∨ (Text.split '\n' value).getLast? ≠ some []) ∧
    (Text.split '\n' value).tail.all
      (fun line => line.head?.all fun c => c ≠ '#' && c ≠ ';') = true := by
  constructor
  · rintro ⟨hreturn, htrim, hfull, hcomment⟩
    refine ⟨hreturn, by simpa using htrim, ?_, by simpa [Option.all_eq_true] using hcomment⟩
    exact (Classical.em (value = [])).imp_right hfull
  · rintro ⟨hreturn, htrim, hfull, hcomment⟩
    exact ⟨hreturn, by simpa using htrim, fun hne => hfull.resolve_left hne,
      by simpa [Option.all_eq_true] using hcomment⟩

instance (value : Text) : Decidable (IsNormal value) := decidable_of_iff _ isNormal_iff.symm

/-- The lines of a value as they are found in a text: the first one stands after a delimiter, each
other one alone. -/
structure AreLines (lines : List Text) : Prop where
  ne_nil : lines ≠ []
  trimmed : ∀ line ∈ lines, line.trim = line
  noBreak : ∀ line ∈ lines, '\n' ∉ line ∧ '\r' ∉ line
  noComment : ∀ line ∈ lines.tail, ∀ c ∈ line.head?, c ≠ '#' ∧ c ≠ ';'

section

variable {value line : Text} {lines : List Text}

theorem isNormal_nil : IsNormal [] := by decide

/-- A value on one line. -/
theorem isNormal_of_line (hne : line ≠ []) (htrim : line.trim = line) (hbreak : '\n' ∉ line)
    (hreturn : '\r' ∉ line) : IsNormal line := by
  have hsplit : Text.split '\n' line = [line] := Text.split_of_not_mem hbreak
  refine ⟨hreturn, ?_, fun _ => ?_, ?_⟩
  · rw [hsplit]
    exact List.forall_mem_singleton.2 htrim
  · rw [hsplit]
    exact fun h => hne (Option.some.inj h)
  · rw [hsplit]
    simp

theorem isNormal_switchText (b : Bool) : IsNormal (switchText b) := by
  cases b <;> decide

theorem join_concat (hne : lines ≠ []) (line : Text) :
    Text.join ['\n'] (lines ++ [line]) = Text.join ['\n'] lines ++ '\n' :: line := by
  induction lines with
  | nil => exact absurd rfl hne
  | cons first rest ih =>
    cases rest with
    | nil =>
      rw [List.singleton_append, Text.join_cons_cons, Text.join_singleton, Text.join_singleton]
    | cons next rest =>
      have hrest := ih (by simp)
      rw [List.cons_append] at hrest ⊢
      rw [List.cons_append, Text.join_cons_cons, Text.join_cons_cons, List.append_assoc, hrest,
        List.cons_append]

/-- An empty line at the end of a value is lost. -/
theorem joinValue_concat_nil (lines : List Text) : joinValue (lines ++ [[]]) = joinValue lines := by
  by_cases hne : lines = []
  · subst hne
    rfl
  · rw [joinValue, join_concat hne, Text.trimBack_append _ (List.forall_mem_singleton.2 (by decide)),
      joinValue]

theorem joinValue_concat (hline : line.trim = line) (hne : line ≠ []) (lines : List Text) :
    joinValue (lines ++ [line]) = Text.join ['\n'] (lines ++ [line]) := by
  have hlast := (Text.trim_eq_self_iff.1 hline).2
  refine Text.trimBack_eq_self ?_
  by_cases hlines : lines = []
  · rwa [hlines, List.nil_append, Text.join_singleton]
  · obtain ⟨d, hd⟩ := Option.ne_none_iff_exists'.1 (mt List.getLast?_eq_none_iff.1 hne)
    rw [join_concat hlines, List.getLast?_append, List.getLast?_cons, hd]
    rwa [hd] at hlast

/-- A value that a document can hold is made again of its lines. -/
theorem joinValue_split (h : IsNormal value) : joinValue (Text.split '\n' value) = value := by
  by_cases hne : value = []
  · subst hne
    rfl
  · obtain ⟨lines, line, hlines⟩ : ∃ lines line, Text.split '\n' value = lines ++ [line] :=
      ⟨_, _, (List.dropLast_append_getLast (Text.split_ne_nil _ _)).symm⟩
    have hline := h.trimmed line (by simp [hlines])
    have hfull : line ≠ [] := by
      have hlast := h.endsFull hne
      rw [hlines, List.getLast?_concat] at hlast
      exact fun hnil => hlast (by rw [hnil])
    rw [hlines, joinValue_concat hline hfull, ← hlines, Text.join_split]

/-- Whatever lines a value is read from, the value is one that a document can hold. -/
theorem isNormal_joinValue (h : AreLines lines) : IsNormal (joinValue lines) := by
  induction lines using List.reverseRecOn with
  | nil => exact absurd rfl h.ne_nil
  | append_singleton lines line ih =>
    have hline := h.trimmed line (by simp)
    by_cases hnil : line = []
    · subst hnil
      rw [joinValue_concat_nil]
      by_cases hlines : lines = []
      · subst hlines
        exact isNormal_nil
      · refine ih ⟨hlines, fun l hl => h.trimmed l (List.mem_append_left _ hl),
          fun l hl => h.noBreak l (List.mem_append_left _ hl), fun l hl => h.noComment l ?_⟩
        rw [List.tail_append_of_ne_nil hlines]
        exact List.mem_append_left _ hl
    · have hsplit : Text.split '\n' (joinValue (lines ++ [line])) = lines ++ [line] := by
        rw [joinValue_concat hline hnil]
        exact Text.split_join (by simp) fun l hl => (h.noBreak l hl).1
      refine ⟨?_, ?_, ?_, ?_⟩
      · intro hc
        rw [joinValue_concat hline hnil] at hc
        rcases Text.eq_or_exists_mem_of_mem_join hc with hc | ⟨l, hl, hc⟩
        · exact absurd hc (by decide)
        · exact (h.noBreak l hl).2 hc
      · rw [hsplit]
        exact h.trimmed
      · intro _
        rw [hsplit, List.getLast?_concat]
        exact fun hlast => hnil (Option.some.inj hlast)
      · rw [hsplit]
        exact h.noComment

/-- Whether a line is lost because it starts like a comment. -/
def isComment (line : Text) : Bool := line.head?.any fun c => c = '#' || c = ';'

/-- What is kept of the lines that follow the first one of a value. -/
def keptLines (lines : List Text) : List Text := (lines.map Text.trim).filter (!isComment ·)

/-- What a document keeps of a value that is written into it. -/
def keptValue (value : Text) : Text :=
  match Text.split '\n' value with
  | [] => []
  | first :: lines => joinValue (first.trim :: keptLines lines)

theorem keptValue_of_split {first : Text} (hsplit : Text.split '\n' value = first :: lines) :
    keptValue value = joinValue (first.trim :: keptLines lines) := by
  rw [keptValue, hsplit]

theorem joinValue_keptValue (value : Text) : joinValue [keptValue value] = keptValue value := by
  obtain ⟨first, lines, hsplit⟩ := List.exists_cons_of_ne_nil (Text.split_ne_nil '\n' value)
  rw [keptValue_of_split hsplit, joinValue, Text.join_singleton, joinValue, Text.trimBack_trimBack]

theorem keptLines_cons (line : Text) (lines : List Text) :
    keptLines (line :: lines) = keptLines [line] ++ keptLines lines := by
  rw [keptLines, List.map_cons, ← List.singleton_append, List.filter_append]
  rfl

theorem isComment_eq_false_iff : isComment line = false ↔ ∀ c ∈ line.head?, c ≠ '#' ∧ c ≠ ';' := by
  cases line <;> simp [isComment]

/-- A value that a document can hold is kept. -/
theorem keptValue_eq_self (h : IsNormal value) : keptValue value = value := by
  obtain ⟨first, lines, hsplit⟩ := List.exists_cons_of_ne_nil (Text.split_ne_nil '\n' value)
  have htrim := h.trimmed
  have hcomment := h.noComment
  rw [hsplit] at htrim hcomment
  obtain ⟨hfirst, htrim⟩ := List.forall_mem_cons.1 htrim
  have hlines : keptLines lines = lines := by
    have hmap : lines.map Text.trim = lines := (List.map_congr_left htrim).trans (List.map_id lines)
    rw [keptLines, hmap, List.filter_eq_self]
    intro line hline
    rw [isComment_eq_false_iff.2 (hcomment line hline)]
    rfl
  rw [keptValue_of_split hsplit, hfirst, hlines, ← hsplit, joinValue_split h]

/-- What is kept of a value is one that a document can hold. -/
theorem isNormal_keptValue (h : '\r' ∉ value) : IsNormal (keptValue value) := by
  obtain ⟨first, lines, hsplit⟩ := List.exists_cons_of_ne_nil (Text.split_ne_nil '\n' value)
  have hbreak : ∀ line ∈ first :: lines, '\n' ∉ line.trim ∧ '\r' ∉ line.trim := by
    intro line hline
    rw [← hsplit] at hline
    exact ⟨fun hc => Text.not_mem_of_mem_split hline (Text.mem_of_mem_trim hc),
      fun hc => h (Text.mem_of_mem_split hline (Text.mem_of_mem_trim hc))⟩
  obtain ⟨hfirst, hbreak⟩ := List.forall_mem_cons.1 hbreak
  have hkept : ∀ line ∈ keptLines lines, (∃ l ∈ lines, l.trim = line) ∧ isComment line = false := by
    intro line hline
    obtain ⟨hmem, hcomment⟩ := List.mem_filter.1 hline
    exact ⟨List.mem_map.1 hmem, by simpa using hcomment⟩
  rw [keptValue_of_split hsplit]
  refine isNormal_joinValue ⟨by simp, List.forall_mem_cons.2 ⟨Text.trim_trim _, ?_⟩,
    List.forall_mem_cons.2 ⟨hfirst, ?_⟩, ?_⟩
  · intro line hline
    obtain ⟨⟨l, -, rfl⟩, -⟩ := hkept line hline
    exact Text.trim_trim l
  · intro line hline
    obtain ⟨⟨l, hl, rfl⟩, -⟩ := hkept line hline
    exact hbreak l hl
  · exact fun line hline => isComment_eq_false_iff.1 (hkept line hline).2

/-- Just the values that a document can hold are kept as they are. -/
theorem keptValue_eq_self_iff (h : '\r' ∉ value) : keptValue value = value ↔ IsNormal value :=
  ⟨fun heq => heq ▸ isNormal_keptValue h, keptValue_eq_self⟩

/-- No character but a line end is kept more often than it was written. -/
theorem count_keptValue_le {c : Char} (hc : c ≠ '\n') (value : Text) :
    (keptValue value).count c ≤ value.count c := by
  have hlines (lines : List Text) :
      ((keptLines lines).map (List.count c)).sum ≤ (lines.map (List.count c)).sum := by
    induction lines with
    | nil => exact Nat.le_refl _
    | cons line lines ih =>
      have hline : ((keptLines [line]).map (List.count c)).sum ≤ line.count c := by
        rw [keptLines, List.map_singleton, List.filter_singleton]
        cases isComment line.trim
        · simpa using (Text.trim_sublist line).count_le c
        · exact Nat.zero_le _
      rw [keptLines_cons, List.map_append, List.sum_append, List.map_cons, List.sum_cons]
      exact Nat.add_le_add hline ih
  obtain ⟨first, lines, hsplit⟩ := List.exists_cons_of_ne_nil (Text.split_ne_nil '\n' value)
  have hfirst : first.trim.count c ≤ first.count c := (Text.trim_sublist first).count_le c
  calc (keptValue value).count c
      ≤ (Text.join ['\n'] (first.trim :: keptLines lines)).count c := by
        rw [keptValue_of_split hsplit]
        exact (Text.trimBack_sublist _).count_le c
    _ = first.trim.count c + ((keptLines lines).map (List.count c)).sum := by
        rw [Text.count_join hc, List.map_cons, List.sum_cons]
    _ ≤ first.count c + (lines.map (List.count c)).sum := Nat.add_le_add hfirst (hlines lines)
    _ = value.count c := by
        rw [← Text.join_split '\n' value, hsplit, Text.count_join hc, List.map_cons, List.sum_cons]

end

end Lexicon.Ini
