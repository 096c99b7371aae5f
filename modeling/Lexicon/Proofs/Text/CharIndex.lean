import Lexicon.Proofs.Text.Basic
import Mathlib.Data.List.Infix
import Mathlib.Data.Int.Notation
import Mathlib.Data.Nat.Notation

/-! Characters at byte offsets. A character stands before the one at an offset when it ends at the offset or
earlier. So the index of the character at an offset counts the fronts of the text that are no longer than
the offset, it grows with the offset, and where a character starts it is the number of those before. -/
namespace Lexicon.Text

variable {s t : Text} {byte : ℤ} {i k : ℕ}

section Size

theorem toBytes_cons (c : Char) (s : Text) :
    toBytes (c :: s) = String.utf8EncodeChar c ++ toBytes s := by
  simp only [toBytes, toList_byteArray, String.toUTF8_eq_toByteArray, String.toByteArray_ofList]
  simp [List.utf8Encode]

/-- The encoded size is the number of bytes of the encoded text. -/
theorem length_toBytes (s : Text) : s.toBytes.length = s.byteSize := by
  induction s with
  | nil => rw [toBytes_nil]; rfl
  | cons c s ih =>
    rw [toBytes_cons, List.length_append, String.length_utf8EncodeChar, ih, byteSize_cons]

theorem byteSize_le_of_prefix (h : s <+: t) : s.byteSize ≤ t.byteSize := by
  obtain ⟨rest, rfl⟩ := h
  rw [byteSize_append]
  exact Nat.le_add_right _ _

theorem byteSize_take_add_one (h : k < s.length) :
    byteSize (s.take (k + 1)) = byteSize (s.take k) + s[k].utf8Size := by
  rw [List.take_add_one, List.getElem?_eq_getElem h, byteSize_append]
  rfl

/-- Of two fronts the one with more characters has more bytes. -/
theorem byteSize_take_le_iff (hi : i ≤ s.length) :
    byteSize (s.take i) ≤ byteSize (s.take k) ↔ i ≤ k := by
  constructor
  · intro hsize
    by_contra hlt
    rw [Nat.not_le] at hlt
    have hnext : byteSize (s.take (k + 1)) ≤ byteSize (s.take i) :=
      byteSize_le_of_prefix (List.take_prefix_take_left hlt)
    have hwidth : 0 < s[k].utf8Size := Char.utf8Size_pos _
    rw [byteSize_take_add_one (by omega)] at hnext
    omega
  · intro hle
    exact byteSize_le_of_prefix (List.take_prefix_take_left hle)

end Size

section Index

theorem lt_charIndexFrom_iff (consumed : ℕ) (s : Text) (byte : ℤ) (k : ℕ) :
    k < charIndexFrom consumed s byte ↔
      k < s.length ∧ consumed + byteSize (s.take (k + 1)) ≤ byte := by
  induction s generalizing consumed k with
  | nil => simp [charIndexFrom]
  | cons c s ih =>
    rw [charIndexFrom, List.take_succ_cons, byteSize_cons, List.length_cons]
    split
    case isTrue hbyte => omega
    case isFalse hbyte =>
      cases k with
      | zero =>
        rw [List.take_zero, byteSize_nil]
        omega
      | succ k =>
        have ih := ih (consumed + c.utf8Size) k
        omega

/-- The characters before the one at an offset are those that end at the offset or earlier. -/
theorem lt_charIndex_iff :
    k < s.charIndex byte ↔ k < s.length ∧ (byteSize (s.take (k + 1)) : ℤ) ≤ byte := by
  rw [charIndex, lt_charIndexFrom_iff, Int.natCast_zero, Int.zero_add]

theorem charIndex_le_length (s : Text) (byte : ℤ) : s.charIndex byte ≤ s.length :=
  Nat.le_of_not_lt fun h => Nat.lt_irrefl _ (lt_charIndex_iff.1 h).1

theorem charIndex_mono (s : Text) {a b : ℤ} (hab : a ≤ b) : s.charIndex a ≤ s.charIndex b := by
  refine Nat.le_of_not_lt fun h => ?_
  obtain ⟨hlength, hsize⟩ := lt_charIndex_iff.1 h
  exact Nat.lt_irrefl _ (lt_charIndex_iff.2 ⟨hlength, Int.le_trans hsize hab⟩)

theorem charIndex_of_nonpos (h : byte ≤ 0) : s.charIndex byte = 0 := by
  refine Nat.eq_zero_of_not_pos fun hpos => ?_
  obtain ⟨hlength, hsize⟩ := lt_charIndex_iff.1 hpos
  have hwidth : 0 < s[0].utf8Size := Char.utf8Size_pos _
  rw [byteSize_take_add_one hlength] at hsize
  omega

theorem charIndex_of_byteSize_le (h : (s.byteSize : ℤ) ≤ byte) : s.charIndex byte = s.length := by
  refine Nat.le_antisymm (charIndex_le_length s byte) (Nat.le_of_not_lt fun hlt => ?_)
  have hsize : byteSize (s.take (s.charIndex byte + 1)) ≤ s.byteSize :=
    byteSize_le_of_prefix (List.take_prefix _ _)
  exact Nat.lt_irrefl _ (lt_charIndex_iff.2 ⟨hlt, by omega⟩)

/-- The offset where a character starts leads back to the character. -/
theorem charIndex_byteSize_take (hk : k ≤ s.length) : s.charIndex (byteSize (s.take k)) = k := by
  have hlt (i : ℕ) : i < s.charIndex (byteSize (s.take k)) ↔ i < k := by
    rw [lt_charIndex_iff, Int.ofNat_le]
    constructor
    · rintro ⟨hlength, hsize⟩
      exact (byteSize_take_le_iff hlength).1 hsize
    · intro hik
      exact ⟨by omega, (byteSize_take_le_iff (by omega)).2 hik⟩
  have hself := hlt k
  have hindex := hlt (s.charIndex (byteSize (s.take k)))
  omega

/-- Inside the text the character with the index holds the byte at the offset. -/
theorem exists_append_cons_of_charIndex (hpos : 0 ≤ byte) (hbyte : byte < s.byteSize) :
    ∃ front c rest, s = front ++ c :: rest ∧ front.length = s.charIndex byte ∧
      (byteSize front : ℤ) ≤ byte ∧ byte < byteSize (front ++ [c]) := by
  have hbefore : (byteSize (s.take (s.charIndex byte)) : ℤ) ≤ byte := by
    cases hindex : s.charIndex byte with
    | zero => exact hpos
    | succ i => exact (lt_charIndex_iff.1 (hindex ▸ Nat.lt_succ_self i)).2
  have hlength : s.charIndex byte < s.length := by
    refine Nat.lt_of_le_of_ne (charIndex_le_length s byte) fun hall => ?_
    rw [hall, List.take_length] at hbefore
    omega
  have hafter : byte < byteSize (s.take (s.charIndex byte + 1)) := by
    by_contra hle
    exact Nat.lt_irrefl _ (lt_charIndex_iff.2 ⟨hlength, by omega⟩)
  refine ⟨s.take (s.charIndex byte), s[s.charIndex byte], s.drop (s.charIndex byte + 1), ?_, ?_,
    hbefore, ?_⟩
  · rw [List.getElem_cons_drop, List.take_append_drop]
  · exact List.length_take_of_le (charIndex_le_length s byte)
  · rwa [List.take_append_getElem]

end Index

section Fronts

/-- The fronts of a text, from the empty one to the text itself. -/
theorem inits_eq_map_take (s : Text) : s.inits = (List.range (s.length + 1)).map s.take := by
  refine List.ext_getElem (by simp) fun n h h' => ?_
  rw [List.getElem_inits, List.getElem_map, List.getElem_range]

theorem countP_lt_range {n : ℕ} (h : k ≤ n) : (List.range n).countP (· < k) = k := by
  obtain ⟨m, rfl⟩ := Nat.exists_eq_add_of_le h
  rw [List.range_add, List.countP_append, List.countP_eq_length.2, List.countP_eq_zero.2]
  · simp
  · simp
  · simp

/-- The index of the character at an offset counts the fronts that are no longer than the offset. -/
theorem charIndex_eq_countP_inits (s : Text) (byte : ℤ) :
    s.charIndex byte = s.inits.countP fun front => front ≠ [] ∧ (byteSize front : ℤ) ≤ byte := by
  rw [inits_eq_map_take, List.countP_map, List.range_succ_eq_map, List.countP_cons_of_neg (by simp),
    List.countP_map, ← countP_lt_range (charIndex_le_length s byte)]
  refine List.countP_congr fun k hk => ?_
  have hk := List.mem_range.1 hk
  have hne : s.take (k + 1) ≠ [] := by
    rw [← List.length_pos_iff, List.length_take_of_le hk]
    exact Nat.succ_pos k
  simp [lt_charIndex_iff, hk, hne]

end Fronts

/-- The index of the character at a byte offset counts the non-empty fronts of the text that have at most so
many bytes. It is zero for offsets that are not positive and the length of the text from its end on, and in
between it is the place of the character that holds the byte. It grows with the offset, and the number of
bytes of the first characters leads to the number of these characters. -/
theorem charIndex_locates_bytes (s : Text) :
    (∀ byte : ℤ,
      s.charIndex byte = s.inits.countP
        (fun front => front ≠ [] ∧ ((toBytes front).length : ℤ) ≤ byte) ∧
      (byte ≤ 0 → s.charIndex byte = 0) ∧
      ((s.toBytes.length : ℤ) ≤ byte → s.charIndex byte = s.length) ∧
      (0 ≤ byte → byte < s.toBytes.length → ∃ front c rest, s = front ++ c :: rest ∧
        front.length = s.charIndex byte ∧ ((toBytes front).length : ℤ) ≤ byte ∧
        byte < (toBytes (front ++ [c])).length)) ∧
    (∀ a b : ℤ, a ≤ b → s.charIndex a ≤ s.charIndex b) ∧
    ∀ k ≤ s.length, s.charIndex (toBytes (s.take k)).length = k := by
  simp only [length_toBytes]
  exact ⟨fun byte => ⟨charIndex_eq_countP_inits s byte, charIndex_of_nonpos,
    charIndex_of_byteSize_le, exists_append_cons_of_charIndex⟩, fun _ _ => charIndex_mono s,
    fun _ => charIndex_byteSize_take⟩

/-- Before, behind and inside a text with a character of each width, and at the start of its last one. -/
theorem charIndex_locates_bytes_fourWidths :
    charIndex "aé食😀".toList (-3) = 0 ∧ charIndex "aé食😀".toList 10 = 4 ∧
      (∃ front c rest, "aé食😀".toList = front ++ c :: rest ∧
        front.length = charIndex "aé食😀".toList 4 ∧ ((toBytes front).length : ℤ) ≤ 4 ∧
        4 < ((toBytes (front ++ [c])).length : ℤ)) ∧
      charIndex "aé食😀".toList (toBytes ("aé食😀".toList.take 3)).length = 3 := by
  have hlength : (toBytes "aé食😀".toList).length = 10 := by
    rw [length_toBytes]
    decide
  obtain ⟨hbyte, -, hstart⟩ := charIndex_locates_bytes "aé食😀".toList
  exact ⟨(hbyte (-3)).2.1 (by decide), (hbyte 10).2.2.1 (by rw [hlength]; decide),
    (hbyte 4).2.2.2 (by decide) (by rw [hlength]; decide), hstart 3 (by decide)⟩

end Lexicon.Text
