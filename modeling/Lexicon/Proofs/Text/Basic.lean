import Lexicon.Text.Bytes
import Mathlib.Data.List.Basic
import Mathlib.Data.List.TakeWhile

/-! Texts cut where a test first fails or behind a letter, texts of code points in order, and texts read back
from their bytes. -/
namespace Lexicon

namespace TextOf

section
variable {γ : Type} {p : γ → Bool} {s t : TextOf γ}

theorem dropWhile_eq_self (h : ∀ c ∈ s.head?, p c = false) : s.dropWhile p = s := by
  cases s with
  | nil => rfl
  | cons c s => simp [h c rfl]

theorem takeWhile_eq_nil (h : ∀ c ∈ s.head?, p c = false) : s.takeWhile p = [] := by
  cases s with
  | nil => rfl
  | cons c s => simp [h c rfl]

/-- A cut falls between two texts when only the first one passes the test. -/
theorem takeWhile_append_eq (hs : ∀ c ∈ s, p c = true) (ht : ∀ c ∈ t.head?, p c = false) :
    (s ++ t).takeWhile p = s := by
  rw [List.takeWhile_append_of_pos hs, takeWhile_eq_nil ht, List.append_nil]

theorem dropWhile_append_eq (hs : ∀ c ∈ s, p c = true) (ht : ∀ c ∈ t.head?, p c = false) :
    (s ++ t).dropWhile p = t := by
  rw [List.dropWhile_append_of_pos hs, dropWhile_eq_self ht]

end

section
variable {γ : Type} [DecidableEq γ]

theorem startsWith_self (s : TextOf γ) : startsWith s s = true := by
  simpa [startsWith] using congrArg Option.isSome (dropFront?_append s [])

theorem endsWith_self (s : TextOf γ) : endsWith s s = true := by
  simpa [endsWith] using congrArg Option.isSome (dropBack?_append [] s)

/-- An ending without a letter is looked for behind it. -/
theorem dropBack?_append_cons {c : γ} {back : TextOf γ} (hc : c ∉ back) (front s : TextOf γ) :
    (front ++ c :: s).dropBack? back = (s.dropBack? back).map fun rest => front ++ c :: rest := by
  ext rest
  simp only [Option.map_eq_some_iff, dropBack?_eq_some_iff]
  constructor
  · intro h
    rcases List.append_eq_append_iff.1 h with ⟨stem, rfl, hstem⟩ | ⟨more, -, rfl⟩
    · cases stem with
      | nil =>
        obtain rfl : c :: s = back := hstem
        exact absurd List.mem_cons_self hc
      | cons d stem =>
        obtain ⟨rfl, rfl⟩ := List.cons.inj hstem
        exact ⟨stem, rfl, rfl⟩
    · exact absurd (by simp) hc
  · rintro ⟨stem, rfl, rfl⟩
    simp

end

end TextOf

/-- The surrogates lie in the gap that the characters leave. -/
theorem CodePoint.toNat_inj {a b : CodePoint} (h : a.toNat = b.toNat) : a = b := by
  have hgap (c : Char) (n : Fin 0x800) : c.toNat ≠ firstSurrogate + n := by
    have hvalid : c.toNat < 0xD800 ∨ 0xDFFF < c.toNat ∧ c.toNat < 0x110000 := c.valid
    have hlt := n.isLt
    unfold firstSurrogate
    omega
  cases a with
  | char c =>
    cases b with
    | char d => exact congrArg char (Char.toNat_inj.1 h)
    | surrogate n => exact absurd h (hgap c n)
  | surrogate m =>
    cases b with
    | char d => exact absurd h.symm (hgap d m)
    | surrogate n => exact congrArg surrogate (Fin.ext (Nat.add_left_cancel h))

namespace RawText

@[simp] theorem isSome_text?_nil : (TextOf.text? ([] : RawText)).isSome = true := rfl

@[simp] theorem isSome_text?_cons (a : CodePoint) (s : RawText) :
    (TextOf.text? (a :: s)).isSome = ((Letter.char? a).isSome && s.text?.isSome) := by
  cases ha : Letter.char? a <;> cases hs : s.text? <;> simp [TextOf.text?, ha, hs]

@[simp] theorem isSome_text?_append (s t : RawText) :
    (TextOf.text? (s ++ t)).isSome = (s.text?.isSome && t.text?.isSome) := by
  induction s with
  | nil => simp
  | cons a s ih => simp [ih, Bool.and_assoc]

theorem le_cons_cons_iff {c d : CodePoint} {s t : RawText} :
    TextOf.le (c :: s) (d :: t) = true ↔ c < d ∨ c = d ∧ TextOf.le s t = true := by
  simp [TextOf.le]

protected theorem le_trans {s t u : RawText} (hst : TextOf.le s t = true)
    (htu : TextOf.le t u = true) : TextOf.le s u = true := by
  induction s generalizing t u with
  | nil => rfl
  | cons c s ih =>
    cases t with
    | nil => cases hst
    | cons d t =>
      cases u with
      | nil => cases htu
      | cons e u =>
        rw [le_cons_cons_iff] at hst htu ⊢
        rcases hst with hcd | ⟨rfl, hst⟩
        · rcases htu with hde | ⟨rfl, -⟩
          · exact .inl (Nat.lt_trans hcd hde)
          · exact .inl hcd
        · exact htu.imp_right (And.imp_right (ih hst))

protected theorem le_total (s t : RawText) : (TextOf.le s t || TextOf.le t s) = true := by
  rw [Bool.or_eq_true]
  induction s generalizing t with
  | nil => exact .inl rfl
  | cons c s ih =>
    cases t with
    | nil => exact .inr rfl
    | cons d t =>
      rw [le_cons_cons_iff, le_cons_cons_iff]
      have hcases : c < d ∨ c = d ∨ d < c :=
        (Nat.lt_trichotomy c.toNat d.toNat).imp_right (Or.imp_left CodePoint.toNat_inj)
      rcases hcases with hcd | rfl | hdc
      · exact .inl (.inl hcd)
      · exact (ih t).imp (fun h => .inr ⟨rfl, h⟩) fun h => .inr ⟨rfl, h⟩
      · exact .inr (.inl hdc)

theorem eq_of_le_of_le {s t : RawText} (hst : TextOf.le s t = true) (hts : TextOf.le t s = true) :
    s = t := by
  induction s generalizing t with
  | nil =>
    cases t with
    | nil => rfl
    | cons => cases hts
  | cons c s ih =>
    cases t with
    | nil => cases hst
    | cons d t =>
      rw [le_cons_cons_iff] at hst hts
      rcases hst with hcd | ⟨rfl, hst⟩
      · rcases hts with hdc | ⟨rfl, -⟩
        · exact absurd hdc (Nat.lt_asymm hcd)
        · exact absurd hcd (Nat.lt_irrefl _)
      · exact congrArg (c :: ·) (ih hst (hts.resolve_left (Nat.lt_irrefl _)).2)

end RawText

namespace Text

theorem toList_byteArray (bytes : ByteArray) : bytes.toList = bytes.data.toList := by
  suffices hloop : ∀ i read, ByteArray.toList.loop bytes i read
      = read.reverse ++ bytes.data.toList.drop i by
    simp [ByteArray.toList, hloop]
  intro i read
  fun_induction ByteArray.toList.loop bytes i read with
  | case1 i read hi ih =>
    have hget : bytes.get! i = bytes.data.toList[i] := getElem!_pos bytes.data i hi
    rw [ih, hget, List.reverse_cons, List.append_assoc, List.singleton_append,
      List.getElem_cons_drop]
  | case2 i read hi =>
    have hdrop : bytes.data.toList.drop i = [] := List.drop_eq_nil_of_le (Nat.le_of_not_lt hi)
    rw [hdrop, List.append_nil]

theorem toBytes_nil : toBytes [] = [] := by
  rw [toBytes, toList_byteArray]
  rfl

@[simp] theorem ofBytes?_toBytes (s : Text) : ofBytes? s.toBytes = some s := by
  have hbytes : s.toBytes.toByteArray = s.utf8Encode := by
    rw [toBytes, toList_byteArray, String.toUTF8_eq_toByteArray, String.toByteArray_ofList]
    exact ByteArray.ext (Array.toList_inj.1 List.toList_data_toByteArray)
  simp [ofBytes?, hbytes]

end Text
end Lexicon
