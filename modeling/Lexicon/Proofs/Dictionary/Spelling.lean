import Lexicon.Proofs.Dictionary.Search
import Lexicon.Proofs.Language.FirstWord
import Lexicon.Proofs.Script.Kana
import Lexicon.Proofs.Text.LetterCase

/-! Searches of a text and of the same text in another script form: in hiragana instead of katakana, or in
lowercase. A form that is written character by character, in as many bytes, keeps every offset and every
front; where its variants are among those of the text, the text finds all that the form finds. -/
namespace Lexicon

namespace Text

variable {c : Char} {f : Char → Char} {s : Text}

theorem utf8Size_of_lt (h : c.toNat < 128) : c.utf8Size = 1 :=
  Char.utf8Size_eq_one_iff.2 (Nat.le_of_lt_succ h)

theorem utf8Size_eq_three (hlow : 0x800 ≤ c.toNat) (hhigh : c.toNat ≤ 0xFFFF) :
    c.utf8Size = 3 := by
  simp only [Char.utf8Size, UInt32.le_iff_toNat_le, UInt32.toNat_ofNatLT, Char.toNat_val]
  grind

/-- Characters written in as many bytes stay where they are. -/
theorem charIndex_map (h : ∀ c ∈ s, (f c).utf8Size = c.utf8Size) (byte : Int) :
    charIndex (s.map f) byte = s.charIndex byte := by
  unfold charIndex
  generalize 0 = consumed
  induction s generalizing consumed with
  | nil => rfl
  | cons c s ih =>
    obtain ⟨hc, hs⟩ := List.forall_mem_cons.1 h
    rw [List.map_cons, charIndexFrom, charIndexFrom, hc, ih hs]

/-- Of the ASCII characters only the capitals have a lowercase form. -/
theorem lowerChar_of_lt (h : c.toNat < 128) :
    lowerChar c = if 0x41 ≤ c.toNat ∧ c.toNat ≤ 0x5A then Char.ofNat (c.toNat + 32) else c := by
  have hlater : ∀ run ∈ lowercaseRuns.tail, 128 ≤ run.first := by decide +kernel
  have hnone : (lowercaseRuns.tail.find? fun run => run.Covers c.toNat) = none := by
    refine List.find?_eq_none.2 fun run hrun hcovers => ?_
    have hfirst : run.first ≤ c.toNat := (of_decide_eq_true hcovers).1
    exact absurd (hlater run hrun) (by omega)
  have hruns : lowercaseRuns = ⟨0x41, 0x5A, 1, 32⟩ :: lowercaseRuns.tail := rfl
  rw [lowerChar, hruns, List.find?_cons, hnone]
  by_cases hcapital : 0x41 ≤ c.toNat ∧ c.toNat ≤ 0x5A
  · have hcovers : CaseRun.Covers ⟨0x41, 0x5A, 1, 32⟩ c.toNat :=
      ⟨hcapital.1, hcapital.2, Nat.mod_one _⟩
    rw [decide_eq_true hcovers, if_pos hcapital]
    rfl
  · have hcovers : ¬ CaseRun.Covers ⟨0x41, 0x5A, 1, 32⟩ c.toNat :=
      fun hcovers => hcapital ⟨hcovers.1, hcovers.2.1⟩
    rw [decide_eq_false hcovers, if_neg hcapital]

theorem toNat_lowerChar_lt (h : c.toNat < 128) : (lowerChar c).toNat < 128 := by
  rw [lowerChar_of_lt h]
  split
  · have hvalid : (c.toNat + 32).isValidChar := .inl (by omega)
    have hlower : (Char.ofNat (c.toNat + 32)).toNat = c.toNat + 32 := by
      rw [Char.ofNat, dif_pos hvalid]
      rfl
    omega
  · exact h

theorem lowercase_eq_map (h : ∀ c ∈ s, c.toNat < 128) : s.lowercase = s.map lowerChar := by
  unfold lowercase
  generalize ([] : Text) = before
  induction s generalizing before with
  | nil => rfl
  | cons c s ih =>
    obtain ⟨hc, hs⟩ := List.forall_mem_cons.1 h
    have hsigma : c ≠ 'Σ' := by
      rintro rfl
      exact absurd hc (by decide)
    have hdotted : c ≠ 'İ' := by
      rintro rfl
      exact absurd hc (by decide)
    rw [lowerAfter, lowerAt, if_neg hsigma, if_neg hdotted, ih hs]
    rfl

end Text

namespace Kana

/-- Kana of both scripts take three bytes. -/
theorem utf8Size_hiraganaOf (c : Char) : (hiraganaOf c).utf8Size = c.utf8Size := by
  by_cases h : isKatakana c = true
  · obtain ⟨hfirst, hlast⟩ := isKatakana_iff.1 h
    have hhiragana := toNat_hiraganaOf h
    rw [Text.utf8Size_eq_three (c := c) (by omega) (by omega), Text.utf8Size_eq_three (by omega) (by omega)]
  · rw [hiraganaOf_of_not_isKatakana h]

end Kana

namespace Search

/-- A way to write the characters of some texts that keeps their bytes and their ideographs, with no
variants beyond those of the text that is written, and not skipped elsewhere. -/
structure Respells (l : Language) (p : Char → Prop) (f : Char → Char) : Prop where
  utf8Size_eq : ∀ c, p c → (f c).utf8Size = c.utf8Size
  eq_of_isIdeograph : ∀ c, p c → Kana.isIdeograph (f c) = true → f c = c
  variants_subset : ∀ s : Text, (∀ c ∈ s, p c) → l.variants (s.map f) ⊆ l.variants s
  skips_eq : ∀ s : Text, (∀ c ∈ s, p c) → skips l (s.map f) = skips l s

theorem respells_hiraganaOf : Respells .japanese (fun _ => True) Kana.hiraganaOf where
  utf8Size_eq c _ := Kana.utf8Size_hiraganaOf c
  eq_of_isIdeograph _ _ := Kana.hiraganaOf_eq_self_of_isIdeograph
  variants_subset s _ := by
    intro v hv
    have hspellings (t : Text) : Language.japanese.spellings t =
        [t, Kana.toHiragana t, Kana.expandMarks (Kana.toHiragana t)] := rfl
    have hmap : s.map Kana.hiraganaOf = Kana.toHiragana s := rfl
    rw [Language.variants, mem_distinct, hspellings] at hv ⊢
    rw [hmap, Kana.toHiragana_toHiragana] at hv
    exact List.mem_cons_of_mem _ (by simpa using hv)
  skips_eq _ _ := rfl

section Case

variable {l : Language}

theorem spellings_of_hasCase (h : l.hasCase = true) (s : Text) :
    l.spellings s = [s, s.lowercase] := by
  have hjapanese : l ≠ .japanese := by
    rintro rfl
    cases h
  have harabic : l ≠ .arabic := by
    rintro rfl
    cases h
  rw [Language.spellings, if_neg hjapanese, if_neg harabic, if_pos h]

theorem respells_lowerChar (h : l.hasCase = true) :
    Respells l (fun c => c.toNat < 128) Text.lowerChar where
  utf8Size_eq c hc := by
    rw [Text.utf8Size_of_lt (Text.toNat_lowerChar_lt hc), Text.utf8Size_of_lt hc]
  eq_of_isIdeograph c hc hideograph := by
    have hlower := Text.toNat_lowerChar_lt hc
    rw [Kana.isIdeograph_iff] at hideograph
    omega
  variants_subset s hs := by
    intro v hv
    rw [Language.variants, mem_distinct, spellings_of_hasCase h] at hv ⊢
    rw [← Text.lowercase_eq_map hs, Text.lowercase_idem] at hv
    have hlower : v = s.lowercase := by simpa using hv
    exact List.mem_cons_of_mem _ (List.mem_singleton.2 hlower)
  skips_eq s hs := by
    rw [← Text.lowercase_eq_map hs, skips, skips, Text.lowercase_idem,
      Text.lowercase_eq_map hs, List.length_map]

end Case

section Words

variable {source : Source} {l : Language} {p : Char → Prop} {f : Char → Char} {s w : Text}

theorem isValid_iff : isValid l s w = true ↔
    l.isIdeographic = true → ∀ c ∈ w, Kana.isIdeograph c = true → c ∈ s := by
  unfold isValid
  grind

theorem mem_words_iff : w ∈ words source l s ↔
    skips l s = false ∧ isValid l s w = true ∧
      (w = s ∨ ∃ v ∈ l.variants s, w ∈ source.deinflect l v ∧ w ≠ []) := by
  have hwords : words source l s = if skips l s then [] else
      ((candidates source.deinflect l s).map (·.word)).filter (isValid l s) := by
    unfold words admitted
    split
    · rfl
    · rw [List.filter_map]
      rfl
  have hcandidates : (candidates source.deinflect l s).map (·.word) =
      s :: (l.variants s).flatMap fun v => (source.deinflect l v).filter (!·.isEmpty) := by
    simp [candidates, List.map_flatMap, Function.comp_def]
  rw [hwords, hcandidates]
  split
  · simp [*]
  · simp [*, and_comm]

theorem self_mem_words (h : skips l s = false) : s ∈ words source l s :=
  mem_words_iff.2 ⟨h, isValid_iff.2 fun _ _ hc _ => hc, .inl rfl⟩

/-- What a front of the form gives, the front of the text gives. -/
theorem words_map_subset (hf : Respells l p f) (hself : ∀ v, v ∈ source.deinflect l v)
    (hs : ∀ c ∈ s, p c) (hne : s ≠ []) : words source l (s.map f) ⊆ words source l s := by
  intro w hw
  obtain ⟨hskips, hvalid, hword⟩ := mem_words_iff.1 hw
  refine mem_words_iff.2 ⟨hf.skips_eq s hs ▸ hskips, ?_, .inr ?_⟩
  · refine isValid_iff.2 fun hideographic c hc hideograph => ?_
    obtain ⟨d, hd, rfl⟩ := List.mem_map.1 (isValid_iff.1 hvalid hideographic c hc hideograph)
    rwa [hf.eq_of_isIdeograph d (hs d hd) hideograph]
  · rcases hword with rfl | ⟨v, hv, hmem, hwne⟩
    · -- the form is a variant of the text, and comes from itself
      have hvariant : s.map f ∈ l.variants (s.map f) :=
        List.mem_of_head? (l.head?_variants (s.map f))
      exact ⟨s.map f, hf.variants_subset s hs hvariant, hself _, mt List.map_eq_nil_iff.1 hne⟩
    · exact ⟨v, hf.variants_subset s hs hv, hmem, hwne⟩

end Words

namespace Hit

/-- The same record, found with a match at least as long. -/
structure Extends (g h : Hit) : Prop where
  word_eq : g.word = h.word
  row_eq : g.row = h.row
  stored_eq : g.stored = h.stored
  length_le : h.length ≤ g.length

theorem Extends.entry_eq {g h : Hit} (hext : g.Extends h) :
    g.entry = { h.entry with matchLength := g.length } := by
  rw [entry, entry, hext.word_eq, hext.stored_eq]

end Hit

section Window

variable {source : Source} {l : Language} {p : Char → Prop} {f : Char → Char} {window s : Text}

/-- The records of the whole window are found with all its characters. -/
theorem exists_isHit_self {i : ℕ} {r : StoredRecord} (hne : window ≠ [])
    (hskips : skips l window = false) (hr : source.Yields window i r) :
    ∃ h, IsHit source l window h ∧ h.word = window ∧ h.length = window.length := by
  have hpos : 1 ≤ window.length := List.length_pos_iff.2 hne
  have hself : window ∈ words source l (window.take window.length) := by
    rw [List.take_length]
    exact self_mem_words hskips
  obtain ⟨h, hhit, hword, -, -, hlength⟩ := exists_isHit_of_mem_words hpos le_rfl hself hr
  exact ⟨h, hhit, hword, le_antisymm hhit.spans.le hlength⟩

/-- A record found elsewhere is found in a window that gives its word with as many characters. -/
theorem exists_isHit_extends {other : Text} {h : Hit} (hhit : IsHit source l other h)
    (hle : h.length ≤ window.length) (hword : h.word ∈ words source l (window.take h.length)) :
    ∃ g, IsHit source l window g ∧ g.Extends h := by
  obtain ⟨g, hg, hgword, hrow, hstored, hlength⟩ :=
    exists_isHit_of_mem_words hhit.spans.pos hle hword hhit.yields
  exact ⟨g, hg, hgword, hrow, hstored, hlength⟩

/-- Where all records found in one text are found in another, all entries are. -/
theorem exists_mem_entries_of_extends {t : Text} {offset offset' maxLength maxLength' : Int}
    (hits : ∀ h, IsHit source l (Search.window t offset maxLength) h →
      ∃ g, IsHit source l (Search.window s offset' maxLength') g ∧ g.Extends h)
    {e : Entry} (he : e ∈ (run source t offset l maxLength).entries) :
    ∃ n, e.matchLength ≤ n ∧
      { e with matchLength := n } ∈ (run source s offset' l maxLength').entries := by
  obtain ⟨h, hhit, rfl⟩ := (mem_entries_run ..).1 he
  obtain ⟨g, hg, hext⟩ := hits h hhit
  exact ⟨g.length, hext.length_le, (mem_entries_run ..).2 ⟨g, hg, hext.entry_eq⟩⟩

/-- A record found for the form is found for the text, where the longest front of its word is no
shorter. -/
theorem exists_isHit_of_map (hf : Respells l p f) (hself : ∀ v, v ∈ source.deinflect l v)
    (hp : ∀ c ∈ window, p c) {h : Hit} (hhit : IsHit source l (window.map f) h) :
    ∃ g, IsHit source l window g ∧ g.Extends h := by
  have hle : h.length ≤ window.length := List.length_map f ▸ hhit.spans.le
  have hfront : window.take h.length ≠ [] := by
    intro hnil
    have hlength := List.length_take_of_le hle
    have hpos := hhit.spans.pos
    rw [hnil, List.length_nil] at hlength
    omega
  refine exists_isHit_extends hhit hle ?_
  refine words_map_subset hf hself (fun c hc => hp c (List.mem_of_mem_take hc)) hfront ?_
  rw [List.map_take]
  exact hhit.spans.mem

theorem window_map (hf : Respells l p f) (hp : ∀ c ∈ s, p c) (offset : Int) (maxLength : ℕ) :
    Search.window (s.map f) offset maxLength = (Search.window s offset maxLength).map f := by
  have hindex := Text.charIndex_map (fun c hc => hf.utf8Size_eq c (hp c hc)) offset
  rw [window_eq, window_eq, hindex, List.map_take, List.map_drop]

end Window

/-- Everything that a search of one text finds, a search of another finds at the same offset: in the same
row of the same word, and with a match at least as long. -/
structure Covers (source : Source) (l : Language) (offset : Int) (maxLength : ℕ) (s t : Text) :
    Prop where
  hits : ∀ h, IsHit source l (window t offset maxLength) h →
    ∃ g, IsHit source l (window s offset maxLength) g ∧ g.Extends h
  entries : ∀ e ∈ (run source t offset l maxLength).entries,
    ∃ n, e.matchLength ≤ n ∧
      { e with matchLength := n } ∈ (run source s offset l maxLength).entries

section Covers

variable {source : Source} {l : Language} {p : Char → Prop} {f : Char → Char} {s : Text}

theorem covers_map (hf : Respells l p f) (hself : ∀ v, v ∈ source.deinflect l v)
    (hp : ∀ c ∈ s, p c) (offset : Int) (maxLength : ℕ) :
    Covers source l offset maxLength s (s.map f) := by
  have hits : ∀ h, IsHit source l (window (s.map f) offset maxLength) h →
      ∃ g, IsHit source l (window s offset maxLength) g ∧ g.Extends h := by
    intro h hhit
    rw [window_map hf hp] at hhit
    refine exists_isHit_of_map hf hself (fun c hc => hp c ?_) hhit
    rw [window_eq] at hc
    exact List.mem_of_mem_drop (List.mem_of_mem_take hc)
  exact ⟨hits, fun e he => exists_mem_entries_of_extends hits he⟩

/-- Writing a text in another script form hides nothing. With the rules of the languages, a search of a
Japanese text finds all that the text in hiragana finds, and a search of an ASCII text, in a language with
case, all that the lowercase text finds. -/
theorem covers_toHiragana_and_lowercase (hdeinflect : source.deinflect = Language.deinflect)
    (s : Text) (offset : Int) (maxLength : ℕ) :
    Covers source .japanese offset maxLength s (Kana.toHiragana s) ∧
      ∀ l : Language, l.hasCase = true → (∀ c ∈ s, c.toNat < 128) →
        Covers source l offset maxLength s s.lowercase := by
  have hself (l : Language) (hkorean : l ≠ .korean) (v : Text) : v ∈ source.deinflect l v := by
    rw [hdeinflect]
    exact Language.mem_deinflect_self hkorean v
  constructor
  · exact covers_map respells_hiraganaOf (hself _ (by decide)) (fun _ _ => trivial) offset maxLength
  · intro l hcase hascii
    have hkorean : l ≠ .korean := by
      rintro rfl
      cases hcase
    rw [Text.lowercase_eq_map hascii]
    exact covers_map (respells_lowerChar hcase) (hself l hkorean) hascii offset maxLength

end Covers

/-- A store of two words. -/
def twoWords : Source where
  lookup w := some (if w = "たべる".toList ∨ w = "cat".toList then [(1, .plain [])] else [])
  decode _ := .ok ⟨1, [], .null, .null, .null⟩
  deinflect := Language.deinflect
  snapshot := []

/-- Words in katakana and with a capital are found with all their characters. -/
theorem covers_toHiragana_and_lowercase_twoWords :
    (∃ e ∈ (run twoWords "タベル".toList 0 .japanese 24).entries,
      e.word = "たべる".toList ∧ e.matchLength = 3) ∧
    ∃ e ∈ (run twoWords "Cat".toList 0 .english 24).entries,
      e.word = "cat".toList ∧ e.matchLength = 3 := by
  have hyields (w : Text) (hw : w = "たべる".toList ∨ w = "cat".toList) :
      twoWords.Yields w 0 ⟨1, [], .null, .null, .null⟩ :=
    ⟨[(1, .plain [])], 1, .plain [], congrArg some (if_pos hw), rfl, rfl, rfl⟩
  have hdeinflect : twoWords.deinflect = Language.deinflect := rfl
  obtain ⟨hjapanese, -⟩ := covers_toHiragana_and_lowercase hdeinflect "タベル".toList 0 24
  obtain ⟨-, hcase⟩ := covers_toHiragana_and_lowercase hdeinflect "Cat".toList 0 24
  have hskips : skips .japanese "たべる".toList = false ∧ skips .english "cat".toList = false := by
    decide
  have hascii : ∀ c ∈ "Cat".toList, c.toNat < 128 := by simp
  have hkana : window (Kana.toHiragana "タベル".toList) 0 24 = "たべる".toList := by decide
  have hletters : window (Text.lowercase "Cat".toList) 0 24 = "cat".toList := by decide
  constructor
  · obtain ⟨h, hhit, hword, hlength⟩ :=
      exists_isHit_self (by decide) hskips.1 (hyields _ (.inl rfl))
    obtain ⟨g, hg, hext⟩ := hjapanese.hits h (hkana.symm ▸ hhit)
    have hlast : g.length ≤ 3 := hg.spans.le
    have hfirst := hext.length_le
    rw [hlength] at hfirst
    exact ⟨g.entry, (mem_entries_run ..).2 ⟨g, hg, rfl⟩, hext.word_eq.trans hword,
      le_antisymm hlast hfirst⟩
  · obtain ⟨h, hhit, hword, hlength⟩ :=
      exists_isHit_self (by decide) hskips.2 (hyields _ (.inr rfl))
    obtain ⟨g, hg, hext⟩ := (hcase .english rfl hascii).hits h (hletters.symm ▸ hhit)
    have hlast : g.length ≤ 3 := hg.spans.le
    have hfirst := hext.length_le
    rw [hlength] at hfirst
    exact ⟨g.entry, (mem_entries_run ..).2 ⟨g, hg, rfl⟩, hext.word_eq.trans hword,
      le_antisymm hlast hfirst⟩

end Search
end Lexicon
