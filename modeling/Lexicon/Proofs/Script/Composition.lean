import Lexicon.Proofs.Script.Hangul
import Mathlib.Data.Set.Function

/-! Jamo composed to syllables and written out again. Whatever the text, each character of the composed
text stands for jamo that follow each other in it, and a syllable is written out as the jamo that it stands
for unless these were compound already. -/
namespace Lexicon.Hangul

/-- A jamo written as it is or as the two that it is made of. -/
def Spells (compounds : List Compound) (c : Char) (s : Text) : Prop := s = [c] ∨ s = parts compounds c

/-- The jamo of an optional ending. -/
def SpellsEnding : Option Char → Text → Prop
  | none, s => s = []
  | some c, s => Spells clusters c s

/-- What a character of a composed text stands for: itself, or the jamo of a syllable. -/
inductive StandsFor : Char → Text → Prop
  | self (c : Char) : StandsFor c [c]
  | syllable {opening vowel : Char} {closing : Option Char} {middle ending : Text}
      (hopening : opening ∈ leading) (hvowel : vowel ∈ vowels)
      (hclosing : ∀ c ∈ closing, c ∈ trailing) (hmiddle : Spells compoundVowels vowel middle)
      (hending : SpellsEnding closing ending) :
      StandsFor (syllable opening vowel closing) (opening :: middle ++ ending)

/-- A composed text and what its characters stand for. -/
inductive Composes : Text → Text → Prop
  | nil : Composes [] []
  | cons {c : Char} {jamo composed s : Text} (hc : StandsFor c jamo) (hs : Composes composed s) :
      Composes (c :: composed) (jamo ++ s)

section Tables

variable {c d w : Char}

theorem parts_of_mem_compoundVowels :
    ∀ k ∈ compoundVowels, k.whole ∈ vowels ∧ parts compoundVowels k.whole = [k.first, k.second] := by
  decide +kernel

theorem parts_of_mem_clusters :
    ∀ k ∈ clusters, k.whole ∈ trailing ∧ parts clusters k.whole = [k.first, k.second] := by
  decide +kernel

/-- A jamo that is no compound is written as it is. -/
theorem parts_eq_singleton {ks : List Compound} (h : c ∉ ks.map (·.whole)) : parts ks c = [c] := by
  rcases parts_eq ks c with hparts | ⟨k, hk, rfl, -⟩
  · exact hparts
  · exact absurd (List.mem_map_of_mem hk) h

/-- Two vowels that are joined spell a vowel. -/
theorem spells_of_combine?_compoundVowels (h : combine? compoundVowels c d = some w) :
    w ∈ vowels ∧ Spells compoundVowels w [c, d] := by
  obtain ⟨k, hk, rfl, rfl, rfl⟩ := exists_of_combine?_eq_some h
  obtain ⟨hwhole, hparts⟩ := parts_of_mem_compoundVowels k hk
  exact ⟨hwhole, .inr hparts.symm⟩

/-- Two consonants that are joined spell an ending. -/
theorem spells_of_combine?_clusters (h : combine? clusters c d = some w) :
    w ∈ trailing ∧ Spells clusters w [c, d] := by
  obtain ⟨k, hk, rfl, rfl, rfl⟩ := exists_of_combine?_eq_some h
  obtain ⟨hwhole, hparts⟩ := parts_of_mem_clusters k hk
  exact ⟨hwhole, .inr hparts.symm⟩

end Tables

section Take

variable {vowel w c : Char} {closing : Option Char} {s rest : Text}

/-- What is taken as a vowel spells it. -/
theorem exists_of_takeVowel (hvowel : vowel ∈ vowels) (h : takeVowel vowel s = (w, rest)) :
    ∃ middle, vowel :: s = middle ++ rest ∧ w ∈ vowels ∧ Spells compoundVowels w middle := by
  unfold takeVowel at h
  split at h
  · cases h
    exact ⟨[vowel], rfl, hvowel, .inl rfl⟩
  · split at h
    · next hjoined =>
      cases h
      obtain ⟨hw, hspells⟩ := spells_of_combine?_compoundVowels hjoined
      exact ⟨[vowel, _], rfl, hw, hspells⟩
    · cases h
      exact ⟨[vowel], rfl, hvowel, .inl rfl⟩

/-- What is taken as an ending spells it. -/
theorem exists_of_takeClosing (h : takeClosing s = (closing, rest)) :
    ∃ ending, s = ending ++ rest ∧ (∀ c ∈ closing, c ∈ trailing) ∧ SpellsEnding closing ending := by
  have hspelled {d : Char} {ending : Text} (hs : s = ending ++ rest) (hd : d ∈ trailing)
      (hspells : Spells clusters d ending) : ∃ ending, s = ending ++ rest ∧
        (∀ c ∈ some d, c ∈ trailing) ∧ SpellsEnding (some d) ending :=
    ⟨ending, hs, by rintro c ⟨rfl⟩; exact hd, hspells⟩
  unfold takeClosing at h
  split at h
  · cases h
    exact ⟨[], rfl, nofun, rfl⟩
  · next c s =>
    split at h
    · next htaken =>
      have hc : c ∈ trailing := of_decide_eq_true (Bool.and_eq_true_iff.1 htaken).1
      split at h
      · next d after =>
        split at h
        · next hjoined =>
          obtain ⟨hd, hspells⟩ := spells_of_combine?_clusters hjoined
          split at h
          · cases h
            exact hspelled rfl hc (.inl rfl)
          · cases h
            exact hspelled rfl hd hspells
        · cases h
          exact hspelled rfl hc (.inl rfl)
      · cases h
        exact hspelled rfl hc (.inl rfl)
    · cases h
      exact ⟨[], rfl, nofun, rfl⟩

/-- A syllable is taken from the jamo that it stands for. -/
theorem exists_of_takeSyllable? (h : takeSyllable? s = some (c, rest)) :
    ∃ jamo, s = jamo ++ rest ∧ StandsFor c jamo := by
  unfold takeSyllable? at h
  split at h
  · next opening vowel s =>
    split at h
    · next hopens =>
      obtain ⟨hopening, hvowel⟩ := Bool.and_eq_true_iff.1 hopens
      obtain ⟨middle, hmiddle, hvowel', hspells⟩ :=
        exists_of_takeVowel (of_decide_eq_true hvowel) (Prod.mk.eta (p := takeVowel vowel s)).symm
      obtain ⟨ending, hending, hclosing, hspells'⟩ :=
        exists_of_takeClosing (Prod.mk.eta (p := takeClosing (takeVowel vowel s).2)).symm
      obtain ⟨rfl, rfl⟩ : syllable opening (takeVowel vowel s).1 (takeClosing (takeVowel vowel s).2).1
          = c ∧ (takeClosing (takeVowel vowel s).2).2 = rest := by simpa using h
      refine ⟨opening :: middle ++ ending, ?_,
        .syllable (of_decide_eq_true hopening) hvowel' hclosing hspells hspells'⟩
      rw [hmiddle, List.cons_append, List.cons_append, List.append_assoc, ← hending]
    · cases h
  · cases h

end Take

/-- A text is composed whatever it is: it falls into pieces that the characters of the composed text stand
for. -/
theorem composes_assemble (s : Text) : Composes (assemble s) s := by
  induction s using assemble.induct with
  | case1 s c rest h ih =>
    obtain ⟨jamo, rfl, hc⟩ := exists_of_takeSyllable? h
    rw [assemble_of_takeSyllable? h]
    exact .cons hc ih
  | case2 =>
    rw [assemble_nil]
    exact .nil
  | case3 c rest h ih =>
    rw [assemble_cons_of_takeSyllable? h]
    exact .cons (.self c) ih

/-- The number of an ending among those of a vowel. -/
def endingIndex : Option Char → ℕ
  | none => 0
  | some c => trailing.idxOf c + 1

/-- The number of a syllable in the block. -/
def syllableIndex (opening vowel : Char) (closing : Option Char) : ℕ :=
  (leading.idxOf opening * 21 + vowels.idxOf vowel) * 28 + endingIndex closing

section Syllable

variable {opening vowel : Char} {closing : Option Char}

theorem endingIndex_lt (hclosing : ∀ c ∈ closing, c ∈ trailing) : endingIndex closing < 28 := by
  cases closing with
  | none => exact Nat.succ_pos _
  | some c =>
    have hidx : trailing.idxOf c < 27 := List.idxOf_lt_length_of_mem (hclosing c rfl)
    exact Nat.succ_lt_succ hidx

theorem syllableIndex_lt (hopening : opening ∈ leading) (hvowel : vowel ∈ vowels)
    (hclosing : ∀ c ∈ closing, c ∈ trailing) : syllableIndex opening vowel closing < 19 * 21 * 28 := by
  have hopeningIdx : leading.idxOf opening < 19 := List.idxOf_lt_length_of_mem hopening
  have hvowelIdx : vowels.idxOf vowel < 21 := List.idxOf_lt_length_of_mem hvowel
  have hendingIdx := endingIndex_lt hclosing
  unfold syllableIndex
  omega

/-- The syllable with a number in the block is a character. -/
theorem toNat_syllable (hopening : opening ∈ leading) (hvowel : vowel ∈ vowels)
    (hclosing : ∀ c ∈ closing, c ∈ trailing) : (syllable opening vowel closing).toNat =
      firstSyllable + syllableIndex opening vowel closing := by
  have hindex := syllableIndex_lt hopening hvowel hclosing
  have hvalid : (firstSyllable + syllableIndex opening vowel closing).isValidChar := by
    left
    rw [firstSyllable]
    omega
  have hchar : syllable opening vowel closing =
      Char.ofNat (firstSyllable + syllableIndex opening vowel closing) := by
    cases closing <;> exact congrArg Char.ofNat (Nat.add_assoc _ _ _)
  rw [hchar, Char.ofNat, dif_pos hvalid]
  rfl

theorem isSyllable_syllable (hopening : opening ∈ leading) (hvowel : vowel ∈ vowels)
    (hclosing : ∀ c ∈ closing, c ∈ trailing) : isSyllable (syllable opening vowel closing) = true := by
  have hindex := syllableIndex_lt hopening hvowel hclosing
  rw [isSyllable_iff, toNat_syllable hopening hvowel hclosing, firstSyllable, lastSyllable]
  omega

/-- The ending with a number among those of a vowel. -/
theorem closingParts_eq (hclosing : ∀ c ∈ closing, c ∈ trailing) : closingParts closing =
    if endingIndex closing = 0 then []
    else (trailing[endingIndex closing - 1]?.toList).flatMap (parts clusters) := by
  cases closing with
  | none => rfl
  | some c =>
    rw [endingIndex, if_neg (Nat.succ_ne_zero _), Nat.add_sub_cancel,
      List.getElem?_idxOf (hclosing c rfl)]
    rfl

/-- A syllable is written out as its parts. -/
theorem jamoAt_syllableIndex (hopening : opening ∈ leading) (hvowel : vowel ∈ vowels)
    (hclosing : ∀ c ∈ closing, c ∈ trailing) : jamoAt (syllableIndex opening vowel closing) =
      opening :: parts compoundVowels vowel ++ closingParts closing := by
  have hvowelIdx : vowels.idxOf vowel < 21 := List.idxOf_lt_length_of_mem hvowel
  have hendingIdx := endingIndex_lt hclosing
  have hblock : syllableIndex opening vowel closing / 28 =
      leading.idxOf opening * 21 + vowels.idxOf vowel := by
    unfold syllableIndex
    omega
  have hending : syllableIndex opening vowel closing % 28 = endingIndex closing := by
    unfold syllableIndex
    omega
  have hfirst : syllableIndex opening vowel closing / 28 / 21 = leading.idxOf opening := by omega
  have hmiddle : syllableIndex opening vowel closing / 28 % 21 = vowels.idxOf vowel := by omega
  rw [jamoAt, hfirst, hmiddle, hending, ← closingParts_eq hclosing, List.getElem?_idxOf hopening,
    List.getElem?_idxOf hvowel]
  simp only [Option.toList_some, List.flatMap_singleton, List.cons_append, List.nil_append]

theorem disassemble_syllable (hopening : opening ∈ leading) (hvowel : vowel ∈ vowels)
    (hclosing : ∀ c ∈ closing, c ∈ trailing) : disassemble [syllable opening vowel closing] =
      opening :: parts compoundVowels vowel ++ closingParts closing := by
  rw [disassemble, List.flatMap_singleton, if_pos (isSyllable_syllable hopening hvowel hclosing),
    toNat_syllable hopening hvowel hclosing, Nat.add_sub_cancel_left,
    jamoAt_syllableIndex hopening hvowel hclosing]

end Syllable

/-- A character that is written out already: it is no syllable, no compound vowel and no cluster. -/
structure IsSpelledOut (c : Char) : Prop where
  noSyllable : isSyllable c = false
  noCompoundVowel : c ∉ compoundVowels.map (·.whole)
  noCluster : c ∉ clusters.map (·.whole)

theorem isSpelledOut_iff {c : Char} : IsSpelledOut c ↔ isSyllable c = false ∧
    c ∉ compoundVowels.map (·.whole) ∧ c ∉ clusters.map (·.whole) :=
  ⟨fun h => ⟨h.noSyllable, h.noCompoundVowel, h.noCluster⟩, fun h => ⟨h.1, h.2.1, h.2.2⟩⟩

instance (c : Char) : Decidable (IsSpelledOut c) := decidable_of_iff _ isSpelledOut_iff.symm

section SpelledOut

variable {c : Char} {closing : Option Char} {s t jamo : Text}

/-- A jamo that is spelled by jamo which are no compounds is spelled by its parts. -/
theorem Spells.eq_parts {ks : List Compound} (h : Spells ks c s)
    (hs : ∀ d ∈ s, d ∉ ks.map (·.whole)) : s = parts ks c := by
  rcases h with rfl | h
  · exact (parts_eq_singleton (hs c (List.mem_singleton_self c))).symm
  · exact h

theorem SpellsEnding.eq_closingParts (h : SpellsEnding closing s)
    (hs : ∀ d ∈ s, d ∉ clusters.map (·.whole)) : s = closingParts closing := by
  cases closing with
  | none => exact h
  | some c =>
    rw [closingParts, Option.toList_some, List.flatMap_singleton]
    exact Spells.eq_parts h hs

/-- What a character stands for is what it is written out as. -/
theorem StandsFor.disassemble_eq (h : StandsFor c jamo) (hjamo : ∀ d ∈ jamo, IsSpelledOut d) :
    disassemble [c] = jamo := by
  cases h with
  | self =>
    rw [disassemble, List.flatMap_singleton,
      (hjamo c (List.mem_singleton_self c)).noSyllable]
    rfl
  | syllable hopening hvowel hclosing hmiddle hending =>
    obtain ⟨hjamo, hjamo'⟩ := List.forall_mem_append.1 hjamo
    have hparts := hmiddle.eq_parts fun d hd => (hjamo d (List.mem_cons_of_mem _ hd)).noCompoundVowel
    have hparts' := hending.eq_closingParts fun d hd => (hjamo' d hd).noCluster
    rw [disassemble_syllable hopening hvowel hclosing, hparts, hparts']

/-- However a text is composed, it is written out again. -/
theorem Composes.disassemble_eq (h : Composes t s) (hs : ∀ c ∈ s, IsSpelledOut c) :
    disassemble t = s := by
  induction h with
  | nil => rfl
  | @cons c jamo composed s hc _ ih =>
    obtain ⟨hjamo, hs⟩ := List.forall_mem_append.1 hs
    rw [← List.singleton_append, disassemble_append, hc.disassemble_eq hjamo, ih hs]

/-- The characters of a composed text are syllables or stood there before. -/
theorem Composes.mem_or_isSyllable (h : Composes t s) (hc : c ∈ t) : c ∈ s ∨ isSyllable c = true := by
  induction h with
  | nil => cases hc
  | @cons d jamo composed s hd _ ih =>
    rcases List.mem_cons.1 hc with rfl | hc
    · cases hd with
      | self => exact .inl (List.mem_cons_self ..)
      | syllable hopening hvowel hclosing =>
        exact .inr (isSyllable_syllable hopening hvowel hclosing)
    · exact (ih hc).imp_left (List.mem_append_right jamo)

end SpelledOut

/-- Every text is composed: it falls into pieces, and each stands as it is or is put together to a syllable
that there is. What was written out before is written out again, so that no two such texts are composed to
one word. -/
theorem disassemble_assemble :
    (∀ s, Composes (assemble s) s ∧ ∀ c ∈ assemble s, c ∈ s ∨ isSyllable c = true) ∧
      (∀ s, (∀ c ∈ s, IsSpelledOut c) → disassemble (assemble s) = s) ∧
      Set.InjOn assemble {s | ∀ c ∈ s, IsSpelledOut c} := by
  have hinverse : ∀ s, (∀ c ∈ s, IsSpelledOut c) → disassemble (assemble s) = s := fun s hs =>
    (composes_assemble s).disassemble_eq hs
  refine ⟨fun s => ⟨composes_assemble s, fun c => (composes_assemble s).mem_or_isSyllable⟩, hinverse, ?_⟩
  intro s hs t ht h
  rw [← hinverse s hs, h, hinverse t ht]

/-- A stray consonant, one that opens a syllable although it could form a cluster, a compound vowel, and one
that closes no syllable. -/
theorem disassemble_assemble_stray :
    (∀ c ∈ "ㅋㅋㅏㄹㄱㅗㅏㄸ".toList, IsSpelledOut c) ∧
      disassemble (assemble "ㅋㅋㅏㄹㄱㅗㅏㄸ".toList) = "ㅋㅋㅏㄹㄱㅗㅏㄸ".toList := by
  have hall : "ㅋㅋㅏㄹㄱㅗㅏㄸ".toList.all (fun c => decide (IsSpelledOut c)) = true := by
    decide +kernel
  have h : ∀ c ∈ "ㅋㅋㅏㄹㄱㅗㅏㄸ".toList, IsSpelledOut c :=
    fun c hc => of_decide_eq_true (List.all_eq_true.1 hall c hc)
  exact ⟨h, disassemble_assemble.2.1 _ h⟩

end Lexicon.Hangul
