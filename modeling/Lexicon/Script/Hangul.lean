import Lexicon.Text.Basic

/-! Hangul syllables and the jamo they are written with. Compound vowels and clusters of final
consonants count as two jamo. -/
namespace Lexicon.Hangul

def firstSyllable : Nat := 0xAC00

def lastSyllable : Nat := 0xD7A3

/-- Consonants that open a syllable. -/
def leading : Text := "ㄱㄲㄴㄷㄸㄹㅁㅂㅃㅅㅆㅇㅈㅉㅊㅋㅌㅍㅎ".toList

def vowels : Text := "ㅏㅐㅑㅒㅓㅔㅕㅖㅗㅘㅙㅚㅛㅜㅝㅞㅟㅠㅡㅢㅣ".toList

/-- Consonants and clusters that close a syllable. -/
def trailing : Text := "ㄱㄲㄳㄴㄵㄶㄷㄹㄺㄻㄼㄽㄾㄿㅀㅁㅂㅄㅅㅆㅇㅈㅊㅋㅌㅍㅎ".toList

/-- A jamo and the two it is made of. -/
structure Compound where
  whole : Char
  first : Char
  second : Char

def compoundVowels : List Compound := [
  ⟨'ㅘ', 'ㅗ', 'ㅏ'⟩, ⟨'ㅙ', 'ㅗ', 'ㅐ'⟩, ⟨'ㅚ', 'ㅗ', 'ㅣ'⟩, ⟨'ㅝ', 'ㅜ', 'ㅓ'⟩, ⟨'ㅞ', 'ㅜ', 'ㅔ'⟩,
  ⟨'ㅟ', 'ㅜ', 'ㅣ'⟩, ⟨'ㅢ', 'ㅡ', 'ㅣ'⟩]

def clusters : List Compound := [
  ⟨'ㄳ', 'ㄱ', 'ㅅ'⟩, ⟨'ㄵ', 'ㄴ', 'ㅈ'⟩, ⟨'ㄶ', 'ㄴ', 'ㅎ'⟩, ⟨'ㄺ', 'ㄹ', 'ㄱ'⟩, ⟨'ㄻ', 'ㄹ', 'ㅁ'⟩,
  ⟨'ㄼ', 'ㄹ', 'ㅂ'⟩, ⟨'ㄽ', 'ㄹ', 'ㅅ'⟩, ⟨'ㄾ', 'ㄹ', 'ㅌ'⟩, ⟨'ㄿ', 'ㄹ', 'ㅍ'⟩, ⟨'ㅀ', 'ㄹ', 'ㅎ'⟩,
  ⟨'ㅄ', 'ㅂ', 'ㅅ'⟩]

/-- The jamo that a possibly compound one is made of. -/
def parts (compounds : List Compound) (c : Char) : Text :=
  match compounds.find? fun k => k.whole = c with
  | some k => [k.first, k.second]
  | none => [c]

/-- The compound of two jamo. -/
def combine? (compounds : List Compound) (c d : Char) : Option Char :=
  (compounds.find? fun k => k.first = c ∧ k.second = d).map (·.whole)

def isSyllable (c : Char) : Bool := firstSyllable ≤ c.toNat && c.toNat ≤ lastSyllable

def isLeading (c : Char) : Bool := c ∈ leading

def isVowel (c : Char) : Bool := c ∈ vowels

def isTrailing (c : Char) : Bool := c ∈ trailing

/-- The jamo of the syllable at an index into the block: 28 endings for each of 21 vowels. -/
def jamoAt (index : Nat) : Text :=
  let closing :=
    if index % 28 = 0 then [] else (trailing[index % 28 - 1]?.toList).flatMap (parts clusters)
  leading[index / 28 / 21]?.toList
    ++ (vowels[index / 28 % 21]?.toList).flatMap (parts compoundVowels) ++ closing

/-- Writes every syllable as its jamo. -/
def disassemble (s : Text) : Text :=
  s.flatMap fun c => if isSyllable c then jamoAt (c.toNat - firstSyllable) else [c]

/-- The syllable of an opening consonant, a vowel and an optional ending. -/
def syllable (opening vowel : Char) (closing : Option Char) : Char :=
  let ending := match closing with
    | some c => trailing.idxOf c + 1
    | none => 0
  Char.ofNat (firstSyllable + (leading.idxOf opening * 21 + vowels.idxOf vowel) * 28 + ending)

def startsWithVowel : Text → Bool
  | [] => false
  | c :: _ => isVowel c

/-- A vowel, joined with the next one when the two are a compound. -/
def takeVowel (vowel : Char) : Text → Char × Text
  | [] => (vowel, [])
  | c :: rest =>
    match combine? compoundVowels vowel c with
    | some compound => (compound, rest)
    | none => (vowel, c :: rest)

/-- A consonant that no vowel follows, joined with the next one under the same condition. -/
def takeClosing : Text → Option Char × Text
  | [] => (none, [])
  | c :: rest =>
    if isTrailing c && !startsWithVowel rest then
      match rest with
      | d :: after =>
        match combine? clusters c d with
        | some cluster => if startsWithVowel after then (some c, rest) else (some cluster, after)
        | none => (some c, rest)
      | [] => (some c, [])
    else (none, c :: rest)

/-- The syllable at the start of a jamo text. -/
def takeSyllable? : Text → Option (Char × Text)
  | opening :: vowel :: rest =>
    if isLeading opening && isVowel vowel then
      let (vowel, rest) := takeVowel vowel rest
      let (closing, rest) := takeClosing rest
      some (syllable opening vowel closing, rest)
    else none
  | _ => none

theorem length_takeVowel_le (vowel : Char) (s : Text) :
    (takeVowel vowel s).2.length ≤ s.length := by
  cases s with
  | nil => simp [takeVowel]
  | cons c rest => simp only [takeVowel]; split <;> simp

theorem length_takeClosing_le (s : Text) : (takeClosing s).2.length ≤ s.length := by
  unfold takeClosing
  repeat' split
  all_goals simp
  all_goals omega

theorem length_of_takeSyllable? {s rest : Text} {c : Char} (h : takeSyllable? s = some (c, rest)) :
    rest.length < s.length := by
  unfold takeSyllable? at h
  split at h
  · next opening vowel after =>
    split at h
    · obtain ⟨-, rfl⟩ : _ ∧ (takeClosing (takeVowel vowel after).2).2 = rest := by simpa using h
      have h₁ := length_takeVowel_le vowel after
      have h₂ := length_takeClosing_le (takeVowel vowel after).2
      simp only [List.length_cons]
      omega
    · simp at h
  · simp at h

/-- Composes jamo into syllables from the left; other characters stay. -/
def assemble (s : Text) : Text :=
  match _h : takeSyllable? s with
  | some (c, rest) => c :: assemble rest
  | none =>
    match s with
    | [] => []
    | c :: rest => c :: assemble rest
termination_by s.length
decreasing_by
  · exact length_of_takeSyllable? (by assumption)
  · simp

/-- Standalone jamo as they are typed. -/
def isCompatibilityJamo (c : Char) : Bool := 0x3131 ≤ c.toNat && c.toNat ≤ 0x318E

/-- Where shielded jamo stand, in the private use area. -/
def shieldOffset : Nat := 0xF000 - 0x3131

/-- Moves typed jamo away so that they are not composed. -/
def shield (s : Text) : Text :=
  s.map fun c => if isCompatibilityJamo c then Char.ofNat (c.toNat + shieldOffset) else c

def isShielded (c : Char) : Bool :=
  0x3131 + shieldOffset ≤ c.toNat && c.toNat ≤ 0x318E + shieldOffset

def unshield (s : Text) : Text :=
  s.map fun c => if isShielded c then Char.ofNat (c.toNat - shieldOffset) else c

end Lexicon.Hangul
