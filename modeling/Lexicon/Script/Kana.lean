import Lexicon.Text.Basic

/-! The two kana scripts, the mark that prolongs a vowel, and ideographs. -/
namespace Lexicon.Kana

/-- The katakana that have a hiragana counterpart. -/
def isKatakana (c : Char) : Bool := 0x30A1 ≤ c.toNat && c.toNat ≤ 0x30F6

/-- Hiragana lie `0x60` code points below their katakana. -/
def hiraganaOf (c : Char) : Char := if isKatakana c then Char.ofNat (c.toNat - 0x60) else c

def toHiragana (s : Text) : Text := s.map hiraganaOf

/-- The kana of each vowel, and the vowel that a mark after them stands for. A long o is written
with う. -/
def vowelRows : List (Text × Char) := [
  ("ぁあかがさざただなはばぱまやゃらわゎ".toList, 'あ'),
  ("ぃいきぎしじちぢにひびぴみりゐ".toList, 'い'),
  ("ぅうくぐすずつづぬふぶぷむゆゅる".toList, 'う'),
  ("ぇえけげせぜてでねへべぺめれゑ".toList, 'え'),
  ("ぉおこごそぞとどのほぼぽもよょろを".toList, 'う')]

/-- The vowel of the first row that holds the given kana as a run; the empty run is in the first. -/
def vowelOf (kana : Text) : Option Char :=
  (vowelRows.find? fun row => row.1.contains kana).map (·.2)

def prolongedMark : Char := 'ー'

/-- Replaces the marks in a text that follows `previous`. A vowel written for a mark is the
character before the next one. -/
def expandAfter (previous : Option Char) : Text → Text
  | [] => []
  | c :: s =>
    let vowel := if c = prolongedMark then previous.bind fun p => vowelOf [p] else none
    let written := vowel.getD c
    written :: expandAfter (some written) s

/-- Writes every prolonging mark as the vowel of the kana before it. -/
def expandMarks (s : Text) : Text := expandAfter none s

@[simp] theorem toHiragana_nil : toHiragana [] = [] := rfl

@[simp] theorem length_expandAfter (previous : Option Char) (s : Text) :
    (expandAfter previous s).length = s.length := by
  induction s generalizing previous with
  | nil => rfl
  | cons c s ih => simp [expandAfter, ih]

example : expandMarks "すーーぱ".toList = "すううぱ".toList := by decide

/-- The block of unified ideographs. -/
def isIdeograph (c : Char) : Bool := '一' ≤ c && c ≤ '\u9FFF'

/-- Whether a text lies between the one-character texts of the first and the last ideograph. -/
def inIdeographs (s : Text) : Bool := TextOf.le ['一'] s && TextOf.le s ['\u9FFF']

end Lexicon.Kana
