import Lexicon.Json.Printer
import Lexicon.Proofs.Json.Basic
import Lexicon.Proofs.Json.Number
import Lexicon.Proofs.Json.Reader
import Lexicon.Proofs.Text.Basic

/-! The text of a value read back. Every value is read up to the end of its own text, whatever
follows, as long as what follows cannot go on with a number. Hence values are told apart by their
texts, and by their canonical texts up to the order of members. -/
namespace Lexicon

namespace RawText

@[simp] theorem front_raw_append (s : Text) (t : RawText) : front (s.raw ++ t) = s ++ front t := by
  induction s with
  | nil => rfl
  | cons c s ih => exact congrArg (c :: ·) ih

@[simp] theorem afterFront_raw_append (s : Text) (t : RawText) :
    afterFront (s.raw ++ t) = afterFront t := by
  induction s with
  | nil => rfl
  | cons c s ih => exact ih

theorem raw_front_append_afterFront (s : RawText) : s.front.raw ++ s.afterFront = s := by
  induction s with
  | nil => rfl
  | cons a s ih =>
    cases a with
    | char c => exact congrArg (CodePoint.char c :: ·) ih
    | surrogate n => rfl

end RawText

namespace Json

section Strings

theorem hexUnit?_hexDigits :
    ∀ n < 32, hexUnit? (Text.hexDigit (n / 16 / 16 / 16 % 16)) (Text.hexDigit (n / 16 / 16 % 16))
      (Text.hexDigit (n / 16 % 16)) (Text.hexDigit (n % 16)) = some (.char (Char.ofNat n)) := by
  decide

theorem hexDigits_four (n : ℕ) :
    Text.hexDigits 4 n = [Text.hexDigit (n / 16 / 16 / 16 % 16), Text.hexDigit (n / 16 / 16 % 16),
      Text.hexDigit (n / 16 % 16), Text.hexDigit (n % 16)] :=
  rfl

/-- The escape of a character is never one half of another one. -/
theorem stringBody?_of_hexUnit? {a b c d : CodePoint} {x : Char} (h : hexUnit? a b c d = some (.char x))
    (rest : RawText) :
    stringBody? (.char '\\' :: .char 'u' :: a :: b :: c :: d :: rest)
      = prepended x (stringBody? rest) := by
  have hjoined (unit? : Option CodePoint) : unit?.bind (CodePoint.char x).joined? = none := by
    cases unit? <;> rfl
  rw [stringBody?.eq_def]
  simp only [h]
  split
  · contradiction
  · next hunit =>
    obtain rfl := Option.some.inj hunit
    rw [hjoined]
  · next hunit _ =>
    obtain rfl := Option.some.inj hunit
    rfl

/-- A letter of a text is read back from what is written for it. -/
theorem stringBody?_escapePoint (a : CodePoint) (rest : RawText) :
    stringBody? (escapePoint a ++ rest) = prepended a (stringBody? rest) := by
  cases a with
  | surrogate n =>
    have hcontrol : ¬ (CodePoint.surrogate n).toNat < 0x20 := by
      simp only [CodePoint.toNat, CodePoint.firstSurrogate]
      omega
    exact if_neg hcontrol
  | char c =>
    by_cases hnamed : c ∈ ['"', '\\', '\n', '\r', '\t', '\x08', '\x0c']
    · simp only [List.mem_cons, List.not_mem_nil, or_false] at hnamed
      rcases hnamed with rfl | rfl | rfl | rfl | rfl | rfl | rfl <;> rfl
    · simp only [List.mem_cons, List.not_mem_nil, or_false, not_or] at hnamed
      obtain ⟨hquote, hslash, hnamed⟩ := hnamed
      by_cases hcontrol : c.toNat < 0x20
      · have hescape : escapeChar c = '\\' :: 'u' :: Text.hexDigits 4 c.toNat := by
          simp [escapeChar, hquote, hslash, hnamed, hcontrol]
        have hunit := hexUnit?_hexDigits c.toNat hcontrol
        rw [Char.ofNat_toNat] at hunit
        rw [escapePoint, hescape, hexDigits_four]
        exact stringBody?_of_hexUnit? hunit rest
      · have hescape : escapeChar c = [c] := by
          simp [escapeChar, hquote, hslash, hnamed, hcontrol]
        rw [escapePoint, hescape]
        rw [Text.raw_cons, Text.raw_nil, List.singleton_append, stringBody?]
        · exact if_neg hcontrol
        · simpa using hquote
        · simp [hslash]
        · simp [hslash]

theorem stringBody?_flatMap (s rest : RawText) :
    stringBody? (s.flatMap escapePoint ++ .char '"' :: rest) = some (s, rest) := by
  induction s with
  | nil => rfl
  | cons a s ih =>
    rw [List.flatMap_cons, List.append_assoc, stringBody?_escapePoint, ih]
    rfl

/-- A quoted string is read up to its closing quote. -/
theorem stringText_append (s rest : RawText) :
    stringText s ++ rest = .char '"' :: (s.flatMap escapePoint ++ .char '"' :: rest) := by
  rw [stringText, List.cons_append, List.cons_append, List.append_assoc, List.singleton_append]

end Strings

section Layout

/-- Separators that differ from a comma and a colon by blanks only. -/
structure Separators.IsPlain (seps : Separators) : Prop where
  item : ∃ blanks, seps.item = .char ',' :: blanks ∧ ∀ a ∈ blanks, isSpace a = true
  key : ∃ blanks, seps.key = .char ':' :: blanks ∧ ∀ a ∈ blanks, isSpace a = true

theorem isPlain_tight : Separators.tight.IsPlain := ⟨⟨[], rfl, by simp⟩, ⟨[], rfl, by simp⟩⟩

theorem isPlain_spaced : Separators.spaced.IsPlain :=
  ⟨⟨[' '], rfl, by simp [isSpace]⟩, ⟨[' '], rfl, by simp [isSpace]⟩⟩

variable {limit : ℕ} {seps : Separators} {rest : RawText}

/-- What can start the text of a value: neither a blank nor a closing bracket. -/
def StartsValue (s : RawText) : Prop :=
  ∃ a tail, s = a :: tail ∧ isSpace a = false ∧ a ≠ .char ']'

theorem startsValue_of_spells {s : Text} {v : Json} (h : Spells limit s v) : StartsValue s.raw := by
  obtain ⟨negative, c, tail, rfl, hc, -⟩ := h
  cases negative with
  | true => exact ⟨.char '-', Text.raw (c :: tail), rfl, by decide, by decide⟩
  | false =>
    have hdigit := Text.forall_isDigit
      (p := fun c => isSpace (.char c) = false ∧ CodePoint.char c ≠ .char ']') (by decide) hc
    exact ⟨.char c, Text.raw tail, rfl, hdigit⟩

theorem startsValue_render (seps : Separators) (v : Json) : StartsValue (render seps v) := by
  cases v with
  | null => exact ⟨.char 'n', _, rfl, by decide, by decide⟩
  | bool b => cases b <;> exact ⟨_, _, rfl, by decide, by decide⟩
  | int n => exact startsValue_of_spells (spells_ofInt (Nat.le_refl _))
  | float x => exact startsValue_of_spells (spells_toText 0 x)
  | infinity negative => cases negative <;> exact ⟨_, _, rfl, by decide, by decide⟩
  | str s => exact ⟨.char '"', _, rfl, by decide, by decide⟩
  | array items => cases items <;> exact ⟨.char '[', _, rfl, by decide, by decide⟩
  | object fields => cases fields <;> exact ⟨.char '\x7b', _, rfl, by decide, by decide⟩

/-- Blanks before a value are skipped, and nothing of the value. -/
theorem skipSpace_append {blanks s : RawText} (hblanks : ∀ a ∈ blanks, isSpace a = true)
    (hs : StartsValue s) (rest : RawText) : skipSpace (blanks ++ (s ++ rest)) = s ++ rest := by
  obtain ⟨c, tail, rfl, hc, -⟩ := hs
  refine TextOf.dropWhile_append_eq hblanks ?_
  rintro c ⟨⟩
  exact hc

/-- A value that is read back from its text, before everything that cannot go on with a number. -/
def ReadsBack (limit : ℕ) (seps : Separators) (depth : ℕ) (v : Json) : Prop :=
  ∀ fuel rest, EndsNumber (RawText.front rest) → 2 * (render seps v).length < fuel →
    readValue limit fuel depth (render seps v ++ rest) = .ok (v, rest)

theorem readsBack_of_succ {v : Json} {depth : ℕ}
    (h : ∀ fuel rest, EndsNumber (RawText.front rest) → 2 * (render seps v).length ≤ fuel →
      readValue limit (fuel + 1) depth (render seps v ++ rest) = .ok (v, rest)) :
    ReadsBack limit seps depth v := by
  intro fuel rest hrest hfuel
  obtain ⟨fuel, rfl⟩ : ∃ k, fuel = k + 1 := ⟨fuel - 1, by omega⟩
  exact h fuel rest hrest (by omega)

theorem readValue_of_isDigit {c : Char} (hc : c.isDigit = true) (fuel depth : ℕ) (s : RawText) :
    readValue limit (fuel + 1) depth (.char c :: s) = magnitude limit false (.char c :: s) := by
  have h := Text.forall_isDigit
    (p := fun c => c ≠ '"' ∧ c ≠ '[' ∧ c ≠ '\x7b' ∧ c ≠ 'n' ∧ c ≠ 't' ∧ c ≠ 'f' ∧ c ≠ '-')
    (by decide) hc
  obtain ⟨hquote, hbracket, hbrace, hn, ht, hf, hminus⟩ := h
  unfold readValue
  split <;> first
    | rfl
    | (next hs => exact absurd (CodePoint.char.inj (List.cons.inj hs).1) (by assumption))

/-- A number may stand before anything that cannot go on with it. -/
theorem magnitude_of_number {negative : Bool} {c : Char} {tail : Text} {v : Json}
    (hc : c.isDigit = true)
    (hread : ∀ rest, EndsNumber rest → number limit negative (c :: tail ++ rest) = .ok (v, rest))
    (hrest : EndsNumber rest.front) :
    magnitude limit negative (Text.raw (c :: tail) ++ rest) = .ok (v, rest) := by
  have hword : TextOf.dropFront? (Text.raw (c :: tail) ++ rest) (Text.raw "Infinity".toList) = none := by
    have hne : CodePoint.char c ≠ .char 'I' :=
      Text.forall_isDigit (p := fun c => CodePoint.char c ≠ .char 'I') (by decide) hc
    exact if_neg hne
  simp only [magnitude, hword, RawText.front_raw_append, RawText.afterFront_raw_append,
    hread _ hrest, Except.map, RawText.raw_front_append_afterFront]

theorem readValue_spelled {s : Text} {v : Json} (h : Spells limit s v)
    (hrest : EndsNumber rest.front) (fuel depth : ℕ) :
    readValue limit (fuel + 1) depth (s.raw ++ rest) = .ok (v, rest) := by
  obtain ⟨negative, c, tail, rfl, hc, hread⟩ := h
  have hmagnitude := magnitude_of_number hc hread hrest
  cases negative with
  | true => exact hmagnitude
  | false => exact (readValue_of_isDigit hc fuel depth (Text.raw tail ++ rest)).trans hmagnitude

/-- Neither a comma nor a closing bracket goes on with a number. -/
theorem endsNumber_cons {c : Char} (hc : c = ',' ∨ c = ']' ∨ c = '\x7d') (s : RawText) :
    EndsNumber (RawText.front (.char c :: s)) := by
  rintro d ⟨⟩
  rcases hc with rfl | rfl | rfl <;> decide

theorem skipSpace_cons {a : CodePoint} (ha : isSpace a = false) (s : RawText) :
    skipSpace (a :: s) = a :: s :=
  TextOf.dropWhile_eq_self fun _ h => Option.some.inj h ▸ ha

/-- Items are read one after the other up to the closing bracket. -/
theorem readItems_render (hseps : seps.IsPlain) {depth : ℕ} {items : List Json} {v : Json}
    (h : ∀ w ∈ v :: items, ReadsBack limit seps depth w) {fuel : ℕ}
    (hfuel : 2 * (render seps v ++ renderItems seps items).length + 1 < fuel) :
    readItems limit fuel depth (render seps v ++ (renderItems seps items ++ .char ']' :: rest))
      = .ok (v :: items, rest) := by
  obtain ⟨blanks, hitem, hblanks⟩ := hseps.item
  induction items generalizing v fuel with
  | nil =>
    obtain ⟨fuel, rfl⟩ : ∃ k, fuel = k + 1 := ⟨fuel - 1, by omega⟩
    simp only [renderItems, List.append_nil, List.nil_append] at hfuel ⊢
    have hv := h v (List.mem_cons_self ..) fuel (.char ']' :: rest)
      (endsNumber_cons (.inr (.inl rfl)) rest) (by omega)
    simp only [readItems, hv, skipSpace_cons (a := .char ']') (by decide)]
  | cons w items ih =>
    obtain ⟨fuel, rfl⟩ : ∃ k, fuel = k + 1 := ⟨fuel - 1, by omega⟩
    have htext : renderItems seps (w :: items) ++ .char ']' :: rest
        = .char ',' :: (blanks ++ (render seps w ++ (renderItems seps items ++ .char ']' :: rest))) := by
      simp only [renderItems, hitem, List.cons_append, List.append_assoc]
    have hlength : (render seps w ++ renderItems seps items).length + 1
        ≤ (renderItems seps (w :: items)).length := by
      simp only [renderItems, hitem, List.length_append, List.length_cons]
      omega
    rw [List.length_append] at hfuel
    have hv := h v (List.mem_cons_self ..) fuel _ (endsNumber_cons (.inl rfl)
      (blanks ++ (render seps w ++ (renderItems seps items ++ .char ']' :: rest)))) (by omega)
    have hfuel' : 2 * (render seps w ++ renderItems seps items).length + 1 < fuel := by omega
    have hrest := ih (fun u hu => h u (List.mem_cons_of_mem _ hu)) hfuel'
    rw [htext]
    simp only [readItems, hv, skipSpace_cons (a := .char ',') (by decide),
      skipSpace_append hblanks (startsValue_render seps w), hrest, Step.mapValue, Except.map]

/-- Members are read one after the other up to the closing brace. -/
theorem readMembers_render (hseps : seps.IsPlain) {depth : ℕ} {fields : List (RawText × Json)}
    {name : RawText} {v : Json}
    (h : ∀ field ∈ (name, v) :: fields, ReadsBack limit seps depth field.2) {fuel : ℕ}
    (hfuel : 2 * (render seps v ++ renderFields seps fields).length + 1 < fuel) :
    readMembers limit fuel depth (stringText name ++
        (seps.key ++ (render seps v ++ (renderFields seps fields ++ .char '\x7d' :: rest))))
      = .ok ((name, v) :: fields, rest) := by
  obtain ⟨blanks, hitem, hblanks⟩ := hseps.item
  obtain ⟨keyBlanks, hkey, hkeyBlanks⟩ := hseps.key
  induction fields generalizing name v fuel with
  | nil =>
    obtain ⟨fuel, rfl⟩ : ∃ k, fuel = k + 1 := ⟨fuel - 1, by omega⟩
    simp only [renderFields, List.append_nil, List.nil_append] at hfuel ⊢
    have hself : ReadsBack limit seps depth v := h _ (List.mem_cons_self ..)
    have hv := hself fuel (.char '\x7d' :: rest) (endsNumber_cons (.inr (.inr rfl)) rest) (by omega)
    rw [stringText_append, hkey]
    simp only [readMembers, stringBody?_flatMap, List.cons_append,
      skipSpace_cons (a := .char ':') (by decide),
      skipSpace_append hkeyBlanks (startsValue_render seps v), hv,
      skipSpace_cons (a := .char '\x7d') (by decide)]
  | cons field fields ih =>
    obtain ⟨other, w⟩ := field
    obtain ⟨fuel, rfl⟩ : ∃ k, fuel = k + 1 := ⟨fuel - 1, by omega⟩
    have htext : renderFields seps ((other, w) :: fields) ++ .char '\x7d' :: rest
        = .char ',' :: (blanks ++ (stringText other ++ (seps.key ++ (render seps w ++
          (renderFields seps fields ++ .char '\x7d' :: rest))))) := by
      simp only [renderFields, hitem, List.cons_append, List.append_assoc]
    have hlength : (render seps w ++ renderFields seps fields).length + 1
        ≤ (renderFields seps ((other, w) :: fields)).length := by
      simp only [renderFields, hitem, List.length_append, List.length_cons]
      omega
    rw [List.length_append] at hfuel
    have hself : ReadsBack limit seps depth v := h _ (List.mem_cons_self ..)
    have hv := hself fuel _ (endsNumber_cons (.inl rfl) (blanks ++ (stringText other ++
      (seps.key ++ (render seps w ++ (renderFields seps fields ++ .char '\x7d' :: rest)))))) (by omega)
    have hfuel' : 2 * (render seps w ++ renderFields seps fields).length + 1 < fuel := by omega
    have hrest := ih (fun u hu => h u (List.mem_cons_of_mem _ hu)) hfuel'
    have hname : StartsValue (stringText other) := ⟨.char '"', _, rfl, by decide, by decide⟩
    rw [stringText_append, hkey, htext]
    simp only [readMembers, stringBody?_flatMap, List.cons_append,
      skipSpace_cons (a := .char ':') (by decide),
      skipSpace_append hkeyBlanks (startsValue_render seps v), hv,
      skipSpace_cons (a := .char ',') (by decide), skipSpace_append hblanks hname, hrest,
      Step.mapValue, Except.map]

theorem readValue_items {s : RawText} (hs : StartsValue s) (fuel depth : ℕ) (rest : RawText) :
    readValue limit (fuel + 1) (depth + 1) (.char '[' :: (s ++ rest))
      = (readItems limit fuel depth (s ++ rest)).mapValue .array := by
  obtain ⟨c, tail, rfl, hc, hbracket⟩ := hs
  simp only [readValue, List.cons_append, skipSpace_cons hc]
  split
  · next h => exact absurd (List.cons.inj h).1 hbracket
  · rfl

theorem readValue_members (fuel depth : ℕ) (s : RawText) :
    readValue limit (fuel + 1) (depth + 1) (.char '\x7b' :: .char '"' :: s)
      = (readMembers limit fuel depth (.char '"' :: s)).mapValue
          fun members => .object (Table.ofList members) := by
  simp only [readValue, skipSpace_cons (a := .char '"') (by decide)]
  rfl

theorem readsBack_array (hseps : seps.IsPlain) {depth : ℕ} {items : List Json}
    (h : ∀ v ∈ items, ReadsBack limit seps depth v) :
    ReadsBack limit seps (depth + 1) (.array items) := by
  refine readsBack_of_succ fun fuel rest hrest hfuel => ?_
  cases items with
  | nil => rfl
  | cons v items =>
    have htext : render seps (.array (v :: items)) ++ rest
        = .char '[' :: (render seps v ++ (renderItems seps items ++ .char ']' :: rest)) := by
      simp only [render, List.cons_append, List.append_assoc, List.nil_append]
    have hlength : (render seps (.array (v :: items))).length
        = (render seps v ++ renderItems seps items).length + 2 := by
      simp only [render, List.cons_append, List.length_cons, List.length_append, List.length_nil]
    rw [htext, readValue_items (startsValue_render seps v),
      readItems_render hseps h (by omega)]
    rfl

theorem readsBack_object (hseps : seps.IsPlain) {depth : ℕ} {fields : Fields}
    (hnames : fields.keys.Nodup) (h : ∀ field ∈ fields, ReadsBack limit seps depth field.2) :
    ReadsBack limit seps (depth + 1) (.object fields) := by
  refine readsBack_of_succ fun fuel rest hrest hfuel => ?_
  cases fields with
  | nil => rfl
  | cons field fields =>
    obtain ⟨name, v⟩ := field
    have htext : render seps (.object ((name, v) :: fields)) ++ rest
        = .char '\x7b' :: (stringText name ++ (seps.key ++ (render seps v ++
          (renderFields seps fields ++ .char '\x7d' :: rest)))) := by
      simp only [render, List.cons_append, List.append_assoc, List.nil_append]
    have hlength : (render seps v ++ renderFields seps fields).length + 2
        ≤ (render seps (.object ((name, v) :: fields))).length := by
      simp only [render, List.cons_append, List.length_cons, List.length_append]
      omega
    have hread : readMembers limit fuel depth (stringText name ++
          (seps.key ++ (render seps v ++ (renderFields seps fields ++ .char '\x7d' :: rest))))
        = .ok ((name, v) :: fields, rest) := readMembers_render hseps h (by omega)
    rw [stringText_append] at hread
    rw [htext, stringText_append, readValue_members, hread]
    simp only [Step.mapValue, Except.map, Table.ofList_eq_self hnames]

/-- A value is read back when it is nested no deeper and has no longer integers than the reader
allows. -/
theorem readsBack_of_fits (hseps : seps.IsPlain) (v : Json) (hnames : v.HasDistinctNames)
    (hshort : v.everywhere (isShort limit) = true) {depth : ℕ} (hdepth : v.depth ≤ depth) :
    ReadsBack limit seps depth v := by
  induction v using Json.induction generalizing depth with
  | null => exact readsBack_of_succ fun fuel rest hrest hfuel => rfl
  | bool b => exact readsBack_of_succ fun fuel rest hrest hfuel => by cases b <;> rfl
  | int n =>
    exact readsBack_of_succ fun fuel rest hrest hfuel =>
      readValue_spelled (spells_ofInt (of_decide_eq_true hshort)) hrest fuel depth
  | float x =>
    exact readsBack_of_succ fun fuel rest hrest hfuel =>
      readValue_spelled (spells_toText limit x) hrest fuel depth
  | infinity negative =>
    refine readsBack_of_succ fun fuel rest hrest hfuel => ?_
    have hread : readValue limit (fuel + 1) depth (render seps (.infinity negative) ++ rest)
        = magnitude limit negative (Text.raw "Infinity".toList ++ rest) := by
      cases negative <;> rfl
    rw [hread, magnitude, TextOf.dropFront?_append]
  | str s =>
    refine readsBack_of_succ fun fuel rest hrest hfuel => ?_
    simp only [render, stringText_append, readValue, stringBody?_flatMap, Step.ofOption,
      Step.mapValue, Except.map]
  | array items ih =>
    obtain ⟨hpos, hdepth⟩ := depth_array_le_iff.1 hdepth
    obtain ⟨depth, rfl⟩ : ∃ k, depth = k + 1 := ⟨depth - 1, by omega⟩
    exact readsBack_array hseps fun v hv => ih v hv ((everywhere_array_iff.1 hnames).2 v hv)
      ((everywhere_array_iff.1 hshort).2 v hv) (hdepth v hv)
  | object fields ih =>
    obtain ⟨hpos, hdepth⟩ := depth_object_le_iff.1 hdepth
    obtain ⟨depth, rfl⟩ : ∃ k, depth = k + 1 := ⟨depth - 1, by omega⟩
    obtain ⟨hkeys, hfields⟩ := everywhere_object_iff.1 hnames
    exact readsBack_object hseps (of_decide_eq_true hkeys) fun field hfield =>
      ih field hfield (hfields field hfield) ((everywhere_object_iff.1 hshort).2 field hfield)
        (hdepth field hfield)

/-- A value that fits the limits is read back from its text. -/
theorem readWithin_render (hseps : seps.IsPlain) {limits : Limits} {v : Json}
    (hnames : v.HasDistinctNames) (hfits : v.Fits limits) :
    readWithin limits (render seps v) = .ok v := by
  have hread := readsBack_of_fits hseps v hnames hfits.isShort hfits.depth_le
    (2 * (render seps v).length + 2) [] (by simp [EndsNumber, RawText.front]) (by omega)
  obtain ⟨c, tail, hrender, hc, -⟩ := startsValue_render seps v
  have hskip : skipSpace (render seps v) = render seps v := by
    rw [hrender]
    exact skipSpace_cons hc tail
  rw [List.append_nil] at hread
  simp only [readWithin, hskip, hread]
  rfl

/-- Values without repeated names are told apart by their texts. -/
theorem eq_of_render_eq (hseps : seps.IsPlain) {v w : Json} (hv : v.HasDistinctNames)
    (hw : w.HasDistinctNames) (h : render seps v = render seps w) : v = w := by
  obtain ⟨limits, hfits⟩ := (array [v, w]).exists_fits
  obtain ⟨-, hdepth⟩ := depth_array_le_iff.1 hfits.depth_le
  obtain ⟨-, hshort⟩ := everywhere_array_iff.1 hfits.isShort
  have hread {u : Json} (hu : u.HasDistinctNames) (hmem : u ∈ [v, w]) :
      readWithin limits (render seps u) = .ok u :=
    readWithin_render hseps hu ⟨(hdepth u hmem).trans (Nat.sub_le ..), hshort u hmem⟩
  have hv' := hread hv (List.mem_cons_self ..)
  rw [h, hread hw (List.mem_cons_of_mem _ (List.mem_cons_self ..))] at hv'
  exact (Except.ok.inj hv').symm

/-- What is read of a text is known by how it would be written. -/
theorem readWithin_eq_ok_iff (hseps : seps.IsPlain) {limits : Limits} {s : RawText} {v : Json}
    (hv : v.HasDistinctNames) : readWithin limits s = .ok v ↔
      (readWithin limits s).toOption.map (render seps) = some (render seps v) := by
  cases hread : readWithin limits s with
  | error e => simp [Except.toOption]
  | ok w =>
    have hw := (isReadable_of_readWithin hread).hasDistinctNames
    rw [Except.ok.injEq, Except.toOption, Option.map_some, Option.some.injEq]
    exact ⟨fun h => h ▸ rfl, eq_of_render_eq hseps hw hv⟩

end Layout

section Characters

variable {seps : Separators}

theorem isSome_text?_flatMap_escapePoint (s : RawText) :
    (TextOf.text? (s.flatMap escapePoint)).isSome = s.text?.isSome := by
  induction s with
  | nil => rfl
  | cons a s ih =>
    rw [List.flatMap_cons, RawText.isSome_text?_append, RawText.isSome_text?_cons, ih]
    cases a with
    | char c => rw [escapePoint, Text.text?_raw]; rfl
    | surrogate n => rfl

theorem isSome_text?_stringText (s : RawText) :
    (stringText s).text?.isSome = s.text?.isSome := by
  simp [stringText, isSome_text?_flatMap_escapePoint]

/-- The text of a value is one of characters exactly when all texts in it are. -/
theorem isSome_text?_render (hitem : seps.item.text?.isSome = true)
    (hkey : seps.key.text?.isSome = true) (v : Json) :
    (render seps v).text?.isSome = true ↔ v.HasCharacters := by
  induction v using Json.induction with
  | null => exact iff_of_true rfl rfl
  | bool b => cases b <;> exact iff_of_true rfl rfl
  | int n => exact iff_of_true (by simp [render]) rfl
  | float x => exact iff_of_true (by simp [render]) rfl
  | infinity negative => cases negative <;> exact iff_of_true rfl rfl
  | str s => rw [render, isSome_text?_stringText]; rfl
  | array items ih =>
    have hrest (rest : List Json) : (renderItems seps rest).text?.isSome = true ↔
        ∀ v ∈ rest, (render seps v).text?.isSome = true := by
      induction rest with
      | nil => simp [renderItems]
      | cons v rest ihrest => simp [renderItems, hitem, ihrest]
    have hitems : (render seps (.array items)).text?.isSome = true ↔
        ∀ v ∈ items, (render seps v).text?.isSome = true := by
      cases items with
      | nil => exact iff_of_true rfl (List.forall_mem_nil _)
      | cons v rest => simp [render, hrest]
    have hself : (array items).isOfCharacters = true := rfl
    rw [hitems, HasCharacters, everywhere_array_iff, and_iff_right hself]
    exact forall₂_congr ih
  | object fields ih =>
    have hrest (rest : Fields) : (renderFields seps rest).text?.isSome = true ↔
        ∀ field ∈ rest, field.1.text?.isSome = true ∧ (render seps field.2).text?.isSome = true := by
      induction rest with
      | nil => simp [renderFields]
      | cons field rest ihrest =>
        simp [renderFields, hitem, hkey, ihrest, isSome_text?_stringText, and_assoc]
    have hfields : (render seps (.object fields)).text?.isSome = true ↔
        ∀ field ∈ fields, field.1.text?.isSome = true ∧ (render seps field.2).text?.isSome = true := by
      cases fields with
      | nil => exact iff_of_true rfl (List.forall_mem_nil _)
      | cons field rest => simp [render, hrest, hkey, isSome_text?_stringText, and_assoc]
    rw [hfields, HasCharacters, everywhere_object_iff, isOfCharacters, List.all_eq_true,
      ← forall₂_and]
    exact forall₂_congr fun field hfield => and_congr_right fun _ => ih field hfield

end Characters

section Sorted

theorem sortKeysItems_eq (items : List Json) : sortKeysItems items = items.map sortKeys := by
  induction items with
  | nil => rfl
  | cons v rest ih => rw [sortKeysItems, ih, List.map_cons]

theorem sortKeysFields_eq (fields : List (RawText × Json)) :
    sortKeysFields fields = fields.map fun field => (field.1, field.2.sortKeys) := by
  induction fields with
  | nil => rfl
  | cons field rest ih => rw [sortKeysFields, ih, List.map_cons]

theorem hasDistinctNames_sortKeys {v : Json} (h : v.HasDistinctNames) :
    v.sortKeys.HasDistinctNames := by
  induction v using Json.induction with
  | array items ih =>
    rw [sortKeys, sortKeysItems_eq]
    refine everywhere_array_iff.2 ⟨rfl, List.forall_mem_map.2 fun v hv => ?_⟩
    exact ih v hv ((everywhere_array_iff.1 h).2 v hv)
  | object fields ih =>
    obtain ⟨hnames, hfields⟩ := everywhere_object_iff.1 h
    rw [sortKeys, sortKeysFields_eq]
    have hperm := List.mergeSort_perm (fields.map fun field => (field.1, field.2.sortKeys))
      fun a b => TextOf.le a.1 b.1
    refine everywhere_object_iff.2 ⟨decide_eq_true ?_, fun field hfield => ?_⟩
    · refine (hperm.map Prod.fst).nodup_iff.2 ?_
      rw [List.map_map]
      exact of_decide_eq_true hnames
    · obtain ⟨original, hmem, rfl⟩ := List.mem_map.1 (hperm.mem_iff.1 hfield)
      exact ih original hmem (hfields original hmem)
  | _ => exact h

/-- Values without repeated names have one canonical text exactly when they are equal but for the order
of members. -/
theorem canonicalText_eq_iff {v w : Json} (hv : v.HasDistinctNames) (hw : w.HasDistinctNames) :
    v.canonicalText = w.canonicalText ↔ v.sortKeys = w.sortKeys :=
  ⟨eq_of_render_eq isPlain_spaced (hasDistinctNames_sortKeys hv) (hasDistinctNames_sortKeys hw),
    fun h => congrArg (render .spaced) h⟩

end Sorted

end Json
end Lexicon
