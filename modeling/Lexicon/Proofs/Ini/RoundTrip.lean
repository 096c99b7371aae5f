import Lexicon.Ini.Basic
import Lexicon.Proofs.Ini.Value
import Lexicon.Proofs.Table

/-! The text of a document read back, over another document or alone. An entry is opened by its own
line and takes in the indented lines after it, whatever stands in them: its value comes back as what is
kept of it. The empty line after a section counts to the last entry, whose value loses it again. -/
namespace Lexicon.Ini

/-- A name under which an entry can be written: in lower case, without blanks and delimiters, and
nothing that starts a header or a comment. -/
structure IsEntryName (name : Text) : Prop where
  ne_nil : name ≠ []
  lowercase_eq : name.lowercase = name
  plain : ∀ c ∈ name, Text.isBlank c = false ∧ isDelimiter c = false
  head : ∀ c ∈ name.head?, c ≠ '[' ∧ c ≠ '#' ∧ c ≠ ';'

theorem isEntryName_iff {name : Text} : IsEntryName name ↔ name ≠ [] ∧ name.lowercase = name ∧
    name.all (fun c => !Text.isBlank c && !isDelimiter c) = true ∧
    name.head?.all (fun c => c ≠ '[' && c ≠ '#' && c ≠ ';') = true := by
  constructor
  · rintro ⟨hne, hlower, hplain, hhead⟩
    exact ⟨hne, hlower, by simpa using hplain, by simpa [Option.all_eq_true, and_assoc] using hhead⟩
  · rintro ⟨hne, hlower, hplain, hhead⟩
    exact ⟨hne, hlower, by simpa using hplain, by simpa [Option.all_eq_true, and_assoc] using hhead⟩

instance (name : Text) : Decidable (IsEntryName name) := decidable_of_iff _ isEntryName_iff.symm

/-- A name under which a section can be written. -/
structure IsSectionName (name : Text) : Prop where
  ne_nil : name ≠ []
  noBreak : '\n' ∉ name ∧ '\r' ∉ name
  ne_default : name ≠ defaultSection

section Lines

variable {name value first line rest : Text} {lines : List Text}

/-- A text without line ends goes on with the first line after it. -/
theorem split_append_of_not_mem {s : Text} (hs : '\n' ∉ s)
    (hsplit : Text.split '\n' rest = first :: lines) :
    Text.split '\n' (s ++ rest) = (s ++ first) :: lines := by
  induction s with
  | nil => exact hsplit
  | cons c s ih =>
    rw [List.mem_cons, not_or] at hs
    rw [List.cons_append, Text.split, if_neg (Ne.symm hs.1), ih hs.2, List.cons_append]

/-- The further lines of a value are indented. -/
theorem split_valueText (hsplit : Text.split '\n' value = first :: lines) :
    Text.split '\n' (valueText value) = first :: lines.map ('\t' :: ·) := by
  induction value generalizing first lines with
  | nil =>
    cases hsplit
    rfl
  | cons c value ih =>
    obtain ⟨next, others, hnext⟩ := List.exists_cons_of_ne_nil (Text.split_ne_nil '\n' value)
    by_cases hc : c = '\n'
    · subst hc
      rw [Text.split, if_pos rfl, hnext] at hsplit
      cases hsplit
      have htext : valueText ('\n' :: value) = '\n' :: (['\t'] ++ valueText value) := rfl
      rw [htext, Text.split, if_pos rfl, split_append_of_not_mem (by decide) (ih hnext)]
      rfl
    · rw [Text.split, if_neg hc, hnext] at hsplit
      cases hsplit
      have htext : valueText (c :: value) = [c] ++ valueText value := by simp [valueText, hc]
      rw [htext, split_append_of_not_mem (by simpa using Ne.symm hc) (ih hnext),
        List.singleton_append]

/-- The lines of an entry with the given lines of its value. -/
def entryLines (name first : Text) (lines : List Text) : List Text :=
  (name ++ " = ".toList ++ first) :: lines.map ('\t' :: ·)

theorem split_entryText (hname : '\n' ∉ name) (hsplit : Text.split '\n' value = first :: lines)
    (rest : Text) :
    Text.split '\n' (entryText (name, value) ++ rest)
      = entryLines name first lines ++ Text.split '\n' rest := by
  have hopen : '\n' ∉ name ++ " = ".toList := by
    rw [List.mem_append, not_or]
    exact ⟨hname, by decide⟩
  have htext : entryText (name, value) ++ rest
      = name ++ " = ".toList ++ valueText value ++ '\n' :: rest := by
    simp only [entryText, List.append_assoc, List.singleton_append]
  rw [htext, Text.split_append_cons, split_append_of_not_mem hopen (split_valueText hsplit)]
  rfl

end Lines

section Scanning

variable {name value first line : Text} {lines : List Text} {items : List Item}

theorem ofText_of_trim {s body : Text} {c : Char} (htrim : s.trim = c :: body)
    (hc : c ≠ '#' ∧ c ≠ ';') :
    Line.ofText s = .content (s.takeWhile Text.isBlank).length (c :: body) := by
  simp [Line.ofText, htrim, hc]

theorem ofText_header (name : Text) :
    Line.ofText ('[' :: name ++ [']']) = .content 0 ('[' :: name ++ [']']) := by
  have htrim : Text.trim ('[' :: name ++ [']']) = '[' :: name ++ [']'] := by
    refine Text.trim_eq_self_iff.2 ⟨?_, ?_⟩
    · rintro c ⟨⟩
      decide
    · rw [List.getLast?_concat]
      rintro c ⟨⟩
      decide
  rw [ofText_of_trim htrim (by decide)]
  rfl

theorem header?_header (hname : name ≠ []) : header? ('[' :: name ++ [']']) = some name := by
  have hbracket : (name ++ [']']).reverse.dropWhile (· ≠ ']') = ']' :: name.reverse := by
    rw [List.reverse_append, List.reverse_singleton, List.singleton_append]
    rfl
  have hempty : name.reverse.isEmpty = false := by simpa using hname
  simp only [header?, List.cons_append, hbracket, hempty]
  simp

/-- An indented line adds to the value that is open what is kept of the line. -/
theorem step_continuation (hname : name ≠ []) (value : List Text) (line : Text) :
    Scan.step ⟨0, .entry name value :: items⟩ (Line.ofText ('\t' :: line))
      = ⟨0, .entry name (value ++ keptLines [line]) :: items⟩ := by
  have htrim : Text.trim ('\t' :: line) = line.trim := by
    rw [← List.singleton_append, Text.trim_append_front (List.forall_mem_singleton.2 (by decide))]
  have hkept : keptLines [line] = [line.trim].filter (!isComment ·) := rfl
  rw [hkept]
  cases hbody : line.trim with
  | nil =>
    rw [Line.ofText, htrim, hbody]
    rfl
  | cons c body =>
    by_cases hc : c = '#' ∨ c = ';'
    · have hcomment : isComment (c :: body) = true := by simpa [isComment] using hc
      have hline : Line.ofText ('\t' :: line) = .comment := by
        rw [Line.ofText, htrim, hbody]
        exact if_pos (by simpa using hc)
      rw [hline, List.filter_singleton, hcomment]
      simp [Scan.step]
    · have hcomment : isComment (c :: body) = false := by simpa [isComment] using hc
      have hopen : name.isEmpty = false := by simpa using hname
      have hindent : 0 < (('\t' :: line).takeWhile Text.isBlank).length := by
        rw [List.takeWhile_cons_of_pos (by decide)]
        exact Nat.succ_pos _
      rw [ofText_of_trim (htrim.trans hbody) (not_or.1 hc), List.filter_singleton, hcomment]
      simp [Scan.step, Scan.continues, Item.takesLines, hopen, hindent, Scan.extend]

/-- The further lines of a value are added to it one by one. -/
theorem foldl_step_continuation (hname : name ≠ []) (lines value : List Text) :
    ((lines.map ('\t' :: ·)).map Line.ofText).foldl Scan.step ⟨0, .entry name value :: items⟩
      = ⟨0, .entry name (value ++ keptLines lines) :: items⟩ := by
  induction lines generalizing value with
  | nil => simp [keptLines]
  | cons line lines ih =>
    rw [List.map_cons, List.map_cons, List.foldl_cons, step_continuation hname, ih,
      List.append_assoc, ← keptLines_cons]

theorem ofBody_assignment (hname : IsEntryName name) {after : Text} (hafter : after.trim = first) :
    Item.ofBody (name ++ ' ' :: '=' :: after) = .entry name [first] := by
  have hheader : header? (name ++ ' ' :: '=' :: after) = none := by
    obtain ⟨c, tail, rfl⟩ := List.exists_cons_of_ne_nil hname.ne_nil
    unfold header?
    split
    · next h => exact absurd (List.cons.inj h).1 (hname.head c rfl).1
    · rfl
  have hopen : ∀ c ∈ name ++ [' '], (!isDelimiter c) = true := by
    intro c hc
    rcases List.mem_append.1 hc with hc | hc
    · rw [(hname.plain c hc).2]
      rfl
    · rw [List.mem_singleton.1 hc]
      decide
  have hdelimiter : ∀ c ∈ ('=' :: after).head?, (!isDelimiter c) = false := by
    rintro c ⟨⟩
    decide
  have hbody : name ++ ' ' :: '=' :: after = name ++ [' '] ++ '=' :: after := by simp
  have hlast : Text.trimBack (name ++ [' ']) = name := by
    rw [Text.trimBack_append _ (List.forall_mem_singleton.2 (by decide))]
    exact Text.trimBack_eq_self fun c hc => (hname.plain c (List.mem_of_getLast? hc)).1
  have hassignment : assignment? (name ++ ' ' :: '=' :: after) = some (name, first) := by
    rw [hbody]
    simp only [assignment?, TextOf.takeWhile_append_eq hopen hdelimiter,
      TextOf.dropWhile_append_eq hopen hdelimiter, hlast, hname.lowercase_eq, hafter]
  simp only [Item.ofBody, hheader, hassignment]

/-- A line that opens an entry loses no more than blanks after the delimiter. -/
theorem exists_trimBack_entry (name first : Text) :
    ∃ after : Text, Text.trimBack (name ++ " = ".toList ++ first) = name ++ ' ' :: '=' :: after ∧
      after.trim = first.trim := by
  obtain ⟨blanks, hafter, hblanks⟩ := Text.exists_trimBack_append (' ' :: first)
  have hline : name ++ " = ".toList ++ first
      = name ++ ' ' :: '=' :: Text.trimBack (' ' :: first) ++ blanks := by
    simpa using hafter
  refine ⟨Text.trimBack (' ' :: first), ?_, ?_⟩
  · rw [hline, Text.trimBack_append _ hblanks]
    refine Text.trimBack_eq_self fun c hc => ?_
    rw [List.getLast?_append, List.getLast?_cons, List.getLast?_cons] at hc
    cases hlast : (Text.trimBack (' ' :: first)).getLast? with
    | none =>
      rw [hlast] at hc
      cases hc
      decide
    | some d =>
      rw [hlast] at hc
      cases hc
      exact Text.getLast?_trimBack _ _ hlast
  · rw [Text.trim_trimBack, ← List.singleton_append,
      Text.trim_append_front (List.forall_mem_singleton.2 (by decide))]

/-- The first line of an entry opens it with the first line of the value. -/
theorem exists_ofText_entry (hname : IsEntryName name) (first : Text) :
    ∃ body, Line.ofText (name ++ " = ".toList ++ first) = .content 0 body ∧
      Item.ofBody body = .entry name [first.trim] := by
  obtain ⟨c, tail, rfl⟩ := List.exists_cons_of_ne_nil hname.ne_nil
  have hblank := (hname.plain c (List.mem_cons_self ..)).1
  have hhead : ∀ d ∈ (c :: tail ++ " = ".toList ++ first).head?, Text.isBlank d = false := by
    rintro d ⟨⟩
    exact hblank
  obtain ⟨after, hback, hafter⟩ := exists_trimBack_entry (c :: tail) first
  refine ⟨c :: tail ++ ' ' :: '=' :: after, ?_, ofBody_assignment hname hafter⟩
  have htrim : Text.trim (c :: tail ++ " = ".toList ++ first)
      = c :: (tail ++ ' ' :: '=' :: after) := by
    rw [Text.trim, Text.trimFront, TextOf.dropWhile_eq_self hhead, hback, List.cons_append]
  rw [ofText_of_trim htrim (hname.head c rfl).2, TextOf.takeWhile_eq_nil hhead]
  rfl

theorem foldl_step_entry (hname : IsEntryName name) (first : Text) (lines : List Text) :
    ((entryLines name first lines).map Line.ofText).foldl Scan.step ⟨0, items⟩
      = ⟨0, .entry name (first.trim :: keptLines lines) :: items⟩ := by
  obtain ⟨body, hbody, hitem⟩ := exists_ofText_entry hname first
  have hstep : Scan.step ⟨0, items⟩ (.content 0 body)
      = ⟨0, .entry name [first.trim] :: items⟩ := by
    simp [Scan.step, Scan.continues, hitem]
  rw [entryLines, List.map_cons, List.foldl_cons, hbody, hstep,
    foldl_step_continuation hname.ne_nil, List.singleton_append]

end Scanning

/-- Entries with their values as they are kept. -/
def keptEntries (entries : Table Text Text) : Table Text Text :=
  entries.map fun entry => (entry.1, keptValue entry.2)

def keptSections (sections : Table Text (Table Text Text)) : Table Text (Table Text Text) :=
  sections.map fun part => (part.1, keptEntries part.2)

section Sections

variable {entry : Text × Text} {part : Text × Table Text Text} {entries : Table Text Text}
  {sections : Table Text (Table Text Text)} {items : List Item} {rest : Text}

theorem keys_keptEntries (entries : Table Text Text) : (keptEntries entries).keys = entries.keys :=
  List.map_map

theorem keys_keptSections (sections : Table Text (Table Text Text)) :
    (keptSections sections).keys = sections.keys :=
  List.map_map

theorem keptSections_cons (part : Text × Table Text Text)
    (sections : Table Text (Table Text Text)) : keptSections (part :: sections)
      = (part.1, keptEntries part.2) :: keptSections sections :=
  rfl

/-- A section that can be written: its values may be any texts without carriage returns. -/
structure IsPlainSection (part : Text × Table Text Text) : Prop where
  name : IsSectionName part.1
  nodup : part.2.keys.Nodup
  entries : ∀ entry ∈ part.2, IsEntryName entry.1 ∧ '\r' ∉ entry.2

/-- The lines of a text taken in one after the other. -/
def scanFrom (scan : Scan) (s : Text) : Scan :=
  ((Text.split '\n' s).map Line.ofText).foldl Scan.step scan

theorem scanFrom_line {line : Text} (hline : '\n' ∉ line) (scan : Scan) (rest : Text) :
    scanFrom scan (line ++ '\n' :: rest) = scanFrom (scan.step (Line.ofText line)) rest := by
  rw [scanFrom, Text.split_append_cons, Text.split_of_not_mem hline]
  rfl

/-- An item with the lines of its value joined. -/
def Item.joined : Item → Item
  | .entry name value => .entry name [joinValue value]
  | item => item

/-- The items that entries are read as. -/
def entryItems (entries : Table Text Text) : List Item :=
  entries.map fun entry => .entry entry.1 [entry.2]

/-- The items that a section is read as. -/
def sectionItems (part : Text × Table Text Text) : List Item :=
  .header part.1 :: entryItems part.2

theorem exists_scanFrom_entryText (hname : IsEntryName entry.1) (items : List Item) (rest : Text) :
    ∃ value, joinValue value = keptValue entry.2 ∧
      scanFrom ⟨0, items⟩ (entryText entry ++ rest)
        = scanFrom ⟨0, .entry entry.1 value :: items⟩ rest := by
  obtain ⟨name, value⟩ := entry
  obtain ⟨first, lines, hsplit⟩ := List.exists_cons_of_ne_nil (Text.split_ne_nil '\n' value)
  have hbreak : '\n' ∉ name := fun h => absurd (hname.plain _ h).1 (by decide)
  refine ⟨first.trim :: keptLines lines, (keptValue_of_split hsplit).symm, ?_⟩
  rw [scanFrom, split_entryText hbreak hsplit, List.map_append, List.foldl_append,
    foldl_step_entry hname]
  rfl

theorem exists_scanFrom_entries (h : ∀ entry ∈ entries, IsEntryName entry.1) (items : List Item)
    (rest : Text) :
    ∃ next, scanFrom ⟨0, items⟩ (entries.flatMap entryText ++ rest) = scanFrom ⟨0, next⟩ rest ∧
      next.map Item.joined
        = (entryItems (keptEntries entries)).reverse ++ items.map Item.joined := by
  induction entries generalizing items with
  | nil => exact ⟨items, rfl, rfl⟩
  | cons entry entries ih =>
    obtain ⟨hname, hentries⟩ := List.forall_mem_cons.1 h
    obtain ⟨value, hvalue, hentry⟩ := exists_scanFrom_entryText hname items
      (entries.flatMap entryText ++ rest)
    obtain ⟨next, hnext, hjoined⟩ := ih hentries (.entry entry.1 value :: items)
    refine ⟨next, ?_, ?_⟩
    · rw [List.flatMap_cons, List.append_assoc, hentry, hnext]
    · rw [hjoined, List.map_cons, Item.joined, hvalue]
      simp [entryItems, keptEntries]

/-- An empty line changes no value for good. -/
theorem exists_extend_nil (items : List Item) :
    ∃ next, Scan.extend ⟨0, items⟩ [] = ⟨0, next⟩ ∧
      next.map Item.joined = items.map Item.joined := by
  unfold Scan.extend
  split
  · next name value before hitems =>
    obtain rfl : items = .entry name value :: before := hitems
    refine ⟨_, rfl, ?_⟩
    rw [List.map_cons, List.map_cons, Item.joined, joinValue_concat_nil, Item.joined]
  · exact ⟨items, rfl, rfl⟩

theorem exists_scanFrom_section (h : IsPlainSection part) (items : List Item) (rest : Text) :
    ∃ next, scanFrom ⟨0, items⟩ (sectionText part ++ rest) = scanFrom ⟨0, next⟩ rest ∧
      next.map Item.joined
        = (sectionItems (part.1, keptEntries part.2)).reverse ++ items.map Item.joined := by
  obtain ⟨name, entries⟩ := part
  have hheader : '\n' ∉ '[' :: name ++ [']'] := by
    have hname := h.name.noBreak.1
    simp [hname]
  have htext : sectionText (name, entries) ++ rest
      = '[' :: name ++ [']'] ++ '\n' :: (entries.flatMap entryText ++ ([] ++ '\n' :: rest)) := by
    simp [sectionText, headerText]
  have hstep : Scan.step ⟨0, items⟩ (.content 0 ('[' :: name ++ [']']))
      = ⟨0, .header name :: items⟩ := by
    have hitem : Item.ofBody ('[' :: name ++ [']']) = .header name := by
      simp only [Item.ofBody, header?_header h.name.ne_nil]
    simp only [Scan.step, hitem]
    simp [Scan.continues]
  obtain ⟨middle, hmiddle, hjoined⟩ := exists_scanFrom_entries (fun e he => (h.entries e he).1)
    (.header name :: items) ([] ++ '\n' :: rest)
  obtain ⟨next, hextend, hnext⟩ := exists_extend_nil middle
  refine ⟨next, ?_, ?_⟩
  · rw [htext, scanFrom_line hheader, ofText_header, hstep, hmiddle, scanFrom_line (by simp)]
    exact congrArg (scanFrom · rest) hextend
  · rw [hnext, hjoined]
    simp [sectionItems, Item.joined]

theorem exists_scanFrom_sections (h : ∀ part ∈ sections, IsPlainSection part) (items : List Item) :
    ∃ next, scanFrom ⟨0, items⟩ (sections.flatMap sectionText) = ⟨0, next⟩ ∧
      next.map Item.joined
        = ((keptSections sections).flatMap sectionItems).reverse ++ items.map Item.joined := by
  induction sections generalizing items with
  | nil => exact exists_extend_nil items
  | cons part sections ih =>
    obtain ⟨hpart, hsections⟩ := List.forall_mem_cons.1 h
    obtain ⟨middle, hmiddle, hjoined⟩ := exists_scanFrom_section hpart items
      (sections.flatMap sectionText)
    obtain ⟨next, hnext, hjoined'⟩ := ih hsections middle
    refine ⟨next, ?_, ?_⟩
    · rw [List.flatMap_cons, hmiddle, hnext]
    · rw [hjoined', hjoined, keptSections_cons, List.flatMap_cons, List.reverse_append,
        List.append_assoc]

end Sections

section Drafts

variable {base : Ini} {sections before : Table Text (Table Text Text)} {part name value : Text}
  {entries : Table Text Text}

/-- A document with some entries of a section put into it in order. -/
def putAll (doc : Ini) (part : Text) (entries : Table Text Text) : Ini :=
  entries.foldl (fun doc entry => doc.put part entry.1 entry.2) doc

/-- A document with the entries of some sections put into it in order. -/
def laid (base : Ini) (sections : Table Text (Table Text Text)) : Ini :=
  sections.foldl (fun doc part => (doc.openSection part.1).putAll part.1 part.2) base

theorem laid_concat (base : Ini) (sections : Table Text (Table Text Text)) (part : Text)
    (entries : Table Text Text) : base.laid (sections ++ [(part, entries)])
      = ((base.laid sections).openSection part).putAll part entries := by
  rw [laid, List.foldl_append]
  rfl

/-- The draft over a document after some sections of a text, the last of which may still be
open. -/
def Draft.onto (base : Ini) (sections : Table Text (Table Text Text)) (current : Option Text) :
    Draft where
  doc := base.laid sections
  current := current
  opened := sections.keys.reverse
  written := (sections.flatMap fun part => part.2.keys.map (part.1, ·)).reverse
  faulty := false

theorem add_joined (draft : Draft) (item : Item) : draft.add item.joined = draft.add item := by
  cases item with
  | header name => rfl
  | stray => rfl
  | entry name value =>
    have hvalue : joinValue [joinValue value] = joinValue value := by
      rw [joinValue, Text.join_singleton, joinValue, Text.trimBack_trimBack]
    simp only [Item.joined, Draft.add, hvalue]

theorem foldlM_add_joined (draft : Draft) (items : List Item) :
    (items.map Item.joined).foldlM Draft.add draft = items.foldlM Draft.add draft := by
  induction items generalizing draft with
  | nil => rfl
  | cons item items ih =>
    rw [List.map_cons, List.foldlM_cons, List.foldlM_cons, add_joined]
    exact congrArg _ (funext ih)

theorem add_header (hname : part ∉ sections.keys) (hdefault : part ≠ defaultSection)
    (current : Option Text) :
    (Draft.onto base sections current).add (.header part)
      = some (Draft.onto base (sections ++ [(part, [])]) (some part)) := by
  have hopened : TextOf.isAmong part sections.keys.reverse = false := by
    rw [Bool.eq_false_iff, Ne, TextOf.isAmong_iff, List.mem_reverse]
    exact hname
  simp only [Draft.onto, Draft.add, if_neg hdefault, hopened, laid_concat, putAll]
  simp

theorem add_entry (hpart : part ∉ sections.keys) (hentry : name ∉ entries.keys) (hname : name ≠ [])
    (hvalue : joinValue [value] = value) :
    (Draft.onto base (sections ++ [(part, entries)]) (some part)).add (.entry name [value])
      = some (Draft.onto base (sections ++ [(part, entries ++ [(name, value)])]) (some part)) := by
  have hempty : name.isEmpty = false := by simpa using hname
  have hwritten : ((sections ++ [(part, entries)]).flatMap
      fun part => part.2.keys.map (part.1, ·)).reverse.any
        (fun other => other = (part, name)) = false := by
    rw [List.any_eq_false]
    intro other hother hsame
    obtain rfl : other = (part, name) := of_decide_eq_true hsame
    simp only [List.mem_reverse, List.mem_flatMap, List.mem_map, Prod.mk.injEq] at hother
    obtain ⟨⟨q, es⟩, hq, m, hm, rfl, rfl⟩ := hother
    rcases List.mem_append.1 hq with hq | hq
    · exact hpart (Table.mem_keys_of_mem hq)
    · cases List.mem_singleton.1 hq
      exact hentry hm
  simp only [Draft.onto, Draft.add, hwritten, hvalue, hempty, laid_concat, putAll, List.foldl_append]
  simp

theorem foldlM_add_entries (hpart : part ∉ sections.keys) {written : Table Text Text}
    (hnodup : (Table.keys (written ++ entries)).Nodup)
    (h : ∀ entry ∈ entries, entry.1 ≠ [] ∧ joinValue [entry.2] = entry.2) :
    (entryItems entries).foldlM Draft.add
        (Draft.onto base (sections ++ [(part, written)]) (some part))
      = some (Draft.onto base (sections ++ [(part, written ++ entries)]) (some part)) := by
  induction entries generalizing written with
  | nil => rw [List.append_nil]; rfl
  | cons entry entries ih =>
    obtain ⟨name, value⟩ := entry
    obtain ⟨⟨hname, hvalue⟩, hentries⟩ := List.forall_mem_cons.1 h
    have hnew : name ∉ written.keys := Table.not_mem_keys_of_nodup hnodup
    rw [entryItems, List.map_cons, List.foldlM_cons, add_entry hpart hnew hname hvalue]
    rw [List.append_cons written (name, value) entries] at hnodup ⊢
    exact ih hnodup hentries

theorem foldlM_add_section (hpart : part ∉ before.keys) (h : IsPlainSection (part, entries))
    (current : Option Text) :
    (sectionItems (part, keptEntries entries)).foldlM Draft.add (Draft.onto base before current)
      = some (Draft.onto base (before ++ [(part, keptEntries entries)]) (some part)) := by
  have hkept : ∀ entry ∈ keptEntries entries, entry.1 ≠ [] ∧ joinValue [entry.2] = entry.2 :=
    List.forall_mem_map.2 fun entry hentry =>
      ⟨(h.entries entry hentry).1.ne_nil, joinValue_keptValue entry.2⟩
  have hnodup : (keptEntries entries).keys.Nodup := keys_keptEntries entries ▸ h.nodup
  rw [sectionItems, List.foldlM_cons, add_header hpart h.name.ne_default]
  exact foldlM_add_entries hpart hnodup hkept

theorem exists_foldlM_add_sections (base : Ini)
    (hnodup : (Table.keys (before ++ sections)).Nodup)
    (h : ∀ part ∈ sections, IsPlainSection part) (current : Option Text) :
    ∃ last, ((keptSections sections).flatMap sectionItems).foldlM Draft.add
        (Draft.onto base before current)
      = some (Draft.onto base (before ++ keptSections sections) last) := by
  induction sections generalizing before current with
  | nil => exact ⟨current, by rw [keptSections, List.map_nil, List.append_nil]; rfl⟩
  | cons part sections ih =>
    obtain ⟨name, entries⟩ := part
    obtain ⟨hplain, hsections⟩ := List.forall_mem_cons.1 h
    have hnew : name ∉ before.keys := Table.not_mem_keys_of_nodup hnodup
    have hkeys : (Table.keys (before ++ [(name, keptEntries entries)] ++ sections)).Nodup := by
      simpa using hnodup
    obtain ⟨last, hlast⟩ := ih hkeys hsections (some name)
    refine ⟨last, ?_⟩
    rw [← List.append_cons] at hlast
    rw [keptSections_cons, List.flatMap_cons, List.foldlM_append, foldlM_add_section hnew hplain]
    exact hlast

/-- Entries put into the last section go behind those it has. -/
theorem putAll_concat (hpart : part ∉ before.keys) (hdefault : part ≠ defaultSection)
    {written : Table Text Text} (hnodup : (Table.keys (written ++ entries)).Nodup) :
    putAll ⟨[], before ++ [(part, written)]⟩ part entries
      = ⟨[], before ++ [(part, written ++ entries)]⟩ := by
  induction entries generalizing written with
  | nil => rw [List.append_nil]; rfl
  | cons entry entries ih =>
    have hnew : entry.1 ∉ written.keys := Table.not_mem_keys_of_nodup hnodup
    have hentries : Ini.entries ⟨[], before ++ [(part, written)]⟩ part = written := by
      rw [Ini.entries, if_neg hdefault, Table.get?_concat hpart]
      rfl
    rw [putAll, List.foldl_cons, put, if_neg hdefault, hentries, Table.set_of_not_mem hnew,
      Table.set_concat hpart]
    rw [List.append_cons written entry entries] at hnodup ⊢
    exact ih hnodup

theorem laid_eq_append (hnodup : (Table.keys (before ++ sections)).Nodup)
    (h : ∀ part ∈ sections, part.1 ≠ defaultSection ∧ part.2.keys.Nodup) :
    laid ⟨[], before⟩ sections = ⟨[], before ++ sections⟩ := by
  induction sections generalizing before with
  | nil => rw [List.append_nil]; rfl
  | cons part sections ih =>
    obtain ⟨name, entries⟩ := part
    obtain ⟨⟨hdefault, hentries⟩, hsections⟩ := List.forall_mem_cons.1 h
    have hnew : name ∉ before.keys := Table.not_mem_keys_of_nodup hnodup
    have hopen : openSection ⟨[], before⟩ name = ⟨[], before ++ [(name, [])]⟩ := by
      rw [openSection, if_neg hdefault, Ini.entries, if_neg hdefault, Table.get?_eq_none_iff.2 hnew,
        Table.set_of_not_mem hnew]
      rfl
    have hput : putAll ⟨[], before ++ [(name, [])]⟩ name entries = ⟨[], before ++ [(name, entries)]⟩ :=
      putAll_concat hnew hdefault hentries
    rw [List.append_cons before] at hnodup ⊢
    rw [← ih hnodup hsections, laid, List.foldl_cons, hopen, hput, laid]

end Drafts

/-- A document without defaults whose sections can be written. -/
structure IsPlain (doc : Ini) : Prop where
  defaults : doc.defaults = []
  nodup : doc.sections.keys.Nodup
  sections : ∀ part ∈ doc.sections, IsPlainSection part

theorem not_mem_valueText {value : Text} (h : '\r' ∉ value) : '\r' ∉ valueText value := by
  intro hmem
  obtain ⟨c, hc, hmem⟩ := List.mem_flatMap.1 hmem
  split at hmem
  · exact absurd hmem (by decide)
  · exact h (List.mem_singleton.1 hmem ▸ hc)

theorem not_mem_entryText {entry : Text × Text} (hname : IsEntryName entry.1)
    (hvalue : '\r' ∉ entry.2) : '\r' ∉ entryText entry := by
  have hbreak : '\r' ∉ entry.1 := fun h => absurd (hname.plain _ h).1 (by decide)
  have htext := not_mem_valueText hvalue
  simp [entryText, hbreak, htext]

theorem not_mem_sectionText {part : Text × Table Text Text} (h : IsPlainSection part) :
    '\r' ∉ sectionText part := by
  have hname := h.name.noBreak.2
  have hentries : '\r' ∉ part.2.flatMap entryText := by
    intro hmem
    obtain ⟨entry, hentry, hmem⟩ := List.mem_flatMap.1 hmem
    exact not_mem_entryText (h.entries entry hentry).1 (h.entries entry hentry).2 hmem
  have hheader : '\r' ∉ headerText part.1 := by simp [headerText, hname]
  simp [sectionText, hheader, hentries]

section

variable {doc : Ini}

/-- The text of a document is read over another document as its sections with the values as they are
kept. -/
theorem overlay?_toText (h : doc.IsPlain) (base : Ini) :
    overlay? base doc.toText = some (base.laid (keptSections doc.sections)) := by
  obtain ⟨defaults, sections⟩ := doc
  obtain rfl : defaults = [] := h.defaults
  obtain ⟨next, hscan, hjoined⟩ := exists_scanFrom_sections h.sections []
  have hnodup : (Table.keys ([] ++ sections)).Nodup := h.nodup
  obtain ⟨last, hdraft⟩ := exists_foldlM_add_sections base hnodup h.sections none
  have hreturn : '\r' ∉ toText ⟨[], sections⟩ := by
    intro hmem
    obtain ⟨part, hpart, hmem⟩ := List.mem_flatMap.1 hmem
    exact not_mem_sectionText (h.sections part hpart) hmem
  have hitems : (items (toText ⟨[], sections⟩)).map Item.joined
      = (keptSections sections).flatMap sectionItems := by
    have hscan' : ((Text.lines (toText ⟨[], sections⟩)).map Line.ofText).foldl Scan.step ⟨0, []⟩
        = ⟨0, next⟩ := by
      rw [Text.lines, Text.unifyBreaks_eq_self hreturn]
      exact hscan
    rw [items, hscan', List.map_reverse, hjoined, List.map_nil, List.append_nil,
      List.reverse_reverse]
  have hadd : addItems? base (items (toText ⟨[], sections⟩))
      = some (Draft.onto base (keptSections sections) last) := by
    rw [addItems?, ← foldlM_add_joined, hitems]
    exact hdraft
  rw [overlay?, hadd]
  rfl

/-- A document is read back from its text with its values as they are kept. -/
theorem read?_toText (h : doc.IsPlain) :
    read? doc.toText = some ⟨[], keptSections doc.sections⟩ := by
  have hnodup : (Table.keys ([] ++ keptSections doc.sections)).Nodup := by
    rw [List.nil_append, keys_keptSections]
    exact h.nodup
  rw [read?, overlay?_toText h, empty, laid_eq_append hnodup, List.nil_append]
  refine List.forall_mem_map.2 fun part hpart => ⟨(h.sections part hpart).name.ne_default, ?_⟩
  rw [keys_keptEntries]
  exact (h.sections part hpart).nodup

end

end Lexicon.Ini
