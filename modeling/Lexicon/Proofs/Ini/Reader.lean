import Lexicon.Proofs.Ini.Value
import Lexicon.Proofs.Table

/-! What a document read from a text holds: every value in it is one that a document can hold. -/
namespace Lexicon.Ini

/-- A line looked at alone: what is left of it is neither empty nor a comment. -/
def Line.IsClean : Line → Prop
  | .content _ body => body ≠ [] ∧ body.trim = body ∧ ('\n' ∉ body ∧ '\r' ∉ body) ∧
      ∀ c ∈ body.head?, c ≠ '#' ∧ c ≠ ';'
  | _ => True

theorem Line.isClean_ofText {s : Text} (h : '\n' ∉ s ∧ '\r' ∉ s) : (Line.ofText s).IsClean := by
  unfold Line.ofText
  split
  · trivial
  · next c body htrim =>
    split
    · trivial
    · next hcomment =>
      simp only [Bool.or_eq_true, decide_eq_true_eq, not_or] at hcomment
      have hmem {d : Char} (hd : d ∈ c :: body) : d ∈ s := Text.mem_of_mem_trim (htrim ▸ hd)
      refine ⟨by simp, htrim ▸ Text.trim_trim s,
        ⟨fun hc => h.1 (hmem hc), fun hc => h.2 (hmem hc)⟩, ?_⟩
      rintro d ⟨⟩
      exact hcomment

/-- An item whose value, if it has one, consists of such lines. -/
def Item.IsClean : Item → Prop
  | .entry _ value => AreLines value
  | _ => True

section

variable {lines : List Text} {line : Text}

theorem areLines_singleton (htrim : line.trim = line) (hbreak : '\n' ∉ line ∧ '\r' ∉ line) :
    AreLines [line] :=
  ⟨by simp, List.forall_mem_singleton.2 htrim, List.forall_mem_singleton.2 hbreak, by simp⟩

theorem areLines_concat (h : AreLines lines) (htrim : line.trim = line)
    (hbreak : '\n' ∉ line ∧ '\r' ∉ line) (hcomment : ∀ c ∈ line.head?, c ≠ '#' ∧ c ≠ ';') :
    AreLines (lines ++ [line]) where
  ne_nil := by simp
  trimmed := List.forall_mem_append.2 ⟨h.trimmed, List.forall_mem_singleton.2 htrim⟩
  noBreak := List.forall_mem_append.2 ⟨h.noBreak, List.forall_mem_singleton.2 hbreak⟩
  noComment := by
    rw [List.tail_append_of_ne_nil h.ne_nil]
    exact List.forall_mem_append.2 ⟨h.noComment, List.forall_mem_singleton.2 hcomment⟩

end

section

variable {scan : Scan} {line : Line}

theorem Item.isClean_ofBody {body : Text} (h : '\n' ∉ body ∧ '\r' ∉ body) :
    (Item.ofBody body).IsClean := by
  unfold Item.ofBody
  split
  · trivial
  · next name value _ hassignment =>
    unfold assignment? at hassignment
    split at hassignment
    · next d after hafter =>
      cases hassignment
      have hmem {c : Char} (hc : c ∈ Text.trim after) : c ∈ body :=
        (List.dropWhile_sublist _).subset
          (hafter ▸ List.mem_cons_of_mem _ (Text.mem_of_mem_trim hc))
      exact areLines_singleton (Text.trim_trim after)
        ⟨fun hc => h.1 (hmem hc), fun hc => h.2 (hmem hc)⟩
    · cases hassignment
  · trivial

theorem Scan.isClean_extend (h : ∀ item ∈ scan.items, item.IsClean) {line : Text}
    (htrim : line.trim = line) (hbreak : '\n' ∉ line ∧ '\r' ∉ line)
    (hcomment : ∀ c ∈ line.head?, c ≠ '#' ∧ c ≠ ';') :
    ∀ item ∈ (scan.extend line).items, item.IsClean := by
  unfold Scan.extend
  split
  · next name value rest hitems =>
    rw [hitems] at h
    obtain ⟨hvalue, hrest⟩ := List.forall_mem_cons.1 h
    exact List.forall_mem_cons.2 ⟨areLines_concat hvalue htrim hbreak hcomment, hrest⟩
  · exact h

/-- A line makes no value that a document cannot hold. -/
theorem Scan.isClean_step (h : ∀ item ∈ scan.items, item.IsClean) (hline : line.IsClean) :
    ∀ item ∈ (scan.step line).items, item.IsClean := by
  cases line with
  | comment => exact h
  | blank => exact Scan.isClean_extend h rfl (by simp) (by simp)
  | content indent body =>
    obtain ⟨-, htrim, hbreak, hcomment⟩ := hline
    simp only [Scan.step]
    split
    · exact Scan.isClean_extend h htrim hbreak hcomment
    · exact List.forall_mem_cons.2 ⟨Item.isClean_ofBody hbreak, h⟩

theorem isClean_of_mem_items (s : Text) : ∀ item ∈ items s, item.IsClean := by
  have hlines : ∀ line ∈ s.lines.map Line.ofText, line.IsClean := by
    intro line hline
    obtain ⟨text, htext, rfl⟩ := List.mem_map.1 hline
    exact Line.isClean_ofText (Text.not_mem_of_mem_lines htext)
  have hscan := List.foldlRecOn (s.lines.map Line.ofText) Scan.step (b := ⟨0, []⟩)
    (motive := fun scan => ∀ item ∈ scan.items, item.IsClean) (List.forall_mem_nil _)
    fun _ h line hline => Scan.isClean_step h (hlines line hline)
  exact fun item hitem => hscan item (List.mem_reverse.1 hitem)

end

/-- A document in which every value passes a test. -/
structure Holds (p : Text → Prop) (doc : Ini) : Prop where
  defaults : ∀ entry ∈ doc.defaults, p entry.2
  sections : ∀ part ∈ doc.sections, ∀ entry ∈ part.2, p entry.2

section

variable {p : Text → Prop} {doc : Ini} {part name value : Text}

theorem holds_empty (p : Text → Prop) : Holds p empty := ⟨by simp [empty], by simp [empty]⟩

theorem Holds.imp {q : Text → Prop} (h : Holds p doc) (himp : ∀ value, p value → q value) :
    Holds q doc where
  defaults := fun entry hentry => himp _ (h.defaults entry hentry)
  sections := fun part hpart entry hentry => himp _ (h.sections part hpart entry hentry)

theorem forall_mem_set {table : Table Text Text} (h : ∀ entry ∈ table, p entry.2)
    (hvalue : p value) : ∀ entry ∈ table.set name value, p entry.2 := by
  intro entry hentry
  rcases Table.mem_or_eq_of_mem_set hentry with hentry | rfl
  · exact h entry hentry
  · exact hvalue

theorem Holds.forall_mem_entries (h : Holds p doc) (part : Text) :
    ∀ entry ∈ doc.entries part, p entry.2 := by
  unfold entries
  split
  · exact h.defaults
  · cases hpart : doc.sections.get? part with
    | none => simp
    | some table => exact h.sections _ (Table.mem_of_get?_eq_some hpart)

theorem Holds.setSection (h : Holds p doc) {table : Table Text Text}
    (htable : ∀ entry ∈ table, p entry.2) (part : Text) :
    Holds p { doc with sections := doc.sections.set part table } where
  defaults := h.defaults
  sections := by
    intro other hother
    rcases Table.mem_or_eq_of_mem_set hother with hother | rfl
    · exact h.sections other hother
    · exact htable

theorem Holds.openSection (h : Holds p doc) (part : Text) : Holds p (doc.openSection part) := by
  unfold Ini.openSection
  split
  · exact h
  · exact h.setSection (h.forall_mem_entries part) part

theorem Holds.put (h : Holds p doc) (hvalue : p value) (part name : Text) :
    Holds p (doc.put part name value) := by
  unfold Ini.put
  split
  · exact ⟨forall_mem_set h.defaults hvalue, h.sections⟩
  · exact h.setSection (forall_mem_set (h.forall_mem_entries part) hvalue) part

theorem Holds.of_get? (h : Holds p doc) (hvalue : doc.get? part name = some value) : p value := by
  have hsection : ∀ entry ∈ (doc.sections.get? part).getD [], p entry.2 := by
    cases hpart : doc.sections.get? part with
    | none => simp
    | some table => exact h.sections _ (Table.mem_of_get?_eq_some hpart)
  unfold Ini.get? at hvalue
  cases hown : Table.get? ((doc.sections.get? part).getD []) name with
  | some own =>
    rw [hown] at hvalue
    cases hvalue
    exact hsection _ (Table.mem_of_get?_eq_some hown)
  | none =>
    rw [hown] at hvalue
    exact h.defaults _ (Table.mem_of_get?_eq_some hvalue)

/-- An item puts nothing into a document that the document cannot hold. -/
theorem Draft.holds_add {draft next : Draft} {item : Item} (h : Holds IsNormal draft.doc)
    (hitem : item.IsClean) (hadd : draft.add item = some next) : Holds IsNormal next.doc := by
  cases item with
  | header name =>
    simp only [Draft.add] at hadd
    split at hadd
    · cases hadd
      exact h
    · split at hadd
      · cases hadd
      · cases hadd
        exact h.openSection name
  | entry name value =>
    simp only [Draft.add] at hadd
    split at hadd
    · cases hadd
    · split at hadd
      · cases hadd
      · cases hadd
        exact h.put (isNormal_joinValue hitem) _ name
  | stray =>
    simp only [Draft.add] at hadd
    split at hadd
    · cases hadd
    · cases hadd
      exact h

theorem holds_of_foldlM {items : List Item} (hitems : ∀ item ∈ items, item.IsClean)
    {draft last : Draft} (h : Holds IsNormal draft.doc)
    (hfold : items.foldlM Draft.add draft = some last) : Holds IsNormal last.doc := by
  induction items generalizing draft with
  | nil =>
    cases hfold
    exact h
  | cons item items ih =>
    obtain ⟨hitem, hrest⟩ := List.forall_mem_cons.1 hitems
    rw [List.foldlM_cons] at hfold
    obtain ⟨next, hadd, hfold⟩ := Option.bind_eq_some_iff.1 hfold
    exact ih hrest (Draft.holds_add h hitem hadd) hfold

/-- Every value of a document that is read over another one is one that a document can hold, if those
of the other one are. -/
theorem holds_of_overlay? {base : Ini} (hbase : Holds IsNormal base) {s : Text}
    (h : overlay? base s = some doc) : Holds IsNormal doc := by
  unfold overlay? at h
  obtain ⟨draft, hdraft, h⟩ := Option.bind_eq_some_iff.1 h
  split at h
  · cases h
  · cases h
    exact holds_of_foldlM (isClean_of_mem_items s) hbase hdraft

theorem holds_of_read? {s : Text} (h : read? s = some doc) : Holds IsNormal doc :=
  holds_of_overlay? (holds_empty _) h

end

end Lexicon.Ini
