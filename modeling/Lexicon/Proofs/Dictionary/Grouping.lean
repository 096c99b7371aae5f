import Lexicon.Dictionary.Grouping
import Lexicon.Proofs.Basic
import Lexicon.Proofs.Json.RoundTrip
import Lexicon.Proofs.Json.Same

/-! Grouped results are the flat results merged: one for each headword and reading, in the order in which
these are first met. The first result of a form gives everything but frequencies and definitions; these
are gathered from all of its results, a definition once for each dictionary and content. -/
namespace Lexicon

namespace Grouping

/-- Whether two results are of one headword and reading. -/
def sameForm (g h : Group) : Bool := g.headword.same h.headword && g.reading.same h.reading

/-- The first result of a form with what all results of the form hold. -/
def mergeInto (flat : List Group) (first : Group) : Group :=
  { first with
    frequencies := (flat.filter (sameForm first)).flatMap (·.frequencies)
    definitions :=
      distinctBy sameDefinition ((flat.filter (sameForm first)).flatMap (·.definitions)) }

/-- One result for each form, in the order in which forms are first met. -/
def merge (flat : List Group) : List Group := (distinctBy sameForm flat).map (mergeInto flat)

/-- Entries without a headword give no result. -/
def hasTerm (e : Entry) : Bool := (orEmpty e.term).isTruthy

/-- The result of an entry on its own. -/
def resultOf (names : NameTable) (e : Entry) : Except GroupError Group := do
  addEntry ((names.get? e.source).getD unknown) e (← openGroup e)

section Forms

/-- A form that can be looked up. -/
def HasScalarForm (g : Group) : Prop := g.headword.isScalar = true ∧ g.reading.isScalar = true

def formKey (g : Group) : Option Json.ScalarKey × Option Json.ScalarKey :=
  (g.headword.scalarKey?, g.reading.scalarKey?)

/-- An entry whose form can be looked up. -/
def HasScalarTerm (e : Entry) : Prop :=
  (orEmpty e.term).isScalar = true ∧ (orEmpty e.reading).isScalar = true

def entryKey (e : Entry) : Option Json.ScalarKey × Option Json.ScalarKey :=
  ((orEmpty e.term).scalarKey?, (orEmpty e.reading).scalarKey?)

theorem belongs_iff {e : Entry} {g : Group} (he : HasScalarTerm e) (hg : HasScalarForm g) :
    belongs e g = true ↔ entryKey e = formKey g := by
  rw [belongs, Bool.and_eq_true, Json.same_iff_of_isScalar he.1 hg.1,
    Json.same_iff_of_isScalar he.2 hg.2, entryKey, formKey, Prod.mk.injEq]

theorem sameForm_iff {g h : Group} (hg : HasScalarForm g) (hh : HasScalarForm h) :
    sameForm g h = true ↔ formKey g = formKey h := by
  rw [sameForm, Bool.and_eq_true, Json.same_iff_of_isScalar hg.1 hh.1,
    Json.same_iff_of_isScalar hg.2 hh.2, formKey, formKey, Prod.mk.injEq]

theorem sameDefinition_iff {a b : Definition} : sameDefinition a b = true ↔
    a.dictionary = b.dictionary ∧ a.content.canonicalText = b.content.canonicalText := by
  rw [sameDefinition, Bool.and_eq_true, decide_eq_true_iff, decide_eq_true_iff]

theorem sameDefinition_comm (a b : Definition) : sameDefinition a b = sameDefinition b a := by
  rw [Bool.eq_iff_iff, sameDefinition_iff, sameDefinition_iff, eq_comm,
    eq_comm (a := a.content.canonicalText)]

theorem any_sameDefinition_distinctBy (ds : List Definition) (d : Definition) :
    (distinctBy sameDefinition ds).any (sameDefinition d) = ds.any (sameDefinition · d) := by
  have hcomm : sameDefinition d = (sameDefinition · d) := funext fun e => sameDefinition_comm d e
  rw [hcomm]
  refine any_distinctBy fun x _ y _ hxy hyd => ?_
  rw [sameDefinition_iff] at hxy hyd ⊢
  exact ⟨hxy.1.trans hyd.1, hxy.2.trans hyd.2⟩

end Forms

section Contents

variable {names : NameTable} {dictionary : Text} {e : Entry} {g g' first : Group}
  {flat : List Group} {content : FrequencyNote ⊕ Definition}

/-- What an entry adds to a result: a frequency or a definition. -/
def contentOf (dictionary : Text) (e : Entry) : Except GroupError (FrequencyNote ⊕ Definition) :=
  match frequencyValue? e.record with
  | some value => .ok (.inl ⟨dictionary, value⟩)
  | none => (definitionOf dictionary e.record).map .inr

/-- A result with one frequency or definition more, unless it has the definition. -/
def put (g : Group) : FrequencyNote ⊕ Definition → Group
  | .inl f => { g with frequencies := g.frequencies ++ [f] }
  | .inr d =>
    if g.definitions.any (sameDefinition d) then g else { g with definitions := g.definitions ++ [d] }

theorem addEntry_eq (dictionary : Text) (e : Entry) (g : Group) :
    addEntry dictionary e g = (contentOf dictionary e).map (put g) := by
  unfold addEntry contentOf
  cases frequencyValue? e.record with
  | some value => rfl
  | none =>
    cases definitionOf dictionary e.record with
    | error fault => rfl
    | ok d =>
      dsimp only [bind, Except.bind, Except.map, pure, Except.pure, put]
      split <;> rfl

theorem addEntry_eq_ok_iff : addEntry dictionary e g = .ok g' ↔
    ∃ content, contentOf dictionary e = .ok content ∧ put g content = g' := by
  rw [addEntry_eq]
  cases contentOf dictionary e <;> simp [Except.map]

/-- A result of the form of an entry that holds one thing. -/
structure Holds (e : Entry) (content : FrequencyNote ⊕ Definition) (g : Group) : Prop where
  headword_eq : g.headword = orEmpty e.term
  reading_eq : g.reading = orEmpty e.reading
  frequencies_eq : g.frequencies = content.elim (fun f => [f]) fun _ => []
  definitions_eq : g.definitions = content.elim (fun _ => []) fun d => [d]

/-- A result that nothing was put into has the form and the length of its entry. -/
theorem exists_of_openGroup (h : openGroup e = .ok g) : ∃ furigana termTags, g =
    ⟨orEmpty e.term, orEmpty e.reading, furigana, [], [], termTags, e.matchLength⟩ := by
  obtain ⟨furigana, -, h⟩ := bind_eq_ok_iff.1 h
  split at h <;> obtain ⟨termTags, -, h⟩ := bind_eq_ok_iff.1 h <;> cases h <;>
    exact ⟨_, _, rfl⟩

/-- The result of an entry on its own holds what the entry adds. -/
theorem exists_holds_of_resultOf (h : resultOf names e = .ok g) :
    ∃ content, contentOf ((names.get? e.source).getD unknown) e = .ok content ∧
      Holds e content g := by
  obtain ⟨o, ho, h⟩ := bind_eq_ok_iff.1 h
  obtain ⟨content, hcontent, rfl⟩ := addEntry_eq_ok_iff.1 h
  obtain ⟨furigana, termTags, rfl⟩ := exists_of_openGroup ho
  refine ⟨content, hcontent, ?_⟩
  cases content <;> exact ⟨rfl, rfl, rfl, rfl⟩

theorem matchLength_put (g : Group) (content : FrequencyNote ⊕ Definition) :
    (put g content).matchLength = g.matchLength := by
  cases content with
  | inl f => rfl
  | inr d =>
    rw [put]
    split <;> rfl

theorem matchLength_of_resultOf (h : resultOf names e = .ok g) : g.matchLength = e.matchLength := by
  obtain ⟨o, ho, h⟩ := bind_eq_ok_iff.1 h
  obtain ⟨content, -, rfl⟩ := addEntry_eq_ok_iff.1 h
  obtain ⟨furigana, termTags, rfl⟩ := exists_of_openGroup ho
  exact matchLength_put _ content

/-- More of another form changes nothing in a merged result. -/
theorem mergeInto_concat_of_ne (h : ¬ sameForm first g = true) :
    mergeInto (flat ++ [g]) first = mergeInto flat first := by
  simp [mergeInto, h]

/-- More of its own form is put into a merged result. -/
theorem mergeInto_concat_of_sameForm (hg : Holds e content g) (h : sameForm first g = true) :
    mergeInto (flat ++ [g]) first = put (mergeInto flat first) content := by
  have hfilter : (flat ++ [g]).filter (sameForm first) = flat.filter (sameForm first) ++ [g] := by
    simp [h]
  simp only [mergeInto, hfilter, List.flatMap_append, List.flatMap_singleton, hg.frequencies_eq,
    hg.definitions_eq]
  cases content with
  | inl f => simp only [Sum.elim_inl, List.append_nil, put]
  | inr d =>
    simp only [Sum.elim_inr, List.append_nil, distinctBy_concat, put, any_sameDefinition_distinctBy]
    split <;> rfl

/-- The first result of a form is merged from itself. -/
theorem mergeInto_self (hg : Holds e content g) (hself : sameForm g g = true)
    (h : flat.filter (sameForm g) = []) : mergeInto (flat ++ [g]) g = g := by
  have hdistinct : distinctBy sameDefinition g.definitions = g.definitions := by
    rw [hg.definitions_eq]
    cases content <;> rfl
  simp [mergeInto, h, hself, hdistinct]

end Contents

section Steps

variable {names : NameTable} {e : Entry} {g : Group} {flat : List Group}
  {content : FrequencyNote ⊕ Definition}

/-- Changing the first result that an entry belongs to, where only one can be it. -/
theorem updateFirst_map {f : Group → Except GroupError Group} {F F' : Group → Group}
    {firsts : List Group} (form : Group → Bool)
    (hbelongs : ∀ first ∈ firsts, belongs e (F first) = form first)
    (hchange : ∀ first ∈ firsts, form first = true → f (F first) = .ok (F' first))
    (hkeep : ∀ first ∈ firsts, ¬ form first = true → F' first = F first)
    (honce : firsts.Pairwise fun a b => ¬ (form a = true ∧ form b = true)) :
    updateFirst e f (firsts.map F) = .ok (firsts.map F') := by
  induction firsts with
  | nil => rfl
  | cons a rest ih =>
    obtain ⟨ha, honce⟩ := List.pairwise_cons.1 honce
    obtain ⟨hbelongs_a, hbelongs⟩ := List.forall_mem_cons.1 hbelongs
    obtain ⟨hchange_a, hchange⟩ := List.forall_mem_cons.1 hchange
    obtain ⟨hkeep_a, hkeep⟩ := List.forall_mem_cons.1 hkeep
    rw [List.map_cons, updateFirst, hbelongs_a]
    by_cases hform : form a = true
    · have hrest : rest.map F' = rest.map F :=
        List.map_congr_left fun b hb => hkeep b hb fun hb' => ha b hb ⟨hform, hb'⟩
      rw [if_pos hform, hchange_a hform, List.map_cons, hrest]
      rfl
    · rw [if_neg hform, ih hbelongs hchange hkeep honce, List.map_cons, hkeep_a hform]
      rfl

theorem step_of_not_hasTerm (names : NameTable) (grouped : Bool) (groups : List Group)
    (h : ¬ hasTerm e = true) : step names grouped groups e = .ok groups := by
  have hterm : (orEmpty e.term).isTruthy = false := by simpa [hasTerm] using h
  simp [step, hterm, pure, Except.pure]

theorem step_false_eq (names : NameTable) (groups : List Group) (h : hasTerm e = true) :
    step names false groups e = (resultOf names e).map fun g => groups ++ [g] := by
  have hterm : (orEmpty e.term).isTruthy = true := h
  simp only [step, hterm, resultOf]
  cases openGroup e with
  | error fault => rfl
  | ok o => cases addEntry ((names.get? e.source).getD unknown) e o <;> rfl

theorem step_true_eq (names : NameTable) (groups : List Group) (h : hasTerm e = true)
    (hscalar : HasScalarTerm e) : step names true groups e =
      if groups.any (belongs e) then
        updateFirst e (addEntry ((names.get? e.source).getD unknown) e) groups
      else (resultOf names e).map fun g => groups ++ [g] := by
  have hterm : (orEmpty e.term).isTruthy = true := h
  simp only [step, hterm, hscalar.1, hscalar.2, resultOf]
  by_cases hany : groups.any (belongs e) = true
  · simp only [hany, if_true]
    cases updateFirst e (addEntry ((names.get? e.source).getD unknown) e) groups <;> rfl
  · simp only [hany]
    cases openGroup e with
    | error fault => rfl
    | ok o => cases addEntry ((names.get? e.source).getD unknown) e o <;> rfl

theorem hasScalarTerm_of_step {groups groups' : List Group} (h : hasTerm e = true)
    (hstep : step names true groups e = .ok groups') : HasScalarTerm e := by
  by_contra hscalar
  have hterm : (orEmpty e.term).isTruthy = true := h
  have hcheck : ((orEmpty e.term).isScalar && (orEmpty e.reading).isScalar) = false :=
    Bool.eq_false_iff.2 fun hboth => hscalar (Bool.and_eq_true_iff.1 hboth)
  simp only [step, hterm, hcheck] at hstep
  cases hstep

theorem Holds.hasScalarForm (hg : Holds e content g) (he : HasScalarTerm e) : HasScalarForm g := by
  rw [HasScalarForm, hg.headword_eq, hg.reading_eq]
  exact he

theorem Holds.sameForm_iff (hg : Holds e content g) (he : HasScalarTerm e) {h : Group}
    (hh : HasScalarForm h) : sameForm h g = true ↔ belongs e h = true := by
  rw [Grouping.sameForm_iff hh (hg.hasScalarForm he), belongs_iff he hh, formKey, formKey, entryKey,
    hg.headword_eq, hg.reading_eq, eq_comm]

theorem Holds.any_sameForm (hg : Holds e content g) (he : HasScalarTerm e)
    (hflat : ∀ h ∈ flat, HasScalarForm h) : flat.any (sameForm · g) = flat.any (belongs e) := by
  rw [Bool.eq_iff_iff, List.any_eq_true, List.any_eq_true]
  exact exists_congr fun h => and_congr_right fun hmem => hg.sameForm_iff he (hflat h hmem)

theorem any_belongs_merge (hflat : ∀ h ∈ flat, HasScalarForm h) (he : HasScalarTerm e) :
    (merge flat).any (belongs e) = flat.any (belongs e) := by
  rw [merge, List.any_map]
  refine any_distinctBy fun x hx y hy hxy hy' => ?_
  rw [Grouping.sameForm_iff (hflat x hx) (hflat y hy)] at hxy
  have hkey : entryKey e = formKey y := (belongs_iff he (hflat y hy)).1 hy'
  exact (belongs_iff he (hflat x hx)).2 (hkey.trans hxy.symm)

/-- An entry of a form that was met puts what it holds into the result of the form. -/
theorem step_merge_of_any (hflat : ∀ h ∈ flat, HasScalarForm h) (hterm : hasTerm e = true)
    (he : HasScalarTerm e)
    (hcontent : contentOf ((names.get? e.source).getD unknown) e = .ok content)
    (hg : Holds e content g) (hmet : flat.any (belongs e) = true) :
    step names true (merge flat) e = .ok (merge (flat ++ [g])) := by
  have hfirst : ∀ first ∈ distinctBy sameForm flat, HasScalarForm first := fun first hmem =>
    hflat first (mem_of_mem_distinctBy hmem)
  rw [step_true_eq names _ hterm he, any_belongs_merge hflat he, if_pos hmet, merge, merge,
    distinctBy_concat, hg.any_sameForm he hflat, if_pos hmet]
  refine updateFirst_map (belongs e) (fun _ _ => rfl) ?_ ?_ ?_
  · intro first hmem hbelongs
    have hsame := (hg.sameForm_iff he (hfirst first hmem)).2 hbelongs
    exact addEntry_eq_ok_iff.2 ⟨content, hcontent, (mergeInto_concat_of_sameForm hg hsame).symm⟩
  · intro first hmem hbelongs
    exact mergeInto_concat_of_ne fun hsame =>
      hbelongs ((hg.sameForm_iff he (hfirst first hmem)).1 hsame)
  · refine (pairwise_distinctBy sameForm flat).imp_of_mem ?_
    rintro a b ha hb hab ⟨hea, heb⟩
    rw [belongs_iff he (hfirst a ha)] at hea
    rw [belongs_iff he (hfirst b hb)] at heb
    have hsame : sameForm a b = true :=
      (Grouping.sameForm_iff (hfirst a ha) (hfirst b hb)).2 (hea.symm.trans heb)
    rw [hsame] at hab
    cases hab

/-- The result of an entry of a new form stands for itself. -/
theorem merge_concat_of_not_any (hflat : ∀ h ∈ flat, HasScalarForm h) (he : HasScalarTerm e)
    (hg : Holds e content g) (hmet : ¬ flat.any (belongs e) = true) :
    merge (flat ++ [g]) = merge flat ++ [g] := by
  have hg' := hg.hasScalarForm he
  have hne : ∀ h ∈ flat, ¬ sameForm h g = true := fun h hh hsame =>
    hmet (List.any_eq_true.2 ⟨h, hh, (hg.sameForm_iff he (hflat h hh)).1 hsame⟩)
  have hnone : flat.filter (sameForm g) = [] := by
    refine List.filter_eq_nil_iff.2 fun h hh hsame => hne h hh ?_
    rw [Grouping.sameForm_iff hg' (hflat h hh)] at hsame
    rw [Grouping.sameForm_iff (hflat h hh) hg', hsame]
  rw [merge, distinctBy_concat, hg.any_sameForm he hflat, if_neg hmet, List.map_append,
    List.map_singleton, mergeInto_self hg ((Grouping.sameForm_iff hg' hg').2 rfl) hnone]
  congr 1
  refine List.map_congr_left fun first hfirst => ?_
  exact mergeInto_concat_of_ne (hne first (mem_of_mem_distinctBy hfirst))

/-- An entry with a result of its own, which is merged with those before it. -/
theorem step_merge_of_resultOf (hflat : ∀ h ∈ flat, HasScalarForm h) (hterm : hasTerm e = true)
    (he : HasScalarTerm e) (hg : resultOf names e = .ok g) :
    step names true (merge flat) e = .ok (merge (flat ++ [g])) := by
  obtain ⟨content, hcontent, hholds⟩ := exists_holds_of_resultOf hg
  by_cases hmet : flat.any (belongs e) = true
  · exact step_merge_of_any hflat hterm he hcontent hholds hmet
  · rw [step_true_eq names _ hterm he, any_belongs_merge hflat he, if_neg hmet, hg,
      merge_concat_of_not_any hflat he hholds hmet]
    rfl

end Steps

section Repeats

variable {names : NameTable} {e : Entry} {g : Group} {flat gs : List Group} {es met : List Entry}
  {content : FrequencyNote ⊕ Definition}

def untagged (e : Entry) : Entry := { e with termTags := .null }

/-- Whether two entries are of one headword and reading. -/
def sharesForm (e m : Entry) : Bool :=
  (orEmpty e.term).same (orEmpty m.term) && (orEmpty e.reading).same (orEmpty m.reading)

/-- Entries, without their term tags where an entry of the same form was met before. -/
def untagRepeats (met : List Entry) : List Entry → List Entry
  | [] => []
  | e :: rest =>
    (if met.any (sharesForm e) then untagged e else e) :: untagRepeats (met ++ [e]) rest

/-- A form that can be looked up and that ruby can be set over. -/
structure CanOpen (g : Group) : Prop where
  hasScalarForm : HasScalarForm g
  furigana : ∃ furigana, furiganaOf g.headword g.reading = .ok furigana

/-- Texts and arrays have positions. -/
def hasPositions : Json → Bool
  | .str _ | .array _ => true
  | _ => false

/-- Ruby can be set over a value that has nothing to read, over one that is its own reading, and between
values that both have positions. -/
theorem exists_furiganaOf_eq_ok_iff {headword reading : Json} :
    (∃ furigana, furiganaOf headword reading = .ok furigana) ↔
      reading.isTruthy = false ∨ headword.same reading = true ∨
        hasPositions headword = true ∧ hasPositions reading = true := by
  unfold furiganaOf
  by_cases hplain : (!reading.isTruthy || headword.same reading) = true
  · rw [if_pos hplain]
    simp only [Bool.or_eq_true, Bool.not_eq_true'] at hplain
    exact ⟨fun _ => hplain.imp_right .inl, fun _ => ⟨_, rfl⟩⟩
  · rw [if_neg hplain]
    simp only [Bool.or_eq_true, Bool.not_eq_true', not_or] at hplain
    simp only [hplain.1, hplain.2]
    cases headword <;> cases reading <;>
      simp [positions, hasPositions, throw, throwThe, MonadExceptOf.throw, bind, Except.bind, pure,
        Except.pure]

/-- The values with positions that can be looked up are texts. -/
theorem exists_furiganaOf_iff {headword reading : Json} (hh : headword.isScalar = true)
    (hr : reading.isScalar = true) :
    (∃ furigana, furiganaOf headword reading = .ok furigana) ↔
      reading.isTruthy = false ∨ headword.same reading = true ∨
        ∃ s t, headword = .str s ∧ reading = .str t := by
  rw [exists_furiganaOf_eq_ok_iff]
  cases headword <;> cases reading <;> simp_all [Json.isScalar, hasPositions]

/-- Ruby can be set over an entry's form when it can be set over the same form. -/
theorem CanOpen.exists_furiganaOf (hg : CanOpen g) (he : HasScalarTerm e)
    (hbelongs : belongs e g = true) :
    ∃ furigana, furiganaOf (orEmpty e.term) (orEmpty e.reading) = .ok furigana := by
  have hkey := (belongs_iff he hg.hasScalarForm).1 hbelongs
  obtain ⟨hheadword, hreading⟩ := Prod.mk.inj hkey
  obtain ⟨hh, hr⟩ := hg.hasScalarForm
  rw [exists_furiganaOf_iff he.1 he.2, Json.isTruthy_eq_of_scalarKey? he.2 hreading,
    Json.same_iff_of_isScalar he.1 he.2, hheadword, hreading, ← Json.same_iff_of_isScalar hh hr]
  refine ((exists_furiganaOf_iff hh hr).1 hg.furigana).imp_right (Or.imp_right ?_)
  rintro ⟨s, t, hs, ht⟩
  rw [← Json.scalarKey?_eq_text_iff] at hs ht
  exact ⟨s, t, Json.scalarKey?_eq_text_iff.1 (hheadword.trans hs),
    Json.scalarKey?_eq_text_iff.1 (hreading.trans ht)⟩

theorem canOpen_of_resultOf (he : HasScalarTerm e) (h : resultOf names e = .ok g) : CanOpen g := by
  obtain ⟨content, -, hg⟩ := exists_holds_of_resultOf h
  refine ⟨hg.hasScalarForm he, ?_⟩
  obtain ⟨o, ho, -⟩ := bind_eq_ok_iff.1 h
  obtain ⟨furigana, hfurigana, -⟩ := bind_eq_ok_iff.1 ho
  rw [hg.headword_eq, hg.reading_eq]
  exact ⟨furigana, hfurigana⟩

theorem exists_resultOf_untagged
    (hfurigana : ∃ furigana, furiganaOf (orEmpty e.term) (orEmpty e.reading) = .ok furigana)
    (hcontent : contentOf ((names.get? e.source).getD unknown) e = .ok content) :
    ∃ g, resultOf names (untagged e) = .ok g := by
  obtain ⟨furigana, hfurigana⟩ := hfurigana
  have hopen : openGroup (untagged e) = .ok
      ⟨orEmpty e.term, orEmpty e.reading, furigana, [], [], [], e.matchLength⟩ := by
    refine bind_eq_ok_iff.2 ⟨furigana, hfurigana, ?_⟩
    split <;> rfl
  exact ⟨_, bind_eq_ok_iff.2 ⟨_, hopen, addEntry_eq_ok_iff.2 ⟨content, hcontent, rfl⟩⟩⟩

/-- Term tags do not show in the form of a result and in what it holds. -/
theorem exists_holds_of_resultOf_untagged (h : resultOf names (untagged e) = .ok g) :
    ∃ content, contentOf ((names.get? e.source).getD unknown) e = .ok content ∧
      Holds e content g := by
  obtain ⟨content, hcontent, hg⟩ := exists_holds_of_resultOf h
  exact ⟨content, hcontent, hg.headword_eq, hg.reading_eq, hg.frequencies_eq, hg.definitions_eq⟩

theorem exists_of_updateFirst {f : Group → Except GroupError Group} {groups groups' : List Group}
    (h : updateFirst e f groups = .ok groups') (hany : groups.any (belongs e) = true) :
    ∃ g ∈ groups, ∃ g', f g = .ok g' := by
  induction groups generalizing groups' with
  | nil => cases hany
  | cons g rest ih =>
    rw [updateFirst] at h
    by_cases hbelongs : belongs e g = true
    · rw [if_pos hbelongs] at h
      obtain ⟨g', hg', -⟩ := bind_eq_ok_iff.1 h
      exact ⟨g, List.mem_cons_self .., g', hg'⟩
    · rw [if_neg hbelongs] at h
      rw [List.any_cons, Bool.eq_false_iff.2 hbelongs, Bool.false_or] at hany
      obtain ⟨rest', hrest, -⟩ := bind_eq_ok_iff.1 h
      obtain ⟨g', hg', hf⟩ := ih hrest hany
      exact ⟨g', List.mem_cons_of_mem _ hg', hf⟩

/-- Where a step puts an entry into a merged result, the entry has a result without its term tags. -/
theorem exists_resultOf_of_step (hflat : ∀ h ∈ flat, CanOpen h) (hterm : hasTerm e = true)
    (he : HasScalarTerm e) (hmet : flat.any (belongs e) = true) {groups : List Group}
    (hstep : step names true (merge flat) e = .ok groups) :
    ∃ g, resultOf names (untagged e) = .ok g := by
  have hany : (merge flat).any (belongs e) = true :=
    (any_belongs_merge (fun h hh => (hflat h hh).hasScalarForm) he).trans hmet
  rw [step_true_eq names _ hterm he, if_pos hany] at hstep
  obtain ⟨_, -, _, hadd⟩ := exists_of_updateFirst hstep hany
  obtain ⟨content, hcontent, -⟩ := addEntry_eq_ok_iff.1 hadd
  obtain ⟨h, hh, hbelongs⟩ := List.any_eq_true.1 hmet
  exact exists_resultOf_untagged ((hflat h hh).exists_furiganaOf he hbelongs) hcontent

/-- What a step of grouped mode does to merged results. The term tags of an entry are looked at only
when its form is new. -/
theorem step_merge_eq_ok_iff (hflat : ∀ h ∈ flat, CanOpen h) (hterm : hasTerm e = true)
    {groups : List Group} : step names true (merge flat) e = .ok groups ↔ HasScalarTerm e ∧
      ∃ g, resultOf names (if flat.any (belongs e) then untagged e else e) = .ok g ∧
        groups = merge (flat ++ [g]) := by
  have hforms : ∀ h ∈ flat, HasScalarForm h := fun h hh => (hflat h hh).hasScalarForm
  by_cases hmet : flat.any (belongs e) = true
  · have hmerge (he : HasScalarTerm e) {g : Group} (hg : resultOf names (untagged e) = .ok g) :
        step names true (merge flat) e = .ok (merge (flat ++ [g])) := by
      obtain ⟨content, hcontent, hholds⟩ := exists_holds_of_resultOf_untagged hg
      exact step_merge_of_any hforms hterm he hcontent hholds hmet
    rw [if_pos hmet]
    constructor
    · intro hstep
      have he := hasScalarTerm_of_step hterm hstep
      obtain ⟨g, hg⟩ := exists_resultOf_of_step hflat hterm he hmet hstep
      exact ⟨he, g, hg, Except.ok.inj (hstep.symm.trans (hmerge he hg))⟩
    · rintro ⟨he, g, hg, rfl⟩
      exact hmerge he hg
  · rw [if_neg hmet]
    constructor
    · intro hstep
      have he := hasScalarTerm_of_step hterm hstep
      rw [step_true_eq names _ hterm he, any_belongs_merge hforms he, if_neg hmet] at hstep
      cases hg : resultOf names e with
      | error fault =>
        rw [hg] at hstep
        cases hstep
      | ok g =>
        rw [hg] at hstep
        cases hstep
        obtain ⟨content, -, hholds⟩ := exists_holds_of_resultOf hg
        exact ⟨he, g, rfl, (merge_concat_of_not_any hforms he hholds hmet).symm⟩
    · rintro ⟨he, g, hg, rfl⟩
      exact step_merge_of_resultOf hforms hterm he hg

/-- The result of an entry, with or without its term tags, is of the entry's form. -/
theorem canOpen_of_resultOf_ite (he : HasScalarTerm e) {met : Bool}
    (h : resultOf names (if met then untagged e else e) = .ok g) :
    CanOpen g ∧ g.headword = orEmpty e.term ∧ g.reading = orEmpty e.reading := by
  split at h
  · obtain ⟨content, -, hg⟩ := exists_holds_of_resultOf_untagged h
    exact ⟨canOpen_of_resultOf (e := untagged e) he h, hg.headword_eq, hg.reading_eq⟩
  · obtain ⟨content, -, hg⟩ := exists_holds_of_resultOf h
    exact ⟨canOpen_of_resultOf he h, hg.headword_eq, hg.reading_eq⟩

end Repeats

section Runs

variable {names : NameTable} {es met entries : List Entry} {flat gs grouped : List Group}

theorem foldlM_step_filter (names : NameTable) (mode : Bool) (entries : List Entry)
    (groups : List Group) : entries.foldlM (step names mode) groups =
      (entries.filter hasTerm).foldlM (step names mode) groups := by
  induction entries generalizing groups with
  | nil => rfl
  | cons e rest ih =>
    by_cases hterm : hasTerm e = true
    · rw [List.filter_cons_of_pos hterm, List.foldlM_cons, List.foldlM_cons]
      exact bind_congr fun groups' => ih groups'
    · rw [List.filter_cons_of_neg hterm, List.foldlM_cons, step_of_not_hasTerm names mode groups hterm]
      exact ih groups

/-- Flat mode takes the entries one by one. -/
theorem foldlM_step_false (hes : ∀ e ∈ es, hasTerm e = true) (groups : List Group) :
    es.foldlM (step names false) groups = (es.mapM (resultOf names)).map (groups ++ ·) := by
  induction es generalizing groups with
  | nil => simp [Except.map, pure, Except.pure]
  | cons e rest ih =>
    obtain ⟨hterm, hes⟩ := List.forall_mem_cons.1 hes
    rw [List.foldlM_cons, List.mapM_cons, step_false_eq names groups hterm]
    cases resultOf names e with
    | error fault => rfl
    | ok g =>
      have hrest := ih hes (groups ++ [g])
      cases hgs : rest.mapM (resultOf names) with
      | error fault =>
        rw [hgs] at hrest
        exact hrest
      | ok gs =>
        rw [hgs] at hrest
        exact hrest.trans (by simp [Except.map, bind, Except.bind, pure, Except.pure])

theorem foldlM_step_merge_of_mapM (hes : ∀ e ∈ es, hasTerm e = true)
    (hscalar : ∀ e ∈ es, HasScalarTerm e) (hflat : ∀ h ∈ flat, HasScalarForm h)
    (h : es.mapM (resultOf names) = .ok gs) :
    es.foldlM (step names true) (merge flat) = .ok (merge (flat ++ gs)) := by
  induction es generalizing flat gs with
  | nil =>
    rw [List.mapM_nil] at h
    cases h
    rw [List.append_nil]
    rfl
  | cons e rest ih =>
    obtain ⟨hterm, hes⟩ := List.forall_mem_cons.1 hes
    obtain ⟨he, hscalar⟩ := List.forall_mem_cons.1 hscalar
    rw [List.mapM_cons] at h
    obtain ⟨g, hg, h⟩ := bind_eq_ok_iff.1 h
    obtain ⟨gs', hgs, h⟩ := bind_eq_ok_iff.1 h
    cases h
    obtain ⟨content, -, hholds⟩ := exists_holds_of_resultOf hg
    have hflat' : ∀ h ∈ flat ++ [g], HasScalarForm h :=
      List.forall_mem_append.2 ⟨hflat, List.forall_mem_singleton.2 (hholds.hasScalarForm he)⟩
    rw [List.foldlM_cons, step_merge_of_resultOf hflat hterm he hg]
    exact (ih hes hscalar hflat' hgs).trans (by rw [← List.append_cons])

/-- Grouped mode merges the results of the entries, whose term tags count only where a form is new. -/
theorem foldlM_step_merge_eq_ok_iff (hes : ∀ e ∈ es, hasTerm e = true)
    (hflat : ∀ h ∈ flat, CanOpen h)
    (hmet : flat.map (fun g => (g.headword, g.reading)) =
      met.map fun m => (orEmpty m.term, orEmpty m.reading)) :
    es.foldlM (step names true) (merge flat) = .ok grouped ↔ (∀ e ∈ es, HasScalarTerm e) ∧
      ∃ gs, (untagRepeats met es).mapM (resultOf names) = .ok gs ∧ grouped = merge (flat ++ gs) := by
  induction es generalizing flat met grouped with
  | nil =>
    constructor
    · intro h
      cases h
      exact ⟨List.forall_mem_nil _, [], rfl, by rw [List.append_nil]⟩
    · rintro ⟨-, gs, hgs, rfl⟩
      rw [untagRepeats, List.mapM_nil] at hgs
      cases hgs
      rw [List.append_nil]
      rfl
  | cons e rest ih =>
    obtain ⟨hterm, hes⟩ := List.forall_mem_cons.1 hes
    have hany : met.any (sharesForm e) = flat.any (belongs e) := by
      let shares (form : Json × Json) : Bool :=
        (orEmpty e.term).same form.1 && (orEmpty e.reading).same form.2
      calc met.any (sharesForm e)
          = (met.map fun m => (orEmpty m.term, orEmpty m.reading)).any shares := by
            rw [List.any_map]
            rfl
        _ = (flat.map fun g => (g.headword, g.reading)).any shares := by rw [hmet]
        _ = flat.any (belongs e) := by
            rw [List.any_map]
            rfl
    have hnext {g : Group} (he : HasScalarTerm e)
        (hg : resultOf names (if flat.any (belongs e) then untagged e else e) = .ok g) :
        (∀ h ∈ flat ++ [g], CanOpen h) ∧
          (flat ++ [g]).map (fun g => (g.headword, g.reading)) =
            (met ++ [e]).map fun m => (orEmpty m.term, orEmpty m.reading) := by
      obtain ⟨hopen, hheadword, hreading⟩ := canOpen_of_resultOf_ite he hg
      refine ⟨List.forall_mem_append.2 ⟨hflat, List.forall_mem_singleton.2 hopen⟩, ?_⟩
      rw [List.map_append, List.map_append, hmet, List.map_singleton, List.map_singleton, hheadword,
        hreading]
    rw [List.foldlM_cons, bind_eq_ok_iff, untagRepeats, List.mapM_cons, hany, List.forall_mem_cons]
    constructor
    · rintro ⟨groups, hstep, h⟩
      obtain ⟨he, g, hg, rfl⟩ := (step_merge_eq_ok_iff hflat hterm).1 hstep
      obtain ⟨hflat', hmet'⟩ := hnext he hg
      obtain ⟨hscalar, gs, hgs, rfl⟩ := (ih hes hflat' hmet').1 h
      refine ⟨⟨he, hscalar⟩, g :: gs, ?_, by rw [← List.append_cons]⟩
      exact bind_eq_ok_iff.2 ⟨g, hg, bind_eq_ok_iff.2 ⟨gs, hgs, rfl⟩⟩
    · rintro ⟨⟨he, hscalar⟩, _, hall, rfl⟩
      obtain ⟨g, hg, hrest⟩ := bind_eq_ok_iff.1 hall
      obtain ⟨gs, hgs, heq⟩ := bind_eq_ok_iff.1 hrest
      cases heq
      obtain ⟨hflat', hmet'⟩ := hnext he hg
      refine ⟨merge (flat ++ [g]), (step_merge_eq_ok_iff hflat hterm).2 ⟨he, g, hg, rfl⟩, ?_⟩
      exact ((ih hes hflat' hmet').2 ⟨hscalar, gs, hgs, rfl⟩).trans (by rw [← List.append_cons])

end Runs

/-- Flat mode has one result for each entry with a headword, which holds one frequency or definition.
Grouped mode merges these, provided that headwords and readings can be looked up; it even does so where
flat mode fails over the term tags of an entry whose form was met before, as it does not look at them.
Definitions count as one when their contents are equal but for the order of members. -/
theorem grouped_results_eq_merge (names : NameTable) (entries : List Entry) :
    groupEntries names false entries = (entries.filter hasTerm).mapM (resultOf names) ∧
    (∀ e g, resultOf names e = .ok g → ∃ content,
      contentOf ((names.get? e.source).getD unknown) e = .ok content ∧ Holds e content g) ∧
    (∀ flat, groupEntries names false entries = .ok flat →
      (∀ e ∈ entries, hasTerm e = true → HasScalarTerm e) →
      groupEntries names true entries = .ok (merge flat)) ∧
    (∀ grouped, groupEntries names true entries = .ok grouped ↔
      (∀ e ∈ entries, hasTerm e = true → HasScalarTerm e) ∧
        ∃ flat, (untagRepeats [] (entries.filter hasTerm)).mapM (resultOf names) = .ok flat ∧
          grouped = merge flat) ∧
    ∀ a b : Definition, a.content.HasDistinctNames → b.content.HasDistinctNames →
      (sameDefinition a b = true ↔
        a.dictionary = b.dictionary ∧ a.content.sortKeys = b.content.sortKeys) := by
  have hterms : ∀ e ∈ entries.filter hasTerm, hasTerm e = true := fun e he => (List.mem_filter.1 he).2
  have hscalar : (∀ e ∈ entries.filter hasTerm, HasScalarTerm e) ↔
      ∀ e ∈ entries, hasTerm e = true → HasScalarTerm e := by
    simp only [List.mem_filter, and_imp]
  have hflat : groupEntries names false entries = (entries.filter hasTerm).mapM (resultOf names) := by
    rw [groupEntries, foldlM_step_filter, foldlM_step_false hterms]
    cases (entries.filter hasTerm).mapM (resultOf names) <;> rfl
  refine ⟨hflat, fun e g => exists_holds_of_resultOf, ?_, ?_, ?_⟩
  · intro flat h hentries
    rw [hflat] at h
    rw [groupEntries, foldlM_step_filter]
    exact foldlM_step_merge_of_mapM hterms (hscalar.2 hentries) (List.forall_mem_nil _) h
  · intro grouped
    rw [groupEntries, foldlM_step_filter, ← hscalar]
    exact foldlM_step_merge_eq_ok_iff hterms (List.forall_mem_nil _) rfl
  · intro a b ha hb
    rw [sameDefinition_iff, Json.canonicalText_eq_iff ha hb]

/-- A content, and the same with its members in another order. -/
def content : Json := .object [("a", .int 1), ([], .null)]

def contentTurned : Json := .object [([], .null), ("a", .int 1)]

/-- A frequency of a word, a record without a headword, a definition of the word, the word without its
reading, and the definition again, with tags that are no list. -/
def wordEntries : List Entry :=
  let word (reading termTags : Json) (record : Fields) : Entry :=
    ⟨.text "食べる", reading, 1, 9, 3, 0, record, termTags, "食べる".toList⟩
  [word (.text "たべる") .null [("type", .text "frequency"), ("value", .int 3)],
    ⟨.null, .null, 1, 9, 3, 0, [], .null, []⟩,
    word (.text "たべる") (.text "v") [("content", content)],
    word .null .null [("content", .text "to eat")],
    word (.text "たべる") (.int 5) [("content", contentTurned)]]

theorem grouped_results_eq_merge_wordEntries :
    (∃ flat, groupEntries [] false (wordEntries.take 4) = .ok flat ∧ flat.length = 3 ∧
      groupEntries [] true (wordEntries.take 4) = .ok (merge flat)) ∧
    (∃ flat, groupEntries [] true wordEntries = .ok (merge flat) ∧ flat.length = 4 ∧
      (merge flat).map (·.frequencies.length) = [1, 0]) ∧
    sameDefinition ⟨unknown, [], content⟩ ⟨unknown, [], contentTurned⟩ = true := by
  have hscalar : ∀ e ∈ wordEntries, hasTerm e = true → HasScalarTerm e := by
    simp [wordEntries, hasTerm, HasScalarTerm, orEmpty, Json.isTruthy, Json.isScalar, Json.text]
  obtain ⟨hflat, -, hmerge, -⟩ := grouped_results_eq_merge [] (wordEntries.take 4)
  obtain ⟨-, -, -, hgrouped, hsame⟩ := grouped_results_eq_merge [] wordEntries
  have hfront : ∃ flat, groupEntries [] false (wordEntries.take 4) = .ok flat ∧ flat.length = 3 :=
    ⟨_, hflat.trans rfl, rfl⟩
  have hall : ∃ flat, (untagRepeats [] (wordEntries.filter hasTerm)).mapM (resultOf []) = .ok flat ∧
      flat.length = 4 ∧ (merge flat).map (·.frequencies.length) = [1, 0] :=
    ⟨_, rfl, rfl, by decide⟩
  obtain ⟨flat, hresults, hlength⟩ := hfront
  obtain ⟨flat', hresults', hlengths⟩ := hall
  refine ⟨⟨flat, hresults, hlength, hmerge flat hresults fun e he => ?_⟩,
    ⟨flat', (hgrouped _).2 ⟨hscalar, flat', hresults', rfl⟩, hlengths⟩, ?_⟩
  · exact hscalar e (List.mem_of_mem_take he)
  · have hsorted : content.sortKeys = contentTurned.sortKeys := by
      simp [content, contentTurned, Json.sortKeys, Json.sortKeysFields, List.mergeSort,
        List.cons_merge_cons, TextOf.le]
    exact (hsame _ _ (by decide) (by decide)).2 ⟨rfl, hsorted⟩

end Grouping
end Lexicon
