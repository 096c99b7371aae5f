import Lexicon.Proofs.Dictionary.Usable
import Lexicon.Proofs.Json.Alike
import Mathlib.Data.Set.Function

/-! The definitions that grouped results show: those of the entries of a form in their order, without the
ones that repeat an earlier one of the form. Repeats are told by the names that dictionaries are shown
under, so definitions of two dictionaries are kept apart exactly when their names differ. Contents repeat
each other when they are equal but for the order of members. -/
namespace Lexicon

namespace Grouping

/-- The name that a dictionary is shown under. -/
def nameOf (names : NameTable) (id : ℤ) : Text := (names.get? id).getD unknown

/-- An entry gives a definition when it has a headword and states no frequency. -/
def Defines (e : Entry) : Prop := hasTerm e = true ∧ frequencyValue? e.record = none

/-- What a definition shows of a record: the content of a glossary, or the whole record. -/
def shownContent (record : Fields) : Json :=
  if StoredRecord.isGlossary record then (record.get? "content").getD (.array [])
  else .object record

/-- Whether two entries show the same as definitions, the order of members aside. -/
def SameContent (m e : Entry) : Prop :=
  (shownContent m.record).canonicalText = (shownContent e.record).canonicalText

/-- The definition that an entry shows, if it is none of a frequency and can be shown. -/
def definition? (names : NameTable) (e : Entry) : Option Definition :=
  match contentOf (nameOf names e.source) e with
  | .ok (.inr d) => some d
  | _ => none

/-- A result of its own that an entry may have, with or without its term tags. -/
structure Shows (names : NameTable) (e : Entry) (g : Group) : Prop where
  canOpen : CanOpen g
  holds : ∃ content, contentOf (nameOf names e.source) e = .ok content ∧ Holds e content g
  matchLength_eq : g.matchLength = e.matchLength

section Single

variable {names : NameTable} {e m : Entry} {g first : Group} {d : Definition}

theorem shows_of_resultOf (he : HasScalarTerm e) {met : Bool}
    (h : resultOf names (if met then untagged e else e) = .ok g) : Shows names e g := by
  have hopen := (canOpen_of_resultOf_ite he h).1
  split at h
  · exact ⟨hopen, exists_holds_of_resultOf_untagged h, matchLength_of_resultOf (e := untagged e) h⟩
  · exact ⟨hopen, exists_holds_of_resultOf h, matchLength_of_resultOf h⟩

/-- A definition shows the content of its record under the name of its dictionary. -/
theorem eq_of_definition? (h : definition? names e = some d) : frequencyValue? e.record = none ∧
    d.dictionary = nameOf names e.source ∧ d.content = shownContent e.record := by
  unfold definition? contentOf at h
  cases hvalue : frequencyValue? e.record with
  | some value =>
    rw [hvalue] at h
    cases h
  | none =>
    cases hd : definitionOf (nameOf names e.source) e.record with
    | error fault =>
      rw [hvalue, hd] at h
      cases h
    | ok d' =>
      rw [hvalue, hd] at h
      cases h
      unfold definitionOf at hd
      unfold shownContent
      cases hglossary : StoredRecord.isGlossary e.record with
      | false =>
        rw [hglossary] at hd
        cases hd
        exact ⟨rfl, rfl, rfl⟩
      | true =>
        rw [hglossary] at hd
        obtain ⟨tags, -, hd⟩ := bind_eq_ok_iff.1 hd
        cases hd
        exact ⟨rfl, rfl, rfl⟩

/-- Where an entry has a result, it has a definition unless it states a frequency. -/
theorem Shows.exists_definition? (h : Shows names e g) (hvalue : frequencyValue? e.record = none) :
    ∃ d, definition? names e = some d := by
  obtain ⟨content, hcontent, -⟩ := h.holds
  unfold definition?
  unfold contentOf at hcontent
  rw [hvalue] at hcontent
  obtain ⟨d, hd, rfl⟩ := map_eq_ok_iff.1 hcontent
  refine ⟨d, ?_⟩
  unfold contentOf
  rw [hvalue, hd]
  rfl

theorem Shows.definitions_eq (h : Shows names e g) :
    g.definitions = (definition? names e).toList := by
  obtain ⟨content, hcontent, hholds⟩ := h.holds
  rw [hholds.definitions_eq, definition?, hcontent]
  cases content <;> rfl

/-- Entries that belong to one result share their form. -/
theorem belongs_iff_sharesForm (he : HasScalarTerm e) (hm : HasScalarTerm m)
    (hfirst : HasScalarForm first) (hbelongs : belongs e first = true) :
    belongs m first = true ↔ sharesForm e m = true := by
  have hkeys : sharesForm e m = true ↔ entryKey e = entryKey m := by
    rw [sharesForm, Bool.and_eq_true, Json.same_iff_of_isScalar he.1 hm.1,
      Json.same_iff_of_isScalar he.2 hm.2, entryKey, entryKey, Prod.mk.injEq]
  rw [hkeys, belongs_iff hm hfirst, (belongs_iff he hfirst).1 hbelongs, eq_comm]

end Single

section Runs

variable {names : NameTable} {entries es met earlier : List Entry} {e : Entry} {g first : Group}
  {flat groups before after : List Group} {d : Definition}

theorem forall₂_shows (hes : ∀ e ∈ es, HasScalarTerm e)
    (h : (untagRepeats met es).mapM (resultOf names) = .ok flat) :
    List.Forall₂ (Shows names) es flat := by
  induction es generalizing met flat with
  | nil =>
    cases h
    exact .nil
  | cons e rest ih =>
    obtain ⟨he, hes⟩ := List.forall_mem_cons.1 hes
    rw [untagRepeats, List.mapM_cons] at h
    obtain ⟨g, hg, h⟩ := bind_eq_ok_iff.1 h
    obtain ⟨gs, hgs, h⟩ := bind_eq_ok_iff.1 h
    cases h
    exact .cons (shows_of_resultOf he hg) (ih hes hgs)

/-- Grouped results are merged from results of the entries with a headword. -/
theorem exists_merge_of_groupEntries (h : groupEntries names true entries = .ok groups) :
    ∃ flat, (∀ e ∈ entries.filter hasTerm, HasScalarTerm e) ∧
      List.Forall₂ (Shows names) (entries.filter hasTerm) flat ∧ groups = merge flat := by
  rw [groupEntries, foldlM_step_filter] at h
  have hterms : ∀ e ∈ entries.filter hasTerm, hasTerm e = true := fun e he => (List.mem_filter.1 he).2
  have hmet : ([] : List Group).map (fun g => (g.headword, g.reading)) =
      ([] : List Entry).map fun m => (orEmpty m.term, orEmpty m.reading) := rfl
  obtain ⟨hscalar, flat, hflat, rfl⟩ :=
    (foldlM_step_merge_eq_ok_iff hterms (List.forall_mem_nil _) hmet).1 h
  exact ⟨flat, hscalar, forall₂_shows hscalar hflat, rfl⟩

/-- The definitions in the results of a form are those of the entries of the form. -/
theorem flatMap_definitions_eq (hfirst : HasScalarForm first) (hes : ∀ e ∈ es, HasScalarTerm e)
    (h : List.Forall₂ (Shows names) es flat) :
    (flat.filter (sameForm first)).flatMap (·.definitions) =
      (es.filter (belongs · first)).filterMap (definition? names) := by
  induction h with
  | nil => rfl
  | @cons e g es flat hg _ ih =>
    obtain ⟨he, hes⟩ := List.forall_mem_cons.1 hes
    obtain ⟨content, -, hholds⟩ := hg.holds
    have hform := hholds.sameForm_iff he hfirst
    by_cases hbelongs : belongs e first = true
    · rw [List.filter_cons_of_pos (hform.2 hbelongs),
        List.filter_cons_of_pos (p := (belongs · first)) hbelongs, List.flatMap_cons,
        List.filterMap_cons, ih hes, hg.definitions_eq]
      cases definition? names e <;> rfl
    · rw [List.filter_cons_of_neg (mt hform.1 hbelongs),
        List.filter_cons_of_neg (p := (belongs · first)) hbelongs, ih hes]

theorem hasScalarForm_of_forall₂ (h : List.Forall₂ (Shows names) es flat) :
    ∀ g ∈ flat, HasScalarForm g := by
  intro g hg
  obtain ⟨e, -, hshows⟩ := exists_mem_of_forall₂ h hg
  exact hshows.canOpen.hasScalarForm

/-- A result shows the definitions of the entries of its form, without those that repeat an earlier
one. -/
theorem definitions_of_mem_groupEntries (h : groupEntries names true entries = .ok groups)
    (hg : g ∈ groups) : g.definitions = distinctBy sameDefinition
      ((entries.filter fun e => belongs e g && hasTerm e).filterMap (definition? names)) := by
  obtain ⟨flat, hscalar, hflat, rfl⟩ := exists_merge_of_groupEntries h
  obtain ⟨first, hfirst, rfl⟩ := List.mem_map.1 hg
  have hform := hasScalarForm_of_forall₂ hflat first (mem_of_mem_distinctBy hfirst)
  have hdefinitions := flatMap_definitions_eq hform hscalar hflat
  rw [List.filter_filter] at hdefinitions
  exact congrArg (distinctBy sameDefinition) hdefinitions

/-- The merged result of a form has a definition already when an entry of the form gave it. -/
theorem any_sameDefinition_mergeInto_iff (hfirst : HasScalarForm first)
    (hes : ∀ e ∈ es, HasScalarTerm e) (h : List.Forall₂ (Shows names) es flat)
    (he : HasScalarTerm e) (hbelongs : belongs e first = true) :
    (mergeInto flat first).definitions.any (sameDefinition d) = true ↔
      ∃ m ∈ es, sharesForm e m = true ∧
        ∃ d', definition? names m = some d' ∧ sameDefinition d' d = true := by
  have hdefinitions : (mergeInto flat first).definitions = distinctBy sameDefinition
      ((flat.filter (sameForm first)).flatMap (·.definitions)) := rfl
  rw [hdefinitions, any_sameDefinition_distinctBy, flatMap_definitions_eq hfirst hes h,
    List.any_eq_true]
  simp only [List.mem_filterMap, List.mem_filter]
  constructor
  · rintro ⟨d', ⟨m, ⟨hm, hm'⟩, hd'⟩, hsame⟩
    exact ⟨m, hm, (belongs_iff_sharesForm he (hes m hm) hfirst hbelongs).1 hm', d', hd', hsame⟩
  · rintro ⟨m, hm, hshares, d', hd', hsame⟩
    exact ⟨d', ⟨m, ⟨hm, (belongs_iff_sharesForm he (hes m hm) hfirst hbelongs).2 hshares⟩, hd'⟩,
      hsame⟩

/-- What repeats a definition: one of an entry of the same form, with the same content and under the same
name. -/
theorem exists_definition?_iff
    (hflat : List.Forall₂ (Shows names) (earlier.filter hasTerm) flat)
    (hd : definition? names e = some d) :
    (∃ m ∈ earlier.filter hasTerm, sharesForm e m = true ∧
        ∃ d', definition? names m = some d' ∧ sameDefinition d' d = true) ↔
      ∃ m ∈ earlier, Defines m ∧ sharesForm e m = true ∧
        nameOf names m.source = nameOf names e.source ∧ SameContent m e := by
  obtain ⟨-, hname, hcontent⟩ := eq_of_definition? hd
  constructor
  · rintro ⟨m, hm, hshares, d', hd', hsame⟩
    obtain ⟨hvalue, hname', hcontent'⟩ := eq_of_definition? hd'
    obtain ⟨hmem, hterm⟩ := List.mem_filter.1 hm
    rw [sameDefinition_iff, hname, hname', hcontent, hcontent'] at hsame
    exact ⟨m, hmem, ⟨hterm, hvalue⟩, hshares, hsame⟩
  · rintro ⟨m, hmem, ⟨hterm, hvalue⟩, hshares, hsame⟩
    have hm := List.mem_filter.2 ⟨hmem, hterm⟩
    obtain ⟨g, -, hshows⟩ := exists_mem_of_forall₂ (List.Forall₂.flip hflat) hm
    obtain ⟨d', hd'⟩ := hshows.exists_definition? hvalue
    obtain ⟨-, hname', hcontent'⟩ := eq_of_definition? hd'
    refine ⟨m, hm, hshares, d', hd', ?_⟩
    rw [sameDefinition_iff, hname, hname', hcontent, hcontent']
    exact hsame

/-- A definition changes a result unless the result has it. -/
theorem put_definition_eq_self_iff :
    put g (.inr d) = g ↔ g.definitions.any (sameDefinition d) = true := by
  simp only [put]
  split
  · next hany => exact iff_of_true rfl hany
  · next hany =>
    refine iff_of_false (fun h => ?_) hany
    have hlength := congrArg (List.length ·.definitions) h
    simp at hlength

theorem groupEntries_concat (h : groupEntries names true earlier = .ok before) :
    groupEntries names true (earlier ++ [e]) = step names true before e := by
  unfold groupEntries at h ⊢
  rw [List.foldlM_append, h]
  exact bind_pure (step names true before e)

/-- The definition of a form that was met is left out when the merged result of the form has it. -/
theorem merge_concat_eq_iff (hes : ∀ e ∈ es, HasScalarTerm e)
    (hflat : List.Forall₂ (Shows names) es flat) (he : HasScalarTerm e) (hg : Holds e (.inr d) g)
    (hmet : flat.any (belongs e) = true) : merge (flat ++ [g]) = merge flat ↔
      ∃ m ∈ es, sharesForm e m = true ∧
        ∃ d', definition? names m = some d' ∧ sameDefinition d' d = true := by
  have hforms := hasScalarForm_of_forall₂ hflat
  have hfirsts : ∀ first ∈ distinctBy sameForm flat, HasScalarForm first := fun first hfirst =>
    hforms first (mem_of_mem_distinctBy hfirst)
  have hchange : ∀ first ∈ distinctBy sameForm flat, belongs e first = true →
      (mergeInto (flat ++ [g]) first = mergeInto flat first ↔ ∃ m ∈ es, sharesForm e m = true ∧
        ∃ d', definition? names m = some d' ∧ sameDefinition d' d = true) := by
    intro first hfirst hbelongs
    rw [mergeInto_concat_of_sameForm hg ((hg.sameForm_iff he (hfirsts first hfirst)).2 hbelongs),
      put_definition_eq_self_iff,
      any_sameDefinition_mergeInto_iff (hfirsts first hfirst) hes hflat he hbelongs]
  rw [merge, distinctBy_concat, hg.any_sameForm he hforms, if_pos hmet, merge, List.map_inj_left]
  constructor
  · intro h
    have hany : (merge flat).any (belongs e) = true := (any_belongs_merge hforms he).trans hmet
    obtain ⟨_, hmem, hbelongs⟩ := List.any_eq_true.1 hany
    obtain ⟨first, hfirst, rfl⟩ := List.mem_map.1 hmem
    exact (hchange first hfirst hbelongs).1 (h first hfirst)
  · intro h first hfirst
    by_cases hbelongs : belongs e first = true
    · exact (hchange first hfirst hbelongs).2 h
    · exact mergeInto_concat_of_ne (mt (hg.sameForm_iff he (hfirsts first hfirst)).1 hbelongs)

/-- The definition of an entry is left out exactly when an earlier entry of its form showed the same content
under the same name. -/
theorem eq_before_iff (hbefore : groupEntries names true earlier = .ok before)
    (hafter : groupEntries names true (earlier ++ [e]) = .ok after) (hdefines : Defines e) :
    after = before ↔ ∃ m ∈ earlier, Defines m ∧ sharesForm e m = true ∧
      nameOf names m.source = nameOf names e.source ∧ SameContent m e := by
  obtain ⟨flat, hscalar, hflat, rfl⟩ := exists_merge_of_groupEntries hbefore
  have hopen : ∀ g ∈ flat, CanOpen g := fun g hg => by
    obtain ⟨m, -, hshows⟩ := exists_mem_of_forall₂ hflat hg
    exact hshows.canOpen
  rw [groupEntries_concat hbefore] at hafter
  obtain ⟨he, g, hg, rfl⟩ := (step_merge_eq_ok_iff hopen hdefines.1).1 hafter
  have hshows := shows_of_resultOf he hg
  obtain ⟨d, hd⟩ := hshows.exists_definition? hdefines.2
  obtain ⟨content, hcontent, hholds⟩ := hshows.holds
  obtain rfl : content = .inr d := by
    unfold definition? at hd
    rw [hcontent] at hd
    cases content <;> cases hd
    rfl
  rw [← exists_definition?_iff hflat hd]
  by_cases hmet : flat.any (belongs e) = true
  · exact merge_concat_eq_iff hscalar hflat he hholds hmet
  · have hnew := merge_concat_of_not_any (hasScalarForm_of_forall₂ hflat) he hholds hmet
    refine iff_of_false (fun h => ?_) ?_
    · have hlength := congrArg List.length (hnew.symm.trans h)
      simp at hlength
    · rintro ⟨m, hm, hshares, -⟩
      obtain ⟨h, hh, hshows'⟩ := exists_mem_of_forall₂ (List.Forall₂.flip hflat) hm
      obtain ⟨_, -, hholds'⟩ := hshows'.holds
      refine hmet (List.any_eq_true.2 ⟨h, hh, ?_⟩)
      rw [belongs, hholds'.headword_eq, hholds'.reading_eq]
      exact hshares

end Runs

/-- Definitions of the given dictionaries are never merged: one is left out only if an earlier entry of the
same dictionary and form showed the same content. -/
def KeepsApart (names : NameTable) (ids : Set ℤ) : Prop :=
  ∀ earlier e before after, (∀ m ∈ earlier ++ [e], m.source ∈ ids) →
    groupEntries names true earlier = .ok before →
    groupEntries names true (earlier ++ [e]) = .ok after → Defines e → after = before →
    ∃ m ∈ earlier, Defines m ∧ sharesForm e m = true ∧ m.source = e.source ∧ SameContent m e

/-- A definition of a word in the dictionary with an id. -/
def feline (id : ℤ) : Entry where
  term := .text "cat"
  reading := .null
  source := id
  wordBytes := 3
  matchLength := 3
  frequency := 0
  record := [("type", .text "glossary"), ("content", .array [.text "feline"])]
  termTags := .null
  word := "cat".toList

theorem defines_feline (id : ℤ) : Defines (feline id) := ⟨rfl, rfl⟩

theorem exists_groupEntries_feline (names : NameTable) (ids : List ℤ) :
    ∃ groups, groupEntries names true (ids.map feline) = .ok groups := by
  have husable (id : ℤ) : Usable (feline id) := ⟨.inl rfl, fun _ => rfl, fun _ _ => rfl⟩
  have hterms : ∀ e ∈ ids.map feline, hasTerm e = true :=
    List.forall_mem_map.2 fun id _ => (defines_feline id).1
  refine (exists_groupEntries_true_iff names hterms).2 ⟨?_, fun earlier e later heq _ => ?_⟩
  · exact List.forall_mem_map.2 fun id _ => ⟨⟨rfl, rfl⟩, (husable id).untagged⟩
  · have he : e ∈ ids.map feline := heq ▸ List.mem_append_right _ (List.mem_cons_self ..)
    obtain ⟨id, -, rfl⟩ := List.mem_map.1 he
    exact husable id

/-- Dictionaries are kept apart exactly when they are shown under different names. -/
theorem keepsApart_iff_injOn (names : NameTable) (ids : Set ℤ) :
    KeepsApart names ids ↔ Set.InjOn (nameOf names) ids := by
  constructor
  · intro h a ha b hb hname
    obtain ⟨before, hbefore⟩ := exists_groupEntries_feline names [a]
    obtain ⟨after, hafter⟩ := exists_groupEntries_feline names [a, b]
    have hsame : after = before := (eq_before_iff hbefore hafter (defines_feline b)).2
      ⟨feline a, List.mem_singleton_self _, defines_feline a, rfl, hname, rfl⟩
    have hids : ∀ m ∈ [feline a] ++ [feline b], m.source ∈ ids := by
      simp only [List.cons_append, List.nil_append, List.forall_mem_cons]
      exact ⟨ha, hb, List.forall_mem_nil _⟩
    obtain ⟨m, hm, -, -, hsource, -⟩ :=
      h _ _ before after hids hbefore hafter (defines_feline b) hsame
    obtain rfl := List.mem_singleton.1 hm
    exact hsource
  · intro hinj earlier e before after hids hbefore hafter hdefines hsame
    obtain ⟨m, hm, hdefines', hshares, hname, hcontent⟩ :=
      (eq_before_iff hbefore hafter hdefines).1 hsame
    have hm' : m.source ∈ ids := hids m (List.mem_append_left _ hm)
    have he : e.source ∈ ids := hids e (List.mem_append_right _ (List.mem_singleton_self e))
    exact ⟨m, hm, hdefines', hshares, hinj hm' he hname, hcontent⟩

/-- What grouped results show of definitions. A result shows those of the entries of its form, without the
ones that repeat an earlier one. One is left out, and then the results stay as they are, exactly when an
earlier entry of the form showed the same content under the same name. So definitions of different
dictionaries are never merged if and only if the dictionaries are shown under different names, which two
without a name of their own are not. Contents count as the same when they are equal but for the order of
members. -/
theorem definitions_kept_apart_iff (names : NameTable) :
    (∀ entries groups, groupEntries names true entries = .ok groups → ∀ g ∈ groups,
      g.definitions = distinctBy sameDefinition
        ((entries.filter fun e => belongs e g && hasTerm e).filterMap (definition? names))) ∧
    (∀ earlier e before after, groupEntries names true earlier = .ok before →
      groupEntries names true (earlier ++ [e]) = .ok after → Defines e →
      (after = before ↔ ∃ m ∈ earlier, Defines m ∧ sharesForm e m = true ∧
        nameOf names m.source = nameOf names e.source ∧ SameContent m e)) ∧
    (∀ ids : Set ℤ, KeepsApart names ids ↔ Set.InjOn (nameOf names) ids) ∧
    ∀ m e : Entry, (shownContent m.record).HasDistinctNames →
      (shownContent e.record).HasDistinctNames →
      (SameContent m e ↔ (shownContent m.record).sortKeys = (shownContent e.record).sortKeys) :=
  ⟨fun _ _ h _ hg => definitions_of_mem_groupEntries h hg,
    fun _ _ _ _ hbefore hafter hdefines => eq_before_iff hbefore hafter hdefines,
    keepsApart_iff_injOn names, fun _ _ hm he => Json.canonicalText_eq_iff hm he⟩

/-- A dictionary with a name and one without are kept apart: the second definition is shown too. -/
theorem definitions_kept_apart_iff_feline :
    let names : NameTable := [(1, "JMdict".toList)]
    KeepsApart names {1, 3} ∧ SameContent (feline 1) (feline 3) ∧
      ∃ before after, groupEntries names true [feline 1] = .ok before ∧
        groupEntries names true [feline 1, feline 3] = .ok after ∧ after ≠ before ∧
        ∀ g ∈ after, g.definitions = distinctBy sameDefinition
          (([feline 1, feline 3].filter fun e => belongs e g && hasTerm e).filterMap
            (definition? names)) := by
  intro names
  have hnames : nameOf names 1 ≠ nameOf names 3 := by decide
  have hinj : Set.InjOn (nameOf names) {1, 3} := by
    rintro a (rfl | rfl) b (rfl | rfl) h
    · rfl
    · exact absurd h hnames
    · exact absurd h.symm hnames
    · rfl
  obtain ⟨hshown, hleft, hapart, hcontent⟩ := definitions_kept_apart_iff names
  obtain ⟨before, hbefore⟩ := exists_groupEntries_feline names [1]
  obtain ⟨after, hafter⟩ := exists_groupEntries_feline names [1, 3]
  refine ⟨(hapart _).2 hinj, (hcontent _ _ (by decide) (by decide)).2 rfl, before, after, hbefore,
    hafter, fun hsame => ?_, hshown _ _ hafter⟩
  obtain ⟨m, hm, -, -, hname, -⟩ :=
    (hleft _ _ before after hbefore hafter (defines_feline 3)).1 hsame
  obtain rfl := List.mem_singleton.1 hm
  exact hnames hname

/-- Two dictionaries without names count as one, and the second definition is left out. -/
theorem not_keepsApart_univ_feline :
    groupEntries [] true [feline 3, feline 4] = groupEntries [] true [feline 3] ∧
      (∃ groups, groupEntries [] true [feline 3] = .ok groups ∧
        groups.map (·.definitions.length) = [1]) ∧
      ¬ KeepsApart [] Set.univ := by
  refine ⟨rfl, ⟨_, rfl, rfl⟩, fun h => ?_⟩
  obtain ⟨m, hm, -, -, hsource, -⟩ :=
    h [feline 3] (feline 4) _ _ (fun _ _ => Set.mem_univ _) rfl rfl (defines_feline 4) rfl
  obtain rfl := List.mem_singleton.1 hm
  exact absurd hsource (by decide)

/-- Definitions count as one exactly when they have the same dictionary name and contents that are equal but
for the order of members; so each definition counts as one with those of a class of its own. -/
theorem sameDefinition_iff_alike :
    (∀ a b : Definition, a.content.HasDistinctNames → b.content.HasDistinctNames →
      (sameDefinition a b = true ↔ a.dictionary = b.dictionary ∧ a.content.Alike b.content)) ∧
    Equivalence fun a b : Definition => sameDefinition a b = true := by
  refine ⟨fun a b ha hb => ?_, fun a => ?_, fun {a b} h => ?_, fun {a b c} hab hbc => ?_⟩
  · rw [sameDefinition_iff, Json.canonicalText_eq_iff ha hb, Json.sortKeys_eq_iff_alike ha hb]
  · exact sameDefinition_iff.2 ⟨rfl, rfl⟩
  · rwa [sameDefinition_comm]
  · rw [sameDefinition_iff] at hab hbc ⊢
    exact ⟨hab.1.trans hbc.1, hab.2.trans hbc.2⟩

/-- Members in another order count as one, a number and its text do not, and neither do two texts and one
that has their delimiters in it. -/
theorem sameDefinition_iff_alike_quotes :
    let defined (v : Json) : Definition := ⟨unknown, [], v⟩
    sameDefinition (defined content) (defined contentTurned) = true ∧
      ¬ sameDefinition (defined (.int 1)) (defined (.text "1")) = true ∧
      ¬ sameDefinition (defined (.array [.text "a", .text "b"]))
        (defined (.array [.text "a\", \"b"])) = true := by
  intro defined
  have hsame (v w : Json) (hv : v.HasDistinctNames) (hw : w.HasDistinctNames) :
      sameDefinition (defined v) (defined w) = true ↔ v.Alike w :=
    (sameDefinition_iff_alike.1 (defined v) (defined w) hv hw).trans (and_iff_right rfl)
  have hcontent : content.Alike contentTurned := by
    refine .object fun name => ?_
    by_cases ha : ("a" : RawText) = name
    · subst ha
      exact .some (.int 1)
    · by_cases hempty : [] = name
      · subst hempty
        exact .some .null
      · simp only [Table.get?_cons, if_neg ha, if_neg hempty]
        exact .none
  refine ⟨(hsame _ _ (by decide) (by decide)).2 hcontent, ?_, ?_⟩
  · rw [hsame _ _ (by decide) (by decide)]
    intro h
    cases h
  · rw [hsame _ _ (by decide) (by decide), Json.alike_array_iff]
    exact fun h => absurd h.length_eq (by decide)

end Grouping
end Lexicon
