import Lexicon.Proofs.Deinflection.Document
import Lexicon.Proofs.Deinflection.Termination
import Lexicon.Proofs.Json.Reader
import Lexicon.Proofs.Json.RoundTrip
import Lexicon.Proofs.Json.Same

/-! Rules read from a document, whose fields may be any values. A rule for whole words gives one value
only, and any other rule makes texts of texts, as it would if its fields were texts from the start. What
stands in the document stands in the rules, so no value in them has a name twice. Hence the guard keeps
every step from being taken twice, and a search ends where no rule lengthens a text. -/
namespace Lexicon

namespace Kind

variable {k : Kind Json} {k' : Kind RawText} {v w : Json}

theorem wordSize_of_ofValues? (hk : ∀ inflected deinflected, k ≠ .wholeWord inflected deinflected)
    (h : k.ofValues? = some k') : k'.wordSize = 0 := by
  cases k with
  | wholeWord inflected deinflected => exact absurd rfl (hk inflected deinflected)
  | suffix | opening =>
    obtain ⟨inflected, -, h⟩ := Option.bind_eq_some_iff.1 h
    obtain ⟨deinflected, -, h⟩ := Option.bind_eq_some_iff.1 h
    cases h
    rfl
  | affix change =>
    obtain ⟨change, -, rfl⟩ := Option.map_eq_some_iff.1 h
    rfl
  | phrasalSuffix =>
    obtain ⟨inflected, -, h⟩ := Option.bind_eq_some_iff.1 h
    cases h
    rfl
  | interposedObject =>
    cases h
    rfl

/-- The value that a rule gives for a whole word. -/
def givenWord? : Kind Json → Option Json
  | wholeWord _ deinflected => some deinflected
  | _ => none

/-- What a rule makes of a value: the value that is given for a whole word, or a text of a text. -/
theorem deinflectValue_eq_some (h : k.deinflectValue v = some w) :
    k.givenWord? = some w ∨
      ∃ k' s t, k.ofValues? = some k' ∧ k'.wordSize = 0 ∧ v = .str s ∧ k'.deinflect s = some t ∧
        w = .str t := by
  unfold deinflectValue at h
  split at h
  · next inflected deinflected =>
    obtain ⟨-, h⟩ := Option.ite_none_right_eq_some.1 h
    cases h
    exact .inl rfl
  · next s hk =>
    obtain ⟨t, ht, rfl⟩ := Option.map_eq_some_iff.1 h
    obtain ⟨k', hk', ht⟩ := Option.bind_eq_some_iff.1 ht
    exact .inr ⟨k', s, t, hk', wordSize_of_ofValues? hk hk', rfl, ht, rfl⟩
  · cases h

end Kind

section Forms

variable {rules : List (Rule Json)} {n : ℕ}

/-- The values that rules give for whole words. -/
def givenWords (rules : List (Rule Json)) : Set Json :=
  {w | ∃ r ∈ rules, r.kind.givenWord? = some w}

theorem finite_givenWords (rules : List (Rule Json)) : (givenWords rules).Finite := by
  refine (rules.filterMap fun r => r.kind.givenWord?).finite_toSet.subset ?_
  rintro w ⟨r, hr, hw⟩
  exact List.mem_filterMap.2 ⟨r, hr, hw⟩

/-- Texts up to a size, and the values given for whole words. -/
def formsUpTo (rules : List (Rule Json)) (n : ℕ) : Set Json :=
  Json.str '' {t | t.length ≤ n} ∪ givenWords rules

theorem finite_formsUpTo (rules : List (Rule Json)) (n : ℕ) : (formsUpTo rules n).Finite :=
  ((List.finite_length_le CodePoint n).image _).union (finite_givenWords rules)

theorem exists_length_givenWords_le (rules : List (Rule Json)) :
    ∃ n, ∀ t, Json.str t ∈ givenWords rules → t.length ≤ n := by
  have hinj : Function.Injective Json.str := fun _ _ h => Json.str.inj h
  obtain ⟨n, hn⟩ := (((finite_givenWords rules).preimage hinj.injOn).image List.length).bddAbove
  exact ⟨n, fun t ht => hn ⟨t, ht, rfl⟩⟩

/-- Rules that lengthen no text lead from a text to texts that are no longer, or to given values. -/
theorem Chain.text_mem_formsUpTo
    (hgrowth : ∀ r ∈ rules, ∀ k, r.kind.ofValues? = some k → k.growth = 0)
    (hwords : ∀ t, Json.str t ∈ givenWords rules → t.length ≤ n) {s : RawText} (hs : s.length ≤ n)
    {c : List ℕ} {d : Derivation Json} (h : Chain rules (.str s) c d) :
    d.text ∈ formsUpTo rules n := by
  induction h with
  | source => exact .inl ⟨s, hs, rfl⟩
  | @step b d e i r _ hk hstep ih =>
    have hr : r ∈ rules := List.mem_of_getElem? hk
    rcases Kind.deinflectValue_eq_some hstep.text_eq with
      hgiven | ⟨k, u, t, hvalues, hword, hd, ht, he⟩
    · exact .inr ⟨r, hr, hgiven⟩
    · have hu : u.length ≤ n := by
        rw [hd] at ih
        rcases ih with ⟨u', hu', heq⟩ | hgiven
        · exact Json.str.inj heq ▸ hu'
        · exact hwords u hgiven
      have hlength := Kind.length_deinflect_le ht
      rw [hgrowth r hr k hvalues, hword] at hlength
      exact .inl ⟨t, show t.length ≤ n by omega, he.symm⟩

end Forms

/-- The values by which a rule is told apart have no name twice. -/
structure Rule.HasDistinctNames (r : Rule Json) : Prop where
  transformId : r.transformId.HasDistinctNames
  givenWord : ∀ w ∈ r.kind.givenWord?, w.HasDistinctNames

namespace RuleSet

variable {rs : RuleSet Json}

/-- With rules that lengthen no text, a search comes to its end for every text. -/
theorem derivations_ne_unsettled (hnames : ∀ r ∈ rs.rules, r.HasDistinctNames)
    (hgrowth : ∀ r ∈ rs.rules, ∀ k, r.kind.ofValues? = some k → k.growth = 0) (s : RawText) :
    rs.derivations (.str s) ≠ .error .unsettled := by
  obtain ⟨n, hn⟩ := exists_length_givenWords_le rs.rules
  have hforms : ∀ c d, GuardedChain rs.rules (.str s) c d →
      d.text ∈ formsUpTo rs.rules (max s.length n) := fun c d h =>
    h.chain.text_mem_formsUpTo hgrowth (fun t ht => (hn t ht).trans (Nat.le_max_right ..))
      (Nat.le_max_left ..)
  have hself : ∀ f ∈ GuardedChain.framesFrom rs.rules (formsUpTo rs.rules (max s.length n)),
      f.same f = true := by
    rintro _ ⟨r, hr, v, hv, rfl⟩
    have hid : r.transformId.same r.transformId = true := Json.same_self (hnames r hr).transformId
    have htext : v.same v = true := by
      rcases hv with ⟨t, -, rfl⟩ | ⟨q, hq, hgiven⟩
      · exact Json.same_self rfl
      · exact Json.same_self ((hnames q hq).givenWord v hgiven)
    simp only [Frame.same, Rule.frame, WordForm.same, hid, htext]
    simp
  obtain ⟨m, hm⟩ := GuardedChain.exists_length_le (finite_formsUpTo _ _) hself hforms
  exact derivations_ne_unsettled_of_length_le hm

end RuleSet

namespace Document

section Parts

variable {fields : Fields} {v w : Json}

theorem hasDistinctNames_of_get? {key : RawText} (h : (Json.object fields).HasDistinctNames)
    (hv : fields.get? key = some v) : v.HasDistinctNames :=
  (Json.everywhere_object_iff.1 h).2 _ (Table.mem_of_get?_eq_some hv)

theorem hasDistinctNames_of_items? {items : List Json} (h : v.HasDistinctNames)
    (hitems : v.items? = some items) : ∀ w ∈ items, w.HasDistinctNames := by
  cases v with
  | array =>
    cases hitems
    exact (Json.everywhere_array_iff.1 h).2
  | str | object =>
    cases hitems
    exact List.forall_mem_map.2 fun _ _ => rfl
  | _ => cases hitems

theorem hasDistinctNames_of_itemsOf {key : String} {items : List Json}
    (h : (Json.object fields).HasDistinctNames) (hitems : itemsOf fields key = .ok items) :
    ∀ w ∈ items, w.HasDistinctNames := by
  unfold itemsOf at hitems
  split at hitems
  · cases hitems
    exact List.forall_mem_nil _
  · next v hv =>
    split at hitems
    · next found hfound =>
      cases hitems
      exact hasDistinctNames_of_items? (hasDistinctNames_of_get? h hv) hfound
    · cases hitems

theorem hasDistinctNames_optionalText (h : (Json.object fields).HasDistinctNames) (key : String) :
    (optionalText fields key).HasDistinctNames := by
  unfold optionalText
  split
  · next v hv =>
    split
    · exact hasDistinctNames_of_get? h hv
    · rfl
  · rfl

/-- The value that a rule gives for a whole word stands in the rule's object. -/
theorem hasDistinctNames_of_readKind? {kind : Kind Json} (h : (Json.object fields).HasDistinctNames)
    (hkind : readKind? fields = some (.ok kind)) : ∀ w ∈ kind.givenWord?, w.HasDistinctNames := by
  intro w hw
  rcases exists_of_readKind? hkind with
    ⟨inflected, -, change, hchange, rfl⟩ | ⟨initial, final, arabicOnly, rfl⟩ | rfl
  · simp only [List.mem_cons, List.not_mem_nil, or_false] at hchange
    rcases hchange with rfl | rfl | rfl | rfl <;> cases hw
    exact hasDistinctNames_optionalText h "deinflected"
  · cases hw
  · cases hw

end Parts

theorem hasDistinctNames_of_compile {document : Json} {rs : RuleSet Json}
    (hdocument : document.HasDistinctNames) (h : compile document = .ok rs) :
    ∀ r ∈ rs.rules, r.HasDistinctNames := by
  intro r hr
  obtain ⟨fields, hobject, hkind⟩ := exists_isRuleObject h hr
  obtain ⟨top, transform, items, rules, rfl, hitems, hmem, hid, hrules, hfields⟩ := hobject
  have htransform := hasDistinctNames_of_itemsOf hdocument hitems _ hmem
  exact ⟨hasDistinctNames_of_get? htransform hid,
    hasDistinctNames_of_readKind? (hasDistinctNames_of_itemsOf htransform hrules _ hfields) hkind⟩

end Document
namespace RuleSet

/-- With rules that lengthen no text except by giving a whole word, a search comes to its end for every
text. Over texts it returns; a rule of a document that holds other values may refuse a form. -/
theorem derivations_end_of_growth_eq_zero :
    (∀ rs : RuleSet Text, (∀ r ∈ rs.rules, r.kind.growth = 0) →
      ∀ s, ∃ ds, rs.derivations s = .ok ds) ∧
    ∀ document rs, RuleSet.ofText document = .ok rs →
      (∀ r ∈ rs.rules, ∀ k, r.kind.ofValues? = some k → k.growth = 0) →
      ∀ s : RawText, (∃ ds, rs.derivations (.str s) = .ok ds) ∨
        ∃ fault, rs.derivations (.str s) = .error (.fault fault) := by
  refine ⟨fun rs hgrowth => Settles.exists_derivations fun r hr => .inl (hgrowth r hr), ?_⟩
  intro document rs h hgrowth s
  obtain ⟨v, hv, hcompile⟩ := bind_eq_ok_iff.1 h
  rw [mapError_eq_ok_iff] at hv hcompile
  have hnames := Document.hasDistinctNames_of_compile
    (Json.isReadable_of_readWithin hv).hasDistinctNames hcompile
  have hend := derivations_ne_unsettled hnames hgrowth s
  match hds : rs.derivations (.str s) with
  | .ok ds => exact .inl ⟨ds, rfl⟩
  | .error (.fault fault) => exact .inr ⟨fault, rfl⟩
  | .error .unsettled => exact absurd hds hend

/-- Two rules that undo each other, and a word whose form is longer than itself, under one name. -/
def roundDocument : Json := .object [("transforms", .array [
  .object [("id", .text "round"), ("rules", .array [
    .object [("type", .text "suffix"), ("inflected", .text "a"),
      ("deinflected", .text "b")],
    .object [("type", .text "suffix"), ("inflected", .text "b"),
      ("deinflected", .text "a")],
    .object [("type", .text "wholeWord"), ("inflected", .text "b"),
      ("deinflected", .text "longer")]])]])]

/-- What the document is compiled to. -/
def roundRules : RuleSet Json where
  transforms := [⟨.text "round", [
    ⟨.text "round", 0, 0, 0, .suffix (.text "a") (.text "b")⟩,
    ⟨.text "round", 1, 0, 0, .suffix (.text "b") (.text "a")⟩,
    ⟨.text "round", 2, 0, 0, .wholeWord (.text "b") (.text "longer")⟩]⟩]
  flags := []

/-- A document without conditions is compiled as soon as its transforms are. -/
theorem ofText_render {document : Json} {rs : RuleSet Json} (hnames : document.HasDistinctNames)
    (hfits : document.Fits .standard) (hempty : rs.flags = [])
    (hcompile : Document.compile document =
      ((ConditionTable.flags []).mapError .condition).map fun flags => { rs with flags := flags }) :
    RuleSet.ofText (document.render .tight) = .ok rs := by
  have hread : Json.read (document.render .tight) = .ok document :=
    Json.readWithin_render Json.isPlain_tight hnames hfits
  have hflags : ConditionTable.flags [] = .ok [] := by
    simp [ConditionTable.flags, ConditionTable.firstUnknown?, ConditionTable.settle]
  refine bind_eq_ok_iff.2 ⟨_, mapError_eq_ok_iff.2 hread, mapError_eq_ok_iff.2 ?_⟩
  rw [hcompile, hflags, ← hempty]
  rfl

theorem ofText_roundDocument : RuleSet.ofText (roundDocument.render .tight) = .ok roundRules :=
  ofText_render (by decide) (by decide) rfl rfl

theorem derivations_end_of_growth_eq_zero_roundDocument :
    (∀ r ∈ backAndForth.rules, r.kind.growth = 0) ∧
      (∃ ds, backAndForth.derivations ['a'] = .ok ds) ∧
      RuleSet.ofText (roundDocument.render .tight) = .ok roundRules ∧
      (∀ r ∈ roundRules.rules, ∀ k, r.kind.ofValues? = some k → k.growth = 0) ∧
      ((∃ ds, roundRules.derivations (.str ['a']) = .ok ds) ∨
        ∃ fault, roundRules.derivations (.str ['a']) = .error (.fault fault)) := by
  have htexts : ∀ r ∈ backAndForth.rules, r.kind.growth = 0 := by decide
  have hvalues : ∀ r ∈ roundRules.rules, ∀ k, r.kind.ofValues? = some k → k.growth = 0 := by
    simp only [rules, roundRules, List.flatMap_cons, List.flatMap_nil, List.append_nil,
      List.forall_mem_cons]
    refine ⟨?_, ?_, ?_, List.forall_mem_nil _⟩
    · rintro _ ⟨⟩
      rfl
    · rintro _ ⟨⟩
      rfl
    · rintro _ ⟨⟩
      rfl
  exact ⟨htexts, derivations_end_of_growth_eq_zero.1 _ htexts _, ofText_roundDocument, hvalues,
    derivations_end_of_growth_eq_zero.2 _ _ ofText_roundDocument hvalues _⟩

end RuleSet
end Lexicon
