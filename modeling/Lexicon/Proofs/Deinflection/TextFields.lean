import Lexicon.Proofs.Deinflection.Document
import Lexicon.Proofs.Deinflection.Fault
import Lexicon.Proofs.Deinflection.ValueForm

/-! Which rules of a document can be put to every text. A rule has to have texts where texts are looked
for, and what is given for a whole word has to be a text unless only rules for whole words follow.
Compiling asks for neither, so a document that is compiled may still stop every search. -/
namespace Lexicon

/-- What is looked at only for some texts is missed unless it is missed for none. -/
theorem forall_and_eq_false_iff {p : RawText → Bool} {b : Bool} (h : ∃ s, p s = true) :
    (∀ s, (p s && b) = false) ↔ b = false := by
  obtain ⟨s, hs⟩ := h
  constructor
  · intro hall
    simpa [hs] using hall s
  · rintro rfl t
    exact Bool.and_false _

namespace Json

variable {v : Json}

theorem isNull_iff : v.isNull = true ↔ v = .null := by
  cases v <;> simp [isNull]

theorem isSome_text?_iff : v.text?.isSome = true ↔ ∃ s, v = .str s := by
  cases v <;> simp [text?]

end Json

namespace AffixChange

/-- Two guards do not rule out every stem: of three letters they leave one. -/
theorem exists_accepts (change : AffixChange RawText) : ∃ stem, change.accepts stem = true := by
  by_contra hnone
  have hruled : ∀ c, Arabic.isLetter c = true →
      change.initialDisallow = some [.char c] ∨ change.finalDisallow = some [.char c] := by
    intro c hc
    by_contra hpass
    rw [not_or] at hpass
    exact hnone ⟨[.char c], by simp [accepts, hc, hpass]⟩
  have h₁ := hruled '\u0627' (by decide)
  have h₂ := hruled '\u0628' (by decide)
  have h₃ := hruled '\u062A' (by decide)
  rcases h₁ with h₁ | h₁ <;> rcases h₂ with h₂ | h₂ <;> rcases h₃ with h₃ | h₃ <;> simp_all

theorem stem?_append {change : AffixChange RawText} {stem : RawText} (h : change.accepts stem = true) :
    change.stem? (change.inflectedFront ++ (stem ++ change.inflectedBack)) = some stem := by
  simp [stem?, h]

/-- The affixes meet a text that carries them, so that the replacements are looked at too. -/
theorem forall_lacksText_iff {change : AffixChange Json} :
    (∀ s, change.lacksText s = false) ↔ change.ofValues?.isSome = true := by
  obtain ⟨front, deinflectedFront, back, deinflectedBack, initial, final, arabicOnly⟩ := change
  cases front with
  | str front =>
    cases back with
    | str back =>
      let matching : AffixChange RawText := ⟨front, [], back, [], initial.bind Json.text?,
        final.bind Json.text?, arabicOnly⟩
      have hmatching : ∃ s, (matching.stem? s).isSome = true := by
        obtain ⟨stem, hstem⟩ := matching.exists_accepts
        exact ⟨_, by rw [stem?_append hstem, Option.isSome_some]⟩
      exact (forall_and_eq_false_iff hmatching).trans (by simp)
    | _ =>
      have hfront : ∃ s, TextOf.startsWith s front = true := ⟨front, by simp [TextOf.startsWith_self]⟩
      simpa [lacksText, ofValues?, Json.text?] using hfront
  | _ => simp [lacksText, ofValues?, Json.text?]

end AffixChange

namespace Kind

variable {k : Kind Json} {v : Json}

/-- Whether a rule has texts in the fields that are looked at when it is put to a text. -/
def takesTexts : Kind Json → Bool
  | suffix inflected deinflected | opening inflected deinflected =>
    inflected.text?.isSome && deinflected.text?.isSome
  | affix change => change.ofValues?.isSome
  | phrasalSuffix inflected _ => inflected.text?.isSome
  | wholeWord _ _ | interposedObject => true

/-- Such a rule can be put to every text, and any other rule to some text cannot. -/
theorem forall_lacksText_iff : (∀ s, k.lacksText s = false) ↔ k.takesTexts = true := by
  cases k with
  | suffix inflected deinflected =>
    cases inflected with
    | str inflected =>
      have hself : ∃ s, TextOf.endsWith s inflected = true := ⟨inflected, TextOf.endsWith_self _⟩
      exact (forall_and_eq_false_iff hself).trans (by simp [takesTexts, Json.text?])
    | _ => simp [lacksText, takesTexts, Json.text?]
  | opening inflected deinflected =>
    cases inflected with
    | str inflected =>
      have hself : ∃ s, TextOf.startsWith s inflected = true := ⟨inflected, TextOf.startsWith_self _⟩
      exact (forall_and_eq_false_iff hself).trans (by simp [takesTexts, Json.text?])
    | _ => simp [lacksText, takesTexts, Json.text?]
  | wholeWord inflected deinflected => simp [lacksText, takesTexts]
  | affix change => exact AffixChange.forall_lacksText_iff
  | phrasalSuffix inflected deinflected =>
    have hphrase : ∃ s : RawText, (Phrasal.verbAndFollower? s).isSome = true :=
      ⟨"look up", by decide⟩
    simp only [lacksText, takesTexts, Bool.and_comm (inflected.text?.isNone),
      forall_and_eq_false_iff hphrase]
    simp
  | interposedObject => simp [lacksText, takesTexts]

theorem lacksText_of_givenWord? (h : k.givenWord?.isSome = true) (s : RawText) :
    k.lacksText s = false := by
  cases k with
  | wholeWord => rfl
  | _ => cases h

/-- Rules for whole words can be put to every value, other rules at most to texts. -/
theorem valueFault?_eq_none_iff : k.valueFault? v = none ↔
    k.givenWord?.isSome = true ∨ ∃ s, v = .str s ∧ k.lacksText s = false := by
  cases k <;> cases v <;> simp [valueFault?, givenWord?]

end Kind

namespace Document

/-- The names of texts that a rule may leave out. -/
def optionalKeys : List String :=
  ["deinflected", "inflectedPrefix", "deinflectedPrefix", "inflectedSuffix", "deinflectedSuffix"]

/-- A rule's object has texts, or nothing, where texts are looked for. What is asked for may not be left
out, so only null counts as nothing there. -/
structure HasTexts (fields : Fields) : Prop where
  inflected : ∀ v, fields.get? "inflected" = some v → v = .null ∨ ∃ s, v = .str s
  optional : ∀ key ∈ optionalKeys, ∀ v, fields.get? key = some v →
    v.isTruthy = false ∨ ∃ s, v = .str s

variable {fields : Fields} {kind : Kind Json}

theorem hasTexts_iff : HasTexts fields ↔
    (∀ v ∈ fields.get? "inflected", v.isNull = true ∨ v.text?.isSome = true) ∧
      ∀ key ∈ optionalKeys, ∀ v ∈ fields.get? key,
        v.isTruthy = false ∨ v.text?.isSome = true := by
  simp only [Json.isNull_iff, Json.isSome_text?_iff, Option.mem_def]
  exact ⟨fun h => ⟨h.inflected, h.optional⟩, fun h => ⟨h.1, h.2⟩⟩

instance : Decidable (HasTexts fields) := decidable_of_iff _ hasTexts_iff.symm

theorem text?_optionalText {key : String} (h : ∀ v, fields.get? key = some v →
    v.isTruthy = false ∨ ∃ s, v = .str s) : (optionalText fields key).text?.isSome = true := by
  unfold optionalText
  split
  · next v hv =>
    rcases h v hv with hfalsy | ⟨s, rfl⟩
    · rw [hfalsy]
      rfl
    · split <;> rfl
  · rfl

/-- Rules read from such an object meet texts without a fault and give texts for whole words. -/
theorem takesTexts_of_readKind? (h : HasTexts fields) (hkind : readKind? fields = some (.ok kind)) :
    kind.takesTexts = true ∧ ∀ w ∈ kind.givenWord?, w.text?.isSome = true := by
  have hoptional (key : String) (hkey : key ∈ optionalKeys) :
      (optionalText fields key).text?.isSome = true := text?_optionalText (h.optional key hkey)
  rcases exists_of_readKind? hkind with
    ⟨inflected, hinflected, change, hchange, rfl⟩ | ⟨initial, final, arabicOnly, rfl⟩ | rfl
  · obtain ⟨v, hv, hinflected⟩ := Option.bind_eq_some_iff.1 hinflected
    obtain ⟨s, rfl⟩ : ∃ s, inflected = .str s := by
      rcases h.inflected v hv with rfl | ⟨s, rfl⟩ <;> cases hinflected
      exact ⟨s, rfl⟩
    have htext : (Json.str s).text? = some s := rfl
    have hdeinflected := hoptional "deinflected" (by decide)
    simp only [List.mem_cons, List.not_mem_nil, or_false] at hchange
    rcases hchange with rfl | rfl | rfl | rfl <;>
      simp [Kind.takesTexts, Kind.givenWord?, htext, hdeinflected]
  · have htext (key : String) (hkey : key ∈ optionalKeys) :
        ∃ s, (optionalText fields key).text? = some s :=
      Option.isSome_iff_exists.1 (hoptional key hkey)
    obtain ⟨front, hfront⟩ := htext "inflectedPrefix" (by decide)
    obtain ⟨front', hfront'⟩ := htext "deinflectedPrefix" (by decide)
    obtain ⟨back, hback⟩ := htext "inflectedSuffix" (by decide)
    obtain ⟨back', hback'⟩ := htext "deinflectedSuffix" (by decide)
    simp [Kind.takesTexts, Kind.givenWord?, AffixChange.ofValues?, hfront, hfront', hback, hback']
  · simp [Kind.takesTexts, Kind.givenWord?]

end Document

namespace RuleSet

section Values

variable {rs : RuleSet Json}

/-- Where a chain leads to a value that is no text, only rules for whole words can follow. -/
def KeepsToTexts (rs : RuleSet Json) : Prop :=
  ∀ (s : RawText) c d, GuardedChain rs.rules (.str s) c d → d.text.text?.isNone = true →
    ∀ r ∈ rs.rules, r.admits d.conditions = true → r.kind.givenWord?.isSome = true

theorem keepsToTexts_of_givenWord?
    (h : ∀ r ∈ rs.rules, ∀ w ∈ r.kind.givenWord?, w.text?.isSome = true) : rs.KeepsToTexts := by
  have htext {s : RawText} {c d} (hchain : Chain rs.rules (.str s) c d) :
      d.text.text?.isSome = true := by
    cases hchain with
    | source => rfl
    | step _ hk hstep =>
      rcases Kind.deinflectValue_eq_some hstep.text_eq with hgiven | ⟨_, _, t, -, -, -, -, ht⟩
      · exact h _ (List.mem_of_getElem? hk) _ hgiven
      · rw [ht]
        rfl
  intro s c d hchain hnone
  rw [Option.isNone_iff_eq_none] at hnone
  exact absurd (htext hchain.chain) (by simp [hnone])

/-- From a text a search stops where a chain leads to a form that some rule cannot be put to although the
demand of the rule is met. -/
theorem exists_valueFault_iff {s : RawText} :
    (∃ fault, rs.derivations (.str s) = .error (.fault fault)) ↔
      ∃ c d, GuardedChain rs.rules (.str s) c d ∧
        ∃ r ∈ rs.rules, r.admits d.conditions = true ∧ r.kind.valueFault? d.text ≠ none := by
  rw [exists_fault_iff]
  simp only [Ne, Derivation.fault?_eq_none_iff]
  push Not
  rfl

theorem forall_ne_fault_iff : (∀ (s : RawText) fault, rs.derivations (.str s) ≠ .error (.fault fault)) ↔
    (∀ r ∈ rs.rules, r.kind.takesTexts = true) ∧ rs.KeepsToTexts := by
  have hfault (s : RawText) : (∀ fault, rs.derivations (.str s) ≠ .error (.fault fault)) ↔
      ∀ c d, GuardedChain rs.rules (.str s) c d → ∀ r ∈ rs.rules, r.admits d.conditions = true →
        r.kind.valueFault? d.text = none := by
    rw [← not_exists, exists_valueFault_iff]
    push Not
    rfl
  simp only [hfault, Kind.valueFault?_eq_none_iff]
  constructor
  · intro h
    refine ⟨fun r hr => Kind.forall_lacksText_iff.1 fun s => ?_, ?_⟩
    · -- the condition of the source meets every demand
      have hsource : GuardedChain rs.rules (.str s) [] (.source (.str s)) :=
        ⟨.source, List.Pairwise.nil⟩
      rcases h s _ _ hsource r hr (Rule.admits_iff.2 (.inl rfl)) with hword | ⟨t, ht, hlacks⟩
      · exact Kind.lacksText_of_givenWord? hword s
      · cases ht
        exact hlacks
    · intro s c d hchain hnone r hr hadmits
      rcases h s c d hchain r hr hadmits with hword | ⟨t, ht, -⟩
      · exact hword
      · rw [ht] at hnone
        cases hnone
  · rintro ⟨htakes, hkeeps⟩ s c d hchain r hr hadmits
    match htext : d.text with
    | .str t => exact .inr ⟨t, rfl, Kind.forall_lacksText_iff.2 (htakes r hr) t⟩
    | .null | .bool _ | .int _ | .float _ | .infinity _ | .array _ | .object _ =>
      exact .inl (hkeeps s c d hchain (by rw [htext]; rfl) r hr hadmits)

/-- With texts where texts are looked for, a document is compiled to rules that keep to texts. -/
theorem keepsToTexts_of_hasTexts {document : Json} (h : Document.compile document = .ok rs)
    (htexts : ∀ id fields, Document.IsRuleObject document id fields → Document.HasTexts fields) :
    (∀ r ∈ rs.rules, r.kind.takesTexts = true) ∧ rs.KeepsToTexts := by
  have hkind : ∀ r ∈ rs.rules,
      r.kind.takesTexts = true ∧ ∀ w ∈ r.kind.givenWord?, w.text?.isSome = true := by
    intro r hr
    obtain ⟨fields, hobject, hread⟩ := Document.exists_isRuleObject h hr
    exact Document.takesTexts_of_readKind? (htexts _ _ hobject) hread
  exact ⟨fun r hr => (hkind r hr).1, keepsToTexts_of_givenWord? fun r hr => (hkind r hr).2⟩

end Values

/-- When a search over rules of a document stops at a fault. From a text, it does so exactly when a chain
leads to a form that some rule cannot be put to although the demand of the rule is met. No text brings it
there exactly when every rule has texts where they are looked for and no rule but one for whole words is
ever put to anything else. Compiling does not ask for that; it holds where the document has texts there. -/
theorem derivations_fault_iff (rs : RuleSet Json) :
    (∀ s : RawText, (∃ fault, rs.derivations (.str s) = .error (.fault fault)) ↔
      ∃ c d, GuardedChain rs.rules (.str s) c d ∧
        ∃ r ∈ rs.rules, r.admits d.conditions = true ∧ r.kind.valueFault? d.text ≠ none) ∧
    ((∀ (s : RawText) fault, rs.derivations (.str s) ≠ .error (.fault fault)) ↔
      (∀ r ∈ rs.rules, r.kind.takesTexts = true) ∧ rs.KeepsToTexts) ∧
    ∀ written document, Json.read written = .ok document → RuleSet.ofText written = .ok rs →
      (∀ id fields, Document.IsRuleObject document id fields → Document.HasTexts fields) →
      ∀ (s : RawText) fault, rs.derivations (.str s) ≠ .error (.fault fault) := by
  refine ⟨fun s => exists_valueFault_iff, forall_ne_fault_iff, ?_⟩
  intro written document hread h htexts
  obtain ⟨v, hv, hcompile⟩ := bind_eq_ok_iff.1 h
  rw [mapError_eq_ok_iff] at hv hcompile
  obtain rfl : v = document := Except.ok.inj (hv.symm.trans hread)
  exact forall_ne_fault_iff.2 (keepsToTexts_of_hasTexts hcompile htexts)

theorem derivations_fault_iff_roundDocument :
    Json.read (roundDocument.render .tight) = .ok roundDocument ∧
      RuleSet.ofText (roundDocument.render .tight) = .ok roundRules ∧
      (∀ id fields, Document.IsRuleObject roundDocument id fields → Document.HasTexts fields) ∧
      ∀ (s : RawText) fault, roundRules.derivations (.str s) ≠ .error (.fault fault) := by
  have hread : Json.read (roundDocument.render .tight) = .ok roundDocument :=
    Json.readWithin_render Json.isPlain_tight (by decide) (by decide)
  have htexts : ∀ id fields, Document.IsRuleObject roundDocument id fields →
      Document.HasTexts fields := by
    rintro id fields ⟨top, transform, items, rules, htop, hitems, htransform, -, hrules, hfields⟩
    obtain rfl := Json.object.inj htop
    obtain rfl := Except.ok.inj hitems
    obtain rfl := Json.object.inj (List.mem_singleton.1 htransform)
    obtain rfl := Except.ok.inj hrules
    simp only [List.mem_cons, Json.object.injEq, List.not_mem_nil, or_false] at hfields
    rcases hfields with rfl | rfl | rfl <;> decide
  exact ⟨hread, ofText_roundDocument, htexts,
    (derivations_fault_iff roundRules).2.2 _ _ hread ofText_roundDocument htexts⟩

/-- A suffix that is a number. -/
def numberDocument : Json := .object [("transforms", .array [
  .object [("id", .text "x"), ("rules", .array [
    .object [("type", .text "suffix"), ("inflected", .int 5)]])]])]

def numberRules : RuleSet Json where
  transforms := [⟨.text "x", [⟨.text "x", 0, 0, 0, .suffix (.int 5) (.str [])⟩]⟩]
  flags := []

/-- The document is compiled, and no text can be put to its rule. -/
theorem derivations_numberRules :
    RuleSet.ofText (numberDocument.render .tight) = .ok numberRules ∧
      ∀ s : RawText, numberRules.derivations (.str s) = .error (.fault .wrongType) := by
  refine ⟨ofText_render (by decide) (by decide) rfl rfl, fun s => ?_⟩
  have hvisit : Arena.visit 0 numberRules.rules (.source (.str s)) Nat.one_pos =
      .error .wrongType := rfl
  rw [derivations, Arena.scan_of_visit_eq_error hvisit]

end RuleSet
end Lexicon
