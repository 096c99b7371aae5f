import Lexicon.Proofs.Deinflection.LoopGuard
import Lexicon.Proofs.Deinflection.Size

/-! Rules used the other way round. A rule that replaces affixes or a whole word leaves what it puts in
their place, so it can be undone; undone from the newest step on, the steps of a trace lead from the
form that was found over the texts in the trace back to the source. -/
namespace Lexicon

namespace AffixChange

/-- The text with the inflected affixes around its stem. -/
def inflect? (change : AffixChange Text) (t : Text) : Option Text := do
  let stem ← (← t.dropFront? change.deinflectedFront).dropBack? change.deinflectedBack
  return change.inflectedFront ++ stem ++ change.inflectedBack

theorem inflect?_eq_some_iff {change : AffixChange Text} {s t : Text} :
    change.inflect? t = some s ↔
      ∃ stem, t = change.deinflectedFront ++ stem ++ change.deinflectedBack ∧
        s = change.inflectedFront ++ stem ++ change.inflectedBack := by
  simp only [inflect?, Option.bind_eq_bind, Option.bind_eq_some_iff, TextOf.dropFront?_eq_some_iff,
    TextOf.dropBack?_eq_some_iff, Option.pure_def, Option.some.injEq]
  constructor
  · rintro ⟨_, rfl, stem, rfl, rfl⟩
    exact ⟨stem, (List.append_assoc ..).symm, rfl⟩
  · rintro ⟨stem, rfl, rfl⟩
    exact ⟨_, List.append_assoc .., stem, rfl, rfl⟩

/-- Affixes can be put back around every stem that they were taken from. -/
theorem inflect?_of_deinflect {change : AffixChange Text} {s t : Text}
    (h : change.deinflect s = some t) : change.inflect? t = some s := by
  obtain ⟨stem, hstem, rfl⟩ := Option.map_eq_some_iff.1 h
  obtain ⟨rfl, -⟩ := stem?_eq_some_iff.1 hstem
  exact inflect?_eq_some_iff.2 ⟨stem, rfl, (List.append_assoc ..).symm⟩

end AffixChange

namespace Kind

/-- Rules that put one text in the place of another. Those for phrases also move words. -/
def isReplacement : Kind Text → Bool
  | suffix _ _ | opening _ _ | wholeWord _ _ | affix _ => true
  | phrasalSuffix _ _ | interposedObject => false

/-- The text that carries the inflection of a replacement, if the text carries what stands in its
place. -/
def inflect? : Kind Text → Text → Option Text
  | suffix inflected deinflected, t => (t.dropBack? deinflected).map (· ++ inflected)
  | opening inflected deinflected, t => (t.dropFront? deinflected).map (inflected ++ ·)
  | wholeWord inflected deinflected, t => if t = deinflected then some inflected else none
  | affix change, t => change.inflect? t
  | phrasalSuffix _ _, _ | interposedObject, _ => none

/-- A replacement is undone on every text that it makes. -/
theorem inflect?_of_deinflect {k : Kind Text} (hk : k.isReplacement = true) {s t : Text}
    (h : k.deinflect s = some t) : k.inflect? t = some s := by
  cases k with
  | suffix inflected deinflected =>
    obtain ⟨stem, rfl, rfl⟩ := deinflect_suffix_eq_some_iff.1 h
    rw [inflect?, TextOf.dropBack?_append, Option.map_some]
  | opening inflected deinflected =>
    obtain ⟨stem, rfl, rfl⟩ := deinflect_opening_eq_some_iff.1 h
    rw [inflect?, TextOf.dropFront?_append, Option.map_some]
  | wholeWord inflected deinflected =>
    obtain ⟨rfl, ht⟩ := Option.ite_none_right_eq_some.1 h
    rw [inflect?, if_pos (Option.some.inj ht).symm]
  | affix change => exact AffixChange.inflect?_of_deinflect h
  | phrasalSuffix | interposedObject => cases hk

end Kind

namespace RuleSet

/-- The rule that a step was taken by. -/
def ruleOf? (rs : RuleSet Text) (f : Frame Text) : Option (Rule Text) :=
  rs.rules.find? fun r => r.transformId = f.transformId ∧ r.index = f.index

/-- The texts met when the rules of some steps are undone one after the other on a text, unless one of
them cannot be. -/
def undo? (rs : RuleSet Text) : List (Frame Text) → Text → Option (List Text)
  | [], _ => some []
  | f :: trace, t =>
    match (rs.ruleOf? f).bind fun r => r.kind.inflect? t with
    | some s => (rs.undo? trace s).map (s :: ·)
    | none => none

variable {rs : RuleSet Text} {s t : Text} {d e : Derivation Text} {r : Rule Text} {c : List ℕ}

/-- Rules that can be told apart are found by the steps that they make. -/
theorem ruleOf?_frame (hrules : rs.Distinct) (hr : r ∈ rs.rules) (t : Text) :
    rs.ruleOf? (r.frame t) = some r := by
  have hfound : (rs.ruleOf? (r.frame t)).isSome = true :=
    List.find?_isSome.2 ⟨r, hr, by simp [Rule.frame]⟩
  obtain ⟨q, hq⟩ := Option.isSome_iff_exists.1 hfound
  have hmatch := List.find?_some hq
  have hkey : q.transformId = r.transformId ∧ q.index = r.index := of_decide_eq_true hmatch
  rw [hq, List.inj_on_of_nodup_map hrules (List.mem_of_find?_eq_some hq) hr
    (Prod.ext hkey.1 hkey.2)]

/-- Undoing the newest step gives the text that it was taken from. -/
theorem undo?_of_step (hrules : rs.Distinct) (hkinds : ∀ r ∈ rs.rules, r.kind.isReplacement = true)
    (hr : r ∈ rs.rules) (hstep : r.Step d e) :
    rs.undo? e.trace e.text = (rs.undo? d.trace d.text).map (d.text :: ·) := by
  have hrule : rs.ruleOf? ⟨r.transformId, r.index, d.text⟩ = some r := ruleOf?_frame hrules hr d.text
  rw [hstep.trace_eq, undo?, hrule, Option.bind_some,
    Kind.inflect?_of_deinflect (hkinds r hr) hstep.text_eq]

/-- From the end of a chain the way back leads over the texts in its trace. -/
theorem undo?_of_chain (hrules : rs.Distinct)
    (hkinds : ∀ r ∈ rs.rules, r.kind.isReplacement = true) (h : Chain rs.rules s c d) :
    rs.undo? d.trace d.text = some (d.trace.map (·.text)) := by
  induction h with
  | source => rfl
  | step _ hk hstep ih =>
    rw [undo?_of_step hrules hkinds (List.mem_of_getElem? hk) hstep, ih, hstep.trace_eq,
      Option.map_some, List.map_cons]

end RuleSet

/-- The oldest text of a chain is its source. -/
theorem Chain.getLast?_texts {rules : List (Rule Text)} {s : Text} {c : List ℕ} {d : Derivation Text}
    (h : Chain rules s c d) : (d.text :: d.trace.map (·.text)).getLast? = some s := by
  induction h with
  | source => rfl
  | step _ _ hstep ih => rw [hstep.trace_eq, List.map_cons, List.getLast?_cons_cons, ih]

namespace RuleSet

/-- A trace is a recipe for the inflected form. Where rules replace texts and can be told apart, the steps
to every form that is found can be undone, newest first: each gives the text that it was applied to, and
the last one the source. -/
theorem undo?_trace_eq_texts (rs : RuleSet Text) (hrules : rs.Distinct)
    (hkinds : ∀ r ∈ rs.rules, r.kind.isReplacement = true) (s : Text) {ds : List (Derivation Text)}
    (hds : rs.derivations s = .ok ds) :
    ∀ d ∈ ds, rs.undo? d.trace d.text = some (d.trace.map (·.text)) ∧
      (d.text :: d.trace.map (·.text)).getLast? = some s := by
  intro d hd
  obtain ⟨c, hchain, -⟩ := (mem_derivations_iff hds).1 hd
  exact ⟨undo?_of_chain hrules hkinds hchain, hchain.getLast?_texts⟩

/-- An ending, a prefix, a participle and an irregular verb. -/
def participleRules : RuleSet Text where
  transforms := [
    ⟨"adjective".toList, [⟨"adjective".toList, 0, 1, 2, .suffix "es".toList []⟩,
      ⟨"adjective".toList, 1, 2, 4, .opening "un".toList []⟩]⟩,
    ⟨"participle".toList, [⟨"participle".toList, 0, 4, 8,
      .affix ⟨"ge".toList, [], "t".toList, "en".toList, none, none, false⟩⟩]⟩,
    ⟨"synonym".toList, [⟨"synonym".toList, 0, 8, 8,
      .wholeWord "machen".toList "tun".toList⟩]⟩]
  flags := []

/-- Four steps, one of each kind, lead from a word to another one and back. -/
theorem undo?_trace_eq_texts_participleRules :
    participleRules.Distinct ∧ (∀ r ∈ participleRules.rules, r.kind.isReplacement = true) ∧
      ∃ ds, participleRules.derivations "ungemachtes".toList = .ok ds ∧
        ∃ d ∈ ds, d.text = "tun".toList ∧ d.trace.length = 4 ∧
          participleRules.undo? d.trace d.text = some ["machen".toList, "gemacht".toList,
            "ungemacht".toList, "ungemachtes".toList] := by
  have hrules : participleRules.Distinct := by unfold Distinct; decide
  have hkinds : ∀ r ∈ participleRules.rules, r.kind.isReplacement = true := by decide
  let ds : List (Derivation Text) := [
    ⟨"ungemachtes".toList, 0, []⟩,
    ⟨"ungemacht".toList, 2, [⟨"adjective".toList, 0, "ungemachtes".toList⟩]⟩,
    ⟨"gemachtes".toList, 4, [⟨"adjective".toList, 1, "ungemachtes".toList⟩]⟩,
    ⟨"gemacht".toList, 4, [⟨"adjective".toList, 1, "ungemacht".toList⟩,
      ⟨"adjective".toList, 0, "ungemachtes".toList⟩]⟩,
    ⟨"machen".toList, 8, [⟨"participle".toList, 0, "gemacht".toList⟩,
      ⟨"adjective".toList, 1, "ungemacht".toList⟩, ⟨"adjective".toList, 0, "ungemachtes".toList⟩]⟩,
    ⟨"tun".toList, 8, [⟨"synonym".toList, 0, "machen".toList⟩,
      ⟨"participle".toList, 0, "gemacht".toList⟩, ⟨"adjective".toList, 1, "ungemacht".toList⟩,
      ⟨"adjective".toList, 0, "ungemachtes".toList⟩]⟩]
  have hds : participleRules.derivations "ungemachtes".toList = .ok ds :=
    derivations_eq_ok_iff.2 ⟨by decide, by decide⟩
  have hlast : ds[5] ∈ ds := List.getElem_mem _
  exact ⟨hrules, hkinds, ds, hds, ds[5], hlast, rfl, rfl,
    (undo?_trace_eq_texts participleRules hrules hkinds _ hds _ hlast).1⟩

end RuleSet
end Lexicon
