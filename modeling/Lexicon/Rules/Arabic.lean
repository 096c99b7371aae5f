import Lexicon.Rules.Builder

/-! Deinflection rules for Arabic. -/
namespace Lexicon.Rules

open RuleSpec

def arabic : Descriptor where
  conditions := [
    leaf "n",
    leaf "v",
    leaf "n_def"]
  transforms := [
    transform "conjunction" [
      opening "و" "" [] ["n", "v", "n_def"],
      opening "ف" "" [] ["n", "v", "n_def"]],
    transform "preposition" [
      opening "ب" "" ["n", "n_def"] ["n_def"],
      opening "ك" "" ["n", "n_def"] ["n_def"],
      opening "لل" "ال" ["n", "n_def"] ["n_def"],
      opening "ل" "" ["n", "n_def"] ["n"]],
    transform "definite article" [
      opening "ال" "" ["n_def"] ["n"]],
    transform "sound masculine plural" [
      suffix "ون" "" ["n", "n_def"] ["n"],
      suffix "ين" "" ["n", "n_def"] ["n"]],
    transform "sound feminine plural" [
      suffix "ات" "ة" ["n", "n_def"] ["n"],
      suffix "ات" "" ["n", "n_def"] ["n"]],
    transform "dual" [
      suffix "ان" "" ["n", "n_def"] ["n"],
      suffix "تان" "ة" ["n", "n_def"] ["n"]],
    transform "attached pronoun" [
      suffix "ه" "" [] ["n", "v"],
      suffix "ها" "" [] ["n", "v"],
      suffix "هم" "" [] ["n", "v"],
      suffix "ي" "" [] ["n"],
      suffix "تها" "ة" [] ["n"]],
    transform "past" [
      suffix "وا" "" ["v"] ["v"],
      suffix "ت" "" ["v"] ["v"],
      suffix "تم" "" ["v"] ["v"],
      suffix "نا" "" ["v"] ["v"]],
    transform "present" [
      guarded "ي" "" "ون" "" none none true ["v"] ["v"],
      guarded "ت" "" "ون" "" none none true ["v"] ["v"],
      guarded "ي" "" "" "" (some 'ا') none false ["v"] ["v"],
      guarded "ت" "" "" "" (some 'ا') none false ["v"] ["v"],
      guarded "ن" "" "" "" (some 'ا') none false ["v"] ["v"],
      guarded "أ" "" "" "" (some 'ا') (some 'ة') false ["v"] ["v"]]]

end Lexicon.Rules
