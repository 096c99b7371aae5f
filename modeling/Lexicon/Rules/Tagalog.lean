import Lexicon.Rules.Builder

/-! Deinflection rules for Tagalog. -/
namespace Lexicon.Rules

open RuleSpec

def tagalog : Descriptor where
  conditions := [
    leaf "n",
    leaf "v",
    leaf "adj"]
  transforms := [
    transform "mag- actor focus" [
      opening "mag" "" [] ["n", "v"],
      opening "mag-" "" [] ["n", "v"],
      opening "nag" "" [] ["n", "v"],
      opening "nag-" "" [] ["n", "v"]],
    transform "ma- adjective" [
      opening "ma" "" [] ["n"]],
    transform "-in object focus" [
      suffix "in" "" [] ["n", "v"],
      suffix "hin" "" [] ["n", "v"]],
    transform "-an locative focus" [
      suffix "an" "" [] ["n", "v"],
      suffix "han" "" [] ["n", "v"]],
    transform "ka-an abstract noun" [
      affix "ka" "" "han" "" [] ["adj", "n"],
      affix "ka" "" "an" "" [] ["adj", "n"]],
    transform "pag-an gerund" [
      affix "pag" "" "han" "" [] ["v", "n"],
      affix "pag" "" "an" "" [] ["v", "n"]]]

end Lexicon.Rules
