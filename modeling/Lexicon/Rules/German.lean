import Lexicon.Rules.Builder

/-! Deinflection rules for German. -/
namespace Lexicon.Rules

open RuleSpec

def german : Descriptor where
  conditions := [
    leaf "n",
    leaf "adj",
    leaf "v"]
  transforms := [
    transform "plural" [
      suffix "e" "" [] ["n"],
      suffix "en" "" [] ["n"],
      suffix "n" "" [] ["n"],
      suffix "er" "" [] ["n"],
      suffix "s" "" [] ["n"]],
    transform "present" [
      suffix "e" "en" [] ["v"],
      suffix "st" "en" [] ["v"],
      suffix "est" "en" [] ["v"],
      suffix "t" "en" [] ["v"],
      suffix "et" "en" [] ["v"],
      wholeWord "bin" "sein" [] ["v"],
      wholeWord "bist" "sein" [] ["v"],
      wholeWord "ist" "sein" [] ["v"],
      wholeWord "sind" "sein" [] ["v"],
      wholeWord "seid" "sein" [] ["v"],
      wholeWord "hast" "haben" [] ["v"],
      wholeWord "hat" "haben" [] ["v"]],
    transform "past" [
      suffix "te" "en" [] ["v"],
      suffix "test" "en" [] ["v"],
      suffix "ten" "en" [] ["v"],
      suffix "tet" "en" [] ["v"],
      suffix "ete" "en" [] ["v"],
      wholeWord "war" "sein" [] ["v"],
      wholeWord "waren" "sein" [] ["v"],
      wholeWord "hatte" "haben" [] ["v"]],
    transform "past participle" [
      affix "ge" "" "t" "en" ["adj"] ["v"],
      affix "ge" "" "et" "en" ["adj"] ["v"],
      affix "ge" "" "en" "en" ["adj"] ["v"]],
    transform "adjective declension" [
      suffix "e" "" ["adj"] ["adj"],
      suffix "en" "" ["adj"] ["adj"],
      suffix "er" "" ["adj"] ["adj"],
      suffix "es" "" ["adj"] ["adj"],
      suffix "em" "" ["adj"] ["adj"]],
    transform "comparative" [
      suffix "er" "" ["adj"] ["adj"]],
    transform "superlative" [
      suffix "st" "" ["adj"] ["adj"],
      suffix "est" "" ["adj"] ["adj"]]]

end Lexicon.Rules
