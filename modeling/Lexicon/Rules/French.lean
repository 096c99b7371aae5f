import Lexicon.Rules.Builder

/-! Deinflection rules for French. -/
namespace Lexicon.Rules

open RuleSpec

def french : Descriptor where
  conditions := [
    leaf "n",
    leaf "adj",
    leaf "v"]
  transforms := [
    transform "plural" [
      suffix "s" "" ["n", "adj"] ["n", "adj"],
      suffix "x" "" ["n", "adj"] ["n", "adj"],
      suffix "aux" "al" ["n", "adj"] ["n", "adj"]],
    transform "feminine" [
      suffix "e" "" ["adj"] ["adj"],
      suffix "euse" "eux" ["adj"] ["adj"],
      suffix "ive" "if" ["adj"] ["adj"],
      suffix "enne" "en" ["adj"] ["adj"],
      suffix "elle" "el" ["adj"] ["adj"]],
    transform "present" [
      suffix "e" "er" [] ["v"],
      suffix "es" "er" [] ["v"],
      suffix "ons" "er" [] ["v"],
      suffix "ez" "er" [] ["v"],
      suffix "ent" "er" [] ["v"],
      suffix "is" "ir" [] ["v"],
      suffix "it" "ir" [] ["v"],
      suffix "issons" "ir" [] ["v"],
      suffix "issez" "ir" [] ["v"],
      suffix "issent" "ir" [] ["v"],
      suffix "s" "re" [] ["v"],
      suffix "ons" "re" [] ["v"],
      suffix "ent" "re" [] ["v"]],
    transform "past participle" [
      suffix "é" "er" ["adj"] ["v"],
      suffix "i" "ir" ["adj"] ["v"],
      suffix "u" "re" ["adj"] ["v"]],
    transform "imperfect" [
      suffix "ais" "er" [] ["v"],
      suffix "ait" "er" [] ["v"],
      suffix "ions" "er" [] ["v"],
      suffix "iez" "er" [] ["v"],
      suffix "aient" "er" [] ["v"],
      suffix "issais" "ir" [] ["v"],
      suffix "issait" "ir" [] ["v"],
      suffix "issaient" "ir" [] ["v"]],
    transform "future" [
      suffix "ai" "" [] ["v"],
      suffix "as" "" [] ["v"],
      suffix "a" "" [] ["v"],
      suffix "ons" "" [] ["v"],
      suffix "ez" "" [] ["v"],
      suffix "ont" "" [] ["v"]]]

end Lexicon.Rules
