import Lexicon.Rules.Builder

/-! Deinflection rules for Latin. -/
namespace Lexicon.Rules

open RuleSpec

def latin : Descriptor where
  conditions := [
    composite "n" ["n1", "n2"],
    leaf "n1",
    leaf "n2",
    composite "v" ["v1", "v2"],
    leaf "v1",
    leaf "v2"]
  transforms := [
    transform "first declension" [
      suffix "ae" "a" [] ["n1"],
      suffix "am" "a" [] ["n1"],
      suffix "arum" "a" [] ["n1"],
      suffix "is" "a" [] ["n1"],
      suffix "as" "a" [] ["n1"]],
    transform "second declension" [
      suffix "i" "us" [] ["n2"],
      suffix "o" "us" [] ["n2"],
      suffix "um" "us" [] ["n2"],
      suffix "orum" "us" [] ["n2"],
      suffix "is" "us" [] ["n2"],
      suffix "os" "us" [] ["n2"],
      suffix "a" "um" [] ["n2"]],
    transform "present" [
      suffix "o" "are" [] ["v1"],
      suffix "as" "are" [] ["v1"],
      suffix "at" "are" [] ["v1"],
      suffix "amus" "are" [] ["v1"],
      suffix "atis" "are" [] ["v1"],
      suffix "ant" "are" [] ["v1"],
      suffix "eo" "ere" [] ["v2"],
      suffix "es" "ere" [] ["v2"],
      suffix "et" "ere" [] ["v2"],
      suffix "emus" "ere" [] ["v2"],
      suffix "etis" "ere" [] ["v2"],
      suffix "ent" "ere" [] ["v2"]]]

end Lexicon.Rules
