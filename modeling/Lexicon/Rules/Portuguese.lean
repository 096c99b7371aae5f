import Lexicon.Rules.Builder

/-! Deinflection rules for Portuguese. -/
namespace Lexicon.Rules

open RuleSpec

def portuguese : Descriptor where
  conditions := [
    leaf "n",
    leaf "adj",
    composite "v" ["v_ar", "v_er", "v_ir"],
    leaf "v_ar",
    leaf "v_er",
    leaf "v_ir"]
  transforms := [
    transform "plural" [
      suffix "s" "" ["n", "adj"] ["n", "adj"],
      suffix "es" "" ["n", "adj"] ["n", "adj"],
      suffix "ões" "ão" ["n", "adj"] ["n", "adj"],
      suffix "ães" "ão" ["n", "adj"] ["n", "adj"],
      suffix "is" "l" ["n", "adj"] ["n", "adj"],
      suffix "ns" "m" ["n", "adj"] ["n", "adj"]],
    transform "feminine" [
      suffix "a" "o" ["adj"] ["adj"],
      suffix "ora" "or" ["adj"] ["adj"]],
    transform "present" [
      suffix "o" "ar" [] ["v_ar"],
      suffix "as" "ar" [] ["v_ar"],
      suffix "a" "ar" [] ["v_ar"],
      suffix "amos" "ar" [] ["v_ar"],
      suffix "am" "ar" [] ["v_ar"],
      suffix "o" "er" [] ["v_er"],
      suffix "es" "er" [] ["v_er"],
      suffix "e" "er" [] ["v_er"],
      suffix "emos" "er" [] ["v_er"],
      suffix "em" "er" [] ["v_er"],
      suffix "o" "ir" [] ["v_ir"],
      suffix "es" "ir" [] ["v_ir"],
      suffix "e" "ir" [] ["v_ir"],
      suffix "imos" "ir" [] ["v_ir"],
      suffix "em" "ir" [] ["v_ir"]],
    transform "preterite" [
      suffix "ei" "ar" [] ["v_ar"],
      suffix "aste" "ar" [] ["v_ar"],
      suffix "ou" "ar" [] ["v_ar"],
      suffix "aram" "ar" [] ["v_ar"],
      suffix "i" "er" [] ["v_er"],
      suffix "eu" "er" [] ["v_er"],
      suffix "eram" "er" [] ["v_er"],
      suffix "i" "ir" [] ["v_ir"],
      suffix "iu" "ir" [] ["v_ir"],
      suffix "iram" "ir" [] ["v_ir"]],
    transform "gerund" [
      suffix "ando" "ar" [] ["v_ar"],
      suffix "endo" "er" [] ["v_er"],
      suffix "indo" "ir" [] ["v_ir"]],
    transform "participle" [
      suffix "ado" "ar" ["adj"] ["v_ar"],
      suffix "ido" "er" ["adj"] ["v_er"],
      suffix "ido" "ir" ["adj"] ["v_ir"]]]

end Lexicon.Rules
