import Lexicon.Rules.Builder

/-! Deinflection rules for Spanish. -/
namespace Lexicon.Rules

open RuleSpec

def spanish : Descriptor where
  conditions := [
    leaf "n",
    leaf "adj",
    composite "v" ["v_ar", "v_er", "v_ir"],
    leaf "v_ar",
    leaf "v_er",
    leaf "v_ir"]
  transforms := [
    transform "plural" [
      suffix "s" "" ["n", "adj"] ["n", "adj"],
      suffix "es" "" ["n", "adj"] ["n", "adj"],
      suffix "ces" "z" ["n", "adj"] ["n", "adj"]],
    transform "feminine" [
      suffix "a" "o" ["adj"] ["adj"],
      suffix "ora" "or" ["adj"] ["adj"]],
    transform "present indicative" [
      suffix "o" "ar" [] ["v_ar"],
      suffix "as" "ar" [] ["v_ar"],
      suffix "a" "ar" [] ["v_ar"],
      suffix "amos" "ar" [] ["v_ar"],
      suffix "áis" "ar" [] ["v_ar"],
      suffix "an" "ar" [] ["v_ar"],
      suffix "o" "er" [] ["v_er"],
      suffix "es" "er" [] ["v_er"],
      suffix "e" "er" [] ["v_er"],
      suffix "emos" "er" [] ["v_er"],
      suffix "éis" "er" [] ["v_er"],
      suffix "en" "er" [] ["v_er"],
      suffix "o" "ir" [] ["v_ir"],
      suffix "es" "ir" [] ["v_ir"],
      suffix "e" "ir" [] ["v_ir"],
      suffix "imos" "ir" [] ["v_ir"],
      suffix "ís" "ir" [] ["v_ir"],
      suffix "en" "ir" [] ["v_ir"],
      wholeWord "soy" "ser" [] ["v_er"],
      wholeWord "es" "ser" [] ["v_er"],
      wholeWord "somos" "ser" [] ["v_er"],
      wholeWord "son" "ser" [] ["v_er"],
      wholeWord "estoy" "estar" [] ["v_ar"],
      wholeWord "voy" "ir" [] ["v_ir"],
      wholeWord "tengo" "tener" [] ["v_er"]],
    transform "preterite" [
      suffix "é" "ar" [] ["v_ar"],
      suffix "aste" "ar" [] ["v_ar"],
      suffix "ó" "ar" [] ["v_ar"],
      suffix "asteis" "ar" [] ["v_ar"],
      suffix "aron" "ar" [] ["v_ar"],
      suffix "í" "er" [] ["v_er"],
      suffix "iste" "er" [] ["v_er"],
      suffix "ió" "er" [] ["v_er"],
      suffix "ieron" "er" [] ["v_er"],
      suffix "í" "ir" [] ["v_ir"],
      suffix "iste" "ir" [] ["v_ir"],
      suffix "ió" "ir" [] ["v_ir"],
      suffix "ieron" "ir" [] ["v_ir"]],
    transform "imperfect" [
      suffix "aba" "ar" [] ["v_ar"],
      suffix "abas" "ar" [] ["v_ar"],
      suffix "ábamos" "ar" [] ["v_ar"],
      suffix "aban" "ar" [] ["v_ar"],
      suffix "ía" "er" [] ["v_er"],
      suffix "ías" "er" [] ["v_er"],
      suffix "íamos" "er" [] ["v_er"],
      suffix "ían" "er" [] ["v_er"],
      suffix "ía" "ir" [] ["v_ir"],
      suffix "ías" "ir" [] ["v_ir"],
      suffix "íamos" "ir" [] ["v_ir"],
      suffix "ían" "ir" [] ["v_ir"]],
    transform "future" [
      suffix "é" "" [] ["v"],
      suffix "ás" "" [] ["v"],
      suffix "á" "" [] ["v"],
      suffix "emos" "" [] ["v"],
      suffix "án" "" [] ["v"]],
    transform "gerund" [
      suffix "ando" "ar" [] ["v_ar"],
      suffix "iendo" "er" [] ["v_er"],
      suffix "iendo" "ir" [] ["v_ir"],
      suffix "yendo" "er" [] ["v_er"]],
    transform "participle" [
      suffix "ado" "ar" ["adj"] ["v_ar"],
      suffix "ido" "er" ["adj"] ["v_er"],
      suffix "ido" "ir" ["adj"] ["v_ir"]]]

end Lexicon.Rules
