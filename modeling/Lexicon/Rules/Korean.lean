import Lexicon.Rules.Builder

/-! Deinflection rules for Korean. They are written over jamo. -/
namespace Lexicon.Rules

open RuleSpec

def korean : Descriptor where
  conditions := [
    leaf "v",
    leaf "adj",
    composite "p" ["v", "adj"],
    leaf "tensed"]
  transforms := [
    transform "formal polite" [
      suffix "ㅅㅡㅂㄴㅣㄷㅏ" "ㄷㅏ" [] ["p", "tensed"],
      suffix "ㅂㄴㅣㄷㅏ" "ㄷㅏ" [] ["p", "tensed"],
      suffix "ㅅㅡㅂㄴㅣㄲㅏ" "ㄷㅏ" [] ["p", "tensed"],
      suffix "ㅂㄴㅣㄲㅏ" "ㄷㅏ" [] ["p", "tensed"]],
    transform "polite" [
      suffix "ㅇㅓㅇㅛ" "ㄷㅏ" [] ["p", "tensed"],
      suffix "ㅇㅏㅇㅛ" "ㄷㅏ" [] ["p", "tensed"],
      suffix "ㅏㅇㅛ" "ㅏㄷㅏ" [] ["p", "tensed"],
      suffix "ㅓㅇㅛ" "ㅓㄷㅏ" [] ["p", "tensed"],
      suffix "ㅐㅇㅛ" "ㅏㄷㅏ" [] ["p", "tensed"],
      suffix "ㅕㅇㅛ" "ㅣㄷㅏ" [] ["p", "tensed"],
      suffix "ㅗㅏㅇㅛ" "ㅗㄷㅏ" [] ["p", "tensed"],
      suffix "ㅜㅓㅇㅛ" "ㅜㄷㅏ" [] ["p", "tensed"]],
    transform "past" [
      suffix "ㅇㅓㅆㄷㅏ" "ㄷㅏ" ["tensed"] ["p"],
      suffix "ㅇㅏㅆㄷㅏ" "ㄷㅏ" ["tensed"] ["p"],
      suffix "ㅏㅆㄷㅏ" "ㅏㄷㅏ" ["tensed"] ["p"],
      suffix "ㅓㅆㄷㅏ" "ㅓㄷㅏ" ["tensed"] ["p"],
      suffix "ㅐㅆㄷㅏ" "ㅏㄷㅏ" ["tensed"] ["p"],
      suffix "ㅕㅆㄷㅏ" "ㅣㄷㅏ" ["tensed"] ["p"],
      suffix "ㅗㅏㅆㄷㅏ" "ㅗㄷㅏ" ["tensed"] ["p"],
      suffix "ㅜㅓㅆㄷㅏ" "ㅜㄷㅏ" ["tensed"] ["p"]],
    transform "future" [
      suffix "ㄱㅔㅆㄷㅏ" "ㄷㅏ" ["tensed"] ["p"]],
    transform "honorific" [
      suffix "ㅅㅔㅇㅛ" "ㄷㅏ" [] ["v"],
      suffix "ㅇㅡㅅㅔㅇㅛ" "ㄷㅏ" [] ["v"],
      suffix "ㅅㅣㄷㅏ" "ㄷㅏ" ["p"] ["v"],
      suffix "ㅇㅡㅅㅣㄷㅏ" "ㄷㅏ" ["p"] ["v"]],
    transform "-go" [
      suffix "ㄱㅗ" "ㄷㅏ" [] ["p"]],
    transform "-jiman" [
      suffix "ㅈㅣㅁㅏㄴ" "ㄷㅏ" [] ["p"]],
    transform "attributive" [
      suffix "ㄴㅡㄴ" "ㄷㅏ" [] ["v"]],
    transform "conditional" [
      suffix "ㅁㅕㄴ" "ㄷㅏ" [] ["p"],
      suffix "ㅇㅡㅁㅕㄴ" "ㄷㅏ" [] ["p"]],
    transform "negative" [
      suffix "ㅈㅣ ㅇㅏㄴㅎㄷㅏ" "ㄷㅏ" ["p"] ["p"]]]

end Lexicon.Rules
