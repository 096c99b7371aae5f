import Lexicon.Rules.Builder

/-! Deinflection rules for Japanese. They are written in hiragana, with kanji in
irregular verbs. -/
namespace Lexicon.Rules

open RuleSpec

def japanese : Descriptor where
  conditions := [
    composite "v" ["v1", "v5", "vk", "vs", "vz"],
    leaf "v1",
    leaf "v5",
    leaf "vk",
    leaf "vs",
    leaf "vz",
    leaf "adj-i",
    leaf "-ます",
    leaf "-ません",
    leaf "-て",
    leaf "-ば",
    leaf "-く",
    leaf "-た"]
  transforms := [
    transform "-ba" [
      suffix "ければ" "い" ["-ば"] ["adj-i"],
      suffix "えば" "う" ["-ば"] ["v5"],
      suffix "けば" "く" ["-ば"] ["v5"],
      suffix "げば" "ぐ" ["-ば"] ["v5"],
      suffix "せば" "す" ["-ば"] ["v5"],
      suffix "てば" "つ" ["-ば"] ["v5"],
      suffix "ねば" "ぬ" ["-ば"] ["v5"],
      suffix "べば" "ぶ" ["-ば"] ["v5"],
      suffix "めば" "む" ["-ば"] ["v5"],
      suffix "れば" "る" ["-ば"] ["v1", "v5", "vk"],
      suffix "すれば" "する" ["-ば"] ["vs"],
      suffix "くれば" "くる" ["-ば"] ["vk"],
      suffix "来れば" "来る" ["-ば"] ["vk"]],
    transform "-nasai" [
      suffix "なさい" "る" [] ["v1"],
      suffix "いなさい" "う" [] ["v5"],
      suffix "きなさい" "く" [] ["v5"],
      suffix "ぎなさい" "ぐ" [] ["v5"],
      suffix "しなさい" "す" [] ["v5"],
      suffix "ちなさい" "つ" [] ["v5"],
      suffix "になさい" "ぬ" [] ["v5"],
      suffix "びなさい" "ぶ" [] ["v5"],
      suffix "みなさい" "む" [] ["v5"],
      suffix "りなさい" "る" [] ["v5"],
      suffix "しなさい" "する" [] ["vs"],
      suffix "来なさい" "来る" [] ["vk"]],
    transform "negative" [
      suffix "ない" "る" ["adj-i"] ["v1"],
      suffix "かない" "く" ["adj-i"] ["v5"],
      suffix "がない" "ぐ" ["adj-i"] ["v5"],
      suffix "さない" "す" ["adj-i"] ["v5"],
      suffix "たない" "つ" ["adj-i"] ["v5"],
      suffix "なない" "ぬ" ["adj-i"] ["v5"],
      suffix "ばない" "ぶ" ["adj-i"] ["v5"],
      suffix "まない" "む" ["adj-i"] ["v5"],
      suffix "らない" "る" ["adj-i"] ["v5"],
      suffix "わない" "う" ["adj-i"] ["v5"],
      suffix "しない" "する" ["adj-i"] ["vs"],
      suffix "こない" "くる" ["adj-i"] ["vk"],
      suffix "来ない" "来る" ["adj-i"] ["vk"],
      suffix "くない" "い" ["adj-i"] ["adj-i"],
      suffix "ず" "る" [] ["v1"],
      suffix "かず" "く" [] ["v5"],
      suffix "がず" "ぐ" [] ["v5"],
      suffix "さず" "す" [] ["v5"],
      suffix "たず" "つ" [] ["v5"],
      suffix "なず" "ぬ" [] ["v5"],
      suffix "ばず" "ぶ" [] ["v5"],
      suffix "まず" "む" [] ["v5"],
      suffix "らず" "る" [] ["v5"],
      suffix "わず" "う" [] ["v5"],
      suffix "せず" "する" [] ["vs"],
      suffix "こず" "くる" [] ["vk"],
      suffix "来ず" "来る" [] ["vk"]],
    transform "past" [
      suffix "た" "る" ["-た"] ["v1"],
      suffix "いた" "く" ["-た"] ["v5"],
      suffix "いだ" "ぐ" ["-た"] ["v5"],
      suffix "した" "す" ["-た"] ["v5"],
      suffix "った" "う" ["-た"] ["v5"],
      suffix "った" "つ" ["-た"] ["v5"],
      suffix "った" "る" ["-た"] ["v5"],
      suffix "んだ" "ぬ" ["-た"] ["v5"],
      suffix "んだ" "ぶ" ["-た"] ["v5"],
      suffix "んだ" "む" ["-た"] ["v5"],
      suffix "かった" "い" ["-た"] ["adj-i"],
      suffix "した" "する" ["-た"] ["vs"],
      suffix "きた" "くる" ["-た"] ["vk"],
      suffix "来た" "来る" ["-た"] ["vk"],
      suffix "行った" "行く" ["-た"] ["v5"],
      suffix "いった" "いく" ["-た"] ["v5"]],
    transform "-te" [
      suffix "て" "る" ["-て"] ["v1"],
      suffix "いて" "く" ["-て"] ["v5"],
      suffix "いで" "ぐ" ["-て"] ["v5"],
      suffix "して" "す" ["-て"] ["v5"],
      suffix "って" "う" ["-て"] ["v5"],
      suffix "って" "つ" ["-て"] ["v5"],
      suffix "って" "る" ["-て"] ["v5"],
      suffix "んで" "ぬ" ["-て"] ["v5"],
      suffix "んで" "ぶ" ["-て"] ["v5"],
      suffix "んで" "む" ["-て"] ["v5"],
      suffix "くて" "い" ["-て"] ["adj-i"],
      suffix "して" "する" ["-て"] ["vs"],
      suffix "きて" "くる" ["-て"] ["vk"],
      suffix "来て" "来る" ["-て"] ["vk"],
      suffix "行って" "行く" ["-て"] ["v5"],
      suffix "いって" "いく" ["-て"] ["v5"]],
    transform "polite" [
      suffix "ます" "る" ["-ます"] ["v1"],
      suffix "います" "う" ["-ます"] ["v5"],
      suffix "きます" "く" ["-ます"] ["v5"],
      suffix "ぎます" "ぐ" ["-ます"] ["v5"],
      suffix "します" "す" ["-ます"] ["v5"],
      suffix "ちます" "つ" ["-ます"] ["v5"],
      suffix "にます" "ぬ" ["-ます"] ["v5"],
      suffix "びます" "ぶ" ["-ます"] ["v5"],
      suffix "みます" "む" ["-ます"] ["v5"],
      suffix "ります" "る" ["-ます"] ["v5"],
      suffix "します" "する" ["-ます"] ["vs"],
      suffix "きます" "くる" ["-ます"] ["vk"],
      suffix "来ます" "来る" ["-ます"] ["vk"]],
    transform "polite past" [
      suffix "ました" "ます" ["-た"] ["-ます"]],
    transform "polite negative" [
      suffix "ません" "ます" ["-ません"] ["-ます"]],
    transform "polite past negative" [
      suffix "ませんでした" "ません" ["-た"] ["-ません"]],
    transform "polite volitional" [
      suffix "ましょう" "ます" [] ["-ます"]],
    transform "polite -te" [
      suffix "まして" "ます" ["-て"] ["-ます"]],
    transform "potential" [
      suffix "られる" "る" ["v1"] ["v1"],
      suffix "える" "う" ["v1"] ["v5"],
      suffix "ける" "く" ["v1"] ["v5"],
      suffix "げる" "ぐ" ["v1"] ["v5"],
      suffix "せる" "す" ["v1"] ["v5"],
      suffix "てる" "つ" ["v1"] ["v5"],
      suffix "ねる" "ぬ" ["v1"] ["v5"],
      suffix "べる" "ぶ" ["v1"] ["v5"],
      suffix "める" "む" ["v1"] ["v5"],
      suffix "れる" "る" ["v1"] ["v5"],
      suffix "これる" "くる" ["v1"] ["vk"],
      suffix "来れる" "来る" ["v1"] ["vk"]],
    transform "passive" [
      suffix "かれる" "く" ["v1"] ["v5"],
      suffix "がれる" "ぐ" ["v1"] ["v5"],
      suffix "される" "す" ["v1"] ["v5"],
      suffix "たれる" "つ" ["v1"] ["v5"],
      suffix "なれる" "ぬ" ["v1"] ["v5"],
      suffix "ばれる" "ぶ" ["v1"] ["v5"],
      suffix "まれる" "む" ["v1"] ["v5"],
      suffix "られる" "る" ["v1"] ["v5"],
      suffix "われる" "う" ["v1"] ["v5"],
      suffix "される" "する" ["v1"] ["vs"],
      suffix "こられる" "くる" ["v1"] ["vk"],
      suffix "来られる" "来る" ["v1"] ["vk"]],
    transform "causative" [
      suffix "させる" "る" ["v1"] ["v1"],
      suffix "かせる" "く" ["v1"] ["v5"],
      suffix "がせる" "ぐ" ["v1"] ["v5"],
      suffix "させる" "す" ["v1"] ["v5"],
      suffix "たせる" "つ" ["v1"] ["v5"],
      suffix "なせる" "ぬ" ["v1"] ["v5"],
      suffix "ばせる" "ぶ" ["v1"] ["v5"],
      suffix "ませる" "む" ["v1"] ["v5"],
      suffix "らせる" "る" ["v1"] ["v5"],
      suffix "わせる" "う" ["v1"] ["v5"],
      suffix "させる" "する" ["v1"] ["vs"],
      suffix "こさせる" "くる" ["v1"] ["vk"],
      suffix "来させる" "来る" ["v1"] ["vk"]],
    transform "-tai" [
      suffix "たい" "る" ["adj-i"] ["v1"],
      suffix "いたい" "う" ["adj-i"] ["v5"],
      suffix "きたい" "く" ["adj-i"] ["v5"],
      suffix "ぎたい" "ぐ" ["adj-i"] ["v5"],
      suffix "したい" "す" ["adj-i"] ["v5"],
      suffix "ちたい" "つ" ["adj-i"] ["v5"],
      suffix "にたい" "ぬ" ["adj-i"] ["v5"],
      suffix "びたい" "ぶ" ["adj-i"] ["v5"],
      suffix "みたい" "む" ["adj-i"] ["v5"],
      suffix "りたい" "る" ["adj-i"] ["v5"],
      suffix "したい" "する" ["adj-i"] ["vs"],
      suffix "来たい" "来る" ["adj-i"] ["vk"]],
    transform "volitional" [
      suffix "よう" "る" [] ["v1"],
      suffix "おう" "う" [] ["v5"],
      suffix "こう" "く" [] ["v5"],
      suffix "ごう" "ぐ" [] ["v5"],
      suffix "そう" "す" [] ["v5"],
      suffix "とう" "つ" [] ["v5"],
      suffix "のう" "ぬ" [] ["v5"],
      suffix "ぼう" "ぶ" [] ["v5"],
      suffix "もう" "む" [] ["v5"],
      suffix "ろう" "る" [] ["v5"],
      suffix "しよう" "する" [] ["vs"],
      suffix "こよう" "くる" [] ["vk"],
      suffix "来よう" "来る" [] ["vk"]],
    transform "imperative" [
      suffix "ろ" "る" [] ["v1"],
      suffix "よ" "る" [] ["v1"],
      suffix "え" "う" [] ["v5"],
      suffix "け" "く" [] ["v5"],
      suffix "げ" "ぐ" [] ["v5"],
      suffix "せ" "す" [] ["v5"],
      suffix "て" "つ" [] ["v5"],
      suffix "ね" "ぬ" [] ["v5"],
      suffix "べ" "ぶ" [] ["v5"],
      suffix "め" "む" [] ["v5"],
      suffix "れ" "る" [] ["v5"],
      suffix "しろ" "する" [] ["vs"],
      suffix "せよ" "する" [] ["vs"],
      suffix "こい" "くる" [] ["vk"],
      suffix "来い" "来る" [] ["vk"]],
    transform "progressive or perfect" [
      suffix "ている" "て" ["v1"] ["-て"],
      suffix "ておる" "て" ["v5"] ["-て"],
      suffix "てる" "て" ["v1"] ["-て"],
      suffix "でいる" "で" ["v1"] ["-て"],
      suffix "でる" "で" ["v1"] ["-て"]],
    transform "-shimau" [
      suffix "てしまう" "て" ["v5"] ["-て"],
      suffix "でしまう" "で" ["v5"] ["-て"],
      suffix "ちゃう" "る" ["v5"] ["v1"],
      suffix "いちゃう" "く" ["v5"] ["v5"],
      suffix "っちゃう" "る" ["v5"] ["v5"],
      suffix "っちゃう" "う" ["v5"] ["v5"],
      suffix "んじゃう" "む" ["v5"] ["v5"],
      suffix "んじゃう" "ぶ" ["v5"] ["v5"]],
    transform "-sugiru" [
      suffix "すぎる" "い" ["v1"] ["adj-i"],
      suffix "すぎる" "る" ["v1"] ["v1"]],
    transform "-sou" [
      suffix "そう" "い" [] ["adj-i"],
      suffix "そう" "る" [] ["v1"]],
    transform "adv" [
      suffix "く" "い" ["-く"] ["adj-i"]],
    transform "noun" [
      suffix "さ" "い" [] ["adj-i"]]]

end Lexicon.Rules
