import Lexicon.Rules.Builder

/-! Deinflection rules for English. -/
namespace Lexicon.Rules

open RuleSpec

def english : Descriptor where
  conditions := [
    leaf "v",
    leaf "n",
    leaf "adj",
    leaf "v_phr"]
  transforms := [
    transform "plural" [
      suffix "s" "" ["n"] ["n"],
      suffix "es" "" ["n"] ["n"],
      suffix "ies" "y" ["n"] ["n"],
      suffix "ves" "f" ["n"] ["n"],
      suffix "ves" "fe" ["n"] ["n"],
      wholeWord "men" "man" ["n"] ["n"],
      wholeWord "women" "woman" ["n"] ["n"],
      wholeWord "children" "child" ["n"] ["n"],
      wholeWord "people" "person" ["n"] ["n"],
      wholeWord "mice" "mouse" ["n"] ["n"],
      wholeWord "feet" "foot" ["n"] ["n"],
      wholeWord "teeth" "tooth" ["n"] ["n"],
      wholeWord "geese" "goose" ["n"] ["n"]],
    transform "possessive" [
      suffix "'s" "" [] ["n"],
      suffix "s'" "s" [] ["n"]],
    transform "past" [
      suffix "ed" "" ["v"] ["v"],
      suffix "ed" "e" ["v"] ["v"],
      suffix "ied" "y" ["v"] ["v"],
      suffix "bbed" "b" ["v"] ["v"],
      suffix "dded" "d" ["v"] ["v"],
      suffix "gged" "g" ["v"] ["v"],
      suffix "mmed" "m" ["v"] ["v"],
      suffix "nned" "n" ["v"] ["v"],
      suffix "pped" "p" ["v"] ["v"],
      suffix "rred" "r" ["v"] ["v"],
      suffix "tted" "t" ["v"] ["v"],
      wholeWord "was" "be" ["v"] ["v"],
      wholeWord "were" "be" ["v"] ["v"],
      wholeWord "been" "be" ["v"] ["v"],
      wholeWord "had" "have" ["v"] ["v"],
      wholeWord "did" "do" ["v"] ["v"],
      wholeWord "done" "do" ["v"] ["v"],
      wholeWord "went" "go" ["v"] ["v"],
      wholeWord "gone" "go" ["v"] ["v"],
      wholeWord "made" "make" ["v"] ["v"],
      wholeWord "said" "say" ["v"] ["v"],
      wholeWord "took" "take" ["v"] ["v"],
      wholeWord "taken" "take" ["v"] ["v"],
      wholeWord "saw" "see" ["v"] ["v"],
      wholeWord "seen" "see" ["v"] ["v"],
      wholeWord "came" "come" ["v"] ["v"],
      wholeWord "gave" "give" ["v"] ["v"],
      wholeWord "given" "give" ["v"] ["v"],
      wholeWord "got" "get" ["v"] ["v"],
      wholeWord "knew" "know" ["v"] ["v"],
      wholeWord "known" "know" ["v"] ["v"],
      wholeWord "thought" "think" ["v"] ["v"],
      wholeWord "found" "find" ["v"] ["v"],
      wholeWord "ran" "run" ["v"] ["v"],
      wholeWord "ate" "eat" ["v"] ["v"],
      wholeWord "eaten" "eat" ["v"] ["v"],
      wholeWord "wrote" "write" ["v"] ["v"],
      wholeWord "written" "write" ["v"] ["v"],
      wholeWord "spoke" "speak" ["v"] ["v"],
      wholeWord "spoken" "speak" ["v"] ["v"],
      phrasalSuffix "ed" "" ["v_phr"] ["v_phr"],
      phrasalSuffix "ed" "e" ["v_phr"] ["v_phr"],
      phrasalSuffix "ied" "y" ["v_phr"] ["v_phr"]],
    transform "ing" [
      suffix "ing" "" [] ["v"],
      suffix "ing" "e" [] ["v"],
      suffix "ying" "ie" [] ["v"],
      suffix "bbing" "b" [] ["v"],
      suffix "dding" "d" [] ["v"],
      suffix "gging" "g" [] ["v"],
      suffix "mming" "m" [] ["v"],
      suffix "nning" "n" [] ["v"],
      suffix "pping" "p" [] ["v"],
      suffix "rring" "r" [] ["v"],
      suffix "tting" "t" [] ["v"],
      phrasalSuffix "ing" "" ["v_phr"] ["v_phr"],
      phrasalSuffix "ing" "e" ["v_phr"] ["v_phr"]],
    transform "3rd pers. sing. present" [
      suffix "s" "" [] ["v"],
      suffix "es" "" [] ["v"],
      suffix "ies" "y" [] ["v"],
      wholeWord "is" "be" [] ["v"],
      wholeWord "has" "have" [] ["v"],
      wholeWord "does" "do" [] ["v"],
      wholeWord "goes" "go" [] ["v"],
      phrasalSuffix "s" "" ["v_phr"] ["v_phr"],
      phrasalSuffix "es" "" ["v_phr"] ["v_phr"]],
    transform "comparative" [
      suffix "er" "" [] ["adj"],
      suffix "r" "" [] ["adj"],
      suffix "ier" "y" [] ["adj"],
      suffix "gger" "g" [] ["adj"],
      suffix "tter" "t" [] ["adj"],
      suffix "nner" "n" [] ["adj"],
      wholeWord "better" "good" [] ["adj"],
      wholeWord "worse" "bad" [] ["adj"]],
    transform "superlative" [
      suffix "est" "" [] ["adj"],
      suffix "st" "" [] ["adj"],
      suffix "iest" "y" [] ["adj"],
      suffix "ggest" "g" [] ["adj"],
      suffix "ttest" "t" [] ["adj"],
      suffix "nnest" "n" [] ["adj"],
      wholeWord "best" "good" [] ["adj"],
      wholeWord "worst" "bad" [] ["adj"]],
    transform "adverb" [
      suffix "ly" "" [] ["adj"],
      suffix "ily" "y" [] ["adj"],
      suffix "ly" "le" [] ["adj"]],
    transform "interposed object" [
      interposedObject [] ["v_phr"]]]

end Lexicon.Rules
