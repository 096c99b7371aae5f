import Lexicon.Table
import Lexicon.Text.Quoted
import Lexicon.Text.LetterCase
import Lexicon.Text.Digits
import Lexicon.Json.Reader
import Lexicon.Json.Printer
import Lexicon.Json.Display
import Lexicon.Script.Arabic
import Lexicon.Script.Kana
import Lexicon.Script.Hangul
import Lexicon.Deinflection.Phrasal
import Lexicon.Deinflection.RuleSet
import Lexicon.Deinflection.Document
import Lexicon.Language.Deinflection
import Lexicon.Dictionary.Search
import Lexicon.Dictionary.Store
import Lexicon.Dictionary.Grouping
import Lexicon.Files.Basic
import Lexicon.Log
import Lexicon.Ini.Reader
import Lexicon.Registry.Document
import Lexicon.Registry.Edit
import Lexicon.Registry.History
import Lexicon.Settings.Document
import Lexicon.Lock.Script
import Lexicon.Lock.Threads
import Lexicon.Command.Request
import Lexicon.Command.Run
import Lexicon.Main
import Lexicon.Proofs.Deinflection.Arena
import Lexicon.Proofs.Deinflection.Chain
import Lexicon.Proofs.Deinflection.Listing
import Lexicon.Proofs.Deinflection.LoopGuard
import Lexicon.Proofs.Deinflection.Size
import Lexicon.Proofs.Deinflection.Termination
import Lexicon.Proofs.Deinflection.Descriptor
import Lexicon.Proofs.Deinflection.Document
import Lexicon.Proofs.Deinflection.ValueForm
import Lexicon.Proofs.Language.Shipped
import Lexicon.Proofs.Dictionary.Ranking
import Lexicon.Proofs.Dictionary.Collection
import Lexicon.Proofs.Dictionary.Search
import Lexicon.Proofs.Script.Hangul
import Lexicon.Proofs.Deinflection.Condition
import Lexicon.Proofs.Text.Basic
import Lexicon.Proofs.Text.Digits
import Lexicon.Proofs.Json.Number
import Lexicon.Proofs.Json.Basic
import Lexicon.Proofs.Json.RoundTrip
import Lexicon.Proofs.Json.Same
import Lexicon.Proofs.Dictionary.Record
import Lexicon.Proofs.Ini.Value
import Lexicon.Proofs.Ini.Reader
import Lexicon.Proofs.Ini.RoundTrip
import Lexicon.Proofs.Ini.Reference
import Lexicon.Proofs.Files.Basic
import Lexicon.Proofs.Registry.Basic
import Lexicon.Proofs.Registry.Document
import Lexicon.Proofs.Registry.Names
import Lexicon.Proofs.Settings.Document
import Lexicon.Proofs.Settings.Save
import Lexicon.Proofs.Dictionary.Visibility
import Lexicon.Proofs.Dictionary.Grouping
import Lexicon.Proofs.Registry.Edit
import Lexicon.Proofs.Command.Session
import Lexicon.Proofs.Deinflection.Comparison
import Lexicon.Proofs.Language.TypedJamo
import Lexicon.Proofs.Deinflection.DeclarationOrder
import Lexicon.Proofs.Dictionary.Faults
import Lexicon.Proofs.Dictionary.Store
import Lexicon.Proofs.Dictionary.Usable
import Lexicon.Proofs.Deinflection.Fault
import Lexicon.Proofs.Deinflection.TextFields
import Lexicon.Proofs.Command.Malformed
import Lexicon.Proofs.Settings.Reload
import Lexicon.Proofs.Lock.Threads
import Lexicon.Proofs.Lock.Exclusion
import Lexicon.Proofs.Language.FirstWord
import Lexicon.Proofs.Deinflection.Inflection
import Lexicon.Proofs.Dictionary.Definitions
import Lexicon.Proofs.Registry.Priority
import Lexicon.Proofs.Dictionary.Spelling
import Lexicon.Proofs.Dictionary.Window
import Lexicon.Proofs.Script.Composition
import Lexicon.Proofs.Json.Alike
import Lexicon.Proofs.Dictionary.MatchLength
import Lexicon.Proofs.Registry.Newcomer
import Lexicon.Proofs.Text.CharIndex
import Lexicon.Proofs.Dictionary.Furigana
import Lexicon.Proofs.Registry.Reorder
import Lexicon.Proofs.Registry.Commute
import Lexicon.Proofs.Deinflection.Prepending
import Lexicon.Proofs.Language.Variants
import Lexicon.Proofs.Dictionary.Ideographs
import Lexicon.Proofs.Deinflection.FirstDefect
