import ProcessLint.Command.Execute
import ProcessLint.Command.Init
import ProcessLint.Command.Invocation
import ProcessLint.Command.Rules
import ProcessLint.Dictionary.Basic
import ProcessLint.Dictionary.Source
import ProcessLint.Document.Basic
import ProcessLint.Document.Encoding
import ProcessLint.Document.Event
import ProcessLint.Document.Rendering
import ProcessLint.Files.Discovery
import ProcessLint.Files.Exclusion
import ProcessLint.Files.IgnoreFile
import ProcessLint.Files.IgnorePattern
import ProcessLint.Files.Path
import ProcessLint.Files.Tree
import ProcessLint.Finding
import ProcessLint.Heuristic.Banking
import ProcessLint.Heuristic.Preset
import ProcessLint.Heuristic.Scan
import ProcessLint.Identifier
import ProcessLint.Json.Basic
import ProcessLint.Json.Read
import ProcessLint.Json.Record
import ProcessLint.Json.Token
import ProcessLint.Json.Write
import ProcessLint.Keyword
import ProcessLint.Main
import ProcessLint.Number.Binary64
import ProcessLint.Number.Numeral
import ProcessLint.Proofs.Composition
import ProcessLint.Proofs.Declarations
import ProcessLint.Proofs.DeclaredErrors
import ProcessLint.Proofs.EnumRecords
import ProcessLint.Proofs.EventRules
import ProcessLint.Proofs.Extension
import ProcessLint.Proofs.Filtering
import ProcessLint.Proofs.Loosening
import ProcessLint.Proofs.Merging
import ProcessLint.Proofs.OpenProcesses
import ProcessLint.Proofs.Rearrangement
import ProcessLint.Proofs.Scopes
import ProcessLint.Proofs.Settling
import ProcessLint.Proofs.Traversal
import ProcessLint.Proofs.Verdict
import ProcessLint.Report
import ProcessLint.Rule
import ProcessLint.Run.Basic
import ProcessLint.Run.Check
import ProcessLint.Run.Encoding
import ProcessLint.Run.Output
import ProcessLint.Settings.Basic
import ProcessLint.Settings.Lookup
import ProcessLint.Settings.Reading
import ProcessLint.Severity
import ProcessLint.Text.Alphabetic
import ProcessLint.Text.Blank
import ProcessLint.Text.CaseRun
import ProcessLint.Text.CasedIntervals
import ProcessLint.Text.Fold
import ProcessLint.Text.FoldRuns
import ProcessLint.Text.Hex
import ProcessLint.Text.Interval
import ProcessLint.Text.Lower
import ProcessLint.Text.LowerRuns
import ProcessLint.Text.Mark
import ProcessLint.Text.Number
import ProcessLint.Text.Search
import ProcessLint.Text.Word
import ProcessLint.Toml.Read
import ProcessLint.Toml.Scan
import ProcessLint.Toml.Value
import ProcessLint.Validation.Action
import ProcessLint.Validation.Basic
import ProcessLint.Validation.DataToken
import ProcessLint.Validation.Flag
import ProcessLint.Validation.Memory
import ProcessLint.Validation.Session
import ProcessLint.Proofs.RuleKeys
import ProcessLint.Proofs.JsonText
import ProcessLint.Proofs.Rounding
import ProcessLint.Proofs.Records
import ProcessLint.Proofs.RunText
import ProcessLint.Proofs.DocumentText
import ProcessLint.Proofs.Amending
import ProcessLint.Proofs.Hints
import ProcessLint.Proofs.WordRuns
import ProcessLint.Proofs.DataTokens
import ProcessLint.Proofs.DataPermissions
import ProcessLint.Proofs.EnumDefaults
import ProcessLint.Proofs.EnumProperties
import ProcessLint.Proofs.References
import ProcessLint.Proofs.ActionLines
import ProcessLint.Proofs.MarkedNames
import ProcessLint.Proofs.Folding
import ProcessLint.Proofs.Keywords
import ProcessLint.Proofs.Lowering
import ProcessLint.Proofs.OwnSpelling
import ProcessLint.Proofs.CaseVariants
import ProcessLint.Proofs.Nesting
import ProcessLint.Proofs.ReservedKeywords
import ProcessLint.Proofs.WrittenOut
import ProcessLint.Proofs.FirstActors
import ProcessLint.Proofs.Advice
import ProcessLint.Proofs.LetterCase
import ProcessLint.Proofs.Display
import ProcessLint.Proofs.PathParts
import ProcessLint.Proofs.Places
import ProcessLint.Proofs.Nearest
import ProcessLint.Proofs.Collection
