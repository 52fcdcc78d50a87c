import ScriptUpgrade.Catalogue.Basic
import ScriptUpgrade.Catalogue.Builtin
import ScriptUpgrade.Command.Basic
import ScriptUpgrade.Command.Render
import ScriptUpgrade.CommandLine.Grammar
import ScriptUpgrade.CommandLine.Request
import ScriptUpgrade.Digest.Basic
import ScriptUpgrade.Digest.Compression
import ScriptUpgrade.Failure
import ScriptUpgrade.Files.Expand
import ScriptUpgrade.Files.History
import ScriptUpgrade.Files.Path
import ScriptUpgrade.Files.Pattern
import ScriptUpgrade.Files.Source
import ScriptUpgrade.Files.Tree
import ScriptUpgrade.Impact
import ScriptUpgrade.Json.Basic
import ScriptUpgrade.Json.Report
import ScriptUpgrade.Main
import ScriptUpgrade.Migration.Fragment
import ScriptUpgrade.Migration.Line
import ScriptUpgrade.Migration.Origin
import ScriptUpgrade.Migration.Pattern
import ScriptUpgrade.Migration.Rule
import ScriptUpgrade.Program.Perform
import ScriptUpgrade.Program.Reply
import ScriptUpgrade.Program.Run
import ScriptUpgrade.Proofs.CommandPosition
import ScriptUpgrade.Proofs.Idempotence
import ScriptUpgrade.Proofs.Layers
import ScriptUpgrade.Proofs.OptionShape
import ScriptUpgrade.Proofs.PlainPattern
import ScriptUpgrade.Proofs.PlainToken
import ScriptUpgrade.Proofs.Reach
import ScriptUpgrade.Proofs.Replacement
import ScriptUpgrade.Proofs.Rescan
import ScriptUpgrade.Proofs.RewrittenLine
import ScriptUpgrade.Proofs.SettledBody
import ScriptUpgrade.Proofs.Settling
import ScriptUpgrade.Script.Line
import ScriptUpgrade.Script.Report
import ScriptUpgrade.Shell.Call
import ScriptUpgrade.Shell.Quote
import ScriptUpgrade.Shell.Token
import ScriptUpgrade.Suggestion
import ScriptUpgrade.Text.Basic
import ScriptUpgrade.Text.Blank
import ScriptUpgrade.Text.Case
import ScriptUpgrade.Text.CaseRanges
import ScriptUpgrade.Text.Sorted
import ScriptUpgrade.Text.Span
import ScriptUpgrade.Text.Utf8
import ScriptUpgrade.Text.Word
import ScriptUpgrade.Text.WordRanges
import ScriptUpgrade.Verdict
import ScriptUpgrade.Proofs.Overlay
import ScriptUpgrade.Proofs.Standing
import ScriptUpgrade.Proofs.Selection
import ScriptUpgrade.Proofs.SelectorLine
import ScriptUpgrade.Proofs.Tracking
import ScriptUpgrade.Proofs.FaithfulDiff
import ScriptUpgrade.Proofs.Acceptance
import ScriptUpgrade.Proofs.AcceptedRewrite
import ScriptUpgrade.Proofs.ValidLine
import ScriptUpgrade.Proofs.CallCount
import ScriptUpgrade.Proofs.LineBreaks
import ScriptUpgrade.Proofs.VisibleChange
import ScriptUpgrade.Proofs.ConvertedCheck
import ScriptUpgrade.Proofs.MainCommand
import ScriptUpgrade.Proofs.PathWalk
import ScriptUpgrade.Proofs.ScriptLines
import ScriptUpgrade.Proofs.GuardedWrite
import ScriptUpgrade.Proofs.LostUpdate
import ScriptUpgrade.Proofs.CleanFailure
import ScriptUpgrade.Proofs.NamedFiles
import ScriptUpgrade.Proofs.ScriptParts
import ScriptUpgrade.Proofs.AllOrNothing
import ScriptUpgrade.Proofs.QuotedSpans
import ScriptUpgrade.Proofs.CallPlaces
import ScriptUpgrade.Proofs.QuotedText
import ScriptUpgrade.Proofs.CanonicalForm
import ScriptUpgrade.Proofs.Membership
import ScriptUpgrade.Proofs.MigratedOptions
import ScriptUpgrade.Proofs.EditDistance
import ScriptUpgrade.Proofs.Ranking
import ScriptUpgrade.Proofs.LowerCase
import ScriptUpgrade.Proofs.NearestName
import ScriptUpgrade.Proofs.ImpactParts
import ScriptUpgrade.Proofs.CallResources
import ScriptUpgrade.Proofs.TrailingComment
import ScriptUpgrade.Proofs.Pipeline
import ScriptUpgrade.Proofs.Retirement
import ScriptUpgrade.Proofs.RecordedRegions
import ScriptUpgrade.Proofs.Substitution
import ScriptUpgrade.Proofs.UntouchedText
