import PlcScan.Text.Basic
import PlcScan.Text.Printable
import PlcScan.Text.DecimalDigit
import PlcScan.Text.Quoted
import PlcScan.Text.Newline
import PlcScan.Text.Utf8
import PlcScan.CharClass
import PlcScan.Options
import PlcScan.Pattern
import PlcScan.Escape
import PlcScan.Decimal
import PlcScan.Token.Basic
import PlcScan.Token.Value
import PlcScan.Location
import PlcScan.Diagnostic
import PlcScan.Fault
import PlcScan.Rule
import PlcScan.Scan
import PlcScan.Cursor
import PlcScan.Session
import PlcScan.SourceFile
import PlcScan.CommandLine.Arguments
import PlcScan.CommandLine.Run
import PlcScan.Main
import PlcScan.Proofs.Grammar
import PlcScan.Proofs.Lookahead
import PlcScan.Proofs.RuleAcceptance
import PlcScan.Proofs.LongestLexeme
import PlcScan.Proofs.Diagnosis
import PlcScan.Proofs.ScanTree
import PlcScan.Proofs.MaximalMunch
import PlcScan.Proofs.FaultCases
import PlcScan.Proofs.Continuation
import PlcScan.Proofs.Pieces
import PlcScan.Proofs.Layout
import PlcScan.Proofs.Boundary
import PlcScan.Proofs.Partition
import PlcScan.Proofs.Encoding
import PlcScan.Proofs.Progress
import PlcScan.Proofs.LookaheadBound
import PlcScan.Proofs.LineColumns
import PlcScan.Proofs.Lines
import PlcScan.Proofs.Numerals
import PlcScan.Proofs.DecimalNotation
import PlcScan.Proofs.TokenValues
import PlcScan.Proofs.LineEndings
import PlcScan.Proofs.CommandWords
import PlcScan.Proofs.InputChannels
import PlcScan.Proofs.OptionEffects
import PlcScan.Proofs.Sessions
import PlcScan.Proofs.QuotedTexts
import PlcScan.Proofs.StandardOutput
import PlcScan.Proofs.Utf8Faults
import PlcScan.Proofs.SourceBytes
import PlcScan.Proofs.LineOrder
import PlcScan.Proofs.FreshScans
import PlcScan.Proofs.PendingText
import PlcScan.Proofs.WrittenForms
import PlcScan.Proofs.DecimalValues
import PlcScan.Proofs.EscapeUnits
import PlcScan.Proofs.FaultMessages
import PlcScan.Proofs.FlagSpellings
import PlcScan.Proofs.VerboseRuns
import PlcScan.Proofs.PatternLists
