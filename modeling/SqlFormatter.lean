import SqlFormatter.Main
import SqlFormatter.Statement.Range
import SqlFormatter.Proofs.Grammar.Parser
import SqlFormatter.Proofs.Layout.RoundTrip
import SqlFormatter.Proofs.Layout.Confluence
import SqlFormatter.Proofs.Layout.Respelling
import SqlFormatter.Proofs.Layout.CarriageReturn
import SqlFormatter.Proofs.Layout.NullTests
import SqlFormatter.Proofs.Text.Utf8
import SqlFormatter.Proofs.Token.Lossless
import SqlFormatter.Proofs.Token.OnePerLine
import SqlFormatter.Proofs.Token.Deadline
import SqlFormatter.Proofs.Token.Lexes
import SqlFormatter.Proofs.Token.Onward
import SqlFormatter.Proofs.Grammar.Earliest
import SqlFormatter.Proofs.Grammar.Findings
import SqlFormatter.Proofs.Grammar.Refusal.Construct
import SqlFormatter.Proofs.Grammar.Refusal.Expression
import SqlFormatter.Proofs.Grammar.Refusal.Statement
import SqlFormatter.Proofs.Grammar.Comments
import SqlFormatter.Proofs.Grammar.Progress
import SqlFormatter.Proofs.Source.Registry
import SqlFormatter.Proofs.Source.Registration
import SqlFormatter.Proofs.Grammar.Session
import SqlFormatter.Proofs.Statement.Node
import SqlFormatter.Proofs.Statement.Outline
import SqlFormatter.Proofs.Grammar.Ranges
import SqlFormatter.Proofs.Grammar.Moved
import SqlFormatter.Proofs.Grammar.Relocation
import SqlFormatter.Proofs.Grammar.Rebased
import SqlFormatter.Proofs.Grammar.Excerpt
import SqlFormatter.Proofs.Checked.Parser
import SqlFormatter.Proofs.Grammar.Calls
import SqlFormatter.Proofs.Batch.Attempt
import SqlFormatter.Proofs.Batch.Worker
import SqlFormatter.Proofs.Batch.Work
import SqlFormatter.Proofs.Batch.Turns
import SqlFormatter.Proofs.Batch.Independence
import SqlFormatter.Proofs.Grammar.Deadline
import SqlFormatter.Proofs.Token.Insertion
import SqlFormatter.Proofs.Token.Minus
import SqlFormatter.Proofs.Grammar.Minus
import SqlFormatter.Proofs.Layout.Writer
import SqlFormatter.Proofs.Token.Number
import SqlFormatter.Proofs.Checked.Reports
import SqlFormatter.Proofs.Source.Location
import SqlFormatter.Proofs.Token.LineTable
import SqlFormatter.Proofs.Grammar.Height
