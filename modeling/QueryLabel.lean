import QueryLabel.Main
import QueryLabel.Proofs.Cache.Bounded
import QueryLabel.Proofs.Cache.History
import QueryLabel.Proofs.Cache.Trace
import QueryLabel.Proofs.Comment
import QueryLabel.Proofs.Lexer.Concatenation
import QueryLabel.Proofs.Lexer.Cursor
import QueryLabel.Proofs.Lexer.Lines
import QueryLabel.Proofs.Literal
import QueryLabel.Proofs.Program.Run
import QueryLabel.Proofs.Settings.Precedence
import QueryLabel.Proofs.Statement.Rejoin
import QueryLabel.Proofs.Statement.Script
import QueryLabel.Proofs.Summary.Origin
import QueryLabel.Proofs.Summary.Renaming
import QueryLabel.Proofs.Lexeme.Word
import QueryLabel.Proofs.Lexer.Quoted
import QueryLabel.Proofs.Summary.Alias
import QueryLabel.Proofs.Summary.Lookahead
import QueryLabel.Proofs.Summary.Collections
import QueryLabel.Proofs.Cache.Room
import QueryLabel.Proofs.Summarizer.Memory
import QueryLabel.Proofs.Settings.Override
import QueryLabel.Proofs.Report.Json
import QueryLabel.Proofs.Report.Text
import QueryLabel.Proofs.Report.Style
