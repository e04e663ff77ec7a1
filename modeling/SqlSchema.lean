import SqlSchema.Text.Quoted
import SqlSchema.Token
import SqlSchema.Token.Lexer
import SqlSchema.Token.ByteLexer
import SqlSchema.Expr
import SqlSchema.Expr.Printer
import SqlSchema.Expr.Reader
import SqlSchema.Statement
import SqlSchema.Statement.Error
import SqlSchema.Statement.Cursor
import SqlSchema.Statement.Reader
import SqlSchema.Statement.Printer
import SqlSchema.Rename
import SqlSchema.Rename.Columns
import SqlSchema.Text.Escaped
import SqlSchema.Check.Value
import SqlSchema.Check.RoundTrip
import SqlSchema.Check.Engine
import SqlSchema.Generate.Schema
import SqlSchema.Generate.Draw
import SqlSchema.Catalog.Lexeme
import SqlSchema.Catalog.Keyword
import SqlSchema.Catalog.Name
import SqlSchema.Catalog.Term
import SqlSchema.Catalog.Schema
import SqlSchema.Catalog.Parser
import SqlSchema.Catalog.Function
import SqlSchema.Catalog.Resolve
import SqlSchema.Catalog.Reader.Term
import SqlSchema.Catalog.Create.Table
import SqlSchema.Catalog.Create.Index
import SqlSchema.Catalog.Create.FromQuery
import SqlSchema.Catalog.Change
import SqlSchema.Catalog.Reader.Statement
import SqlSchema.Catalog.Batch
import SqlSchema.Catalog.Pragma
import SqlSchema.Catalog.Engine
import SqlSchema.Check.Parity
import SqlSchema.Proofs.Cursor
import SqlSchema.Proofs.TableKey
import SqlSchema.Proofs.Reachable
import SqlSchema.Proofs.ExprGrammar
import SqlSchema.Proofs.ExprPrinting
import SqlSchema.Proofs.ExprLimits
import SqlSchema.Proofs.BalancedRun
import SqlSchema.Proofs.Normalize
import SqlSchema.Proofs.Printable
import SqlSchema.Proofs.TokenText
import SqlSchema.Proofs.RenameCompose
import SqlSchema.Proofs.TableRename
import SqlSchema.Proofs.Progress
import SqlSchema.Proofs.TextPositions
import SqlSchema.Proofs.ByteOffsets
import SqlSchema.Proofs.ByteLexing
import SqlSchema.Proofs.IndexReferences
import SqlSchema.Proofs.ColumnText
import SqlSchema.Proofs.StatementText
import SqlSchema.Proofs.Agreement
import SqlSchema.Proofs.KeyDeclaration
import SqlSchema.Proofs.CaseBlindLexing
import SqlSchema.Proofs.CaseBlindExpr
import SqlSchema.Proofs.CaseBlindReading
import SqlSchema.Proofs.Drawing
import SqlSchema.Proofs.DrawnText
import SqlSchema.Proofs.DrawnTables
import SqlSchema.Proofs.DrawnStatements
