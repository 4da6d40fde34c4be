import Stencil.Client.Function
import Stencil.Client.Literal
import Stencil.Client.Support
import Stencil.Compile.Module
import Stencil.Compile.Node
import Stencil.Diagnostic
import Stencil.Expr.Basic
import Stencil.Expr.Eval
import Stencil.Expr.Free
import Stencil.Expr.Lexer
import Stencil.Expr.Method
import Stencil.Expr.Parser
import Stencil.Expr.Token
import Stencil.Files
import Stencil.Html
import Stencil.Json.Read
import Stencil.Json.Write
import Stencil.Number.Binary
import Stencil.Number.Layout
import Stencil.Number.Read
import Stencil.Number.Shortest
import Stencil.Options
import Stencil.Path
import Stencil.Program.Basic
import Stencil.Program.Free
import Stencil.Proofs.Alike
import Stencil.Proofs.Client.Brackets
import Stencil.Proofs.Client.Forms
import Stencil.Proofs.Client.Literal
import Stencil.Proofs.Client.Operator
import Stencil.Proofs.Client.Parameters
import Stencil.Proofs.Client.Texts
import Stencil.Proofs.Compile.Blame
import Stencil.Proofs.Compile.Blocks
import Stencil.Proofs.Compile.Chain
import Stencil.Proofs.Compile.Coalesced
import Stencil.Proofs.Compile.Emitted
import Stencil.Proofs.Compile.Fault
import Stencil.Proofs.Compile.Invert
import Stencil.Proofs.Compile.Layout
import Stencil.Proofs.Compile.Literal
import Stencil.Proofs.Compile.Markup
import Stencil.Proofs.Compile.Meaning
import Stencil.Proofs.Compile.Neutral
import Stencil.Proofs.Compile.Parallel
import Stencil.Proofs.Compile.Placed
import Stencil.Proofs.Compile.Preserve
import Stencil.Proofs.Compile.Quoted
import Stencil.Proofs.Compile.Recorded
import Stencil.Proofs.Compile.Relaid
import Stencil.Proofs.Compile.Written
import Stencil.Proofs.Expr.Agree
import Stencil.Proofs.Expr.Cache
import Stencil.Proofs.Expr.Denoted
import Stencil.Proofs.Expr.Enclosed
import Stencil.Proofs.Expr.Legible
import Stencil.Proofs.Expr.Lexeme
import Stencil.Proofs.Expr.Member
import Stencil.Proofs.Expr.Name
import Stencil.Proofs.Expr.Negated
import Stencil.Proofs.Expr.NumericKey
import Stencil.Proofs.Expr.Occurrence
import Stencil.Proofs.Expr.Print
import Stencil.Proofs.Expr.Reparse
import Stencil.Proofs.Expr.Representation
import Stencil.Proofs.Expr.Shape
import Stencil.Proofs.Expr.Slice
import Stencil.Proofs.Expr.Spanned
import Stencil.Proofs.Expr.Within
import Stencil.Proofs.Files
import Stencil.Proofs.Files.Runs
import Stencil.Proofs.Html
import Stencil.Proofs.Number.Digits
import Stencil.Proofs.Number.Double
import Stencil.Proofs.Number.Integer
import Stencil.Proofs.Number.Leading
import Stencil.Proofs.Number.Numeral
import Stencil.Proofs.Number.Positional
import Stencil.Proofs.Number.Printed
import Stencil.Proofs.Number.Sum
import Stencil.Proofs.Number.Unsigned
import Stencil.Proofs.Number.Whole
import Stencil.Proofs.Path
import Stencil.Proofs.Program.Free
import Stencil.Proofs.Program.Occurrence
import Stencil.Proofs.Program.Own
import Stencil.Proofs.Program.Sites
import Stencil.Proofs.Reference
import Stencil.Proofs.Render.Binding
import Stencil.Proofs.Render.Calls
import Stencil.Proofs.Render.Escape
import Stencil.Proofs.Render.Executed
import Stencil.Proofs.Render.Limit
import Stencil.Proofs.Render.Machine
import Stencil.Proofs.Render.Page
import Stencil.Proofs.Result
import Stencil.Proofs.Template.Alongside
import Stencil.Proofs.Template.Attribute
import Stencil.Proofs.Template.Balance
import Stencil.Proofs.Template.Bare
import Stencil.Proofs.Template.Below
import Stencil.Proofs.Template.BlockLine
import Stencil.Proofs.Template.Captured
import Stencil.Proofs.Template.Chars
import Stencil.Proofs.Template.Checked
import Stencil.Proofs.Template.Conserved
import Stencil.Proofs.Template.Decoded
import Stencil.Proofs.Template.Directive
import Stencil.Proofs.Template.Interpolated
import Stencil.Proofs.Template.Line
import Stencil.Proofs.Template.Lines
import Stencil.Proofs.Template.Made
import Stencil.Proofs.Template.Nesting
import Stencil.Proofs.Template.Numbered
import Stencil.Proofs.Template.Outline
import Stencil.Proofs.Template.OwnDirective
import Stencil.Proofs.Template.OwnLine
import Stencil.Proofs.Template.Parse
import Stencil.Proofs.Template.Place
import Stencil.Proofs.Template.Print
import Stencil.Proofs.Template.Relaid
import Stencil.Proofs.Template.Roundtrip
import Stencil.Proofs.Template.SelfClosing
import Stencil.Proofs.Template.Stream
import Stencil.Proofs.Template.Tagged
import Stencil.Proofs.Template.Tiled
import Stencil.Proofs.Template.Underlined
import Stencil.Proofs.Template.Vetted
import Stencil.Proofs.Text.Normal
import Stencil.Proofs.Text.Run
import Stencil.Proofs.Value.Equivalent
import Stencil.Proofs.Value.KeyOrder
import Stencil.Proofs.Value.TextKey
import Stencil.Reference
import Stencil.Render.Output
import Stencil.Render.Run
import Stencil.ScopeId
import Stencil.Scopes
import Stencil.Session
import Stencil.Template.Attribute
import Stencil.Template.Directive
import Stencil.Template.Document
import Stencil.Template.Lexer
import Stencil.Template.Lines
import Stencil.Template.Parser
import Stencil.Template.Scan
import Stencil.Template.Segment
import Stencil.Template.TagLine
import Stencil.Template.Tags
import Stencil.Template.Token
import Stencil.Text.Blank
import Stencil.Text.Case
import Stencil.Text.Cursor
import Stencil.Text.Hex
import Stencil.Text.Identifier
import Stencil.Text.LineEnding
import Stencil.Text.Offset
import Stencil.Text.Quoted
import Stencil.Text.Ranges
import Stencil.Text.Similar
import Stencil.Transform
import Stencil.Value.Basic
import Stencil.Value.Coerce
import Stencil.Value.Compare
import Stencil.Value.Lookup
import Stencil.Value.Order
import Stencil.Proofs.Client.Literal
