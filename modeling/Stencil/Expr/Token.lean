import Stencil.Diagnostic
import Stencil.Number.Layout
import Stencil.Text.Quoted

/-! # Tokens of the expression language -/

namespace Stencil.Expr

inductive Keyword where
  | true
  | false
  | null
  | undefined
  | typeof
  deriving DecidableEq, Repr

def Keyword.name : Keyword → String
  | .true => "true"
  | .false => "false"
  | .null => "null"
  | .undefined => "undefined"
  | .typeof => "typeof"

def Keyword.ofName? (s : String) : Option Keyword :=
  if s == "true" then some .true
  else if s == "false" then some .false
  else if s == "null" then some .null
  else if s == "undefined" then some .undefined
  else if s == "typeof" then some .typeof
  else none

inductive Sign where
  | plus
  | minus
  | times
  | slash
  | percent
  | bang
  | eq2
  | eq3
  | ne1
  | ne2
  | lt
  | le
  | gt
  | ge
  | and
  | or
  | nullish
  | question
  | questionDot
  | colon
  | dot
  | comma
  | lparen
  | rparen
  | lbracket
  | rbracket
  | lbrace
  | rbrace
  deriving DecidableEq, Repr

def Sign.text : Sign → String
  | .plus => "+"
  | .minus => "-"
  | .times => "*"
  | .slash => "/"
  | .percent => "%"
  | .bang => "!"
  | .eq2 => "=="
  | .eq3 => "==="
  | .ne1 => "!="
  | .ne2 => "!=="
  | .lt => "<"
  | .le => "<="
  | .gt => ">"
  | .ge => ">="
  | .and => "&&"
  | .or => "||"
  | .nullish => "??"
  | .question => "?"
  | .questionDot => "?."
  | .colon => ":"
  | .dot => "."
  | .comma => ","
  | .lparen => "("
  | .rparen => ")"
  | .lbracket => "["
  | .rbracket => "]"
  | .lbrace => "\x7b"
  | .rbrace => "\x7d"

inductive Kind where
  | number (x : Float)
  /-- A quoted text, its escapes undone. -/
  | text (s : String)
  | name (s : String)
  | keyword (k : Keyword)
  | sign (s : Sign)
  | eof

def Kind.shown : Kind → String
  | .number x => plainText x
  | .text s => Text.quoted s
  | .name s => s
  | .keyword k => k.name
  | .sign s => s.text
  | .eof => "end of expression"

structure Token where
  kind : Kind
  span : Span

inductive SyntaxError where
  | badNumber (span : Span)
  | badUnicodeEscape (span : Span)
  | unclosedText (span : Span)
  | assignment (span : Span)
  | unsupportedOperator (c : Char) (span : Span)
  | strayChar (c : Char) (span : Span)
  | expected (want : Sign) (after : Span) (found : Token)
  | noOperand (found : Token)
  | trailing (found : Token)
  | noName (span : Span)
  | badKey (span : Span)

def SyntaxError.message : SyntaxError → String
  | .badNumber _ => "Invalid number"
  | .badUnicodeEscape _ => "Invalid unicode escape"
  | .unclosedText _ => "Unterminated string literal"
  | .assignment _ => "Assignment is not allowed in template expressions"
  | .unsupportedOperator c _ => "Unsupported operator " ++ backquoted c.toString
  | .strayChar c _ => "Unexpected character " ++ backquoted c.toString
  | .expected want _ found =>
    "Expected " ++ backquoted want.text ++ " but found " ++ backquoted found.kind.shown
  | .noOperand found => "Unexpected " ++ backquoted found.kind.shown
  | .trailing found => "Unexpected " ++ backquoted found.kind.shown ++ " after expression"
  | .noName _ => "Unexpected token"
  | .badKey _ => "Invalid object key"

def SyntaxError.labels : SyntaxError → List Label
  | .badNumber s => [.primary s ""]
  | .badUnicodeEscape s => [.primary s ""]
  | .unclosedText s => [.primary s ""]
  | .assignment s => [.primary s ""]
  | .unsupportedOperator _ s => [.primary s ""]
  | .strayChar _ s => [.primary s ""]
  | .expected want after found =>
    [.primary after ("Expected " ++ want.text ++ " after this token"),
      .secondary found.span "But we found this instead"]
  | .noOperand found => [.primary found.span "We expected an expression here"]
  | .trailing found => [.primary found.span "Expected the expression to end here"]
  | .noName s => [.primary s "Expected an identifier"]
  | .badKey s => [.primary s "Expected an identifier or string"]

def SyntaxError.diagnostic (e : SyntaxError) : Diagnostic :=
  ⟨.badSyntax e.message, e.labels, none, none⟩

end Stencil.Expr
