import Stencil.Template.Attribute

/-! # Template tokens

A template is a list of tokens in which indentation is explicit: a level is opened by `indent` and
closed by `outdent`, and lines of one level are divided by `newline`. -/

namespace Stencil.Template

inductive Position where
  | before
  | replace
  | after
  deriving DecidableEq, Repr

inductive TokenKind where
  | doctype (value : String)
  | tag (name : String) (selfClosing inline : Bool)
  | className (name : String)
  | attrs (attrs : List Attribute) (selfClosing : Bool)
  | text (text : String)
  | comment (text : String) (buffered : Bool)
  | block (name : String)
  | extension (reference : String) (options : List Attribute)
  | inclusion (reference : String) (options : List Attribute)
  | replace (position : Position) (block : String)
  | caseOf (expr : String)
  | when (expr : String)
  | default
  | each (value : String) (key : Option String) (expr : String)
  | whileTrue (expr : String)
  | ifTrue (expr : String)
  | unlessTrue (expr : String)
  | elseIf (expr : String)
  | otherwise
  | indent (width : Nat)
  | outdent
  | newline
  | eos
  deriving DecidableEq, Repr

def TokenKind.name : TokenKind → String
  | .doctype _ => "doctype"
  | .tag _ _ _ => "tag"
  | .className _ => "class"
  | .attrs _ _ => "attrs"
  | .text _ => "text"
  | .comment _ _ => "comment"
  | .block _ => "block"
  | .extension _ _ => "extends"
  | .inclusion _ _ => "include"
  | .replace _ _ => "replace"
  | .caseOf _ => "case"
  | .when _ => "when"
  | .default => "default"
  | .each _ _ _ => "each"
  | .whileTrue _ => "while"
  | .ifTrue _ => "if"
  | .unlessTrue _ => "unless"
  | .elseIf _ => "elseif"
  | .otherwise => "else"
  | .indent _ => "indent"
  | .outdent => "outdent"
  | .newline => "newline"
  | .eos => "eos"

structure Token where
  kind : TokenKind
  line : Nat
  span : Span
  deriving DecidableEq, Repr

end Stencil.Template
