/-! # Diagnostics

What went wrong in a template, where, and in which file. A diagnostic holds its cause; its code and
its wording follow from that. -/

namespace Stencil

/-- The bytes from `start` up to `stop`. Offsets have no greatest value here. They stand for 32
bits, so what is said of spans is meant for sources of less than four gigabytes. -/
structure Span where
  start : Nat
  stop : Nat
  deriving DecidableEq, Repr

def Span.join (a b : Span) : Span :=
  ⟨min a.start b.start, max a.stop b.stop⟩

inductive ErrorCode where
  | invalidIndentation
  | inconsistentIndentation
  | bracketMismatch
  | unterminatedString
  | incorrectNesting
  | invalidKeyCharacter
  | missingModuleReference
  | invalidBlockName
  | unexpectedText
  | syntaxError
  | invalidToken
  | missingBlock
  | duplicateBlock
  | moduleNotFound
  | invalidModuleReference
  | circularInheritance
  deriving DecidableEq, Repr

def ErrorCode.name : ErrorCode → String
  | .invalidIndentation => "INVALID_INDENTATION"
  | .inconsistentIndentation => "INCONSISTENT_INDENTATION"
  | .bracketMismatch => "BRACKET_MISMATCH"
  | .unterminatedString => "UNTERMINATED_STRING"
  | .incorrectNesting => "INCORRECT_NESTING"
  | .invalidKeyCharacter => "INVALID_KEY_CHARACTER"
  | .missingModuleReference => "MISSING_MODULE_REFERENCE"
  | .invalidBlockName => "INVALID_BLOCK_NAME"
  | .unexpectedText => "UNEXPECTED_TEXT"
  | .syntaxError => "SYNTAX_ERROR"
  | .invalidToken => "INVALID_TOKEN"
  | .missingBlock => "MISSING_BLOCK"
  | .duplicateBlock => "DUPLICATE_BLOCK"
  | .moduleNotFound => "MODULE_NOT_FOUND"
  | .invalidModuleReference => "INVALID_MODULE_REFERENCE"
  | .circularInheritance => "CIRCULAR_INHERITANCE"

inductive Cause where
  /-- Tabs and spaces both indent. -/
  | mixedIndentation
  /-- A line closes some levels and lands between two others. -/
  | unevenIndentation (found level : Nat)
  | unclosedBracket (bracket : Char)
  | unclosedString
  | wrongBracket (text : String)
  /-- An attribute name is followed by `!` without `=`. -/
  | missingEquals (found : Char)
  | missingAttributeName (found : Char)
  | missingReference (directive : String)
  | badBlockName (name : String)
  | strayText (text : String)
  /-- A text in a template that should be an expression and is none. -/
  | badExpression (text reason : String)
  /-- An expression on its own that cannot be read. -/
  | badSyntax (reason : String)
  | strayToken (found expected : String)
  | repeatedBlock (name : String)
  | noSuchBlock (name file : String) (similar : Option String)
  | noSuchModule (reference path : String)
  | unreadableFile (path : String)
  | badReference (reference : String)
  | cycle (files : List String)
  deriving DecidableEq, Repr

def Cause.code : Cause → ErrorCode
  | .mixedIndentation => .invalidIndentation
  | .unevenIndentation _ _ => .inconsistentIndentation
  | .unclosedBracket _ => .bracketMismatch
  | .unclosedString => .unterminatedString
  | .wrongBracket _ => .incorrectNesting
  | .missingEquals _ => .invalidKeyCharacter
  | .missingAttributeName _ => .invalidKeyCharacter
  | .missingReference _ => .missingModuleReference
  | .badBlockName _ => .invalidBlockName
  | .strayText _ => .unexpectedText
  | .badExpression _ _ => .syntaxError
  | .badSyntax _ => .syntaxError
  | .strayToken _ _ => .invalidToken
  | .repeatedBlock _ => .duplicateBlock
  | .noSuchBlock _ _ _ => .missingBlock
  | .noSuchModule _ _ => .moduleNotFound
  | .unreadableFile _ => .moduleNotFound
  | .badReference _ => .invalidModuleReference
  | .cycle _ => .circularInheritance

def backquoted (s : String) : String :=
  "`" ++ s ++ "`"

def Cause.message : Cause → String
  | .mixedIndentation => "Invalid indentation, you can use tabs or spaces but not both"
  | .unevenIndentation found level =>
    "Inconsistent indentation. Expecting either " ++ toString level ++ " or fewer, but got " ++
      toString found
  | .unclosedBracket c =>
    "The end of the string was reached with no closing bracket for " ++ backquoted c.toString
  | .unclosedString => "The end of the string was reached inside a quoted string"
  | .wrongBracket text => "Nesting must match on expression " ++ backquoted text
  | .missingEquals c => "Unexpected character " ++ backquoted c.toString ++ " expected `=`"
  | .missingAttributeName c =>
    "Unexpected character " ++ backquoted c.toString ++ " expected an attribute name"
  | .missingReference d => "Missing module reference for " ++ backquoted d
  | .badBlockName name => "Invalid block name " ++ backquoted name
  | .strayText text => "Unexpected text " ++ backquoted text
  | .badExpression text reason => "Syntax Error in " ++ backquoted text ++ ": " ++ reason
  | .badSyntax reason => reason
  | .strayToken found "" => "Unexpected token " ++ backquoted found
  | .strayToken found expected =>
    "Unexpected token " ++ backquoted found ++ ", expected " ++ expected
  | .repeatedBlock name => "Block \"" ++ name ++ "\" is declared more than once"
  | .noSuchBlock name file similar =>
    "There is no block \"" ++ name ++ "\" in " ++ file ++
      match similar with
      | some s => ", did you mean \"" ++ s ++ "\"?"
      | none => ""
  | .noSuchModule reference path => "Module " ++ backquoted reference ++ " not found at " ++ path
  | .unreadableFile path => "Unable to read " ++ path ++ ": No such file or directory (os error 2)"
  | .badReference reference => "Invalid module reference " ++ backquoted reference
  | .cycle files => "Circular inheritance: " ++ String.intercalate " -> " files

inductive LabelStyle where
  | primary
  | secondary
  deriving DecidableEq, Repr

/-- A remark on a span, of the numbered file once it is known which. -/
structure Label where
  style : LabelStyle
  span : Span
  message : String
  file : Option Nat
  deriving DecidableEq, Repr

def Label.primary (span : Span) (message : String) : Label :=
  ⟨.primary, span, message, none⟩

def Label.secondary (span : Span) (message : String) : Label :=
  ⟨.secondary, span, message, none⟩

structure Diagnostic where
  cause : Cause
  labels : List Label
  line : Option Nat
  filename : Option String
  deriving DecidableEq, Repr

abbrev Result (α : Type) := Except Diagnostic α

namespace Diagnostic

def atSpan (cause : Cause) (span : Span) (line : Nat) : Diagnostic :=
  ⟨cause, [.primary span cause.message], some line, none⟩

def onLine (cause : Cause) (line : Nat) : Diagnostic :=
  ⟨cause, [], some line, none⟩

def plain (cause : Cause) : Diagnostic :=
  ⟨cause, [], none, none⟩

def withLine (d : Diagnostic) (line : Nat) : Diagnostic :=
  { d with line := some line }

def forFile (d : Diagnostic) (file : Nat) : Diagnostic :=
  { d with labels := d.labels.map fun l => { l with file := l.file.or (some file) } }

/-- Name the file, unless one is named already: the innermost file is the one at fault. -/
def inFile (d : Diagnostic) (filename : Option String) : Diagnostic :=
  { d with filename := d.filename.or filename }

def text (d : Diagnostic) : String :=
  d.cause.message ++
    (match d.line with
      | some n => " on line " ++ toString n
      | none => "") ++
    " of " ++ d.filename.getD "template"

end Diagnostic

end Stencil
