import Stencil.Number.Layout
import Stencil.Text.Hex
import Stencil.Value.Order

/-! # Writing JSON

Without blanks. A text is escaped only where JSON requires it. -/

namespace Stencil.Json

def shortEscape? (c : Char) : Option (List Char) :=
  if c == '"' then some ['\\', '"']
  else if c == '\\' then some ['\\', '\\']
  else if c.toNat == 0x08 then some ['\\', 'b']
  else if c.toNat == 0x0C then some ['\\', 'f']
  else if c == '\n' then some ['\\', 'n']
  else if c == '\r' then some ['\\', 'r']
  else if c == '\t' then some ['\\', 't']
  else none

def unitEscape (c : Char) : List Char :=
  '\\' :: 'u' :: Text.hexDigits 4 c.toNat

def escapeChar (c : Char) : List Char :=
  match shortEscape? c with
  | some cs => cs
  | none => if c.toNat < 0x20 then unitEscape c else [c]

def quoteChars (s : List Char) : List Char :=
  '"' :: (s.flatMap escapeChar ++ ['"'])

def quote (s : String) : String :=
  String.ofList (quoteChars s.toList)

def numText : Num → String
  | .int n => toString n
  | .float x => dataText x

mutual
def write : Value → String
  | .null => "null"
  | .bool b => if b then "true" else "false"
  | .num n => numText n
  | .str s => quote s
  | .arr items => "[" ++ String.intercalate "," (writeItems items) ++ "]"
  | .obj fields => "\x7b" ++ String.intercalate "," (writeFields fields) ++ "\x7d"
def writeItems : List Value → List String
  | [] => []
  | v :: vs => write v :: writeItems vs
def writeFields : List (String × Value) → List String
  | [] => []
  | (k, v) :: fs => (quote k ++ ":" ++ write v) :: writeFields fs
end

end Stencil.Json
