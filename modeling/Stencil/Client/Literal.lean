import Stencil.Json.Write

/-! # String literals of the client language

JSON texts, except that the two line separators JSON leaves alone are escaped too, because they may
not stand in a string literal everywhere. -/

namespace Stencil.Client

def isSeparator (c : Char) : Bool :=
  c.toNat == 0x2028 || c.toNat == 0x2029

def escapeChar (c : Char) : List Char :=
  if isSeparator c then Json.unitEscape c else Json.escapeChar c

def literalChars (s : List Char) : List Char :=
  '"' :: (s.flatMap escapeChar ++ ['"'])

def literal (s : String) : String :=
  String.ofList (literalChars s.toList)

end Stencil.Client
