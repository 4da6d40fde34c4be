/-! # Line endings

A source is stored without a leading byte order mark and with line feeds as its only line ends. -/

namespace Stencil.Text

def byteOrderMark : Char := Char.ofNat 0xFEFF

def dropByteOrderMark : List Char → List Char
  | c :: cs => if c == byteOrderMark then cs else c :: cs
  | [] => []

def lineFeeds : List Char → List Char
  | '\r' :: '\n' :: cs => '\n' :: lineFeeds cs
  | '\r' :: cs => '\n' :: lineFeeds cs
  | c :: cs => c :: lineFeeds cs
  | [] => []

def normalizeChars (cs : List Char) : List Char :=
  lineFeeds (dropByteOrderMark cs)

def normalize (s : String) : String :=
  String.ofList (normalizeChars s.toList)

end Stencil.Text
