import Stencil.Value.Coerce

/-! # Values in markup

How a value is written between tags and inside them, so that data never reads as markup. -/

namespace Stencil

inductive Format where
  | escape
  /-- As it is. -/
  | raw
  /-- As class names, escaped. -/
  | classList
  deriving DecidableEq, Repr

namespace Html

def encodeChar (c : Char) : List Char :=
  if c == '&' then ['&', 'a', 'm', 'p', ';']
  else if c == '<' then ['&', 'l', 't', ';']
  else if c == '>' then ['&', 'g', 't', ';']
  else if c == '"' then ['&', 'q', 'u', 'o', 't', ';']
  else [c]

def encodeChars (cs : List Char) : List Char :=
  cs.flatMap encodeChar

def encode (s : String) : String :=
  String.ofList (encodeChars s.toList)

def format (v : Value) : Format → String
  | .escape => encode v.display
  | .raw => v.display
  | .classList => encode v.classList

/-- A piece of rendered text: written by the template itself, or computed from data. -/
inductive Piece where
  | markup (text : String)
  | data (text : String)
  deriving DecidableEq, Repr

def Piece.text : Piece → String
  | .markup s => s
  | .data s => s

def join (ps : List Piece) : String :=
  String.join (ps.map Piece.text)

/-- A computed attribute: a true one is its name alone, and a false or missing one is left out. -/
def attr (name : String) (v : Value) (escape : Bool) : List Piece :=
  match v with
  | .bool true => [.markup (" " ++ name)]
  | .bool false => []
  | .null => []
  | v =>
    [.markup (" " ++ name ++ "=\""), .data (if escape then encode v.display else v.display),
      .markup "\""]

end Html

end Stencil
