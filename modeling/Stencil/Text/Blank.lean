/-! # Blank characters

Blanks are the characters with the Unicode property `White_Space`; trimming and splitting into words
go by them. -/

namespace Stencil.Text

def isBlank (c : Char) : Bool :=
  let n := c.toNat
  n == 0x20 || (0x9 ≤ n && n ≤ 0xD) || n == 0x85 || n == 0xA0 || n == 0x1680 ||
    (0x2000 ≤ n && n ≤ 0x200A) || n == 0x2028 || n == 0x2029 || n == 0x202F || n == 0x205F ||
    n == 0x3000

def trimStart (cs : List Char) : List Char :=
  cs.dropWhile isBlank

def dropTail (p : Char → Bool) : List Char → List Char
  | [] => []
  | c :: cs => match dropTail p cs with
    | [] => if p c then [] else [c]
    | ds => c :: ds

def trimEnd (cs : List Char) : List Char :=
  dropTail isBlank cs

def trim (cs : List Char) : List Char :=
  trimEnd (trimStart cs)

def allBlank (cs : List Char) : Bool :=
  cs.all isBlank

def firstWord (cs : List Char) : List Char :=
  (trimStart cs).takeWhile fun c => !isBlank c

def isIndent (c : Char) : Bool :=
  c == ' ' || c == '\t'

end Stencil.Text
