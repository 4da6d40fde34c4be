import Stencil.Number.Read
import Stencil.Text.Hex
import Stencil.Value.Basic

/-! # Reading JSON

A document is first read as a tree that keeps every field, repeated ones included, and that marks
texts and numbers that are well written but denote nothing: a text with half of a surrogate pair, a
number beyond the largest double. A tree without such marks is a value. -/

namespace Stencil.Json

inductive Tree where
  | null
  | bool (b : Bool)
  | num (n : Option Num)
  | str (s : Option String)
  | arr (items : List Tree)
  | obj (fields : List (Option String × Tree))

def isSpace (c : Char) : Bool :=
  c == ' ' || c == '\t' || c == '\n' || c == '\r'

def skipSpace (cs : List Char) : List Char :=
  cs.dropWhile isSpace

/-- The digits of a significand that fit in 64 bits: their value, and how many digits are left. -/
def significand (acc : Nat) : List Char → Nat × Nat
  | [] => (acc, 0)
  | c :: cs =>
    let next := 10 * acc + (c.toNat - 0x30)
    if next < Nat.pow 2 64 then significand next cs else (acc, cs.length + 1)

/-- A significand times a power of ten, each step rounded to the nearest double. Nothing beyond the
largest double is a number. -/
def scaled : (steps : Nat) → Float → Int → Option Float
  | 0, x, _ => some x
  | k + 1, x, e =>
    if e.natAbs ≤ 308 then
      let ten := Float.ofScientific 1 false e.natAbs
      if 0 ≤ e then
        let y := x * ten
        if y.isInf then none else some y
      else some (x / ten)
    else if x == 0.0 then some x
    else if 0 ≤ e then none
    else scaled k (x / Float.ofScientific 1 false 308) (e + 308)

/-- A number with a fraction or an exponent, or too large for an integer. Digits past the ones that
fit in 64 bits count by their place only. -/
def floatOf (neg : Bool) (whole frac : List Char) (exp : Int) : Option Num :=
  let (m, extra) := significand 0 whole
  let (m, left) := significand m frac
  let e := (extra : Int) - (frac.length - left : Nat) + exp
  (scaled 8 (Float.ofNat m) (max (-2000) (min 2000 e))).map fun x => Num.float (negate neg x)

/-- A number without fraction and exponent. Negative zero is a double. -/
def integerOf (neg : Bool) (whole : List Char) : Option Num :=
  let n := digitsValue whole
  if neg then
    if 0 < n && n ≤ Nat.pow 2 63 then some (.int (-(n : Int)))
    else if n < Nat.pow 2 64 then some (.float (-(Float.ofNat n)))
    else floatOf neg whole [] 0
  else if n < Nat.pow 2 64 then some (.int n)
  else floatOf neg whole [] 0

def readNumber (neg : Bool) (cs : List Char) : Option (Option Num × List Char) :=
  let whole := cs.takeWhile isDigit
  let rest := cs.dropWhile isDigit
  if whole.isEmpty || (whole.head? == some '0' && whole.length > 1) then none
  else
    let fraction := match rest with
      | '.' :: r =>
        if (r.takeWhile isDigit).isEmpty then none
        else some (some (r.takeWhile isDigit), r.dropWhile isDigit)
      | r => some (none, r)
    match fraction with
    | none => none
    | some (frac, c :: r) =>
      if c == 'e' || c == 'E' then
        let (eneg, ds) := readSign r
        let exp := ds.takeWhile isDigit
        if exp.isEmpty then none
        else
          let e : Int := digitsValue exp
          some (floatOf neg whole (frac.getD []) (if eneg then -e else e), ds.dropWhile isDigit)
      else match frac with
        | some f => some (floatOf neg whole f 0, c :: r)
        | none => some (integerOf neg whole, c :: r)
    | some (some f, []) => some (floatOf neg whole f 0, [])
    | some (none, []) => some (integerOf neg whole, [])

/-- A piece of a text: a character, or half of a surrogate pair. -/
inductive Piece where
  | char (c : Char)
  | unit (n : Nat)

def simpleEscape? (c : Char) : Option Char :=
  if c == '"' then some '"'
  else if c == '\\' then some '\\'
  else if c == '/' then some '/'
  else if c == 'b' then some (Char.ofNat 0x08)
  else if c == 'f' then some (Char.ofNat 0x0C)
  else if c == 'n' then some '\n'
  else if c == 'r' then some '\r'
  else if c == 't' then some '\t'
  else none

def readPieces : List Char → Option (List Piece × List Char)
  | '"' :: cs => some ([], cs)
  | '\\' :: 'u' :: a :: b :: c :: d :: cs =>
    match Text.readHex? [a, b, c, d] with
    | some n =>
      let piece := if 0xD800 ≤ n && n < 0xE000 then Piece.unit n else .char (Char.ofNat n)
      (readPieces cs).map fun (ps, r) => (piece :: ps, r)
    | none => none
  | '\\' :: c :: cs => match simpleEscape? c with
    | some d => (readPieces cs).map fun (ps, r) => (.char d :: ps, r)
    | none => none
  | c :: cs =>
    if c.toNat < 0x20 || c == '\\' then none
    else (readPieces cs).map fun (ps, r) => (.char c :: ps, r)
  | [] => none

/-- Join surrogate pairs; a half on its own denotes nothing. -/
def joinPieces : List Piece → Option (List Char)
  | [] => some []
  | .char c :: ps => (joinPieces ps).map (c :: ·)
  | .unit h :: .unit l :: ps =>
    if h < 0xDC00 && 0xDC00 ≤ l then
      (joinPieces ps).map (Char.ofNat (0x10000 + (h - 0xD800) * 0x400 + (l - 0xDC00)) :: ·)
    else none
  | .unit _ :: _ => none

def readText (cs : List Char) : Option (Option String × List Char) :=
  (readPieces cs).map fun (ps, r) => ((joinPieces ps).map String.ofList, r)

def readWord (word : String) (t : Tree) (cs : List Char) : Option (Tree × List Char) :=
  let w := word.toList
  if cs.take w.length == w then some (t, cs.drop w.length) else none

mutual
/-- A value, blanks before it skipped. `fuel` bounds the depth and the length. -/
def readTree : (fuel : Nat) → List Char → Option (Tree × List Char)
  | 0, _ => none
  | f + 1, cs => match skipSpace cs with
    | '"' :: r => (readText r).map fun (s, r) => (.str s, r)
    | '[' :: r => match skipSpace r with
      | ']' :: r => some (.arr [], r)
      | r => (readItems f r).map fun (ts, r) => (.arr ts, r)
    | '\x7b' :: r => match skipSpace r with
      | '\x7d' :: r => some (.obj [], r)
      | r => (readFields f r).map fun (fs, r) => (.obj fs, r)
    | 'n' :: r => readWord "ull" .null r
    | 't' :: r => readWord "rue" (.bool true) r
    | 'f' :: r => readWord "alse" (.bool false) r
    | '-' :: r => (readNumber true r).map fun (n, r) => (.num n, r)
    | r => (readNumber false r).map fun (n, r) => (.num n, r)
def readItems : (fuel : Nat) → List Char → Option (List Tree × List Char)
  | 0, _ => none
  | f + 1, cs => match readTree f cs with
    | none => none
    | some (t, r) => match skipSpace r with
      | ',' :: r => (readItems f r).map fun (ts, r) => (t :: ts, r)
      | ']' :: r => some ([t], r)
      | _ => none
def readFields : (fuel : Nat) → List Char → Option (List (Option String × Tree) × List Char)
  | 0, _ => none
  | f + 1, cs => match skipSpace cs with
    | '"' :: r => match readText r with
      | none => none
      | some (k, r) => match skipSpace r with
        | ':' :: r => match readTree f r with
          | none => none
          | some (t, r) => match skipSpace r with
            | ',' :: r => (readFields f r).map fun (fs, r) => ((k, t) :: fs, r)
            | '\x7d' :: r => some ([(k, t)], r)
            | _ => none
        | _ => none
    | _ => none
end

/-- The tree of a whole document. Every step takes a character, so its length is fuel enough. -/
def read? (s : String) : Option Tree :=
  let cs := s.toList
  match readTree (2 * cs.length + 2) cs with
  | some (t, r) => if (skipSpace r).isEmpty then some t else none
  | none => none

mutual
/-- The value of a tree in which every text and number denotes something. A repeated field keeps its
first place and its last value. -/
def Tree.toValue? : Tree → Option Value
  | .null => some .null
  | .bool b => some (.bool b)
  | .num n => n.map .num
  | .str s => s.map .str
  | .arr items => (itemValues? items).map .arr
  | .obj fields => (fieldValues? fields).map fun fs => .obj (Fields.ofList fs)
def itemValues? : List Tree → Option (List Value)
  | [] => some []
  | t :: ts => match t.toValue?, itemValues? ts with
    | some v, some vs => some (v :: vs)
    | _, _ => none
def fieldValues? : List (Option String × Tree) → Option (List (String × Value))
  | [] => some []
  | (k, t) :: fs => match k, t.toValue?, fieldValues? fs with
    | some k, some v, some fs => some ((k, v) :: fs)
    | _, _, _ => none
end

def readValue? (s : String) : Option Value :=
  (read? s).bind Tree.toValue?

end Stencil.Json
