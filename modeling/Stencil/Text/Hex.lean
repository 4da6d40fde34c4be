/-! # Hexadecimal numerals -/

namespace Stencil.Text

def hexDigit (n : Nat) : Char :=
  if n < 10 then Char.ofNat (0x30 + n) else Char.ofNat (0x61 + (n - 10))

def hexValue? (c : Char) : Option Nat :=
  if '0' ≤ c && c ≤ '9' then some (c.toNat - 0x30)
  else if 'a' ≤ c && c ≤ 'f' then some (c.toNat - 0x61 + 10)
  else if 'A' ≤ c && c ≤ 'F' then some (c.toNat - 0x41 + 10)
  else none

def hexDigits : (width : Nat) → Nat → List Char
  | 0, _ => []
  | w + 1, n => hexDigits w (n / 16) ++ [hexDigit (n % 16)]

theorem mem_hexDigits {c : Char} {width n : Nat} (h : c ∈ hexDigits width n) :
    ∃ d < 16, c = hexDigit d := by
  induction width generalizing n with
  | zero => cases h
  | succ w ih =>
    rw [hexDigits, List.mem_append, List.mem_singleton] at h
    rcases h with h | h
    · exact ih h
    · exact ⟨n % 16, Nat.mod_lt n (by decide), h⟩

def hexWidth (n : Nat) : Nat :=
  Nat.log2 n / 4 + 1

def hex (n : Nat) : String :=
  String.ofList (hexDigits (hexWidth n) n)

def hexPadded (width n : Nat) : String :=
  String.ofList (hexDigits (max width (hexWidth n)) n)

def readHexFrom (acc : Nat) : List Char → Option Nat
  | [] => some acc
  | c :: cs => match hexValue? c with
    | some d => readHexFrom (acc * 16 + d) cs
    | none => none

def readHex? : List Char → Option Nat
  | [] => none
  | cs => readHexFrom 0 cs

end Stencil.Text
