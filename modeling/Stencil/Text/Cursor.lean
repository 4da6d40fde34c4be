import Stencil.Text.Blank
import Stencil.Text.Offset

/-! # Cursors

A place in a text: its byte offset, its line, and what follows. -/

namespace Stencil

structure Cursor where
  pos : Nat
  line : Nat
  rest : List Char

namespace Cursor

def newlines (cs : List Char) : Nat :=
  cs.count '\n'

def ofText (cs : List Char) : Cursor :=
  ⟨0, 1, cs⟩

def advance (c : Cursor) (n : Nat) : Cursor :=
  let passed := c.rest.take n
  ⟨c.pos + Text.width passed, c.line + newlines passed, c.rest.drop n⟩

def skipWhile (c : Cursor) (p : Char → Bool) : Cursor :=
  c.advance (c.rest.takeWhile p).length

def skipIndent (c : Cursor) : Cursor :=
  c.skipWhile Text.isIndent

def lineText (c : Cursor) : List Char :=
  c.rest.takeWhile (· != '\n')

def skipLine (c : Cursor) : Cursor :=
  c.skipWhile (· != '\n')

def finish (c : Cursor) : Nat :=
  c.pos + Text.width c.rest

theorem rest_advance (c : Cursor) (n : Nat) : (c.advance n).rest = c.rest.drop n := rfl

theorem length_advance (c : Cursor) (n : Nat) : (c.advance n).rest.length = c.rest.length - n := by
  simp [rest_advance]

theorem length_advance_le (c : Cursor) (n : Nat) : (c.advance n).rest.length ≤ c.rest.length := by
  rw [length_advance]; exact Nat.sub_le _ _

theorem length_skipWhile_le (c : Cursor) (p : Char → Bool) :
    (c.skipWhile p).rest.length ≤ c.rest.length :=
  c.length_advance_le _

theorem advance_zero (c : Cursor) : c.advance 0 = c := by
  simp [advance, newlines, Text.width]

theorem advance_advance (c : Cursor) (m n : Nat) : (c.advance m).advance n = c.advance (m + n) := by
  simp [advance, newlines, List.take_add, List.drop_drop, Nat.add_assoc]

def Reaches (c d : Cursor) : Prop :=
  ∃ n, d = c.advance n

theorem Reaches.refl (c : Cursor) : c.Reaches c :=
  ⟨0, c.advance_zero.symm⟩

theorem Reaches.advance (c : Cursor) (n : Nat) : c.Reaches (c.advance n) :=
  ⟨n, rfl⟩

theorem Reaches.skipIndent (c : Cursor) : c.Reaches c.skipIndent :=
  ⟨_, rfl⟩

theorem Reaches.skipLine (c : Cursor) : c.Reaches c.skipLine :=
  ⟨_, rfl⟩

theorem Reaches.trans {c d e : Cursor} : c.Reaches d → d.Reaches e → c.Reaches e := by
  rintro ⟨m, rfl⟩ ⟨n, rfl⟩
  exact ⟨m + n, c.advance_advance m n⟩

theorem Reaches.length_le {c d : Cursor} : c.Reaches d → d.rest.length ≤ c.rest.length := by
  rintro ⟨n, rfl⟩
  exact c.length_advance_le n

end Cursor

end Stencil
