import Stencil.Text.Hex

/-! # Scope ids

Every compiled file has a short id that keeps its classes and ids apart from those of other files: a
32-bit hash of its path and its instance name. -/

namespace Stencil.ScopeId

def rotateLeft (w : UInt32) (n : UInt32) : UInt32 :=
  (w <<< n) ||| (w >>> (32 - n))

def rotateRight (w : UInt64) (n : UInt64) : UInt64 :=
  (w >>> n) ||| (w <<< (64 - n))

def addWord (h w : UInt32) : UInt32 :=
  (rotateLeft h 5 ^^^ w) * 0x27220a95

def addLong (h : UInt32) (w : UInt64) : UInt32 :=
  addWord (addWord h w.toUInt32) (w >>> 32).toUInt32

/-- Four bytes at a time, the lowest first; what is left byte by byte. -/
def addBytes (h : UInt32) : List UInt8 → UInt32
  | a :: b :: c :: d :: bs =>
    let w := a.toUInt32 ||| (b.toUInt32 <<< 8) ||| (c.toUInt32 <<< 16) ||| (d.toUInt32 <<< 24)
    addBytes (addWord h w) bs
  | bs => bs.foldl (fun h b => addWord h b.toUInt32) h

def slash : UInt8 := 0x2F
def point : UInt8 := 0x2E

def skipPoint : List UInt8 → List UInt8
  | [a] => if a == point then [] else [a]
  | a :: b :: bs => if a == point && b == slash then b :: bs else a :: b :: bs
  | [] => []

theorem length_skipPoint (bs : List UInt8) : (skipPoint bs).length ≤ bs.length := by
  unfold skipPoint
  split
  · split <;> simp
  · split <;> simp
  · simp

/-- A part of a path changes both the hash and the sum of the lengths. -/
def addPart (h : UInt32) (sum : UInt64) (part : List UInt8) : UInt32 × UInt64 :=
  if part.isEmpty then (h, sum)
  else (addBytes h part, rotateRight (sum + part.length.toUInt64) 2)

def addParts (h : UInt32) (sum : UInt64) (bs : List UInt8) : UInt32 × UInt64 :=
  let (h', sum') := addPart h sum (bs.takeWhile (· != slash))
  match hd : bs.dropWhile (· != slash) with
  | [] => (h', sum')
  | _ :: r =>
    have : (skipPoint r).length < bs.length := by
      have h₁ := length_skipPoint r
      have h₂ := (List.dropWhile_suffix (l := bs) (· != slash)).length_le
      rw [hd, List.length_cons] at h₂
      omega
    addParts h' sum' (skipPoint r)
termination_by bs.length

def addPath (h : UInt32) (path : String) : UInt32 :=
  let (h', sum) := addParts h 0 path.toUTF8.toList
  addLong h' sum

def hash (filename : Option String) (instanceName : String) : UInt32 :=
  let h := match filename with
    | none => addLong 0 0
    | some path => addPath (addLong 0 1) path
  addWord (addBytes h instanceName.toUTF8.toList) 0xff

end Stencil.ScopeId

namespace Stencil

def scopeId (filename : Option String) (instanceName : String) : String :=
  "m" ++ Text.hexPadded 8 (ScopeId.hash filename instanceName).toNat

end Stencil
