import Mathlib.Data.List.TakeWhile
import Stencil.Text.Cursor

/-! # Runs of characters

Where a run of one class of characters ends, what is taken and what is dropped; and what that means
for trimming and for cursors. -/

namespace Stencil

/-- What holds for the characters of a text is decided along the text, not along all characters. -/
instance (priority := 2000) decidableForallMem {p : Char → Prop} [DecidablePred p]
    (cs : List Char) : Decidable (∀ c ∈ cs, p c) :=
  List.decidableBAll p cs

/-- A text that no run of the class goes on into. -/
def Stops (p : Char → Bool) (cs : List Char) : Prop :=
  ∀ c, cs.head? = some c → p c = false

theorem stops_nil {p : Char → Bool} : Stops p [] := by
  intro c h
  cases h

theorem stops_cons {p : Char → Bool} {c : Char} {cs : List Char} (h : p c = false) :
    Stops p (c :: cs) := by
  intro d hd
  obtain rfl : c = d := by simpa using hd
  exact h

theorem Stops.takeWhile {p : Char → Bool} {cs : List Char} (h : Stops p cs) :
    cs.takeWhile p = [] := by
  cases cs with
  | nil => rfl
  | cons c cs => exact List.takeWhile_cons_of_neg (by simp [h c rfl])

theorem Stops.dropWhile {p : Char → Bool} {cs : List Char} (h : Stops p cs) :
    cs.dropWhile p = cs := by
  cases cs with
  | nil => rfl
  | cons c cs => exact List.dropWhile_cons_of_neg (by simp [h c rfl])

theorem takeWhile_run {p : Char → Bool} {run rest : List Char} (hr : ∀ c ∈ run, p c = true)
    (hs : Stops p rest) : (run ++ rest).takeWhile p = run := by
  rw [List.takeWhile_append_of_pos hr, hs.takeWhile, List.append_nil]

theorem dropWhile_run {p : Char → Bool} {run rest : List Char} (hr : ∀ c ∈ run, p c = true)
    (hs : Stops p rest) : (run ++ rest).dropWhile p = rest := by
  rw [List.dropWhile_append_of_pos hr, hs.dropWhile]

theorem stops_dropWhile (p : Char → Bool) (cs : List Char) : Stops p (cs.dropWhile p) := by
  intro c hc
  have h := List.head?_dropWhile_not p cs
  rw [hc] at h
  exact h

theorem takeWhile_append_stops {p : Char → Bool} {v : List Char} (h : Stops p v) (cs : List Char) :
    (cs ++ v).takeWhile p = cs.takeWhile p ∧ (cs ++ v).dropWhile p = cs.dropWhile p ++ v := by
  have hsplit : cs ++ v = cs.takeWhile p ++ (cs.dropWhile p ++ v) := by
    rw [← List.append_assoc, List.takeWhile_append_dropWhile]
  have hstop : Stops p (cs.dropWhile p ++ v) := by
    cases hd : cs.dropWhile p with
    | nil => exact h
    | cons c r => exact stops_cons (stops_dropWhile p cs c (by rw [hd]; rfl))
  have hrun : ∀ c ∈ cs.takeWhile p, p c = true := fun _ hc => List.mem_takeWhile_imp hc
  rw [hsplit]
  exact ⟨takeWhile_run hrun hstop, dropWhile_run hrun hstop⟩

/-! ## Trimming -/

namespace Text

theorem isBlank_of_isIndent {c : Char} (h : isIndent c = true) : isBlank c = true := by
  simp only [isIndent, Bool.or_eq_true, beq_iff_eq] at h
  rcases h with rfl | rfl
  · rfl
  · rfl

theorem dropTail_eq_self {p : Char → Bool} {cs : List Char}
    (h : ∀ c, cs.getLast? = some c → p c = false) : dropTail p cs = cs := by
  induction cs with
  | nil => rfl
  | cons c cs ih =>
    cases cs with
    | nil =>
      have hc : p c = false := h c rfl
      simp [dropTail, hc]
    | cons d ds =>
      have hrest := ih fun e he => h e (by rw [List.getLast?_cons_cons]; exact he)
      rw [dropTail, hrest]

theorem getLast?_dropTail {p : Char → Bool} {cs : List Char} {c : Char}
    (h : (dropTail p cs).getLast? = some c) : p c = false := by
  induction cs with
  | nil => cases h
  | cons d cs ih =>
    rw [dropTail] at h
    cases hd : dropTail p cs with
    | nil =>
      rw [hd] at h
      by_cases hp : p d = true
      · simp [hp] at h
      · simp [hp] at h
        rw [← h]
        simpa using hp
    | cons e es =>
      rw [hd] at h ih
      dsimp only at h
      rw [List.getLast?_cons_cons] at h
      exact ih h

theorem dropTail_split (p : Char → Bool) (cs : List Char) :
    ∃ tail, cs = dropTail p cs ++ tail ∧ ∀ c ∈ tail, p c = true := by
  induction cs with
  | nil => exact ⟨[], rfl, List.forall_mem_nil _⟩
  | cons c cs ih =>
    obtain ⟨tail, hcs, ht⟩ := ih
    rw [dropTail]
    cases hd : dropTail p cs with
    | cons d ds =>
      refine ⟨tail, ?_, ht⟩
      rw [hd] at hcs
      rw [hcs]
      rfl
    | nil =>
      rw [hd, List.nil_append] at hcs
      subst hcs
      by_cases hp : p c = true
      · refine ⟨c :: cs, by simp [hp], ?_⟩
        intro d hd
        rcases List.mem_cons.1 hd with rfl | hd
        · exact hp
        · exact ht d hd
      · exact ⟨cs, by simp [hp], ht⟩

theorem trim_eq_self_iff {cs : List Char} : trim cs = cs ↔
    Stops isBlank cs ∧ ∀ c, cs.getLast? = some c → isBlank c = false := by
  constructor
  · intro h
    have hlen : (trimStart cs).length = cs.length := by
      obtain ⟨tail, hs, -⟩ := dropTail_split isBlank (trimStart cs)
      have h₁ : (trimStart cs).length ≤ cs.length := (List.dropWhile_suffix _).length_le
      have h₂ := congrArg List.length hs
      have h₃ := congrArg List.length h
      simp only [trim, trimEnd, List.length_append] at h₂ h₃
      omega
    have hstart : trimStart cs = cs := (List.dropWhile_suffix _).eq_of_length hlen
    refine ⟨?_, ?_⟩
    · rw [← hstart]
      exact stops_dropWhile _ _
    · intro c hc
      rw [← h] at hc
      exact getLast?_dropTail hc
  · rintro ⟨hs, hl⟩
    rw [trim, trimStart, hs.dropWhile]
    exact dropTail_eq_self hl

end Text

/-! ## Cursors -/

namespace Cursor

theorem rest_skipWhile (c : Cursor) (p : Char → Bool) :
    (c.skipWhile p).rest = c.rest.dropWhile p := by
  rw [skipWhile, rest_advance]
  have h : c.rest = c.rest.takeWhile p ++ c.rest.dropWhile p :=
    List.takeWhile_append_dropWhile.symm
  calc c.rest.drop (c.rest.takeWhile p).length
      = (c.rest.takeWhile p ++ c.rest.dropWhile p).drop (c.rest.takeWhile p).length := by rw [← h]
    _ = c.rest.dropWhile p := List.drop_left

theorem rest_skipIndent (c : Cursor) : c.skipIndent.rest = c.rest.dropWhile Text.isIndent :=
  c.rest_skipWhile _

theorem rest_skipLine (c : Cursor) : c.skipLine.rest = c.rest.dropWhile (· != '\n') :=
  c.rest_skipWhile _

theorem rest_advance_append {c : Cursor} {u v : List Char} {n : Nat} (h : c.rest = u ++ v)
    (hn : u.length = n) : (c.advance n).rest = v := by
  rw [rest_advance, h, ← hn, List.drop_left]

end Cursor

theorem takeWhile_line {line rest : List Char} (h : '\n' ∉ line) :
    (line ++ '\n' :: rest).takeWhile (· != '\n') = line := by
  refine takeWhile_run (fun c hc => ?_) (stops_cons (by decide))
  have hne : c ≠ '\n' := fun e => h (e ▸ hc)
  simpa using hne

theorem dropWhile_line {line rest : List Char} (h : '\n' ∉ line) :
    (line ++ '\n' :: rest).dropWhile (· != '\n') = '\n' :: rest := by
  refine dropWhile_run (fun c hc => ?_) (stops_cons (by decide))
  have hne : c ≠ '\n' := fun e => h (e ▸ hc)
  simpa using hne

end Stencil
