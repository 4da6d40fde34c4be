import Stencil.Proofs.Files
import Stencil.Proofs.Result
import Stencil.Template.Lexer

/-! # Normalized texts

A text is normalized where it is stored, and once more where it is read. By then every line end is a
line feed. But a byte order mark is dropped each time, and of several at the front only the first:
then what is read is not what is stored, but that without its first character. -/

namespace Stencil.Text

/-! ## Line ends -/

def crlfs (cs : List Char) : Nat :=
  (cs.zip cs.tail).count ('\r', '\n')

/-- The line ends of a text: the pairs, and the carriage returns and line feeds that are in none. -/
def lineEnds (cs : List Char) : Nat :=
  crlfs cs + (cs.count '\r' - crlfs cs) + (cs.count '\n' - crlfs cs)

theorem crlfs_cons (c : Char) (cs : List Char) :
    crlfs (c :: cs) = crlfs cs + if c = '\r' ∧ cs.head? = some '\n' then 1 else 0 := by
  cases cs with
  | nil => simp [crlfs]
  | cons d cs => simp [crlfs, List.count_cons]

theorem crlfs_le (cs : List Char) : crlfs cs ≤ cs.count '\r' ∧ crlfs cs ≤ cs.tail.count '\n' := by
  induction cs with
  | nil => simp [crlfs]
  | cons c cs ih =>
    rw [crlfs_cons, List.count_cons, List.tail_cons]
    cases cs with
    | nil => simp [crlfs]
    | cons d cs =>
      simp only [List.tail_cons, List.count_cons] at ih ⊢
      split
      · next h =>
        simp at h
        simp [h] at ih ⊢
        omega
      · omega

theorem count_lineFeeds (cs : List Char) :
    (lineFeeds cs).count '\n' + crlfs cs = cs.count '\r' + cs.count '\n' := by
  -- a pair gives one line feed for two characters
  fun_induction lineFeeds cs with
  | case1 cs ih =>
    simp [crlfs_cons] at ih ⊢
    omega
  | case2 cs hcs ih =>
    have hhead : cs.head? ≠ some '\n' := by
      intro h
      obtain ⟨ds, rfl⟩ := List.head?_eq_some_iff.1 h
      exact hcs ds rfl
    simp [crlfs_cons, hhead] at ih ⊢
    omega
  | case3 c cs _ hc ih =>
    have hne : c ≠ '\r' := fun h => hc h
    simp [crlfs_cons, List.count_cons, hne] at ih ⊢
    omega
  | case4 => simp [crlfs]

theorem count_lineFeeds_eq (cs : List Char) : (lineFeeds cs).count '\n' = lineEnds cs := by
  have hle := crlfs_le cs
  have htail := (cs.tail_sublist).count_le '\n'
  have hcount := count_lineFeeds cs
  unfold lineEnds
  omega

/-! ## Byte order marks -/

def IsMarkedTwice (cs : List Char) : Prop :=
  [byteOrderMark, byteOrderMark] <+: cs

instance (cs : List Char) : Decidable (IsMarkedTwice cs) :=
  inferInstanceAs (Decidable ([byteOrderMark, byteOrderMark] <+: cs))

theorem dropByteOrderMark_suffix (cs : List Char) : dropByteOrderMark cs <:+ cs := by
  cases cs with
  | nil => exact List.suffix_refl _
  | cons c cs =>
    rw [dropByteOrderMark]
    split
    · exact List.suffix_cons c cs
    · exact List.suffix_refl _

theorem head?_dropByteOrderMark (cs : List Char) :
    (dropByteOrderMark cs).head? = some byteOrderMark ↔ IsMarkedTwice cs := by
  unfold IsMarkedTwice
  cases cs with
  | nil => simp [dropByteOrderMark]
  | cons c cs =>
    by_cases hc : c = byteOrderMark
    · cases cs with
      | nil => simp [dropByteOrderMark, hc]
      | cons d cs => simp [dropByteOrderMark, hc, eq_comm (a := d)]
    · have hne : byteOrderMark ≠ c := fun h => hc h.symm
      simp [dropByteOrderMark, hc, hne]

theorem lineEnds_dropByteOrderMark (cs : List Char) :
    lineEnds (dropByteOrderMark cs) = lineEnds cs := by
  cases cs with
  | nil => rfl
  | cons c cs =>
    by_cases hc : c = byteOrderMark
    · have hreturn : byteOrderMark ≠ '\r' := by decide
      have hfeed : byteOrderMark ≠ '\n' := by decide
      simp [dropByteOrderMark, hc, lineEnds, crlfs_cons, hreturn, hfeed]
    · simp [dropByteOrderMark, hc]

theorem head?_lineFeeds (cs : List Char) :
    (lineFeeds cs).head? = some byteOrderMark ↔ cs.head? = some byteOrderMark := by
  have hreturn : byteOrderMark ≠ '\r' := by decide
  have hfeed : byteOrderMark ≠ '\n' := by decide
  fun_cases lineFeeds cs with
  | case1 => simp [hreturn.symm, hfeed.symm]
  | case2 => simp [hreturn.symm, hfeed.symm]
  | case3 => simp
  | case4 => simp

theorem head?_normalizeChars (cs : List Char) :
    (normalizeChars cs).head? = some byteOrderMark ↔ IsMarkedTwice cs := by
  rw [normalizeChars, head?_lineFeeds, head?_dropByteOrderMark]

/-- The second time there is only a byte order mark to lose. -/
theorem normalizeChars_normalizeChars (cs : List Char) :
    normalizeChars (normalizeChars cs) = dropByteOrderMark (normalizeChars cs) := by
  rw [normalizeChars]
  apply lineFeeds_eq
  intro h
  exact not_mem_normalizeChars cs ((dropByteOrderMark_suffix _).mem h)

theorem dropByteOrderMark_normalizeChars (cs : List Char) :
    dropByteOrderMark (normalizeChars cs) =
      (normalizeChars cs).drop (if IsMarkedTwice cs then 1 else 0) := by
  have hhead := head?_normalizeChars cs
  cases hn : normalizeChars cs with
  | nil => simp [dropByteOrderMark]
  | cons c r =>
    rw [hn, List.head?_cons, Option.some.injEq] at hhead
    by_cases hc : c = byteOrderMark
    · rw [if_pos (hhead.1 hc)]
      simp [dropByteOrderMark, hc]
    · rw [if_neg (mt hhead.2 hc)]
      simp [dropByteOrderMark, hc]

theorem normalizeChars_eq_iff (cs : List Char) :
    normalizeChars (normalizeChars cs) = normalizeChars cs ↔ ¬ IsMarkedTwice cs := by
  rw [normalizeChars_normalizeChars, dropByteOrderMark_normalizeChars]
  constructor
  · intro h htwice
    obtain ⟨r, hr⟩ := List.head?_eq_some_iff.1 ((head?_normalizeChars cs).2 htwice)
    rw [if_pos htwice, hr, List.drop_one, List.tail_cons] at h
    exact List.cons_ne_self _ _ h.symm
  · intro h
    rw [if_neg h, List.drop_zero]

/-! ## Stored texts -/

theorem toList_normalize (t : String) : (normalize t).toList = normalizeChars t.toList := by
  rw [normalize, String.toList_ofList]

/-- **Normalized texts.** A normalized text has no carriage return, and a line feed for each line
end. Normalizing it again changes nothing, unless there were two byte order marks: then it starts
with one, and of the stored text all but that mark is read. -/
theorem normalize_normalized (t : String) :
    '\r' ∉ (normalize t).toList ∧
      (normalize t).toList.count '\n' = lineEnds t.toList ∧
      ((normalize t).toList.head? = some byteOrderMark ↔ IsMarkedTwice t.toList) ∧
      (normalize (normalize t) = normalize t ↔ ¬ IsMarkedTwice t.toList) ∧
      ∀ (fs : Files) (path : String), ∃ f, (fs.load path t).2.get? (fs.load path t).1 = some f ∧
        f.source = normalize t ∧
        Template.tokenize f.source =
          Template.tokenizeChars
            (f.source.toList.drop (if IsMarkedTwice t.toList then 1 else 0)) := by
  rw [← String.toList_inj, toList_normalize (normalize t), toList_normalize t]
  refine ⟨not_mem_normalizeChars _, ?_, head?_normalizeChars _, normalizeChars_eq_iff _, ?_⟩
  · rw [normalizeChars, count_lineFeeds_eq, lineEnds_dropByteOrderMark]
  · intro fs path
    obtain ⟨f, hget, hsource⟩ := fs.get?_load path t
    refine ⟨f, hget, hsource, ?_⟩
    rw [hsource, toList_normalize, Template.tokenize, toList_normalize,
      normalizeChars_normalizeChars,
      dropByteOrderMark_normalizeChars]

/-- Of two byte order marks one is stored, so the place of a token is not its place in the stored
text. -/
theorem second_mark_stored :
    let t := "\uFEFF\uFEFFdiv"
    normalize t = "\uFEFFdiv" ∧ normalize (normalize t) = "div" ∧
      ∃ ts, Template.tokenize (normalize t) = .ok ts ∧ ⟨.tag "div" false false, 1, ⟨0, 3⟩⟩ ∈ ts ∧
        slice 0 3 (normalize t).toList = [byteOrderMark] := by
  intro t
  have hhead : (Template.tokenize (normalize t)).toOption.bind List.head? =
      some ⟨.tag "div" false false, 1, ⟨0, 3⟩⟩ := by
    decide +kernel
  obtain ⟨ts, hts, hhead⟩ := Option.bind_eq_some_iff.1 hhead
  exact ⟨by decide +kernel, by decide +kernel, ts, ok_of_toOption hts, List.mem_of_head? hhead,
    by decide +kernel⟩

end Stencil.Text
