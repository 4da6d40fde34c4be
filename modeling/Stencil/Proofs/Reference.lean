import Stencil.Proofs.Text.Run
import Stencil.Reference

/-! # The grammar of module references

A reference is cut at its first exclamation mark, and what stands before that at its first colon. So
an id holds neither mark and the name of an instance no exclamation mark, while a colon may stand in
both names and an exclamation mark in the forced one; and each text is a reference in at most one
way. -/

namespace Stencil

namespace Reference

/-! ## Cutting at a mark -/

def marked (mark : Char) : Option (List Char) → List Char
  | none => []
  | some cs => mark :: cs

theorem splitAt_spec (mark : Char) (cs : List Char) :
    mark ∉ (splitAt mark cs).1 ∧ cs = (splitAt mark cs).1 ++ marked mark (splitAt mark cs).2 := by
  induction cs with
  | nil => exact ⟨List.not_mem_nil, rfl⟩
  | cons c cs ih =>
    obtain ⟨hmark, hcs⟩ := ih
    rw [splitAt]
    by_cases hc : c = mark
    · subst hc
      rw [if_pos (beq_self_eq_true c)]
      exact ⟨List.not_mem_nil, rfl⟩
    · rw [if_neg (by simpa using hc)]
      refine ⟨?_, congrArg (c :: ·) hcs⟩
      rintro (_ | hmem)
      · exact hc rfl
      · exact hmark ‹_›

theorem splitAt_append {mark : Char} {front : List Char} (h : mark ∉ front)
    (back : Option (List Char)) : splitAt mark (front ++ marked mark back) = (front, back) := by
  induction front with
  | nil =>
    cases back with
    | none => rfl
    | some cs => simp [marked, splitAt]
  | cons c cs ih =>
    have hc : (c == mark) = false := beq_false_of_ne fun heq => h (heq ▸ List.mem_cons_self ..)
    rw [List.cons_append, splitAt, hc, ih fun hmem => h (List.mem_cons_of_mem _ hmem)]
    rfl

/-! ## The grammar -/

/-- The parts of a reference can be told apart where it is written. -/
structure WellFormed (r : Reference) : Prop where
  id_ne : r.id ≠ ""
  id_marks : ':' ∉ r.id.toList ∧ '!' ∉ r.id.toList
  instance_part : ∀ i ∈ r.instanceName, i ≠ "" ∧ '!' ∉ i.toList
  forced_part : ∀ f ∈ r.forced, f ≠ ""

inductive Spelled : String → Reference → Prop
  | plain (id : String) : Spelled id ⟨id, none, none⟩
  | named (id i : String) : Spelled (id ++ ":" ++ i) ⟨id, some i, none⟩
  | forced (id f : String) : Spelled (id ++ "!" ++ f) ⟨id, none, some f⟩
  | both (id i f : String) : Spelled (id ++ ":" ++ i ++ "!" ++ f) ⟨id, some i, some f⟩

theorem toList_print (r : Reference) : r.print.toList =
    r.id.toList ++ marked ':' (r.instanceName.map String.toList) ++
      marked '!' (r.forced.map String.toList) := by
  obtain ⟨id, i, f⟩ := r
  cases i <;> cases f <;> simp [print, marked]

theorem spelled_iff {s : String} {r : Reference} : Spelled s r ↔ r.print = s := by
  constructor
  · rintro (_ | _ | _ | _) <;> simp [print, String.append_assoc]
  · rintro rfl
    obtain ⟨id, _ | i, _ | f⟩ := r
    · simpa [print] using Spelled.plain id
    · simpa [print, String.append_assoc] using Spelled.forced id f
    · simpa [print, String.append_assoc] using Spelled.named id i
    · simpa [print, String.append_assoc] using Spelled.both id i f

theorem ofChars?_eq_some {cs : List Char} {r : Reference} : ofChars? cs = some r ↔
    (∀ c ∈ cs, Text.isBlank c = false) ∧ ∃ id i f,
      (id ≠ [] ∧ ':' ∉ id ∧ '!' ∉ id ++ marked ':' i ∧ i ≠ some [] ∧ f ≠ some []) ∧
      cs = id ++ marked ':' i ++ marked '!' f ∧
      r = ⟨String.ofList id, i.map String.ofList, f.map String.ofList⟩ := by
  have hblanks : cs.any Text.isBlank = false ↔ ∀ c ∈ cs, Text.isBlank c = false := by simp
  rw [← hblanks, ofChars?]
  constructor
  · intro h
    split at h
    · cases h
    · next hb =>
      obtain ⟨hmark, hcs⟩ := splitAt_spec '!' cs
      obtain ⟨hcolon, hrest⟩ := splitAt_spec ':' (splitAt '!' cs).1
      dsimp only at h
      split at h
      · cases h
      · next hempty =>
        simp only [Bool.or_eq_true, not_or, List.isEmpty_iff, beq_iff_eq] at hempty
        refine ⟨eq_false_of_ne_true hb, _, _, _, ⟨hempty.1.1, hcolon, ?_, hempty.1.2, hempty.2⟩,
          ?_, (Option.some.inj h).symm⟩
        · rwa [← hrest]
        · rwa [← hrest]
  · rintro ⟨hb, id, i, f, ⟨hid, hcolon, hmark, hi, hf⟩, rfl, rfl⟩
    have hempty : (id.isEmpty || i == some [] || f == some []) = false := by simp [hid, hi, hf]
    rw [hb, splitAt_append hmark]
    dsimp only
    rw [splitAt_append hcolon]
    dsimp only
    rw [hempty]
    rfl

theorem ofList_eq_empty {cs : List Char} : String.ofList cs = "" ↔ cs = [] := by
  rw [← String.toList_inj, String.toList_ofList, String.toList_empty]

/-- A reference is well-formed if its parts are those that some text is cut into. -/
theorem wellFormed_iff {id : List Char} {i f : Option (List Char)} :
    WellFormed ⟨String.ofList id, i.map String.ofList, f.map String.ofList⟩ ↔
      id ≠ [] ∧ ':' ∉ id ∧ '!' ∉ id ++ marked ':' i ∧ i ≠ some [] ∧ f ≠ some [] := by
  constructor
  · rintro ⟨hid, ⟨hcolon, hmark⟩, hi, hf⟩
    rw [String.toList_ofList] at hcolon hmark
    refine ⟨fun h => hid (ofList_eq_empty.2 h), hcolon, ?_, ?_, ?_⟩
    · rw [List.mem_append, not_or]
      refine ⟨hmark, ?_⟩
      cases i with
      | none => exact List.not_mem_nil
      | some cs => simpa [marked] using (hi _ rfl).2
    · rintro rfl
      exact (hi _ rfl).1 rfl
    · rintro rfl
      exact hf _ rfl rfl
  · rintro ⟨hid, hcolon, hmark, hi, hf⟩
    rw [List.mem_append, not_or] at hmark
    refine ⟨fun h => hid (ofList_eq_empty.1 h), ?_, ?_, ?_⟩
    · rw [String.toList_ofList]
      exact ⟨hcolon, hmark.1⟩
    · intro s hs
      obtain ⟨cs, rfl, rfl⟩ := Option.map_eq_some_iff.1 hs
      refine ⟨fun h => hi (congrArg some (ofList_eq_empty.1 h)), ?_⟩
      rw [String.toList_ofList]
      exact fun hmem => hmark.2 (List.mem_cons_of_mem _ hmem)
    · intro s hs
      obtain ⟨cs, rfl, rfl⟩ := Option.map_eq_some_iff.1 hs
      exact fun h => hf (congrArg some (ofList_eq_empty.1 h))

/-- A text without blanks around it is read as the well-formed reference that is written as it. -/
theorem ofChars?_eq_some_iff {cs : List Char} {r : Reference} : ofChars? cs = some r ↔
    (∀ c ∈ cs, Text.isBlank c = false) ∧ r.WellFormed ∧ r.print.toList = cs := by
  rw [ofChars?_eq_some]
  refine and_congr_right fun _ => ⟨?_, ?_⟩
  · rintro ⟨id, i, f, hparts, rfl, rfl⟩
    refine ⟨wellFormed_iff.2 hparts, ?_⟩
    rw [toList_print]
    simp [Function.comp_def]
  · rintro ⟨hr, rfl⟩
    obtain ⟨id, i, f⟩ := r
    refine ⟨id.toList, i.map String.toList, f.map String.toList, ?_, toList_print _, ?_⟩
    · rw [← wellFormed_iff]
      simpa [Function.comp_def] using hr
    · simp [Function.comp_def]

theorem parse?_eq_some_iff {text : String} {r : Reference} : parse? text = some r ↔
    (∀ c ∈ Text.trim text.toList, Text.isBlank c = false) ∧ r.WellFormed ∧
      r.print.toList = Text.trim text.toList :=
  ofChars?_eq_some_iff

theorem trim_of_noBlank {cs : List Char} (h : ∀ c ∈ cs, Text.isBlank c = false) :
    Text.trim cs = cs :=
  Text.trim_eq_self_iff.2
    ⟨fun c hc => h c (List.mem_of_head? hc), fun c hc => h c (List.mem_of_getLast? hc)⟩

/-- **References parse to exactly their grammar.** A text gives a reference if and only if, blanks
around it apart, it holds no blank and has one of the four forms with well-formed parts; the
reference is printed as that text, and every well-formed reference that holds no blank is read back
from its print. -/
theorem reads_exactly_spelled :
    (∀ text r, parse? text = some r ↔
      (∀ c ∈ Text.trim text.toList, Text.isBlank c = false) ∧ r.WellFormed ∧
        Spelled (String.ofList (Text.trim text.toList)) r) ∧
    (∀ text r, parse? text = some r → r.print = String.ofList (Text.trim text.toList)) ∧
    ∀ r : Reference, r.WellFormed → (∀ c ∈ r.print.toList, Text.isBlank c = false) →
      parse? r.print = some r := by
  refine ⟨fun text r => ?_, fun text r h => ?_, fun r hr hb => ?_⟩
  · rw [parse?_eq_some_iff, spelled_iff, ← String.toList_inj, String.toList_ofList]
  · rw [← (parse?_eq_some_iff.1 h).2.2, String.ofList_toList]
  · have htrim := trim_of_noBlank hb
    exact parse?_eq_some_iff.2 ⟨by rwa [htrim], hr, htrim.symm⟩

/-- Only the first of the marks of each kind parts anything. -/
theorem reads_exactly_spelled_marks :
    let r : Reference := ⟨"nav", some "a:b", some "c!d:e"⟩
    (∀ c ∈ Text.trim " nav:a:b!c!d:e\n".toList, Text.isBlank c = false) ∧ r.WellFormed ∧
      Spelled (String.ofList (Text.trim " nav:a:b!c!d:e\n".toList)) r ∧
      parse? " nav:a:b!c!d:e\n" = some r ∧ parse? r.print = some r := by
  intro r
  have hb : ∀ c ∈ Text.trim " nav:a:b!c!d:e\n".toList, Text.isBlank c = false := by decide
  have hr : r.WellFormed := ⟨by decide, by decide, by simp [r], by simp [r]⟩
  have hs : Spelled (String.ofList (Text.trim " nav:a:b!c!d:e\n".toList)) r :=
    .both "nav" "a:b" "c!d:e"
  exact ⟨hb, hr, hs, (reads_exactly_spelled.1 _ _).2 ⟨hb, hr, hs⟩,
    reads_exactly_spelled.2.2 r hr (by decide)⟩

end Reference

end Stencil
