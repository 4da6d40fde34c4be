import Stencil.Files
import Stencil.Text.Cursor

/-! # Stored texts

A text is stored with line feeds as its only line ends. So normalizing it once more, as reading
does, changes nothing about its lines. -/

namespace Stencil

namespace Text

theorem lineFeeds_eq {cs : List Char} (h : '\r' ∉ cs) : lineFeeds cs = cs := by
  induction cs with
  | nil => rfl
  | cons c cs ih =>
    obtain ⟨hc, hcs⟩ := not_or.1 (mt List.mem_cons.2 h)
    rw [lineFeeds]
    · rw [ih hcs]
    · rintro r rfl
      exact fun _ => hc rfl
    · rintro rfl
      exact hc rfl

theorem not_mem_lineFeeds (cs : List Char) : '\r' ∉ lineFeeds cs := by
  fun_induction lineFeeds cs with
  | case1 cs ih => simpa using ih
  | case2 cs _ ih => simpa using ih
  | case3 c cs _ hc ih =>
    rw [List.mem_cons, not_or]
    exact ⟨fun h => hc h.symm, ih⟩
  | case4 => exact List.not_mem_nil

theorem not_mem_normalizeChars (cs : List Char) : '\r' ∉ normalizeChars cs :=
  not_mem_lineFeeds _

/-- Without carriage returns there is only a byte order mark to lose. -/
theorem newlines_normalizeChars {cs : List Char} (h : '\r' ∉ cs) :
    Cursor.newlines (normalizeChars cs) = Cursor.newlines cs := by
  unfold normalizeChars
  cases cs with
  | nil => rfl
  | cons c cs =>
    rw [dropByteOrderMark]
    split
    · next hc =>
      have hne : c ≠ '\n' := by
        rw [beq_iff_eq.1 hc]
        decide
      rw [lineFeeds_eq fun hmem => h (List.mem_cons_of_mem c hmem), Cursor.newlines,
        Cursor.newlines, List.count_cons_of_ne hne]
    · rw [lineFeeds_eq h]

end Text

theorem length_lineStartsFrom (pos : Nat) (cs : List Char) :
    (lineStartsFrom pos cs).length = Cursor.newlines cs := by
  induction cs generalizing pos with
  | nil => rfl
  | cons c cs ih =>
    rw [lineStartsFrom]
    by_cases hc : c = '\n'
    · rw [if_pos (by simpa using hc), List.length_cons, ih, Cursor.newlines, Cursor.newlines, hc,
        List.count_cons_self]
    · rw [if_neg (by simpa using hc), ih, Cursor.newlines, Cursor.newlines,
        List.count_cons_of_ne hc]

theorem File.length_lineStarts (f : File) :
    f.lineStarts.length = 1 + Cursor.newlines f.source.toList := by
  rw [lineStarts, List.length_cons, length_lineStartsFrom, Nat.add_comm]

namespace Files

inductive Loaded : Files → Prop
  | empty : Loaded .empty
  | load {fs : Files} (path text : String) (before : Loaded fs) : Loaded (fs.load path text).2

theorem Loaded.not_mem {fs : Files} (h : fs.Loaded) :
    ∀ f ∈ fs.entries, '\r' ∉ f.source.toList := by
  have hstored : ∀ text : String, '\r' ∉ (Text.normalize text).toList := by
    intro text
    rw [Text.normalize, String.toList_ofList]
    exact Text.not_mem_normalizeChars _
  induction h with
  | empty => exact List.forall_mem_nil _
  | @load fs path text _ ih =>
    intro f hf
    rw [Files.load] at hf
    split at hf
    · obtain ⟨i, hi⟩ := List.mem_iff_getElem?.1 hf
      rw [List.getElem?_modify] at hi
      obtain ⟨g, hg, rfl⟩ := Option.map_eq_some_iff.1 hi
      split
      · exact hstored text
      · exact ih g (List.mem_of_getElem? hg)
    · rcases List.mem_append.1 hf with hf | hf
      · exact ih f hf
      · rw [List.mem_singleton.1 hf]
        exact hstored text

theorem get?_load (fs : Files) (path text : String) :
    ∃ f, (fs.load path text).2.get? (fs.load path text).1 = some f ∧
      f.source = Text.normalize text := by
  rw [Files.load]
  split
  · next id hid =>
    obtain ⟨hlt, -⟩ := List.findIdx?_eq_some_iff_getElem.1 hid
    refine ⟨{ fs.entries[id] with name := path, source := Text.normalize text }, ?_, rfl⟩
    rw [get?, List.getElem?_modify_eq, List.getElem?_eq_getElem hlt]
    rfl
  · exact ⟨⟨path, path, Text.normalize text⟩, by simp [get?], rfl⟩

theorem get?_of_locate? {fs : Files} {path : String} {id : Nat} {f : File}
    (h : fs.locate? path = some (id, f)) : fs.get? id = some f := by
  obtain ⟨i, -, h⟩ := Option.bind_eq_some_iff.1 h
  obtain ⟨g, hg, he⟩ := Option.map_eq_some_iff.1 h
  obtain ⟨rfl, rfl⟩ := Prod.mk.inj he
  exact hg

end Files

end Stencil
