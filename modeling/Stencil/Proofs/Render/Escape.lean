import Stencil.Proofs.Render.Executed

/-! # Escaped values write no markup

In a program that writes all its values escaped, a bracket or a quote on the page was written by a
text of the program or around an attribute, and never came out of a value. It does not matter which
way a value took to its output: through loops, through options into modules, or back out of them in
content for their blocks. -/

namespace Stencil

namespace Html

def entities : List (List Char) :=
  [['&', 'a', 'm', 'p', ';'], ['&', 'l', 't', ';'], ['&', 'g', 't', ';'],
    ['&', 'q', 'u', 'o', 't', ';']]

/-- A character and what follows it cannot be read as markup. -/
def Inert (c : Char) (rest : List Char) : Prop :=
  c ≠ '<' ∧ c ≠ '>' ∧ c ≠ '"' ∧ (c = '&' → ∃ e ∈ entities, e <+: c :: rest)

theorem inert_of_mem_entities {e : List Char} (he : e ∈ entities) {u v : List Char} {c : Char}
    (h : e = u ++ c :: v) : Inert c v := by
  have hsigns : ∀ e ∈ entities, ∀ x ∈ e, x ≠ '<' ∧ x ≠ '>' ∧ x ≠ '"' := by decide
  have htail : ∀ e ∈ entities, '&' ∉ e.tail := by decide
  have hc := hsigns e he c (h ▸ List.mem_append_right u (List.mem_cons_self ..))
  refine ⟨hc.1, hc.2.1, hc.2.2, ?_⟩
  intro hamp
  -- An entity has its only ampersand in front.
  cases u with
  | nil => exact ⟨e, he, h ▸ List.prefix_rfl⟩
  | cons x u =>
    have hmem : '&' ∈ e.tail := by
      rw [h, hamp]
      exact List.mem_append_right u (List.mem_cons_self ..)
    exact absurd hmem (htail e he)

theorem encodeChar_cases (c : Char) :
    encodeChar c ∈ entities ∨
      (encodeChar c = [c] ∧ c ≠ '&' ∧ c ≠ '<' ∧ c ≠ '>' ∧ c ≠ '"') := by
  unfold encodeChar
  by_cases h1 : c = '&'
  · subst h1; exact .inl (by decide)
  · by_cases h2 : c = '<'
    · subst h2; exact .inl (by decide)
    · by_cases h3 : c = '>'
      · subst h3; exact .inl (by decide)
      · by_cases h4 : c = '"'
        · subst h4; exact .inl (by decide)
        · refine .inr ⟨?_, h1, h2, h3, h4⟩
          simp [h1, h2, h3, h4]

theorem inert_encodeChar {x c : Char} {u v : List Char} (h : encodeChar x = u ++ c :: v) :
    Inert c v := by
  rcases encodeChar_cases x with he | ⟨hx, h1, h2, h3, h4⟩
  · exact inert_of_mem_entities he h
  · rw [hx] at h
    obtain rfl : c = x := by
      have hmem : c ∈ [x] := h ▸ List.mem_append_right u (List.mem_cons_self ..)
      exact List.mem_singleton.1 hmem
    exact ⟨h2, h3, h4, fun hamp => absurd hamp h1⟩

theorem Inert.append {c : Char} {v : List Char} (h : Inert c v) (w : List Char) :
    Inert c (v ++ w) := by
  obtain ⟨h1, h2, h3, h4⟩ := h
  refine ⟨h1, h2, h3, ?_⟩
  intro hamp
  obtain ⟨e, he, hpre⟩ := h4 hamp
  exact ⟨e, he, hpre.trans (List.prefix_append (c :: v) w)⟩

theorem flatMap_eq_append_cons {α β : Type} {f : α → List β} {l : List α} {pre post : List β}
    {b : β} (h : l.flatMap f = pre ++ b :: post) :
    ∃ before a after u v, l = before ++ a :: after ∧ f a = u ++ b :: v ∧
      pre = before.flatMap f ++ u ∧ post = v ++ after.flatMap f := by
  induction l generalizing pre with
  | nil => simp at h
  | cons x l ih =>
    rw [List.flatMap_cons] at h
    rcases List.append_eq_append_iff.1 h with ⟨rest, hpre, hl⟩ | ⟨rest, hx, hrest⟩
    · obtain ⟨before, a, after, u, v, rfl, ha, rfl, rfl⟩ := ih hl
      refine ⟨x :: before, a, after, u, v, rfl, ha, ?_, rfl⟩
      rw [hpre, List.flatMap_cons, List.append_assoc]
    · cases rest with
      | nil =>
        have hl : l.flatMap f = [] ++ b :: post := hrest.symm
        obtain ⟨before, a, after, u, v, rfl, ha, hu, rfl⟩ := ih hl
        refine ⟨x :: before, a, after, u, v, rfl, ha, ?_, rfl⟩
        rw [List.flatMap_cons, List.append_assoc, ← hu, hx, List.append_nil, List.append_nil]
      | cons y rest =>
        obtain ⟨rfl, rfl⟩ := List.cons.inj hrest
        exact ⟨[], x, l, pre, rest, rfl, hx, rfl, rfl⟩

theorem inert_encodeChars {cs u v : List Char} {c : Char} (h : encodeChars cs = u ++ c :: v) :
    Inert c v := by
  obtain ⟨before, x, after, u', v', -, hx, -, rfl⟩ := flatMap_eq_append_cons h
  exact (inert_encodeChar hx).append _

theorem inert_encode {s : String} {u v : List Char} {c : Char}
    (h : (encode s).toList = u ++ c :: v) : Inert c v := by
  rw [encode, String.toList_ofList] at h
  exact inert_encodeChars h

theorem toList_join (ps : List Piece) : (join ps).toList = ps.flatMap fun p => p.text.toList := by
  rw [join, String.toList_join, List.flatMap_map]

end Html

/-! ## Programs that escape -/

def Instruction.escapes : Instruction → Bool
  | .output _ format _ => format != .raw
  | .attr _ _ escape _ => escape
  | _ => true

/-- Every output and every attribute of a program and of the programs inside it is escaped. -/
def ProgramOf.Escapes (p : Program) : Prop :=
  ∀ i ∈ insideProgram p, i.escapes = true

namespace Machine

/-- The markup that an instruction writes by itself: a text, or the name of an attribute and the
quotes around its value. -/
def Written.Marks (m : String) : Written → Prop
  | .text s => m = s
  | .attr name _ _ _ _ => m = " " ++ name ∨ m = " " ++ name ++ "=\"" ∨ m = "\""
  | _ => False

/-- What stands at a place in a piece: markup of the instruction itself, or else nothing that could
be read as markup. -/
def Safe (w : Written) (piece : Html.Piece) (c : Char) (rest : List Char) : Prop :=
  match piece with
  | .markup m => w.Marks m
  | .data _ => Html.Inert c rest

theorem inert_format {v : Value} {format : Format} (hf : format ≠ .raw) {u rest : List Char}
    {c : Char} (h : (Html.format v format).toList = u ++ c :: rest) : Html.Inert c rest := by
  cases format with
  | escape => exact Html.inert_encode h
  | raw => exact absurd rfl hf
  | classList => exact Html.inert_encode h

theorem safe_attr {name : String} {v : Value} {piece : Html.Piece}
    (hp : piece ∈ Html.attr name v true) {u rest : List Char} {c : Char}
    (h : piece.text.toList = u ++ c :: rest) (expr : String) (line : Nat) :
    Safe (.attr name expr true line v) piece c rest := by
  have hvalue : ∀ {s : String}, piece ∈ [Html.Piece.markup (" " ++ name ++ "=\""),
      .data (Html.encode s), .markup "\""] → Safe (.attr name expr true line v) piece c rest := by
    intro s hp
    rcases List.mem_cons.1 hp with rfl | hp
    · exact .inr (.inl rfl)
    · rcases List.mem_cons.1 hp with rfl | hp
      · exact Html.inert_encode h
      · rw [List.mem_singleton.1 hp]
        exact .inr (.inr rfl)
  cases v with
  | null => cases hp
  | bool b => cases b with
    | false => cases hp
    | true =>
      rw [List.mem_singleton.1 hp]
      exact .inl rfl
  | num n => exact hvalue hp
  | str s => exact hvalue hp
  | arr items => exact hvalue hp
  | obj fields => exact hvalue hp

theorem safe_written {w : Written} (hw : w.By fun i => i.escapes = true) {piece : Html.Piece}
    (hp : piece ∈ w.pieces) {u rest : List Char} {c : Char}
    (h : piece.text.toList = u ++ c :: rest) : Safe w piece c rest := by
  cases w with
  | text s =>
    rw [List.mem_singleton.1 hp]
    rfl
  | output expr format line v =>
    rw [List.mem_singleton.1 hp] at h ⊢
    exact inert_format (by simpa [Written.By, Instruction.escapes] using hw) h
  | attr name expr escape line v =>
    obtain rfl : escape = true := hw
    exact safe_attr hp h expr line
  | used dependency input => cases hp

theorem Written.By.mono {S T : Instruction → Prop} (hST : ∀ i, S i → T i) {w : Written}
    (h : w.By S) : w.By T := by
  cases w with
  | text s => exact hST _ h
  | output expr format line v => exact hST _ h
  | attr name expr escape line v => exact hST _ h
  | used dependency input => trivial

/-- The character `c`, with `pre` before it on the page, lies in a piece of what `w` has written,
and `rest` is what follows it in that piece. -/
def Contributes (ws : List Written) (pre : List Char) (c : Char) (w : Written) (piece : Html.Piece)
    (rest : List Char) : Prop :=
  ∃ before after ps qs u, ws = before ++ w :: after ∧ w.pieces = ps ++ piece :: qs ∧
    piece.text.toList = u ++ c :: rest ∧
    pre = (rendered before).html.toList ++ (Html.join ps).toList ++ u

theorem exists_contributes {ws : List Written} {pre post : List Char} {c : Char}
    (h : (rendered ws).html.toList = pre ++ c :: post) :
    ∃ w piece rest, Contributes ws pre c w piece rest := by
  have hflat : ∀ vs : List Written, (rendered vs).html.toList =
      vs.flatMap fun w => w.pieces.flatMap fun p => p.text.toList := by
    intro vs
    rw [Rendered.html, Html.toList_join, rendered, List.flatMap_assoc]
  rw [hflat] at h
  obtain ⟨before, w, after, u, v, hws, hw, rfl, -⟩ := Html.flatMap_eq_append_cons h
  obtain ⟨ps, piece, qs, u', v', hps, hpiece, rfl, -⟩ := Html.flatMap_eq_append_cons hw
  refine ⟨w, piece, v', before, after, ps, qs, u', hws, hps, hpiece, ?_⟩
  rw [hflat, Html.toList_join, List.append_assoc]

/-- **Escaped data cannot create markup.** A page that a program with escaped values renders was
written by instructions of the program. Each of its characters is markup that one of them writes by
itself, or comes from a value and is no `<`, `>` or `"`, and an `&` only where an entity starts. -/
theorem escaped_values_inert {p : Program} (hp : p.Escapes) {input : Value} {limit : Nat}
    {r : Rendered} (hr : p.render input limit = .ok r) :
    ∃ steps ws, advance limit steps (start p input) = .halted (.ok ws) ∧ rendered ws = r ∧
      (∀ w ∈ ws, w.By (· ∈ insideProgram p)) ∧
      ∀ pre c post, r.html.toList = pre ++ c :: post →
        ∃ w piece rest, Contributes ws pre c w piece rest ∧ Safe w piece c rest := by
  obtain ⟨steps, ws, hsteps, rfl, hby⟩ := written_by_program hr
  refine ⟨steps, ws, hsteps, rfl, hby, ?_⟩
  intro pre c post hpage
  obtain ⟨w, piece, rest, hc⟩ := exists_contributes hpage
  refine ⟨w, piece, rest, hc, ?_⟩
  obtain ⟨before, after, ps, qs, u, hws, hw, hpiece, -⟩ := hc
  have hmem : w ∈ ws := hws ▸ List.mem_append_right before (List.mem_cons_self ..)
  have hin : piece ∈ w.pieces := hw ▸ List.mem_append_right ps (List.mem_cons_self ..)
  exact safe_written ((hby w hmem).mono hp) hin hpiece

/-- A name goes unescaped through the text of an option into a module, and comes back to a block of
it. -/
theorem escaped_values_inert_layout :
    let layout : Program := ⟨none, "", "", [.text "<h1>", .output "title" .escape 1, .text "</h1>",
      .block "body" []], ["body"], ["title"]⟩
    let content : List Instruction := [.text "<a", .attr "href" "name" true 2, .text " class=\"",
      .output "[name, 'x']" .classList 2, .text "\">"]
    let p : Program := ⟨none, "", "", [.extension layout
      [⟨"title", .text [.text "Hi ", .expr "name"]⟩] [⟨"body", none, some content, none⟩] none 1],
      [], ["name"]⟩
    let input : Value := .obj [("name", .str "\"><b>&")]
    let name := "&quot;&gt;&lt;b&gt;&amp;"
    ∃ r, p.Escapes ∧ p.render input 3 = .ok r ∧
      r.html = "<h1>Hi " ++ name ++ "</h1><a href=\"" ++ name ++ "\" class=\"" ++ name ++ " x\">" ∧
      ∃ steps ws, advance 3 steps (start p input) = .halted (.ok ws) ∧ rendered ws = r ∧
        (∀ w ∈ ws, w.By (· ∈ insideProgram p)) ∧
        ∀ pre c post, r.html.toList = pre ++ c :: post →
          ∃ w piece rest, Contributes ws pre c w piece rest ∧ Safe w piece c rest := by
  intro layout content p input name
  have hp : p.Escapes := by
    unfold ProgramOf.Escapes
    decide +kernel
  obtain ⟨r, hr⟩ := exists_ok (x := p.render input 3) (by decide +kernel)
  have hpage : (p.render input 3).toOption.map (·.html) =
      some ("<h1>Hi " ++ name ++ "</h1><a href=\"" ++ name ++ "\" class=\"" ++ name ++
        " x\">") := by
    decide +kernel
  rw [hr] at hpage
  exact ⟨r, hp, hr, Option.some.inj hpage, escaped_values_inert hp hr⟩

end Machine

end Stencil
