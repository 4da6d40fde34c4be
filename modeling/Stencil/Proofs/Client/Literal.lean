import Stencil.Client.Literal
import Stencil.Json.Read
import Stencil.Proofs.Expr.Lexeme

/-! # Literals in client functions

A literal is read back as the text that it was written for, by a reader of JSON and by an engine
that takes the line separators for line ends, and each of them stops at its last quote whatever
stands behind it. So no text can end its literal early and go on as source. -/

namespace Stencil

theorem Text.hexValue?_hexDigit : ∀ d < 16, hexValue? (hexDigit d) = some d := by
  decide

theorem Text.readHex?_hexDigits {n : Nat} (h : n < 0x10000) :
    readHex? (hexDigits 4 n) = some n := by
  have hdigit : ∀ m, hexValue? (hexDigit (m % 16)) = some (m % 16) := fun m =>
    hexValue?_hexDigit _ (Nat.mod_lt m (by decide))
  simp only [hexDigits, List.nil_append, List.cons_append, readHex?, readHexFrom, hdigit]
  congr 1
  omega

namespace Client

/-! ## The string literals of the language -/

def isLineEnd (c : Char) : Bool :=
  c == '\n' || c == '\r' || c == '\u2028' || c == '\u2029'

def letters : List (Char × Char) :=
  [('b', '\x08'), ('t', '\t'), ('n', '\n'), ('v', '\x0b'), ('f', '\x0c'), ('r', '\r')]

/-- What a backslash and one more character stand for. The end of a line stands for nothing. -/
def escapedPieces? (c : Char) : Option (List Json.Piece) :=
  match letters.lookup c with
  | some d => some [.char d]
  | none =>
    if c == 'u' || c == 'x' || isDigit c then none
    else if isLineEnd c then some []
    else some [.char c]

def pieceOf (n : Nat) : Json.Piece :=
  if 0xD800 ≤ n && n < 0xE000 then .unit n else .char (Char.ofNat n)

/-- An escape, from behind its backslash. There are no octal numbers. -/
def readEscape : List Char → Option (List Json.Piece × List Char)
  | 'u' :: a :: b :: c :: d :: cs => (Text.readHex? [a, b, c, d]).map fun n => ([pieceOf n], cs)
  | 'x' :: a :: b :: cs => (Text.readHex? [a, b]).map fun n => ([pieceOf n], cs)
  | '0' :: cs => if cs.head?.any isDigit then none else some ([.char '\x00'], cs)
  | '\r' :: '\n' :: cs => some ([], cs)
  | c :: cs => (escapedPieces? c).map fun ps => (ps, cs)
  | [] => none

theorem readEscape_rest {cs r : List Char} {ps : List Json.Piece}
    (h : readEscape cs = some (ps, r)) : r.length < cs.length := by
  have hmap {α : Type} {x : Option α} {f : α → List Json.Piece} {rest : List Char}
      (hx : x.map (fun a => (f a, rest)) = some (ps, r)) : r = rest := by
    obtain ⟨a, -, ha⟩ := Option.map_eq_some_iff.1 hx
    exact (Prod.mk.inj ha).2.symm
  unfold readEscape at h
  split at h
  · rw [hmap h]
    simp only [List.length_cons]
    omega
  · rw [hmap h]
    simp only [List.length_cons]
    omega
  · split at h
    · cases h
    · obtain ⟨-, rfl⟩ := Prod.mk.inj (Option.some.inj h)
      exact Nat.lt_succ_self _
  · obtain ⟨-, rfl⟩ := Prod.mk.inj (Option.some.inj h)
    simp only [List.length_cons]
    omega
  · rw [hmap h]
    exact Nat.lt_succ_self _
  · cases h

def readPieces : List Char → Option (List Json.Piece × List Char)
  | [] => none
  | c :: cs =>
    if c == '"' then some ([], cs)
    else if c == '\\' then
      match h : readEscape cs with
      | none => none
      | some (ps, r) =>
        have := readEscape_rest h
        (readPieces r).map fun (qs, r) => (ps ++ qs, r)
    else if isLineEnd c then none
    else (readPieces cs).map fun (qs, r) => (.char c :: qs, r)
termination_by cs => cs.length
decreasing_by
  all_goals simp only [List.length_cons]; omega

def readLiteral : List Char → Option (Option String × List Char)
  | '"' :: cs => (readPieces cs).map fun (ps, r) => ((Json.joinPieces ps).map String.ofList, r)
  | _ => none

def backslashes (u : List Char) : Nat :=
  (u.reverse.takeWhile (· == '\\')).length

def escapesNext (u : List Char) : Bool :=
  backslashes u % 2 == 1

/-- Between two quotes that nothing escapes, there is no third one, nothing that a line may end with
and nothing else that JSON does not allow. -/
structure Delimited (w : List Char) : Prop where
  bounds : ∃ body, w = '"' :: (body ++ ['"'])
  quotes : ∀ u v, w = u ++ '"' :: v → (escapesNext u = false ↔ u = [] ∨ v = [])
  visible : ∀ c ∈ w, 0x20 ≤ c.toNat ∧ c ≠ '\u2028' ∧ c ≠ '\u2029'

def replaced (c : Char) (w : List Char) (cs : List Char) : List Char :=
  cs.flatMap fun x => if x == c then w else [x]

/-! ## How characters are written -/

def shortEscapes : List (Char × Char) :=
  [('"', '"'), ('\\', '\\'), ('b', '\x08'), ('f', '\x0c'), ('n', '\n'), ('r', '\r'), ('t', '\t')]

inductive Spells (c : Char) : List Char → Prop where
  | plain : 0x20 ≤ c.toNat → c ≠ '"' → c ≠ '\\' → c ≠ '\u2028' → c ≠ '\u2029' → Spells c [c]
  | short {x : Char} : (x, c) ∈ shortEscapes → Spells c ['\\', x]
  | unit : c.toNat < 0x10000 → Spells c (Json.unitEscape c)

theorem shortEscape?_eq_some {c : Char} {w : List Char} (h : Json.shortEscape? c = some w) :
    ∃ x, w = ['\\', x] ∧ (x, c) ∈ shortEscapes := by
  have hcode : ∀ {n : Nat} {d : Char}, d.toNat = n → c.toNat = n → c = d := fun hd hc =>
    Char.toNat_inj.1 (hc.trans hd.symm)
  unfold Json.shortEscape? at h
  simp only [beq_iff_eq] at h
  split at h
  · next hc =>
    subst hc
    exact ⟨'"', (Option.some.inj h).symm, by decide⟩
  split at h
  · next hc =>
    subst hc
    exact ⟨'\\', (Option.some.inj h).symm, by decide⟩
  split at h
  · next hc => exact ⟨'b', (Option.some.inj h).symm, hcode (d := '\x08') rfl hc ▸ by decide⟩
  split at h
  · next hc => exact ⟨'f', (Option.some.inj h).symm, hcode (d := '\x0c') rfl hc ▸ by decide⟩
  split at h
  · next hc => exact ⟨'n', (Option.some.inj h).symm, hc ▸ by decide⟩
  split at h
  · next hc => exact ⟨'r', (Option.some.inj h).symm, hc ▸ by decide⟩
  split at h
  · next hc => exact ⟨'t', (Option.some.inj h).symm, hc ▸ by decide⟩
  · cases h

theorem isSeparator_iff {c : Char} : isSeparator c = true ↔ c = '\u2028' ∨ c = '\u2029' := by
  rw [isSeparator, Bool.or_eq_true, beq_iff_eq, beq_iff_eq]
  exact or_congr (Char.toNat_inj (d := '\u2028')) (Char.toNat_inj (d := '\u2029'))

theorem escapeChar_spells (c : Char) : Spells c (escapeChar c) := by
  unfold escapeChar
  split
  · next hs =>
    refine .unit ?_
    rcases isSeparator_iff.1 hs with rfl | rfl <;> decide
  · next hs =>
    obtain ⟨hline, hparagraph⟩ := not_or.1 fun h => hs (isSeparator_iff.2 h)
    unfold Json.escapeChar
    split
    · next w hw =>
      obtain ⟨x, rfl, hx⟩ := shortEscape?_eq_some hw
      exact .short hx
    · next hnone =>
      split
      · exact .unit (by omega)
      · next hc =>
        refine .plain (by omega) ?_ ?_ hline hparagraph
        all_goals
          rintro rfl
          cases hnone

theorem Spells.visible {c : Char} {w : List Char} (h : Spells c w) :
    ∀ x ∈ w, 0x20 ≤ x.toNat ∧ x ≠ '\u2028' ∧ x ≠ '\u2029' := by
  cases h with
  | plain hc _ _ hline hparagraph => exact List.forall_mem_singleton.2 ⟨hc, hline, hparagraph⟩
  | @short x hx =>
    have hall : ∀ p ∈ shortEscapes, ∀ y ∈ ['\\', p.1],
        0x20 ≤ y.toNat ∧ y ≠ '\u2028' ∧ y ≠ '\u2029' := by decide
    exact hall _ hx
  | unit _ =>
    have hdigit : ∀ d < 16, 0x20 ≤ (Text.hexDigit d).toNat ∧ Text.hexDigit d ≠ '\u2028' ∧
        Text.hexDigit d ≠ '\u2029' := by decide
    refine List.forall_mem_cons.2 ⟨by decide, List.forall_mem_cons.2 ⟨by decide, fun x hx => ?_⟩⟩
    obtain ⟨d, hd, rfl⟩ := Text.mem_hexDigits hx
    exact hdigit d hd

theorem unitEscape_eq {c : Char} (h : c.toNat < 0x10000) : ∃ a b d e,
    Json.unitEscape c = ['\\', 'u', a, b, d, e] ∧ Text.readHex? [a, b, d, e] = some c.toNat :=
  ⟨_, _, _, _, rfl, Text.readHex?_hexDigits h⟩

theorem pieceOf_toNat (c : Char) : pieceOf c.toNat = .char c := by
  have hvalid : c.toNat < 0xD800 ∨ 0xDFFF < c.toNat ∧ c.toNat < 0x110000 := c.valid
  rw [pieceOf, if_neg (by simp only [Bool.and_eq_true, decide_eq_true_eq]; omega),
    Char.ofNat_toNat]

/-! ## What readers make of it -/

/-- A reader that takes the spelling of a character for it and stops at a bare quote reads the
text. -/
theorem read_escapeChars {read : List Char → Option (List Json.Piece × List Char)}
    (hquote : ∀ rest, read ('"' :: rest) = some ([], rest))
    (hspells : ∀ {c w}, Spells c w → ∀ rest,
      read (w ++ rest) = (read rest).map fun p => (.char c :: p.1, p.2))
    (cs rest : List Char) :
    read (cs.flatMap escapeChar ++ '"' :: rest) = some (cs.map .char, rest) := by
  induction cs with
  | nil => exact hquote rest
  | cons c cs ih =>
    rw [List.flatMap_cons, List.append_assoc, hspells (escapeChar_spells c), ih]
    rfl

theorem joinPieces_chars (cs : List Char) : Json.joinPieces (cs.map .char) = some cs := by
  induction cs with
  | nil => rfl
  | cons c cs ih =>
    rw [List.map_cons, Json.joinPieces, ih]
    rfl

theorem json_readPieces_spells {c : Char} {w : List Char} (h : Spells c w) (rest : List Char) :
    Json.readPieces (w ++ rest) = (Json.readPieces rest).map fun p => (.char c :: p.1, p.2) := by
  cases h with
  | plain hc hq hb _ _ =>
    rw [List.singleton_append, Json.readPieces]
    · have hstop : (decide (c.toNat < 0x20) || c == '\\') = false := by
        simpa [hb] using hc
      rw [hstop]
      rfl
    · exact hq
    · intro a b d e cs hc'
      exact absurd hc' hb
    · intro d cs hc'
      exact absurd hc' hb
  | @short x hx =>
    simp only [shortEscapes, List.mem_cons, Prod.mk.injEq, List.not_mem_nil, or_false] at hx
    obtain ⟨rfl, rfl⟩ | ⟨rfl, rfl⟩ | ⟨rfl, rfl⟩ | ⟨rfl, rfl⟩ | ⟨rfl, rfl⟩ | ⟨rfl, rfl⟩ |
      ⟨rfl, rfl⟩ := hx
    all_goals rfl
  | unit hc =>
    obtain ⟨a, b, d, e, hw, hn⟩ := unitEscape_eq hc
    rw [hw]
    simp only [List.cons_append, List.nil_append, Json.readPieces, hn]
    have hpiece := pieceOf_toNat c
    rw [pieceOf] at hpiece
    rw [hpiece]

theorem readPieces_escape {cs r : List Char} {ps : List Json.Piece}
    (h : readEscape cs = some (ps, r)) :
    readPieces ('\\' :: cs) = (readPieces r).map fun p => (ps ++ p.1, p.2) := by
  rw [readPieces, if_neg (by decide), if_pos (by decide)]
  split
  · next hnone =>
    rw [h] at hnone
    cases hnone
  · next qs r' hsome =>
    rw [h] at hsome
    obtain ⟨rfl, rfl⟩ := Prod.mk.inj (Option.some.inj hsome)
    rfl

theorem readPieces_spells {c : Char} {w : List Char} (h : Spells c w) (rest : List Char) :
    readPieces (w ++ rest) = (readPieces rest).map fun p => (.char c :: p.1, p.2) := by
  cases h with
  | plain hc hq hb hline hparagraph =>
    have hends : isLineEnd c = false := by
      have hfeed : c ≠ '\n' := by
        rintro rfl
        exact absurd hc (by decide)
      have hreturn : c ≠ '\r' := by
        rintro rfl
        exact absurd hc (by decide)
      simp [isLineEnd, hfeed, hreturn, hline, hparagraph]
    rw [List.singleton_append, readPieces, if_neg (by simpa using hq), if_neg (by simpa using hb),
      hends]
    rfl
  | @short x hx =>
    have hescape : readEscape (x :: rest) = some ([.char c], rest) := by
      simp only [shortEscapes, List.mem_cons, Prod.mk.injEq, List.not_mem_nil, or_false] at hx
      obtain ⟨rfl, rfl⟩ | ⟨rfl, rfl⟩ | ⟨rfl, rfl⟩ | ⟨rfl, rfl⟩ | ⟨rfl, rfl⟩ | ⟨rfl, rfl⟩ |
        ⟨rfl, rfl⟩ := hx
      all_goals rfl
    exact readPieces_escape hescape
  | unit hc =>
    obtain ⟨a, b, d, e, hw, hn⟩ := unitEscape_eq hc
    have hescape : readEscape ('u' :: a :: b :: d :: e :: rest) = some ([.char c], rest) := by
      rw [readEscape, hn, Option.map_some, pieceOf_toNat]
    rw [hw]
    exact readPieces_escape hescape

theorem toList_literal (s : String) :
    (literal s).toList = '"' :: (s.toList.flatMap escapeChar ++ ['"']) :=
  String.toList_ofList

theorem readLiteral_literal (s : String) (rest : List Char) :
    readLiteral ((literal s).toList ++ rest) = some (some s, rest) := by
  have hbody := read_escapeChars (fun rest => by rw [readPieces, if_pos (by decide)])
    readPieces_spells s.toList rest
  rw [toList_literal, List.cons_append, List.append_assoc, List.singleton_append,
    readLiteral, hbody,
    Option.map_some]
  simp only [joinPieces_chars, Option.map_some, String.ofList_toList]

theorem readText_literal (s : String) (rest : List Char) :
    Json.readText (s.toList.flatMap escapeChar ++ '"' :: rest) = some (some s, rest) := by
  have hbody := read_escapeChars (fun rest => by rw [Json.readPieces]) json_readPieces_spells
    s.toList rest
  rw [Json.readText, hbody, Option.map_some]
  simp only [joinPieces_chars, Option.map_some, String.ofList_toList]

theorem readValue?_literal (s : String) : Json.readValue? (literal s) = some (.str s) := by
  have hread : ∀ fuel, Json.readTree (fuel + 1) (literal s).toList = some (.str (some s), []) := by
    intro fuel
    rw [toList_literal, Json.readTree]
    have hskip : Json.skipSpace ('"' :: (s.toList.flatMap escapeChar ++ ['"'])) =
        '"' :: (s.toList.flatMap escapeChar ++ ['"']) := rfl
    simp only [hskip, readText_literal, Option.map_some]
  rw [Json.readValue?, Json.read?]
  simp only [hread]
  rfl

theorem literal_injective : Function.Injective literal := by
  intro s t h
  have hread := (readValue?_literal s).symm.trans (h ▸ readValue?_literal t)
  exact Value.str.inj (Option.some.inj hread)

/-! ## Where a literal ends -/

theorem quoted_append {u w : List Char} (h : ∀ c ∈ u, c ≠ '"' ∧ c ≠ '\\')
    (hw : Expr.Quoted '"' w) : Expr.Quoted '"' (u ++ w) := by
  induction u with
  | nil => exact hw
  | cons c u ih =>
    obtain ⟨hc, hu⟩ := List.forall_mem_cons.1 h
    exact .char hc.1 hc.2 (ih hu)

theorem Spells.quoted {c : Char} {w r : List Char} (h : Spells c w) (hr : Expr.Quoted '"' r) :
    Expr.Quoted '"' (w ++ r) := by
  cases h with
  | plain _ hquote hback _ _ => exact .char hquote hback hr
  | short _ => exact .escape _ hr
  | unit _ =>
    have hdigit : ∀ d < 16, Text.hexDigit d ≠ '"' ∧ Text.hexDigit d ≠ '\\' := by decide
    refine .escape 'u' (quoted_append (fun x hx => ?_) hr)
    obtain ⟨d, hd, rfl⟩ := Text.mem_hexDigits hx
    exact hdigit d hd

theorem quoted_escapeChars (cs : List Char) :
    Expr.Quoted '"' (cs.flatMap escapeChar ++ ['"']) := by
  induction cs with
  | nil => exact .close
  | cons c cs ih =>
    rw [List.flatMap_cons, List.append_assoc]
    exact (escapeChar_spells c).quoted ih

theorem backslashes_append (w u : List Char) : backslashes (w ++ u) =
    if backslashes u = u.length then backslashes u + backslashes w else backslashes u := by
  have hrun : backslashes (w ++ u) = ((u.reverse ++ w.reverse).takeWhile (· == '\\')).length := by
    rw [backslashes, List.reverse_append]
  rw [hrun, List.takeWhile_append]
  by_cases hall : backslashes u = u.length
  · have hreverse : (u.reverse.takeWhile (· == '\\')).length = u.reverse.length :=
      hall.trans List.length_reverse.symm
    rw [if_pos hall, if_pos hreverse, List.length_append, ← hreverse]
    rfl
  · have hreverse : (u.reverse.takeWhile (· == '\\')).length ≠ u.reverse.length := fun h =>
      hall (h.trans List.length_reverse)
    rw [if_neg hall, if_neg hreverse]
    rfl

theorem escapesNext_append {w : List Char} (h : backslashes w % 2 = 0) (u : List Char) :
    escapesNext (w ++ u) = escapesNext u := by
  rw [escapesNext, backslashes_append, escapesNext]
  split
  · rw [Nat.add_mod, h, Nat.add_zero, Nat.mod_mod]
  · rfl

theorem escapesNext_cons {c : Char} (h : c ≠ '\\') (u : List Char) :
    escapesNext (c :: u) = escapesNext u :=
  escapesNext_append (w := [c]) (by simp [backslashes, h]) u

theorem escapesNext_escape (c : Char) (u : List Char) :
    escapesNext ('\\' :: c :: u) = escapesNext u := by
  refine escapesNext_append (w := ['\\', c]) ?_ u
  by_cases hc : c = '\\' <;> simp [backslashes, hc]

/-- Of the quotes behind the first one only the last is not escaped. -/
theorem escapesNext_quoted {w : List Char} (h : Expr.Quoted '"' w) {u v : List Char}
    (hw : w = u ++ '"' :: v) : escapesNext u = false ↔ v = [] := by
  induction h generalizing u with
  | close =>
    cases u with
    | nil =>
      obtain ⟨-, rfl⟩ := List.cons.inj hw
      exact iff_of_true rfl rfl
    | cons a u =>
      obtain ⟨-, htail⟩ := List.cons.inj hw
      cases u <;> cases htail
  | @escape c cs hcs ih =>
    cases u with
    | nil => cases (List.cons.inj hw).1
    | cons a u =>
      obtain ⟨rfl, htail⟩ := List.cons.inj hw
      cases u with
      | nil =>
        obtain ⟨-, rfl⟩ := List.cons.inj htail
        refine iff_of_false (by decide) ?_
        rintro rfl
        cases hcs
      | cons b u =>
        obtain ⟨rfl, hrest⟩ := List.cons.inj htail
        rw [escapesNext_escape]
        exact ih hrest
  | @char c cs hquote hback _ ih =>
    cases u with
    | nil => exact absurd (List.cons.inj hw).1 hquote
    | cons a u =>
      obtain ⟨rfl, htail⟩ := List.cons.inj hw
      rw [escapesNext_cons hback]
      exact ih htail

theorem delimited_literal (s : String) : Delimited (literal s).toList := by
  refine ⟨⟨_, toList_literal s⟩, fun u v huv => ?_, fun c hc => ?_⟩
  · rw [toList_literal] at huv
    cases u with
    | nil => exact iff_of_true rfl (.inl rfl)
    | cons a u =>
      obtain ⟨rfl, hbody⟩ := List.cons.inj huv
      rw [escapesNext_cons (by decide), escapesNext_quoted (quoted_escapeChars s.toList) hbody]
      simp
  · rw [toList_literal, List.mem_cons, List.mem_append, List.mem_singleton] at hc
    rcases hc with rfl | hc | rfl
    · decide
    · obtain ⟨d, -, hc⟩ := List.mem_flatMap.1 hc
      exact (escapeChar_spells d).visible c hc
    · decide

/-! ## Replacing separators in JSON -/

theorem replaced_of_notMem {c : Char} {w cs : List Char} (h : c ∉ cs) : replaced c w cs = cs := by
  have hself : ∀ x ∈ cs, (if x == c then w else [x]) = [x] := fun x hx =>
    if_neg (by rw [beq_iff_eq]; rintro rfl; exact h hx)
  rw [replaced, List.flatMap_congr hself, List.flatMap_singleton']

theorem replaced_append (c : Char) (w u v : List Char) :
    replaced c w (u ++ v) = replaced c w u ++ replaced c w v :=
  List.flatMap_append

theorem replaced_escapeChar (c : Char) :
    replaced '\u2029' "\\u2029".toList (replaced '\u2028' "\\u2028".toList (Json.escapeChar c)) =
      escapeChar c := by
  by_cases hs : isSeparator c = true
  · rcases isSeparator_iff.1 hs with rfl | rfl <;> decide
  · have hsame : escapeChar c = Json.escapeChar c := if_neg hs
    have hvisible := (escapeChar_spells c).visible
    rw [hsame] at hvisible
    rw [replaced_of_notMem fun h => (hvisible _ h).2.1 rfl,
      replaced_of_notMem fun h => (hvisible _ h).2.2 rfl, hsame]

/-- A literal is what JSON writes, with the two separators replaced one after the other. -/
theorem literalChars_eq (cs : List Char) :
    literalChars cs = replaced '\u2029' "\\u2029".toList
      (replaced '\u2028' "\\u2028".toList (Json.quoteChars cs)) := by
  have hbody : replaced '\u2029' "\\u2029".toList
      (replaced '\u2028' "\\u2028".toList (cs.flatMap Json.escapeChar)) =
        cs.flatMap escapeChar := by
    induction cs with
    | nil => rfl
    | cons c cs ih =>
      rw [List.flatMap_cons, replaced_append, replaced_append, replaced_escapeChar, ih,
        List.flatMap_cons]
  have hquote : Json.quoteChars cs = ['"'] ++ (cs.flatMap Json.escapeChar ++ ['"']) := rfl
  rw [hquote]
  simp only [replaced_append, hbody]
  rfl

end Client

end Stencil
