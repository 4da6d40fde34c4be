import Mathlib.Data.List.Chain
import Stencil.Proofs.Template.Nesting
import Stencil.Template.Segment

/-! # Interpolated text

Splitting a text loses nothing: the segments written one after the other, with a backslash in front
of each marker that is literal, are the text again. The literal runs are as long as they can be, and
each expression goes up to the brace that closes its own. -/

namespace Stencil

/-- A literal run with a backslash in front of each marker that has a brace behind it. -/
def withBackslashes : List Char → List Char
  | [] => []
  | c :: cs =>
    (if isMarker c && cs.head? == some '\x7b' then ['\\'] else []) ++ c :: withBackslashes cs

def Segment.chars : Segment → List Char
  | .literal text => withBackslashes text.toList
  | .interpolation e escape _ =>
    (if escape then '#' else '!') :: '\x7b' :: (e.toList ++ ['\x7d'])

/-- An expression stands in a text from its offset up to the brace that closes its own. -/
def Segment.Stands (text : List Char) : Segment → Prop
  | .literal _ => True
  | .interpolation e _ offset => ∃ before rest, text = before ++ (e.toList ++ '\x7d' :: rest) ∧
      offset = Text.width before ∧
      closingOffset text offset '\x7b' = .ok (Text.width (before ++ e.toList))

/-! ## Markers -/

/-- No marker at the end of one text has its brace at the start of the other. -/
def Disjoined (u v : List Char) : Prop :=
  ∀ m ∈ u.getLast?, isMarker m = true → v.head? ≠ some '\x7b'

theorem withBackslashes_append {u v : List Char} (h : Disjoined u v) :
    withBackslashes (u ++ v) = withBackslashes u ++ withBackslashes v := by
  induction u with
  | nil => rfl
  | cons c u ih =>
    cases u with
    | nil =>
      cases hm : isMarker c with
      | false => simp [withBackslashes, hm]
      | true =>
        have hv : v.head? ≠ some '\x7b' := h c rfl hm
        simp [withBackslashes, hv]
    | cons d u =>
      have ih := ih fun m hm => h m (by simpa using hm)
      rw [List.cons_append, withBackslashes, ih, withBackslashes.eq_2 c (d :: u), List.append_assoc]
      rfl

theorem isMarker_iff {c : Char} : isMarker c = true ↔ c = '#' ∨ c = '!' := by
  simp [isMarker]

theorem marker?_eq_some {cs r : List Char} {lit : Bool} {m : Char}
    (h : marker? cs = some (lit, m, r)) : isMarker m = true ∧
      cs = (if lit then ['\\'] else []) ++ m :: '\x7b' :: r := by
  unfold marker? at h
  split at h
  · split at h
    · next hm =>
      obtain ⟨rfl, rfl, rfl⟩ : true = lit ∧ _ = m ∧ _ = r := by simpa using h
      exact ⟨hm, rfl⟩
    · cases h
  · split at h
    · next hm =>
      obtain ⟨rfl, rfl, rfl⟩ : false = lit ∧ _ = m ∧ _ = r := by simpa using h
      exact ⟨hm, rfl⟩
    · cases h
  · cases h

theorem marker?_literal {cs r : List Char} {m : Char} (h : marker? cs = some (true, m, r)) :
    isMarker m = true ∧ cs = '\\' :: m :: '\x7b' :: r :=
  marker?_eq_some h

theorem marker?_output {cs r : List Char} {m : Char} (h : marker? cs = some (false, m, r)) :
    isMarker m = true ∧ cs = m :: '\x7b' :: r :=
  marker?_eq_some h

/-- A marker that is passed has no brace behind it. -/
theorem head_ne_of_marker?_eq_none {c : Char} {cs : List Char} (h : marker? (c :: cs) = none)
    (hc : isMarker c = true) : cs.head? ≠ some '\x7b' := by
  intro hbrace
  cases cs with
  | nil => cases hbrace
  | cons d cs =>
    obtain rfl := Option.some.inj hbrace
    rcases isMarker_iff.1 hc with rfl | rfl
    · cases h
    · cases h

theorem width_marker {m : Char} (h : isMarker m = true) (cs : List Char) :
    Text.width (m :: '\x7b' :: cs) = 2 + Text.width cs := by
  rcases isMarker_iff.1 h with rfl | rfl
  · simp only [Text.width]
    change 1 + (1 + _) = _
    omega
  · simp only [Text.width]
    change 1 + (1 + _) = _
    omega

/-! ## What a segment starts with -/

theorem chars_consLiteral (acc : List Char) (ss : List Segment) :
    (consLiteral acc ss).flatMap Segment.chars =
      withBackslashes acc.reverse ++ ss.flatMap Segment.chars := by
  unfold consLiteral
  cases acc with
  | nil => rfl
  | cons c acc => simp [Segment.chars]

/-- What is written for the segments is the text, behind the literal run that was collected. -/
theorem chars_segmentsFrom {pos : Nat} {acc cs : List Char} {ss : List Segment}
    (h : segmentsFrom pos acc cs = .ok ss) (hacc : Disjoined acc.reverse cs) :
    ss.flatMap Segment.chars = withBackslashes acc.reverse ++ cs := by
  fun_induction segmentsFrom pos acc cs generalizing ss with
  | case1 pos acc cs m r hm _ ih =>
    obtain ⟨hmark, rfl⟩ := marker?_literal hm
    have hlast : Disjoined ('\x7b' :: m :: acc).reverse r := by
      intro x hx hmx
      obtain rfl : '\x7b' = x := by simpa using hx
      cases hmx
    have hrun : withBackslashes ('\x7b' :: m :: acc).reverse =
        withBackslashes acc.reverse ++ ['\\', m, '\x7b'] := by
      have hjoin : Disjoined acc.reverse [m, '\x7b'] := by
        intro x _ _ hx
        obtain rfl := Option.some.inj hx
        cases hmark
      have hpair : withBackslashes [m, '\x7b'] = ['\\', m, '\x7b'] := by
        simp [withBackslashes, hmark]
      rw [List.reverse_cons, List.reverse_cons, List.append_assoc, List.singleton_append,
        withBackslashes_append hjoin, hpair]
    rw [ih h hlast, hrun, List.append_assoc]
    rfl
  | case2 => cases h
  | case3 pos acc cs m r hm inner rest hc _ ih =>
    obtain ⟨hmark, rfl⟩ := marker?_output hm
    obtain ⟨more, hmore, h⟩ := bind_eq_ok.1 h
    obtain rfl := Except.ok.inj h
    have hsign : (if m == '#' then '#' else '!') = m := by
      rcases isMarker_iff.1 hmark with rfl | rfl <;> rfl
    have hr := closing_split hc
    have hrest := ih hmore (by intro x hx; cases hx)
    rw [chars_consLiteral, List.flatMap_cons, hrest, hr, Segment.chars, hsign]
    simp [withBackslashes, closerOf]
  | case4 pos acc _ =>
    obtain rfl := Except.ok.inj h
    rw [chars_consLiteral]
    rfl
  | case5 pos acc c r hm ih =>
    have hlast : Disjoined (c :: acc).reverse r := by
      intro x hx hmx
      obtain rfl : c = x := by simpa using hx
      exact head_ne_of_marker?_eq_none hm hmx
    have hjoin : Disjoined acc.reverse [c] := hacc
    have hone : withBackslashes [c] = [c] := by simp [withBackslashes]
    rw [ih h hlast, List.reverse_cons, withBackslashes_append hjoin, hone, List.append_assoc]
    rfl

/-! ## Literal runs -/

/-- No run is empty, and no run has another one behind it. -/
def Segment.AreMaximal (ss : List Segment) : Prop :=
  (∀ text, .literal text ∈ ss → text ≠ "") ∧
    ss.IsChain fun s t => s.isLiteral = false ∨ t.isLiteral = false

theorem areMaximal_consLiteral {acc : List Char} {ss : List Segment} (h : Segment.AreMaximal ss)
    (hhead : ∀ s ∈ ss.head?, s.isLiteral = false) : Segment.AreMaximal (consLiteral acc ss) := by
  unfold consLiteral
  cases acc with
  | nil => exact h
  | cons c acc =>
    obtain ⟨hne, hchain⟩ := h
    refine ⟨fun text hmem => ?_, hchain.cons fun t ht => .inr (hhead t ht)⟩
    rcases List.mem_cons.1 hmem with hmem | hmem
    · obtain rfl := Segment.literal.inj hmem
      simp
    · exact hne text hmem

theorem areMaximal_segmentsFrom {pos : Nat} {acc cs : List Char} {ss : List Segment}
    (h : segmentsFrom pos acc cs = .ok ss) : Segment.AreMaximal ss := by
  fun_induction segmentsFrom pos acc cs generalizing ss with
  | case1 _ _ _ _ _ _ _ ih => exact ih h
  | case2 => cases h
  | case3 pos acc cs m r _ inner rest _ _ ih =>
    obtain ⟨more, hmore, h⟩ := bind_eq_ok.1 h
    obtain rfl := Except.ok.inj h
    obtain ⟨hne, hchain⟩ := ih hmore
    refine areMaximal_consLiteral ⟨fun text hmem => ?_, hchain.cons fun t _ => .inl rfl⟩ ?_
    · rcases List.mem_cons.1 hmem with hmem | hmem
      · cases hmem
      · exact hne text hmem
    · intro s hs
      obtain rfl := Option.some.inj hs
      rfl
  | case4 pos acc _ =>
    obtain rfl := Except.ok.inj h
    exact areMaximal_consLiteral ⟨fun _ hmem => (by cases hmem), .nil⟩ fun s hs => by cases hs
  | case5 _ _ _ _ _ ih => exact ih h

/-! ## Expressions -/

theorem stands_of_mem_consLiteral {text acc : List Char} {ss : List Segment}
    (h : ∀ s ∈ ss, s.Stands text) : ∀ s ∈ consLiteral acc ss, s.Stands text := by
  unfold consLiteral
  cases acc with
  | nil => exact h
  | cons c acc => exact List.forall_mem_cons.2 ⟨trivial, h⟩

theorem stands_interpolation {before inner rest : List Char} {start : Nat}
    (hstart : Text.width before = start)
    (h : closing start '\x7b' (inner ++ '\x7d' :: rest) = .ok (inner, rest)) (escape : Bool) :
    (Segment.interpolation (String.ofList inner) escape start).Stands
      (before ++ (inner ++ '\x7d' :: rest)) := by
  refine ⟨before, rest, by rw [String.toList_ofList], hstart.symm, ?_⟩
  rw [closingOffset, ← hstart, dropBytes_width, hstart, h, String.toList_ofList, Text.width_append,
    hstart]
  rfl

theorem stands_segmentsFrom {before acc cs : List Char} {ss : List Segment}
    (h : segmentsFrom (Text.width before) acc cs = .ok ss) :
    ∀ s ∈ ss, s.Stands (before ++ cs) := by
  generalize hpos : Text.width before = pos at h
  fun_induction segmentsFrom pos acc cs generalizing ss before with
  | case1 pos acc cs m r hm _ ih =>
    obtain ⟨hmark, rfl⟩ := marker?_literal hm
    have hwidth : Text.width (before ++ ['\\', m, '\x7b']) = pos + 3 := by
      rw [Text.width_append, hpos, Text.width, width_marker hmark]
      rfl
    have hall := ih hwidth h
    rwa [List.append_assoc] at hall
  | case2 => cases h
  | case3 pos acc cs m r hm inner rest hc _ ih =>
    obtain ⟨hmark, rfl⟩ := marker?_output hm
    obtain ⟨more, hmore, h⟩ := bind_eq_ok.1 h
    obtain rfl := Except.ok.inj h
    obtain rfl := closing_split hc
    have hstart : Text.width (before ++ [m, '\x7b']) = pos + 2 := by
      rw [Text.width_append, hpos, width_marker hmark]
      rfl
    have hstop : Text.width (before ++ [m, '\x7b'] ++ (inner ++ ['\x7d'])) =
        pos + 2 + Text.width inner + 1 := by
      rw [Text.width_append, hstart, Text.width_append]
      rfl
    have hexpr := stands_interpolation hstart hc (m == '#')
    have hall := ih hstop hmore
    rw [List.append_assoc] at hexpr
    rw [List.append_assoc, List.append_assoc, List.append_assoc] at hall
    exact stands_of_mem_consLiteral (List.forall_mem_cons.2 ⟨hexpr, hall⟩)
  | case4 pos acc _ =>
    obtain rfl := Except.ok.inj h
    exact stands_of_mem_consLiteral fun s hs => by cases hs
  | case5 pos acc c r _ ih =>
    have hwidth : Text.width (before ++ [c]) = pos + c.utf8Size := by
      rw [Text.width_append, hpos]
      rfl
    have hall := ih hwidth h
    rwa [List.append_assoc] at hall

/-- **Splitting is lossless and canonical.** The segments of a text, written one after the other
with their markers, are the text. No literal run is empty or could be longer. And each expression is
what stands at its offset in the text, up to the brace that closes its own. -/
theorem segments_written {text : String} {ss : List Segment} (h : segments text = .ok ss) :
    ss.flatMap Segment.chars = text.toList ∧
      (∀ t, .literal t ∈ ss → t ≠ "") ∧
      ss.IsChain (fun s t => s.isLiteral = false ∨ t.isLiteral = false) ∧
      ∀ e escape offset, .interpolation e escape offset ∈ ss → ∃ before rest,
        text.toList = before ++ (e.toList ++ '\x7d' :: rest) ∧ offset = Text.width before ∧
        closingOffset text.toList offset '\x7b' = .ok (Text.width (before ++ e.toList)) := by
  obtain ⟨hne, hchain⟩ := areMaximal_segmentsFrom h
  refine ⟨?_, hne, hchain, fun e escape offset hmem => ?_⟩
  · exact chars_segmentsFrom h fun m hm => by cases hm
  · have hfrom : segmentsFrom (Text.width []) [] text.toList = .ok ss := h
    exact stands_segmentsFrom hfrom _ hmem

/-- Backslashes, doubled markers, a brace in a string of an expression and characters of several
bytes. -/
theorem segments_written_mixed :
    let text := "é\\#\x7bx##\x7b \x7ba: '\x7d'\x7d.a \x7d\\!\x7b!\x7bü\x7d"
    let e := " \x7ba: '\x7d'\x7d.a "
    let ss : List Segment := [.literal "é#\x7bx#", .interpolation e true 9, .literal "!\x7b",
      .interpolation "ü" false 27]
    segments text = .ok ss ∧ ss.flatMap Segment.chars = text.toList ∧
      ∃ before rest, text.toList = before ++ (e.toList ++ '\x7d' :: rest) ∧
        9 = Text.width before ∧
        closingOffset text.toList 9 '\x7b' = .ok (Text.width (before ++ e.toList)) := by
  intro text e ss
  have hsplit : segments text = .ok ss := by decide +kernel
  obtain ⟨hchars, -, -, hstand⟩ := segments_written hsplit
  exact ⟨hsplit, hchars, hstand e true 9 (by simp [ss])⟩

end Stencil
