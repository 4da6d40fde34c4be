import Stencil.Proofs.Template.Alongside

/-! # Directives on lines of their own

A directive is read alike in two sources that have it on a line of the same number. Only the options
in front of a reference could go on below the line. -/

namespace Stencil.Template

theorem alike_readMap {α β γ δ : Type} {R : α → β → Prop} {S : γ → δ → Prop}
    {Q : Cursor → Cursor → Prop} {r : Result (α × Cursor)} {r' : Result (β × Cursor)} {f : α → γ}
    {g : β → δ} (h : Alike (fun a b => R a.1 b.1 ∧ Q a.2 b.2) r r')
    (hf : ∀ a b, R a b → S (f a) (g b)) :
    Alike (fun a b => S a.1 b.1 ∧ Q a.2 b.2) (readMap f r) (readMap g r') := by
  cases h with
  | ok related => exact .ok ⟨hf _ _ related.1, related.2⟩
  | error code line => exact .error code line

abbrev EndsAlike {α : Type} (t t' : List Char) :
    Result (α × Cursor) → Result (α × Cursor) → Prop :=
  Alike fun a b => a.1 = b.1 ∧ Along [] t t' a.2 b.2

theorem EndsAlike.readMap {α β : Type} {t t' : List Char} {r r' : Result (α × Cursor)}
    (h : EndsAlike t t' r r') (f : α → β) : EndsAlike t t' (readMap f r) (readMap f r') :=
  alike_readMap h fun _ _ => congrArg f

def endsOptions : List Char → Bool
  | '(' :: cs => endsList cs
  | _ => true

section

variable {u t t' : List Char} {c d : Cursor} (hb : Below t t') (h : Along u t t' c d)

theorem strayText_alike {α β : Type} {R : α → β → Prop} (h : c.line = d.line) :
    Alike R (.error (strayText c)) (.error (strayText d)) :=
  .error rfl (congrArg some h)

include hb h

theorem readExprLine_alike {word : String} {v : List Char} (hu : u = word.toList ++ v) :
    EndsAlike t t' (readExprLine word c) (readExprLine word d) := by
  have he := (h.word hu String.length_toList).skipIndent hb
  unfold readExprLine
  dsimp only
  rw [(he.lineText hb).1, (he.lineText hb).2, he.line]
  split
  · exact .error rfl (congrArg some (he.skipLine hb).line)
  · refine (checkExpr_alike _ _ _ _).bind fun _ _ _ => ?_
    exact .ok ⟨rfl, he.skipLine hb⟩

theorem readBare_alike : EndsAlike t t' (readBare c) (readBare d) := by
  have he := h.skipIndent hb
  unfold readBare
  dsimp only
  rw [(he.lineText hb).1, (he.lineText hb).2]
  split
  · exact .ok ⟨rfl, he.skipLine hb⟩
  · exact strayText_alike he.line

theorem readBlockName_alike : EndsAlike t t' (readBlockName c) (readBlockName d) := by
  have he := h.skipIndent hb
  unfold readBlockName
  dsimp only
  rw [(he.lineText hb).1, (he.lineText hb).2]
  split
  · exact .ok ⟨rfl, he.skipLine hb⟩
  · exact .error rfl (congrArg some (he.skipLine hb).line)

theorem readOptions_alike (hu : endsOptions u = true) :
    Alike (fun a b => a.1 = b.1 ∧ ∃ v, Along v t t' a.2 b.2) (readOptions c) (readOptions d) := by
  unfold readOptions
  rw [h.left, h.right, head?_line hb.left (by decide), head?_line hb.right (by decide)]
  split
  · next hx =>
    obtain ⟨v, hv⟩ : ∃ v, u = '(' :: v := by
      cases u with
      | nil => cases hx
      | cons x v => exact ⟨v, by rw [Option.some.inj (beq_iff_eq.1 hx)]⟩
    have hends : endsList v = true := by
      rw [hv] at hu
      exact hu
    refine (readAttrs_alike hb h hv hends).bind ?_
    rintro ⟨as, c'⟩ ⟨_, d'⟩ ⟨rfl, inner, rest, -, h'⟩
    exact .ok ⟨rfl, _, h'.skipIndent hb⟩
  · exact .ok ⟨rfl, u, h⟩

theorem readReference_alike {word : String} {v : List Char} (hu : u = word.toList ++ v)
    (hv : endsOptions (v.dropWhile Text.isIndent) = true) :
    EndsAlike t t' (readReference word c) (readReference word d) := by
  have he := (h.word hu String.length_toList).skipIndent hb
  unfold readReference
  refine (readOptions_alike hb he hv).bind ?_
  rintro ⟨options, c'⟩ ⟨_, d'⟩ ⟨rfl, w, hw⟩
  dsimp only at hw ⊢
  rw [(hw.lineText hb).1, (hw.lineText hb).2]
  split
  · exact .error rfl (congrArg some (hw.skipLine hb).line)
  · exact .ok ⟨rfl, hw.skipLine hb⟩

theorem readEach_alike {word : String} {v : List Char} (hu : u = word.toList ++ v) :
    EndsAlike t t' (readEach word c) (readEach word d) := by
  have he := (h.word hu String.length_toList).skipIndent hb
  unfold readEach
  dsimp only
  rw [(he.lineText hb).1, (he.lineText hb).2, he.line]
  split
  · exact .error rfl (congrArg some (he.skipLine hb).line)
  · refine (checkExpr_alike _ _ _ _).bind fun _ _ _ => ?_
    exact .ok ⟨rfl, he.skipLine hb⟩

theorem readTextLine_alike {v : List Char} (hu : u = '|' :: v) :
    EndsAlike t t' (readTextLine c) (readTextLine d) := by
  have hstart : ∀ s, Stops (· != '\n') s →
      Text.startsWith (u ++ s) ['|', ' '] = Text.startsWith u ['|', ' '] := by
    intro s hs
    rw [hu]
    cases v with
    | cons x v => simp [Text.startsWith]
    | nil =>
      cases s with
      | nil => rfl
      | cons x s =>
        obtain rfl : x = '\n' := by simpa using hs x rfl
        rfl
  unfold readTextLine
  rw [h.left, h.right, hstart t hb.left, hstart t' hb.right]
  have he : ∃ w, Along w t t' (c.advance (if Text.startsWith u ['|', ' '] then 2 else 1))
      (d.advance (if Text.startsWith u ['|', ' '] then 2 else 1)) := by
    refine ⟨_, h.advance ?_⟩
    rw [hu]
    split
    · next hs =>
      cases v with
      | nil => cases hs
      | cons x v => simp
    · simp
  obtain ⟨w, hw⟩ := he
  dsimp only
  rw [(hw.lineText hb).1, (hw.lineText hb).2, hw.line]
  refine (checkText_alike _ _ _ _).bind fun _ _ _ => ?_
  exact .ok ⟨rfl, hw.skipLine hb⟩

omit hb h in
theorem firstWord_line {x : Char} {v s : List Char} (hx : Text.isBlank x = false)
    (hs : Stops (· != '\n') s) :
    Text.firstWord (x :: v ++ s) = (x :: v).takeWhile fun y => !Text.isBlank y := by
  have hstart : Text.trimStart (x :: v ++ s) = x :: v ++ s :=
    Stops.dropWhile (stops_cons hx)
  rw [Text.firstWord, hstart]
  exact (takeWhile_append_stops (stops_of_newline hs (by decide)) _).1

omit hb h in
theorem position_starts {p : Position}
    (hp : (if startsWord (.ofText u) "before" || startsWord (.ofText u) "prepend" then
        some Position.before
      else if startsWord (.ofText u) "after" || startsWord (.ofText u) "append" then some .after
      else if startsWord (.ofText u) "replace" then some .replace
      else none) = some p) : ∃ x v, u = x :: v ∧ Text.isBlank x = false := by
  have hword : ∀ w ∈ ["before", "prepend", "after", "append", "replace"],
      startsWord (.ofText u) w = true → ∃ x v, u = x :: v ∧ Text.isBlank x = false := by
    intro w hw hs
    obtain ⟨v, rfl⟩ := eq_append_of_startsWord hs
    simp only [List.mem_cons, List.not_mem_nil, or_false] at hw
    rcases hw with rfl | rfl | rfl | rfl | rfl
    all_goals exact ⟨_, _, rfl, by decide⟩
  simp only [List.forall_mem_cons] at hword
  obtain ⟨hbefore, hprepend, hafter, happend, hreplace, -⟩ := hword
  split at hp
  · next hs => exact (Bool.or_eq_true_iff.1 hs).elim hbefore hprepend
  · split at hp
    · next hs => exact (Bool.or_eq_true_iff.1 hs).elim hafter happend
    · split at hp
      · next hs => exact hreplace hs
      · cases hp

theorem readPosition_alike : Option.Rel (fun a b => a.1 = b.1 ∧ ∃ v, Along v t t' a.2 b.2)
    (readPosition c) (readPosition d) := by
  have hword : ∀ w ∈ ["before", "prepend", "after", "append", "replace"],
      startsWord c w = startsWord (.ofText u) w ∧ startsWord d w = startsWord (.ofText u) w := by
    intro w hw
    refine h.startsWord hb w ?_
    revert w
    decide
  simp only [List.forall_mem_cons] at hword
  obtain ⟨⟨b₁, b₂⟩, ⟨p₁, p₂⟩, ⟨a₁, a₂⟩, ⟨e₁, e₂⟩, ⟨r₁, r₂⟩, -⟩ := hword
  unfold readPosition
  rw [b₁, b₂, p₁, p₂, a₁, a₂, e₁, e₂, r₁, r₂, (h.lineText hb).1, (h.lineText hb).2, h.left,
    h.right]
  dsimp only
  split
  · next p hp =>
    obtain ⟨x, v, rfl, hx⟩ := position_starts hp
    rw [firstWord_line hx hb.left, firstWord_line hx hb.right]
    split
    · exact .none
    · exact .some ⟨rfl, _, h.advance (List.takeWhile_prefix _).length_le⟩
  · exact .none

theorem readPositioned_alike (kind : String → TokenKind) :
    EndsAlike t t'
      (match readPosition c with
        | some (p, f) => readReplace p f
        | none => readMap kind (readBlockName c))
      (match readPosition d with
        | some (p, f) => readReplace p f
        | none => readMap kind (readBlockName d)) := by
  have hposition := readPosition_alike hb h
  generalize readPosition c = x at hposition ⊢
  generalize readPosition d = y at hposition ⊢
  cases hposition with
  | none => exact (readBlockName_alike hb h).readMap kind
  | @some a b related =>
    obtain ⟨p, f⟩ := a
    obtain ⟨_, g⟩ := b
    obtain ⟨rfl, w, hw⟩ := related
    exact (readBlockName_alike hb hw).readMap _

theorem readReplaceLine_alike {v : List Char} (hu : u = "replace".toList ++ v) :
    EndsAlike t t' (readReplaceLine c) (readReplaceLine d) :=
  readPositioned_alike hb ((h.word hu (by decide)).skipIndent hb) _

theorem readBlockLine_alike {v : List Char} (hu : u = "block".toList ++ v) :
    EndsAlike t t' (readBlockLine c) (readBlockLine d) :=
  readPositioned_alike hb ((h.word hu (by decide)).skipIndent hb) _

theorem readElse_alike {v : List Char} (hu : u = "else".toList ++ v) :
    EndsAlike t t' (readElse c) (readElse d) := by
  have he := (h.word hu (n := 4) (by decide)).skipIndent hb
  obtain ⟨hc, hd⟩ := he.startsWord hb "if" (by decide)
  unfold readElse
  dsimp only
  rw [hc, hd]
  split
  · next hif =>
    obtain ⟨w, hw⟩ := eq_append_of_startsWord hif
    exact (readExprLine_alike hb he hw).readMap _
  · exact (readBare_alike hb he).readMap _

def takesOptions (word : String) : Bool :=
  word == "extends" || word == "extend" || word == "include"

theorem directives_alike : ∀ x ∈ directives, ∀ v, u = x.1.toList ++ v →
    (takesOptions x.1 = true → endsOptions (v.dropWhile Text.isIndent) = true) →
    EndsAlike t t' (x.2 c) (x.2 d) := by
  have expr : ∀ (word : String) (kind : String → TokenKind) v, u = word.toList ++ v →
      EndsAlike t t' (readWithExpr word kind c) (readWithExpr word kind d) :=
    fun _ _ _ hu => (readExprLine_alike hb h hu).readMap _
  have reference : ∀ (word : String) (kind : String → List Attribute → TokenKind) v,
      u = word.toList ++ v → (takesOptions word = true →
        endsOptions (v.dropWhile Text.isIndent) = true) → takesOptions word = true →
      EndsAlike t t' (readModule word kind c) (readModule word kind d) :=
    fun _ _ _ hu hv hw => (readReference_alike hb h hu (hv hw)).readMap _
  have replace : ∀ (word : String) (position : Position) (n : Nat) v, u = word.toList ++ v →
      word.toList.length = n →
      EndsAlike t t' (readReplace position (c.advance n)) (readReplace position (d.advance n)) :=
    fun _ _ _ _ hu hn => (readBlockName_alike hb (h.word hu hn)).readMap _
  have doctype : EndsAlike t t' (readDoctype c) (readDoctype d) := by
    unfold readDoctype
    dsimp only
    rw [(h.lineText hb).1, (h.lineText hb).2]
    exact .ok ⟨rfl, h.skipLine hb⟩
  have default : ∀ v, u = "default".toList ++ v →
      EndsAlike t t' (readDefault c) (readDefault d) :=
    fun _ hu => (readBare_alike hb (h.word hu (by decide))).readMap _
  simp only [directives, List.mem_cons, List.not_mem_nil, or_false, forall_eq_or_imp, forall_eq]
  exact ⟨fun _ _ _ => doctype, fun v hu _ => expr _ _ v hu, fun v hu _ => expr _ _ v hu,
    fun v hu _ => default v hu, fun v hu hv => reference _ _ v hu hv (by decide),
    fun v hu hv => reference _ _ v hu hv (by decide),
    fun v hu hv => reference _ _ v hu hv (by decide), fun _ hu _ => readReplaceLine_alike hb h hu,
    fun v hu _ => replace _ _ _ v hu (by decide), fun v hu _ => replace _ _ _ v hu (by decide),
    fun _ hu _ => readBlockLine_alike hb h hu, fun v hu _ => expr _ _ v hu,
    fun v hu _ => expr _ _ v hu, fun v hu _ => expr _ _ v hu,
    fun _ hu _ => readElse_alike hb h hu, fun v hu _ => expr _ _ v hu,
    fun _ hu _ => readEach_alike hb h hu, fun _ hu _ => readEach_alike hb h hu⟩

end

end Stencil.Template
