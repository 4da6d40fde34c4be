import Stencil.Compile.Node
import Stencil.Render.Run

/-! # What a rendering shows

A rendering is looked at through its page: the text it wrote and the modules it used. How the text
was cut into pieces does not count, so joining neighbouring texts changes nothing. -/

namespace Stencil

/-- The text a rendering wrote, and the modules it used. -/
@[ext] structure Page where
  html : String
  records : List Record

namespace Page

def empty : Page :=
  ⟨"", []⟩

instance : Append Page where
  append p q := ⟨p.html ++ q.html, p.records ++ q.records⟩

@[simp] theorem html_append (p q : Page) : (p ++ q).html = p.html ++ q.html := rfl

@[simp] theorem records_append (p q : Page) : (p ++ q).records = p.records ++ q.records := rfl

theorem append_assoc (p q r : Page) : p ++ q ++ r = p ++ (q ++ r) := by
  ext1 <;> simp [String.append_assoc]

theorem empty_append (p : Page) : empty ++ p = p := by
  ext1 <;> simp [empty]

theorem append_empty (p : Page) : p ++ empty = p := by
  ext1 <;> simp [empty]

end Page

abbrev Shown := Except RenderError Page

namespace Shown

def nothing : Shown :=
  .ok .empty

def text (s : String) : Shown :=
  .ok ⟨s, []⟩

/-- One after the other; of two errors the first one counts. -/
def andThen (a b : Shown) : Shown := do
  let p ← a
  let q ← b
  return p ++ q

def inOrder : List Shown → Shown
  | [] => nothing
  | a :: as => andThen a (inOrder as)

def forEach {α : Type} (f : α → Shown) (as : List α) : Shown :=
  inOrder (as.map f)

/-- Show a body as often as its condition holds. A condition that still holds after the given number
of times is an error. -/
def repeatWhile (condition : Except RenderError Bool) (body : Shown) (limit : RenderError) :
    (times : Nat) → Shown
  | 0 => do
    if ← condition then throw limit
    nothing
  | n + 1 => do
    if ← condition then andThen body (repeatWhile condition body limit n) else nothing

theorem nothing_andThen (a : Shown) : andThen nothing a = a := by
  cases a with
  | error e => rfl
  | ok p => exact congrArg Except.ok p.empty_append

theorem andThen_nothing (a : Shown) : andThen a nothing = a := by
  cases a with
  | error e => rfl
  | ok p => exact congrArg Except.ok p.append_empty

theorem andThen_assoc (a b c : Shown) : andThen (andThen a b) c = andThen a (andThen b c) := by
  cases a with
  | error e => rfl
  | ok p => cases b with
    | error e => rfl
    | ok q => cases c with
      | error e => rfl
      | ok r => exact congrArg Except.ok (p.append_assoc q r)

theorem text_andThen_text (s t : String) : andThen (text s) (text t) = text (s ++ t) := by
  simp only [andThen, text, bind, Except.bind, pure, Except.pure, Except.ok.injEq]
  ext1 <;> simp

theorem text_empty : text "" = nothing := rfl

theorem inOrder_append (as bs : List Shown) :
    inOrder (as ++ bs) = andThen (inOrder as) (inOrder bs) := by
  induction as with
  | nil => exact (nothing_andThen _).symm
  | cons a as ih => rw [List.cons_append, inOrder, inOrder, ih, andThen_assoc]

theorem inOrder_singleton (a : Shown) : inOrder [a] = a :=
  andThen_nothing a

end Shown

theorem html_append (a b : Rendered) : (a ++ b).html = a.html ++ b.html := by
  simp [Rendered.html, Html.join, Rendered.append_def, String.join_append]

namespace Rendering

def shown (r : Rendering) : Shown :=
  r.map fun r => ⟨r.html, r.records⟩

theorem shown_ok_empty : shown (.ok .empty) = Shown.nothing := rfl

theorem shown_text (s : String) : shown (.ok (.ofPieces [.markup s])) = Shown.text s := by
  simp [shown, Except.map, Rendered.ofPieces, Rendered.html, Html.join, Html.Piece.text, Shown.text]

theorem shown_append (x y : Rendering) :
    shown (do let r ← x; let s ← y; return r ++ s) = Shown.andThen (shown x) (shown y) := by
  cases x with
  | error e => rfl
  | ok r => cases y with
    | error e => rfl
    | ok s => exact congrArg Except.ok (Page.ext (html_append r s) rfl)

theorem shown_bind {α : Type} (x : Except RenderError α) (f : α → Rendering) :
    shown (x >>= f) = x >>= fun a => shown (f a) := by
  cases x with
  | error e => rfl
  | ok a => rfl

theorem shown_forEach {α : Type} (f : α → Rendering) (g : α → Shown) (h : ∀ a, shown (f a) = g a)
    (as : List α) : shown (forEach f as) = Shown.forEach g as := by
  induction as with
  | nil => rfl
  | cons a as ih =>
    rw [forEach, shown_append, ih, h]
    rfl

theorem shown_repeatWhile (condition : Except RenderError Bool) (body : Unit → Rendering)
    (limit : RenderError) (n : Nat) :
    shown (repeatWhile (fun _ => condition) body limit n) =
      Shown.repeatWhile condition (shown (body ())) limit n := by
  induction n with
  | zero =>
    cases condition with
    | error e => rfl
    | ok b => cases b <;> rfl
  | succ n ih =>
    rw [repeatWhile, Shown.repeatWhile, shown_bind]
    cases condition with
    | error e => rfl
    | ok b =>
      cases b with
      | false => rfl
      | true => exact (shown_append _ _).trans (congrArg (Shown.andThen _) ih)

end Rendering

theorem Slot.run_eq (content : Option (Unit → Rendering)) :
    Slot.run content = content.getD (fun _ => .ok .empty) () := by
  cases content <;> rfl

section
variable (root : Binding) (limit : Nat) (f : Frame)

theorem shown_runAll_nil : (runAll root limit f []).shown = Shown.nothing := rfl

theorem shown_runAll_cons (i : Instruction) (is : List Instruction) :
    (runAll root limit f (i :: is)).shown =
      Shown.andThen (i.run root limit f).shown (runAll root limit f is).shown := by
  rw [runAll, Rendering.shown_append]

theorem shown_runAll_singleton (i : Instruction) :
    (runAll root limit f [i]).shown = (i.run root limit f).shown := by
  rw [shown_runAll_cons]
  exact Shown.andThen_nothing _

theorem shown_runAll_append (is js : List Instruction) :
    (runAll root limit f (is ++ js)).shown =
      Shown.andThen (runAll root limit f is).shown (runAll root limit f js).shown := by
  induction is with
  | nil => exact (Shown.nothing_andThen _).symm
  | cons i is ih =>
    rw [List.cons_append, shown_runAll_cons, shown_runAll_cons, ih, Shown.andThen_assoc]

theorem shown_run_text (s : String) :
    ((Instruction.text s).run root limit f).shown = Shown.text s :=
  Rendering.shown_text s

/-- Joining neighbouring texts does not change the page. -/
theorem shown_runAll_coalesce (is : List Instruction) :
    (runAll root limit f (coalesce is)).shown = (runAll root limit f is).shown := by
  fun_induction coalesce is with
  | case1 => rfl
  | case2 s is t rest h ih =>
    rw [shown_runAll_cons, shown_runAll_cons, ← ih, h, shown_runAll_cons, ← Shown.andThen_assoc]
    simp only [shown_run_text, Shown.text_andThen_text]
  | case3 s is hs hne ih =>
    obtain rfl : s = "" := by simpa using hs
    rw [shown_runAll_cons, ← ih, shown_run_text, Shown.text_empty, Shown.nothing_andThen]
  | case4 s is hs hne ih => rw [shown_runAll_cons, shown_runAll_cons, ← ih]
  | case5 i is hne ih => rw [shown_runAll_cons, shown_runAll_cons, ih]

end

end Stencil
