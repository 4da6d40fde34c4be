import Stencil.Path

/-! # Normal paths

A normal path is written in one way only: it is the text of parts that are neither empty nor a
point, and taking that text apart gives the same parts back. So normal paths that name the same file
are equal. -/

namespace Stencil.Path

def IsName (n : String) : Prop :=
  n ≠ "" ∧ n ≠ "." ∧ '/' ∉ n.toList

theorem pieces_last {w : List Char} (h : '/' ∉ w) (acc : List Char) :
    pieces acc w = [String.ofList (acc.reverse ++ w)] := by
  induction w generalizing acc with
  | nil => rw [pieces, List.append_nil]
  | cons c w ih =>
    rw [List.mem_cons, not_or] at h
    have hc : ¬ (c == '/') = true := fun hc => h.1 (eq_of_beq hc).symm
    rw [pieces, if_neg hc, ih h.2, List.reverse_cons, List.append_assoc, List.singleton_append]

theorem pieces_slash {w : List Char} (h : '/' ∉ w) (acc cs : List Char) :
    pieces acc (w ++ '/' :: cs) = String.ofList (acc.reverse ++ w) :: pieces [] cs := by
  induction w generalizing acc with
  | nil => simp [pieces]
  | cons c w ih =>
    rw [List.mem_cons, not_or] at h
    have hc : ¬ (c == '/') = true := fun hc => h.1 (eq_of_beq hc).symm
    rw [List.cons_append, pieces, if_neg hc, ih h.2, List.reverse_cons, List.append_assoc,
      List.singleton_append]

theorem not_mem_pieces {acc cs : List Char} (hacc : '/' ∉ acc) :
    ∀ n ∈ pieces acc cs, '/' ∉ n.toList := by
  induction cs generalizing acc with
  | nil =>
    intro n hn
    rw [List.mem_singleton.1 hn, String.toList_ofList]
    simpa using hacc
  | cons c cs ih =>
    rw [pieces]
    split
    · intro n hn
      rcases List.mem_cons.1 hn with rfl | hn
      · rw [String.toList_ofList]
        simpa using hacc
      · exact ih (by simp) n hn
    · next hc =>
      refine ih ?_
      rw [List.mem_cons, not_or]
      exact ⟨fun he => hc (beq_iff_eq.2 he.symm), hacc⟩

theorem pieces_intercalate {n : String} {ns : List String} (h : ∀ x ∈ n :: ns, '/' ∉ x.toList) :
    pieces [] (String.intercalate "/" (n :: ns)).toList = n :: ns := by
  rw [String.toList_intercalate]
  induction ns generalizing n with
  | nil =>
    have hn := h n (List.mem_cons_self ..)
    simpa using pieces_last hn []
  | cons m ns ih =>
    obtain ⟨hn, hns⟩ := List.forall_mem_cons.1 h
    have hsplit : "/".toList.intercalate ((n :: m :: ns).map String.toList) =
        n.toList ++ '/' :: "/".toList.intercalate ((m :: ns).map String.toList) := by
      simp [List.intercalate]
    rw [hsplit, pieces_slash hn, ih hns]
    simp

theorem filter_names {ns : List String} (h : ∀ n ∈ ns, IsName n) :
    ns.filter (· != "") = ns ∧ ns.filter (· != ".") = ns := by
  constructor
  · exact List.filter_eq_self.2 fun n hn => bne_iff_ne.2 (h n hn).1
  · exact List.filter_eq_self.2 fun n hn => bne_iff_ne.2 (h n hn).2.1

theorem isAbsolute_intercalate {n : String} (h : IsName n) (ns : List String) :
    isAbsolute (String.intercalate "/" (n :: ns)) = false := by
  obtain ⟨hne, -, hslash⟩ := h
  cases hn : n.toList with
  | nil => exact absurd (String.toList_eq_nil_iff.1 hn) hne
  | cons c cs =>
    rw [hn] at hslash
    have hc : c ≠ '/' := fun hc => hslash (hc ▸ List.mem_cons_self ..)
    have hhead : (String.intercalate "/" (n :: ns)).toList.head? = some c := by
      rw [String.toList_intercalate]
      cases ns with
      | nil => simp [hn]
      | cons m ns => simp [List.intercalate, hn]
    rw [isAbsolute, hhead]
    simpa using hc

/-- Normal parts can be read off their text. -/
theorem parts_text {p : Parts} (h : ∀ n ∈ p.names, IsName n) : parts p.text = p := by
  obtain ⟨absolute, names⟩ := p
  cases names with
  | nil => cases absolute <;> decide
  | cons n ns =>
    replace h : ∀ x ∈ n :: ns, IsName x := h
    obtain ⟨hempty, hpoint⟩ := filter_names h
    obtain ⟨hn, hns⟩ := List.forall_mem_cons.1 h
    have hpieces := pieces_intercalate fun x hx => (h x hx).2.2
    cases absolute with
    | true =>
      have hchars : (Parts.text ⟨true, n :: ns⟩).toList =
          '/' :: (String.intercalate "/" (n :: ns)).toList := by
        simp [Parts.text]
      have habs : isAbsolute (Parts.text ⟨true, n :: ns⟩) = true := by
        rw [isAbsolute, hchars]
        rfl
      have hall : pieces [] (Parts.text ⟨true, n :: ns⟩).toList = "" :: n :: ns := by
        rw [hchars, pieces, if_pos (beq_self_eq_true _), hpieces]
        rfl
      rw [parts, if_pos habs, hall, List.filter_cons_of_neg (by decide), hempty, hpoint]
    | false =>
      have htext : Parts.text ⟨false, n :: ns⟩ = String.intercalate "/" (n :: ns) := by
        simp [Parts.text]
      have habs : ¬ isAbsolute (String.intercalate "/" (n :: ns)) = true := by
        rw [isAbsolute_intercalate hn]
        exact Bool.false_ne_true
      rw [htext, parts, if_neg habs, hpieces, hempty]
      dsimp only
      rw [(filter_names hns).2]

theorem resolveUp_subset (done ns : List String) : resolveUp done ns ⊆ done ++ ns := by
  fun_induction resolveUp done ns with
  | case1 done => simp
  | case2 done n ns hn ih =>
    intro x hx
    have hx := ih hx
    simp only [List.mem_append, List.mem_cons] at hx ⊢
    rcases hx with hx | hx
    · exact .inl (List.mem_of_mem_tail hx)
    · exact .inr (.inr hx)
  | case3 done n ns hn ih =>
    intro x hx
    have hx := ih hx
    simp only [List.mem_append, List.mem_cons] at hx ⊢
    rcases hx with (rfl | hx) | hx
    · exact .inr (.inl rfl)
    · exact .inl hx
    · exact .inr (.inr hx)

theorem isName_of_parts {path n : String} (hn : n ∈ (parts path).names) (hpoint : n ≠ ".") :
    IsName n := by
  have hpiece : n ∈ (pieces [] path.toList).filter (· != "") := by
    unfold parts at hn
    dsimp only at hn
    split at hn
    · exact (List.mem_filter.1 hn).1
    · split at hn
      · cases hn
      · next m ms hm =>
        rw [hm]
        rcases List.mem_cons.1 hn with rfl | hn
        · exact List.mem_cons_self ..
        · exact List.mem_cons_of_mem _ (List.mem_filter.1 hn).1
  obtain ⟨hmem, hne⟩ := List.mem_filter.1 hpiece
  exact ⟨bne_iff_ne.1 hne, hpoint, not_mem_pieces (by simp) n hmem⟩

theorem point_not_mem_parts (path : String) :
    "." ∉ (parts path).names.tail ∧ ((parts path).absolute = true → "." ∉ (parts path).names) := by
  have hfilter : ∀ ns : List String, "." ∉ ns.filter (· != ".") := by
    intro ns h
    exact absurd (List.mem_filter.1 h).2 (by decide)
  unfold parts
  dsimp only
  split
  · exact ⟨fun h => hfilter _ (List.mem_of_mem_tail h), fun _ => hfilter _⟩
  · split
    · exact ⟨nofun, nofun⟩
    · exact ⟨hfilter _, nofun⟩

/-- A normal path is the text of its parts. -/
theorem normalize_eq_text (path : String) :
    ∃ p : Parts, (∀ n ∈ p.names, IsName n) ∧ normalize path = p.text := by
  have hresolved : ∀ {ns : List String}, (∀ n ∈ ns, IsName n) → ∀ n ∈ resolveUp [] ns, IsName n :=
    fun hns n hn => hns n (by simpa using resolveUp_subset [] _ hn)
  obtain ⟨htail, habsolute⟩ := point_not_mem_parts path
  have hname : ∀ n ∈ (parts path).names, n ≠ "." → IsName n := fun n => isName_of_parts
  rw [normalize]
  generalize parts path = p at *
  obtain ⟨absolute, names⟩ := p
  cases absolute with
  | true =>
    refine ⟨⟨true, resolveUp [] names⟩, hresolved ?_, rfl⟩
    exact fun n hn => hname n hn fun he => habsolute rfl (he ▸ hn)
  | false =>
    cases names with
    | nil => exact ⟨⟨false, []⟩, nofun, rfl⟩
    | cons n ns =>
      have hns : ∀ m ∈ ns, IsName m :=
        fun m hm => hname m (List.mem_cons_of_mem _ hm) fun he => htail (he ▸ hm)
      by_cases hn : (n == "." || n == "..") = true
      · exact ⟨⟨true, resolveUp [] ns⟩, hresolved hns, if_pos hn⟩
      · refine ⟨⟨false, resolveUp [] (n :: ns)⟩, hresolved ?_, if_neg hn⟩
        rw [Bool.or_eq_true, not_or, beq_iff_eq] at hn
        exact List.forall_mem_cons.2 ⟨hname n (List.mem_cons_self ..) hn.1, hns⟩

theorem eq_of_same_normalize {a b : String} (h : same (normalize a) (normalize b) = true) :
    normalize a = normalize b := by
  obtain ⟨p, hp, ha⟩ := normalize_eq_text a
  obtain ⟨q, hq, hb⟩ := normalize_eq_text b
  rw [ha, hb, same, parts_text hp, parts_text hq, beq_iff_eq] at h
  rw [ha, hb, h]

end Stencil.Path
