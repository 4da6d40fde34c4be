import Stencil.Proofs.Render.Escape

/-! # Escaped texts read back

Escaping works on single characters, and no entity is the start of another one. So replacing
entities from left to right gives back the text that was escaped, whatever entities or parts of them
stood in it. -/

namespace Stencil

namespace Html

/-- A text with its entities replaced, in one pass from left to right. -/
def decodeChars : List Char → List Char
  | '&' :: 'a' :: 'm' :: 'p' :: ';' :: cs => '&' :: decodeChars cs
  | '&' :: 'l' :: 't' :: ';' :: cs => '<' :: decodeChars cs
  | '&' :: 'g' :: 't' :: ';' :: cs => '>' :: decodeChars cs
  | '&' :: 'q' :: 'u' :: 'o' :: 't' :: ';' :: cs => '"' :: decodeChars cs
  | c :: cs => c :: decodeChars cs
  | [] => []

def decode (s : String) : String :=
  String.ofList (decodeChars s.toList)

theorem decodeChars_cons {c : Char} (h : c ≠ '&') (cs : List Char) :
    decodeChars (c :: cs) = c :: decodeChars cs := by
  rw [decodeChars]
  all_goals
    rintro _ rfl
    exact absurd rfl h

def isMarkup (c : Char) : Bool :=
  c == '&' || c == '<' || c == '>' || c == '"'

theorem encodeChar_eq_self_iff {c : Char} : encodeChar c = [c] ↔ isMarkup c = false := by
  unfold encodeChar isMarkup
  by_cases h1 : c = '&'
  · simp [h1]
  · by_cases h2 : c = '<'
    · simp [h2]
    · by_cases h3 : c = '>'
      · simp [h3]
      · by_cases h4 : c = '"' <;> simp [h1, h2, h3, h4]

/-- The entity of a character is replaced by it, whatever follows. -/
theorem decodeChars_encodeChar (c : Char) (rest : List Char) :
    decodeChars (encodeChar c ++ rest) = c :: decodeChars rest := by
  cases hc : isMarkup c with
  | false =>
    rw [encodeChar_eq_self_iff.2 hc]
    refine decodeChars_cons ?_ rest
    rintro rfl
    cases hc
  | true =>
    simp only [isMarkup, Bool.or_eq_true, beq_iff_eq] at hc
    obtain ((rfl | rfl) | rfl) | rfl := hc <;> rfl

theorem decodeChars_encodeChars (cs : List Char) : decodeChars (encodeChars cs) = cs := by
  induction cs with
  | nil => rfl
  | cons c cs ih =>
    rw [encodeChars, List.flatMap_cons, decodeChars_encodeChar]
    exact congrArg (c :: ·) ih

theorem decode_encode (s : String) : decode (encode s) = s := by
  rw [decode, encode, String.toList_ofList, decodeChars_encodeChars, String.ofList_toList]

theorem encode_append (s t : String) : encode (s ++ t) = encode s ++ encode t := by
  rw [encode, String.toList_append, encodeChars, List.flatMap_append, String.ofList_append]
  rfl

theorem encode_of_not_isMarkup {s : String} (h : s.toList.any isMarkup = false) : encode s = s := by
  have hself : ∀ c ∈ s.toList, encodeChar c = [c] := fun c hc =>
    encodeChar_eq_self_iff.2 (eq_false_of_ne_true (List.any_eq_false.1 h c hc))
  rw [encode, encodeChars, List.flatMap_congr hself, List.flatMap_singleton', String.ofList_toList]

/-- **Escaping is reversible and works piece by piece.** The text of two texts is escaped as these
are, one pass over the entities undoes it, so no two texts are escaped alike; no bracket and no
quote is left; and to hand over a text in which there is nothing to escape makes no difference. -/
theorem encode_reversible :
    (∀ s t, encode (s ++ t) = encode s ++ encode t) ∧ (∀ s, decode (encode s) = s) ∧
    Function.Injective encode ∧ (∀ s, ∀ c ∈ (encode s).toList, c ≠ '<' ∧ c ≠ '>' ∧ c ≠ '"') ∧
    ∀ s, (if s.toList.any isMarkup then String.ofList (encodeChars s.toList) else s) =
      encode s := by
  refine ⟨encode_append, decode_encode, fun s t h => ?_, fun s c hc => ?_, fun s => ?_⟩
  · rw [← decode_encode s, h, decode_encode]
  · obtain ⟨u, v, hsplit⟩ := List.append_of_mem hc
    obtain ⟨h1, h2, h3, -⟩ := inert_encode hsplit
    exact ⟨h1, h2, h3⟩
  · split
    · rfl
    · next h => exact (encode_of_not_isMarkup (eq_false_of_ne_true h)).symm

/-- An entity in a text, cut in two, is escaped like any other characters. -/
theorem encode_reversible_entity :
    encode "&am" ++ encode "p;<" = "&amp;amp;&lt;" ∧ decode "&amp;amp;&lt;" = "&amp;<" ∧
      'l' ∈ "&amp;amp;&lt;".toList ∧ 'l' ≠ '<' ∧ encode "amp;" = "amp;" := by
  obtain ⟨happend, hdecode, -, hmarks, hshared⟩ := encode_reversible
  have htext : encode "&amp;<" = "&amp;amp;&lt;" := by decide
  have hmem : 'l' ∈ "&amp;amp;&lt;".toList := by decide
  refine ⟨(happend "&am" "p;<").symm.trans htext, htext ▸ hdecode "&amp;<", hmem, ?_,
    (hshared "amp;").symm⟩
  exact (hmarks "&amp;<" 'l' (htext ▸ hmem)).1

end Html

end Stencil
