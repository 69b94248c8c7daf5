import LogCorrelation.Proofs.Text.Replacement
import LogCorrelation.Text.MarkupReader
import Mathlib.Logic.Function.Defs

/-!
# Proofs.Text.Escaping — text within HTML is harmless and is read back

Later replacements run over the entities that earlier ones wrote.  The ampersand is replaced first, and no other
character that is replaced stands in an entity, so the five replacements come to one pass.

* `escapeInTurn_eq`: five replacements are one pass.
* `isEscaped_escapeHtml`, `decodeHtml_escapeHtml`: what is written is harmless, and it is read back.
* `exists_escapeHtml_iff`: a text that is harmless is that of exactly one text.
-/

namespace LogCorrelation.Text

/-! ### One pass -/

/-- Escapes one kind of character after the other. -/
def escapeInTurn (cs : List Char) : List Char :=
  replaceEach '\'' "&#39;" <| replaceEach '"' "&quot;" <| replaceEach '>' "&gt;" <| replaceEach '<' "&lt;" <|
    replaceEach '&' "&amp;" cs

theorem toList_escapeHtml_eq_escapeInTurn (s : String) : (escapeHtml s).toList = escapeInTurn s.toList := by
  simp only [escapeHtml, toList_replace, escapeInTurn]

theorem replaceEach_flatMap (f : Char → List Char) (c : Char) (replacement : String) (cs : List Char) :
    replaceEach c replacement (cs.flatMap f) = cs.flatMap fun d => replaceEach c replacement (f d) := by
  simp [replaceEach, List.flatMap_assoc]

theorem escapeInTurn_flatMap (f : Char → List Char) (cs : List Char) :
    escapeInTurn (cs.flatMap f) = cs.flatMap fun d => escapeInTurn (f d) := by
  simp only [escapeInTurn, replaceEach_flatMap]

theorem escapeInTurn_singleton (d : Char) : escapeInTurn [d] = entity "&#39;" d := by
  unfold entity
  split
  · decide
  · decide
  · decide
  · decide
  · decide
  · next ampersand less greater quote apostrophe =>
    have keep : ∀ {x : Char} {replacement : String}, (d = x → False) → replaceEach x replacement [d] = [d] :=
      fun h => replaceEach_of_not_mem fun hmem => h (List.mem_singleton.mp hmem).symm
    rw [escapeInTurn, keep ampersand, keep less, keep greater, keep quote, keep apostrophe]

/-- Escaping one kind of character after the other comes to escaping each character once. -/
theorem escapeInTurn_eq (cs : List Char) : escapeInTurn cs = cs.flatMap (entity "&#39;") :=
  calc escapeInTurn cs = escapeInTurn (cs.flatMap fun d => [d]) := by rw [List.flatMap_singleton']
    _ = cs.flatMap fun d => escapeInTurn [d] := escapeInTurn_flatMap _ cs
    _ = cs.flatMap (entity "&#39;") := by simp only [escapeInTurn_singleton]

/-- An entity in the text is text like any other. -/
example : escapeInTurn "&lt;'a' & <".toList = "&amp;lt;&#39;a&#39; &amp; &lt;".toList := by decide

theorem toList_escapeHtml (s : String) : (escapeHtml s).toList = s.toList.flatMap (entity "&#39;") := by
  rw [toList_escapeHtml_eq_escapeInTurn, escapeInTurn_eq]

/-! ### Harmless text -/

/-- The characters that are replaced. -/
def special : List Char := ['&', '<', '>', '"', '\'']

theorem entity_of_not_mem {c : Char} (h : c ∉ special) : entity "&#39;" c = [c] := by
  simp only [special, List.mem_cons, List.not_mem_nil, or_false, not_or] at h
  obtain ⟨ampersand, less, greater, quote, apostrophe⟩ := h
  unfold entity
  split
  · exact absurd rfl ampersand
  · exact absurd rfl less
  · exact absurd rfl greater
  · exact absurd rfl quote
  · exact absurd rfl apostrophe
  · rfl

/-- Behind its ampersand an entity is plain. -/
theorem exists_letters {e : String} (h : e ∈ htmlEntities) :
    ∃ letters, e.toList = '&' :: letters ∧ ∀ c ∈ letters, c ∉ special := by
  simp only [htmlEntities, List.mem_cons, List.not_mem_nil, or_false] at h
  obtain rfl | rfl | rfl | rfl | rfl := h
  · exact ⟨['a', 'm', 'p', ';'], rfl, by simp [special]⟩
  · exact ⟨['l', 't', ';'], rfl, by simp [special]⟩
  · exact ⟨['g', 't', ';'], rfl, by simp [special]⟩
  · exact ⟨['q', 'u', 'o', 't', ';'], rfl, by simp [special]⟩
  · exact ⟨['#', '3', '9', ';'], rfl, by simp [special]⟩

theorem exists_entity {c : Char} (h : c ∈ special) : ∃ e ∈ htmlEntities, entity "&#39;" c = e.toList := by
  simp only [special, List.mem_cons, List.not_mem_nil, or_false] at h
  obtain rfl | rfl | rfl | rfl | rfl := h
  · exact ⟨"&amp;", by simp [htmlEntities], rfl⟩
  · exact ⟨"&lt;", by simp [htmlEntities], rfl⟩
  · exact ⟨"&gt;", by simp [htmlEntities], rfl⟩
  · exact ⟨"&quot;", by simp [htmlEntities], rfl⟩
  · exact ⟨"&#39;", by simp [htmlEntities], rfl⟩

theorem isEscaped_nil : IsEscaped [] := by
  refine ⟨fun c _ => List.not_mem_nil, fun rest h => ?_⟩
  exact absurd (List.suffix_nil.mp h) (List.cons_ne_nil _ _)

theorem isEscaped_cons {c : Char} {cs : List Char} :
    IsEscaped (c :: cs) ↔
      c ∉ ['<', '>', '"', '\''] ∧ (c = '&' → ∃ e ∈ htmlEntities, e.toList <+: c :: cs) ∧ IsEscaped cs := by
  constructor
  · rintro ⟨hharmless, hampersands⟩
    refine ⟨fun h => hharmless c h List.mem_cons_self, ?_, fun d hd hmem => ?_, fun rest h => ?_⟩
    · rintro rfl
      exact hampersands cs List.suffix_rfl
    · exact hharmless d hd (List.mem_cons_of_mem c hmem)
    · exact hampersands rest (h.trans (List.suffix_cons c cs))
  · rintro ⟨hc, hbegins, hcs⟩
    refine ⟨fun d hd hmem => ?_, fun rest h => ?_⟩
    · obtain rfl | hmem := List.mem_cons.mp hmem
      · exact hc hd
      · exact hcs.harmless d hd hmem
    · obtain heq | h := List.suffix_cons_iff.mp h
      · obtain ⟨rfl, rfl⟩ := List.cons.inj heq
        exact hbegins rfl
      · exact hcs.ampersands rest h

theorem IsEscaped.of_append (front : List Char) {rest : List Char} (h : IsEscaped (front ++ rest)) :
    IsEscaped rest := by
  induction front with
  | nil => exact h
  | cons c front ih => exact ih (isEscaped_cons.mp h).2.2

section Front

variable {cs : List Char} (h : IsEscaped cs)

include h

/-- Plain characters in front of harmless text. -/
theorem IsEscaped.plain_append {front : List Char} (hfront : ∀ c ∈ front, c ∉ special) :
    IsEscaped (front ++ cs) := by
  induction front with
  | nil => exact h
  | cons c front ih =>
    obtain ⟨hc, hfront⟩ := List.forall_mem_cons.mp hfront
    obtain ⟨hampersand, hharmless⟩ := not_or.mp (mt List.mem_cons.mpr hc)
    exact isEscaped_cons.mpr ⟨hharmless, fun heq => absurd heq hampersand, ih hfront⟩

/-- An entity in front of harmless text. -/
theorem IsEscaped.entity_append {e : String} (he : e ∈ htmlEntities) : IsEscaped (e.toList ++ cs) := by
  obtain ⟨letters, heq, hletters⟩ := exists_letters he
  have hprefix : e.toList <+: '&' :: (letters ++ cs) := by
    rw [heq]
    exact List.prefix_append _ _
  rw [heq, List.cons_append]
  exact isEscaped_cons.mpr ⟨by decide, fun _ => ⟨e, he, hprefix⟩, h.plain_append hletters⟩

/-- A character, replaced or plain, in front of harmless text. -/
theorem IsEscaped.replaced_append (c : Char) : IsEscaped (entity "&#39;" c ++ cs) := by
  by_cases hc : c ∈ special
  · obtain ⟨e, he, heq⟩ := exists_entity hc
    rw [heq]
    exact h.entity_append he
  · rw [entity_of_not_mem hc]
    exact h.plain_append (List.forall_mem_singleton.mpr hc)

end Front

/-- **Text within HTML is harmless.** -/
theorem isEscaped_escapeHtml (s : String) : IsEscaped (escapeHtml s).toList := by
  rw [toList_escapeHtml]
  induction s.toList with
  | nil => exact isEscaped_nil
  | cons c rest ih =>
    rw [List.flatMap_cons]
    exact ih.replaced_append c

/-! ### Reading back -/

theorem decodeHtml_append_entity (c : Char) (rest : List Char) :
    decodeHtml (entity "&#39;" c ++ rest) = c :: decodeHtml rest := by
  unfold entity
  split
  · rfl
  · rfl
  · rfl
  · rfl
  · rfl
  · next ampersand _ _ _ _ =>
    rw [List.cons_append, List.nil_append, decodeHtml]
    all_goals exact fun _ h => (ampersand h).elim

/-- **Reading entities undoes writing them.** -/
theorem decodeHtml_escapeHtml (s : String) : decodeHtml (escapeHtml s).toList = s.toList := by
  rw [toList_escapeHtml]
  induction s.toList with
  | nil => rfl
  | cons c rest ih => rw [List.flatMap_cons, decodeHtml_append_entity, ih]

/-- The first character of harmless text stands for itself, unless an entity begins there. -/
theorem IsEscaped.not_mem_special {c : Char} {rest : List Char} (h : IsEscaped (c :: rest))
    (hnone : ∀ e ∈ htmlEntities, ¬e.toList <+: c :: rest) : c ∉ special := by
  obtain ⟨hharmless, hbegins, -⟩ := isEscaped_cons.mp h
  refine mt List.mem_cons.mp (not_or.mpr ⟨fun hc => ?_, hharmless⟩)
  obtain ⟨e, he, hprefix⟩ := hbegins hc
  exact hnone e he hprefix

/-- Writing undoes reading, on harmless text. -/
theorem IsEscaped.flatMap_decodeHtml {cs : List Char} (h : IsEscaped cs) :
    (decodeHtml cs).flatMap (entity "&#39;") = cs := by
  fun_induction decodeHtml cs with
  | case1 => rfl
  | case2 rest ih =>
    rw [List.flatMap_cons, ih (h.of_append "&amp;".toList)]
    rfl
  | case3 rest ih =>
    rw [List.flatMap_cons, ih (h.of_append "&lt;".toList)]
    rfl
  | case4 rest ih =>
    rw [List.flatMap_cons, ih (h.of_append "&gt;".toList)]
    rfl
  | case5 rest ih =>
    rw [List.flatMap_cons, ih (h.of_append "&quot;".toList)]
    rfl
  | case6 rest ih =>
    rw [List.flatMap_cons, ih (h.of_append "&#39;".toList)]
    rfl
  | case7 c rest ampersand less greater quote apostrophe ih =>
    have hc : c ∉ special := by
      apply h.not_mem_special
      simp only [htmlEntities, List.forall_mem_cons]
      refine ⟨?_, ?_, ?_, ?_, ?_, List.forall_mem_nil _⟩
      all_goals
        rintro ⟨t, ht⟩
        obtain ⟨hc, hrest⟩ := List.cons.inj ht
      · exact ampersand t hc.symm hrest.symm
      · exact less t hc.symm hrest.symm
      · exact greater t hc.symm hrest.symm
      · exact quote t hc.symm hrest.symm
      · exact apostrophe t hc.symm hrest.symm
    rw [List.flatMap_cons, ih (h.of_append [c]), entity_of_not_mem hc, List.singleton_append]

theorem escapeHtml_injective : Function.Injective escapeHtml := by
  intro s t h
  rw [← String.toList_inj, ← decodeHtml_escapeHtml s, h, decodeHtml_escapeHtml]

/-- **What is written within HTML is what is harmless**: nothing else is written, and every harmless text is. -/
theorem exists_escapeHtml_iff (cs : List Char) : (∃ s, (escapeHtml s).toList = cs) ↔ IsEscaped cs := by
  constructor
  · rintro ⟨s, rfl⟩
    exact isEscaped_escapeHtml s
  · intro h
    refine ⟨String.ofList (decodeHtml cs), ?_⟩
    rw [toList_escapeHtml, String.toList_ofList, h.flatMap_decodeHtml]

/-- **Text within HTML is safe and reversible.**  The five replacements, one after the other, come to one pass over the
characters; what they write is harmless; and reading its entities from left to right gives the text back, whatever it
is, so that different texts are written differently. -/
theorem escapeHtml_safe_and_reversible :
    (∀ s, escapeHtml s = String.ofList (s.toList.flatMap (entity "&#39;")) ∧ IsEscaped (escapeHtml s).toList ∧
      decodeHtml (escapeHtml s).toList = s.toList) ∧ Function.Injective escapeHtml := by
  refine ⟨fun s => ⟨?_, isEscaped_escapeHtml s, decodeHtml_escapeHtml s⟩, escapeHtml_injective⟩
  rw [← toList_escapeHtml, String.ofList_toList]

end LogCorrelation.Text
