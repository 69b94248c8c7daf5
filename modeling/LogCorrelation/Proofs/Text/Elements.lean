import LogCorrelation.Proofs.Text.Escaping
import LogCorrelation.Proofs.Text.Markup

/-!
# Proofs.Text.Elements — what stands outside the SVG elements of a text

An SVG element runs from its opening tag to the next closing tag.  `cutSvg` cuts every element of a text down to an empty
one, so it keeps what stands outside of them.

* `cutSvg_append`: a text in which no element begins is kept, whatever follows it.
* `cutSvg_element`: an element is cut down, whatever its text holds.
-/

namespace LogCorrelation.Text

/-! ### Tags that a text avoids -/

/-- Whether two texts part before either of them ends. -/
def part : List Char → List Char → Bool
  | t :: ts, c :: cs => t != c || part ts cs
  | _, _ => false

/-- Whether no `<` of a text begins this tag, whatever follows the text. -/
def avoids (tag : List Char) : List Char → Bool
  | [] => true
  | c :: cs => (c != '<' || part tag cs) && avoids tag cs

theorem part_append {ts cs : List Char} (h : part ts cs = true) (rest : List Char) : part ts (cs ++ rest) = true := by
  fun_induction part ts cs with
  | case1 t ts c cs ih =>
    rw [List.cons_append, part]
    rcases Bool.or_eq_true_iff.mp h with hne | hpart
    · rw [hne, Bool.true_or]
    · rw [ih hpart, Bool.or_true]
  | case2 => exact absurd h Bool.false_ne_true

theorem not_part_append (ts rest : List Char) : part ts (ts ++ rest) = false := by
  induction ts with
  | nil => rfl
  | cons t ts ih => rw [List.cons_append, part, ih, bne_self_eq_false, Bool.or_false]

section Avoids

variable {tag cs ds : List Char}

theorem avoids_cons {c : Char} :
    avoids tag (c :: cs) = true ↔ (c = '<' → part tag cs = true) ∧ avoids tag cs = true := by
  rw [avoids, Bool.and_eq_true, Bool.or_eq_true, bne_iff_ne, ne_eq, ← Decidable.imp_iff_not_or]

theorem avoids_append (hcs : avoids tag cs = true) (hds : avoids tag ds = true) : avoids tag (cs ++ ds) = true := by
  induction cs with
  | nil => exact hds
  | cons c cs ih =>
    obtain ⟨hc, hcs⟩ := avoids_cons.mp hcs
    exact avoids_cons.mpr ⟨fun h => part_append (hc h) ds, ih hcs⟩

theorem avoids_of_not_mem (h : '<' ∉ cs) : avoids tag cs = true := by
  induction cs with
  | nil => rfl
  | cons c cs ih =>
    obtain ⟨hc, hcs⟩ := not_or.mp (mt List.mem_cons.mpr h)
    exact avoids_cons.mpr ⟨fun heq => absurd heq.symm hc, ih hcs⟩

/-- The characters of a literal are those that it is made of. -/
theorem avoids_ofList (h : avoids tag cs = true) : avoids tag (String.ofList cs).toList = true := by
  rwa [String.toList_ofList]

theorem avoids_toList_append {s t : String} (hs : avoids tag s.toList = true) (ht : avoids tag t.toList = true) :
    avoids tag (s ++ t).toList = true := by
  rw [String.toList_append]
  exact avoids_append hs ht

theorem avoids_join {ss : List String} (h : ∀ s ∈ ss, avoids tag s.toList = true) :
    avoids tag (String.join ss).toList = true := by
  induction ss with
  | nil => rfl
  | cons s ss ih =>
    rw [String.join_cons]
    exact avoids_toList_append (h s List.mem_cons_self) (ih fun t ht => h t (List.mem_cons_of_mem s ht))

end Avoids

/-! ### Elements -/

/-- What an opening tag begins with, behind the `<`. -/
def svgTag : List Char := ['s', 'v', 'g']

/-- A closing tag, behind the `<`. -/
def svgEnd : List Char := ['/', 's', 'v', 'g', '>']

/-- A text with every SVG element cut down to an empty one, from outside of an element or from within one. -/
def cutSvg : Bool → List Char → List Char
  | _, [] => []
  | false, '<' :: 's' :: 'v' :: 'g' :: rest => "<svg/>".toList ++ cutSvg true rest
  | false, c :: rest => c :: cutSvg false rest
  | true, '<' :: '/' :: 's' :: 'v' :: 'g' :: '>' :: rest => cutSvg false rest
  | true, _ :: rest => cutSvg true rest

/-- A text that is one SVG element, with a line feed behind it. -/
def IsSvg (s : String) : Prop :=
  ∃ inner, s.toList = '<' :: svgTag ++ inner ++ '<' :: svgEnd ++ ['\n'] ∧ avoids svgEnd inner = true

theorem cutSvg_cons {c : Char} {cs : List Char} (h : c = '<' → part svgTag cs = true) :
    cutSvg false (c :: cs) = c :: cutSvg false cs := by
  rw [cutSvg]
  rintro rest rfl rfl
  exact absurd ((not_part_append svgTag rest).symm.trans (h rfl)) Bool.false_ne_true

theorem cutSvg_true_cons {c : Char} {cs : List Char} (h : c = '<' → part svgEnd cs = true) :
    cutSvg true (c :: cs) = cutSvg true cs := by
  rw [cutSvg]
  rintro rest rfl rfl
  exact absurd ((not_part_append svgEnd rest).symm.trans (h rfl)) Bool.false_ne_true

/-- **A text in which no element begins is kept.** -/
theorem cutSvg_append {cs : List Char} (h : avoids svgTag cs = true) (rest : List Char) :
    cutSvg false (cs ++ rest) = cs ++ cutSvg false rest := by
  induction cs with
  | nil => rfl
  | cons c cs ih =>
    obtain ⟨hc, hcs⟩ := avoids_cons.mp h
    rw [List.cons_append, cutSvg_cons fun heq => part_append (hc heq) rest, ih hcs, List.cons_append]

/-- What stands in an element is passed over up to the closing tag. -/
theorem cutSvg_true_append {cs : List Char} (h : avoids svgEnd cs = true) (rest : List Char) :
    cutSvg true (cs ++ '<' :: svgEnd ++ rest) = cutSvg false rest := by
  induction cs with
  | nil => rfl
  | cons c cs ih =>
    obtain ⟨hc, hcs⟩ := avoids_cons.mp h
    rw [List.append_assoc] at ih ⊢
    rw [List.cons_append, cutSvg_true_cons fun heq => part_append (hc heq) _, ih hcs]

/-- **An element is cut down**, whatever it holds and whatever follows it. -/
theorem cutSvg_element {s : String} (h : IsSvg s) (rest : List Char) :
    cutSvg false (s.toList ++ rest) = "<svg/>\n".toList ++ cutSvg false rest := by
  obtain ⟨inner, hs, hinner⟩ := h
  have hopen : s.toList ++ rest = '<' :: 's' :: 'v' :: 'g' :: (inner ++ '<' :: svgEnd ++ ('\n' :: rest)) := by
    simp [hs, svgTag]
  have hfeed : cutSvg false ('\n' :: rest) = '\n' :: cutSvg false rest := cutSvg_cons fun h => absurd h (by decide)
  rw [hopen, cutSvg, cutSvg_true_append hinner, hfeed]
  rfl

/-! ### Elements put together -/

/-- A text that begins an SVG element and does not end it. -/
def OpensSvg (s : String) : Prop := ∃ inner, s.toList = '<' :: svgTag ++ inner ∧ avoids svgEnd inner = true

theorem opensSvg_ofList {cs : List Char} (h : avoids svgEnd cs = true) :
    OpensSvg (String.ofList ('<' :: 's' :: 'v' :: 'g' :: cs)) :=
  ⟨cs, String.toList_ofList, h⟩

theorem OpensSvg.append {s t : String} (hs : OpensSvg s) (ht : avoids svgEnd t.toList = true) : OpensSvg (s ++ t) := by
  obtain ⟨inner, hinner, havoids⟩ := hs
  refine ⟨inner ++ t.toList, ?_, avoids_append havoids ht⟩
  rw [String.toList_append, hinner, List.append_assoc]

theorem OpensSvg.isSvg {s : String} (hs : OpensSvg s) : IsSvg (s ++ "</svg>\n") := by
  obtain ⟨inner, hinner, havoids⟩ := hs
  refine ⟨inner, ?_, havoids⟩
  rw [String.toList_append, hinner, List.append_assoc _ _ ['\n']]
  rfl

/-! ### Escaped text -/

/-- Escaped text begins no tag. -/
theorem not_mem_flatMap_entity {apostrophe : String} (h : '<' ∉ apostrophe.toList) (cs : List Char) :
    '<' ∉ cs.flatMap (entity apostrophe) := by
  intro hmem
  obtain ⟨c, -, hc⟩ := List.mem_flatMap.mp hmem
  unfold entity at hc
  split at hc
  · exact absurd hc (by decide)
  · exact absurd hc (by decide)
  · exact absurd hc (by decide)
  · exact absurd hc (by decide)
  · exact h hc
  · next hless _ _ _ => exact hless (List.mem_singleton.mp hc).symm

theorem not_mem_escapeSvg (s : String) : '<' ∉ (escapeSvg s).toList := by
  rw [escapeSvg, String.toList_ofList]
  exact not_mem_flatMap_entity (by decide) s.toList

theorem not_mem_escapeHtml (s : String) : '<' ∉ (escapeHtml s).toList := by
  rw [toList_escapeHtml]
  exact not_mem_flatMap_entity (by decide) s.toList

end LogCorrelation.Text
