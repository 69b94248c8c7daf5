import LogCorrelation.Text.Markup

/-!
# Proofs.Text.Markup — escaped text determines the text

An entity begins with an ampersand and no character that stands for itself is one, so escaped text is taken apart from
left to right in one way only.
-/

namespace LogCorrelation.Text

theorem entity_append_inj {c d : Char} {cs ds : List Char}
    (h : entity "&apos;" c ++ cs = entity "&apos;" d ++ ds) : c = d ∧ cs = ds := by
  -- two entities part within their first three letters, and an entity and a plain character at the ampersand
  unfold entity at h
  split at h <;> split at h <;> simp_all <;> grind

theorem entity_append_ne_nil (c : Char) (cs : List Char) : entity "&apos;" c ++ cs ≠ [] := by
  unfold entity
  split <;> simp

theorem flatMap_entity_inj {cs ds : List Char} (h : cs.flatMap (entity "&apos;") = ds.flatMap (entity "&apos;")) :
    cs = ds := by
  induction cs generalizing ds with
  | nil =>
    cases ds with
    | nil => rfl
    | cons d ds => exact absurd h.symm (entity_append_ne_nil d _)
  | cons c cs ih =>
    cases ds with
    | nil => exact absurd h (entity_append_ne_nil c _)
    | cons d ds =>
      obtain ⟨rfl, hrest⟩ := entity_append_inj h
      rw [ih hrest]

/-- **Different texts are written differently** within SVG. -/
theorem escapeSvg_inj {s s' : String} : escapeSvg s = escapeSvg s' ↔ s = s' := by
  refine ⟨fun h => ?_, congrArg escapeSvg⟩
  have hlist := congrArg String.toList h
  rw [escapeSvg, escapeSvg, String.toList_ofList, String.toList_ofList] at hlist
  exact String.toList_inj.mp (flatMap_entity_inj hlist)

end LogCorrelation.Text
