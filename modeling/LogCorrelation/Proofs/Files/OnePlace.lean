import LogCorrelation.Files.Tree
import LogCorrelation.Proofs.Except

/-!
# Proofs.Files.OnePlace — what one place of a tree decides

* `write_eq`, `follow_of_writePlace_eq_ok`: writing fills the place that its path leads to, and no other.
* `read_put_of_writePlace_eq_ok`: the path then leads there still, and what was written is read back.
* `DifferOnlyAt`: two trees that hold different content in the file at one place.  No path leads elsewhere in one of
  them than in the other, since a file is no way to anything; so only reading that very file tells them apart.
-/

namespace LogCorrelation.Files.Tree

variable {α : Type}

/-! ### Writing -/

/-- The place that writing to a path fills. -/
def writePlace (t : Tree α) (path : String) : Except Fault (List String) := do
  match ← t.follow path with
  | .directory => .error .isADirectory
  | .place names slash =>
    if slash then .error .isADirectory
    match ← t.visit names with
    | some .directory => .error .isADirectory
    | _ => .ok names

theorem write_eq (t : Tree α) (path : String) (content : α) :
    t.write path content = (t.writePlace path).map (t.put · content) := by
  unfold write writePlace
  cases hfollow : t.follow path with
  | error fault => rfl
  | ok target =>
    cases target with
    | directory => rfl
    | place names slash =>
      cases slash with
      | true => rfl
      | false =>
        cases hvisit : t.visit names with
        | error fault => simp [bind, Except.bind, Except.map, hvisit]
        | ok entry =>
          rcases entry with _ | _ | _ <;> simp [bind, Except.bind, Except.map, hvisit]

theorem follow_of_writePlace_eq_ok {t : Tree α} {path : String} {place : List String}
    (h : t.writePlace path = .ok place) : t.follow path = .ok (.place place false) := by
  obtain ⟨target, hfollow, h⟩ := Except.bind_eq_ok_iff.mp h
  cases target with
  | directory => exact absurd h (by simp)
  | place names slash =>
    cases slash with
    | true => exact absurd h (by simp [bind, Except.bind])
    | false =>
      obtain ⟨entry, -, h⟩ := Except.bind_eq_ok_iff.mp h
      have hplace : names = place := by
        rcases entry with _ | _ | _
        · exact Except.ok.inj h
        · exact Except.ok.inj h
        · exact absurd h (by simp)
      rw [hfollow, hplace]

/-! ### Reading back -/

theorem visit_of_writePlace_eq_ok {t : Tree α} {path : String} {place : List String}
    (h : t.writePlace path = .ok place) : ∃ entry, t.visit place = .ok entry ∧ entry ≠ some .directory := by
  have hfollow := follow_of_writePlace_eq_ok h
  have hvisit : (t.visit place >>= fun entry => match entry with
      | some .directory => Except.error Fault.isADirectory
      | _ => .ok place) = .ok place := by
    rw [writePlace, hfollow] at h
    exact h
  obtain ⟨entry, hentry, hfile⟩ := Except.bind_eq_ok_iff.mp hvisit
  refine ⟨entry, hentry, ?_⟩
  rintro rfl
  exact absurd hfile (by simp)

theorem visit_put_of_ne (t : Tree α) {place other : List String} (h : other ≠ place) (content : α) :
    (t.put place content).visit other = t.visit other := by
  rw [visit, visit, find?_put_of_ne t h]

/-- What is put where no directory stands leaves every way as it was. -/
theorem enter_put_of_eq_ok {t : Tree α} {place : List String} (hplace : t.visit place ≠ .ok (some .directory))
    (content : α) {start names directory : List String} (h : t.enter start names = .ok directory) :
    (t.put place content).enter start names = .ok directory := by
  induction names generalizing start with
  | nil => exact h
  | cons name names ih =>
    rw [enter] at h ⊢
    by_cases hdot : name = "."
    · rw [if_pos hdot] at h ⊢
      exact ih h
    by_cases hup : name = ".."
    · rw [if_neg hdot, if_pos hup] at h ⊢
      exact ih h
    rw [if_neg hdot, if_neg hup] at h ⊢
    -- the way goes on only through a directory, and none stands at the place
    have hnext : start ++ [name] ≠ place := by
      rintro rfl
      split at h
      · exact absurd h (by simp)
      · next hvisit => exact hplace hvisit
      · exact absurd h (by simp)
      · exact absurd h (by simp)
    rw [visit_put_of_ne t hnext]
    cases hvisit : t.visit (start ++ [name]) with
    | error fault =>
      rw [hvisit] at h
      exact absurd h (by simp)
    | ok entry =>
      rw [hvisit] at h
      rcases entry with _ | _ | _
      · exact absurd h (by simp)
      · exact absurd h (by simp)
      · exact ih h

theorem follow_put_of_eq_ok {t : Tree α} {place : List String} (hplace : t.visit place ≠ .ok (some .directory))
    (content : α) {path : String} {target : Target} (h : t.follow path = .ok target) :
    (t.put place content).follow path = .ok target := by
  have hdirectory : (t.put place content).workingDirectory = t.workingDirectory := rfl
  unfold follow at h ⊢
  rw [hdirectory]
  by_cases hnul : path.toList.contains '\x00' = true
  · rw [if_pos hnul] at h
    exact absurd h (by simp)
  by_cases hempty : path = ""
  · rw [if_neg hnul, if_pos hempty] at h
    exact absurd h (by simp)
  by_cases hlimit : pathLimit < path.utf8ByteSize
  · rw [if_neg hnul, if_neg hempty, if_pos hlimit] at h
    exact absurd h (by simp)
  rw [if_neg hnul, if_neg hempty, if_neg hlimit] at h ⊢
  dsimp only at h ⊢
  cases hlast : (names path).getLast? with
  | none =>
    rw [hlast] at h
    exact h
  | some last =>
    rw [hlast] at h
    dsimp only at h ⊢
    split at h
    · next hdots =>
      rw [if_pos hdots]
      obtain ⟨parent, hparent, h⟩ := Except.bind_eq_ok_iff.mp h
      rw [enter_put_of_eq_ok hplace content hparent]
      exact h
    · next hdots =>
      rw [if_neg hdots]
      obtain ⟨parent, hparent, h⟩ := Except.bind_eq_ok_iff.mp h
      rw [enter_put_of_eq_ok hplace content hparent]
      exact h

/-- **What is written is read back** from the same path. -/
theorem read_put_of_writePlace_eq_ok {t : Tree α} {path : String} {place : List String}
    (h : t.writePlace path = .ok place) (content : α) : (t.put place content).read path = .ok content := by
  obtain ⟨entry, hvisit, hentry⟩ := visit_of_writePlace_eq_ok h
  have hplace : t.visit place ≠ .ok (some .directory) := by
    rw [hvisit]
    exact fun heq => hentry (Except.ok.inj heq)
  have hfollow := follow_put_of_eq_ok hplace content (follow_of_writePlace_eq_ok h)
  have hroot : place ≠ [] := by
    rintro rfl
    exact hplace rfl
  have hfilled : (t.put place content).visit place = .ok (some (.file content)) := by
    rw [visit] at hvisit ⊢
    split at hvisit
    · exact absurd hvisit (by simp)
    · next hlong => rw [if_neg hlong, find?_put_self t hroot]
  rw [read, openFile, hfollow]
  show ((t.put place content).visit place >>= _) >>= _ = _
  rw [hfilled]
  rfl

/-! ### Two trees -/

/-- Two trees with the same files and directories, up to what the file at one place holds. -/
structure DifferOnlyAt (place : List String) (t t' : Tree α) : Prop where
  workingDirectory : t.workingDirectory = t'.workingDirectory
  elsewhere : ∀ other, other ≠ place → t.find? other = t'.find? other
  left : ∃ a, t.find? place = some (.file a)
  right : ∃ a, t'.find? place = some (.file a)

namespace DifferOnlyAt

variable {place : List String} {t t' : Tree α}

theorem visit_eq_of_ne (h : DifferOnlyAt place t t') {other : List String} (hne : other ≠ place) :
    t.visit other = t'.visit other := by
  rw [visit, visit, h.elsewhere other hne]

/-- At the place itself both trees show a file, or both names are too long. -/
theorem visit_place (h : DifferOnlyAt place t t') :
    (∃ fault, t.visit place = .error fault ∧ t'.visit place = .error fault) ∨
      ∃ a b, t.visit place = .ok (some (.file a)) ∧ t'.visit place = .ok (some (.file b)) := by
  obtain ⟨a, ha⟩ := h.left
  obtain ⟨b, hb⟩ := h.right
  rw [visit, visit, ha, hb]
  split
  · exact .inl ⟨_, rfl, rfl⟩
  · exact .inr ⟨a, b, rfl, rfl⟩

theorem enter_eq (h : DifferOnlyAt place t t') (start names : List String) :
    t.enter start names = t'.enter start names := by
  induction names generalizing start with
  | nil => rfl
  | cons name names ih =>
    rw [enter, enter]
    by_cases hdot : name = "."
    · rw [if_pos hdot, if_pos hdot, ih]
    by_cases hup : name = ".."
    · rw [if_neg hdot, if_neg hdot, if_pos hup, if_pos hup, ih]
    rw [if_neg hdot, if_neg hdot, if_neg hup, if_neg hup]
    by_cases hplace : start ++ [name] = place
    · -- the way ends here: a file is not a directory, whatever it holds
      rw [hplace]
      obtain ⟨fault, ht, ht'⟩ | ⟨a, b, ht, ht'⟩ := h.visit_place <;> rw [ht, ht']
    · rw [h.visit_eq_of_ne hplace, ih]

theorem follow_eq (h : DifferOnlyAt place t t') (path : String) : t.follow path = t'.follow path := by
  unfold follow
  rw [h.workingDirectory]
  simp only [h.enter_eq]

/-- Opening a path gives the same in both trees, unless it leads to the file at the place. -/
theorem openFile_eq (h : DifferOnlyAt place t t') {path : String}
    (hpath : t.follow path ≠ .ok (.place place false)) : t.openFile path = t'.openFile path := by
  unfold openFile
  rw [← h.follow_eq path]
  cases hfollow : t.follow path with
  | error fault => rfl
  | ok target =>
    cases target with
    | directory => rfl
    | place names slash =>
      show (t.visit names >>= _) = (t'.visit names >>= _)
      by_cases hplace : names = place
      · -- the slash asks for a directory, and is refused whatever the file holds
        have hslash : slash = true := by
          cases slash with
          | true => rfl
          | false => exact absurd (hplace ▸ hfollow) hpath
        rw [hplace, hslash]
        obtain ⟨fault, ht, ht'⟩ | ⟨a, b, ht, ht'⟩ := h.visit_place
        · rw [ht, ht']
        · rw [ht, ht']
          rfl
      · rw [h.visit_eq_of_ne hplace]

/-- A path can be written to in both trees, at the same place, or in neither. -/
theorem writePlace_eq (h : DifferOnlyAt place t t') (path : String) : t.writePlace path = t'.writePlace path := by
  unfold writePlace
  rw [← h.follow_eq path]
  cases hfollow : t.follow path with
  | error fault => rfl
  | ok target =>
    cases target with
    | directory => rfl
    | place names slash =>
      cases slash with
      | true => rfl
      | false =>
        show (t.visit names >>= _) = (t'.visit names >>= _)
        by_cases hplace : names = place
        · rw [hplace]
          obtain ⟨fault, ht, ht'⟩ | ⟨a, b, ht, ht'⟩ := h.visit_place
          · rw [ht, ht']
          · rw [ht, ht']
            rfl
        · rw [h.visit_eq_of_ne hplace]

end DifferOnlyAt

end LogCorrelation.Files.Tree
