/-!
# Proofs.Except — the values that computations with errors return

What has to have happened when a computation with a step behind it returns a value or an error.  Proofs that a whole
run succeeds, or which error it has, take it apart with these.
-/

namespace Except

variable {ε δ α β : Type}

theorem map_eq_ok_iff {f : α → β} {x : Except ε α} {b : β} : x.map f = .ok b ↔ ∃ a, x = .ok a ∧ f a = b := by
  cases x <;> simp [Except.map]

theorem map_eq_error_iff {f : α → β} {x : Except ε α} {e : ε} : x.map f = .error e ↔ x = .error e := by
  cases x <;> simp [Except.map]

theorem bind_eq_ok_iff {f : α → Except ε β} {x : Except ε α} {b : β} :
    (x >>= f) = .ok b ↔ ∃ a, x = .ok a ∧ f a = .ok b := by
  cases x <;> simp [Bind.bind, Except.bind]

@[simp] theorem ok_bind (f : α → Except ε β) (a : α) : (Except.ok a >>= f) = f a := rfl

@[simp] theorem error_bind (f : α → Except ε β) (e : ε) : (Except.error e >>= f) = .error e := rfl

theorem mapError_eq_ok_iff {f : ε → δ} {x : Except ε α} {a : α} : x.mapError f = .ok a ↔ x = .ok a := by
  cases x with
  | error e =>
    show Except.error (f e) = .ok a ↔ Except.error e = .ok a
    simp
  | ok b =>
    show (Except.ok b : Except δ α) = .ok a ↔ (Except.ok b : Except ε α) = .ok a
    simp

end Except
