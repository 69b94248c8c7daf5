import LogCorrelation.Proofs.Decimal.Places

/-!
# Proofs.Decimal.FixedPlaces — what a double with fixed places looks like

`HasPlaces` says of a text what a double looks like with so many digits after the point, and does not say how it is
written: digits around a point, no needless zero in front, and the number that they denote is the multiple of
`10 ^ -places` nearest to the double, ties to even.

* `isWhole_iff`: digits without a needless zero in front are those of the number that they denote.
* `hasPlaces_fixed`: this is what `fixed` writes, and `HasPlaces.unique` says that it is one text only.
* `HasPlaces.mem`: the characters of such a text.
-/

namespace LogCorrelation.Decimal

open Float.Model.UnpackedFloat (Sign)

/-! ### Whole numbers -/

/-- Digits without a needless zero in front. -/
structure IsWhole (ds : List Char) : Prop where
  ne_nil : ds ≠ []
  isDigit : ∀ c ∈ ds, c.isDigit = true
  zero : ds.head? = some '0' → ds = ['0']

theorem isWhole_digits (n : ℕ) : IsWhole (digits n) where
  ne_nil := digits_ne_nil n
  isDigit _ hc := isDigit_of_mem_digits hc
  zero h := by
    rcases Nat.eq_zero_or_pos n with rfl | hn
    · rfl
    · exact absurd h (head?_digits hn)

theorem pow_pred_length_le_value {d : Char} {ds : List Char} (hd : d.isDigit = true) (hne : d ≠ '0') :
    10 ^ ds.length ≤ value (d :: ds) := by
  have hpos : 0 < digitValue d := by
    have hzero : digitValue '0' = 0 := by decide
    refine Nat.pos_of_ne_zero fun h => hne ((digitValue_inj hd (by decide)).mp ?_)
    rw [h, hzero]
  calc 10 ^ ds.length
      ≤ digitValue d * 10 ^ ds.length := Nat.le_mul_of_pos_left _ hpos
    _ ≤ digitValue d * 10 ^ ds.length + value ds := Nat.le_add_right _ _
    _ = value (d :: ds) := (value_cons d ds).symm

/-- Digits without a needless zero in front are those of the number that they denote. -/
theorem isWhole_iff {ds : List Char} : IsWhole ds ↔ ds = digits (value ds) := by
  constructor
  · intro h
    obtain ⟨d, rest, rfl⟩ := List.exists_cons_of_ne_nil h.ne_nil
    by_cases hzero : d = '0'
    · subst hzero
      rw [h.zero rfl]
      rfl
    · have hlow : 10 ^ rest.length ≤ value (d :: rest) :=
        pow_pred_length_le_value (h.isDigit d List.mem_cons_self) hzero
      have hhigh : value (d :: rest) < 10 ^ (rest.length + 1) := value_lt h.isDigit
      have hpos : 0 < value (d :: rest) := lt_of_lt_of_le (by positivity) hlow
      have hlength : (digits (value (d :: rest))).length = rest.length + 1 := by
        refine le_antisymm ((length_digits_le_iff (Nat.succ_pos _)).mpr hhigh) (Nat.succ_le_of_lt ?_)
        by_contra hshort
        rcases Nat.eq_zero_or_pos rest.length with hnone | hsome
        · exact absurd (length_digits_pos (value (d :: rest))) (by omega)
        · exact absurd ((length_digits_le_iff hsome).mp (Nat.not_lt.mp hshort)) (Nat.not_lt.mpr hlow)
      have hpadded := padded_eq_append_digits hpos hhigh
      rw [hlength, Nat.sub_self, List.replicate_zero, List.nil_append] at hpadded
      exact (padded_value h.isDigit).symm.trans hpadded
  · intro h
    rw [h]
    exact isWhole_digits _

/-! ### Texts -/

/-- Digits around a point that denote the multiple of `10 ^ -places` nearest to a number. -/
def TellsNearest (places : ℕ) (q : ℚ) (cs : List Char) : Prop :=
  ∃ whole fraction, cs = whole ++ '.' :: fraction ∧ IsWhole whole ∧ (∀ c ∈ fraction, c.isDigit = true) ∧
    fraction.length = places ∧ IsNearest (q * 10 ^ places) (value (whole ++ fraction))

/-- A text with a hyphen in front if it is that of a negative number. -/
def Signed (tells : List Char → Prop) : Sign → List Char → Prop
  | .positive, cs => tells cs
  | .negative, cs => ∃ ds, cs = '-' :: ds ∧ tells ds

/-- What a double looks like with so many digits after the point. -/
def HasPlaces (places : ℕ) (x : Float) (cs : List Char) : Prop :=
  match x.toModel.unpack with
  | .notANumber => cs = ['N', 'a', 'N']
  | .infinity sign => Signed (· = ['i', 'n', 'f']) sign cs
  | .zero sign => Signed (TellsNearest places 0) sign cs
  | .finite sign mantissa exponent _ => Signed (TellsNearest places (mantissa * 2 ^ exponent)) sign cs

theorem tellsNearest_allPlaces {places steps : ℕ} {q : ℚ} (h : IsNearest (q * 10 ^ places) steps) :
    TellsNearest places q (allPlaces places steps) := by
  refine ⟨_, _, rfl, isWhole_digits _, isDigit_padded _ _, length_padded _ _, ?_⟩
  rwa [value_allPlaces]

/-- Such digits are those of the nearest number of steps. -/
theorem TellsNearest.exists_steps {places : ℕ} {q : ℚ} {cs : List Char} (h : TellsNearest places q cs) :
    ∃ steps, IsNearest (q * 10 ^ places) steps ∧ cs = allPlaces places steps := by
  obtain ⟨whole, fraction, rfl, hwhole, hfraction, rfl, hnear⟩ := h
  have hlt := value_lt hfraction
  have hdiv : value (whole ++ fraction) / 10 ^ fraction.length = value whole := by
    rw [value_append, Nat.mul_comm, Nat.mul_add_div (by positivity), Nat.div_eq_of_lt hlt, Nat.add_zero]
  have hmod : value (whole ++ fraction) % 10 ^ fraction.length = value fraction := by
    rw [value_append, Nat.mul_add_mod', Nat.mod_eq_of_lt hlt]
  refine ⟨_, hnear, ?_⟩
  rw [allPlaces, hdiv, hmod, ← isWhole_iff.mp hwhole, padded_value hfraction]

theorem TellsNearest.unique {places : ℕ} {q : ℚ} {cs ds : List Char} (hcs : TellsNearest places q cs)
    (hds : TellsNearest places q ds) : cs = ds := by
  obtain ⟨m, hm, rfl⟩ := hcs.exists_steps
  obtain ⟨n, hn, rfl⟩ := hds.exists_steps
  rw [hm.unique hn]

theorem signed_append {tells : List Char → Prop} {cs : List Char} (h : tells cs) (sign : Sign) :
    Signed tells sign (signMark sign ++ cs) := by
  cases sign with
  | positive => exact h
  | negative => exact ⟨cs, rfl, h⟩

theorem Signed.unique {tells : List Char → Prop} (htells : ∀ {as bs}, tells as → tells bs → as = bs) {sign : Sign}
    {cs ds : List Char} (hcs : Signed tells sign cs) (hds : Signed tells sign ds) : cs = ds := by
  cases sign with
  | positive => exact htells hcs hds
  | negative =>
    obtain ⟨as, rfl, has⟩ := hcs
    obtain ⟨bs, rfl, hbs⟩ := hds
    rw [htells has hbs]

/-- **This is what `fixed` writes.** -/
theorem hasPlaces_fixed (places : ℕ) (x : Float) : HasPlaces places x (fixed places x).toList := by
  unfold HasPlaces fixed
  cases x.toModel.unpack with
  | notANumber =>
    show "NaN".toList = ['N', 'a', 'N']
    rfl
  | infinity sign =>
    cases sign with
    | positive =>
      show "inf".toList = ['i', 'n', 'f']
      rfl
    | negative =>
      show ∃ ds, "-inf".toList = '-' :: ds ∧ ds = ['i', 'n', 'f']
      exact ⟨_, rfl, rfl⟩
  | zero sign =>
    have hnear : IsNearest (0 * 10 ^ places) 0 := .of_lt_half (by simp)
    show Signed _ sign (String.ofList _).toList
    rw [String.toList_ofList]
    exact signed_append (tellsNearest_allPlaces hnear) sign
  | finite sign mantissa exponent hpos =>
    show Signed _ sign (String.ofList _).toList
    rw [String.toList_ofList]
    exact signed_append (tellsNearest_allPlaces (Binary.isNearest_steps ⟨mantissa, exponent⟩ places)) sign

/-- A double looks like one text only. -/
theorem HasPlaces.unique {places : ℕ} {x : Float} {cs ds : List Char} (hcs : HasPlaces places x cs)
    (hds : HasPlaces places x ds) : cs = ds := by
  unfold HasPlaces at hcs hds
  cases hx : x.toModel.unpack with
  | notANumber =>
    rw [hx] at hcs hds
    exact hcs.trans hds.symm
  | infinity sign =>
    rw [hx] at hcs hds
    exact hcs.unique (fun has hbs => has.trans hbs.symm) hds
  | zero sign =>
    rw [hx] at hcs hds
    exact hcs.unique TellsNearest.unique hds
  | finite sign mantissa exponent hpos =>
    rw [hx] at hcs hds
    exact hcs.unique TellsNearest.unique hds

/-! ### Characters -/

theorem TellsNearest.mem {places : ℕ} {q : ℚ} {cs : List Char} (h : TellsNearest places q cs) {c : Char} (hc : c ∈ cs) :
    c.isDigit = true ∨ c = '.' := by
  obtain ⟨whole, fraction, rfl, hwhole, hfraction, -, -⟩ := h
  rcases List.mem_append.mp hc with hc | hc
  · exact .inl (hwhole.isDigit c hc)
  · rcases List.mem_cons.mp hc with rfl | hc
    · exact .inr rfl
    · exact .inl (hfraction c hc)

theorem Signed.mem {tells : List Char → Prop} {P : Char → Prop} (htells : ∀ {cs}, tells cs → ∀ c ∈ cs, P c)
    (hmark : P '-') {sign : Sign} {cs : List Char} (h : Signed tells sign cs) : ∀ c ∈ cs, P c := by
  cases sign with
  | positive => exact htells h
  | negative =>
    obtain ⟨ds, rfl, hds⟩ := h
    exact List.forall_mem_cons.mpr ⟨hmark, htells hds⟩

/-- The characters of such a text are digits, a point, a hyphen and the letters of three words. -/
theorem HasPlaces.mem {places : ℕ} {x : Float} {cs : List Char} (h : HasPlaces places x cs) :
    ∀ c ∈ cs, c.isDigit = true ∨ c ∈ ['.', '-', 'N', 'a', 'i', 'n', 'f'] := by
  have hnearest {q : ℚ} {ds : List Char} (hds : TellsNearest places q ds) :
      ∀ c ∈ ds, c.isDigit = true ∨ c ∈ ['.', '-', 'N', 'a', 'i', 'n', 'f'] := by
    intro c hc
    rcases hds.mem hc with hdigit | rfl
    · exact .inl hdigit
    · exact .inr List.mem_cons_self
  have hmark : '-'.isDigit = true ∨ '-' ∈ ['.', '-', 'N', 'a', 'i', 'n', 'f'] := .inr (by simp)
  unfold HasPlaces at h
  split at h
  · subst h
    simp
  · refine h.mem (fun hds => ?_) hmark
    subst hds
    simp
  · exact h.mem hnearest hmark
  · exact h.mem hnearest hmark

/-- A character that is neither a digit nor one of these does not stand in such a text. -/
theorem HasPlaces.not_mem {places : ℕ} {x : Float} {cs : List Char} (h : HasPlaces places x cs) {c : Char}
    (hdigit : c.isDigit = false) (hother : c ∉ ['.', '-', 'N', 'a', 'i', 'n', 'f']) : c ∉ cs := by
  intro hc
  rcases h.mem c hc with h | h
  · exact absurd (hdigit.symm.trans h) Bool.false_ne_true
  · exact hother h

theorem TellsNearest.point_mem {places : ℕ} {q : ℚ} {cs : List Char} (h : TellsNearest places q cs) : '.' ∈ cs := by
  obtain ⟨whole, fraction, rfl, -⟩ := h
  simp

/-- It is more than a hyphen. -/
theorem HasPlaces.ne {places : ℕ} {x : Float} {cs : List Char} (h : HasPlaces places x cs) : cs ≠ [] ∧ cs ≠ ['-'] := by
  have hword {sign : Sign} {cs : List Char} (h : Signed (· = ['i', 'n', 'f']) sign cs) : cs ≠ [] ∧ cs ≠ ['-'] := by
    cases sign with
    | positive => simp [show cs = ['i', 'n', 'f'] from h]
    | negative =>
      obtain ⟨ds, rfl, rfl⟩ := h
      simp
  have hnumber {q : ℚ} {sign : Sign} {cs : List Char} (h : Signed (TellsNearest places q) sign cs) :
      cs ≠ [] ∧ cs ≠ ['-'] := by
    have hpoint : '.' ∈ cs := by
      cases sign with
      | positive => exact TellsNearest.point_mem h
      | negative =>
        obtain ⟨ds, rfl, hds⟩ := h
        exact List.mem_cons_of_mem _ hds.point_mem
    refine ⟨List.ne_nil_of_mem hpoint, ?_⟩
    rintro rfl
    exact absurd hpoint (by simp)
  unfold HasPlaces at h
  split at h
  · subst h
    simp
  · exact hword h
  · exact hnumber h
  · exact hnumber h

end LogCorrelation.Decimal
