import Mathlib
import SqlSchema.Token.Lexer

/-! # Reading numbers back

The lexer reads a number in parts: `0x` with a run of hexadecimal digits, or digits, then a point
with the digits after it, then an exponent. A number it reads is read again, whole, from its own
characters followed by any text that cannot continue it (`EndsNumber`): each part is read back on
its own (`ReadsPart`), and `numberAfter_readsBack` puts the parts together.

The character classes of the lexer are first stated as ranges of code points, so that `omega`
decides the facts about them that the other proofs need. -/

namespace SqlSchema.Lexer

/-! ### Character classes as code point ranges -/

theorem isWordStart_iff {c : Char} : isWordStart c ↔
    (65 ≤ c.toNat ∧ c.toNat ≤ 90) ∨ (97 ≤ c.toNat ∧ c.toNat ≤ 122) ∨ c.toNat = 95 ∨ 128 ≤ c.toNat := by
  simp [isWordStart, Char.isAlpha, Char.isUpper, Char.isLower, ← Char.toNat_inj, UInt32.le_iff_toNat_le,
    Char.toNat_val]
  omega

theorem isWordChar_iff {c : Char} : isWordChar c ↔
    (48 ≤ c.toNat ∧ c.toNat ≤ 57) ∨ (65 ≤ c.toNat ∧ c.toNat ≤ 90) ∨ (97 ≤ c.toNat ∧ c.toNat ≤ 122) ∨
      c.toNat = 95 ∨ c.toNat = 36 ∨ 128 ≤ c.toNat := by
  simp [isWordChar, Char.isAlphanum, Char.isAlpha, Char.isDigit, Char.isUpper, Char.isLower, ← Char.toNat_inj,
    UInt32.le_iff_toNat_le, Char.toNat_val]
  omega

theorem isAlphanum_iff {c : Char} : c.isAlphanum ↔
    (48 ≤ c.toNat ∧ c.toNat ≤ 57) ∨ (65 ≤ c.toNat ∧ c.toNat ≤ 90) ∨ (97 ≤ c.toNat ∧ c.toNat ≤ 122) := by
  simp [Char.isAlphanum, Char.isAlpha, Char.isDigit, Char.isUpper, Char.isLower, UInt32.le_iff_toNat_le,
    Char.toNat_val]
  omega

theorem isDigit_iff {c : Char} : c.isDigit ↔ 48 ≤ c.toNat ∧ c.toNat ≤ 57 := by
  simp [Char.isDigit_iff_toNat]

theorem isHexDigit_iff {c : Char} : isHexDigit c ↔
    (48 ≤ c.toNat ∧ c.toNat ≤ 57) ∨ (97 ≤ c.toNat ∧ c.toNat ≤ 102) ∨ (65 ≤ c.toNat ∧ c.toNat ≤ 70) := by
  simp [isHexDigit, Char.isDigit, Char.le_def, UInt32.le_iff_toNat_le, Char.toNat_val]
  omega

/-! ### Reading a number back before a character that cannot continue it -/

/-- Text that cannot continue a number: it is empty or starts with neither a letter, a digit nor a
    point. -/
def EndsNumber (s : List Char) : Prop :=
  ∀ x ∈ s.head?, x.isAlphanum = false ∧ x ≠ '.'

theorem EndsNumber.not_digit {s : List Char} (h : EndsNumber s) : ∀ x ∈ s.head?, x.isDigit = false := by
  intro x hx
  have := (h x hx).1
  rw [Bool.eq_false_iff] at this ⊢
  intro hd
  exact this (isAlphanum_iff.mpr (Or.inl (isDigit_iff.mp hd)))

theorem takeWhile_dropWhile_exact {p : Char → Bool} {r s : List Char} (hr : ∀ x ∈ r, p x = true)
    (hs : ∀ x ∈ s.head?, p x = false) : (r ++ s).takeWhile p = r ∧ (r ++ s).dropWhile p = s := by
  rw [List.takeWhile_append_of_pos hr, List.dropWhile_append_of_pos hr]
  cases s with
  | nil => simp
  | cons x s => simp [hs x rfl]

/-- Exponent digits that start with a digit: the run of digits. -/
theorem exponentDigits_digit {d : Char} (hd : d.isDigit = true) (t : List Char) :
    exponentDigits (d :: t) = some ((d :: t).takeWhile Char.isDigit, (d :: t).dropWhile Char.isDigit) := by
  have hsign : (d == '+' || d == '-') = false := by
    have := isDigit_iff.mp hd
    simp only [Bool.or_eq_false_iff, beq_eq_false_iff_ne, ne_eq, ← Char.toNat_inj]
    constructor <;> simp <;> omega
  cases t with
  | nil => simp [exponentDigits, hd]
  | cons x t => simp [exponentDigits, hsign, hd]

/-- Exponent digits after a sign. -/
theorem exponentDigits_sign {s d : Char} (hs : (s == '+' || s == '-') = true) (hd : d.isDigit = true)
    (t : List Char) :
    exponentDigits (s :: d :: t) = some (s :: (d :: t).takeWhile Char.isDigit, (d :: t).dropWhile Char.isDigit) := by
  simp [exponentDigits, hs, hd]

theorem exponentDigits_eq_some {cs p rest : List Char} (h : exponentDigits cs = some (p, rest)) :
    (∃ s d t, cs = s :: d :: t ∧ (s == '+' || s == '-') = true ∧ d.isDigit = true ∧
      p = s :: (d :: t).takeWhile Char.isDigit ∧ rest = (d :: t).dropWhile Char.isDigit) ∨
    (∃ d t, cs = d :: t ∧ d.isDigit = true ∧
      p = (d :: t).takeWhile Char.isDigit ∧ rest = (d :: t).dropWhile Char.isDigit) := by
  unfold exponentDigits at h
  split at h
  · rename_i s d t
    split at h
    · rename_i hsd
      simp only [Bool.and_eq_true] at hsd
      simp only [Option.some.injEq, Prod.mk.injEq] at h
      exact Or.inl ⟨s, d, t, rfl, hsd.1, hsd.2, h.1.symm, h.2.symm⟩
    · split at h
      · rename_i hs
        simp only [Option.some.injEq, Prod.mk.injEq] at h
        exact Or.inr ⟨s, d :: t, rfl, hs, h.1.symm, h.2.symm⟩
      · cases h
  · rename_i d
    split at h
    · rename_i hd
      simp only [Option.some.injEq, Prod.mk.injEq] at h
      obtain ⟨rfl, rfl⟩ := h
      exact Or.inr ⟨d, [], rfl, hd, by simp [hd], by simp [hd]⟩
    · cases h
  · cases h

theorem exponentDigits_readsPart {cs p rest : List Char} (h : exponentDigits cs = some (p, rest)) :
    cs = p ++ rest ∧ ∀ s, EndsNumber s → exponentDigits (p ++ s) = some (p, s) := by
  rcases exponentDigits_eq_some h with ⟨c, d, t, rfl, hs, hd, rfl, rfl⟩ | ⟨d, t, rfl, hd, rfl, rfl⟩
  · refine ⟨by simp, fun s hend => ?_⟩
    -- the digits after the sign run up to the end of the part
    have hall : ∀ x ∈ (d :: t).takeWhile Char.isDigit, x.isDigit = true := fun x hx => List.all_eq_true.mp List.all_takeWhile x hx
    obtain ⟨htake, hdrop⟩ := takeWhile_dropWhile_exact hall hend.not_digit
    rw [List.takeWhile_cons_of_pos hd] at htake hdrop hall ⊢
    rw [List.cons_append, List.cons_append, exponentDigits_sign hs hd, ← List.cons_append, htake, hdrop]
  · refine ⟨by simp, fun s hend => ?_⟩
    have hall : ∀ x ∈ (d :: t).takeWhile Char.isDigit, x.isDigit = true := fun x hx => List.all_eq_true.mp List.all_takeWhile x hx
    obtain ⟨htake, hdrop⟩ := takeWhile_dropWhile_exact hall hend.not_digit
    rw [List.takeWhile_cons_of_pos hd] at htake hdrop ⊢
    rw [List.cons_append, exponentDigits_digit hd, ← List.cons_append, htake, hdrop]

/-- What a reader of number parts does: it splits off a part, and reads the same part back before
    any text that cannot continue a number. -/
def ReadsPart (f : List Char → List Char × List Char) (cs : List Char) : Prop :=
  cs = (f cs).1 ++ (f cs).2 ∧ ∀ s, EndsNumber s → f ((f cs).1 ++ s) = ((f cs).1, s)

theorem exponentPart_of_endsNumber {s : List Char} (h : EndsNumber s) : exponentPart s = ([], s) := by
  cases s with
  | nil => rfl
  | cons x s =>
    have hx : (x == 'e' || x == 'E') = false := by
      have := (h x rfl).1
      rw [Bool.eq_false_iff] at this ⊢
      intro he
      apply this
      simp only [Bool.or_eq_true, beq_iff_eq] at he
      rcases he with rfl | rfl <;> rfl
    simp [exponentPart, hx]

theorem exponentPart_readsPart (cs : List Char) : ReadsPart exponentPart cs := by
  -- the cases where no exponent is read leave the text as it is
  have none : ∀ cs, exponentPart cs = ([], cs) → ReadsPart exponentPart cs := by
    intro cs h
    rw [ReadsPart, h]
    exact ⟨rfl, fun s hs => exponentPart_of_endsNumber hs⟩
  cases cs with
  | nil => exact none [] rfl
  | cons e r =>
    by_cases he : (e == 'e' || e == 'E') = true
    · cases hd : exponentDigits r with
      | none => exact none _ (by simp [exponentPart, he, hd])
      | some p =>
        obtain ⟨hr, hback⟩ := exponentDigits_readsPart hd
        have hpart : exponentPart (e :: r) = (e :: p.1, p.2) := by simp [exponentPart, he, hd]
        rw [ReadsPart, hpart]
        refine ⟨by simp [← hr], fun s hs => ?_⟩
        simp [exponentPart, he, hback s hs]
    · exact none _ (by simp [exponentPart, he])

/-- An exponent starts with `e` or `E`. -/
theorem exponentPart_head (cs : List Char) : ∀ x ∈ (exponentPart cs).1.head?, x = 'e' ∨ x = 'E' := by
  intro x hx
  unfold exponentPart at hx
  split at hx
  · rename_i e r
    split at hx
    · rename_i he
      split at hx
      · simp only [List.head?_cons, Option.mem_def, Option.some.injEq] at hx
        subst hx
        simpa using he
      · simp at hx
    · simp at hx
  · simp at hx

/-- What follows a run of digits, an exponent or the end of the number, starts with neither a digit
    nor a point. -/
theorem exponentPart_endsDigits (cs : List Char) {s : List Char} (hs : EndsNumber s) :
    ∀ x ∈ ((exponentPart cs).1 ++ s).head?, x.isDigit = false ∧ x ≠ '.' := by
  intro x hx
  cases h : (exponentPart cs).1 with
  | nil =>
    rw [h, List.nil_append] at hx
    exact ⟨hs.not_digit x hx, (hs x hx).2⟩
  | cons y t =>
    rw [h, List.cons_append, List.head?_cons, Option.mem_def, Option.some.injEq] at hx
    subst hx
    rcases exponentPart_head cs y (by simp [h]) with rfl | rfl <;> decide

theorem afterPoint_readsPart (r : List Char) : ReadsPart afterPoint r := by
  obtain ⟨hsplit, hback⟩ := exponentPart_readsPart (r.dropWhile Char.isDigit)
  refine ⟨?_, fun s hs => ?_⟩
  · simp only [afterPoint, List.append_assoc, ← hsplit, List.takeWhile_append_dropWhile]
  · have hall : ∀ x ∈ r.takeWhile Char.isDigit, x.isDigit = true :=
      fun x hx => List.all_eq_true.mp List.all_takeWhile x hx
    obtain ⟨htake, hdrop⟩ := takeWhile_dropWhile_exact hall
      (fun x hx => (exponentPart_endsDigits (r.dropWhile Char.isDigit) hs x hx).1)
    simp only [afterPoint, List.append_assoc, htake, hdrop, hback s hs]

/-- The decimal reader takes the number's first character `c`, reads a part after it, and reads the
    same number back before any text that cannot continue it. -/
theorem decimalAfter_readsBack {c : Char} {cs tok rest : List Char} (h : decimalAfter c cs = (tok, rest)) :
    ∃ p, tok = c :: p ∧ cs = p ++ rest ∧ ∀ s, EndsNumber s → decimalAfter c (p ++ s) = (c :: p, s) := by
  have hall : ∀ x ∈ cs.takeWhile Char.isDigit, x.isDigit = true :=
    fun x hx => List.all_eq_true.mp List.all_takeWhile x hx
  unfold decimalAfter at h
  split at h
  · -- a leading point: the digits after it, then an exponent
    rename_i hc
    have hc : c = '.' := by simpa using hc
    subst hc
    obtain ⟨hsplit, hback⟩ := afterPoint_readsPart cs
    simp only [Prod.mk.injEq] at h
    obtain ⟨rfl, rfl⟩ := h
    exact ⟨_, rfl, hsplit, fun s hs => by simp [decimalAfter, hback s hs]⟩
  · rename_i hc
    split at h
    · -- digits, a point, then the digits after it and an exponent
      rename_i r' hr
      obtain ⟨hsplit, hback⟩ := afterPoint_readsPart r'
      simp only [Prod.mk.injEq] at h
      obtain ⟨rfl, rfl⟩ := h
      refine ⟨cs.takeWhile Char.isDigit ++ '.' :: (afterPoint r').1, rfl, ?_, fun s hs => ?_⟩
      · rw [List.append_assoc, List.cons_append, ← hsplit, ← hr, List.takeWhile_append_dropWhile]
      · obtain ⟨htake, hdrop⟩ := takeWhile_dropWhile_exact (s := '.' :: ((afterPoint r').1 ++ s)) hall
          (by simp)
        simp only [decimalAfter, hc, List.append_assoc, List.cons_append, htake, hdrop, hback s hs,
          Bool.false_eq_true, ↓reduceIte]
    · -- digits, then an exponent
      rename_i r' hr
      obtain ⟨hsplit, hback⟩ := exponentPart_readsPart (cs.dropWhile Char.isDigit)
      simp only [Prod.mk.injEq] at h
      obtain ⟨rfl, rfl⟩ := h
      refine ⟨cs.takeWhile Char.isDigit ++ (exponentPart (cs.dropWhile Char.isDigit)).1, rfl,
        by rw [List.append_assoc, ← hsplit, List.takeWhile_append_dropWhile], fun s hs => ?_⟩
      have hends := exponentPart_endsDigits (cs.dropWhile Char.isDigit) hs
      obtain ⟨htake, hdrop⟩ := takeWhile_dropWhile_exact hall (fun x hx => (hends x hx).1)
      simp only [decimalAfter, hc, List.append_assoc, htake, hdrop, Bool.false_eq_true, ↓reduceIte]
      split
      · rename_i r'' hpoint
        have := (hends '.' (by simp [hpoint])).2
        exact absurd rfl this
      · simp only [hback s hs, List.cons_append]

theorem EndsNumber.not_alpha {s : List Char} (h : EndsNumber s) : ∀ x ∈ s.head?, x ≠ 'x' ∧ x ≠ 'X' := by
  intro x hx
  have := (h x hx).1
  constructor <;> rintro rfl <;> simp at this

/-- Every part the decimal reader takes after the first character starts with a digit, a point or an
    exponent. -/
theorem decimalAfter_tail_head (c : Char) (cs : List Char) :
    ∀ x ∈ (decimalAfter c cs).1.tail.head?, x ≠ 'x' ∧ x ≠ 'X' := by
  -- a run of digits followed by `rest` starts with a digit or with what `rest` starts with
  have digits : ∀ (rest : List Char), (∀ x ∈ rest.head?, x ≠ 'x' ∧ x ≠ 'X') →
      ∀ x ∈ (cs.takeWhile Char.isDigit ++ rest).head?, x ≠ 'x' ∧ x ≠ 'X' := by
    intro rest hrest x hx
    cases ht : cs.takeWhile Char.isDigit with
    | nil => rw [ht, List.nil_append] at hx; exact hrest x hx
    | cons y t =>
      rw [ht, List.cons_append, List.head?_cons, Option.mem_def, Option.some.injEq] at hx
      subst hx
      have hy : y.isDigit = true := List.all_eq_true.mp List.all_takeWhile y (by rw [ht]; exact List.mem_cons_self)
      constructor <;> rintro rfl <;> simp at hy
  have expo : ∀ cs, ∀ x ∈ (exponentPart cs).1.head?, x ≠ 'x' ∧ x ≠ 'X' := by
    intro cs x hx
    rcases exponentPart_head cs x hx with rfl | rfl <;> decide
  unfold decimalAfter
  split
  · simpa only [List.tail_cons, afterPoint] using digits _ (expo _)
  · split
    · exact digits _ (by simp)
    · exact digits _ (expo _)

/-- Where no hexadecimal prefix follows, a number is read as a decimal. -/
theorem numberAfter_of_not_hex {c : Char} {t : List Char} (h : ∀ x ∈ t.head?, x ≠ 'x' ∧ x ≠ 'X') :
    numberAfter c t = decimalAfter c t := by
  unfold numberAfter
  split
  · rename_i x d r
    obtain ⟨hx, hX⟩ := h x rfl
    simp [hx, hX]
  · rfl

theorem isHexDigit_of_endsNumber {s : List Char} (h : EndsNumber s) : ∀ x ∈ s.head?, isHexDigit x = false := by
  intro x hx
  have := (h x hx).1
  rw [Bool.eq_false_iff] at this ⊢
  intro hh
  apply this
  rw [isAlphanum_iff]
  rw [isHexDigit_iff] at hh
  omega

/-- The number reader takes the number's first character `c`, reads a part after it, and reads the
    same number back before any text that cannot continue it. -/
theorem numberAfter_readsBack {c : Char} {cs tok rest : List Char} (h : numberAfter c cs = (tok, rest)) :
    ∃ p, tok = c :: p ∧ cs = p ++ rest ∧ ∀ s, EndsNumber s → numberAfter c (p ++ s) = (c :: p, s) := by
  -- a decimal is read the same way by the number reader, since it never starts with `x` or `X`
  have decimal : decimalAfter c cs = (tok, rest) →
      ∃ p, tok = c :: p ∧ cs = p ++ rest ∧ ∀ s, EndsNumber s → numberAfter c (p ++ s) = (c :: p, s) := by
    intro hd
    obtain ⟨p, rfl, hcs, hback⟩ := decimalAfter_readsBack hd
    refine ⟨p, rfl, hcs, fun s hs => ?_⟩
    have hhead : ∀ x ∈ (p ++ s).head?, x ≠ 'x' ∧ x ≠ 'X' := by
      intro x hx
      cases p with
      | nil => exact hs.not_alpha x (by simpa using hx)
      | cons y t =>
        have := decimalAfter_tail_head c cs
        rw [hd] at this
        exact this x (by simpa using hx)
    rw [numberAfter_of_not_hex hhead, hback s hs]
  unfold numberAfter at h
  split at h
  · rename_i x d r
    split at h
    · -- a hexadecimal number: `0x` and the run of hexadecimal digits
      rename_i hhex
      simp only [Bool.and_eq_true] at hhex
      simp only [Prod.mk.injEq] at h
      obtain ⟨rfl, rfl⟩ := h
      refine ⟨x :: (d :: r).takeWhile isHexDigit, rfl, by simp, fun s hs => ?_⟩
      have hall : ∀ y ∈ (d :: r).takeWhile isHexDigit, isHexDigit y = true :=
        fun y hy => List.all_eq_true.mp List.all_takeWhile y hy
      obtain ⟨htake, hdrop⟩ := takeWhile_dropWhile_exact hall (isHexDigit_of_endsNumber hs)
      rw [List.takeWhile_cons_of_pos hhex.2] at htake hdrop ⊢
      simp only [List.cons_append, numberAfter, hhex.1, hhex.2, Bool.and_self, ↓reduceIte]
      rw [← List.cons_append, htake, hdrop]
    · exact decimal h
  · exact decimal h

end SqlSchema.Lexer
