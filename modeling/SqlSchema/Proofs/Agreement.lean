import SqlSchema.Proofs.Cursor

/-! # Two readers over related tokens

`Cursor.Agree S R x y` runs two readers on token lists that are related token by token by `S`: both
fail, with the same error up to `S` on the token it shows, or both succeed, with values related by
`R` and token lists related by `S` left. With `S` equality it says that two readers read every text
alike, the value of one computed from the value of the other; with a coarser `S` it says what a
reader does not look at. The rules follow the combinators of `Cursor`, so the agreement of two
readers is walked down their definitions, step against step. -/

namespace SqlSchema

/-- Two errors that are the same up to `S` on the tokens they show. -/
def ReadError.Rel (S : Token → Token → Prop) : ReadError → ReadError → Prop
  | .unexpectedToken e t, .unexpectedToken e' t' => e = e' ∧ S t t'
  | .unexpectedEnd e, .unexpectedEnd e' => e = e'
  | .invalidExpression c, .invalidExpression c' => c = c'
  | .trailingInput t, .trailingInput t' => S t t'
  | .emptyColumnList, .emptyColumnList => True
  | _, _ => False

theorem ReadError.rel_eq_iff {e e' : ReadError} : ReadError.Rel Eq e e' ↔ e = e' := by
  cases e <;> cases e' <;> simp [ReadError.Rel]

namespace Cursor

variable {α β γ δ : Type} {S : Token → Token → Prop}

@[simp] theorem throw_apply (e : ReadError) (ts : List Token) : (throw e : Cursor α) ts = .error e := rfl

theorem bind_of_error {x : Cursor α} {f : α → Cursor β} {ts : List Token} {e : ReadError}
    (h : x ts = .error e) : (x >>= f) ts = .error e := by
  show (StateT.bind x f) ts = _
  simp only [StateT.bind, h, bind, Except.bind]

/-- Two outcomes of reading agree: both errors, related; or both values, related by `R`, with related
    tokens left. -/
def Agrees (S : Token → Token → Prop) (R : α → β → Prop) :
    Except ReadError (α × List Token) → Except ReadError (β × List Token) → Prop
  | .ok (a, ts), .ok (b, us) => R a b ∧ List.Forall₂ S ts us
  | .error e, .error e' => ReadError.Rel S e e'
  | _, _ => False

/-- Two readers agree over token lists related by `S`. -/
def Agree (S : Token → Token → Prop) (R : α → β → Prop) (x : Cursor α) (y : Cursor β) : Prop :=
  ∀ ts us, List.Forall₂ S ts us → Agrees S R (x ts) (y us)

namespace Agree

variable {R : α → β → Prop} {Q : γ → δ → Prop} {x : Cursor α} {y : Cursor β}

theorem pure {a : α} {b : β} (h : R a b) : Agree S R (pure a) (pure b) :=
  fun _ _ hts => ⟨h, hts⟩

theorem bind {f : α → Cursor γ} {g : β → Cursor δ} (hx : Agree S R x y)
    (hf : ∀ a b, R a b → Agree S Q (f a) (g b)) : Agree S Q (x >>= f) (y >>= g) := by
  intro ts us hts
  have h := hx ts us hts
  rcases hxa : x ts with e | ⟨a, ts₁⟩ <;> rcases hyb : y us with e' | ⟨b, us₁⟩ <;>
    rw [hxa, hyb] at h
  · rw [bind_of_error hxa, bind_of_error hyb]
    exact h
  · exact h.elim
  · exact h.elim
  · rw [bind_of_ok hxa, bind_of_ok hyb]
    exact hf a b h.1 _ _ h.2

/-- Two readers that start with steps that agree on their value go on alike when their rests agree
    on each value. -/
theorem bind_eq {x' : Cursor α} {f : α → Cursor γ} {g : α → Cursor δ} (hx : Agree S Eq x x')
    (h : ∀ a, Agree S Q (f a) (g a)) : Agree S Q (x >>= f) (x' >>= g) :=
  hx.bind fun a _ hab => hab ▸ h a

/-- Two readers that branch on a test that agrees agree when the branches agree. -/
theorem bind_ite {b b' : Cursor Bool} {x x' : Cursor γ} {y y' : Cursor δ} (hb : Agree S Eq b b')
    (h : Agree S Q x y) (h' : Agree S Q x' y') :
    Agree S Q (b >>= fun c => if c = true then x else x') (b' >>= fun c => if c = true then y else y') :=
  hb.bind_eq fun c => by cases c <;> simpa

/-- Over equal tokens, a reader agrees with itself. -/
theorem refl (x : Cursor α) : Agree Eq Eq x x := by
  intro ts us hts
  rw [List.forall₂_eq_eq_eq] at hts
  subst hts
  rcases x ts with e | ⟨a, r⟩
  · exact ReadError.rel_eq_iff.mpr rfl
  · exact ⟨rfl, by rw [List.forall₂_eq_eq_eq]⟩

/-- Two readers that start with the same step agree when their rests agree on each value of it. -/
theorem bind_refl (x : Cursor α) {f : α → Cursor γ} {g : α → Cursor δ} (h : ∀ a, Agree Eq Q (f a) (g a)) :
    Agree Eq Q (x >>= f) (x >>= g) :=
  (refl x).bind fun a _ hab => hab ▸ h a

theorem mono {R' : α → β → Prop} (h : Agree S R x y) (hr : ∀ a b, R a b → R' a b) : Agree S R' x y := by
  intro ts us hts
  have h := h ts us hts
  rcases hxa : x ts with e | ⟨a, ts₁⟩ <;> rcases hyb : y us with e' | ⟨b, us₁⟩ <;>
    rw [hxa, hyb] at h
  · exact h
  · exact h.elim
  · exact h.elim
  · exact ⟨hr a b h.1, h.2⟩

theorem throw {e e' : ReadError} (h : ReadError.Rel S e e') : Agree S R (throw e) (throw e') :=
  fun _ _ _ => h

/-- A failure agrees with a failure, whatever would have followed. -/
theorem throw_bind {e e' : ReadError} (h : ReadError.Rel S e e') {f : α → Cursor γ} {g : β → Cursor δ} :
    Agree S Q (MonadExcept.throw e >>= f) (MonadExcept.throw e' >>= g) :=
  fun ts us _ => by
    rw [bind_of_error (throw_apply e ts), bind_of_error (throw_apply e' us)]
    exact h

/-- Two branches on the same condition agree when the branches taken agree. -/
theorem ite {c : Prop} [Decidable c] {x' : Cursor α} {y' : Cursor β} (h : c → Agree S R x y)
    (h' : ¬c → Agree S R x' y') : Agree S R (if c then x else x') (if c then y else y') := by
  by_cases hc : c
  · simpa [hc] using h hc
  · simpa [hc] using h' hc

/-- Two branches on equivalent conditions agree when the branches taken agree. -/
theorem ite_iff {c c' : Prop} [Decidable c] [Decidable c'] (hc : c ↔ c') {x' : Cursor α} {y' : Cursor β}
    (h : c → Agree S R x y) (h' : ¬c → Agree S R x' y') :
    Agree S R (if c then x else x') (if c' then y else y') := by
  by_cases hcc : c
  · simpa [hcc, hc.mp hcc] using h hcc
  · simpa [hcc, mt hc.mpr hcc] using h' hcc

/-- Two loops agree when their rounds agree, each asking for another round together. -/
theorem repeatWhile {step : α → Cursor (α × Bool)} {step' : β → Cursor (β × Bool)}
    (hstep : ∀ a b, R a b → Agree S (fun p q => R p.1 q.1 ∧ p.2 = q.2) (step a) (step' b))
    {a : α} {b : β} (hab : R a b) : Agree S R (Cursor.repeatWhile step a) (Cursor.repeatWhile step' b) := by
  intro ts us hts
  induction ts using (measure List.length).wf.induction generalizing a b us with
  | h ts ih =>
    have h := hstep a b hab ts us hts
    rw [Cursor.repeatWhile, Cursor.repeatWhile]
    rcases hxa : step a ts with e | ⟨⟨a₁, more⟩, ts₁⟩ <;> rcases hyb : step' b us with e' | ⟨⟨b₁, more'⟩, us₁⟩ <;>
      rw [hxa, hyb] at h
    · exact h
    · exact h.elim
    · exact h.elim
    · obtain ⟨⟨hr, rfl⟩, hts₁⟩ := h
      have hlen : ts₁.length < ts.length ↔ us₁.length < us.length := by
        rw [hts₁.length_eq, hts.length_eq]
      cases more with
      | false => exact ⟨hr, hts₁⟩
      | true =>
        simp only [hlen]
        split
        · rename_i hlt
          exact ih ts₁ (hlen.mpr hlt) hr us₁ hts₁
        · exact ⟨hr, hts₁⟩

/-- Two loops whose rounds agree on every value agree. -/
theorem repeatWhile_eq {step step' : α → Cursor (α × Bool)} (hstep : ∀ a, Agree S Eq (step a) (step' a))
    {a : α} : Agree S Eq (Cursor.repeatWhile step a) (Cursor.repeatWhile step' a) :=
  repeatWhile (fun a _ hab => hab ▸ (hstep a).mono fun _ _ h => ⟨congrArg Prod.fst h, congrArg Prod.snd h⟩) rfl

/-- Over the same tokens, a reader that agrees with one that succeeds succeeds where it does, with a
    related value. -/
theorem ok_of_ok {R : α → β → Prop} (h : Agree Eq R x y) {ts r : List Token} {a : α} (hx : x ts = .ok (a, r)) :
    ∃ b, y ts = .ok (b, r) ∧ R a b := by
  have hts : List.Forall₂ Eq ts ts := by rw [List.forall₂_eq_eq_eq]
  have hxy := h ts ts hts
  rw [hx] at hxy
  rcases hy : y ts with e | ⟨b, r'⟩ <;> rw [hy] at hxy
  · exact hxy.elim
  · obtain ⟨hab, hr⟩ := hxy
    rw [List.forall₂_eq_eq_eq] at hr
    exact ⟨b, by rw [hr], hab⟩

/-! ### The cursor's steps -/

theorem eatIf {p q : Token → Bool} (h : ∀ t u, S t u → p t = q u) : Agree S Eq (eatIf p) (eatIf q) := by
  intro ts us hts
  cases hts with
  | nil => exact ⟨rfl, .nil⟩
  | cons hs hr =>
    rename_i t u r v
    simp only [Cursor.eatIf, h t u hs]
    split
    · exact ⟨rfl, hr⟩
    · exact ⟨rfl, .cons hs hr⟩

theorem peek? : Agree S (Option.Rel S) peek? peek? := by
  intro ts us hts
  cases hts with
  | nil => exact ⟨.none, .nil⟩
  | cons hs hr => exact ⟨.some hs, .cons hs hr⟩

theorem skip : Agree S (fun _ _ => True) skip skip := by
  intro ts us hts
  cases hts with
  | nil => exact ⟨trivial, .nil⟩
  | cons hs hr => exact ⟨trivial, hr⟩

theorem get : Agree S (List.Forall₂ S) get get :=
  fun _ _ hts => ⟨hts, hts⟩

theorem next {expected : String} : Agree S S (next expected) (next expected) := by
  intro ts us hts
  cases hts with
  | nil => exact (rfl : expected = expected)
  | cons hs hr => exact ⟨hs, hr⟩

theorem unexpected {expected : String} : Agree S R (unexpected expected) (unexpected expected) := by
  intro ts us hts
  cases hts with
  | nil => exact (rfl : expected = expected)
  | cons hs hr => exact ⟨rfl, hs⟩

theorem expectEnd : Agree S (fun _ _ => True) expectEnd expectEnd := by
  intro ts us hts
  cases hts with
  | nil => exact ⟨trivial, .nil⟩
  | cons hs hr => exact hs

theorem takeWhile {p q : Token → Bool} (h : ∀ t u, S t u → p t = q u) :
    Agree S (List.Forall₂ S) (takeWhile p) (takeWhile q) := by
  intro ts us hts
  induction hts with
  | nil => exact ⟨.nil, .nil⟩
  | cons hs hr ih =>
    rename_i t u r v
    simp only [Cursor.takeWhile, List.takeWhile_cons, List.dropWhile_cons, h t u hs] at ih ⊢
    split
    · exact ⟨.cons hs ih.1, ih.2⟩
    · exact ⟨.nil, .cons hs hr⟩

end Agree

end Cursor

end SqlSchema
