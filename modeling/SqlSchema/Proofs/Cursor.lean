import Mathlib
import SqlSchema.Statement.Cursor

/-! # Running the cursor

Equations for the steps of a `Cursor`, used to take a run of the statement reader apart (what a
successful run did, step by step) and to put one together (what a run on known tokens gives). A
successful bind is a successful first step followed by a successful second step on the tokens the
first one left; a step that looks at the next token and branches is a branch on that token. -/

namespace SqlSchema.Cursor

variable {α β : Type}

theorem bind_ok {x : Cursor α} {f : α → Cursor β} {ts ts' : List Token} {b : β} :
    (x >>= f) ts = .ok (b, ts') ↔ ∃ a ts₁, x ts = .ok (a, ts₁) ∧ f a ts₁ = .ok (b, ts') := by
  show (StateT.bind x f) ts = _ ↔ _
  simp only [StateT.bind]
  cases x ts with
  | error e => simp [bind, Except.bind]
  | ok p =>
    obtain ⟨a, ts₁⟩ := p
    simp [bind, Except.bind, and_assoc]

theorem bind_of_ok {x : Cursor α} {f : α → Cursor β} {ts ts₁ : List Token} {a : α}
    (h : x ts = .ok (a, ts₁)) : (x >>= f) ts = f a ts₁ := by
  show (StateT.bind x f) ts = _
  simp only [StateT.bind, h, bind, Except.bind]

theorem map_of_ok {x : Cursor α} {f : α → β} {ts ts₁ : List Token} {a : α}
    (h : x ts = .ok (a, ts₁)) : (f <$> x) ts = .ok (f a, ts₁) := by
  show (StateT.map f x) ts = _
  simp [StateT.map, h, Functor.map, Except.map]

theorem pure_ok {a b : α} {ts ts' : List Token} :
    (pure a : Cursor α) ts = .ok (b, ts') ↔ a = b ∧ ts = ts' := by
  simp [pure, StateT.pure, Except.pure]

@[simp] theorem pure_apply (a : α) (ts : List Token) : (pure a : Cursor α) ts = .ok (a, ts) := rfl

theorem throw_ne_ok {e : ReadError} {b : α} {ts ts' : List Token} :
    (throw e : Cursor α) ts ≠ .ok (b, ts') := by
  simp [throw, throwThe, MonadExceptOf.throw, StateT.lift, Functor.map, Except.map]

theorem unexpected_ne_ok {expected : String} {b : α} {ts ts' : List Token} :
    (unexpected expected : Cursor α) ts ≠ .ok (b, ts') := by
  cases ts <;> simp [unexpected]

@[simp] theorem peek?_apply (ts : List Token) : peek? ts = .ok (ts.head?, ts) := rfl

@[simp] theorem skip_apply (ts : List Token) : skip ts = .ok ((), ts.tail) := rfl

@[simp] theorem get_apply (ts : List Token) : (get : Cursor (List Token)) ts = .ok (ts, ts) := rfl

/-- A step that takes the next token when it satisfies `p` and then branches on whether it did is a
    branch on the next token. -/
theorem eatIf_bind (p : Token → Bool) (k : Bool → Cursor β) (ts : List Token) :
    (eatIf p >>= k) ts = if ts.head?.any p then k true ts.tail else k false ts := by
  cases ts with
  | nil => rfl
  | cons t r =>
    show (StateT.bind (eatIf p) k) (t :: r) = _
    by_cases hp : p t <;> simp [StateT.bind, eatIf, hp, bind, Except.bind]

theorem peek?_bind (k : Option Token → Cursor β) (ts : List Token) : (peek? >>= k) ts = k ts.head? ts :=
  bind_of_ok (peek?_apply ts)

/-! ### Runs on known tokens -/

@[simp] theorem next_cons (expected : String) (t : Token) (r : List Token) : next expected (t :: r) = .ok (t, r) :=
  rfl

@[simp] theorem takeWhile_apply (p : Token → Bool) (ts : List Token) :
    takeWhile p ts = .ok (ts.takeWhile p, ts.dropWhile p) := rfl

@[simp] theorem next_bind_cons (expected : String) (k : Token → Cursor β) (t : Token) (r : List Token) :
    (next expected >>= k) (t :: r) = k t r :=
  bind_of_ok (next_cons expected t r)

@[simp] theorem skip_bind (k : Unit → Cursor β) (ts : List Token) : (skip >>= k) ts = k () ts.tail :=
  bind_of_ok (skip_apply ts)

theorem eatIf_of_true {p : Token → Bool} {t : Token} (h : p t = true) (r : List Token) :
    eatIf p (t :: r) = .ok (true, r) := by
  simp [eatIf, h]

theorem eatIf_of_false {p : Token → Bool} {ts : List Token} (h : ∀ t ∈ ts.head?, p t = false) :
    eatIf p ts = .ok (false, ts) := by
  cases ts with
  | nil => rfl
  | cons t r => simp [eatIf, h t rfl]

theorem expectKeyword_cons {kw : String} {t : Token} (h : t.isKeyword kw = true) (r : List Token) :
    expectKeyword kw (t :: r) = .ok ((), r) := by
  rw [expectKeyword, eatKeyword, bind_of_ok (eatIf_of_true h r)]
  rfl

theorem expectPunct_cons {c : Char} {t : Token} (h : t.isPunct c = true) (r : List Token) :
    expectPunct c (t :: r) = .ok ((), r) := by
  rw [expectPunct, eatPunct, bind_of_ok (eatIf_of_true h r)]
  rfl

theorem expectName_cons {expected : String} {t : Token} (h : t.isName = true) (r : List Token) :
    expectName expected (t :: r) = .ok (t.text, r) := by
  rw [expectName, bind_of_ok (next_cons expected t r)]
  simp [h]

theorem expectEnd_nil : expectEnd [] = .ok ((), []) := rfl

/-- A round that asks for another and takes a token goes on with the next round. -/
theorem repeatWhile_more {step : α → Cursor (α × Bool)} {a a' : α} {ts ts' : List Token}
    (h : step a ts = .ok ((a', true), ts')) (hlt : ts'.length < ts.length) :
    repeatWhile step a ts = repeatWhile step a' ts' := by
  rw [repeatWhile, h]
  simp [hlt]

/-- A round that asks for no other ends the loop. -/
theorem repeatWhile_last {step : α → Cursor (α × Bool)} {a a' : α} {ts ts' : List Token}
    (h : step a ts = .ok ((a', false), ts')) : repeatWhile step a ts = .ok (a', ts') := by
  rw [repeatWhile, h]

/-- A loop that keeps an invariant of its rounds keeps it over the whole run. -/
theorem repeatWhile_induct (P : α → Prop) {step : α → Cursor (α × Bool)}
    (hstep : ∀ a ts a' more ts', P a → step a ts = .ok ((a', more), ts') → P a') :
    ∀ {a : α} {ts ts' : List Token} {a' : α}, P a → repeatWhile step a ts = .ok (a', ts') → P a' := by
  intro a ts ts' a' ha h
  fun_induction repeatWhile step a ts with
  | case1 a ts a₁ ts₁ hs _ ih => exact ih (hstep _ _ _ _ _ ha hs) h
  | case2 a ts a₁ ts₁ hs _ =>
    obtain ⟨rfl, rfl⟩ : a₁ = a' ∧ ts₁ = ts' := by simpa using h
    exact hstep _ _ _ _ _ ha hs
  | case3 a ts a₁ ts₁ hs =>
    obtain ⟨rfl, rfl⟩ : a₁ = a' ∧ ts₁ = ts' := by simpa using h
    exact hstep _ _ _ _ _ ha hs
  | case4 => simp at h

/-! ### What every successful run gives -/

/-- Every successful run of `x`, from any tokens, gives a value that satisfies `P`. -/
def Yields (x : Cursor α) (P : α → Prop) : Prop :=
  ∀ ts a ts', x ts = .ok (a, ts') → P a

namespace Yields

variable {x : Cursor α} {y : Cursor β} {P : α → Prop}

theorem pure {a : α} (h : P a) : Yields (pure a) P := by
  intro ts b ts' hr
  obtain ⟨rfl, -⟩ := pure_ok.mp hr
  exact h

theorem bind {f : α → Cursor β} {Q : β → Prop} (h : ∀ a, Yields (f a) Q) : Yields (x >>= f) Q := by
  intro ts b ts' hr
  obtain ⟨a, ts₁, -, hf⟩ := bind_ok.mp hr
  exact h a _ _ _ hf

/-- A bind whose first step is known to give values satisfying `P`. -/
theorem bind_of {f : α → Cursor β} {Q : β → Prop} (hx : Yields x P) (h : ∀ a, P a → Yields (f a) Q) :
    Yields (x >>= f) Q := by
  intro ts b ts' hr
  obtain ⟨a, ts₁, ha, hf⟩ := bind_ok.mp hr
  exact h a (hx _ _ _ ha) _ _ _ hf

theorem throw {e : ReadError} : Yields (throw e : Cursor α) P :=
  fun _ _ _ h => absurd h throw_ne_ok

theorem unexpected {expected : String} : Yields (unexpected expected : Cursor α) P :=
  fun _ _ _ h => absurd h unexpected_ne_ok

/-- An optional step whose value is dropped, such as a constraint's name, changes nothing that the
    rest gives. -/
theorem ite_prefix {c : Prop} [Decidable c] (h : Yields x P) :
    Yields (if c then y >>= fun _ => x else x) P := by
  split
  · exact bind fun _ => h
  · exact h

theorem ite {c : Prop} [Decidable c] {x' : Cursor α} (h : Yields x P) (h' : Yields x' P) :
    Yields (if c then x else x') P := by
  split
  · exact h
  · exact h'

theorem of_forall (h : ∀ a, P a) : Yields x P := fun _ a _ _ => h a

theorem mono {Q : α → Prop} (h : Yields x P) (hpq : ∀ a, P a → Q a) : Yields x Q :=
  fun ts a ts' hr => hpq a (h ts a ts' hr)

/-- A loop whose rounds keep `P` keeps it. -/
theorem repeatWhile {step : α → Cursor (α × Bool)} (hstep : ∀ a, P a → Yields (step a) (P ·.1)) {a : α}
    (ha : P a) : Yields (SqlSchema.Cursor.repeatWhile step a) P :=
  fun _ _ _ hr => repeatWhile_induct P (fun a _ _ _ _ hp hs => hstep a hp _ _ _ hs) ha hr

/-- A loop gives what its last round gives, so what every round gives, the loop gives. -/
theorem repeatWhile_step {step : α → Cursor (α × Bool)} (hstep : ∀ a, Yields (step a) (P ·.1)) {a : α} :
    Yields (SqlSchema.Cursor.repeatWhile step a) P := by
  intro ts a' ts' hr
  fun_induction SqlSchema.Cursor.repeatWhile step a ts with
  | case1 a ts a₁ ts₁ hs _ ih => exact ih hr
  | case2 a ts a₁ ts₁ hs _ =>
    obtain ⟨rfl, rfl⟩ : a₁ = a' ∧ ts₁ = ts' := by simpa using hr
    exact hstep a _ _ _ hs
  | case3 a ts a₁ ts₁ hs =>
    obtain ⟨rfl, rfl⟩ : a₁ = a' ∧ ts₁ = ts' := by simpa using hr
    exact hstep a _ _ _ hs
  | case4 => simp at hr

end Yields

/-! ### What every run from tokens of one kind gives

The tokens a step leaves are a suffix of those it was given, so a property of every token, such as
having the lexer's shape, holds of the tokens left and of every token a step returns. -/

/-- Every successful run of `x` from tokens that all satisfy `L` gives a value that satisfies `P`,
    and leaves tokens that all satisfy `L`. -/
def YieldsOn (L : Token → Prop) (x : Cursor α) (P : α → Prop) : Prop :=
  ∀ ts a ts', (∀ t ∈ ts, L t) → x ts = .ok (a, ts') → P a ∧ ∀ t ∈ ts', L t

namespace YieldsOn

variable {L : Token → Prop} {x : Cursor α} {P : α → Prop} {Q : β → Prop}

theorem pure {a : α} (h : P a) : YieldsOn L (pure a) P := by
  intro ts b ts' hts hr
  obtain ⟨rfl, rfl⟩ := pure_ok.mp hr
  exact ⟨h, hts⟩

theorem bind {f : α → Cursor β} (hx : YieldsOn L x P) (h : ∀ a, P a → YieldsOn L (f a) Q) :
    YieldsOn L (x >>= f) Q := by
  intro ts b ts' hts hr
  obtain ⟨a, ts₁, ha, hf⟩ := bind_ok.mp hr
  obtain ⟨hpa, hts₁⟩ := hx _ _ _ hts ha
  exact h a hpa _ _ _ hts₁ hf

theorem throw {e : ReadError} : YieldsOn L (throw e : Cursor α) P :=
  fun _ _ _ _ h => absurd h throw_ne_ok

theorem unexpected {expected : String} : YieldsOn L (unexpected expected : Cursor α) P :=
  fun _ _ _ _ h => absurd h unexpected_ne_ok

theorem mono {P' : α → Prop} (h : YieldsOn L x P) (hp : ∀ a, P a → P' a) : YieldsOn L x P' :=
  fun ts a ts' hts hr => (h ts a ts' hts hr).imp_left (hp a)

/-- What every run gives, every run from tokens of one kind gives too. -/
theorem and_yields {Q : α → Prop} (h : YieldsOn L x P) (h' : Yields x Q) : YieldsOn L x fun a => P a ∧ Q a :=
  fun ts a ts' hts hr => ⟨⟨(h ts a ts' hts hr).1, h' ts a ts' hr⟩, (h ts a ts' hts hr).2⟩

/-- A step that leaves a suffix of its tokens, whatever it gives. -/
theorem of_suffix (h : ∀ ts a ts', x ts = .ok (a, ts') → ts' <:+ ts) : YieldsOn L x fun _ => True :=
  fun ts a ts' hts hr => ⟨trivial, fun t ht => hts t ((h ts a ts' hr).subset ht)⟩

theorem peek? : YieldsOn L peek? fun o => ∀ t ∈ o, L t := by
  intro ts o ts' hts hr
  obtain ⟨rfl, rfl⟩ : ts.head? = o ∧ ts = ts' := by simpa using hr
  exact ⟨fun t ht => hts t (List.mem_of_mem_head? ht), hts⟩

theorem skip : YieldsOn L skip fun _ => True :=
  of_suffix fun ts _ ts' hr => by
    obtain rfl : ts.tail = ts' := by simpa using hr
    exact List.tail_suffix ts

theorem next {expected : String} : YieldsOn L (next expected) L := by
  intro ts t ts' hts hr
  cases ts with
  | nil => simp [Cursor.next] at hr
  | cons u r =>
    obtain ⟨rfl, rfl⟩ : u = t ∧ r = ts' := by simpa [Cursor.next] using hr
    exact ⟨hts _ List.mem_cons_self, fun x hx => hts x (List.mem_cons_of_mem _ hx)⟩

theorem eatIf {p : Token → Bool} : YieldsOn L (eatIf p) fun _ => True :=
  of_suffix fun ts b ts' hr => by
    cases ts with
    | nil =>
      obtain ⟨-, rfl⟩ : b = false ∧ ts' = [] := by simpa [Cursor.eatIf] using hr.symm
      exact List.suffix_refl _
    | cons u r =>
      simp only [Cursor.eatIf] at hr
      split at hr
      · obtain ⟨-, rfl⟩ : b = true ∧ r = ts' := by simpa using hr
        exact List.suffix_cons u r
      · obtain ⟨-, rfl⟩ : b = false ∧ u :: r = ts' := by simpa using hr
        exact List.suffix_refl _

theorem takeWhile {p : Token → Bool} :
    YieldsOn L (takeWhile p) fun ws => ∀ w ∈ ws, L w ∧ p w = true := by
  intro ts ws ts' hts hr
  obtain ⟨rfl, rfl⟩ : ts.takeWhile p = ws ∧ ts.dropWhile p = ts' := by simpa [Cursor.takeWhile] using hr
  exact ⟨fun w hw => ⟨hts w ((List.takeWhile_prefix p).subset hw), List.all_eq_true.mp List.all_takeWhile w hw⟩,
    fun t ht => hts t ((List.dropWhile_suffix p).subset ht)⟩

theorem expectEnd : YieldsOn L expectEnd fun _ => True :=
  of_suffix fun ts _ ts' hr => by
    cases ts with
    | nil =>
      obtain rfl : [] = ts' := by simpa [Cursor.expectEnd] using hr
      exact List.suffix_refl _
    | cons u r => simp [Cursor.expectEnd] at hr

theorem eatKeyword {kw : String} : YieldsOn L (eatKeyword kw) fun _ => True := eatIf

theorem eatAnyKeyword {kws : List String} : YieldsOn L (eatAnyKeyword kws) fun _ => True := eatIf

theorem eatPunct {c : Char} : YieldsOn L (eatPunct c) fun _ => True := eatIf

theorem expectKeyword {kw : String} : YieldsOn L (expectKeyword kw) fun _ => True :=
  bind eatIf fun b _ => by
    split
    · exact pure trivial
    · exact unexpected

theorem expectOneOf {kws : List String} {expected : String} : YieldsOn L (expectOneOf kws expected) fun _ => True :=
  bind eatIf fun b _ => by
    split
    · exact pure trivial
    · exact unexpected

theorem expectPunct {c : Char} : YieldsOn L (expectPunct c) fun _ => True :=
  bind eatIf fun b _ => by
    split
    · exact pure trivial
    · exact unexpected

theorem expectName {expected : String} : YieldsOn L (expectName expected) fun _ => True :=
  bind next fun t _ => by
    split
    · exact pure trivial
    · exact throw

theorem get : YieldsOn L get fun ts => ∀ t ∈ ts, L t := by
  intro ts ts₁ ts' hts hr
  obtain ⟨rfl, rfl⟩ : ts = ts₁ ∧ ts = ts' := by simpa using hr
  exact ⟨hts, hts⟩

/-- A loop whose rounds keep `P` keeps it. -/
theorem repeatWhile {step : α → Cursor (α × Bool)} (hstep : ∀ a, P a → YieldsOn L (step a) (P ·.1))
    {a : α} (ha : P a) : YieldsOn L (SqlSchema.Cursor.repeatWhile step a) P := by
  intro ts a' ts' hts hr
  fun_induction SqlSchema.Cursor.repeatWhile step a ts generalizing a' ts' with
  | case1 a ts a₁ ts₁ hs _ ih =>
    obtain ⟨hp, hts₁⟩ := hstep a ha _ _ _ hts hs
    exact ih hp _ _ hts₁ hr
  | case2 a ts a₁ ts₁ hs _ =>
    obtain ⟨rfl, rfl⟩ : a₁ = a' ∧ ts₁ = ts' := by simpa using hr
    exact hstep a ha _ _ _ hts hs
  | case3 a ts a₁ ts₁ hs =>
    obtain ⟨rfl, rfl⟩ : a₁ = a' ∧ ts₁ = ts' := by simpa using hr
    exact hstep a ha _ _ _ hts hs
  | case4 => simp at hr

end YieldsOn

end SqlSchema.Cursor
