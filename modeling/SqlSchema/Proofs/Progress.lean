import SqlSchema.Proofs.BalancedRun
import SqlSchema.Proofs.ExprReading
import SqlSchema.Proofs.Lexing

/-! # Every step takes text

Reading statement text ends on every input because every step that goes on has taken something.
The lexer's readers each leave a suffix of the text they were given, so one token, read after the
gaps, leaves a suffix shorter by at least the token's first character, and a text has no more
tokens than characters (`Lexer.length_tokens_le`). The statement reader's steps likewise leave a
suffix of their tokens (`Cursor.Advances`), and every loop body that asks for another round has
taken a token first. Its loops would therefore end without the guard on progress that
`repeatWhile` carries: run without it, each ends within one round more than there are tokens, with
the same result (`Cursor.loop_eq_repeatWhile`). The main statement is `reading_progress`. -/

namespace SqlSchema.Quoted

theorem unquote_suffix (q : Char) (cs : List Char) : (unquote q cs).2 <:+ cs := by
  fun_induction unquote q cs with
  | case1 => exact List.suffix_refl _
  | case2 => exact List.nil_suffix
  | case3 c hc => exact List.nil_suffix
  | case4 r ih => exact ih.trans ((List.suffix_cons q r).trans (List.suffix_cons q _))
  | case5 d r hd => exact List.suffix_cons q _
  | case6 c d r hc ih => exact ih.trans (List.suffix_cons c _)

end SqlSchema.Quoted

namespace SqlSchema.Lexer

/-! ### The readers leave suffixes -/

theorem afterBlockComment_suffix (cs : List Char) : afterBlockComment cs <:+ cs := by
  fun_induction afterBlockComment cs with
  | case1 r => exact (List.suffix_cons '/' r).trans (List.suffix_cons '*' _)
  | case2 c r _ ih => exact ih.trans (List.suffix_cons c r)
  | case3 => exact List.suffix_refl _

theorem dropGap_suffix {cs r : List Char} (h : dropGap cs = some r) : r <:+ cs := by
  unfold dropGap at h
  split at h
  · simp at h
  · rename_i c t
    split at h
    · obtain rfl : t = r := by simpa using h
      exact List.suffix_cons c t
    · split at h
      · rename_i r' _
        obtain rfl : r'.dropWhile (· != '\n') = r := by simpa using h
        exact (List.dropWhile_suffix _).trans ((List.suffix_cons '-' r').trans (List.suffix_cons '-' _))
      · rename_i r' _
        obtain rfl : afterBlockComment r' = r := by simpa using h
        exact (afterBlockComment_suffix r').trans ((List.suffix_cons '*' r').trans (List.suffix_cons '/' _))
      · simp at h

theorem skipGaps_suffix (cs : List Char) : skipGaps cs <:+ cs := by
  fun_induction skipGaps cs with
  | case1 cs r h _ ih => exact ih.trans (dropGap_suffix h)
  | case2 => exact List.suffix_refl _

/-- A number's reader splits off the number's characters, so it leaves a suffix. -/
theorem numberAfter_suffix (c : Char) (r : List Char) : (numberAfter c r).2 <:+ r := by
  have hsplit : numberAfter c r = ((numberAfter c r).1, (numberAfter c r).2) := rfl
  obtain ⟨p, -, hr, -⟩ := numberAfter_readsBack hsplit
  exact ⟨p, hr.symm⟩

theorem upTo_suffix (close : Char) (cs : List Char) : (upTo close cs).2 <:+ cs :=
  (List.drop_suffix 1 _).trans (List.dropWhile_suffix _)

/-- A token's reader leaves a suffix of the text after the token's first character. -/
theorem readToken_suffix (c : Char) (r : List Char) : (readToken c r).2 <:+ r := by
  unfold readToken
  split
  · exact Quoted.unquote_suffix _ _
  split
  · exact Quoted.unquote_suffix _ _
  split
  · exact Quoted.unquote_suffix _ _
  split
  · exact upTo_suffix _ _
  split
  · exact (upTo_suffix _ _).trans (List.tail_suffix r)
  split
  · exact numberAfter_suffix c r
  split
  · exact List.dropWhile_suffix _
  · -- a symbol: one character, or two for a pair operator
    split
    · split
      · exact List.suffix_cons _ _
      · exact List.suffix_refl _
    · exact List.suffix_refl _

/-! ### One token, then the whole text -/

/-- One step of the lexer: after the gaps, the token that starts with `c` is read, and the text left
    is a suffix of the text before the gaps, shorter by at least `c`. -/
theorem readToken_advances {cs r : List Char} {c : Char} (h : skipGaps cs = c :: r) :
    (readToken c r).2 <:+ cs ∧ (readToken c r).2.length < cs.length := by
  have hgaps : c :: r <:+ cs := h ▸ skipGaps_suffix cs
  have hsuffix : (readToken c r).2 <:+ c :: r := (readToken_suffix c r).trans (List.suffix_cons c r)
  refine ⟨hsuffix.trans hgaps, ?_⟩
  calc (readToken c r).2.length ≤ r.length := (readToken_suffix c r).length_le
    _ < (c :: r).length := Nat.lt_succ_self _
    _ ≤ cs.length := hgaps.length_le

/-- A text has at most as many tokens as characters: each token takes at least one. -/
theorem length_tokens_le (cs : List Char) : (tokens cs).length ≤ cs.length := by
  fun_induction tokens cs with
  | case1 cs h => exact Nat.zero_le _
  | case2 cs c r h _ ih =>
    have := (readToken_advances h).2
    rw [List.length_cons]
    omega

end SqlSchema.Lexer

namespace SqlSchema

/-- A text has at least as many bytes as characters: each character takes one to four. -/
theorem length_le_utf8ByteSize (l : List Char) : l.length ≤ (String.ofList l).utf8ByteSize := by
  induction l with
  | nil => simp
  | cons c l ih =>
    rw [String.ofList_cons, String.utf8ByteSize_append, String.utf8ByteSize_singleton, List.length_cons]
    have := Char.utf8Size_pos c
    omega

/-- Statement text has at most as many tokens as characters, and so as bytes. -/
theorem length_tokenize_le (x : String) : (tokenize x).length ≤ x.length ∧ x.length ≤ x.utf8ByteSize := by
  refine ⟨Lexer.length_tokens_le x.toList, ?_⟩
  have := length_le_utf8ByteSize x.toList
  rwa [String.ofList_toList, String.length_toList] at this

end SqlSchema

namespace SqlSchema.Cursor

variable {α β : Type}

/-! ### Steps that take tokens -/

/-- Every successful run of `x` leaves a suffix of the tokens it was given, and a strictly shorter one
    when the value it gives satisfies `P`. -/
def Advances (x : Cursor α) (P : α → Prop) : Prop :=
  ∀ ts a ts', x ts = .ok (a, ts') → ts' <:+ ts ∧ (P a → ts'.length < ts.length)

namespace Advances

variable {x : Cursor α} {P Q : α → Prop}

theorem mono (h : Advances x P) (hqp : ∀ a, Q a → P a) : Advances x Q :=
  fun ts a ts' hr => (h ts a ts' hr).imp_right fun hp hq => hp (hqp a hq)

/-- A step that leaves a suffix promises nothing of what it gives. -/
theorem weaken (h : Advances x fun _ => False) (hp : ∀ a, ¬ P a) : Advances x P :=
  h.mono fun a ha => hp a ha

/-- What a step takes is still a suffix when nothing more is asked of it. -/
theorem forget (h : Advances x P) : Advances x fun _ => False :=
  h.mono fun _ => False.elim

/-- A branch entered after a step said that it took a token has nothing more to take. -/
theorem taken {b : Bool} (hb : b = true) (h : Advances x fun _ => False) : Advances x fun a => P a ∧ ¬ b = true :=
  h.weaken fun _ h' => h'.2 hb

theorem pure {a : α} (h : ¬ P a) : Advances (pure a) P := by
  intro ts b ts' hr
  obtain ⟨rfl, rfl⟩ := pure_ok.mp hr
  exact ⟨List.suffix_refl _, fun hp => absurd hp h⟩

/-- A bind takes a token when its first step does, or when its second does after a first step that
    did not. -/
theorem bind {f : α → Cursor β} {R : β → Prop} (hx : Advances x P) (hf : ∀ a, Advances (f a) fun b => R b ∧ ¬ P a) :
    Advances (x >>= f) R := by
  intro ts b ts' hr
  obtain ⟨a, ts₁, ha, hfa⟩ := bind_ok.mp hr
  obtain ⟨hs₁, hlt₁⟩ := hx _ _ _ ha
  obtain ⟨hs₂, hlt₂⟩ := hf a _ _ _ hfa
  refine ⟨hs₂.trans hs₁, fun hb => ?_⟩
  by_cases hpa : P a
  · exact Nat.lt_of_le_of_lt hs₂.length_le (hlt₁ hpa)
  · exact Nat.lt_of_lt_of_le (hlt₂ ⟨hb, hpa⟩) hs₁.length_le

/-- A bind whose second step is what takes the token. -/
theorem seq {f : α → Cursor β} {R : β → Prop} (hx : Advances x P) (hf : ∀ a, Advances (f a) R) :
    Advances (x >>= f) R :=
  bind hx fun a => (hf a).mono fun _ h => h.1

/-- A bind whose first step always takes a token. -/
theorem seq_left {f : α → Cursor β} {R : β → Prop} (hx : Advances x fun _ => True)
    (hf : ∀ a, Advances (f a) fun _ => False) : Advances (x >>= f) R :=
  bind hx fun a => (hf a).weaken fun _ h => h.2 trivial

theorem throw {e : ReadError} : Advances (throw e : Cursor α) P :=
  fun _ _ _ h => absurd h throw_ne_ok

theorem unexpected {expected : String} : Advances (unexpected expected : Cursor α) P :=
  fun _ _ _ h => absurd h unexpected_ne_ok

theorem peek? : Advances peek? fun _ => False := by
  intro ts o ts' hr
  obtain ⟨-, rfl⟩ : ts.head? = o ∧ ts = ts' := by simpa using hr
  exact ⟨List.suffix_refl _, False.elim⟩

theorem skip : Advances skip fun _ => False := by
  intro ts u ts' hr
  obtain rfl : ts.tail = ts' := by simpa using hr
  exact ⟨List.tail_suffix ts, False.elim⟩

theorem get : Advances get fun _ => False := by
  intro ts ts₁ ts' hr
  obtain ⟨-, rfl⟩ : ts = ts₁ ∧ ts = ts' := by simpa using hr
  exact ⟨List.suffix_refl _, False.elim⟩

theorem next {expected : String} : Advances (next expected) fun _ => True := by
  intro ts t ts' hr
  cases ts with
  | nil => simp [Cursor.next] at hr
  | cons u r =>
    obtain ⟨-, rfl⟩ : u = t ∧ r = ts' := by simpa [Cursor.next] using hr
    exact ⟨List.suffix_cons u r, fun _ => Nat.lt_succ_self _⟩

/-- A step that takes the next token when it fits has taken one exactly when it says so. -/
theorem eatIf {p : Token → Bool} : Advances (eatIf p) fun b => b = true := by
  intro ts b ts' hr
  cases ts with
  | nil =>
    obtain ⟨rfl, rfl⟩ : b = false ∧ ts' = [] := by simpa [Cursor.eatIf] using hr.symm
    exact ⟨List.suffix_refl _, Bool.false_ne_true.elim⟩
  | cons u r =>
    simp only [Cursor.eatIf] at hr
    split at hr
    · obtain ⟨-, rfl⟩ : b = true ∧ r = ts' := by simpa using hr
      exact ⟨List.suffix_cons u r, fun _ => Nat.lt_succ_self _⟩
    · obtain ⟨rfl, rfl⟩ : b = false ∧ u :: r = ts' := by simpa using hr
      exact ⟨List.suffix_refl _, Bool.false_ne_true.elim⟩

theorem takeWhile {p : Token → Bool} : Advances (takeWhile p) fun _ => False := by
  intro ts ws ts' hr
  obtain ⟨-, rfl⟩ : ts.takeWhile p = ws ∧ ts.dropWhile p = ts' := by simpa [Cursor.takeWhile] using hr
  exact ⟨List.dropWhile_suffix p, False.elim⟩

theorem eatKeyword {kw : String} : Advances (eatKeyword kw) fun b => b = true := eatIf

theorem eatAnyKeyword {kws : List String} : Advances (eatAnyKeyword kws) fun b => b = true := eatIf

theorem eatPunct {c : Char} : Advances (eatPunct c) fun b => b = true := eatIf

/-- A keyword or punctuation that is due is taken whenever the step succeeds: where it is not there,
    the step fails. -/
theorem due {y : Cursor Bool} (hy : Advances y fun b => b = true) {expected : String} :
    Advances (y >>= fun b => if b = true then Pure.pure () else Cursor.unexpected expected) fun _ => True := by
  refine bind hy fun b => ?_
  split
  · exact pure fun h => h.2 ‹b = true›
  · exact unexpected

theorem expectKeyword {kw : String} : Advances (expectKeyword kw) fun _ => True := due eatKeyword

theorem expectOneOf {kws : List String} {expected : String} :
    Advances (expectOneOf kws expected) fun _ => True :=
  due eatAnyKeyword

theorem expectPunct {c : Char} : Advances (expectPunct c) fun _ => True := due eatPunct

theorem expectName {expected : String} : Advances (expectName expected) fun _ => True :=
  seq_left next fun t => by
    split
    · exact pure False.elim
    · exact throw

/-- An expression is read from its own tokens, at least one. -/
theorem expression {terms : List String} {context : String} :
    Advances (Cursor.expression terms context) fun _ => True := by
  intro ts e ts' hr
  simp only [Cursor.expression] at hr
  split at hr
  · rename_i e₀ r h hread
    obtain ⟨rfl, rfl⟩ : e₀ = e ∧ r = ts' := by simpa using hr
    obtain ⟨-, hts, -⟩ := Expr.read_grammar hread
    exact ⟨hts ▸ List.suffix_append _ _, fun _ => h⟩
  · simp at hr

theorem operand {context : String} : Advances (Cursor.operand context) fun _ => True := by
  intro ts e ts' hr
  simp only [Cursor.operand] at hr
  split at hr
  · rename_i e₀ r h hread
    obtain ⟨rfl, rfl⟩ : e₀ = e ∧ r = ts' := by simpa using hr
    obtain ⟨-, hts, -⟩ := (Expr.grammar_of_read ts.length).1 rfl hread
    exact ⟨hts ▸ List.suffix_append _ _, fun _ => h⟩
  · simp at hr

/-- A loop whose rounds leave suffixes leaves a suffix. -/
theorem repeatWhile {step : α → Cursor (α × Bool)} (hstep : ∀ a, Advances (step a) fun _ => False) {a : α} :
    Advances (SqlSchema.Cursor.repeatWhile step a) fun _ => False := by
  intro ts a' ts' hr
  refine ⟨?_, False.elim⟩
  fun_induction SqlSchema.Cursor.repeatWhile step a ts generalizing a' ts' with
  | case1 a ts a₁ ts₁ hs _ ih => exact (ih _ _ hr).trans (hstep a _ _ _ hs).1
  | case2 a ts a₁ ts₁ hs _ =>
    obtain ⟨-, rfl⟩ : a₁ = a' ∧ ts₁ = ts' := by simpa using hr
    exact (hstep a _ _ _ hs).1
  | case3 a ts a₁ ts₁ hs =>
    obtain ⟨-, rfl⟩ : a₁ = a' ∧ ts₁ = ts' := by simpa using hr
    exact (hstep a _ _ _ hs).1
  | case4 => simp at hr

end Advances

/-! ### Loops without the guard -/

/-- The loop of `repeatWhile` without its guard on progress, run for at most `fuel` rounds: `none`
    when the rounds run out first. -/
def loop (step : α → Cursor (α × Bool)) : Nat → α → List Token → Option (Except ReadError (α × List Token))
  | 0, _, _ => none
  | fuel + 1, a, ts =>
    match step a ts with
    | .ok ((a', true), ts') => loop step fuel a' ts'
    | .ok ((a', false), ts') => some (.ok (a', ts'))
    | .error e => some (.error e)

/-- A loop whose rounds take a token whenever they ask for another ends without the guard, within one
    round more than there are tokens, and gives what `repeatWhile` gives. Induction on the rounds
    left: each round that goes on has left fewer tokens than the rounds still to run. -/
theorem loop_eq_repeatWhile {step : α → Cursor (α × Bool)} (hstep : ∀ a, Advances (step a) fun r => r.2 = true)
    {fuel : Nat} {a : α} {ts : List Token} (hfuel : ts.length < fuel) :
    loop step fuel a ts = some (repeatWhile step a ts) := by
  induction fuel generalizing a ts with
  | zero => exact absurd hfuel (Nat.not_lt_zero _)
  | succ fuel ih =>
    rw [loop, repeatWhile]
    cases hs : step a ts with
    | error e => rfl
    | ok r =>
      obtain ⟨⟨a', more⟩, ts'⟩ := r
      cases more with
      | false => rfl
      | true =>
        have hlt : ts'.length < ts.length := (hstep a ts _ ts' hs).2 rfl
        simp only [hlt, ↓reduceIte]
        exact ih (by omega)

end SqlSchema.Cursor

namespace SqlSchema.Reader

open Cursor

/-! ### The reader's steps leave suffixes -/

theorem skipBalanced_advances : Advances skipBalanced fun _ => False :=
  Advances.seq Advances.expectPunct fun _ =>
    Advances.seq (Advances.repeatWhile fun _ => Advances.seq Advances.next fun _ => Advances.pure id)
      fun _ => Advances.pure id

theorem conflictClause_advances : Advances conflictClause fun _ => False := by
  rw [conflictClause]
  refine Advances.seq Advances.eatKeyword fun b => ?_
  split
  · exact Advances.seq Advances.expectKeyword fun _ => Advances.expectOneOf.forget
  · exact Advances.pure id

theorem foreignKeyAction_advances (u : Unit) : Advances (foreignKeyAction u) fun r => r.2 = true := by
  rw [foreignKeyAction]
  refine Advances.bind Advances.eatKeyword fun on => ?_
  split
  · -- `ON` and its action
    refine Advances.taken ‹on = true› (Advances.seq Advances.expectOneOf fun _ => ?_)
    extract_lets finish
    have hfinish : ∀ r, Advances (finish r) fun _ => False := fun _ => Advances.pure id
    refine Advances.seq Advances.eatKeyword fun b => ?_
    split
    · exact Advances.seq Advances.expectOneOf hfinish
    refine Advances.seq Advances.eatKeyword fun b => ?_
    split
    · exact Advances.seq Advances.expectKeyword hfinish
    · exact Advances.seq Advances.expectOneOf hfinish
  refine Advances.bind Advances.eatKeyword fun m => ?_
  split
  · -- `MATCH` and its name
    exact Advances.taken ‹m = true› (Advances.seq Advances.expectName fun _ => Advances.pure id)
  · exact Advances.pure (by simp)

theorem foreignKeyClause_advances : Advances foreignKeyClause fun _ => False := by
  rw [foreignKeyClause]
  refine Advances.seq Advances.expectName fun _ => Advances.seq Advances.peek? fun o => ?_
  extract_lets deferral actions
  have hdeferral : ∀ r, Advances (deferral r) fun _ => False := by
    intro r
    refine Advances.seq Advances.eatKeyword fun b => ?_
    split
    · refine Advances.seq Advances.eatKeyword fun b => ?_
      split
      · exact Advances.expectOneOf.forget
      · exact Advances.pure id
    · exact Advances.pure id
  have hactions : ∀ r, Advances (actions r) fun _ => False := by
    intro r
    refine Advances.seq (Advances.repeatWhile fun u => (foreignKeyAction_advances u).forget) fun _ => ?_
    refine Advances.seq Advances.get fun ts => ?_
    split
    · split
      · exact Advances.seq Advances.skip fun r => hdeferral r
      · exact hdeferral ()
    · exact hdeferral ()
  split
  · exact Advances.seq skipBalanced_advances fun r => hactions r
  · exact hactions ()

theorem generatedBody_advances : Advances generatedBody fun _ => False :=
  Advances.seq skipBalanced_advances fun _ => Advances.seq Advances.eatAnyKeyword fun _ => Advances.pure id

theorem signedNumber_advances : Advances signedNumber fun _ => False := by
  rw [signedNumber]
  refine Advances.seq Advances.peek? fun o => ?_
  extract_lets number
  have hnumber : ∀ sign, Advances (number sign) fun _ => False := by
    intro sign
    refine Advances.seq Advances.next fun t => ?_
    split
    · exact Advances.pure id
    · exact Advances.throw
  split
  · split
    · exact Advances.seq Advances.skip fun _ =>
        Advances.seq (Advances.pure (P := fun _ => False) id) fun sign => hnumber sign
    · exact hnumber _
  · exact hnumber _

theorem typeName_advances : Advances typeName fun _ => False := by
  rw [typeName]
  refine Advances.seq Advances.takeWhile fun words => ?_
  dsimp only
  split
  · exact Advances.pure id
  refine Advances.seq Advances.eatPunct fun b => ?_
  split
  · refine Advances.seq signedNumber_advances fun _ => Advances.seq Advances.eatPunct fun c => ?_
    split
    · exact Advances.seq signedNumber_advances fun _ => Advances.seq (Advances.pure (P := fun _ => False) id)
        fun _ => Advances.seq Advances.expectPunct fun _ => Advances.pure id
    · exact Advances.seq (Advances.pure (P := fun _ => False) id) fun _ =>
        Advances.seq Advances.expectPunct fun _ => Advances.pure id
  · exact Advances.pure id

theorem defaultClause_advances (f : Field) : Advances (defaultClause f) fun _ => False := by
  delta defaultClause
  extract_lets literal
  have hliteral : Advances literal fun _ => False := by
    refine Advances.seq Advances.next fun t => ?_
    split <;> first | exact Advances.pure id | exact Advances.throw
  refine Advances.seq Advances.peek? fun o => ?_
  split
  · split
    · refine Advances.seq Advances.operand fun e => ?_
      split
      · exact Advances.pure id
      · exact Advances.throw
    · split
      · exact Advances.seq signedNumber_advances fun _ => Advances.pure id
      · exact hliteral
  · exact hliteral

/-- A column constraint says there may be another only after it has taken the keyword that opens it,
    so the loop over a column's constraints takes a token every round it goes on. -/
theorem columnConstraint_advances (f : Field) : Advances (columnConstraint f) fun r => r.2 = true := by
  rw [columnConstraint]
  refine Advances.bind Advances.eatKeyword fun named => ?_
  extract_lets rest
  -- the constraint's name, if any, has been taken before the keyword
  suffices h : Advances (rest ()) fun r => r.2 = true by
    split
    · exact Advances.taken ‹named = true› (Advances.seq Advances.expectName fun _ => h.forget)
    · exact h.mono fun _ h' => h'.1
  have keep : ∀ {β : Type} (x : Cursor β), Advances x (fun _ => False) →
      Advances (x >>= fun _ => pure (f, true)) fun _ => False :=
    fun _ hx => Advances.seq hx fun _ => Advances.pure id
  refine Advances.bind Advances.eatKeyword fun b => ?_
  split
  · -- PRIMARY KEY
    exact Advances.taken ‹b = true› (Advances.seq Advances.expectKeyword fun _ =>
      Advances.seq Advances.eatAnyKeyword fun _ => Advances.seq conflictClause_advances fun _ =>
        Advances.seq Advances.eatKeyword fun _ => Advances.pure id)
  refine Advances.bind Advances.eatKeyword fun b' => ?_
  split
  · -- NOT NULL
    exact Advances.taken ‹b' = true› (Advances.seq Advances.expectKeyword fun _ =>
      Advances.seq conflictClause_advances fun _ => Advances.pure id)
  refine Advances.bind Advances.eatAnyKeyword fun b'' => ?_
  split
  · exact Advances.taken ‹b'' = true› (keep _ conflictClause_advances)
  refine Advances.bind Advances.eatKeyword fun c => ?_
  split
  · exact Advances.taken ‹c = true› (keep _ skipBalanced_advances)
  refine Advances.bind Advances.eatKeyword fun d => ?_
  split
  · exact Advances.taken ‹d = true› (Advances.seq (defaultClause_advances f) fun _ => Advances.pure id)
  refine Advances.bind Advances.eatKeyword fun c' => ?_
  split
  · exact Advances.taken ‹c' = true› (keep _ Advances.expectName.forget)
  refine Advances.bind Advances.eatKeyword fun r => ?_
  split
  · exact Advances.taken ‹r = true› (keep _ foreignKeyClause_advances)
  refine Advances.bind Advances.eatKeyword fun g => ?_
  split
  · exact Advances.taken ‹g = true› (Advances.seq Advances.expectKeyword fun _ =>
      Advances.seq Advances.expectKeyword fun _ => keep _ generatedBody_advances)
  refine Advances.bind Advances.eatKeyword fun a => ?_
  split
  · exact Advances.taken ‹a = true› (keep _ generatedBody_advances)
  split
  · exact Advances.unexpected
  · exact Advances.pure (by simp)

theorem columnDef_advances (t : Table) : Advances (columnDef t) fun _ => False := by
  rw [columnDef]
  exact Advances.seq Advances.expectName fun _ => Advances.seq typeName_advances fun _ =>
    Advances.seq (Advances.repeatWhile fun f => (columnConstraint_advances f).forget) fun _ => Advances.pure id

/-- A column of a table-level key starts with its name, so every round of the key's loop takes a
    token. -/
theorem keyColumn_advances (t : Table) (keys : List Nat) : Advances (keyColumn t keys) fun _ => True := by
  rw [keyColumn]
  refine Advances.seq_left Advances.expectName fun _ => ?_
  extract_lets keys' rest
  suffices h : Advances (rest ()) fun _ => False by
    refine Advances.seq Advances.eatKeyword fun b => ?_
    split
    · exact Advances.seq Advances.expectName fun _ => h
    · exact h
  exact Advances.seq Advances.eatAnyKeyword fun _ => Advances.seq Advances.eatPunct fun _ => Advances.pure id

theorem tableConstraint_advances (t : Table) : Advances (tableConstraint t) fun _ => False := by
  rw [tableConstraint]
  refine Advances.seq Advances.eatKeyword fun named => ?_
  extract_lets rest
  suffices h : Advances (rest ()) fun _ => False by
    split
    · exact Advances.seq Advances.expectName fun _ => h
    · exact h
  refine Advances.seq Advances.eatKeyword fun b => ?_
  split
  · -- PRIMARY KEY
    refine Advances.seq Advances.expectKeyword fun _ => Advances.seq Advances.expectPunct fun _ => ?_
    refine Advances.seq (Advances.repeatWhile fun keys => (keyColumn_advances t keys).forget) fun keys => ?_
    exact Advances.seq Advances.eatKeyword fun _ => Advances.seq Advances.expectPunct fun _ =>
      Advances.seq conflictClause_advances fun _ => Advances.pure id
  refine Advances.seq Advances.eatKeyword fun b => ?_
  split
  · exact Advances.seq skipBalanced_advances fun _ => Advances.seq conflictClause_advances fun _ =>
      Advances.pure id
  refine Advances.seq Advances.eatKeyword fun b => ?_
  split
  · exact Advances.seq skipBalanced_advances fun _ => Advances.pure id
  refine Advances.seq Advances.eatKeyword fun b => ?_
  split
  · exact Advances.seq Advances.expectKeyword fun _ => Advances.seq skipBalanced_advances fun _ =>
      Advances.seq Advances.expectKeyword fun _ => Advances.seq foreignKeyClause_advances fun _ =>
        Advances.pure id
  · exact Advances.unexpected

/-- A table element asks for another only after taking the comma that follows it. -/
theorem tableElement_advances (t : Table) : Advances (tableElement t) fun r => r.2 = true := by
  rw [tableElement]
  refine Advances.seq Advances.peek? fun _ => ?_
  extract_lets isConstraint finish
  have hfinish : ∀ t', Advances (finish t') fun r => r.2 = true :=
    fun _ => Advances.bind Advances.eatPunct fun _ => Advances.pure fun h => h.2 h.1
  split
  · exact Advances.seq (tableConstraint_advances t) hfinish
  · exact Advances.seq (columnDef_advances t) hfinish

/-- An indexed column is an expression, which takes at least one token. -/
theorem indexedColumn_advances (cols : List Expr) : Advances (indexedColumn cols) fun _ => True :=
  Advances.seq_left Advances.expression fun _ => Advances.seq Advances.eatPunct fun _ => Advances.pure id

/-- A round of a balanced run takes its token. -/
theorem closeRound_advances (depth : Nat) : Advances (closeRound depth) fun _ => True :=
  Advances.seq_left Advances.next fun _ => Advances.pure id

end SqlSchema.Reader

namespace SqlSchema

open Cursor Reader

/-- Reading statement text ends on every input, and every step that goes on has taken text.
    Each token the lexer reads after the gaps leaves a suffix of the text, shorter by at least one
    character, so a text has at most as many tokens as characters, and no more characters than
    bytes. The expression reader reads an expression from its own tokens, at least one. Each loop of
    the statement reader, over a table's elements, a column's constraints, a key's columns, a foreign
    key's actions, a balanced run and an index's columns, takes a token in every round that asks for
    another; so each, run without its guard on progress, ends within one round more than there are
    tokens, with the result the reader computes. -/
theorem reading_progress :
    (∀ cs c r, Lexer.skipGaps cs = c :: r →
      (Lexer.readToken c r).2 <:+ cs ∧ (Lexer.readToken c r).2.length < cs.length) ∧
    (∀ x : String, (tokenize x).length ≤ x.length ∧ x.length ≤ x.utf8ByteSize) ∧
    (∀ terms ts e r h, Expr.read terms ts = .read e r h → ts = e.tokens ++ r ∧ e.tokens ≠ []) ∧
    (∀ (t : Table) ts, loop tableElement (ts.length + 1) t ts = some (repeatWhile tableElement t ts)) ∧
    (∀ (f : Field) ts, loop columnConstraint (ts.length + 1) f ts = some (repeatWhile columnConstraint f ts)) ∧
    (∀ (t : Table) keys ts,
      loop (keyColumn t) (ts.length + 1) keys ts = some (repeatWhile (keyColumn t) keys ts)) ∧
    (∀ ts, loop foreignKeyAction (ts.length + 1) () ts = some (repeatWhile foreignKeyAction () ts)) ∧
    (∀ depth ts, loop closeRound (ts.length + 1) depth ts = some (repeatWhile closeRound depth ts)) ∧
    (∀ cols ts, loop indexedColumn (ts.length + 1) cols ts = some (repeatWhile indexedColumn cols ts)) := by
  -- a loop whose rounds take a token whenever they go on needs no more rounds than tokens, and one
  have hloop : ∀ {α : Type} {step : α → Cursor (α × Bool)}, (∀ a, Advances (step a) fun r => r.2 = true) →
      ∀ a ts, loop step (ts.length + 1) a ts = some (repeatWhile step a ts) :=
    fun hstep _ _ => loop_eq_repeatWhile hstep (Nat.lt_succ_self _)
  have hread : ∀ terms ts e r h, Expr.read terms ts = .read e r h → ts = e.tokens ++ r ∧ e.tokens ≠ [] := by
    intro terms ts e r h he
    obtain ⟨-, hts, -⟩ := Expr.read_grammar he
    exact ⟨hts, List.ne_nil_of_length_pos (Expr.length_tokens_pos e)⟩
  exact ⟨fun _ _ _ h => Lexer.readToken_advances h, length_tokenize_le, hread,
    hloop tableElement_advances, hloop columnConstraint_advances,
    fun t => hloop fun keys => (keyColumn_advances t keys).mono fun _ _ => trivial,
    hloop foreignKeyAction_advances (),
    hloop fun depth => (closeRound_advances depth).mono fun _ _ => trivial,
    hloop fun cols => (indexedColumn_advances cols).mono fun _ _ => trivial⟩

/-- The lexer's step at the text `a b`: the word `a` is read after no gap, and leaves ` b`. -/
theorem reading_progress_word :
    Lexer.skipGaps ['a', ' ', 'b'] = 'a' :: [' ', 'b'] ∧
      (Lexer.readToken 'a' [' ', 'b']).2 <:+ ['a', ' ', 'b'] ∧ (Lexer.readToken 'a' [' ', 'b']).2.length < 3 := by
  have hgaps : Lexer.skipGaps ['a', ' ', 'b'] = 'a' :: [' ', 'b'] := Lexer.skipGaps_of_dropGap_none rfl
  exact ⟨hgaps, reading_progress.1 _ _ _ hgaps⟩

end SqlSchema
