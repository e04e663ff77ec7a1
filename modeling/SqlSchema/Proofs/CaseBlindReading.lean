import SqlSchema.Proofs.CaseBlindExpr
import SqlSchema.Proofs.Agreement
import SqlSchema.Statement.Reader

/-! # Statements do not see ASCII case

Two texts that are the same once lowered lex to tokens that are the same up to case
(`Lexer.tokenize_lower_eq`). Over such tokens the statement reader is walked step against step with
`Cursor.Agree Token.SameCase`: every keyword, constraint word and punctuation test gives the same
answer on both, names and types are read as texts that are the same up to case, a table-level key
finds its columns at the same places because the lookup compares names up to case, and the
expressions are read as trees that are the same up to case. So the two texts read as statements that
are the same once lowered, or fail with the same error once lowered (`Statement.parse_caseInsensitive`). -/

namespace SqlSchema

/-- Two tokens of one kind whose texts are the same up to ASCII case. -/
def Token.SameCase (t u : Token) : Prop :=
  t.lower = u.lower

namespace Token

variable {t u : Token}

/-- A test that does not see a token's case gives the same answer on two tokens that are the same up
    to case. -/
theorem SameCase.test {α : Type} {p : Token → α} (h : t.SameCase u) (hp : ∀ t, p t.lower = p t) : p t = p u := by
  rw [← hp t, h, hp u]

theorem SameCase.kind (h : t.SameCase u) : t.kind = u.kind := h.test lower_kind

theorem SameCase.text (h : t.SameCase u) : t.text.toLower = u.text.toLower := by
  have := congrArg Token.text h
  simpa using this

@[simp] theorem isKeyword_lower (t : Token) (kw : String) : t.lower.isKeyword kw = t.isKeyword kw := by
  simp [isKeyword, Lexer.sameWord_toLower]

@[simp] theorem isOperator_lower (t : Token) {s : String} (hs : ∀ c ∈ s.toList, c.isAlpha = false) :
    t.lower.isOperator s = t.isOperator s := by
  simp only [isOperator, lower_kind, lower_text, toLower_beq_of_noLetters hs]

@[simp] theorem isName_lower (t : Token) : t.lower.isName = t.isName := by
  simp [isName]

theorem SameCase.isKeyword (h : t.SameCase u) (kw : String) : t.isKeyword kw = u.isKeyword kw :=
  h.test (p := (·.isKeyword kw)) fun t => t.isKeyword_lower kw

theorem SameCase.isPunct (h : t.SameCase u) {c : Char} (hc : c.isAlpha = false) : t.isPunct c = u.isPunct c :=
  h.test (p := (·.isPunct c)) fun t => t.isPunct_lower hc

theorem SameCase.isOperator (h : t.SameCase u) {s : String} (hs : ∀ c ∈ s.toList, c.isAlpha = false) :
    t.isOperator s = u.isOperator s :=
  h.test (p := (·.isOperator s)) fun t => t.isOperator_lower hs

theorem SameCase.render (h : t.SameCase u) : t.render.toLower = u.render.toLower := by
  rw [← render_lower t, h, render_lower]

/-- A test that does not see case gives the same answer on two tokens that may be absent alike. -/
theorem SameCase.any {o o' : Option Token} (h : Option.Rel SameCase o o') {p : Token → Bool}
    (hp : ∀ t, p t.lower = p t) : o.any p = o'.any p := by
  cases h with
  | none => rfl
  | some h => exact h.test hp

theorem forall₂_sameCase_iff {ts us : List Token} :
    List.Forall₂ SameCase ts us ↔ ts.map lower = us.map lower := by
  induction ts generalizing us with
  | nil => cases us <;> simp
  | cons t ts ih => cases us <;> simp [ih, SameCase]

theorem map_render_toLower {ts us : List Token} (h : List.Forall₂ SameCase ts us) :
    ts.map (String.toLower ∘ render) = us.map (String.toLower ∘ render) := by
  induction h with
  | nil => rfl
  | cons h _ ih => rw [List.map_cons, List.map_cons, Function.comp_apply, h.render, ih]; rfl

end Token

/-- The field with the ASCII letters of its texts in lower case. -/
def Field.lower (f : Field) : Field :=
  { f with name := f.name.toLower, typeName := f.typeName.toLower,
           defaultValue := f.defaultValue.map String.toLower }

theorem Field.lower_eq_lower_iff {f g : Field} :
    f.lower = g.lower ↔ f.name.toLower = g.name.toLower ∧ f.typeName.toLower = g.typeName.toLower ∧
      f.defaultValue.map String.toLower = g.defaultValue.map String.toLower ∧
      f.defaultIsExpression = g.defaultIsExpression ∧ f.defaultIsQuoted = g.defaultIsQuoted ∧
      f.inPrimaryKey = g.inPrimaryKey ∧ f.autoIncrement = g.autoIncrement ∧ f.notNull = g.notNull := by
  cases f
  cases g
  simp [Field.lower]

/-- The table with the ASCII letters of its texts in lower case. -/
def Table.lower (t : Table) : Table :=
  { t with name := t.name.toLower, fields := t.fields.map Field.lower }

/-- The index with the ASCII letters of its texts in lower case. -/
def Index.lower (i : Index) : Index :=
  { i with name := i.name.toLower, table := i.table.toLower, columns := i.columns.map Expr.lower,
           predicate := i.predicate.map Expr.lower }

/-- The statement with the ASCII letters of its texts in lower case. -/
def Statement.lower : Statement → Statement
  | .table t => .table t.lower
  | .index i => .index i.lower

/-- The error with the token it shows in lower case. -/
def ReadError.lower : ReadError → ReadError
  | .unexpectedToken e t => .unexpectedToken e t.lower
  | .trailingInput t => .trailingInput t.lower
  | e => e

theorem ReadError.lower_of_rel {e e' : ReadError} (h : ReadError.Rel Token.SameCase e e') : e.lower = e'.lower := by
  cases e <;> cases e' <;> simp_all [ReadError.Rel, ReadError.lower, Token.SameCase]

theorem map_modify {α β : Type} {f : α → α} {f' : β → β} {g : α → β} (hg : ∀ x, g (f x) = f' (g x))
    (l : List α) (i : Nat) : (l.modify i f).map g = (l.map g).modify i f' := by
  induction l generalizing i with
  | nil => simp
  | cons a l ih => cases i <;> simp [hg, ih]

namespace Table

theorem lower_eq_lower_iff {t t' : Table} :
    t.lower = t'.lower ↔ t.name.toLower = t'.name.toLower ∧ t.fields.map Field.lower = t'.fields.map Field.lower ∧
      t.primaryKey = t'.primaryKey ∧ t.hasRowid = t'.hasRowid ∧ t.temporary = t'.temporary := by
  cases t
  cases t'
  simp [Table.lower]

theorem sameWord_toLower_right (a b : String) : sameWord a b.toLower = sameWord a b := by
  simp [sameWord, String.toUpper, String.toLower, String.map_map, Function.comp_def]

@[simp] theorem lower_fields (t : Table) : t.lower.fields = t.fields.map Field.lower := rfl

theorem position?_lower (t : Table) (n : String) : t.lower.position? n.toLower = t.position? n := by
  simp [position?, lower, Field.lower, Function.comp_def, Lexer.sameWord_toLower, sameWord_toLower_right]

theorem markPrimaryKey_lower (t : Table) (i : Nat) : (t.markPrimaryKey i).lower = t.lower.markPrimaryKey i := by
  simp only [markPrimaryKey, lower, Table.mk.injEq, and_true, true_and]
  refine ⟨map_modify (fun _ => ?_) _ _, rfl⟩
  rfl

theorem markAutoIncrement_lower (t : Table) (i : Nat) :
    (t.markAutoIncrement i).lower = t.lower.markAutoIncrement i := by
  simp only [markAutoIncrement, lower, Table.mk.injEq, and_true, true_and]
  refine map_modify (fun _ => ?_) _ _
  rfl

/-- Marking the key columns of a table-level key commutes with lowering the texts. -/
theorem foldl_key_lower (auto : Bool) (keys : List Nat) (t : Table) :
    (keys.foldl (fun t i => let t := t.markPrimaryKey i; if auto then t.markAutoIncrement i else t) t).lower =
      keys.foldl (fun t i => let t := t.markPrimaryKey i; if auto then t.markAutoIncrement i else t) t.lower := by
  induction keys generalizing t with
  | nil => rfl
  | cons i keys ih =>
    rw [List.foldl_cons, List.foldl_cons, ih]
    cases auto <;> simp [markPrimaryKey_lower, markAutoIncrement_lower]

end Table

end SqlSchema

namespace SqlSchema.Reader

open Cursor

/-! ### The cursor's steps over tokens that are the same up to case -/

theorem eatKeyword_sameCase (kw : String) : Agree Token.SameCase Eq (eatKeyword kw) (eatKeyword kw) :=
  Agree.eatIf fun _ _ h => h.test (p := (·.isKeyword kw)) fun t => t.isKeyword_lower kw

theorem eatAnyKeyword_sameCase (kws : List String) :
    Agree Token.SameCase Eq (eatAnyKeyword kws) (eatAnyKeyword kws) :=
  Agree.eatIf fun _ _ h => h.test (p := fun t => kws.any t.isKeyword) fun t => by
    rw [show t.lower.isKeyword = t.isKeyword from funext t.isKeyword_lower]

theorem eatPunct_sameCase {c : Char} (hc : c.isAlpha = false) :
    Agree Token.SameCase Eq (eatPunct c) (eatPunct c) :=
  Agree.eatIf fun _ _ h => h.test (p := (·.isPunct c)) fun t => t.isPunct_lower hc

theorem expectKeyword_sameCase (kw : String) :
    Agree Token.SameCase Eq (expectKeyword kw) (expectKeyword kw) :=
  (eatKeyword_sameCase kw).bind_ite (Agree.pure rfl) Agree.unexpected

theorem expectOneOf_sameCase (kws : List String) (expected : String) :
    Agree Token.SameCase Eq (expectOneOf kws expected) (expectOneOf kws expected) :=
  (eatAnyKeyword_sameCase kws).bind_ite (Agree.pure rfl) Agree.unexpected

theorem expectPunct_sameCase {c : Char} (hc : c.isAlpha = false) :
    Agree Token.SameCase Eq (expectPunct c) (expectPunct c) :=
  (eatPunct_sameCase hc).bind_ite (Agree.pure rfl) Agree.unexpected

theorem expectName_sameCase (expected : String) :
    Agree Token.SameCase (fun a b => a.toLower = b.toLower) (expectName expected) (expectName expected) :=
  Agree.next.bind fun t u h =>
    Agree.ite_iff (by rw [h.test Token.isName_lower]) (fun _ => Agree.pure h.text)
      fun _ => Agree.throw ⟨rfl, h⟩

/-- A cursor over an expression reader that reads lowered tokens as the lowered tree reads the same
    tree up to case, and leaves the same tokens up to case, from tokens that are the same up to case. -/
theorem reading_sameCase {read : (ts : List Token) → Expr.Reading ts.length}
    (hread : ∀ ts, (read ts).Lowered (read (ts.map Token.lower))) (context : String) :
    Agree Token.SameCase (fun e e' => e.lower = e'.lower)
      (fun ts => match read ts with
        | .read e r _ => .ok (e, r)
        | .failed _ => .error (.invalidExpression context))
      (fun ts => match read ts with
        | .read e r _ => .ok (e, r)
        | .failed _ => .error (.invalidExpression context)) := by
  intro ts us hts
  dsimp only
  rw [Token.forall₂_sameCase_iff] at hts
  have h := hread us
  rw [← hts] at h
  obtain ⟨e, r, _, e', r', _, hx, hy, he, hr⟩ | ⟨r, r', hx, hy⟩ := (hread ts).both h
  · rw [hx, hy]
    exact ⟨he, Token.forall₂_sameCase_iff.mpr hr⟩
  · rw [hx, hy]
    exact rfl

theorem expression_sameCase (terms : List String) (context : String) :
    Agree Token.SameCase (fun e e' => e.lower = e'.lower) (expression terms context) (expression terms context) :=
  reading_sameCase (Expr.read_lowered terms) context

theorem operand_sameCase (context : String) :
    Agree Token.SameCase (fun e e' => e.lower = e'.lower) (operand context) (operand context) :=
  reading_sameCase Expr.readOperand_lowered context

/-! ### The statement's parts -/

theorem skipBalanced_sameCase : Agree Token.SameCase Eq skipBalanced skipBalanced := by
  unfold skipBalanced
  refine (expectPunct_sameCase (by decide)).bind_eq fun _ => ?_
  refine (Agree.repeatWhile (fun a b hab => ?_) rfl).bind_eq fun _ => Agree.pure rfl
  subst hab
  refine Agree.next.bind fun t u h => Agree.pure ?_
  rw [h.isPunct (c := '(') (by decide), h.isPunct (c := ')') (by decide)]
  exact ⟨rfl, rfl⟩

theorem ifNotExists_sameCase : Agree Token.SameCase Eq ifNotExists ifNotExists := by
  unfold ifNotExists
  exact (eatKeyword_sameCase "IF").bind_ite
    ((expectKeyword_sameCase "NOT").bind_eq fun _ => expectKeyword_sameCase "EXISTS") (Agree.pure rfl)

theorem qualifiedName_sameCase :
    Agree Token.SameCase (fun a b => a.toLower = b.toLower) qualifiedName qualifiedName := by
  unfold qualifiedName
  refine (expectName_sameCase "name").bind fun n n' hn => Agree.peek?.bind fun o o' ho => ?_
  refine Agree.ite_iff ?_ (fun _ => Agree.skip.bind fun _ _ _ => expectName_sameCase "name") fun _ => Agree.pure hn
  rw [Token.SameCase.any ho (p := (·.isOperator ".")) fun t => t.isOperator_lower (by simp)]

theorem signedNumber_sameCase :
    Agree Token.SameCase (fun a b => a.toLower = b.toLower) signedNumber signedNumber := by
  unfold signedNumber
  refine Agree.peek?.bind fun o o' ho => ?_
  extract_lets jp
  -- the rounds after the sign, from signs that are the same up to case
  have hjp : ∀ a b : String, a.toLower = b.toLower →
      Agree Token.SameCase (fun a b => a.toLower = b.toLower) (jp a) (jp b) := fun a b hab =>
    Agree.next.bind fun t u h => Agree.ite_iff (by rw [h.kind])
      (fun _ => Agree.pure (by rw [toLower_append, toLower_append, hab, h.text])) fun _ => Agree.throw ⟨rfl, h⟩
  have hempty : Agree Token.SameCase (fun a b : String => a.toLower = b.toLower) (pure "") (pure "") :=
    Agree.pure rfl
  cases ho with
  | none => exact hempty.bind hjp
  | some h =>
    refine Agree.ite_iff ?_ (fun _ => Agree.skip.bind fun _ _ _ => (Agree.pure (R := fun a b : String =>
      a.toLower = b.toLower) h.text).bind hjp) fun _ => hempty.bind hjp
    rw [h.isOperator (s := "-") (by simp), h.isOperator (s := "+") (by simp)]

theorem isTypeWord_lower (t : Token) : isTypeWord t.lower = isTypeWord t := by
  simp [isTypeWord, show t.lower.isKeyword = t.isKeyword from funext t.isKeyword_lower]

theorem typeName_sameCase :
    Agree Token.SameCase (fun a b => a.toLower = b.toLower) typeName typeName := by
  unfold typeName
  refine (Agree.takeWhile fun t u h => h.test (p := isTypeWord) isTypeWord_lower).bind fun ws ws' hw => ?_
  extract_lets base base'
  have hbase : base.toLower = base'.toLower := by
    simp only [base, base', toLower_intercalate, List.map_map]
    rw [Token.map_render_toLower hw]
  refine Agree.ite_iff (by rw [isEmpty_of_toLower_eq hbase]) (fun _ => Agree.pure hbase) fun _ => ?_
  refine (eatPunct_sameCase (by decide)).bind_ite ?_ (Agree.pure hbase)
  refine signedNumber_sameCase.bind fun first first' hf => (eatPunct_sameCase (by decide)).bind_eq fun _ => ?_
  extract_lets jp jp'
  have hjp : ∀ a b : String, a.toLower = b.toLower →
      Agree Token.SameCase (fun a b => a.toLower = b.toLower) (jp a) (jp' b) := fun a b hab =>
    (expectPunct_sameCase (by decide)).bind_eq fun _ => Agree.pure (by simp only [toLower_append, hbase, hf, hab])
  refine Agree.ite (fun _ => signedNumber_sameCase.bind fun s s' hs => ?_)
    fun _ => (Agree.pure (R := fun a b : String => a.toLower = b.toLower) rfl).bind hjp
  exact (Agree.pure (R := fun a b : String => a.toLower = b.toLower) (by rw [toLower_append, toLower_append, hs])).bind hjp

theorem conflictClause_sameCase : Agree Token.SameCase Eq conflictClause conflictClause := by
  unfold conflictClause
  exact (eatKeyword_sameCase "ON").bind_ite
    ((expectKeyword_sameCase "CONFLICT").bind_eq fun _ => expectOneOf_sameCase _ _) (Agree.pure rfl)

theorem foreignKeyAction_sameCase (u : Unit) :
    Agree Token.SameCase Eq (foreignKeyAction u) (foreignKeyAction u) := by
  unfold foreignKeyAction
  refine (eatKeyword_sameCase "ON").bind_ite ?_
    ((eatKeyword_sameCase "MATCH").bind_ite ((expectName_sameCase _).bind fun _ _ _ => Agree.pure rfl) (Agree.pure rfl))
  refine (expectOneOf_sameCase _ _).bind_eq fun _ => (eatKeyword_sameCase "SET").bind_eq fun _ => ?_
  extract_lets jp
  have hjp : ∀ a, Agree Token.SameCase Eq (jp a) (jp a) := fun _ => Agree.pure rfl
  exact Agree.ite (fun _ => (expectOneOf_sameCase _ _).bind_eq hjp) fun _ => (eatKeyword_sameCase "NO").bind_ite
    ((expectKeyword_sameCase _).bind_eq hjp) ((expectOneOf_sameCase _ _).bind_eq hjp)

theorem foreignKeyClause_sameCase : Agree Token.SameCase Eq foreignKeyClause foreignKeyClause := by
  unfold foreignKeyClause
  refine (expectName_sameCase _).bind fun _ _ _ => Agree.peek?.bind fun o o' ho => ?_
  extract_lets deferral actions
  have hdeferral : ∀ a, Agree Token.SameCase Eq (deferral a) (deferral a) := fun _ =>
    (eatKeyword_sameCase _).bind_ite ((eatKeyword_sameCase _).bind_ite (expectOneOf_sameCase _ _) (Agree.pure rfl))
      (Agree.pure rfl)
  -- `NOT DEFERRABLE` is looked for two tokens ahead, so the tokens are split that far
  have hactions : ∀ a, Agree Token.SameCase Eq (actions a) (actions a) := by
    intro _
    refine (Agree.repeatWhile_eq foreignKeyAction_sameCase).bind_eq fun _ => Agree.get.bind fun ts us hts => ?_
    rcases hts with _ | ⟨ha, _ | ⟨hb, _⟩⟩
    · exact hdeferral ()
    · exact hdeferral ()
    · exact Agree.ite_iff (by rw [ha.isKeyword, hb.isKeyword]) (fun _ => Agree.skip.bind fun _ _ _ => hdeferral ())
        fun _ => hdeferral ()
  refine Agree.ite_iff ?_ (fun _ => skipBalanced_sameCase.bind_eq hactions) fun _ => hactions ()
  rw [Token.SameCase.any ho (p := (·.isPunct '(')) fun t => t.isPunct_lower (by decide)]

theorem defaultClause_sameCase {f g : Field} (hfg : f.lower = g.lower) :
    Agree Token.SameCase (fun a b => a.lower = b.lower) (defaultClause f) (defaultClause g) := by
  unfold defaultClause
  extract_lets literal literal'
  rw [Field.lower_eq_lower_iff] at hfg
  obtain ⟨hn, hty, hv, he, hq, hp, ha, hnn⟩ := hfg
  have hliteral : Agree Token.SameCase (fun a b => a.lower = b.lower) literal literal' := by
    refine Agree.next.bind fun t u h => ?_
    have ht := h.text
    rw [h.kind]
    cases u.kind
    all_goals first
      | exact Agree.throw ⟨rfl, h⟩
      | exact Agree.pure (by simp [Field.lower_eq_lower_iff, toLower_append, *])
  refine Agree.peek?.bind fun o o' ho => ?_
  cases ho with
  | none => exact hliteral
  | some h =>
    refine Agree.ite_iff (by rw [h.isPunct (by decide)]) (fun _ => (operand_sameCase _).bind fun e e' hee => ?_)
      fun _ => Agree.ite_iff (by rw [h.isOperator (s := "-") (by simp), h.isOperator (s := "+") (by simp)])
        (fun _ => signedNumber_sameCase.bind fun s s' hs =>
          Agree.pure (by simp [Field.lower_eq_lower_iff, *])) fun _ => hliteral
    -- only a parenthesised expression is a default; the lowered trees have the same shape
    cases e <;> cases e' <;> simp only [Expr.lower, reduceCtorEq, Expr.paren.injEq] at hee
    case paren.paren inner inner' =>
      have hr : inner.render.toLower = inner'.render.toLower := by
        rw [← Expr.render_lower inner, hee, Expr.render_lower]
      exact Agree.pure (by simp [Field.lower_eq_lower_iff, *])
    all_goals exact Agree.throw rfl

theorem generatedBody_sameCase : Agree Token.SameCase Eq generatedBody generatedBody := by
  unfold generatedBody
  exact skipBalanced_sameCase.bind_eq fun _ => (eatAnyKeyword_sameCase _).bind_eq fun _ => Agree.pure rfl

theorem columnConstraint_sameCase {f g : Field} (hfg : f.lower = g.lower) :
    Agree Token.SameCase (fun p q => p.1.lower = q.1.lower ∧ p.2 = q.2) (columnConstraint f) (columnConstraint g) := by
  unfold columnConstraint
  refine (eatKeyword_sameCase _).bind_eq fun named => ?_
  extract_lets jp jp'
  have hf := Field.lower_eq_lower_iff.mp hfg
  -- the constraint words are tried in turn, each branch keeping the fields alike
  have hjp : ∀ a, Agree Token.SameCase (fun p q => p.1.lower = q.1.lower ∧ p.2 = q.2) (jp a) (jp' a) := by
    intro _
    refine (eatKeyword_sameCase _).bind_ite ?_ ?_
    · exact (expectKeyword_sameCase _).bind_eq fun _ => (eatAnyKeyword_sameCase _).bind_eq fun _ =>
        conflictClause_sameCase.bind_eq fun _ => (eatKeyword_sameCase _).bind_eq fun _ =>
          Agree.pure ⟨by simp [Field.lower_eq_lower_iff, hf], rfl⟩
    refine (eatKeyword_sameCase _).bind_ite ?_ ?_
    · exact (expectKeyword_sameCase _).bind_eq fun _ => conflictClause_sameCase.bind_eq fun _ =>
        Agree.pure ⟨by simp [Field.lower_eq_lower_iff, hf], rfl⟩
    refine (eatAnyKeyword_sameCase _).bind_ite (conflictClause_sameCase.bind_eq fun _ => Agree.pure ⟨hfg, rfl⟩) ?_
    refine (eatKeyword_sameCase _).bind_ite (skipBalanced_sameCase.bind_eq fun _ => Agree.pure ⟨hfg, rfl⟩) ?_
    refine (eatKeyword_sameCase _).bind_ite
      ((defaultClause_sameCase hfg).bind fun _ _ h => Agree.pure ⟨h, rfl⟩) ?_
    refine (eatKeyword_sameCase _).bind_ite
      ((expectName_sameCase _).bind fun _ _ _ => Agree.pure ⟨hfg, rfl⟩) ?_
    refine (eatKeyword_sameCase _).bind_ite (foreignKeyClause_sameCase.bind_eq fun _ => Agree.pure ⟨hfg, rfl⟩) ?_
    refine (eatKeyword_sameCase _).bind_ite ((expectKeyword_sameCase _).bind_eq fun _ =>
      (expectKeyword_sameCase _).bind_eq fun _ => generatedBody_sameCase.bind_eq fun _ => Agree.pure ⟨hfg, rfl⟩) ?_
    refine (eatKeyword_sameCase _).bind_ite (generatedBody_sameCase.bind_eq fun _ => Agree.pure ⟨hfg, rfl⟩) ?_
    exact Agree.ite (fun _ => Agree.unexpected) fun _ => Agree.pure ⟨hfg, rfl⟩
  exact Agree.ite (fun _ => (expectName_sameCase _).bind fun _ _ _ => hjp ()) fun _ => hjp ()

theorem columnDef_sameCase {t t' : Table} (ht : t.lower = t'.lower) :
    Agree Token.SameCase (fun a b => a.lower = b.lower) (columnDef t) (columnDef t') := by
  unfold columnDef
  refine (expectName_sameCase _).bind fun n n' hn => typeName_sameCase.bind fun ty ty' hty => ?_
  refine (Agree.repeatWhile (R := fun f g : Field => f.lower = g.lower) (fun f g hfg => columnConstraint_sameCase hfg)
    (by simp [Field.lower_eq_lower_iff, hn, hty])).bind fun f f' hf => Agree.pure ?_
  have hlen : t.fields.length = t'.fields.length := by
    simpa using congrArg (·.fields.length) ht
  have happ : ({ t with fields := t.fields ++ [f] } : Table).lower = { t' with fields := t'.fields ++ [f'] }.lower := by
    simp_all [Table.lower_eq_lower_iff]
  have hkey : f.inPrimaryKey = f'.inPrimaryKey := congrArg (·.inPrimaryKey) hf
  rw [hkey, hlen]
  split
  · rw [Table.markPrimaryKey_lower, Table.markPrimaryKey_lower, happ]
  · exact happ

theorem keyColumn_sameCase {t t' : Table} (ht : t.lower = t'.lower) (keys : List Nat) :
    Agree Token.SameCase Eq (keyColumn t keys) (keyColumn t' keys) := by
  unfold keyColumn
  refine (expectName_sameCase _).bind fun n n' hn => (eatKeyword_sameCase _).bind_eq fun _ => ?_
  extract_lets found jp found' jp'
  -- the column is looked up up to case, so both tables find it at the same place
  have hfound : found = found' := by
    simp only [found, found']
    rw [← Table.position?_lower t n, ← Table.position?_lower t' n', ht, hn]
  have hjp : ∀ a, Agree Token.SameCase Eq (jp a) (jp' a) := fun _ =>
    (eatAnyKeyword_sameCase _).bind_eq fun _ => (eatPunct_sameCase (by decide)).bind_eq fun _ =>
      Agree.pure (by rw [hfound])
  exact Agree.ite (fun _ => (expectName_sameCase _).bind fun _ _ _ => hjp ()) fun _ => hjp ()

theorem tableConstraint_sameCase {t t' : Table} (ht : t.lower = t'.lower) :
    Agree Token.SameCase (fun a b => a.lower = b.lower) (tableConstraint t) (tableConstraint t') := by
  unfold tableConstraint
  refine (eatKeyword_sameCase _).bind_eq fun _ => ?_
  extract_lets jp jp'
  have hjp : ∀ a, Agree Token.SameCase (fun a b => a.lower = b.lower) (jp a) (jp' a) := by
    intro _
    refine (eatKeyword_sameCase _).bind_ite ?_ ?_
    · refine (expectKeyword_sameCase _).bind_eq fun _ => (expectPunct_sameCase (by decide)).bind_eq fun _ => ?_
      refine (Agree.repeatWhile_eq (keyColumn_sameCase ht)).bind_eq fun keys =>
        (eatKeyword_sameCase _).bind_eq fun auto => ?_
      exact (expectPunct_sameCase (by decide)).bind_eq fun _ => conflictClause_sameCase.bind_eq fun _ =>
        Agree.pure (by rw [Table.foldl_key_lower, Table.foldl_key_lower, ht])
    refine (eatKeyword_sameCase _).bind_ite
      (skipBalanced_sameCase.bind_eq fun _ => conflictClause_sameCase.bind_eq fun _ => Agree.pure ht) ?_
    refine (eatKeyword_sameCase _).bind_ite (skipBalanced_sameCase.bind_eq fun _ => Agree.pure ht) ?_
    refine (eatKeyword_sameCase _).bind_ite ?_ Agree.unexpected
    exact (expectKeyword_sameCase _).bind_eq fun _ => skipBalanced_sameCase.bind_eq fun _ =>
      (expectKeyword_sameCase _).bind_eq fun _ => foreignKeyClause_sameCase.bind_eq fun _ => Agree.pure ht
  exact Agree.ite (fun _ => (expectName_sameCase _).bind fun _ _ _ => hjp ()) fun _ => hjp ()

theorem tableElement_sameCase {t t' : Table} (ht : t.lower = t'.lower) :
    Agree Token.SameCase (fun p q => p.1.lower = q.1.lower ∧ p.2 = q.2) (tableElement t) (tableElement t') := by
  unfold tableElement
  refine Agree.peek?.bind fun o o' ho => ?_
  extract_lets isConstraint jp isConstraint'
  have hc : isConstraint = isConstraint' := Token.SameCase.any ho fun t => by
    rw [show t.lower.isKeyword = t.isKeyword from funext t.isKeyword_lower]
  have hjp : ∀ a b : Table, a.lower = b.lower →
      Agree Token.SameCase (fun p q => p.1.lower = q.1.lower ∧ p.2 = q.2) (jp a) (jp b) := fun _ _ h =>
    (eatPunct_sameCase (by decide)).bind_eq fun _ => Agree.pure ⟨h, rfl⟩
  rw [← hc]
  exact Agree.ite (fun _ => (tableConstraint_sameCase ht).bind hjp) fun _ => (columnDef_sameCase ht).bind hjp

theorem createTable_sameCase (temporary : Bool) :
    Agree Token.SameCase (fun a b => a.lower = b.lower) (createTable temporary) (createTable temporary) := by
  unfold createTable
  refine ifNotExists_sameCase.bind_eq fun _ => qualifiedName_sameCase.bind fun n n' hn =>
    (expectPunct_sameCase (by decide)).bind_eq fun _ => ?_
  refine (Agree.repeatWhile (R := fun a b : Table => a.lower = b.lower) (fun a b h => tableElement_sameCase h)
    (by simp [Table.lower_eq_lower_iff, hn])).bind fun t t' ht => (expectPunct_sameCase (by decide)).bind_eq fun _ => ?_
  extract_lets finish rowid rowid'
  have hfinish : ∀ a b : Table, a.lower = b.lower →
      Agree Token.SameCase (fun a b => a.lower = b.lower) (finish a) (finish b) := fun _ _ h =>
    Agree.expectEnd.bind fun _ _ _ => Agree.pure h
  have hrowid : ∀ a, Agree Token.SameCase (fun a b => a.lower = b.lower) (rowid a) (rowid' a) := fun _ =>
    (eatKeyword_sameCase _).bind_ite ((expectKeyword_sameCase _).bind_eq fun _ =>
      (Agree.pure (R := fun a b : Table => a.lower = b.lower) (by simp_all [Table.lower_eq_lower_iff])).bind hfinish)
      ((Agree.pure (R := fun a b : Table => a.lower = b.lower) ht).bind hfinish)
  have hempty : t.fields.isEmpty = t'.fields.isEmpty := by
    simpa using congrArg (·.fields.isEmpty) ht
  rw [hempty]
  have hthrow : ReadError.Rel Token.SameCase .emptyColumnList .emptyColumnList := trivial
  exact Agree.ite (fun _ => Agree.throw_bind hthrow) fun _ => hrowid ()

theorem indexedColumn_sameCase {cols cols' : List Expr} (h : cols.map Expr.lower = cols'.map Expr.lower) :
    Agree Token.SameCase (fun p q => p.1.map Expr.lower = q.1.map Expr.lower ∧ p.2 = q.2)
      (indexedColumn cols) (indexedColumn cols') := by
  unfold indexedColumn
  exact (expression_sameCase _ _).bind fun c c' hc => (eatPunct_sameCase (by decide)).bind_eq fun _ =>
    Agree.pure ⟨by simp [h, hc], rfl⟩

theorem createIndex_sameCase (unique : Bool) :
    Agree Token.SameCase (fun a b => a.lower = b.lower) (createIndex unique) (createIndex unique) := by
  unfold createIndex
  refine ifNotExists_sameCase.bind_eq fun _ => qualifiedName_sameCase.bind fun n n' hn =>
    (expectKeyword_sameCase _).bind_eq fun _ => (expectName_sameCase _).bind fun tb tb' htb =>
      (expectPunct_sameCase (by decide)).bind_eq fun _ => ?_
  refine (Agree.repeatWhile (R := fun a b : List Expr => a.map Expr.lower = b.map Expr.lower)
    (fun a b h => indexedColumn_sameCase h) rfl).bind fun cs cs' hcs => (expectPunct_sameCase (by decide)).bind_eq fun _ =>
      (eatKeyword_sameCase _).bind_eq fun _ => ?_
  extract_lets finish finish'
  have hfinish : ∀ p p' : Option Expr, p.map Expr.lower = p'.map Expr.lower →
      Agree Token.SameCase (fun a b => a.lower = b.lower) (finish p) (finish' p') := fun _ _ hp =>
    Agree.expectEnd.bind fun _ _ _ => Agree.pure (by simp [Index.lower, hn, htb, hcs, hp])
  exact Agree.ite (fun _ => (expression_sameCase _ _).bind fun e e' he =>
      (Agree.pure (R := fun p q : Option Expr => p.map Expr.lower = q.map Expr.lower) (by simp [he])).bind hfinish)
    fun _ => (Agree.pure (R := fun p q : Option Expr => p.map Expr.lower = q.map Expr.lower) rfl).bind hfinish

theorem statement_sameCase :
    Agree Token.SameCase (fun a b => a.lower = b.lower) statement statement := by
  unfold statement
  refine (expectKeyword_sameCase _).bind_eq fun _ => (eatAnyKeyword_sameCase _).bind_ite ?_ ?_
  · exact (expectKeyword_sameCase _).bind_eq fun _ => (createTable_sameCase true).bind fun _ _ h =>
      Agree.pure (by simp [Statement.lower, h])
  refine (eatKeyword_sameCase _).bind_ite
    ((createTable_sameCase false).bind fun _ _ h => Agree.pure (by simp [Statement.lower, h])) ?_
  refine (eatKeyword_sameCase _).bind_ite ((expectKeyword_sameCase _).bind_eq fun _ =>
    (createIndex_sameCase true).bind fun _ _ h => Agree.pure (by simp [Statement.lower, h])) ?_
  exact (eatKeyword_sameCase _).bind_ite
    ((createIndex_sameCase false).bind fun _ _ h => Agree.pure (by simp [Statement.lower, h])) Agree.unexpected

end SqlSchema.Reader

namespace SqlSchema

/-- Reading a statement does not see the ASCII case of its text: two texts that are the same once
    lowered both read, to statements that are the same once their texts are lowered, or both fail, with
    the same error once the token it shows is lowered. Keywords, the constraint words, blob and number
    prefixes and the names a table-level key looks up are all matched up to case. -/
theorem Statement.parse_caseInsensitive {x x' : String} (h : x.toLower = x'.toLower) :
    ((Statement.parse x).map Statement.lower).mapError ReadError.lower =
      ((Statement.parse x').map Statement.lower).mapError ReadError.lower := by
  have hts : List.Forall₂ Token.SameCase (tokenize x) (tokenize x') :=
    Token.forall₂_sameCase_iff.mpr (Lexer.tokenize_lower_eq h)
  have hag := Reader.statement_sameCase _ _ hts
  simp only [Statement.parse, StateT.run]
  rcases hx : Reader.statement (tokenize x) with e | ⟨s, r⟩ <;>
    rcases hy : Reader.statement (tokenize x') with e' | ⟨s', r'⟩ <;> rw [hx, hy] at hag
  · simp [Except.map, Except.mapError, ReadError.lower_of_rel hag]
  · exact hag.elim
  · exact hag.elim
  · simp [Except.map, Except.mapError, hag.1]

theorem Statement.parse_caseInsensitive_mixed :
    "create table T (a integer primary key)".toLower = "CREATE TABLE t (A INTEGER PRIMARY KEY)".toLower ∧
      ((Statement.parse "create table T (a integer primary key)").map Statement.lower).mapError ReadError.lower =
        ((Statement.parse "CREATE TABLE t (A INTEGER PRIMARY KEY)").map Statement.lower).mapError ReadError.lower :=
  have h : "create table T (a integer primary key)".toLower = "CREATE TABLE t (A INTEGER PRIMARY KEY)".toLower := by
    rw [← String.toList_inj]
    simp [String.toLower, String.toList_map]
  ⟨h, Statement.parse_caseInsensitive h⟩

end SqlSchema
