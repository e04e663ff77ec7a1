import SqlSchema.Proofs.Reachable
import SqlSchema.Proofs.ExprPrinting

/-! # Statements that print readably

The reader takes the text of a statement back only where every text the statement holds has a shape
that the reader gives: a column type is its words in source form with an optional size, a default is
a quoted text, the text of a group or a literal written as it was read, and an index holds trees of
the grammar made of tokens of the lexer's shape. `Statement.Printable` gathers these shapes.

Every statement a program can hold is printable (`Statement.Reachable.printable`): the reader gives
these shapes from tokens of the lexer's shape, and column changes keep them, since a renamed index
column is a requoted tree. -/

namespace SqlSchema

open SqlSchema.Expr

/-! ### The shapes -/

/-- A number with an optional sign, as the reader takes a type's size or a default: the sign is the
    operator `-` or `+`, and the number a number token of the lexer's shape. -/
structure SignedNumber where
  sign : Option Token
  number : Token
  sign_eq : ∀ s ∈ sign, s = ⟨"-", .operator⟩ ∨ s = ⟨"+", .operator⟩
  numeric : number.kind = .numeric
  lexical : number.Lexical

/-- The text the reader makes of a signed number. -/
def SignedNumber.text (n : SignedNumber) : String :=
  (n.sign.map Token.text).getD "" ++ n.number.text

/-- A column type as the reader takes it: words in source form, then an optional size of one or two
    signed numbers. -/
structure TypeSpelling where
  words : List Token
  size : Option (SignedNumber × Option SignedNumber)
  words_ne : words ≠ []
  typeWord : ∀ w ∈ words, Reader.isTypeWord w = true ∧ w.Lexical

/-- The text the reader makes of a type. -/
def TypeSpelling.text (ty : TypeSpelling) : String :=
  " ".intercalate (ty.words.map Token.render) ++
    match ty.size with
    | none => ""
    | some (a, b) => "(" ++ a.text ++ (b.map fun b => "," ++ b.text).getD "" ++ ")"

/-- A column type the reader can give: none, or a spelling. -/
def TypeText (ty : String) : Prop :=
  ty = "" ∨ ∃ sp : TypeSpelling, sp.text = ty

/-- A default that the reader takes back as it is written: a word or a blob in source form, or a
    signed number. -/
inductive LiteralText : String → Prop
  | token (t : Token) : t.kind = .word ∨ t.kind = .blob → t.Lexical → LiteralText t.render
  | number (n : SignedNumber) : LiteralText n.text

/-- A default written as a group: the text of a tree that the reader takes as the inside of one. -/
def GroupText (d : String) : Prop :=
  ∃ e, Operand Limits.standard 0 (.paren e) ∧ (∀ t ∈ e.tokens, t.Lexical) ∧ e.render = d

namespace Field

/-- A default that the reader takes back in the form the field's flags choose for it. -/
def DefaultText (f : Field) : Prop :=
  match f.defaultValue with
  | none => f.defaultIsQuoted = false ∧ f.defaultIsExpression = false
  | some d => f.defaultIsQuoted = true ∨ (f.defaultIsExpression = true ∧ GroupText d) ∨
      (f.defaultIsExpression = false ∧ LiteralText d)

/-- A field whose type and default the reader takes back from their text. -/
structure Printable (f : Field) : Prop where
  typeName : TypeText f.typeName
  default : f.DefaultText

end Field

/-- A tree that the reader takes back from its text: a chain of the grammar made of tokens of the
    lexer's shape. -/
def Expr.Readable (e : Expr) : Prop :=
  Chain Limits.standard 0 [] false e ∧ ∀ t ∈ e.tokens, t.Lexical

/-- A valid table whose fields print readably. -/
structure Table.Printable (t : Table) : Prop extends t.Valid where
  fields_printable : ∀ f ∈ t.fields, f.Printable

/-- An index with a column, whose trees print readably. Nothing follows the predicate, so it does not
    end in a lone operator. -/
structure Index.Printable (i : Index) : Prop where
  columns_ne : i.columns ≠ []
  columns : ∀ c ∈ i.columns, c.Readable
  predicate : ∀ p ∈ i.predicate, p.Readable ∧ EndsBefore p none

/-- A statement whose texts all have the shapes the reader gives. -/
def Statement.Printable : Statement → Prop
  | .table t => t.Printable
  | .index i => i.Printable

/-! ### Literals are groups too -/

theorem Token.lexical_sign {s : Token} (h : s = ⟨"-", .operator⟩ ∨ s = ⟨"+", .operator⟩) : s.Lexical := by
  rcases h with rfl | rfl
  · exact .inr (.inr ⟨'-', by decide, rfl⟩)
  · exact .inr (.inr ⟨'+', by decide, rfl⟩)

/-- A number's text starts with a digit or a point, never with a sign. -/
theorem Token.numeric_not_startsWith {t : Token} (hk : t.kind = .numeric) (ht : t.Lexical) :
    ¬ t.text.startsWith "-" := by
  rw [Token.Lexical, hk] at ht
  intro hs
  obtain ⟨r, hr⟩ : ∃ r, t.text.toList = '-' :: r := by
    obtain ⟨u, hu⟩ := String.startsWith_string_iff.mp hs
    exact ⟨u, by simpa using hu.symm⟩
  rw [hr] at ht
  rcases ht.1 with hd | ⟨hp, -⟩
  · exact absurd hd (by decide)
  · exact absurd hp (by decide)

/-- A literal default reads as the inside of a group just as well: a word or a blob as a leaf, a
    signed number as a leaf under its sign. -/
theorem LiteralText.groupText {d : String} (h : LiteralText d) : GroupText d := by
  cases h with
  | token t hk ht =>
    refine ⟨.leaf t, ?_, by simpa [tokens] using ht, rfl⟩
    have hop : t.kind.isOperand = true := by
      rcases hk with hk | hk <;> simp [hk, TokenKind.isOperand, TokenKind.isIdentifier]
    simp [Operand, Chain, Limits.standard, Limits.allowsDepth, Limits.allowsHeight, height, hop]
  | number n =>
    obtain ⟨sign, t, hsign, hk, ht⟩ := n
    have hop : Operand Limits.standard 1 (.leaf t) := by
      simp [Operand, Limits.standard, Limits.allowsDepth, Limits.allowsHeight, hk,
        TokenKind.isOperand]
    cases sign with
    | none =>
      refine ⟨.leaf t, ?_, by simpa [tokens] using ht, by simp [render, SignedNumber.text, Token.render, hk]⟩
      rw [Operand, Chain]
      exact ⟨by decide, by simp [Limits.standard, Limits.allowsHeight, height], hop⟩
    | some s =>
      have hs := hsign s rfl
      refine ⟨.unary s (.leaf t), ?_, ?_, ?_⟩
      · have hu : s.kind = .operator ∧ isUnaryOperator s = true := by
          rcases hs with rfl | rfl <;> decide
        have hh : ∀ n, n ≤ 1000 → Limits.standard.allowsHeight n := by
          simp [Limits.standard, Limits.allowsHeight]
        rw [Operand, Chain, Operand]
        refine ⟨by decide, hh _ (by simp [height]), by decide, hh _ (by simp [height]), hu.1, hu.2, ?_⟩
        simp [Operand, Limits.standard, Limits.allowsDepth, Limits.allowsHeight, hk, TokenKind.isOperand]
      · intro x hx
        simp only [tokens, List.mem_cons, List.not_mem_nil, or_false] at hx
        rcases hx with rfl | rfl
        · exact Token.lexical_sign hs
        · exact ht
      · have hnum := Token.numeric_not_startsWith hk ht
        rcases hs with rfl | rfl <;>
          simp [render, SignedNumber.text, isLetters, Token.render, hk, hnum]

/-! ### The reader gives printable statements -/

theorem Token.eq_of_isOperator {t : Token} {s : String} (h : t.isOperator s = true) : t = ⟨s, .operator⟩ := by
  obtain ⟨text, kind⟩ := t
  simp only [Token.isOperator, Bool.and_eq_true, beq_iff_eq] at h
  rw [h.1, h.2]

namespace Reader

open Cursor

variable {L : Token → Prop}

/-! The clauses that the model does not keep leave tokens of any kind of the same kind. -/

theorem skipBalanced_on : YieldsOn L skipBalanced fun _ => True := by
  rw [skipBalanced]
  have hloop : YieldsOn L (repeatWhile (fun depth => do
      let t ← next ")"
      let d := if t.isPunct '(' then depth + 1 else if t.isPunct ')' then depth - 1 else depth
      pure (d, 0 < d)) 1) fun _ => True :=
    YieldsOn.repeatWhile (fun _ _ => YieldsOn.bind YieldsOn.next fun _ _ => YieldsOn.pure trivial) trivial
  exact YieldsOn.bind YieldsOn.expectPunct fun _ _ => YieldsOn.bind hloop fun _ _ => YieldsOn.pure trivial

theorem conflictClause_on : YieldsOn L conflictClause fun _ => True := by
  rw [conflictClause]
  refine YieldsOn.bind YieldsOn.eatKeyword fun b _ => ?_
  split
  · exact YieldsOn.bind YieldsOn.expectKeyword fun _ _ => YieldsOn.expectOneOf
  · exact YieldsOn.pure trivial

theorem foreignKeyAction_on : YieldsOn L (foreignKeyAction ()) fun _ => True := by
  rw [foreignKeyAction]
  refine YieldsOn.bind YieldsOn.eatKeyword fun b _ => ?_
  split
  · refine YieldsOn.bind YieldsOn.expectOneOf fun _ _ => ?_
    extract_lets jp
    have hjp : ∀ r, YieldsOn L (jp r) fun _ => True := fun _ => YieldsOn.pure trivial
    refine YieldsOn.bind YieldsOn.eatKeyword fun b _ => ?_
    split
    · exact YieldsOn.bind YieldsOn.expectOneOf fun r _ => hjp r
    refine YieldsOn.bind YieldsOn.eatKeyword fun b _ => ?_
    split
    · exact YieldsOn.bind YieldsOn.expectKeyword fun r _ => hjp r
    · exact YieldsOn.bind YieldsOn.expectOneOf fun r _ => hjp r
  refine YieldsOn.bind YieldsOn.eatKeyword fun b _ => ?_
  split
  · exact YieldsOn.bind YieldsOn.expectName fun _ _ => YieldsOn.pure trivial
  · exact YieldsOn.pure trivial

theorem foreignKeyClause_on : YieldsOn L foreignKeyClause fun _ => True := by
  rw [foreignKeyClause]
  refine YieldsOn.bind YieldsOn.expectName fun _ _ => YieldsOn.bind YieldsOn.peek? fun o _ => ?_
  extract_lets deferral actions
  have hdeferral : ∀ r, YieldsOn L (deferral r) fun _ => True := by
    intro r
    refine YieldsOn.bind YieldsOn.eatKeyword fun b _ => ?_
    split
    · refine YieldsOn.bind YieldsOn.eatKeyword fun b _ => ?_
      split
      · exact YieldsOn.expectOneOf
      · exact YieldsOn.pure trivial
    · exact YieldsOn.pure trivial
  have hactions : ∀ r, YieldsOn L (actions r) fun _ => True := by
    intro r
    refine YieldsOn.bind (YieldsOn.repeatWhile (P := fun _ => True) (fun _ _ => foreignKeyAction_on) trivial)
      fun _ _ => ?_
    refine YieldsOn.bind YieldsOn.get fun ts _ => ?_
    split
    · split
      · exact YieldsOn.bind YieldsOn.skip fun r _ => hdeferral r
      · exact hdeferral ()
    · exact hdeferral ()
  split
  · exact YieldsOn.bind skipBalanced_on fun r _ => hactions r
  · exact hactions ()

theorem generatedBody_on : YieldsOn L generatedBody fun _ => True :=
  YieldsOn.bind skipBalanced_on fun _ _ => YieldsOn.bind YieldsOn.eatAnyKeyword fun _ _ => YieldsOn.pure trivial

/-! The pieces the model keeps have the printable shapes when the tokens have the lexer's shape. -/

/-- An operand is a tree of the grammar made of the tokens it was read from. -/
theorem operand_on {context : String} :
    YieldsOn L (operand context) fun e => Operand Limits.standard 0 e ∧ ∀ t ∈ e.tokens, L t := by
  intro ts e ts' hts hr
  simp only [Cursor.operand] at hr
  split at hr
  · rename_i e₀ r h hread
    obtain ⟨rfl, rfl⟩ : e₀ = e ∧ r = ts' := by simpa using hr
    obtain ⟨hop, hts', -⟩ := (grammar_of_read ts.length).1 rfl hread
    rw [hts'] at hts
    exact ⟨⟨hop, fun t ht => hts t (List.mem_append_left _ ht)⟩, fun t ht => hts t (List.mem_append_right _ ht)⟩
  · simp at hr

/-- An expression is a chain of the grammar made of the tokens it was read from. -/
theorem expression_on {terms : List String} {context : String} :
    YieldsOn L (expression terms context) fun e => Chain Limits.standard 0 terms false e ∧ ∀ t ∈ e.tokens, L t := by
  intro ts e ts' hts hr
  simp only [Cursor.expression] at hr
  split at hr
  · rename_i e₀ r h hread
    obtain ⟨rfl, rfl⟩ : e₀ = e ∧ r = ts' := by simpa using hr
    obtain ⟨hchain, hts', -⟩ := read_grammar hread
    rw [hts'] at hts
    exact ⟨⟨hchain, fun t ht => hts t (List.mem_append_left _ ht)⟩, fun t ht => hts t (List.mem_append_right _ ht)⟩
  · simp at hr

/-- A signed number is a sign operator, if any, and a number token. -/
theorem signedNumber_text : YieldsOn Token.Lexical signedNumber fun s => ∃ n : SignedNumber, n.text = s := by
  rw [signedNumber]
  refine YieldsOn.bind YieldsOn.peek? fun o ho => ?_
  extract_lets number
  -- after the sign, if any, a number token must come
  have hnumber : ∀ s : Option Token, (∀ x ∈ s, x = ⟨"-", .operator⟩ ∨ x = ⟨"+", .operator⟩) →
      YieldsOn Token.Lexical (number ((s.map Token.text).getD "")) fun s => ∃ n : SignedNumber, n.text = s := by
    intro s hs
    refine YieldsOn.bind YieldsOn.next fun t ht => ?_
    split
    · rename_i hk
      exact YieldsOn.pure ⟨⟨s, t, hs, by simpa using hk, ht⟩, rfl⟩
    · exact YieldsOn.throw
  split
  · rename_i t
    split
    · rename_i h
      have hs : ∀ x ∈ some t, x = ⟨"-", .operator⟩ ∨ x = ⟨"+", .operator⟩ := by
        intro x hx
        cases hx
        rcases Bool.or_eq_true_iff.mp h with h | h
        · exact .inl (Token.eq_of_isOperator h)
        · exact .inr (Token.eq_of_isOperator h)
      exact YieldsOn.bind YieldsOn.skip fun _ _ =>
        YieldsOn.bind (YieldsOn.pure (P := fun sign => sign = t.text) rfl) fun _ h => h ▸ hnumber _ hs
    · exact hnumber none (by simp)
  · exact hnumber none (by simp)

/-- A type is read as a spelling, or as none. -/
theorem typeName_text : YieldsOn Token.Lexical typeName TypeText := by
  rw [typeName]
  refine YieldsOn.bind YieldsOn.takeWhile fun words hwords => ?_
  dsimp only
  split
  · rename_i hempty
    exact YieldsOn.pure (.inl (by simpa using hempty))
  rename_i hbase
  have hne : words ≠ [] := by
    rintro rfl
    simp at hbase
  have hw : ∀ w ∈ words, isTypeWord w = true ∧ w.Lexical := fun w hw => (hwords w hw).symm
  -- the size closes after one number, or after two
  have hsize : ∀ (a : SignedNumber) (b : Option SignedNumber) second, (b.map fun b => "," ++ b.text).getD "" = second →
      YieldsOn Token.Lexical (do
        expectPunct ')'
        pure (" ".intercalate (words.map Token.render) ++ "(" ++ a.text ++ second ++ ")")) TypeText := by
    rintro a b _ rfl
    exact YieldsOn.bind YieldsOn.expectPunct fun _ _ =>
      YieldsOn.pure (.inr ⟨⟨words, some (a, b), hne, hw⟩, by simp [TypeSpelling.text, String.append_assoc]⟩)
  refine YieldsOn.bind YieldsOn.eatPunct fun b _ => ?_
  split
  · refine YieldsOn.bind signedNumber_text fun first ⟨a, ha⟩ => ?_
    subst ha
    refine YieldsOn.bind YieldsOn.eatPunct fun c _ => ?_
    split
    · refine YieldsOn.bind signedNumber_text fun _ ⟨n, hn⟩ => ?_
      subst hn
      exact YieldsOn.bind (YieldsOn.pure rfl) fun _ h => hsize a (some n) _ h
    · exact YieldsOn.bind (YieldsOn.pure rfl) fun _ h => hsize a none _ h
  · exact YieldsOn.pure (.inr ⟨⟨words, none, hne, hw⟩, by simp [TypeSpelling.text]⟩)

/-- A default written as a literal keeps the field printable, whichever form its flags choose. -/
theorem printable_literal {f : Field} {d : String} (hf : TypeText f.typeName) (hd : LiteralText d) :
    ({ f with defaultValue := some d } : Field).Printable := by
  refine ⟨hf, ?_⟩
  show f.defaultIsQuoted = true ∨ (f.defaultIsExpression = true ∧ GroupText d) ∨
    (f.defaultIsExpression = false ∧ LiteralText d)
  cases hq : f.defaultIsQuoted
  · cases he : f.defaultIsExpression
    · exact .inr (.inr ⟨rfl, hd⟩)
    · exact .inr (.inl ⟨rfl, hd.groupText⟩)
  · exact .inl rfl

/-- A default is taken in one of its three forms. -/
theorem defaultClause_printable {f : Field} (hf : TypeText f.typeName) :
    YieldsOn Token.Lexical (defaultClause f) Field.Printable := by
  delta defaultClause
  extract_lets literal
  -- a literal is taken as it is written, a quoted one as quoted
  have hlit : YieldsOn Token.Lexical literal Field.Printable := by
    refine YieldsOn.bind YieldsOn.next fun t ht => ?_
    split
    · exact YieldsOn.pure ⟨hf, .inl rfl⟩
    · exact YieldsOn.pure ⟨hf, .inl rfl⟩
    · exact YieldsOn.pure ⟨hf, .inl rfl⟩
    · exact YieldsOn.pure ⟨hf, .inl rfl⟩
    · rename_i hk
      have hd := LiteralText.token t (.inr hk) ht
      rw [Token.render, hk] at hd
      exact YieldsOn.pure (printable_literal hf hd)
    · rename_i hk
      exact YieldsOn.pure (printable_literal hf (by simpa [SignedNumber.text] using LiteralText.number ⟨none, t, by simp, hk, ht⟩))
    · rename_i hk
      have hd := LiteralText.token t (.inl hk) ht
      rw [Token.render, hk] at hd
      exact YieldsOn.pure (printable_literal hf hd)
    · exact YieldsOn.throw
  refine YieldsOn.bind YieldsOn.peek? fun o _ => ?_
  split
  · split
    · refine YieldsOn.bind operand_on fun e he => ?_
      split
      · rename_i inner
        obtain ⟨hop, hlex⟩ := he
        have hinner : ∀ t ∈ inner.tokens, t.Lexical := fun t ht => hlex t (by simp [tokens, ht])
        exact YieldsOn.pure ⟨hf, .inr (.inl ⟨rfl, inner, hop, hinner, rfl⟩)⟩
      · exact YieldsOn.throw
    · split
      · refine YieldsOn.bind signedNumber_text fun _ h => ?_
        obtain ⟨n, hn⟩ := h
        exact YieldsOn.pure (hn ▸ printable_literal hf (.number n))
      · exact hlit
  · exact hlit

/-- A column constraint keeps a column printable: it sets a flag, a default, or nothing the shapes
    read. -/
theorem columnConstraint_printable {f : Field} (hf : f.Printable) :
    YieldsOn Token.Lexical (columnConstraint f) (·.1.Printable) := by
  rw [columnConstraint]
  refine YieldsOn.bind YieldsOn.eatKeyword fun named _ => ?_
  extract_lets rest
  -- the constraint's name, if any, changes nothing
  suffices h : YieldsOn Token.Lexical (rest ()) (·.1.Printable) by
    split
    · exact YieldsOn.bind YieldsOn.expectName fun _ _ => h
    · exact h
  have keep : ∀ {β : Type} (x : Cursor β), YieldsOn Token.Lexical x (fun _ => True) →
      YieldsOn Token.Lexical (x >>= fun _ => pure (f, true)) (·.1.Printable) :=
    fun _ hx => YieldsOn.bind hx fun _ _ => YieldsOn.pure hf
  refine YieldsOn.bind YieldsOn.eatKeyword fun b _ => ?_
  split
  · -- PRIMARY KEY
    exact YieldsOn.bind YieldsOn.expectKeyword fun _ _ => YieldsOn.bind YieldsOn.eatAnyKeyword fun _ _ =>
      YieldsOn.bind conflictClause_on fun _ _ => YieldsOn.bind YieldsOn.eatKeyword fun _ _ =>
        YieldsOn.pure ⟨hf.typeName, hf.default⟩
  refine YieldsOn.bind YieldsOn.eatKeyword fun b _ => ?_
  split
  · -- NOT NULL
    exact YieldsOn.bind YieldsOn.expectKeyword fun _ _ => YieldsOn.bind conflictClause_on fun _ _ =>
      YieldsOn.pure ⟨hf.typeName, hf.default⟩
  refine YieldsOn.bind YieldsOn.eatAnyKeyword fun b _ => ?_
  split
  · exact keep _ conflictClause_on
  refine YieldsOn.bind YieldsOn.eatKeyword fun b _ => ?_
  split
  · exact keep _ skipBalanced_on
  refine YieldsOn.bind YieldsOn.eatKeyword fun b _ => ?_
  split
  · -- DEFAULT
    exact YieldsOn.bind (defaultClause_printable hf.typeName) fun _ hg => YieldsOn.pure hg
  refine YieldsOn.bind YieldsOn.eatKeyword fun b _ => ?_
  split
  · exact keep _ YieldsOn.expectName
  refine YieldsOn.bind YieldsOn.eatKeyword fun b _ => ?_
  split
  · exact keep _ foreignKeyClause_on
  refine YieldsOn.bind YieldsOn.eatKeyword fun b _ => ?_
  split
  · exact YieldsOn.bind YieldsOn.expectKeyword fun _ _ => YieldsOn.bind YieldsOn.expectKeyword fun _ _ =>
      keep _ generatedBody_on
  refine YieldsOn.bind YieldsOn.eatKeyword fun b _ => ?_
  split
  · exact keep _ generatedBody_on
  split
  · exact YieldsOn.unexpected
  · exact YieldsOn.pure hf

/-- Changing one field of a list keeps a property that the change keeps. -/
theorem forall_mem_modify {α : Type} {p : α → Prop} {l : List α} {g : α → α} {i : Nat} (h : ∀ x ∈ l, p x)
    (hg : ∀ x, p x → p (g x)) : ∀ x ∈ l.modify i g, p x := by
  intro x hx
  obtain ⟨j, hj, rfl⟩ := List.mem_iff_getElem.mp hx
  rw [List.getElem_modify]
  split
  · exact hg _ (h _ (List.getElem_mem _))
  · exact h _ (List.getElem_mem _)

theorem printable_markPrimaryKey {t : Table} (h : ∀ f ∈ t.fields, f.Printable) (i : Nat) :
    ∀ f ∈ (t.markPrimaryKey i).fields, f.Printable :=
  forall_mem_modify h fun _ hf => ⟨hf.typeName, hf.default⟩

theorem printable_markAutoIncrement {t : Table} (h : ∀ f ∈ t.fields, f.Printable) (i : Nat) :
    ∀ f ∈ (t.markAutoIncrement i).fields, f.Printable :=
  forall_mem_modify h fun _ hf => ⟨hf.typeName, hf.default⟩

/-- A column adds a printable field. -/
theorem columnDef_printable {t : Table} (ht : ∀ f ∈ t.fields, f.Printable) :
    YieldsOn Token.Lexical (columnDef t) fun t' => ∀ f ∈ t'.fields, f.Printable := by
  rw [columnDef]
  refine YieldsOn.bind YieldsOn.expectName fun name _ => YieldsOn.bind typeName_text fun ty hty => ?_
  have hloop := YieldsOn.repeatWhile (fun f hf => columnConstraint_printable hf)
    (⟨hty, rfl, rfl⟩ : ({ name, typeName := ty } : Field).Printable)
  refine YieldsOn.bind hloop fun f hf => YieldsOn.pure ?_
  have hpush : ∀ g ∈ ({ t with fields := t.fields ++ [f] } : Table).fields, g.Printable := by
    intro g hg
    rcases List.mem_append.mp hg with hg | hg
    · exact ht g hg
    · obtain rfl : g = f := by simpa using hg
      exact hf
  split
  · exact printable_markPrimaryKey hpush _
  · exact hpush

/-- A table-level key marks fields and keeps them printable. -/
theorem printable_markKeys {t : Table} (h : ∀ f ∈ t.fields, f.Printable) (auto : Bool) (keys : List Nat) :
    ∀ f ∈ (keys.foldl (fun t i =>
      let t := t.markPrimaryKey i
      if auto then t.markAutoIncrement i else t) t).fields, f.Printable := by
  induction keys generalizing t with
  | nil => exact h
  | cons i keys ih =>
    refine ih ?_
    cases auto
    · exact printable_markPrimaryKey h i
    · exact printable_markAutoIncrement (printable_markPrimaryKey h i) i

theorem keyColumn_on {t : Table} {keys : List Nat} : YieldsOn L (keyColumn t keys) fun _ => True := by
  rw [keyColumn]
  refine YieldsOn.bind YieldsOn.expectName fun _ _ => ?_
  extract_lets keys' rest
  suffices h : YieldsOn L (rest ()) fun _ => True by
    refine YieldsOn.bind YieldsOn.eatKeyword fun b _ => ?_
    split
    · exact YieldsOn.bind YieldsOn.expectName fun _ _ => h
    · exact h
  exact YieldsOn.bind YieldsOn.eatAnyKeyword fun _ _ => YieldsOn.bind YieldsOn.eatPunct fun _ _ =>
    YieldsOn.pure trivial

/-- A table constraint keeps the fields printable. -/
theorem tableConstraint_printable {t : Table} (ht : ∀ f ∈ t.fields, f.Printable) :
    YieldsOn Token.Lexical (tableConstraint t) fun t' => ∀ f ∈ t'.fields, f.Printable := by
  rw [tableConstraint]
  refine YieldsOn.bind YieldsOn.eatKeyword fun named _ => ?_
  extract_lets rest
  suffices h : YieldsOn Token.Lexical (rest ()) fun t' => ∀ f ∈ t'.fields, f.Printable by
    split
    · exact YieldsOn.bind YieldsOn.expectName fun _ _ => h
    · exact h
  refine YieldsOn.bind YieldsOn.eatKeyword fun b _ => ?_
  split
  · -- PRIMARY KEY
    refine YieldsOn.bind YieldsOn.expectKeyword fun _ _ => YieldsOn.bind YieldsOn.expectPunct fun _ _ => ?_
    refine YieldsOn.bind (YieldsOn.repeatWhile (P := fun _ => True) (fun _ _ => keyColumn_on) trivial)
      fun keys _ => ?_
    exact YieldsOn.bind YieldsOn.eatKeyword fun auto _ => YieldsOn.bind YieldsOn.expectPunct fun _ _ =>
      YieldsOn.bind conflictClause_on fun _ _ => YieldsOn.pure (printable_markKeys ht auto keys)
  refine YieldsOn.bind YieldsOn.eatKeyword fun b _ => ?_
  split
  · exact YieldsOn.bind skipBalanced_on fun _ _ => YieldsOn.bind conflictClause_on fun _ _ => YieldsOn.pure ht
  refine YieldsOn.bind YieldsOn.eatKeyword fun b _ => ?_
  split
  · exact YieldsOn.bind skipBalanced_on fun _ _ => YieldsOn.pure ht
  refine YieldsOn.bind YieldsOn.eatKeyword fun b _ => ?_
  split
  · exact YieldsOn.bind YieldsOn.expectKeyword fun _ _ => YieldsOn.bind skipBalanced_on fun _ _ =>
      YieldsOn.bind YieldsOn.expectKeyword fun _ _ => YieldsOn.bind foreignKeyClause_on fun _ _ => YieldsOn.pure ht
  · exact YieldsOn.unexpected

theorem tableElement_printable {t : Table} (ht : ∀ f ∈ t.fields, f.Printable) :
    YieldsOn Token.Lexical (tableElement t) fun r => ∀ f ∈ r.1.fields, f.Printable := by
  rw [tableElement]
  refine YieldsOn.bind YieldsOn.peek? fun _ _ => ?_
  extract_lets isConstraint finish
  have hfinish : ∀ t', (∀ f ∈ t'.fields, f.Printable) →
      YieldsOn Token.Lexical (finish t') fun r => ∀ f ∈ r.1.fields, f.Printable :=
    fun t' ht' => YieldsOn.bind YieldsOn.eatPunct fun _ _ => YieldsOn.pure ht'
  split
  · exact YieldsOn.bind (tableConstraint_printable ht) hfinish
  · exact YieldsOn.bind (columnDef_printable ht) hfinish

theorem ifNotExists_on : YieldsOn L ifNotExists fun _ => True := by
  rw [ifNotExists]
  refine YieldsOn.bind YieldsOn.eatKeyword fun b _ => ?_
  split
  · exact YieldsOn.bind YieldsOn.expectKeyword fun _ _ => YieldsOn.expectKeyword
  · exact YieldsOn.pure trivial

theorem qualifiedName_on : YieldsOn L qualifiedName fun _ => True := by
  rw [qualifiedName]
  refine YieldsOn.bind YieldsOn.expectName fun _ _ => YieldsOn.bind YieldsOn.peek? fun _ _ => ?_
  split
  · exact YieldsOn.bind YieldsOn.skip fun _ _ => YieldsOn.expectName
  · exact YieldsOn.pure trivial

/-- The fields of a `CREATE TABLE` statement print readably. -/
theorem createTable_printable (temporary : Bool) :
    YieldsOn Token.Lexical (createTable temporary) fun t => ∀ f ∈ t.fields, f.Printable := by
  rw [createTable]
  refine YieldsOn.bind ifNotExists_on fun _ _ => YieldsOn.bind qualifiedName_on fun name _ =>
    YieldsOn.bind YieldsOn.expectPunct fun _ _ => ?_
  have hloop := YieldsOn.repeatWhile (P := fun t : Table => ∀ f ∈ t.fields, f.Printable)
    (fun _ ht => tableElement_printable ht) (a := { name, temporary }) (by simp)
  refine YieldsOn.bind hloop fun t ht => YieldsOn.bind YieldsOn.expectPunct fun _ _ => ?_
  extract_lets finish
  have hfinish : ∀ t' : Table, t'.fields = t.fields → YieldsOn Token.Lexical (finish t') fun t => ∀ f ∈ t.fields, f.Printable :=
    fun t' hf => YieldsOn.bind YieldsOn.expectEnd fun _ _ => YieldsOn.pure (hf ▸ ht)
  split
  · exact YieldsOn.bind (YieldsOn.throw (P := fun _ => False)) fun _ h => h.elim
  · refine YieldsOn.bind YieldsOn.eatKeyword fun b _ => ?_
    split
    · simp only [pure_bind]
      exact YieldsOn.bind YieldsOn.expectKeyword fun _ _ => hfinish _ rfl
    · simp only [pure_bind]
      exact hfinish _ rfl

theorem indexedColumn_readable {cols : List Expr} (h : ∀ c ∈ cols, c.Readable) :
    YieldsOn Token.Lexical (indexedColumn cols) fun r => ∀ c ∈ r.1, c.Readable := by
  rw [indexedColumn]
  refine YieldsOn.bind expression_on fun c hc => YieldsOn.bind YieldsOn.eatPunct fun _ _ => YieldsOn.pure ?_
  intro x hx
  rcases List.mem_append.mp hx with hx | hx
  · exact h x hx
  · obtain rfl : x = c := by simpa using hx
    exact hc

theorem expression_ok {terms : List String} {context : String} {ts r : List Token} {e : Expr}
    (h : expression terms context ts = .ok (e, r)) : ∃ h', Expr.read terms ts = .read e r h' := by
  simp only [Cursor.expression] at h
  split at h
  · rename_i e₀ r₀ h₀ hread
    obtain ⟨rfl, rfl⟩ : e₀ = e ∧ r₀ = r := by simpa using h
    exact ⟨h₀, hread⟩
  · simp at h

/-- The trees of a `CREATE INDEX` statement print readably. -/
theorem createIndex_printable (unique : Bool) : YieldsOn Token.Lexical (createIndex unique) Index.Printable := by
  rw [createIndex]
  refine YieldsOn.bind ifNotExists_on fun _ _ => YieldsOn.bind qualifiedName_on fun name _ =>
    YieldsOn.bind YieldsOn.expectKeyword fun _ _ => YieldsOn.bind YieldsOn.expectName fun table _ =>
    YieldsOn.bind YieldsOn.expectPunct fun _ _ => ?_
  have hloop := (YieldsOn.repeatWhile (P := fun cols : List Expr => ∀ c ∈ cols, c.Readable)
    (fun _ h => indexedColumn_readable h) (a := []) (by simp)).and_yields
      (Yields.repeatWhile_step (P := fun cols : List Expr => cols ≠ [])
        (fun cols => Yields.bind fun _ => Yields.bind fun _ => Yields.pure (by simp)))
  refine YieldsOn.bind hloop fun cols ⟨hcols, hne⟩ => YieldsOn.bind YieldsOn.expectPunct fun _ _ => ?_
  refine YieldsOn.bind YieldsOn.eatKeyword fun b _ => ?_
  dsimp only
  split
  · -- the predicate is read up to the end of the text, so it may end there
    intro ts i ts' hts hr
    obtain ⟨e, ts₁, he, hr⟩ := bind_ok.mp hr
    obtain ⟨p, ts₂, hp, hr⟩ := bind_ok.mp hr
    obtain ⟨rfl, rfl⟩ := pure_ok.mp hp
    obtain ⟨u, ts₃, hend, hr⟩ := bind_ok.mp hr
    obtain ⟨rfl, rfl⟩ := pure_ok.mp hr
    obtain ⟨rfl, rfl⟩ : ts₁ = [] ∧ ts₃ = [] := by
      cases ts₁ with
      | nil => simpa [expectEnd] using hend.symm
      | cons t r => simp [expectEnd] at hend
    obtain ⟨h, hread⟩ := expression_ok he
    obtain ⟨hchain, hts', -, hendb⟩ := read_grammar hread
    have hlex : ∀ t ∈ e.tokens, t.Lexical := fun t ht => hts t (by simp [hts', ht])
    refine ⟨⟨hne, hcols, ?_⟩, by simp⟩
    intro p hp
    obtain rfl : e = p := by simpa using hp
    exact ⟨⟨hchain, hlex⟩, hendb⟩
  · simp only [pure_bind]
    exact YieldsOn.bind YieldsOn.expectEnd fun _ _ => YieldsOn.pure ⟨hne, hcols, by simp⟩

/-- A statement read from tokens of the lexer's shape prints readably, once its table is valid. -/
theorem statement_printable : YieldsOn Token.Lexical statement fun s => s.Valid → s.Printable := by
  rw [statement]
  refine YieldsOn.bind YieldsOn.expectKeyword fun _ _ => YieldsOn.bind YieldsOn.eatAnyKeyword fun temp _ => ?_
  have htable : ∀ temporary, YieldsOn Token.Lexical (createTable temporary >>= fun t => pure (Statement.table t))
      fun s => s.Valid → s.Printable :=
    fun temporary => YieldsOn.bind (createTable_printable temporary) fun _ ht => YieldsOn.pure fun hv => ⟨hv, ht⟩
  have hindex : ∀ unique, YieldsOn Token.Lexical (createIndex unique >>= fun i => pure (Statement.index i))
      fun s => s.Valid → s.Printable :=
    fun unique => YieldsOn.bind (createIndex_printable unique) fun _ hi => YieldsOn.pure fun _ => hi
  split
  · exact YieldsOn.bind YieldsOn.expectKeyword fun _ _ => htable true
  refine YieldsOn.bind YieldsOn.eatKeyword fun b _ => ?_
  split
  · exact htable false
  refine YieldsOn.bind YieldsOn.eatKeyword fun b _ => ?_
  split
  · exact YieldsOn.bind YieldsOn.expectKeyword fun _ _ => hindex true
  refine YieldsOn.bind YieldsOn.eatKeyword fun b _ => ?_
  split
  · exact hindex false
  · exact YieldsOn.unexpected

end Reader

namespace Statement

theorem parse_printable {sql : String} {s : Statement} (h : Statement.parse sql = .ok s) : s.Printable := by
  obtain ⟨ts, hrun⟩ := run_of_parse h
  exact (Reader.statement_printable _ _ _ (tokenize_lexical sql) hrun).1 (parse_valid h)

end Statement

/-! ### Column changes keep statements printable -/

theorem Token.renameAt_ok {m : RenameMap} {p : Place} {t t' : Token} (h : t.renameAt m p = .ok t') :
    t' = t ∨ ∃ name, t' = ⟨name, .quoted⟩ := by
  simp only [Token.renameAt] at h
  split at h
  · split at h
    · cases h
    · rename_i n _
      exact .inr ⟨n, by simpa using h.symm⟩
    · exact .inl (by simpa using h.symm)
  · exact .inl (by simpa using h.symm)

theorem Expr.Requoted.refl (e : Expr) : Requoted e e := by
  induction e with
  | leaf t => exact .keep t
  | unary op _ ih => exact .unary op ih
  | binary _ op _ ihl ihr => exact .binary op ihl ihr
  | closing _ w ih => exact .closing w ih
  | call f _ ih => exact .call f ih
  | emptyCall f => exact .emptyCall f
  | paren _ ih => exact .paren ih

/-- Renaming the column references of a tree requotes it: a renamed reference becomes a quoted name,
    and everything else stays. -/
theorem Expr.renameAt_requoted (m : RenameMap) (p : Place) (e : Expr) : Requoted e (e.renameAt m p).1 := by
  induction e generalizing p with
  | leaf t =>
    simp only [renameAt]
    split
    · rename_i t' ht
      rcases Token.renameAt_ok ht with rfl | ⟨name, rfl⟩
      · exact .keep _
      · exact .quote _ name
    · exact .keep _
  | unary op _ ih => exact .unary op (ih _)
  | binary l op r ihl ihr =>
    simp only [renameAt]
    split
    · exact .binary op (ihl _) (.refl r)
    · split
      · exact .binary op (ihl _) (.refl r)
      · exact .binary op (ihl _) (ihr _)
  | closing _ w ih => exact .closing w (ih _)
  | call f _ ih => exact .call f (ih _)
  | emptyCall f => exact .emptyCall f
  | paren _ ih => exact .paren (ih _)

theorem Expr.Readable.requoted {e e' : Expr} (h : e.Readable) (hq : Requoted e e') : e'.Readable :=
  ⟨hq.grammar.2 h.1, hq.lexical h.2⟩

/-- Renaming the indexed columns keeps their number and requotes each of them. -/
theorem renameIndexedColumns_requoted (m : RenameMap) (cols : List Expr) :
    (renameIndexedColumns m cols).1.length = cols.length ∧
      ∀ c' ∈ (renameIndexedColumns m cols).1, ∃ c ∈ cols, Requoted c c' := by
  induction cols with
  | nil => simp [renameIndexedColumns]
  | cons c cs ih =>
    simp only [renameIndexedColumns]
    split
    · refine ⟨rfl, fun c' hc' => ?_⟩
      rcases List.mem_cons.mp hc' with rfl | hc'
      · exact ⟨c, List.mem_cons_self, Expr.renameAt_requoted m _ c⟩
      · exact ⟨c', List.mem_cons_of_mem _ hc', .refl c'⟩
    · refine ⟨by simp [ih.1], fun c' hc' => ?_⟩
      rcases List.mem_cons.mp hc' with rfl | hc'
      · exact ⟨c, List.mem_cons_self, Expr.renameAt_requoted m _ c⟩
      · obtain ⟨c₀, hc₀, hq⟩ := ih.2 c' hc'
        exact ⟨c₀, List.mem_cons_of_mem _ hc₀, hq⟩

theorem Index.Printable.renameColumns {i : Index} (h : i.Printable) (m : RenameMap) :
    (i.renameColumns m).1.Printable := by
  obtain ⟨hlen, hcols⟩ := renameIndexedColumns_requoted m i.columns
  have hne : (renameIndexedColumns m i.columns).1 ≠ [] := by
    intro hnil
    rw [hnil, List.length_nil, eq_comm, List.length_eq_zero_iff] at hlen
    exact h.columns_ne hlen
  have hread : ∀ c ∈ (renameIndexedColumns m i.columns).1, c.Readable := by
    intro c' hc'
    obtain ⟨c, hc, hq⟩ := hcols c' hc'
    exact (h.columns c hc).requoted hq
  simp only [Index.renameColumns]
  split
  · exact ⟨hne, hread, h.predicate⟩
  · split
    · rename_i p hp
      refine ⟨hne, hread, fun p' hp' => ?_⟩
      obtain rfl : (p.renameAt m .predicate).1 = p' := by simpa using hp'
      obtain ⟨hr, hend⟩ := h.predicate p (by simp [hp])
      have hq := Expr.renameAt_requoted m .predicate p
      exact ⟨hr.requoted hq, hq.endsBefore hend⟩
    · rename_i hp
      exact ⟨hne, hread, by simp [hp]⟩

theorem Field.Printable.renamed {f : Field} (h : f.Printable) (m : RenameMap) : (f.renamed m).Printable := by
  unfold Field.renamed
  split <;> exact ⟨h.typeName, h.default⟩

theorem Table.Printable.renameColumns {t t' : Table} (h : t.Printable) {m : RenameMap}
    (hr : t.renameColumns m = .ok t') : t'.Printable := by
  obtain ⟨-, hf, -⟩ := Table.renameColumns_ok hr
  refine ⟨h.toKeyConsistent.renameColumns hr, fun f' hf' => ?_⟩
  rw [hf, List.mem_map] at hf'
  obtain ⟨f, hf, rfl⟩ := hf'
  exact (h.fields_printable f (List.mem_of_mem_filter hf)).renamed m

namespace Statement

theorem Printable.renameColumns {s : Statement} (h : s.Printable) (m : RenameMap) :
    (s.renameColumns m).1.Printable := by
  cases s with
  | table t =>
    simp only [Statement.renameColumns]
    split
    · rename_i t' hr
      exact Table.Printable.renameColumns h hr
    · exact h
  | index i => exact Index.Printable.renameColumns h m

theorem Printable.withTable {s : Statement} (h : s.Printable) (name : String) : (s.withTable name).Printable := by
  cases s with
  | table t => exact ⟨⟨h.toKeyConsistent.congr rfl rfl, h.nonempty⟩, h.fields_printable⟩
  | index i => exact ⟨h.columns_ne, h.columns, h.predicate⟩

/-- Every statement a program can hold prints readably. -/
theorem Reachable.printable {s : Statement} (h : s.Reachable) : s.Printable := by
  induction h with
  | parse hp => exact parse_printable hp
  | renameColumns m _ ih => exact ih.renameColumns m
  | replace name m _ ih => exact (ih.withTable name).renameColumns m

end Statement

end SqlSchema
