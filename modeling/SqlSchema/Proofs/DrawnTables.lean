import SqlSchema.Proofs.DrawnText
import SqlSchema.Proofs.BalancedRun
import SqlSchema.Proofs.KeyDeclaration

/-! # Generated columns read back

A generated column is its name, its type, and then its constraints in a fixed order: an inline key
with or without `AUTOINCREMENT`, `NOT NULL`, a default, `UNIQUE` and a `CHECK` over the column. Each
constraint is one round of the reader's loop over column constraints. `ConstraintText` packs what a
piece of constraint text does: the tokens it lexes as, and what the loop makes of them; pieces put
one after another do both one after another (`ConstraintText.append`). A whole column, its name, its
type and its constraints, lexes as the tokens that the table reader's column reader reads as the
field the column's choices say (`ColumnChoice.drawn_read`). -/

namespace SqlSchema

open Lexer Cursor Reader Generate

/-! ### Column constraints -/

/-- A token that may come after a constraint of a generated column: the keyword that opens a
    constraint, or the comma or parenthesis after the column. -/
def AfterConstraint (o : Option Token) : Prop :=
  ∀ t ∈ o, t ∈ [⟨"PRIMARY", .word⟩, ⟨"NOT", .operator⟩, ⟨"DEFAULT", .word⟩, ⟨"UNIQUE", .word⟩,
    ⟨"CHECK", .word⟩, Token.comma, ⟨")", .punct⟩]

/-- After a constraint of a generated column comes no word that would extend it. -/
theorem AfterConstraint.isKeyword {o : Option Token} (h : AfterConstraint o) {kw : String}
    (hkw : kw ∈ ["ON", "ASC", "DESC", "AUTOINCREMENT"]) : ∀ t ∈ o, t.isKeyword kw = false := by
  intro t ht
  have ht' := h t ht
  simp only [List.mem_cons, List.not_mem_nil, or_false] at ht' hkw
  rcases ht' with rfl | rfl | rfl | rfl | rfl | rfl | rfl <;> rcases hkw with rfl | rfl | rfl | rfl <;> decide +kernel

/-! ### Parenthesised runs without parentheses inside -/

/-- A run of tokens that opens no parenthesis, then `)`, closes one open parenthesis. -/
theorem closesFrom_flat {body : List Token} (h : ∀ t ∈ body, t.parenStep = 0) :
    ClosesFrom 1 (body ++ [⟨")", .punct⟩]) := by
  induction body with
  | nil => exact closesFrom_singleton (by decide)
  | cons t body ih =>
    have ht : t.parenStep = 0 := h t List.mem_cons_self
    rw [List.cons_append, closesFrom_cons (by omega), ht, add_zero]
    exact ih fun t' ht' => h t' (List.mem_cons_of_mem _ ht')

/-- `skipBalanced` skips a parenthesised run that opens no parenthesis inside. -/
theorem skipBalanced_flat {body : List Token} (h : ∀ t ∈ body, t.parenStep = 0) (rest : List Token) :
    skipBalanced (⟨"(", .punct⟩ :: (body ++ ⟨")", .punct⟩ :: rest)) = .ok ((), rest) :=
  (skipBalanced_ok_iff _ _).mpr ⟨⟨"(", .punct⟩ :: (body ++ [⟨")", .punct⟩]), by simp,
    (shortestBalanced_cons rfl).mpr (closesFrom_flat h)⟩

/-- A token that is no punctuation opens and closes no parenthesis. -/
theorem Token.parenStep_of_kind {t : Token} (h : t.kind ≠ .punct) : t.parenStep = 0 := by
  simp [Token.parenStep, Expr.isPunct_of_kind_ne h]

/-- The token of `AUTOINCREMENT` when a key has it. -/
def autoTokens (auto : Bool) : List Token :=
  if auto then [⟨"AUTOINCREMENT", .word⟩] else []

section Constraints

variable (g : Field) {rest : List Token}

theorem columnConstraint_primaryKey (auto : Bool) (h : AfterConstraint rest.head?) :
    columnConstraint g (⟨"PRIMARY", .word⟩ :: ⟨"KEY", .word⟩ ::
        (autoTokens auto ++ rest)) =
      .ok (({ g with inPrimaryKey := true, autoIncrement := g.autoIncrement || auto }, true), rest) := by
  have hwords : (⟨"PRIMARY", .word⟩ : Token).isKeyword "CONSTRAINT" = false ∧
      (⟨"PRIMARY", .word⟩ : Token).isKeyword "PRIMARY" = true ∧ (⟨"KEY", .word⟩ : Token).isKeyword "KEY" = true ∧
      (⟨"AUTOINCREMENT", .word⟩ : Token).isKeyword "AUTOINCREMENT" = true := by
    simp [Token.isKeyword, sameWord_eq]
  obtain ⟨hcon, hprimary, hkey, hautoWord⟩ := hwords
  -- after the key: `AUTOINCREMENT` or what follows the constraint, neither an order nor a conflict clause
  have hafter : ∀ kw ∈ ["ON", "ASC", "DESC"],
      ∀ t ∈ (autoTokens auto ++ rest).head?, t.isKeyword kw = false := by
    intro kw hkw t ht
    cases auto <;> simp only [autoTokens, Bool.false_eq_true, ↓reduceIte, List.nil_append, List.singleton_append] at ht
    · exact h.isKeyword (by simp only [List.mem_cons] at hkw ⊢; tauto) t ht
    · simp only [List.mem_cons, List.not_mem_nil, or_false] at hkw
      cases ht
      rcases hkw with rfl | rfl | rfl <;> decide +kernel
  have horder : ∀ t ∈ (autoTokens auto ++ rest).head?,
      ["ASC", "DESC"].any t.isKeyword = false := fun t ht => by
    simp [hafter "ASC" (by simp) t ht, hafter "DESC" (by simp) t ht]
  have hconflict : conflictClause (autoTokens auto ++ rest) =
      .ok ((), autoTokens auto ++ rest) := by
    rw [conflictClause, eatKeyword, bind_of_ok (eatIf_of_false (hafter "ON" (by simp)))]
    rfl
  have hauto : eatKeyword "AUTOINCREMENT" (autoTokens auto ++ rest) =
      .ok (auto, rest) := by
    cases auto <;> simp only [autoTokens, Bool.false_eq_true, ↓reduceIte, List.nil_append, List.singleton_append]
    · exact eatIf_of_false (h.isKeyword (by simp))
    · exact eatIf_of_true hautoWord rest
  rw [columnConstraint, eatKeyword, bind_of_ok (eatIf_of_false fun t ht => by cases ht; exact hcon)]
  simp only [Bool.false_eq_true, ↓reduceIte]
  rw [eatKeyword, bind_of_ok (eatIf_of_true hprimary _)]
  simp only [↓reduceIte]
  rw [bind_of_ok (expectKeyword_cons hkey _), eatAnyKeyword, bind_of_ok (eatIf_of_false horder),
    bind_of_ok hconflict, bind_of_ok hauto]
  rfl

theorem columnConstraint_unique (h : AfterConstraint rest.head?) :
    columnConstraint g (⟨"UNIQUE", .word⟩ :: rest) = .ok ((g, true), rest) := by
  have hconflict : conflictClause rest = .ok ((), rest) := by
    rw [conflictClause, eatKeyword, bind_of_ok (eatIf_of_false (h.isKeyword (by simp)))]
    rfl
  have hwords : (⟨"UNIQUE", .word⟩ : Token).isKeyword "CONSTRAINT" = false ∧
      (⟨"UNIQUE", .word⟩ : Token).isKeyword "PRIMARY" = false ∧ (⟨"UNIQUE", .word⟩ : Token).isKeyword "NOT" = false ∧
      ["NULL", "UNIQUE"].any (⟨"UNIQUE", .word⟩ : Token).isKeyword = true := by
    simp [Token.isKeyword, sameWord_eq]
  obtain ⟨hcon, hprimary, hnot, hunique⟩ := hwords
  rw [columnConstraint, eatKeyword, bind_of_ok (eatIf_of_false fun t ht => by cases ht; exact hcon)]
  simp only [Bool.false_eq_true, ↓reduceIte]
  rw [eatKeyword, bind_of_ok (eatIf_of_false fun t ht => by cases ht; exact hprimary)]
  simp only [Bool.false_eq_true, ↓reduceIte]
  rw [eatKeyword, bind_of_ok (eatIf_of_false fun t ht => by cases ht; exact hnot)]
  simp only [Bool.false_eq_true, ↓reduceIte]
  rw [eatAnyKeyword, bind_of_ok (eatIf_of_true hunique _)]
  simp only [↓reduceIte]
  rw [bind_of_ok hconflict]
  rfl

/-- A check whose body opens no parenthesis of its own is skipped whole. -/
theorem columnConstraint_check {body : List Token} (hbody : ∀ t ∈ body, t.parenStep = 0) :
    columnConstraint g (⟨"CHECK", .word⟩ :: ⟨"(", .punct⟩ :: (body ++ ⟨")", .punct⟩ :: rest)) =
      .ok ((g, true), rest) := by
  have hwords : (⟨"CHECK", .word⟩ : Token).isKeyword "CONSTRAINT" = false ∧
      (⟨"CHECK", .word⟩ : Token).isKeyword "PRIMARY" = false ∧ (⟨"CHECK", .word⟩ : Token).isKeyword "NOT" = false ∧
      ["NULL", "UNIQUE"].any (⟨"CHECK", .word⟩ : Token).isKeyword = false ∧
      (⟨"CHECK", .word⟩ : Token).isKeyword "CHECK" = true := by
    simp [Token.isKeyword, sameWord_eq]
  obtain ⟨hcon, hprimary, hnot, hunique, hcheck⟩ := hwords
  rw [columnConstraint, eatKeyword, bind_of_ok (eatIf_of_false fun t ht => by cases ht; exact hcon)]
  simp only [Bool.false_eq_true, ↓reduceIte]
  rw [eatKeyword, bind_of_ok (eatIf_of_false fun t ht => by cases ht; exact hprimary)]
  simp only [Bool.false_eq_true, ↓reduceIte]
  rw [eatKeyword, bind_of_ok (eatIf_of_false fun t ht => by cases ht; exact hnot)]
  simp only [Bool.false_eq_true, ↓reduceIte]
  rw [eatAnyKeyword, bind_of_ok (eatIf_of_false fun t ht => by cases ht; exact hunique)]
  simp only [Bool.false_eq_true, ↓reduceIte]
  rw [eatKeyword, bind_of_ok (eatIf_of_true hcheck _)]
  simp only [↓reduceIte]
  rw [bind_of_ok (skipBalanced_flat hbody rest)]
  rfl

end Constraints

theorem AfterConstraint.append {ts rest : List Token} (hts : AfterConstraint ts.head?)
    (hrest : AfterConstraint rest.head?) : AfterConstraint (ts ++ rest).head? := by
  cases ts with
  | nil => simpa using hrest
  | cons t ts => simpa using hts

/-- No constraint of a generated column, nor the token after the column, continues its type. -/
theorem AfterConstraint.stopsType {o : Option Token} (h : AfterConstraint o) :
    ∀ t ∈ o, isTypeWord t = false ∧ t.isPunct '(' = false := by
  intro t ht
  have ht' := h t ht
  simp only [List.mem_cons, List.not_mem_nil, or_false] at ht'
  rcases ht' with rfl | rfl | rfl | rfl | rfl | rfl | rfl <;> decide +kernel

/-! ### Constraints as pieces of text -/

/-- The text of some constraints of a generated column: it lexes as `tokens`, starts apart, starts
    with the keyword of a constraint when it is not empty, and the reader's loop over constraints
    takes its tokens into the field by `effect`. -/
structure ConstraintText (text : String) (tokens : List Token) (effect : Field → Field) : Prop where
  lexes : Lexes text tokens
  apart : StartsApart text
  head : AfterConstraint tokens.head?
  reads : ∀ g rest, AfterConstraint rest.head? →
    repeatWhile columnConstraint g (tokens ++ rest) = repeatWhile columnConstraint (effect g) rest

namespace ConstraintText

variable {p q : String} {ts us : List Token} {e e' : Field → Field}

theorem empty : ConstraintText "" [] id :=
  ⟨Lexes.empty, StartsApart.empty, (by intro _ h; cases h), fun _ _ _ => rfl⟩

theorem append (hp : ConstraintText p ts e) (hq : ConstraintText q us e') :
    ConstraintText (p ++ q) (ts ++ us) (e' ∘ e) where
  lexes := hp.lexes.append hq.lexes hq.apart
  apart := hp.apart.append hq.apart
  head := hp.head.append hq.head
  reads g rest hrest := by
    rw [List.append_assoc, hp.reads g _ (hq.head.append hrest), hq.reads _ _ hrest]
    rfl

/-- A constraint written or not. -/
theorem ite (b : Bool) (hp : ConstraintText p ts e) :
    ConstraintText (if b then p else "") (if b then ts else []) (if b then e else id) := by
  cases b
  · exact empty
  · exact hp

/-- One round of the loop that takes `ts` into the field by `e`. -/
theorem ofRound (hlex : Lexes p ts) (hapart : StartsApart p) (hts : ts ≠ []) (hhead : AfterConstraint ts.head?)
    (hround : ∀ g rest, AfterConstraint rest.head? → columnConstraint g (ts ++ rest) = .ok ((e g, true), rest)) :
    ConstraintText p ts e :=
  ⟨hlex, hapart, hhead, fun g rest hrest =>
    repeatWhile_more (hround g rest hrest) (by simp [List.length_pos_of_ne_nil hts])⟩

theorem notNull : ConstraintText " NOT NULL" [⟨"NOT", .operator⟩, ⟨"NULL", .word⟩] fun g => { g with notNull := true } :=
  ofRound (Lexes.keywords [⟨"NOT", .operator⟩, ⟨"NULL", .word⟩] (by simp [IsWord, isWordStart, isWordChar])
    (by decide +kernel)) (StartsApart.blank "NOT NULL") (by simp) (by simp [AfterConstraint])
    fun g rest hrest => columnConstraint_notNull (hrest.isKeyword (by simp))

theorem unique : ConstraintText " UNIQUE" [⟨"UNIQUE", .word⟩] id :=
  ofRound (Lexes.keywords [⟨"UNIQUE", .word⟩] (by simp [IsWord, isWordStart, isWordChar]) (by decide +kernel))
    (StartsApart.blank "UNIQUE") (by simp) (by simp [AfterConstraint])
    fun g _ hrest => columnConstraint_unique g hrest

theorem check {c : Token} (hc : c.Lexical) (hk : c.kind ≠ .punct) :
    ConstraintText (" CHECK (" ++ c.render ++ " IS NOT 42)")
      [⟨"CHECK", .word⟩, ⟨"(", .punct⟩, c, ⟨"IS", .operator⟩, ⟨"NOT", .operator⟩, ⟨"42", .numeric⟩, ⟨")", .punct⟩]
      id := by
  have hopen : LexesBefore " CHECK (" [⟨"CHECK", .word⟩, ⟨"(", .punct⟩] :=
    (LexesBefore.of_lexes_blank (Lexes.keywords [⟨"CHECK", .word⟩] (by simp [IsWord, isWordStart, isWordChar])
      (by decide +kernel))).append LexesBefore.openParen
  have hwords : Lexes " IS NOT 42" [⟨"IS", .operator⟩, ⟨"NOT", .operator⟩, ⟨"42", .numeric⟩] :=
    (Lexes.keywords [⟨"IS", .operator⟩, ⟨"NOT", .operator⟩] (by simp [IsWord, isWordStart, isWordChar])
      (by decide +kernel)).append (Lexes.blank (Lexes.token (t := ⟨"42", .numeric⟩)
        (Token.lexical_of_tokens (by decide +kernel)))) (StartsApart.blank "42")
  have hapart : StartsApart " CHECK (" := StartsApart.blank "CHECK ("
  refine ofRound ?_ (hapart.append_left (by simp) _ |>.append_left (by simp) _) (by simp) (by simp [AfterConstraint])
    fun g rest _ => ?_
  · rw [String.append_assoc]
    exact hopen.prepend ((Lexes.token hc).append (hwords.append LexesBefore.closeParen.lexes (StartsApart.closeParen ""))
      (StartsApart.blank "IS NOT 42)"))
  · -- the body opens no parenthesis: a name, two operators and a number
    have hbody : ∀ t ∈ [c, ⟨"IS", .operator⟩, ⟨"NOT", .operator⟩, ⟨"42", .numeric⟩], t.parenStep = 0 := by
      simp only [List.mem_cons, List.not_mem_nil, or_false]
      rintro t (rfl | rfl | rfl | rfl)
      · exact Token.parenStep_of_kind hk
      all_goals decide
    exact columnConstraint_check g hbody

theorem default {x : String} (r : DefaultReading x) :
    ConstraintText (" DEFAULT " ++ x) (⟨"DEFAULT", .word⟩ :: r.tokens) fun g =>
      { g with defaultValue := some r.value, defaultIsQuoted := r.quoted || g.defaultIsQuoted,
               defaultIsExpression := r.group || g.defaultIsExpression } := by
  have hkw : LexesBefore " DEFAULT " [⟨"DEFAULT", .word⟩] :=
    LexesBefore.of_lexes_blank (Lexes.keywords [⟨"DEFAULT", .word⟩] (by simp [IsWord, isWordStart, isWordChar])
      (by decide +kernel))
  have hapart : StartsApart " DEFAULT " := StartsApart.blank "DEFAULT "
  exact ofRound (hkw.prepend r.lexes) (hapart.append_left (by simp) x) (by simp) (by simp [AfterConstraint])
    fun g rest _ => columnConstraint_default (r.reads g rest)

theorem key (auto : Bool) :
    ConstraintText (" PRIMARY KEY" ++ (if auto then " AUTOINCREMENT" else ""))
      (⟨"PRIMARY", .word⟩ :: ⟨"KEY", .word⟩ :: autoTokens auto)
      fun g => { g with inPrimaryKey := true, autoIncrement := g.autoIncrement || auto } := by
  have hkey : Lexes " PRIMARY KEY" [⟨"PRIMARY", .word⟩, ⟨"KEY", .word⟩] :=
    Lexes.keywords [⟨"PRIMARY", .word⟩, ⟨"KEY", .word⟩] (by simp [IsWord, isWordStart, isWordChar]) (by decide +kernel)
  have hauto : Lexes (if auto then " AUTOINCREMENT" else "") (autoTokens auto) := by
    cases auto
    · exact Lexes.empty
    · exact Lexes.keywords [⟨"AUTOINCREMENT", .word⟩] (by simp [IsWord, isWordStart, isWordChar]) (by decide +kernel)
  have hapart : StartsApart " PRIMARY KEY" := StartsApart.blank "PRIMARY KEY"
  have hapart' : StartsApart " AUTOINCREMENT" := StartsApart.blank "AUTOINCREMENT"
  refine ofRound (hkey.append hauto (StartsApart.ite hapart' StartsApart.empty)) (hapart.append_left (by simp) _)
    (by simp) (by simp [AfterConstraint]) fun g rest hrest => ?_
  rw [List.cons_append, List.cons_append]
  exact columnConstraint_primaryKey g auto hrest

/-- The inline key of a generated column, written or not: it sets the key flags it names. -/
theorem ofKey (k : Option Bool) :
    ∃ ts e, ConstraintText (match k with
      | some auto => " PRIMARY KEY" ++ (if auto then " AUTOINCREMENT" else "")
      | none => "") ts e ∧
      ∀ g : Field, e g = { g with inPrimaryKey := g.inPrimaryKey || k.isSome
                                  autoIncrement := g.autoIncrement || k == some true } := by
  cases k with
  | none => exact ⟨[], id, empty, fun g => by simp⟩
  | some auto => exact ⟨_, _, key auto, fun g => by simp⟩

/-- The default of a generated column, written or not, drawn from the generator's defaults: read into
    a field with no default yet, it prints back as written, in one form, and sets nothing else. -/
theorem ofDefault {d : Option String} (hd : ∀ x ∈ d, x ∈ defaults) :
    ∃ ts e, ConstraintText (match d with
      | some x => " DEFAULT " ++ x
      | none => "") ts e ∧
      ∀ g : Field, g.defaultValue = none → g.defaultIsQuoted = false → g.defaultIsExpression = false →
        (e g).defaultSql = (d.map (" DEFAULT " ++ ·)).getD "" ∧
        ((e g).defaultIsQuoted && (e g).defaultIsExpression) = false ∧
        e g = { g with defaultValue := (e g).defaultValue
                       defaultIsQuoted := (e g).defaultIsQuoted
                       defaultIsExpression := (e g).defaultIsExpression } := by
  cases d with
  | none =>
    refine ⟨[], id, empty, fun g hv hq _ => ⟨by simp [Field.defaultSql, hv], by simp [hq], ?_⟩⟩
    cases g
    simp_all
  | some x =>
    obtain ⟨r⟩ := defaults_read x (hd x rfl)
    refine ⟨_, _, default r, fun g _ hq he => ⟨?_, by simpa [hq, he] using r.form, rfl⟩⟩
    simpa [Field.defaultSql, hq, he] using congrArg (" DEFAULT " ++ ·) r.prints

end ConstraintText

/-! ### Columns -/

namespace Generate.ColumnChoice

/-- The constraints of a generated column's text, after its type; `w` is the column's name as
    written. -/
def constraintSql (ch : ColumnChoice) (w : String) : String :=
  (match ch.key with
   | some auto => " PRIMARY KEY" ++ (if auto then " AUTOINCREMENT" else "")
   | none => "") ++
  (if ch.notNull then " NOT NULL" else "") ++
  (match ch.default with
   | some d => " DEFAULT " ++ d
   | none => "") ++
  (if ch.unique then " UNIQUE" else "") ++
  (if ch.check then " CHECK (" ++ w ++ " IS NOT 42)" else "")

/-- The text of the type of a generated column, after a blank when there is one. -/
def typeSql (ch : ColumnChoice) : String :=
  if ch.type.isEmpty then "" else " " ++ ch.type

theorem sql_eq (ch : ColumnChoice) (c : Name) : ch.sql c = c.written ++ ch.typeSql ++ ch.constraintSql c.written := by
  -- the same seven pieces, the last five grouped
  have hgroup : ∀ a b k n d u x : String, a ++ b ++ k ++ n ++ d ++ u ++ x = a ++ b ++ (k ++ n ++ d ++ u ++ x) := by
    intros
    simp only [String.append_assoc]
  exact hgroup _ _ _ _ _ _ _

/-- A generated column's type lexes as its spelling's tokens after a blank, or as nothing, and is
    read back before a token that does not continue it. -/
theorem typeSql_read (ch : ColumnChoice) (hty : TypeText ch.type) :
    ∃ tts, Lexes ch.typeSql tts ∧
      ∀ rest : List Token, (∀ t ∈ rest.head?, isTypeWord t = false ∧ t.isPunct '(' = false) →
        typeName (tts ++ rest) = .ok (ch.type, rest) := by
  rcases hty with hty | ⟨sp, hsp⟩
  · refine ⟨[], by simpa [typeSql, hty] using Lexes.empty, fun rest hrest => ?_⟩
    rw [hty, List.nil_append]
    exact typeName_none fun t ht => (hrest t ht).1
  · refine ⟨sp.tokens, ?_, fun rest hrest => ?_⟩
    · rw [typeSql, ← hsp, if_neg (by simp [sp.text_isEmpty])]
      exact Lexes.blank fun s hs => sp.tokens_text_append hs
    · rw [← hsp]
      exact sp.typeName_tokens (fun t ht => (hrest t ht).1) fun _ t ht => (hrest t ht).2

/-- A generated column's text lexes as its name token, its type's tokens and its constraints'. -/
theorem sql_lexes (ch : ColumnChoice) {c : Token} (hc : c.Lexical) {tts cts : List Token} {e : Field → Field}
    (htype : Lexes ch.typeSql tts) (hct : ConstraintText (ch.constraintSql c.render) cts e) :
    Lexes (ch.sql (Name.ofToken c)) (c :: (tts ++ cts)) := by
  have hapart : StartsApart ch.typeSql := StartsApart.ite StartsApart.empty (StartsApart.blank _)
  rw [sql_eq]
  exact ((Lexes.token hc).append htype hapart).append hct.lexes hct.apart

/-- The field a generated column is read as: its name and type, `NOT NULL`, a key column that
    increments on its own as its inline key says, and a default in one form that prints as drawn. -/
structure ReadAs (ch : ColumnChoice) (c : Name) (f : Field) : Prop where
  name : f.name = c.name
  typeName : f.typeName = ch.type
  notNull : f.notNull = ch.notNull
  inPrimaryKey : f.inPrimaryKey = ch.key.isSome
  autoIncrement : f.autoIncrement = (ch.key == some true)
  default : f.defaultSql = (ch.default.map (" DEFAULT " ++ ·)).getD ""
  defaultForm : (f.defaultIsQuoted && f.defaultIsExpression) = false

/-- The constraints of a generated column lex as their keywords and values, and the reader's loop
    takes them into the field the column is read as. -/
theorem constraints_read (ch : ColumnChoice) {c : Token} (hc : c.Lexical) (hk : c.kind ≠ .punct)
    (hd : ∀ x ∈ ch.default, x ∈ defaults) :
    ∃ cts e, ConstraintText (ch.constraintSql c.render) cts e ∧
      ch.ReadAs (Name.ofToken c) (e { name := c.text, typeName := ch.type }) := by
  obtain ⟨kts, ek, hkey, hek⟩ := ConstraintText.ofKey ch.key
  obtain ⟨dts, ed, hdef, hed⟩ := ConstraintText.ofDefault hd
  refine ⟨_, _, ((((hkey.append (ConstraintText.ite ch.notNull ConstraintText.notNull)).append hdef).append
    (ConstraintText.ite ch.unique ConstraintText.unique)).append (ConstraintText.ite ch.check (ConstraintText.check hc hk))),
    ?_⟩
  simp only [ite_self, Function.comp_apply, id_eq]
  -- the key and NOT NULL set their flags on the bare field; the default then sets only its own
  set g₁ := (if ch.notNull then fun g : Field => { g with notNull := true } else id)
    (ek { name := c.text, typeName := ch.type }) with hg₁
  have hg : g₁ = { name := c.text, typeName := ch.type, inPrimaryKey := ch.key.isSome
                   autoIncrement := ch.key == some true, notNull := ch.notNull } := by
    cases hn : ch.notNull <;> simp [hg₁, hek, hn]
  obtain ⟨hsql, hform, hed⟩ := hed g₁ (by rw [hg]) (by rw [hg]) (by rw [hg])
  refine ⟨?_, ?_, ?_, ?_, ?_, hsql, hform⟩
  all_goals rw [hed, hg]
  -- what the rewrite leaves open holds by unfolding the column's name
  all_goals rfl

/-- A generated column, its name token followed by its type's tokens and its constraints, is read as
    one column before the token that ends it: the field it is read as is added to the table, and marked
    as a key column when its inline key says so. -/
theorem columnDef_read (ch : ColumnChoice) {c : Token} (hname : c.isName = true) (hc : c.Lexical)
    (hk : c.kind ≠ .punct) (hd : ∀ x ∈ ch.default, x ∈ defaults) {tts : List Token}
    (htype : ∀ rest : List Token, (∀ t ∈ rest.head?, isTypeWord t = false ∧ t.isPunct '(' = false) →
      typeName (tts ++ rest) = .ok (ch.type, rest)) :
    ∃ cts e f, ConstraintText (ch.constraintSql c.render) cts e ∧ ch.ReadAs (Name.ofToken c) f ∧
      ∀ (u : SqlSchema.Table) (rest : List Token), (∀ t ∈ rest.head?, EndsColumn t) →
        Reader.columnDef u (c :: (tts ++ (cts ++ rest))) = .ok (u.addColumn f, rest) := by
  obtain ⟨cts, e, hct, hread⟩ := ch.constraints_read hc hk hd
  refine ⟨cts, e, _, hct, hread, fun u rest hrest => ?_⟩
  have hend : AfterConstraint rest.head? := fun t ht => by
    rcases hrest t ht with rfl | rfl <;> simp
  have hpunct : ∀ t ∈ rest.head?, t.kind = .punct := fun t ht => (hrest t ht).kind
  rw [Reader.columnDef, bind_of_ok (expectName_cons hname _), bind_of_ok (htype _ (hct.head.append hend).stopsType),
    bind_of_ok (by rw [hct.reads _ _ hend]; exact repeatWhile_last (columnConstraint_stop hpunct))]
  rfl

/-- A drawn column's text lexes as its name token and then tokens that the column reader reads as one
    column, the field the column's choices say, before the token that ends it. -/
theorem drawn_read {ch : ColumnChoice} {keyStyle j : Nat} {auto : Bool}
    (hch : ch.Drawn keyStyle auto j) {c : Token} (hname : c.isName = true) (hc : c.Lexical)
    (hk : c.kind ≠ .punct) :
    ∃ ts f, Lexes (ch.sql (Name.ofToken c)) (c :: ts) ∧ ch.ReadAs (Name.ofToken c) f ∧
      ∀ (u : SqlSchema.Table) (rest : List Token), (∀ t ∈ rest.head?, EndsColumn t) →
        Reader.columnDef u (c :: (ts ++ rest)) = .ok (u.addColumn f, rest) := by
  obtain ⟨tts, htl, htr⟩ := ch.typeSql_read (typeNames_text _ hch.type)
  obtain ⟨cts, e, f, hct, hread, hcol⟩ := ch.columnDef_read hname hc hk hch.default htr
  refine ⟨tts ++ cts, f, ch.sql_lexes hc htl hct, hread, fun u rest hrest => ?_⟩
  rw [List.append_assoc]
  exact hcol u rest hrest

end Generate.ColumnChoice

end SqlSchema
