import SqlSchema.Proofs.Printable
import SqlSchema.Proofs.Normalize

/-! # Reading printed columns back

A column's line is its double-quoted name, then its type after a tab, then ` NOT NULL`, then its
default in the form its flags choose. Each lemma here reads one piece of the line from the tokens of
its text followed by any text `s` that does not run into it, and leaves the tokens of `s`: the lexer
and the reader are taken together, one piece at a time. The last one, `columnDef_toSql`, reads a whole
printable column as its field with the key flags cleared and a quoted default taken as quoted only. -/

namespace SqlSchema

open Lexer Cursor Reader

/-! ### Keywords and punctuation -/

theorem Token.punct_lexical {c : Char} (hb : isBlank c = false) (hw : isWordStart c = false)
    (hd : c.isDigit = false) (hq : c ∉ ['\x27', '"', Token.backquote, '[']) (hk : symbolKind c = .punct) :
    (⟨String.singleton c, .punct⟩ : Token).Lexical :=
  hk ▸ symbol_lexical hb hw hd hq

/-- A character of punctuation that starts no other token is read as itself. -/
theorem tokens_punct_cons {c : Char} (hb : isBlank c = false) (hw : isWordStart c = false)
    (hd : c.isDigit = false) (hq : c ∉ ['\x27', '"', Token.backquote, '[']) (hk : symbolKind c = .punct)
    (rest : List Char) : tokens (c :: rest) = ⟨String.singleton c, .punct⟩ :: tokens rest :=
  Expr.tokens_punct (Token.punct_lexical hb hw hd hq hk) rest

theorem tokens_openParen (rest : List Char) : tokens ('(' :: rest) = ⟨"(", .punct⟩ :: tokens rest :=
  tokens_punct_cons (by decide) (by decide) (by decide) (by decide) (by decide) rest

theorem tokens_closeParen (rest : List Char) : tokens (')' :: rest) = ⟨")", .punct⟩ :: tokens rest :=
  tokens_punct_cons (by decide) (by decide) (by decide) (by decide) (by decide) rest

theorem tokens_comma (rest : List Char) : tokens (',' :: rest) = Token.comma :: tokens rest :=
  tokens_punct_cons (by decide) (by decide) (by decide) (by decide) (by decide) rest

/-- A keyword after a blank is read as a bare word of its kind, before any text that cannot continue
    it. -/
theorem tokens_blank_word {c : Char} (hc : isBlank c = true) {w : String} {k : TokenKind}
    (hw : IsWord w.toList) (hk : wordKind w = k) {s : List Char} (hs : ∀ c ∈ s.head?, EndsWord c) :
    tokens (c :: (w.toList ++ s)) = ⟨w, k⟩ :: tokens s := by
  rw [tokens_blank hc, tokens_word_append hw hk hs]

/-- Characters that end every token: blanks, `,` and `)`. -/
def Separates (c : Char) : Prop :=
  isBlank c = true ∨ c = ',' ∨ c = ')'

theorem Separates.stopsAt {c : Char} (h : Separates c) (t : Token) : t.StopsAt c := by
  rcases h with hb | rfl | rfl
  · exact t.stopsAt_blank hb
  · exact t.stopsAt_separator (.inr (.inr rfl))
  · exact t.stopsAt_separator (.inr (.inl rfl))

theorem Separates.endsWord {c : Char} (h : Separates c) : EndsWord c :=
  h.stopsAt ⟨"A", .word⟩

/-- The keywords of a column's text, and the ones a column constraint looks for before them. -/
theorem isKeyword_not : ∀ kw ∈ ["CONSTRAINT", "PRIMARY"], (⟨"NOT", .operator⟩ : Token).isKeyword kw = false := by
  simp [Token.isKeyword, sameWord_eq]

theorem isKeyword_default : ∀ kw ∈ ["CONSTRAINT", "PRIMARY", "NOT", "NULL", "UNIQUE", "CHECK"],
    (⟨"DEFAULT", .word⟩ : Token).isKeyword kw = false := by
  simp [Token.isKeyword, sameWord_eq]

theorem isKeyword_self : (⟨"NOT", .operator⟩ : Token).isKeyword "NOT" = true ∧
    (⟨"NULL", .word⟩ : Token).isKeyword "NULL" = true ∧ (⟨"DEFAULT", .word⟩ : Token).isKeyword "DEFAULT" = true := by
  simp [Token.isKeyword, sameWord_eq]

theorem tokens_notNull {s : List Char} (hs : ∀ c ∈ s.head?, EndsWord c) :
    Lexer.tokens (" NOT NULL".toList ++ s) = ⟨"NOT", .operator⟩ :: ⟨"NULL", .word⟩ :: Lexer.tokens s := by
  have hblank : ∀ c ∈ (' ' :: ("NULL".toList ++ s)).head?, EndsWord c := fun c hc => by
    simp only [List.head?_cons, Option.mem_def, Option.some.injEq] at hc
    exact hc ▸ Separates.endsWord (c := ' ') (Or.inl (by decide))
  rw [show " NOT NULL".toList ++ s = ' ' :: ("NOT".toList ++ ' ' :: ("NULL".toList ++ s)) by simp,
    tokens_blank_word (k := .operator) (by decide) (by simp [IsWord, isWordStart, isWordChar])
      (by simp [wordKind, operatorWords, sameWord_eq]) hblank,
    tokens_blank_word (k := .word) (by decide) (by simp [IsWord, isWordStart, isWordChar])
      (by simp [wordKind, operatorWords, closerWords, sameWord_eq]) hs]

theorem tokens_default (s : List Char) :
    Lexer.tokens (" DEFAULT ".toList ++ s) = ⟨"DEFAULT", .word⟩ :: Lexer.tokens s := by
  have hblank : ∀ c ∈ (' ' :: s).head?, EndsWord c := fun c hc => by
    simp only [List.head?_cons, Option.mem_def, Option.some.injEq] at hc
    exact hc ▸ Separates.endsWord (c := ' ') (Or.inl (by decide))
  rw [show " DEFAULT ".toList ++ s = ' ' :: ("DEFAULT".toList ++ ' ' :: s) by simp,
    tokens_blank_word (k := .word) (by decide) (by simp [IsWord, isWordStart, isWordChar])
      (by simp [wordKind, operatorWords, closerWords, sameWord_eq]) hblank,
    tokens_blank (by decide)]

/-! ### Signed numbers -/

namespace SignedNumber

/-- The tokens of a signed number's text: its sign, if any, and its number. -/
def tokens (n : SignedNumber) : List Token :=
  n.sign.toList ++ [n.number]

/-- A sign does not run into anything but a second `-`, which would open a comment. -/
theorem sign_stopsAt {s : Token} (hs : s = ⟨"-", .operator⟩ ∨ s = ⟨"+", .operator⟩) {c : Char} (hc : c ≠ '-') :
    s.StopsAt c := by
  rcases hs with rfl | rfl <;> simp [Token.StopsAt, pairOperators, isWordStart, hc]

theorem number_head (n : SignedNumber) : ∃ c r, n.number.text.toList = c :: r ∧ c ≠ '-' := by
  have h := n.lexical
  rw [Token.Lexical, n.numeric] at h
  cases hcr : n.number.text.toList with
  | nil => rw [hcr] at h; exact h.elim
  | cons c r =>
    rw [hcr] at h
    refine ⟨c, r, rfl, ?_⟩
    rintro rfl
    rcases h.1 with hd | ⟨hp, -⟩ <;> simp at *

theorem render_number (n : SignedNumber) : n.number.render = n.number.text := by
  simp [Token.render, n.numeric]

/-- A signed number is read back as its sign and number, before a character that ends every token. -/
theorem tokens_text_append (n : SignedNumber) {s : List Char} (hs : ∀ c ∈ s.head?, Separates c) :
    Lexer.tokens (n.text.toList ++ s) = n.tokens ++ Lexer.tokens s := by
  have hnum : Lexer.tokens (n.number.text.toList ++ s) = n.number :: Lexer.tokens s := by
    rw [← render_number]
    exact tokens_render_append n.lexical fun c hc => (hs c hc).stopsAt _
  cases hsign : n.sign with
  | none => simp [text, tokens, hsign, hnum]
  | some sign =>
    have hsgn := n.sign_eq sign (by simp [hsign])
    obtain ⟨c, r, hcr, hc⟩ := n.number_head
    have hrender : sign.render = sign.text := by rcases hsgn with rfl | rfl <;> rfl
    have hsign_text : (sign.text.toList ++ (n.number.text.toList ++ s)) =
        sign.render.toList ++ (n.number.text.toList ++ s) := by rw [hrender]
    simp only [text, tokens, hsign, Option.map_some, Option.getD_some, String.toList_append,
      List.append_assoc, Option.toList_some, List.cons_append]
    rw [hsign_text, tokens_render_append (Token.lexical_sign hsgn), hnum]
    · rfl
    · intro x hx
      rw [hcr] at hx
      cases hx
      exact sign_stopsAt hsgn hc

/-- A signed number's tokens are read as its text. -/
theorem signedNumber_tokens (n : SignedNumber) (rest : List Token) :
    signedNumber (n.tokens ++ rest) = .ok (n.text, rest) := by
  obtain ⟨sign, t, hsign, hk, ht⟩ := n
  cases sign with
  | none => simp [tokens, text, signedNumber, peek?_bind, Token.isOperator, hk]
  | some s =>
    rcases hsign s rfl with rfl | rfl <;> simp [tokens, text, signedNumber, peek?_bind, Token.isOperator, hk]

end SignedNumber

/-! ### Types -/

namespace TypeSpelling

/-- The tokens of a type's size: one number in parentheses, or two separated by a comma. -/
def sizeTokens : Option (SignedNumber × Option SignedNumber) → List Token
  | none => []
  | some (a, b) => ⟨"(", .punct⟩ :: a.tokens ++ (b.map fun b => Token.comma :: b.tokens).getD [] ++ [⟨")", .punct⟩]

/-- The tokens of a type's text: its words, then its size. -/
def tokens (sp : TypeSpelling) : List Token :=
  sp.words ++ sizeTokens sp.size

/-- No word of a type runs into the parenthesis of its size. -/
theorem stopsAt_openParen {w : Token} (h : isTypeWord w = true) : w.StopsAt '(' := by
  obtain ⟨text, kind⟩ := w
  cases kind <;> simp_all [isTypeWord, Token.StopsAt, EndsWord, isWordChar]
  -- a bare word stops at `(`, which continues no word
  decide

/-- Words joined by blanks are read back as the words. -/
theorem tokens_words_append {ws : List Token} (hw : ∀ w ∈ ws, w.Lexical) {s : List Char}
    (hs : ∀ c ∈ s.head?, ∀ w ∈ ws, w.StopsAt c) :
    Lexer.tokens ((" ".intercalate (ws.map Token.render)).toList ++ s) = ws ++ Lexer.tokens s := by
  induction ws with
  | nil => simp
  | cons w ws ih =>
    have hw' : ∀ w ∈ ws, w.Lexical := fun x hx => hw x (List.mem_cons_of_mem _ hx)
    have hs' : ∀ c ∈ s.head?, ∀ w ∈ ws, w.StopsAt c := fun c hc x hx => hs c hc x (List.mem_cons_of_mem _ hx)
    cases ws with
    | nil =>
      simpa using tokens_render_append (hw w List.mem_cons_self) fun c hc => hs c hc w List.mem_cons_self
    | cons w' ws =>
      have htext : (" ".intercalate ((w :: w' :: ws).map Token.render)).toList ++ s =
          w.render.toList ++ ' ' :: ((" ".intercalate ((w' :: ws).map Token.render)).toList ++ s) := by
        simp [String.intercalate_cons_cons]
      have hblank : ∀ c ∈ (' ' :: ((" ".intercalate ((w' :: ws).map Token.render)).toList ++ s)).head?,
          w.StopsAt c := fun c hc => by
        simp only [List.head?_cons, Option.mem_def, Option.some.injEq] at hc
        exact hc ▸ w.stopsAt_blank (by decide)
      rw [htext, tokens_render_append (hw w List.mem_cons_self) hblank, tokens_blank (by decide), ih hw' hs']
      rfl

/-- A type is read back as its words and its size, before a character that ends every token. -/
theorem tokens_text_append (sp : TypeSpelling) {s : List Char} (hs : ∀ c ∈ s.head?, Separates c) :
    Lexer.tokens (sp.text.toList ++ s) = sp.tokens ++ Lexer.tokens s := by
  have hlex : ∀ w ∈ sp.words, w.Lexical := fun w hw => (sp.typeWord w hw).2
  obtain ⟨words, size, hne, hw⟩ := sp
  cases size with
  | none =>
    simpa [text, tokens, sizeTokens] using
      tokens_words_append hlex fun c hc w _ => (hs c hc).stopsAt w
  | some ab =>
    obtain ⟨a, b⟩ := ab
    -- after the words, the size: its numbers end at the comma or the closing parenthesis
    have hsize : Lexer.tokens ('(' :: (a.text.toList ++
        (((b.map fun b => "," ++ b.text).getD "").toList ++ ')' :: s))) =
        sizeTokens (some (a, b)) ++ Lexer.tokens s := by
      rw [tokens_openParen]
      cases b with
      | none =>
        simp only [Option.map_none, Option.getD_none, String.toList_empty, List.nil_append]
        rw [a.tokens_text_append (by simp [Separates]), tokens_closeParen]
        simp [sizeTokens]
      | some b =>
        have hcomma : (((some b).map fun b => "," ++ b.text).getD "").toList ++ ')' :: s =
            ',' :: (b.text.toList ++ ')' :: s) := by simp
        rw [hcomma, a.tokens_text_append (by simp [Separates]), tokens_comma,
          b.tokens_text_append (by simp [Separates]), tokens_closeParen]
        simp [sizeTokens]
    have htext : (TypeSpelling.mk words (some (a, b)) hne hw).text.toList ++ s =
        (" ".intercalate (words.map Token.render)).toList ++ ('(' :: (a.text.toList ++
          (((b.map fun b => "," ++ b.text).getD "").toList ++ ')' :: s))) := by
      simp [text]
    rw [htext, tokens_words_append hlex (fun c hc w hw' => by
        simp only [List.head?_cons, Option.mem_def, Option.some.injEq] at hc
        exact hc ▸ stopsAt_openParen (hw w hw').1), hsize]
    simp [tokens]

/-- The reader takes a spelling's words up to the first token that is not a type word. -/
theorem takeWhile_typeWord {ws rest : List Token} (hw : ∀ w ∈ ws, isTypeWord w = true)
    (hr : ∀ t ∈ rest.head?, isTypeWord t = false) :
    (ws ++ rest).takeWhile isTypeWord = ws ∧ (ws ++ rest).dropWhile isTypeWord = rest := by
  rw [List.takeWhile_append_of_pos hw, List.dropWhile_append_of_pos hw]
  cases rest with
  | nil => simp
  | cons t r =>
    have ht : ¬ isTypeWord t = true := by simp [hr t rfl]
    simp [List.takeWhile_cons_of_neg ht, List.dropWhile_cons_of_neg ht]

/-- The words of a spelling are not empty, and neither is their text. -/
theorem words_isEmpty (sp : TypeSpelling) : (" ".intercalate (sp.words.map Token.render)).isEmpty = false := by
  obtain ⟨words, size, hne, htw⟩ := sp
  obtain ⟨w, ws, rfl⟩ := List.exists_cons_of_ne_nil hne
  have hw : w.render.toList ≠ [] := (htw w List.mem_cons_self).2.render_ne_nil
  cases ws with
  | nil => simpa [← String.toList_eq_nil_iff] using hw
  | cons w' ws => simp [String.intercalate_cons_cons, ← String.toList_eq_nil_iff, hw]

theorem text_isEmpty (sp : TypeSpelling) : sp.text.isEmpty = false := by
  have h := sp.words_isEmpty
  rw [Bool.eq_false_iff] at h ⊢
  intro he
  apply h
  rw [String.isEmpty_iff, ← String.toList_eq_nil_iff] at he ⊢
  rw [text, String.toList_append] at he
  exact (List.append_eq_nil_iff.mp he).1

/-- A spelling's tokens are read as its text, before a token that is not a type word, and that is
    not an opening parenthesis when the spelling has no size. -/
theorem typeName_tokens (sp : TypeSpelling) {rest : List Token}
    (hw : ∀ t ∈ rest.head?, isTypeWord t = false)
    (hp : sp.size = none → ∀ t ∈ rest.head?, t.isPunct '(' = false) :
    typeName (sp.tokens ++ rest) = .ok (sp.text, rest) := by
  obtain ⟨words, size, hne, htw⟩ := sp
  have hnext : ∀ t ∈ (sizeTokens size ++ rest).head?, isTypeWord t = false := by
    cases size with
    | none => simpa [sizeTokens] using hw
    | some ab => simp [sizeTokens, isTypeWord]
  obtain ⟨htake, hdrop⟩ := takeWhile_typeWord (fun w hw => (htw w hw).1) hnext
  -- the words are not empty, so neither is their text and the size is looked for
  have hbase := (TypeSpelling.mk words size hne htw).words_isEmpty
  rw [typeName, bind_of_ok (takeWhile_apply _ _)]
  simp only [tokens, List.append_assoc, htake, hdrop, hbase, Bool.false_eq_true, ↓reduceIte, eatPunct, pure_bind]
  cases size with
  | none =>
    rw [sizeTokens, List.nil_append, bind_of_ok (eatIf_of_false (hp rfl))]
    simp [text]
  | some ab =>
    obtain ⟨a, b⟩ := ab
    have hopen : (⟨"(", .punct⟩ : Token).isPunct '(' = true := rfl
    have hclose : (⟨")", .punct⟩ : Token).isPunct ')' = true := rfl
    simp only [sizeTokens, List.cons_append, List.append_assoc]
    rw [bind_of_ok (eatIf_of_true hopen _), if_pos rfl, bind_of_ok (a.signedNumber_tokens _)]
    cases b with
    | none =>
      rw [Option.map_none, Option.getD_none, List.nil_append, List.nil_append,
        bind_of_ok (eatIf_of_false (by simp [Token.isPunct])), if_neg (by simp)]
      rw [bind_of_ok (expectPunct_cons hclose rest)]
      simp [text, String.append_assoc]
    | some b =>
      rw [Option.map_some, Option.getD_some, List.cons_append, bind_of_ok (eatIf_of_true rfl _), if_pos rfl,
        bind_of_ok (b.signedNumber_tokens _), List.nil_append,
        bind_of_ok (expectPunct_cons hclose rest)]
      simp [text, String.append_assoc]

end TypeSpelling

/-- Before a token that is not a type word, no type is read. -/
theorem typeName_none {ts : List Token} (hw : ∀ t ∈ ts.head?, isTypeWord t = false) :
    typeName ts = .ok ("", ts) := by
  obtain ⟨htake, hdrop⟩ := @TypeSpelling.takeWhile_typeWord [] ts (by simp) hw
  rw [List.nil_append] at htake hdrop
  rw [typeName, bind_of_ok (takeWhile_apply _ _)]
  simp [htake, hdrop]

/-! ### Defaults -/

/-- An operand of the grammar is read back from its tokens, before a token it may end before. -/
theorem Cursor.operand_tokens {e : Expr} (h : Expr.Operand Expr.Limits.standard 0 e) {rest : List Token}
    (hend : Expr.EndsBefore e rest.head?) (context : String) :
    Cursor.operand context (e.tokens ++ rest) = .ok (e, rest) := by
  obtain ⟨h', hread⟩ := (Expr.read_tokens e).1 h hend
  simp [Cursor.operand, Expr.readOperand, hread]

section Default

variable {g : Field}

theorem defaultClause_string (d : String) (rest : List Token) :
    defaultClause g (⟨d, .string⟩ :: rest) = .ok ({ g with defaultValue := some d, defaultIsQuoted := true }, rest) := by
  simp [defaultClause, peek?_bind, Token.isPunct, Token.isOperator]

/-- A word or a blob is taken as the literal it is written as. -/
theorem defaultClause_literal {t : Token} (hk : t.kind = .word ∨ t.kind = .blob) (rest : List Token) :
    defaultClause g (t :: rest) = .ok ({ g with defaultValue := some t.render }, rest) := by
  rcases hk with hk | hk <;> simp [defaultClause, peek?_bind, Token.isPunct, Token.isOperator, Token.render, hk]

theorem defaultClause_number (n : SignedNumber) (rest : List Token) :
    defaultClause g (n.tokens ++ rest) = .ok ({ g with defaultValue := some n.text }, rest) := by
  have hread := n.signedNumber_tokens rest
  obtain ⟨sign, t, hsign, hk, ht⟩ := n
  cases sign with
  | none => simp [defaultClause, peek?_bind, Token.isPunct, Token.isOperator, hk, SignedNumber.tokens, SignedNumber.text]
  | some s =>
    simp only [SignedNumber.tokens, Option.toList_some, List.cons_append, List.nil_append] at hread ⊢
    rcases hsign s rfl with rfl | rfl <;>
      simp [defaultClause, peek?_bind, Token.isPunct, Token.isOperator, map_of_ok hread]

/-- A group is taken as an expression default, and keeps the text of its inside. -/
theorem defaultClause_group {e : Expr} (h : Expr.Operand Expr.Limits.standard 0 (.paren e)) (rest : List Token) :
    defaultClause g ((Expr.paren e).tokens ++ rest) =
      .ok ({ g with defaultValue := some e.render, defaultIsExpression := true }, rest) := by
  have hread := @Cursor.operand_tokens (.paren e) h rest (Expr.EndsBefore.of_lastToken_none rfl _) "DEFAULT value"
  have hhead : ((Expr.paren e).tokens ++ rest).head? = some ⟨"(", .punct⟩ := rfl
  have hopen : (⟨"(", .punct⟩ : Token).isPunct '(' = true := rfl
  simp only [defaultClause, peek?_bind, hhead]
  rw [if_pos hopen, bind_of_ok hread]
  rfl

/-- A default is read back from its text in the form its flags choose, into a field with neither
    flag, before a character that ends every token. A default flagged both quoted and a group is
    written quoted, so it comes back quoted only. -/
theorem defaultClause_text {f : Field} {d : String} (hv : f.defaultValue = some d) (hd : f.DefaultText)
    (hg : g.defaultIsQuoted = false ∧ g.defaultIsExpression = false) {s : List Char}
    (hs : ∀ c ∈ s.head?, Separates c) :
    ∃ vts, Lexer.tokens ((if f.defaultIsQuoted then Quoted.enquote Token.apostrophe d
        else if f.defaultIsExpression then "(" ++ d ++ ")" else d).toList ++ s) = vts ++ Lexer.tokens s ∧
      defaultClause g (vts ++ Lexer.tokens s) = .ok
        ({ g with defaultValue := some d, defaultIsQuoted := f.defaultIsQuoted,
                  defaultIsExpression := f.defaultIsExpression && !f.defaultIsQuoted }, Lexer.tokens s) := by
  obtain ⟨name, typeName, value, expr, quoted, inKey, inc, notNull⟩ := g
  obtain ⟨rfl, rfl⟩ : quoted = false ∧ expr = false := hg
  rw [Field.DefaultText, hv] at hd
  cases hq : f.defaultIsQuoted with
  | true =>
    -- a quoted default is one string token
    have hstring : Quoted.enquote Token.apostrophe d = (⟨d, .string⟩ : Token).render := rfl
    refine ⟨[⟨d, .string⟩], ?_, ?_⟩
    · rw [if_pos rfl, hstring, tokens_render_append (show (⟨d, .string⟩ : Token).Lexical from trivial)
        fun c hc => (hs c hc).stopsAt _]
      rfl
    · rw [List.singleton_append, defaultClause_string]
      simp
  | false =>
    rcases hd with hq' | ⟨he, e, hop, hlex, rfl⟩ | ⟨he, hlit⟩
    · simp [hq] at hq'
    · -- a group is the tokens of a parenthesised tree
      have hparen : "(" ++ e.render ++ ")" = (Expr.paren e).render := rfl
      have hlex' : ∀ t ∈ (Expr.paren e).tokens, t.Lexical := by
        simp only [Expr.tokens, List.cons_append, List.mem_cons, List.mem_append, List.not_mem_nil, or_false]
        rintro t (rfl | ht | rfl)
        · exact Token.punct_lexical (c := '(') (by decide) (by decide) (by decide) (by decide) (by decide)
        · exact hlex t ht
        · exact Token.punct_lexical (c := ')') (by decide) (by decide) (by decide) (by decide) (by decide)
      refine ⟨(Expr.paren e).tokens, ?_, ?_⟩
      · rw [if_neg (by simp), if_pos he, hparen]
        exact Expr.lex_render_append (.paren e) (hop.chain : Expr.Chain Expr.Limits.standard 0 [] false (.paren e)) hlex'
          (fun _ _ => trivial)
      · rw [defaultClause_group hop]
        simp [he]
    · rw [if_neg (by simp), if_neg (by simp [he])]
      cases hlit with
      | token t hk ht =>
        refine ⟨[t], tokens_render_append ht fun c hc => (hs c hc).stopsAt _, ?_⟩
        rw [List.singleton_append, defaultClause_literal hk]
        simp [he]
      | number n =>
        refine ⟨n.tokens, n.tokens_text_append hs, ?_⟩
        rw [defaultClause_number]
        simp [he]

end Default

/-! ### A column's text in pieces -/

namespace Field

/-- The text of a column's type, after a tab, when it declares one. -/
def typeSql (f : Field) : String :=
  if f.typeName.isEmpty then "" else "\t" ++ f.typeName

/-- The text of a column's `NOT NULL`. -/
def notNullSql (f : Field) : String :=
  if f.notNull then " NOT NULL" else ""

/-- The text of a column's default: after its keyword, quoted, in parentheses, or as it is. -/
def defaultSql (f : Field) : String :=
  match f.defaultValue with
  | some d => " DEFAULT " ++
      (if f.defaultIsQuoted then Quoted.enquote Token.apostrophe d else if f.defaultIsExpression then "(" ++ d ++ ")" else d)
  | none => ""

theorem toSql_eq (f : Field) : f.toSql = "\t" ++ quoteIdentifier f.name ++ f.typeSql ++ f.notNullSql ++ f.defaultSql :=
  rfl

end Field

/-! ### Column constraints -/

/-- The token after a column: the comma before the next element, or the closing parenthesis. -/
def EndsColumn (t : Token) : Prop :=
  t = Token.comma ∨ t = ⟨")", .punct⟩

theorem EndsColumn.kind {t : Token} (h : EndsColumn t) : t.kind = .punct := by
  rcases h with rfl | rfl <;> rfl

/-- A piece of text that is empty or starts with a blank keeps the text after it separated. -/
theorem separates_append {p : String} (hp : p = "" ∨ ∃ c r, p.toList = c :: r ∧ isBlank c = true)
    {s : List Char} (hs : ∀ c ∈ s.head?, Separates c) : ∀ c ∈ (p.toList ++ s).head?, Separates c := by
  rcases hp with rfl | ⟨c, r, hcr, hc⟩
  · simpa using hs
  · rw [hcr]
    intro x hx
    simp only [List.cons_append, List.head?_cons, Option.mem_def, Option.some.injEq] at hx
    exact hx ▸ .inl hc

namespace Field

theorem typeSql_blank (f : Field) : f.typeSql = "" ∨ ∃ c r, f.typeSql.toList = c :: r ∧ isBlank c = true := by
  rw [typeSql]
  split
  · exact .inl rfl
  · exact .inr ⟨'\t', f.typeName.toList, by simp, by decide⟩

theorem notNullSql_blank (f : Field) : f.notNullSql = "" ∨ ∃ c r, f.notNullSql.toList = c :: r ∧ isBlank c = true := by
  rw [notNullSql]
  split
  · exact .inr ⟨' ', "NOT NULL".toList, by simp, by decide⟩
  · exact .inl rfl

theorem defaultSql_blank (f : Field) : f.defaultSql = "" ∨ ∃ c r, f.defaultSql.toList = c :: r ∧ isBlank c = true := by
  rw [defaultSql]
  split
  · exact .inr ⟨' ', _, by simp; rfl, by decide⟩
  · exact .inl rfl

end Field

section Constraints

variable {g : Field}

/-- Punctuation, or the end of the text, opens no column constraint. -/
theorem columnConstraint_stop {ts : List Token} (h : ∀ t ∈ ts.head?, t.kind = .punct) :
    columnConstraint g ts = .ok ((g, false), ts) := by
  cases ts with
  | nil => simp [columnConstraint, eatKeyword, eatAnyKeyword, eatIf_bind]
  | cons t r =>
    have hk : t.kind = .punct := h t rfl
    simp [columnConstraint, eatKeyword, eatAnyKeyword, eatIf_bind, Token.isKeyword, hk]

theorem columnConstraint_notNull {rest : List Token} (h : ∀ t ∈ rest.head?, t.isKeyword "ON" = false) :
    columnConstraint g (⟨"NOT", .operator⟩ :: ⟨"NULL", .word⟩ :: rest) =
      .ok (({ g with notNull := true }, true), rest) := by
  have hon : rest.head?.any (·.isKeyword "ON") = false := by
    cases rest with
    | nil => rfl
    | cons t r => simpa using h t rfl
  simp [columnConstraint, eatKeyword, eatAnyKeyword, eatIf_bind, isKeyword_not, isKeyword_self, conflictClause,
    expectKeyword, hon]

theorem columnConstraint_default {dts rest : List Token} {g' : Field} (hd : defaultClause g dts = .ok (g', rest)) :
    columnConstraint g (⟨"DEFAULT", .word⟩ :: dts) = .ok ((g', true), rest) := by
  simp [columnConstraint, eatKeyword, eatAnyKeyword, eatIf_bind, isKeyword_default, isKeyword_self, map_of_ok hd]

/-- A column's default lexes as `DEFAULT` and its value, and is read back by one round of
    constraints; the token after the column ends the loop. -/
theorem constraints_default_text {f : Field} (hd : f.DefaultText) (hgv : g.defaultValue = none)
    (hg : g.defaultIsQuoted = false ∧ g.defaultIsExpression = false) {s : List Char}
    (hs : ∀ c ∈ s.head?, Separates c) (hnext : ∀ t ∈ (Lexer.tokens s).head?, EndsColumn t) :
    ∃ dts, Lexer.tokens (f.defaultSql.toList ++ s) = dts ++ Lexer.tokens s ∧
      (∀ t ∈ (dts ++ Lexer.tokens s).head?, t = ⟨"DEFAULT", .word⟩ ∨ EndsColumn t) ∧
      repeatWhile columnConstraint g (dts ++ Lexer.tokens s) = .ok
        ({ g with defaultValue := f.defaultValue, defaultIsQuoted := f.defaultIsQuoted,
                  defaultIsExpression := f.defaultIsExpression && !f.defaultIsQuoted }, Lexer.tokens s) := by
  have hpunct : ∀ t ∈ (Lexer.tokens s).head?, t.kind = .punct := fun t ht => (hnext t ht).kind
  rw [Field.defaultSql]
  cases hv : f.defaultValue with
  | none =>
    rw [Field.DefaultText, hv] at hd
    refine ⟨[], by simp, by simpa using fun t ht => .inr (hnext t ht), ?_⟩
    obtain ⟨name, typeName, value, expr, quoted, inKey, inc, notNull⟩ := g
    obtain ⟨rfl, rfl⟩ := hg
    simp only at hgv
    subst hgv
    rw [List.nil_append, repeatWhile_last (columnConstraint_stop hpunct)]
    simp [hd.1, hd.2]
  | some d =>
    obtain ⟨vts, hvts, hread⟩ := defaultClause_text hv hd hg hs
    refine ⟨⟨"DEFAULT", .word⟩ :: vts, ?_, by simp, ?_⟩
    · rw [String.toList_append, List.append_assoc, tokens_default, hvts, List.cons_append]
    · rw [List.cons_append, repeatWhile_more (columnConstraint_default hread) (by simp),
        repeatWhile_last (columnConstraint_stop hpunct)]

/-- The constraints of a column's text, `NOT NULL` and then its default, lex as their keywords and
    values, and are read back into the column with its key flags cleared. -/
theorem constraints_text {f : Field} (hd : f.DefaultText) {s : List Char} (hs : ∀ c ∈ s.head?, Separates c)
    (hnext : ∀ t ∈ (Lexer.tokens s).head?, EndsColumn t) :
    ∃ cts, Lexer.tokens ((f.notNullSql ++ f.defaultSql).toList ++ s) = cts ++ Lexer.tokens s ∧
      (∀ t ∈ (cts ++ Lexer.tokens s).head?, t = ⟨"NOT", .operator⟩ ∨ t = ⟨"DEFAULT", .word⟩ ∨ EndsColumn t) ∧
      repeatWhile columnConstraint { name := f.name, typeName := f.typeName } (cts ++ Lexer.tokens s) =
        .ok (f.canonical false false, Lexer.tokens s) := by
  obtain ⟨dts, hdts, hhead, hread⟩ :=
    constraints_default_text (g := { name := f.name, typeName := f.typeName, notNull := f.notNull }) hd rfl
      ⟨rfl, rfl⟩ hs hnext
  have hresult : ({ ({ name := f.name, typeName := f.typeName, notNull := f.notNull } : Field) with
      defaultValue := f.defaultValue, defaultIsQuoted := f.defaultIsQuoted,
      defaultIsExpression := f.defaultIsExpression && !f.defaultIsQuoted }) = f.canonical false false := by
    cases f
    rfl
  rw [hresult] at hread
  rw [String.toList_append, List.append_assoc, Field.notNullSql]
  cases hn : f.notNull with
  | false =>
    rw [hn] at hread
    exact ⟨dts, by simpa using hdts, fun t ht => .inr (hhead t ht), hread⟩
  | true =>
    -- the `NOT NULL` round, then the default's
    rw [hn] at hread
    have hword : ∀ c ∈ (f.defaultSql.toList ++ s).head?, EndsWord c :=
      fun c hc => (separates_append f.defaultSql_blank hs c hc).endsWord
    have hon : ∀ t ∈ (dts ++ Lexer.tokens s).head?, t.isKeyword "ON" = false := fun t ht => by
      rcases hhead t ht with rfl | rfl | rfl <;> simp [Token.isKeyword, Token.comma, sameWord_eq]
    refine ⟨⟨"NOT", .operator⟩ :: ⟨"NULL", .word⟩ :: dts, ?_, by simp, ?_⟩
    · rw [if_pos rfl, tokens_notNull hword, hdts]
      rfl
    · rw [List.cons_append, List.cons_append,
        repeatWhile_more (columnConstraint_notNull hon) (by simp only [List.length_cons]; omega)]
      exact hread

end Constraints

/-! ### Columns -/

/-- A column's type lexes as its spelling's tokens, and is read back before a token that is neither a
    type word nor an opening parenthesis. -/
theorem typeSql_text {f : Field} (hf : TypeText f.typeName) {s : List Char} (hs : ∀ c ∈ s.head?, Separates c) :
    ∃ tts, Lexer.tokens (f.typeSql.toList ++ s) = tts ++ Lexer.tokens s ∧
      ∀ rest : List Token, (∀ t ∈ rest.head?, isTypeWord t = false ∧ t.isPunct '(' = false) →
        typeName (tts ++ rest) = .ok (f.typeName, rest) := by
  rcases hf with hty | ⟨sp, hsp⟩
  · refine ⟨[], by simp [Field.typeSql, hty], fun rest hrest => ?_⟩
    rw [hty, List.nil_append]
    exact typeName_none fun t ht => (hrest t ht).1
  · refine ⟨sp.tokens, ?_, fun rest hrest => ?_⟩
    · rw [Field.typeSql, ← hsp, if_neg (by simp [sp.text_isEmpty]), String.toList_append, List.append_assoc,
        show "\t".toList = ['\t'] by simp, List.singleton_append, tokens_blank (c := '\t') (by decide),
        sp.tokens_text_append hs]
    · rw [← hsp]
      exact sp.typeName_tokens (fun t ht => (hrest t ht).1) fun _ t ht => (hrest t ht).2

/-- A printable column's line lexes as its quoted name and the tokens of its type and constraints, and
    is read back as the column with its key flags cleared, before the token that ends it. -/
theorem columnDef_toSql (u : Table) {f : Field} (hf : f.Printable) {s : List Char}
    (hs : ∀ c ∈ s.head?, Separates c) (hnext : ∀ t ∈ (Lexer.tokens s).head?, EndsColumn t) :
    ∃ fts, Lexer.tokens (f.toSql.toList ++ s) = ⟨f.name, .quoted⟩ :: (fts ++ Lexer.tokens s) ∧
      columnDef u (⟨f.name, .quoted⟩ :: (fts ++ Lexer.tokens s)) =
        .ok ({ u with fields := u.fields ++ [f.canonical false false] }, Lexer.tokens s) := by
  have hcs : ∀ c ∈ ((f.notNullSql ++ f.defaultSql).toList ++ s).head?, Separates c := by
    rw [String.toList_append, List.append_assoc]
    exact separates_append f.notNullSql_blank (separates_append f.defaultSql_blank hs)
  obtain ⟨cts, hcts, hhead, hloop⟩ := constraints_text hf.default hs hnext
  obtain ⟨tts, htts, htype⟩ := typeSql_text hf.typeName hcs
  have hstop : ∀ t ∈ (cts ++ Lexer.tokens s).head?, isTypeWord t = false ∧ t.isPunct '(' = false :=
    fun t ht => by rcases hhead t ht with rfl | rfl | rfl | rfl <;>
      simp [isTypeWord, columnConstraintWords, Token.isKeyword, Token.comma, sameWord_eq, Token.isPunct]
  have htext : f.toSql.toList ++ s = '\t' :: ((⟨f.name, .quoted⟩ : Token).render.toList ++
      (f.typeSql.toList ++ ((f.notNullSql ++ f.defaultSql).toList ++ s))) := by
    simp [Field.toSql_eq, quoteIdentifier, Token.render]
  refine ⟨tts ++ cts, ?_, ?_⟩
  · rw [htext, tokens_blank (by decide), tokens_render_append (show (⟨f.name, .quoted⟩ : Token).Lexical from trivial)
      fun c hc => (separates_append f.typeSql_blank hcs c hc).stopsAt _, htts, hcts, List.append_assoc]
  · rw [columnDef, bind_of_ok (expectName_cons rfl _), List.append_assoc, bind_of_ok (htype _ hstop),
      bind_of_ok hloop]
    simp [Field.canonical]

end SqlSchema
