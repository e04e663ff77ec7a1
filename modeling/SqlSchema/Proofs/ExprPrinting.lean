import SqlSchema.Proofs.ExprReading
import SqlSchema.Proofs.Lexing

/-! # Reading printed expressions back

The lexer reads the text that `Expr.render` writes for a tree of the grammar as the tree's tokens
(`tokenize_render`). Wherever two pieces of text meet, the printer's spacing keeps the token on the
left from running into what follows it (`Token.StopsAt`): a blank after a word, no `--` after a unary
`-`, no number swallowing a point. With the completeness of the reader this makes printing a right
inverse of reading, also once leaves other than callees are replaced by quoted names (`Requoted`),
which is what renaming a column does: `read_render_requoted`. -/

namespace SqlSchema.Token

open Lexer

/-- The source form of a token of the lexer's shape is never empty. -/
theorem Lexical.render_ne_nil {t : Token} (ht : t.Lexical) : t.render.toList ≠ [] := by
  obtain ⟨c, r, h, -⟩ := t.readBack ht (s := []) (by simp)
  simp [h]

end SqlSchema.Token

namespace SqlSchema.Expr

open Lexer

variable {lim : Limits} {d : Nat} {terms : List String} {commas : Bool}

/-- The last token written for a tree. -/
def lastPrinted : Expr → Token
  | .leaf t => t
  | .unary _ e => e.lastPrinted
  | .binary _ _ r => r.lastPrinted
  | .closing _ w => w
  | .call .. | .emptyCall _ | .paren _ => ⟨")", .punct⟩

/-- The text of a tree starts with the source form of its first token. -/
theorem firstToken_render_prefix (e : Expr) : e.firstToken.render.toList <+: e.render.toList := by
  induction e with
  | leaf t => exact List.prefix_refl _
  | unary op x _ =>
    simp only [render, firstToken]
    split <;> simp
  | binary l op x ihl _ =>
    simp only [render, firstToken]
    refine ihl.trans ?_
    split
    · simp
    split
    · simp
    split
    · split <;> simp
    · simp
  | closing x w ih => exact ih.trans (by simp [render])
  | call f a _ => simp [render, firstToken]
  | emptyCall f => simp [render, firstToken]
  | paren x _ => simp [render, firstToken, Token.render]

/-- No operand's source form starts with `=`, so no operator written against it becomes `!=`. -/
theorem OpensOperand.render_head_ne {t : Token} (h : OpensOperand t) (ht : t.Lexical) :
    ∀ c ∈ t.render.toList.head?, c ≠ '=' := by
  obtain ⟨text, kind⟩ := t
  intro c hc
  rcases h with h | ⟨hk, hu | hstar⟩ | hk
  · cases h
    simp [Token.render] at hc
    rw [← hc]
    decide
  · -- a unary operator: one of four symbols, or letters
    simp only at hk
    subst hk
    simp only [Token.render] at hc
    have hmem : c ∈ text.toList := List.mem_of_mem_head? hc
    simp only [isUnaryOperator, Bool.or_eq_true, beq_iff_eq] at hu
    rcases hu with (((rfl | rfl) | rfl) | rfl) | hl
    all_goals try (simp at hmem; rw [hmem]; decide)
    have halpha : c.isAlpha = true := by
      simp only [isLetters, String.all_bool_eq] at hl
      exact List.all_eq_true.mp hl c hmem
    rintro rfl
    simp at halpha
  · simp only at hk hstar
    subst hk hstar
    simp [Token.render] at hc
    rw [← hc]
    decide
  · -- a name or literal opens with its quote, bracket, `X`, word start, digit or point
    cases kind with
    | word =>
      obtain ⟨hw, -⟩ := ht
      cases htext : text.toList with
      | nil => rw [htext] at hw; exact hw.elim
      | cons a r =>
        rw [htext] at hw
        simp only [Token.render, htext, List.head?_cons, Option.mem_def, Option.some.injEq] at hc
        subst hc
        rintro rfl
        exact absurd hw.1 (by decide)
    | numeric =>
      simp only [Token.Lexical] at ht
      split at ht
      · rename_i a r htext
        simp only [Token.render, htext, List.head?_cons, Option.mem_def, Option.some.injEq] at hc
        subst hc
        rcases ht.1 with hd | ⟨rfl, -⟩
        · rintro rfl
          simp at hd
        · decide
      · exact ht.elim
    | quoted | backquoted | string | bracketed | blob =>
      simp [Token.render, Quoted.enquote] at hc
      rw [← hc]
      decide
    | operator | closer | punct => simp [TokenKind.isOperand, TokenKind.isIdentifier] at hk

/-- A unary operator of one symbol does not run into the operand written right after it, unless
    that operand starts with `-` (making `--`) or `=` (making `!=`). -/
theorem stopsAt_unary {op : Token} (hk : op.kind = .operator) (hu : isUnaryOperator op = true)
    (hl : isLetters op.text = false) {c : Char} (hm : c ≠ '-') (he : c ≠ '=') : op.StopsAt c := by
  obtain ⟨text, kind⟩ := op
  simp only at hk
  subst hk
  simp only [isUnaryOperator, hl, Bool.or_false, Bool.or_eq_true, beq_iff_eq] at hu
  rcases hu with ((rfl | rfl) | rfl) | rfl <;> simp [Token.StopsAt, pairOperators, isWordStart, hm, he]

/-- A point does not run into what follows it unless that is a digit. -/
theorem point_stopsAt {c : Char} (hd : c.isDigit = false) : (⟨".", .operator⟩ : Token).StopsAt c := by
  simp [Token.StopsAt, pairOperators, isWordStart, hd]

theorem stopsAt_openParen {t : Token} (hk : t.kind = .word) : t.StopsAt '(' := by
  simp only [Token.StopsAt, hk]
  exact ⟨by decide, by decide⟩

/-- A character of punctuation is read back as itself, whatever follows. -/
theorem tokens_punct {c : Char} (ht : (⟨String.singleton c, .punct⟩ : Token).Lexical) (rest : List Char) :
    Lexer.tokens (c :: rest) = ⟨String.singleton c, .punct⟩ :: Lexer.tokens rest := by
  have h := Lexer.tokens_render_append (s := rest) ht (fun _ _ => trivial)
  simpa [Token.render] using h

theorem firstToken_mem_tokens (e : Expr) : e.firstToken ∈ e.tokens := by
  obtain ⟨rest, h⟩ := tokens_eq_firstToken_cons e
  simp [h]

/-- The text of a tree starts with the first character of its first token. -/
theorem render_head (e : Expr) (hlex : e.firstToken.Lexical) :
    ∃ c rest, e.render.toList = c :: rest ∧ c ∈ e.firstToken.render.toList.head? := by
  obtain ⟨rest, hrest⟩ := e.firstToken_render_prefix
  cases hf : e.firstToken.render.toList with
  | nil => exact absurd hf hlex.render_ne_nil
  | cons c r => exact ⟨c, r ++ rest, by rw [← hrest, hf, List.cons_append], by simp⟩

/-- The last token printed for a chain is a number only when the chain ends in a leaf. -/
theorem Chain.lastToken_of_numeric {e : Expr} (h : Chain lim d terms commas e)
    (hn : e.lastPrinted.kind = .numeric) : e.lastToken? = some e.lastPrinted := by
  induction e generalizing d terms commas with
  | leaf t => rfl
  | unary op x ih =>
    rw [Chain, Operand] at h
    exact ih (Operand.chain h.2.2.2.2 : Chain lim (d + 1) [] false x) hn
  | binary l op x _ ihx =>
    rw [Chain] at h
    exact ihx (Operand.chain h.2.1 : Chain lim d [] false x) hn
  | closing x w _ =>
    rw [Chain] at h
    simp [lastPrinted, h.2.2.1] at hn
  | call | emptyCall | paren => simp [lastPrinted] at hn

/-- The lexer reads a tree of the grammar back from its text as the tree's tokens, and goes on with
    the text after it when that text does not run into the tree's last token. Induction on the tree;
    where two texts meet, the token on the left is read back by `Lexer.tokens_render_append`, so
    each case checks that the next character does not run into it. -/
theorem lex_render_append (e : Expr) :
    ∀ {d terms commas s}, Chain lim d terms commas e → (∀ t ∈ e.tokens, t.Lexical) →
      (∀ c ∈ s.head?, e.lastPrinted.StopsAt c) →
      Lexer.tokens (e.render.toList ++ s) = e.tokens ++ Lexer.tokens s := by
  induction e with
  | leaf t =>
    intro d terms commas s _ hlex hs
    exact Lexer.tokens_render_append (hlex t (by simp [tokens])) hs
  | unary op x ih =>
    intro d terms commas s h hlex hs
    rw [Chain, Operand] at h
    obtain ⟨-, -, hk, hu, hx⟩ := h
    have hop : op.Lexical := hlex op (by simp [tokens])
    have hxlex : ∀ t ∈ x.tokens, t.Lexical := fun t ht => hlex t (by simp [tokens, ht])
    have hrest : Lexer.tokens (x.render.toList ++ s) = x.tokens ++ Lexer.tokens s :=
      ih (Operand.chain hx : Chain lim (d + 1) [] false x) hxlex hs
    obtain ⟨c, rest, hxr, hc⟩ := x.render_head (hxlex _ x.firstToken_mem_tokens)
    simp only [render]
    split
    · -- set apart: an operator word, or an operand that starts with `-`
      rw [show (op.render ++ " " ++ x.render).toList ++ s = op.render.toList ++ (' ' :: (x.render.toList ++ s)) by
          simp,
        Lexer.tokens_render_append hop (fun c hc => op.stopsAt_separator (by simp at hc; exact .inl hc.symm)),
        tokens_blank (by decide), hrest]
      simp [tokens]
    · -- written against its operand, which starts with neither `-` nor `=`
      rename_i hsp
      simp only [Bool.or_eq_true, not_or, Bool.not_eq_true] at hsp
      have hminus : c ≠ '-' := by
        rintro rfl
        simp [hxr] at hsp
      have heq : c ≠ '=' := (Operand.opens hx).render_head_ne (hxlex _ x.firstToken_mem_tokens) c hc
      rw [String.toList_append, List.append_assoc,
        Lexer.tokens_render_append hop (fun c' hc' => ?_), hrest]
      · simp [tokens]
      · rw [hxr] at hc'
        simp only [List.cons_append, List.head?_cons, Option.mem_def, Option.some.injEq] at hc'
        subst hc'
        exact stopsAt_unary hk hu hsp.1 hminus heq
  | binary l op x ihl ihx =>
    intro d terms commas s h hlex hs
    rw [Chain] at h
    obtain ⟨hl, hx, -, hcase⟩ := h
    have hllex : ∀ t ∈ l.tokens, t.Lexical := fun t ht => hlex t (by simp [tokens, ht])
    have hxlex : ∀ t ∈ x.tokens, t.Lexical := fun t ht => hlex t (by simp [tokens, ht])
    have hrest : Lexer.tokens (x.render.toList ++ s) = x.tokens ++ Lexer.tokens s :=
      ihx (Operand.chain hx : Chain lim d [] false x) hxlex hs
    have hblank : ∀ rest, Lexer.tokens (l.render.toList ++ ' ' :: rest) = l.tokens ++ Lexer.tokens rest := by
      intro rest
      rw [ihl hl hllex (fun c hc => l.lastPrinted.stopsAt_separator (by simp at hc; exact .inl hc.symm)),
        tokens_blank (by decide)]
    rcases hcase with ⟨rfl, -, -⟩ | ⟨hk, -⟩ | ⟨rfl, -, -⟩
    · -- a comma and a blank
      have hcomma : Token.comma.Lexical := hlex _ (by simp [tokens, Token.comma, Token.juxtaposition])
      have hrender : (binary l Token.comma x).render = l.render ++ ", " ++ x.render := by
        simp [render, Token.comma]
      rw [hrender, show (l.render ++ ", " ++ x.render).toList ++ s =
          l.render.toList ++ (',' :: ' ' :: (x.render.toList ++ s)) by simp,
        ihl hl hllex (fun c hc => l.lastPrinted.stopsAt_separator (by simp at hc; exact .inr (.inr hc.symm))),
        tokens_punct (c := ',') hcomma, tokens_blank (by decide), hrest]
      simp [tokens, Token.comma, Token.juxtaposition]
    · -- an operator between blanks, or a point written close where nothing would run into it
      have hne : op ≠ Token.juxtaposition := by rintro rfl; simp [Token.juxtaposition] at hk
      have hop : op.Lexical := hlex op (by simp [tokens, hne])
      have hspaced : Lexer.tokens (l.render.toList ++ ' ' :: (op.render.toList ++ ' ' :: (x.render.toList ++ s))) =
          (binary l op x).tokens ++ Lexer.tokens s := by
        rw [hblank, Lexer.tokens_render_append hop (fun c hc => op.stopsAt_separator (by simp at hc; exact .inl hc.symm)),
          tokens_blank (by decide), hrest]
        simp [tokens, hne]
      by_cases hpoint : op.text = "."
      · obtain ⟨text, kind⟩ := op
        simp only at hk hpoint
        subst hk hpoint
        by_cases hsp : ((l.lastToken?.map (·.kind == .numeric)).getD false ||
            (x.render.toList.head?.map Char.isDigit).getD false) = true
        · have hrender : (binary l ⟨".", .operator⟩ x).render = l.render ++ " . " ++ x.render := by
            simp [render, hsp]
          rw [hrender, ← hspaced]
          simp [Token.render]
        · simp only [Bool.or_eq_true, not_or, Bool.not_eq_true] at hsp
          have hrender : (binary l ⟨".", .operator⟩ x).render = l.render ++ "." ++ x.render := by
            simp [render, hsp]
          -- the tree on the left does not end in a number, and the one on the right not in a digit
          have hlnum : l.lastPrinted.kind ≠ .numeric := by
            intro hn
            simp [Chain.lastToken_of_numeric hl hn, hn] at hsp
          obtain ⟨c, rest, hxr, -⟩ := x.render_head (hxlex _ x.firstToken_mem_tokens)
          have hdigit : c.isDigit = false := by simpa [hxr] using hsp.2
          rw [hrender, show (l.render ++ "." ++ x.render).toList ++ s = l.render.toList ++ ('.' :: (x.render.toList ++ s)) by
              simp,
            ihl hl hllex (fun c hc => by simp at hc; exact hc ▸ Token.stopsAt_point hlnum),
            show '.' :: (x.render.toList ++ s) = (Token.render ⟨".", .operator⟩).toList ++ (x.render.toList ++ s) by
              simp [Token.render],
            Lexer.tokens_render_append hop (fun c' hc' => by
              rw [hxr] at hc'
              simp only [List.cons_append, List.head?_cons, Option.mem_def, Option.some.injEq] at hc'
              exact hc' ▸ point_stopsAt hdigit),
            hrest]
          simp [tokens, hne]
      · have hrender : (binary l op x).render = l.render ++ " " ++ op.render ++ " " ++ x.render := by
          simp [render, hk, hpoint]
        rw [hrender, ← hspaced]
        simp
    · -- an operand written beside the tree, after a blank
      have hrender : (binary l Token.juxtaposition x).render = l.render ++ " " ++ x.render := by
        simp [render, Token.juxtaposition]
      rw [hrender, show (l.render ++ " " ++ x.render).toList ++ s = l.render.toList ++ ' ' :: (x.render.toList ++ s) by
          simp,
        hblank, hrest]
      simp [tokens]
  | closing x w ih =>
    intro d terms commas s h hlex hs
    rw [Chain] at h
    have hxlex : ∀ t ∈ x.tokens, t.Lexical := fun t ht => hlex t (by simp [tokens, ht])
    have hw : w.Lexical := hlex w (by simp [tokens])
    simp only [render]
    rw [show (x.render ++ " " ++ w.render).toList ++ s = x.render.toList ++ (' ' :: (w.render.toList ++ s)) by simp,
      ih h.1 hxlex (fun c hc => x.lastPrinted.stopsAt_separator (by simp at hc; exact .inl hc.symm)),
      tokens_blank (by decide), Lexer.tokens_render_append hw hs]
    simp [tokens]
  | call f a ih =>
    intro d terms commas s h hlex hs
    rw [Chain, Operand] at h
    obtain ⟨-, -, hk, ha⟩ := h
    have halex : ∀ t ∈ a.tokens, t.Lexical := fun t ht => hlex t (by simp [tokens, ht])
    simp only [render]
    rw [show (f.render ++ "(" ++ a.render ++ ")").toList ++ s =
        f.render.toList ++ ('(' :: (a.render.toList ++ (')' :: s))) by simp,
      Lexer.tokens_render_append (hlex f (by simp [tokens])) (fun c hc => by
        simp at hc; exact hc ▸ stopsAt_openParen hk),
      tokens_punct (hlex _ (by simp [tokens])),
      ih ha halex (fun c hc => a.lastPrinted.stopsAt_separator (by simp at hc; exact .inr (.inl hc.symm))),
      tokens_punct (hlex _ (by simp [tokens]))]
    simp [tokens]
  | emptyCall f =>
    intro d terms commas s h hlex hs
    rw [Chain, Operand] at h
    simp only [render]
    rw [show (f.render ++ "()").toList ++ s = f.render.toList ++ ('(' :: ')' :: s) by simp,
      Lexer.tokens_render_append (hlex f (by simp [tokens])) (fun c hc => by
        simp at hc; exact hc ▸ stopsAt_openParen h.2.2),
      tokens_punct (hlex _ (by simp [tokens])), tokens_punct (hlex _ (by simp [tokens]))]
    simp [tokens]
  | paren x ih =>
    intro d terms commas s h hlex hs
    rw [Chain, Operand] at h
    have hxlex : ∀ t ∈ x.tokens, t.Lexical := fun t ht => hlex t (by simp [tokens, ht])
    simp only [render]
    rw [show ("(" ++ x.render ++ ")").toList ++ s = '(' :: (x.render.toList ++ (')' :: s)) by simp,
      tokens_punct (hlex _ (by simp [tokens])),
      ih h.2.2 hxlex (fun c hc => x.lastPrinted.stopsAt_separator (by simp at hc; exact .inr (.inl hc.symm))),
      tokens_punct (hlex _ (by simp [tokens]))]
    simp [tokens]

/-- The lexer reads the text of a tree of the grammar as the tree's tokens. -/
theorem tokenize_render {e : Expr} (h : Chain lim d terms commas e) (hlex : ∀ t ∈ e.tokens, t.Lexical) :
    tokenize e.render = e.tokens := by
  have hnil : Lexer.tokens [] = [] := Lexer.tokens_of_skipGaps_nil (Lexer.skipGaps_of_dropGap_none rfl)
  have := lex_render_append e h hlex (s := []) (by simp)
  rw [List.append_nil, hnil, List.append_nil] at this
  exact this

/-! ### Trees with requoted leaves -/

/-- `e'` is `e` with any of its leaves, callees apart, replaced by double-quoted names. -/
inductive Requoted : Expr → Expr → Prop
  | keep (t : Token) : Requoted (.leaf t) (.leaf t)
  | quote (t : Token) (name : String) : Requoted (.leaf t) (.leaf ⟨name, .quoted⟩)
  | unary (op : Token) {e e' : Expr} : Requoted e e' → Requoted (.unary op e) (.unary op e')
  | binary {l l' r r' : Expr} (op : Token) : Requoted l l' → Requoted r r' →
      Requoted (.binary l op r) (.binary l' op r')
  | closing {e e' : Expr} (w : Token) : Requoted e e' → Requoted (.closing e w) (.closing e' w)
  | call (f : Token) {a a' : Expr} : Requoted a a' → Requoted (.call f a) (.call f a')
  | emptyCall (f : Token) : Requoted (.emptyCall f) (.emptyCall f)
  | paren {e e' : Expr} : Requoted e e' → Requoted (.paren e) (.paren e')

namespace Requoted

variable {e e' : Expr}

theorem height_eq (h : Requoted e e') : e'.height = e.height := by
  induction h <;> simp_all [height]

/-- A requoted tree starts with the same token, or with a quoted name. -/
theorem firstToken_eq (h : Requoted e e') : e'.firstToken = e.firstToken ∨ e'.firstToken.kind = .quoted := by
  induction h with
  | quote => exact .inr rfl
  | binary op _ _ ihl _ => exact ihl
  | closing w _ ih => exact ih
  | keep | unary | call | emptyCall | paren => exact .inl rfl

/-- A requoted tree ends in the same leaf, or in a quoted name. -/
theorem lastToken_eq (h : Requoted e e') :
    ∀ t, e'.lastToken? = some t → e.lastToken? = some t ∨ t.kind = .quoted := by
  induction h with
  | keep => exact fun t ht => .inl ht
  | quote => intro t ht; cases ht; exact .inr rfl
  | unary op _ ih => exact ih
  | binary op _ _ _ ihr => exact ihr
  | closing | call | emptyCall | paren => intro t ht; nomatch ht

/-- Every token of a requoted tree is one of the tree's, or a quoted name. -/
theorem mem_tokens (h : Requoted e e') : ∀ t ∈ e'.tokens, t ∈ e.tokens ∨ t.kind = .quoted := by
  induction h with
  | quote => intro t ht; simp [tokens] at ht; exact .inr (ht ▸ rfl)
  | keep | emptyCall => exact fun t ht => .inl ht
  | unary | binary | closing | call | paren =>
    intro t ht
    simp only [tokens, List.mem_append, List.mem_cons] at ht ⊢
    grind

theorem lexical (h : Requoted e e') (hlex : ∀ t ∈ e.tokens, t.Lexical) : ∀ t ∈ e'.tokens, t.Lexical := by
  intro t ht
  rcases h.mem_tokens t ht with ht | hq
  · exact hlex t ht
  · obtain ⟨text, kind⟩ := t
    simp only at hq
    subst hq
    trivial

/-- What may follow a tree may follow it requoted. -/
theorem endsBefore (h : Requoted e e') {next : Option Token} (he : EndsBefore e next) : EndsBefore e' next := by
  intro t ht
  rcases h.lastToken_eq t ht with ht | hq
  · exact he t ht
  · exact ⟨fun hw => by simp [hq] at hw, fun hop => by simp [hq] at hop⟩

end Requoted

/-- A quoted name may follow a tree that an operand may follow. -/
theorem EndsBefore.quoted {e : Expr} {n n' : Token} (h : EndsBefore e (some n)) (hn : OpensOperand n)
    (hq : n'.kind = .quoted) : EndsBefore e (some n') := by
  intro t ht
  refine ⟨fun _ => by simp [Token.isPunct, hq], fun hop => ?_⟩
  have := (h t ht).2 hop
  simp [hn.isPunct_eq_false (by decide : ')' ≠ '('), hn.isPunct_eq_false (by decide : ',' ≠ '(')] at this

/-- Requoting keeps a tree in the grammar, and frees a chain from its terminating words: the quoted
    names put in place of leaves are neither bare words nor operators. -/
theorem Requoted.grammar {e e' : Expr} (h : Requoted e e') :
    (∀ {d}, Operand lim d e → Operand lim d e') ∧
      (∀ {d terms commas}, Chain lim d terms commas e → Chain lim d [] commas e') := by
  induction h with
  | keep t => exact ⟨id, fun hc => by rw [Chain] at hc ⊢; exact hc⟩
  | quote t name =>
    have hop : ∀ {d}, Operand lim d (.leaf t) → Operand lim d (.leaf ⟨name, .quoted⟩) := by
      intro d h
      rw [Operand] at h ⊢
      exact ⟨h.1, h.2.1, .inl rfl⟩
    exact ⟨hop, fun hc => by rw [Chain] at hc ⊢; exact hop hc⟩
  | @unary op x x' hx ih =>
    have hop : ∀ {d}, Operand lim d (.unary op x) → Operand lim d (.unary op x') := by
      intro d h
      rw [Operand] at h ⊢
      obtain ⟨hd, hh, hk, hu, hx'⟩ := h
      exact ⟨hd, by rwa [hx.height_eq], hk, hu, ih.1 hx'⟩
    exact ⟨hop, fun hc => by rw [Chain] at hc ⊢; exact hop hc⟩
  | binary op hl hr ihl ihr =>
    refine ⟨fun h => by rw [Operand] at h; exact h.elim, fun hc => ?_⟩
    rw [Chain] at hc ⊢
    obtain ⟨hl', hr', hh, hcase⟩ := hc
    refine ⟨ihl.2 hl', ihr.1 hr', by rwa [hl.height_eq, hr.height_eq], ?_⟩
    rcases hcase with ⟨rfl, hc, -⟩ | ⟨hk, hend⟩ | ⟨rfl, hstart, hend⟩
    · exact .inl ⟨rfl, hc, EndsBefore.comma _⟩
    · exact .inr (.inl ⟨hk, hl.endsBefore hend⟩)
    · -- the operand beside the tree starts as before, or with a quoted name
      refine .inr (.inr ⟨rfl, ?_⟩)
      rcases hr.firstToken_eq with hf | hq
      · rw [hf]
        exact ⟨⟨hstart.1, by simp⟩, hl.endsBefore hend⟩
      · exact ⟨⟨by simp [hq], by simp [hq]⟩, hl.endsBefore (hend.quoted (Operand.opens hr') hq)⟩
  | closing w hx ih =>
    refine ⟨fun h => by rw [Operand] at h; exact h.elim, fun hc => ?_⟩
    rw [Chain] at hc ⊢
    obtain ⟨hx', hh, hw, hend⟩ := hc
    exact ⟨ih.2 hx', by rwa [hx.height_eq], hw, hx.endsBefore hend⟩
  | @call f a a' ha ih =>
    have hop : ∀ {d}, Operand lim d (.call f a) → Operand lim d (.call f a') := by
      intro d h
      rw [Operand] at h ⊢
      obtain ⟨hd, hh, hk, ha'⟩ := h
      exact ⟨hd, by rwa [ha.height_eq], hk, ih.2 ha'⟩
    exact ⟨hop, fun hc => by rw [Chain] at hc ⊢; exact hop hc⟩
  | emptyCall f => exact ⟨id, fun hc => by rw [Chain] at hc ⊢; exact hc⟩
  | @paren x x' hx ih =>
    have hop : ∀ {d}, Operand lim d (.paren x) → Operand lim d (.paren x') := by
      intro d h
      rw [Operand] at h ⊢
      obtain ⟨hd, hh, hx'⟩ := h
      exact ⟨hd, by rwa [hx.height_eq], ih.2 hx'⟩
    exact ⟨hop, fun hc => by rw [Chain] at hc ⊢; exact hop hc⟩

/-- Printing is a right inverse of reading: a tree read from tokens of the lexer's shape, with any of
    its leaves but callees replaced by quoted names, is read back from the tokens of its own text,
    followed by `)` or `,`, which it leaves. -/
theorem read_render_requoted {q rest r : List Token} {e e' : Expr} {h : rest.length < q.length}
    (hq : ∀ t ∈ q, t.Lexical) (hread : read terms q = .read e rest h) (he : Requoted e e')
    (hr : r.head? = some ⟨")", .punct⟩ ∨ r.head? = some Token.comma) :
    ∃ h', read [] (tokenize e'.render ++ r) = .read e' r h' := by
  obtain ⟨hchain, hqe, -, -⟩ := read_grammar hread
  have hlex : ∀ t ∈ e.tokens, t.Lexical := fun t ht => hq t (by rw [hqe]; exact List.mem_append_left rest ht)
  have hchain' : Chain Limits.standard 0 [] false e' := he.grammar.2 hchain
  have hend : EndsBefore e' r.head? := by
    rcases hr with hr | hr <;> rw [hr]
    · exact EndsBefore.closeParen e'
    · exact EndsBefore.comma e'
  have hstop : Stops [] false r.head? := by
    rcases hr with hr | hr <;> rw [hr]
    · exact Stops.closeParen
    · exact .inl ⟨by decide, rfl⟩
  rw [tokenize_render hchain' (he.lexical hlex)]
  exact chain_tokens_append hchain' hend hstop

/-- A condition read from text, with its column put under a new quoted name, is read back from its own
    text before a closing parenthesis. -/
theorem read_render_requoted_not :
    let e : Expr := .binary (.unary ⟨"NOT", .operator⟩ (.leaf ⟨"a", .word⟩)) ⟨"=", .operator⟩
      (.unary ⟨"-", .operator⟩ (.leaf ⟨"1", .numeric⟩))
    let e' : Expr := .binary (.unary ⟨"NOT", .operator⟩ (.leaf ⟨"new name", .quoted⟩)) ⟨"=", .operator⟩
      (.unary ⟨"-", .operator⟩ (.leaf ⟨"1", .numeric⟩))
    (∃ h, read [] (tokenize "NOT a = -1") = .read e [] h) ∧ Requoted e e' ∧
      ∃ h', read [] (tokenize e'.render ++ [⟨")", .punct⟩]) = .read e' [⟨")", .punct⟩] h' := by
  intro e e'
  have htok : tokenize "NOT a = -1" = e.tokens ++ [] := by decide +kernel
  have hchain : Chain Limits.standard 0 [] false e := by
    simp [e, Chain, Operand, EndsBefore, Limits.standard, Limits.allowsDepth, Limits.allowsHeight, height,
      lastToken?, isUnaryOperator, isLetters, TokenKind.isOperand, TokenKind.isIdentifier, Token.isPunct]
  have hend : EndsBefore e none := by
    intro t ht
    simp only [e, lastToken?, Option.some.injEq] at ht
    subst ht
    simp
  have hread : ∃ h, read [] (tokenize "NOT a = -1") = .read e [] h := by
    rw [htok]
    exact chain_tokens_append (r := []) hchain hend trivial
  obtain ⟨h, hread⟩ := hread
  have hq : Requoted e e' := .binary _ (.unary _ (.quote _ _)) (.unary _ (.keep _))
  exact ⟨⟨h, hread⟩, hq, read_render_requoted (tokenize_lexical _) hread hq (.inl rfl)⟩

/-- Printing inverts reading only on tokens of the lexer's shape: a word token with a blank inside is
    read as one leaf, but its text lexes as two words, so the leaf is not read back from it. -/
theorem read_render_ne_blankWord :
    let e : Expr := .leaf ⟨"a b", .word⟩
    (∃ h, read [] [⟨"a b", .word⟩] = .read e [] h) ∧
      ∀ h', read [] (tokenize e.render ++ [⟨")", .punct⟩]) ≠ .read e [⟨")", .punct⟩] h' := by
  intro e
  have hchain : Chain Limits.standard 0 [] false e := by
    simp [e, Chain, Operand, Limits.standard, Limits.allowsDepth, Limits.allowsHeight, TokenKind.isOperand,
      TokenKind.isIdentifier]
  have hend : EndsBefore e none := by
    intro t ht
    simp only [e, lastToken?, Option.some.injEq] at ht
    subst ht
    simp
  refine ⟨chain_tokens_append (r := []) hchain hend trivial, fun h' hread => ?_⟩
  -- whatever is read consumes the tokens of the tree, and the text gives two tokens, not the leaf's one
  have htokens := (read_grammar hread).2.1
  have htext : tokenize e.render = [⟨"a", .word⟩, ⟨"b", .word⟩] := by decide +kernel
  rw [htext] at htokens
  simp [e, tokens] at htokens

end SqlSchema.Expr
