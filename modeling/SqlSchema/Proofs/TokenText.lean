import SqlSchema.Proofs.Lexing

/-! # Printed tokens read back

A token prints as its source form, and the lexer reads that form back to the same token. So the
tokens of any text, printed one after another with a blank between them, lex to the same tokens:
printing loses nothing the lexer keeps. A quoted name, a backquoted name and a string read back from
their printed form whatever their text, since doubling the quote inside is the only escape and
reading undoes it. -/

namespace SqlSchema

open Lexer

/-- Empty text has no tokens. -/
@[simp] theorem Lexer.tokens_nil : tokens [] = [] :=
  tokens_of_skipGaps_nil (skipGaps_of_dropGap_none rfl)

/-- A token of the lexer's shape is all its printed form lexes to. -/
theorem Token.tokenize_render {t : Token} (ht : t.Lexical) : tokenize t.render = [t] := by
  simpa [tokenize] using tokens_render_append ht (s := []) (by simp)

/-- Tokens of the lexer's shape, printed with a blank between each two, lex back to themselves.
    Induction on the tokens: the blank after each printed token ends it and is skipped. -/
theorem tokens_intercalate_render {ts : List Token} (h : ∀ t ∈ ts, t.Lexical) :
    tokens (" ".intercalate (ts.map Token.render)).toList = ts := by
  induction ts with
  | nil => simp
  | cons t ts ih =>
    have ht := h t List.mem_cons_self
    have ih := ih fun t' ht' => h t' (List.mem_cons_of_mem _ ht')
    cases ts with
    | nil => simpa [tokenize] using Token.tokenize_render ht
    | cons t' ts =>
      -- the printed token, the blank, then the others
      have htext : (" ".intercalate ((t :: t' :: ts).map Token.render)).toList =
          t.render.toList ++ ' ' :: (" ".intercalate ((t' :: ts).map Token.render)).toList := by
        simp [String.intercalate_cons_cons]
      rw [htext, tokens_render_append ht fun c hc => by
        simp only [List.head?_cons, Option.mem_def, Option.some.injEq] at hc
        exact hc ▸ Token.stopsAt_blank t (by decide), tokens_blank (by decide), ih]

/-- Printing is undone by lexing: the tokens of any text, printed with a blank between each two, lex
    to the same tokens; a quoted name, a backquoted name and a string, whatever their text, lex from
    their printed form to themselves alone, and so does a name written as a double-quoted
    identifier. -/
theorem tokenize_render_roundTrip :
    (∀ x : String, tokenize (" ".intercalate ((tokenize x).map Token.render)) = tokenize x) ∧
    (∀ n : String, tokenize (Token.render ⟨n, .quoted⟩) = [⟨n, .quoted⟩] ∧
      tokenize (Token.render ⟨n, .backquoted⟩) = [⟨n, .backquoted⟩] ∧
      tokenize (Token.render ⟨n, .string⟩) = [⟨n, .string⟩]) ∧
    ∀ n : String, tokenize (quoteIdentifier n) = [⟨n, .quoted⟩] := by
  refine ⟨fun x => tokens_intercalate_render (tokenize_lexical x), fun n => ?_, fun n => ?_⟩
  · exact ⟨Token.tokenize_render trivial, Token.tokenize_render trivial, Token.tokenize_render trivial⟩
  · exact Token.tokenize_render (t := ⟨n, .quoted⟩) trivial

end SqlSchema
