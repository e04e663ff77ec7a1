import SqlSchema.Proofs.Progress

/-! # Where the lexer stands in its text

The lexer reads characters, so every place where it splits its text lies between two characters.
In bytes: a suffix of the statement's characters starts at a valid UTF-8 position of the statement,
at most its end (`offsetIn_isValid`). Every token's text stands in the statement: as it is, or, for a
string or a quoted name, after the opening quote with each quote inside written twice
(`Lexer.sourceText_infix_tokens`). -/

namespace SqlSchema

/-- The byte position in `x` at which a text left of it, `rest`, starts. -/
def offsetIn (x : String) (rest : List Char) : String.Pos.Raw :=
  ⟨x.utf8ByteSize - (String.ofList rest).utf8ByteSize⟩

/-- A suffix of a text's characters starts at a valid position of the text, at most its end. -/
theorem offsetIn_isValid {x : String} {rest : List Char} (h : rest <:+ x.toList) :
    (offsetIn x rest).IsValid x ∧ offsetIn x rest ≤ x.rawEndPos := by
  obtain ⟨pre, hpre⟩ := h
  have hx : x = String.ofList pre ++ String.ofList rest := by
    rw [← String.ofList_append, hpre, String.ofList_toList]
  have hsize : x.utf8ByteSize = (String.ofList pre).utf8ByteSize + (String.ofList rest).utf8ByteSize := by
    rw [← String.utf8ByteSize_append, ← hx]
  have hoff : offsetIn x rest = (String.ofList pre).rawEndPos := by
    ext
    simp only [offsetIn, String.byteIdx_rawEndPos, hsize]
    omega
  refine ⟨String.Pos.Raw.isValid_iff_exists_append.mpr ⟨_, _, hx, hoff⟩, ?_⟩
  rw [String.Pos.Raw.le_iff, String.byteIdx_rawEndPos]
  exact Nat.sub_le _ _

/-- Where a token's text stands in the text it was read from: a string, a quoted name or a
    backquoted name after its opening quote, with each quote inside written twice; any other token
    as its text. -/
def Token.sourceText (t : Token) : List Char :=
  match t.kind with
  | .string => '\x27' :: Quoted.double '\x27' t.text.toList
  | .quoted => '"' :: Quoted.double '"' t.text.toList
  | .backquoted => Token.backquote :: Quoted.double Token.backquote t.text.toList
  | _ => t.text.toList

end SqlSchema

namespace SqlSchema.Quoted

/-- Quoted text reads back as a text whose doubled form starts the input. -/
theorem double_unquote_prefix (q : Char) (cs : List Char) : double q (unquote q cs).1 <+: cs := by
  fun_induction unquote q cs with
  | case1 => exact List.prefix_refl _
  | case2 => exact List.nil_prefix
  | case3 c hc => simp [double, hc]
  | case4 r ih => simpa [double] using ih
  | case5 d r hd => exact List.nil_prefix
  | case6 c d r hc ih => simpa [double, hc] using ih

end SqlSchema.Quoted

namespace SqlSchema.Lexer

/-- A token's source form is a piece of the text it was read from. -/
theorem readToken_sourceText (c : Char) (r : List Char) : (readToken c r).1.sourceText <:+: c :: r := by
  unfold readToken
  split
  · -- a string: its text with the quotes doubled, after the opening quote
    obtain rfl : c = '\x27' := by simpa using ‹(c == '\x27') = true›
    simp only [Token.sourceText, String.toList_ofList]
    exact (List.cons_prefix_cons.mpr ⟨rfl, Quoted.double_unquote_prefix _ r⟩).isInfix
  split
  · obtain rfl : c = '"' := by simpa using ‹(c == '"') = true›
    simp only [Token.sourceText, String.toList_ofList]
    exact (List.cons_prefix_cons.mpr ⟨rfl, Quoted.double_unquote_prefix _ r⟩).isInfix
  split
  · obtain rfl : c = Token.backquote := by simpa using ‹(c == Token.backquote) = true›
    simp only [Token.sourceText, String.toList_ofList]
    exact (List.cons_prefix_cons.mpr ⟨rfl, Quoted.double_unquote_prefix _ r⟩).isInfix
  split
  · -- a bracketed name: the text inside the brackets
    simp only [Token.sourceText, String.toList_ofList, upTo]
    exact (List.takeWhile_prefix _).isInfix.trans (List.suffix_cons c r).isInfix
  split
  · -- a blob: the text inside its quotes
    simp only [Token.sourceText, String.toList_ofList, upTo]
    exact (List.takeWhile_prefix _).isInfix.trans ((List.tail_suffix r).trans (List.suffix_cons c r)).isInfix
  split
  · -- a number: the characters its reader takes
    have hsplit : numberAfter c r = ((numberAfter c r).1, (numberAfter c r).2) := rfl
    obtain ⟨p, htok, hr, -⟩ := numberAfter_readsBack hsplit
    simp only [Token.sourceText, String.toList_ofList, htok]
    exact (List.cons_prefix_cons.mpr ⟨rfl, ⟨_, hr.symm⟩⟩).isInfix
  split
  · -- a word, of one of the plain kinds
    have hword : ∀ k, (k = .operator ∨ k = .closer ∨ k = .word) →
        (⟨String.ofList (c :: r.takeWhile isWordChar), k⟩ : Token).sourceText <:+: c :: r := by
      have h : (c :: r.takeWhile isWordChar) <:+: c :: r :=
        (List.cons_prefix_cons.mpr ⟨rfl, List.takeWhile_prefix _⟩).isInfix
      rintro k (rfl | rfl | rfl) <;> simpa only [Token.sourceText, String.toList_ofList] using h
    exact hword _ (wordKind_cases _)
  · -- a symbol of one or two characters
    have hkind : ∀ k, (k = .punct ∨ k = .operator) → ∀ s : String, s.toList <:+: c :: r →
        (⟨s, k⟩ : Token).sourceText <:+: c :: r := by
      rintro k (rfl | rfl) s h <;> exact h
    have hsymbol := (symbolKind_cases c).imp_right And.left
    cases r with
    | nil => exact hkind _ hsymbol _ (by simp)
    | cons d r' =>
      dsimp only
      split
      · exact hkind _ (.inr rfl) _ (by simpa using (List.prefix_append [c, d] r').isInfix)
      · exact hkind _ hsymbol _ (by simpa using (List.prefix_append [c] (d :: r')).isInfix)

/-- Every token's source form is a piece of the text: the token stands where its reader found it,
    and the rest of the text is a suffix. -/
theorem sourceText_infix_tokens (cs : List Char) : ∀ t ∈ tokens cs, t.sourceText <:+: cs := by
  fun_induction tokens cs with
  | case1 cs h => simp
  | case2 cs c r h _ ih =>
    have hgaps : c :: r <:+ cs := h ▸ skipGaps_suffix cs
    intro t ht
    rcases List.mem_cons.mp ht with rfl | ht
    · exact (readToken_sourceText c r).trans hgaps.isInfix
    · exact (ih t ht).trans (readToken_advances h).1.isInfix

end SqlSchema.Lexer
