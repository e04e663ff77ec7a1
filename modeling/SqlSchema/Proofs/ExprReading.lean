import SqlSchema.Proofs.ExprGrammar

/-! # What the expression reader reads

The converse of completeness: whatever the reader reads is a tree of the grammar, written with
exactly the tokens the reader took, and the token where it stopped is one that stops a chain
(`read_grammar`). The reader's functions are first turned inside out, one inversion lemma each
(`operand_eq_read`, `extend_eq_read`, `chain_eq_read`): every way a call can succeed, with the
tokens it took. The grammar then follows by strong induction on the number of tokens. -/

namespace SqlSchema.Token

theorem eq_of_isPunct {t : Token} {c : Char} (h : t.isPunct c = true) :
    t = ⟨String.singleton c, .punct⟩ := by
  obtain ⟨text, kind⟩ := t
  simp [Token.isPunct] at h
  obtain ⟨⟨rfl, h⟩, -⟩ := h
  have htext : text = String.singleton c := String.toList_inj.mp (by simpa using h)
  rw [htext]

end SqlSchema.Token

namespace SqlSchema.Expr

variable {lim : Limits} {d : Nat} {terms : List String} {commas : Bool}

/-! ### The reader inside out -/

/-- A node is built only below the height limit. -/
theorem Limits.node_eq_read {n : Nat} {e e' : Expr} {r r' : List Token} {h' : r'.length < n} {h}
    (he : lim.node e' r' h' = .read e r h) : e = e' ∧ r = r' ∧ lim.allowsHeight e'.height = true := by
  unfold Limits.node at he
  split at he
  · cases he; exact ⟨rfl, rfl, ‹_›⟩
  · cases he

/-- A group or call closes only on `)`. -/
theorem Limits.close_eq_read {n : Nat} {e e' : Expr} {ts r : List Token} {h' : ts.length < n} {h}
    (he : lim.close e' ts h' = .read e r h) :
    ts = ⟨")", .punct⟩ :: r ∧ e = e' ∧ lim.allowsHeight e'.height = true := by
  cases ts with
  | nil => simp [Limits.close] at he
  | cons c r' =>
    simp only [Limits.close] at he
    split at he
    · rename_i hc
      obtain ⟨rfl, rfl, hh⟩ := Limits.node_eq_read he
      exact ⟨by rw [Token.eq_of_isPunct hc]; rfl, rfl, hh⟩
    · cases he

theorem Reading.widen_eq_read {m n : Nat} {hmn : m ≤ n} {x : Reading m} {e : Expr} {r : List Token}
    {h : r.length < n} (hx : x.widen hmn = .read e r h) : ∃ h', x = .read e r h' := by
  cases x with
  | read e' r' h' => cases hx; exact ⟨h', rfl⟩
  | failed r' => cases hx

/-- The ways `operand` succeeds: a group, `*` before `)` or `,`, a unary operator with its operand,
    a call with or without arguments, or a single name or literal. -/
theorem operand_eq_read {ts r : List Token} {e : Expr} {h : r.length < ts.length}
    (he : operand lim d ts = .read e r h) :
    lim.allowsDepth d = true ∧ lim.allowsHeight e.height = true ∧
    ((∃ x ts' h', ts = ⟨"(", .punct⟩ :: ts' ∧ e = .paren x ∧
        chain lim (d + 1) [] true ts' = .read x (⟨")", .punct⟩ :: r) h') ∨
      (∃ t, ts = t :: r ∧ e = .leaf t ∧ t.kind = .operator ∧ t.text = "*" ∧
        (startsWithPunct r ')' = true ∨ startsWithPunct r ',' = true)) ∨
      (∃ t x ts' h', ts = t :: ts' ∧ e = .unary t x ∧ t.kind = .operator ∧ isUnaryOperator t = true ∧
        operand lim (d + 1) ts' = .read x r h') ∨
      (∃ f, ts = f :: ⟨"(", .punct⟩ :: ⟨")", .punct⟩ :: r ∧ e = .emptyCall f ∧ f.kind = .word) ∨
      (∃ f a ts' h', ts = f :: ⟨"(", .punct⟩ :: ts' ∧ e = .call f a ∧ f.kind = .word ∧
        chain lim (d + 1) [] true ts' = .read a (⟨")", .punct⟩ :: r) h') ∨
      (∃ t, ts = t :: r ∧ e = .leaf t ∧ t.kind.isOperand = true ∧
        ¬(t.kind = .word ∧ startsWithPunct r '(' = true))) := by
  rw [operand.eq_def] at he
  split at he
  · cases he
  rename_i hd
  replace hd : lim.allowsDepth d = true := by simpa using hd
  split at he
  · cases he
  rename_i t r'
  split at he
  · -- a group
    rename_i hp
    split at he
    · rename_i x r1 h1 hx
      obtain ⟨rfl, rfl, hh⟩ := Limits.close_eq_read he
      exact ⟨hd, hh, .inl ⟨x, r', h1, by rw [Token.eq_of_isPunct hp]; rfl, rfl, hx⟩⟩
    · cases he
  split at he
  · -- `*` before `)` or `,`
    rename_i hs
    obtain ⟨rfl, rfl, hh⟩ := Limits.node_eq_read he
    simp only [Bool.and_eq_true, beq_iff_eq, Bool.or_eq_true] at hs
    exact ⟨hd, hh, .inr (.inl ⟨t, rfl, rfl, hs.1.1, hs.1.2, hs.2⟩)⟩
  split at he
  · -- a unary operator
    rename_i hu
    simp only [Bool.and_eq_true, beq_iff_eq] at hu
    split at he
    · rename_i x r1 h1 hx
      obtain ⟨rfl, rfl, hh⟩ := Limits.node_eq_read he
      exact ⟨hd, hh, .inr (.inr (.inl ⟨t, x, r', h1, rfl, rfl, hu.1, hu.2, hx⟩))⟩
    · cases he
  split at he
  · -- a call
    rename_i hw
    simp only [Bool.and_eq_true, beq_iff_eq] at hw
    split at he
    · rename_i p c r2 _
      have hp : p = ⟨"(", .punct⟩ := Token.eq_of_isPunct (by simpa [startsWithPunct] using hw.2)
      subst hp
      split at he
      · rename_i hc
        obtain ⟨rfl, rfl, hh⟩ := Limits.node_eq_read he
        rw [Token.eq_of_isPunct hc]
        exact ⟨hd, hh, .inr (.inr (.inr (.inl ⟨t, rfl, rfl, hw.1⟩)))⟩
      · split at he
        · rename_i a r1 h1 ha
          obtain ⟨rfl, rfl, hh⟩ := Limits.close_eq_read he
          exact ⟨hd, hh, .inr (.inr (.inr (.inr (.inl ⟨t, a, c :: r2, h1, rfl, rfl, hw.1, ha⟩))))⟩
        · cases he
    · cases he
  split at he
  · -- a name or literal
    rename_i hw hk
    obtain ⟨rfl, rfl, hh⟩ := Limits.node_eq_read he
    simp only [Bool.and_eq_true, beq_iff_eq] at hw
    exact ⟨hd, hh, .inr (.inr (.inr (.inr (.inr ⟨t, rfl, rfl, hk, hw⟩))))⟩
  · cases he

/-- The ways `extend` succeeds: it stops where the tokens stop a chain, or it takes a comma, a
    closing word, an operator with its operand, or an operand written beside the tree, and goes on. -/
theorem extend_eq_read {lhs e : Expr} {ts r : List Token} {h : r.length < ts.length + 1}
    (he : extend lim d terms commas lhs ts = .read e r h) :
    (e = lhs ∧ r = ts ∧ Stops terms commas ts.head?) ∨
    (∃ x ts' r1 h1 h2, ts = Token.comma :: ts' ∧ commas = true ∧ operand lim d ts' = .read x r1 h1 ∧
      lim.allowsHeight (binary lhs Token.comma x).height = true ∧
      extend lim d terms commas (binary lhs Token.comma x) r1 = .read e r h2) ∨
    (∃ w ts' h2, ts = w :: ts' ∧ w.kind = .closer ∧ lim.allowsHeight (closing lhs w).height = true ∧
      extend lim d terms commas (closing lhs w) ts' = .read e r h2) ∨
    (∃ op x ts' r1 h1 h2, ts = op :: ts' ∧ op.kind = .operator ∧ operand lim d ts' = .read x r1 h1 ∧
      lim.allowsHeight (binary lhs op x).height = true ∧
      extend lim d terms commas (binary lhs op x) r1 = .read e r h2) ∨
    (∃ t ts' x r1 h1 h2, ts = t :: ts' ∧ JuxtStart terms t ∧ operand lim d ts = .read x r1 h1 ∧
      lim.allowsHeight (binary lhs Token.juxtaposition x).height = true ∧
      extend lim d terms commas (binary lhs Token.juxtaposition x) r1 = .read e r h2) := by
  cases ts with
  | nil =>
    rw [extend] at he
    cases he
    exact .inl ⟨rfl, rfl, trivial⟩
  | cons t ts' =>
    rw [extend] at he
    split at he
    · -- a comma: folded, or the end of the chain
      rename_i hc
      split at he
      · rename_i hcs
        split at he
        · rename_i x r1 h1 hx
          dsimp only at he
          split at he
          · rename_i hh
            obtain ⟨h2, he⟩ := Reading.widen_eq_read he
            exact .inr (.inl ⟨x, ts', r1, h1, h2, by rw [Token.eq_of_isPunct hc]; rfl, hcs, hx, hh, he⟩)
          · cases he
        · cases he
      · rename_i hcs
        cases he
        exact .inl ⟨rfl, rfl, .inl ⟨hc, by simpa using hcs⟩⟩
    rename_i hc
    split at he
    · -- a word that ends the chain
      rename_i hw
      cases he
      simp only [Bool.and_eq_true, beq_iff_eq] at hw
      exact .inl ⟨rfl, rfl, .inr ⟨hc, .inl hw⟩⟩
    rename_i hw
    split at he
    · -- a closing word
      rename_i hk
      dsimp only at he
      split at he
      · rename_i hh
        obtain ⟨h2, he⟩ := Reading.widen_eq_read he
        exact .inr (.inr (.inl ⟨t, ts', h2, rfl, by simpa using hk, hh, he⟩))
      · cases he
    rename_i hk
    split at he
    · -- an operator
      rename_i hop
      split at he
      · rename_i x r1 h1 hx
        dsimp only at he
        split at he
        · rename_i hh
          obtain ⟨h2, he⟩ := Reading.widen_eq_read he
          exact .inr (.inr (.inr (.inl ⟨t, x, ts', r1, h1, h2, rfl, by simpa using hop, hx, hh, he⟩)))
        · cases he
      · cases he
    rename_i hop
    split at he
    · -- punctuation that ends the chain
      rename_i hp
      cases he
      simp only [Bool.and_eq_true, beq_iff_eq, Bool.not_eq_true'] at hp
      exact .inl ⟨rfl, rfl, .inr ⟨hc, .inr ⟨hp.1, by simp [hp.2]⟩⟩⟩
    · -- an operand written beside the tree
      split at he
      · rename_i x r1 h1 hx
        dsimp only at he
        split at he
        · rename_i hh
          obtain ⟨h2, he⟩ := Reading.widen_eq_read he
          refine .inr (.inr (.inr (.inr ⟨t, ts', x, r1, h1, h2, rfl, ⟨by simpa using hop, ?_⟩, hx, hh, he⟩)))
          simpa using hw
        · cases he
      · cases he

/-- A chain is an operand extended. -/
theorem chain_eq_read {ts r : List Token} {e : Expr} {h : r.length < ts.length}
    (he : chain lim d terms commas ts = .read e r h) :
    ∃ lhs r1 h1 h2, operand lim d ts = .read lhs r1 h1 ∧ extend lim d terms commas lhs r1 = .read e r h2 := by
  rw [chain] at he
  split at he
  · rename_i lhs r1 h1 hl
    obtain ⟨h2, he⟩ := Reading.widen_eq_read he
    exact ⟨lhs, r1, h1, h2, hl, he⟩
  · cases he

/-! ### Soundness -/

/-- What the reader reads is a tree of the grammar, followed by the tokens it left: `operand`,
    `extend` and `chain` together, by strong induction on the number of tokens. At one length the
    three are proved in the order in which they call each other on the same tokens: an operand,
    then an extension (which may read an operand at the same place), then a chain. -/
theorem grammar_of_read (n : Nat) :
    (∀ {d ts e r h}, ts.length = n → operand lim d ts = .read e r h →
      Operand lim d e ∧ ts = e.tokens ++ r ∧ EndsBefore e r.head?) ∧
    (∀ {d terms commas lhs ts e r h}, ts.length = n → extend lim d terms commas lhs ts = .read e r h →
      Chain lim d terms commas lhs → EndsBefore lhs ts.head? →
      Chain lim d terms commas e ∧ (∃ X, e.tokens = lhs.tokens ++ X ∧ ts = X ++ r) ∧
        Stops terms commas r.head? ∧ EndsBefore e r.head?) ∧
    (∀ {d terms commas ts e r h}, ts.length = n → chain lim d terms commas ts = .read e r h →
      Chain lim d terms commas e ∧ ts = e.tokens ++ r ∧ Stops terms commas r.head? ∧
        EndsBefore e r.head?) := by
  induction n using Nat.strongRecOn with
  | _ n ih =>
  have hop : ∀ {d ts e r h}, ts.length = n → operand lim d ts = .read e r h →
      Operand lim d e ∧ ts = e.tokens ++ r ∧ EndsBefore e r.head? := by
    intro d ts e r h hn he
    obtain ⟨hd, hh, hcase⟩ := operand_eq_read he
    rcases hcase with ⟨x, ts', h', rfl, rfl, hx⟩ | ⟨t, rfl, rfl, hk, hs, hnext⟩ |
      ⟨t, x, ts', h', rfl, rfl, hk, hu, hx⟩ | ⟨f, rfl, rfl, hk⟩ | ⟨f, a, ts', h', rfl, rfl, hk, ha⟩ |
      ⟨t, rfl, rfl, hk, hw⟩
    · -- a group
      obtain ⟨hxg, rfl, -, -⟩ := (ih ts'.length (by simp at hn; omega)).2.2 rfl hx
      exact ⟨by rw [Operand]; exact ⟨hd, hh, hxg⟩, by simp [tokens], EndsBefore.of_lastToken_none rfl _⟩
    · -- `*` before `)` or `,`
      refine ⟨by rw [Operand]; exact ⟨hd, hh, .inr ⟨hk, hs⟩⟩, rfl, fun t' ht => ?_⟩
      cases ht
      exact ⟨fun hw => by simp [hk] at hw, fun _ => by simpa [startsWithPunct_eq] using hnext⟩
    · -- a unary operator
      obtain ⟨hxg, rfl, hend⟩ := (ih ts'.length (by simp at hn; omega)).1 rfl hx
      exact ⟨by rw [Operand]; exact ⟨hd, hh, hk, hu, hxg⟩, rfl, hend⟩
    · -- a call without arguments
      exact ⟨by rw [Operand]; exact ⟨hd, hh, hk⟩, rfl, EndsBefore.of_lastToken_none rfl _⟩
    · -- a call
      obtain ⟨hag, rfl, -, -⟩ := (ih ts'.length (by simp at hn; omega)).2.2 rfl ha
      exact ⟨by rw [Operand]; exact ⟨hd, hh, hk, hag⟩, by simp [tokens], EndsBefore.of_lastToken_none rfl _⟩
    · -- a name or literal
      refine ⟨by rw [Operand]; exact ⟨hd, hh, .inl hk⟩, rfl, fun t' ht => ?_⟩
      cases ht
      refine ⟨fun hword => by simpa [startsWithPunct_eq, hword] using hw, fun hop => ?_⟩
      simp [hop, TokenKind.isOperand, TokenKind.isIdentifier] at hk
  have hext : ∀ {d terms commas lhs ts e r h}, ts.length = n →
      extend lim d terms commas lhs ts = .read e r h → Chain lim d terms commas lhs →
      EndsBefore lhs ts.head? → Chain lim d terms commas e ∧ (∃ X, e.tokens = lhs.tokens ++ X ∧ ts = X ++ r) ∧
        Stops terms commas r.head? ∧ EndsBefore e r.head? := by
    intro d terms commas lhs ts e r h hn he hl hend
    rcases extend_eq_read he with ⟨rfl, rfl, hs⟩ | ⟨x, ts', r1, h1, h2, rfl, hc, hx, hh, hmore⟩ |
      ⟨w, ts', h2, rfl, hw, hh, hmore⟩ | ⟨op, x, ts', r1, h1, h2, rfl, hk, hx, hh, hmore⟩ |
      ⟨t, ts', x, r1, h1, h2, rfl, hstart, hx, hh, hmore⟩
    · -- the chain ends here
      exact ⟨hl, ⟨[], by simp, by simp⟩, hs, hend⟩
    · -- a comma and the operand after it
      obtain ⟨hxg, rfl, hxend⟩ := (ih ts'.length (by simp at hn; omega)).1 rfl hx
      obtain ⟨heg, ⟨X, hX, rfl⟩, hs, heend⟩ := (ih r1.length (by simp at hn; omega)).2.1 rfl hmore
        (by rw [Chain]; exact ⟨hl, hxg, hh, .inl ⟨rfl, hc, hend⟩⟩) hxend
      exact ⟨heg, ⟨Token.comma :: (x.tokens ++ X), by simp [hX, tokens, Token.comma, Token.juxtaposition],
        by simp⟩, hs, heend⟩
    · -- a closing word
      obtain ⟨heg, ⟨X, hX, rfl⟩, hs, heend⟩ := (ih ts'.length (by simp at hn; omega)).2.1 rfl hmore
        (by rw [Chain]; exact ⟨hl, hh, hw, hend⟩) (EndsBefore.of_lastToken_none rfl _)
      exact ⟨heg, ⟨w :: X, by simp [hX, tokens], rfl⟩, hs, heend⟩
    · -- an operator and the operand after it
      have hne : op ≠ Token.juxtaposition := by rintro rfl; simp [Token.juxtaposition] at hk
      obtain ⟨hxg, rfl, hxend⟩ := (ih ts'.length (by simp at hn; omega)).1 rfl hx
      obtain ⟨heg, ⟨X, hX, rfl⟩, hs, heend⟩ := (ih r1.length (by simp at hn; omega)).2.1 rfl hmore
        (by rw [Chain]; exact ⟨hl, hxg, hh, .inr (.inl ⟨hk, hend⟩)⟩) hxend
      exact ⟨heg, ⟨op :: (x.tokens ++ X), by simp [hX, tokens, hne], by simp⟩, hs, heend⟩
    · -- an operand written beside the tree, read from the same tokens
      obtain ⟨hxg, hts, hxend⟩ := hop hn hx
      obtain ⟨rest, hrest⟩ := tokens_eq_firstToken_cons x
      have hfirst : x.firstToken = t := by
        rw [hrest, List.cons_append] at hts
        exact (List.cons.inj hts).1.symm
      subst hfirst
      obtain ⟨heg, ⟨X, hX, rfl⟩, hs, heend⟩ := (ih r1.length (by have := length_tokens_pos x; rw [← hn, hts]; simp; omega)).2.1 rfl hmore
        (by rw [Chain]; exact ⟨hl, hxg, hh, .inr (.inr ⟨rfl, hstart, hend⟩)⟩) hxend
      refine ⟨heg, ⟨x.tokens ++ X, by simp [hX, tokens], ?_⟩, hs, heend⟩
      rw [hts, List.append_assoc]
  refine ⟨hop, hext, ?_⟩
  intro d terms commas ts e r h hn he
  obtain ⟨lhs, r1, h1, h2, hl, hmore⟩ := chain_eq_read he
  obtain ⟨hlg, rfl, hlend⟩ := hop hn hl
  obtain ⟨heg, ⟨X, hX, rfl⟩, hs, heend⟩ := (ih r1.length (by have := length_tokens_pos lhs; simp at hn; omega)).2.1 rfl hmore hlg.chain hlend
  exact ⟨heg, by simp [hX], hs, heend⟩

/-- What `Expr.read` reads is a chain of the grammar under the standard limits, written with exactly the
    tokens it took, and it stopped at a token that stops the chain. -/
theorem read_grammar {ts r : List Token} {e : Expr} {h : r.length < ts.length}
    (he : read terms ts = .read e r h) :
    Chain Limits.standard 0 terms false e ∧ ts = e.tokens ++ r ∧ Stops terms false r.head? ∧
      EndsBefore e r.head? :=
  (grammar_of_read ts.length).2.2 rfl he

/-- An expression is read off the front of the tokens and nothing is lost: the tokens are those of the
    tree, in order, followed by those left. Reading stops at the end of the tokens, before a comma,
    before punctuation other than `(`, or before a bare word of `terms` up to ASCII case. -/
theorem read_tokens_stop {ts : List Token} {e : Expr} (he : (read terms ts).expr? = some e) :
    ts = e.tokens ++ (read terms ts).rest ∧
      ∀ t ∈ (read terms ts).rest.head?, t.isPunct ',' = true ∨ (t.kind = .punct ∧ t.isPunct '(' = false) ∨
        (t.kind = .word ∧ terms.any (sameWord t.text) = true) := by
  cases hr : read terms ts with
  | failed r => rw [hr] at he; cases he
  | read e' r h =>
    rw [hr] at he
    obtain rfl : e' = e := Option.some.inj he
    obtain ⟨-, hts, hs, -⟩ := read_grammar hr
    refine ⟨hts, fun t ht => ?_⟩
    rw [show r.head? = some t from ht] at hs
    rcases hs with ⟨hc, -⟩ | ⟨-, hw | ⟨hp, hparen⟩⟩
    · exact .inl hc
    · exact .inr (.inr hw)
    · exact .inr (.inl ⟨hp, by simpa using hparen⟩)

/-- An index column with a call and an ordering word, `a + f(b) DESC`, read up to the word `WHERE`
    that ends it. -/
theorem read_tokens_stop_where :
    let e : Expr := .closing (.binary (.leaf ⟨"a", .word⟩) ⟨"+", .operator⟩ (.call ⟨"f", .word⟩
      (.leaf ⟨"b", .word⟩))) ⟨"DESC", .closer⟩
    let ts : List Token := [⟨"a", .word⟩, ⟨"+", .operator⟩, ⟨"f", .word⟩, ⟨"(", .punct⟩, ⟨"b", .word⟩,
      ⟨")", .punct⟩, ⟨"DESC", .closer⟩, ⟨"WHERE", .word⟩, ⟨"x", .word⟩]
    (read ["WHERE"] ts).expr? = some e ∧ ts = e.tokens ++ (read ["WHERE"] ts).rest ∧
      ∀ t ∈ (read ["WHERE"] ts).rest.head?, t.isPunct ',' = true ∨ (t.kind = .punct ∧ t.isPunct '(' = false) ∨
        (t.kind = .word ∧ ["WHERE"].any (sameWord t.text) = true) := by
  intro e ts
  have hchain : Chain Limits.standard 0 ["WHERE"] false e := by
    simp [e, Chain, Operand, EndsBefore, JuxtStart, Limits.standard, Limits.allowsDepth, Limits.allowsHeight,
      height, lastToken?, firstToken, TokenKind.isOperand, TokenKind.isIdentifier, Token.isPunct]
  have hstop : Stops ["WHERE"] false (some ⟨"WHERE", .word⟩) :=
    .inr ⟨by simp [Token.isPunct], .inl ⟨rfl, by simp [sameWord]⟩⟩
  have hts : ts = e.tokens ++ [⟨"WHERE", .word⟩, ⟨"x", .word⟩] := by
    simp [ts, e, tokens, Token.juxtaposition]
  obtain ⟨h, hread⟩ := chain_tokens_append (r := [⟨"WHERE", .word⟩, ⟨"x", .word⟩]) hchain
    (EndsBefore.of_lastToken_none rfl _) hstop
  have he : (read ["WHERE"] ts).expr? = some e := by
    rw [hts]
    exact congrArg Reading.expr? hread
  exact ⟨he, read_tokens_stop he⟩

end SqlSchema.Expr
