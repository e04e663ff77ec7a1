import Mathlib
import SqlSchema.Expr.Reader

/-! # The grammar of expression trees

`Operand` and `Chain` say which trees the expression reader builds, without running it: the
operand and chain rules of the reader, with the limits on depth and height, and at every place where
two trees meet, what the token after the left one must be. `EndsBefore e next` is that condition:
a bare word is not followed by `(` (it would be a callee), and a lone operator (`*`) only by `)` or
`,`. A chain stops at a token that `Stops` names, and an operand written beside a tree starts with a
token that `JuxtStart` allows.

This module proves the reader complete for the grammar: a chain of the grammar is read back from
its tokens (`Expr.tokens`) followed by any token that stops it (`chain_tokens_append`). The proof is
one induction on the tree (`read_tokens`) over one lemma per step of the reader. -/

namespace SqlSchema.Expr

/-- The first token written for a tree. -/
def firstToken : Expr → Token
  | .leaf t => t
  | .unary op _ => op
  | .binary l _ _ => l.firstToken
  | .closing e _ => e.firstToken
  | .call f _ => f
  | .emptyCall f => f
  | .paren _ => ⟨"(", .punct⟩

/-- What an operand needs of the token after it: a bare word is no callee, so no `(` follows it, and
    a lone `*` is an operand only before `)` or `,`. -/
def EndsBefore (e : Expr) (next : Option Token) : Prop :=
  ∀ t, e.lastToken? = some t →
    (t.kind = .word → ¬ next.any (·.isPunct '(')) ∧
    (t.kind = .operator → next.any (·.isPunct ')') ∨ next.any (·.isPunct ','))

/-- A token after which a chain stops: a comma when commas are not folded, a bare word of `terms`,
    or punctuation other than `(`; the end of the tokens stops it too. -/
def Stops (terms : List String) (commas : Bool) : Option Token → Prop
  | none => True
  | some t => (t.isPunct ',' ∧ commas = false) ∨
      (¬ t.isPunct ',' ∧ ((t.kind = .word ∧ terms.any (sameWord t.text)) ∨ (t.kind = .punct ∧ ¬ t.isPunct '(')))

/-- A token that starts an operand written beside a tree: neither an operator nor a bare word of
    `terms`. -/
def JuxtStart (terms : List String) (t : Token) : Prop :=
  t.kind ≠ .operator ∧ ¬ (t.kind = .word ∧ terms.any (sameWord t.text))

/-- A token that can open an operand: `(`, a unary operator or `*`, or a name or literal. -/
def OpensOperand (t : Token) : Prop :=
  t = ⟨"(", .punct⟩ ∨ (t.kind = .operator ∧ (isUnaryOperator t = true ∨ t.text = "*")) ∨
    t.kind.isOperand = true

mutual

/-- The trees that `operand lim d` reads. -/
def Operand (lim : Limits) (d : Nat) : Expr → Prop
  | .leaf t => lim.allowsDepth d ∧ lim.allowsHeight 1 ∧ (t.kind.isOperand ∨ (t.kind = .operator ∧ t.text = "*"))
  | .unary op e => lim.allowsDepth d ∧ lim.allowsHeight (e.height + 1) ∧ op.kind = .operator ∧
      isUnaryOperator op ∧ Operand lim (d + 1) e
  | .paren e => lim.allowsDepth d ∧ lim.allowsHeight (e.height + 1) ∧ Chain lim (d + 1) [] true e
  | .call f a => lim.allowsDepth d ∧ lim.allowsHeight (a.height + 1) ∧ f.kind = .word ∧ Chain lim (d + 1) [] true a
  | .emptyCall f => lim.allowsDepth d ∧ lim.allowsHeight 2 ∧ f.kind = .word
  | .binary .. | .closing .. => False

/-- The trees that `chain lim d terms commas` reads: an operand, extended step by step. -/
def Chain (lim : Limits) (d : Nat) (terms : List String) (commas : Bool) : Expr → Prop
  | .binary l op r => Chain lim d terms commas l ∧ Operand lim d r ∧ lim.allowsHeight (max l.height r.height + 1) ∧
      ((op = Token.comma ∧ commas = true ∧ EndsBefore l (some Token.comma)) ∨
        (op.kind = .operator ∧ EndsBefore l (some op)) ∨
        (op = Token.juxtaposition ∧ JuxtStart terms r.firstToken ∧ EndsBefore l (some r.firstToken)))
  | .closing e w => Chain lim d terms commas e ∧ lim.allowsHeight (e.height + 1) ∧ w.kind = .closer ∧
      EndsBefore e (some w)
  | .leaf t => Operand lim d (.leaf t)
  | .unary op e => Operand lim d (.unary op e)
  | .paren e => Operand lim d (.paren e)
  | .call f a => Operand lim d (.call f a)
  | .emptyCall f => Operand lim d (.emptyCall f)

end

-- the grammar's rules, one equation per shape of tree, also for `grind`
attribute [grind] Operand Chain firstToken tokens height

variable {lim : Limits} {d : Nat} {terms : List String} {commas : Bool}

/-! ### First tokens and the grammar -/

theorem startsWithPunct_eq (ts : List Token) (c : Char) :
    startsWithPunct ts c = ts.head?.any (·.isPunct c) := by
  cases ts <;> rfl

theorem isPunct_of_kind_ne {t : Token} (h : t.kind ≠ .punct) (c : Char) : t.isPunct c = false := by
  simp [Token.isPunct, h]

theorem tokens_eq_firstToken_cons (e : Expr) : ∃ rest, e.tokens = e.firstToken :: rest := by
  induction e with
  | leaf t => exact ⟨[], rfl⟩
  | unary op x _ => exact ⟨x.tokens, rfl⟩
  | binary l op x ihl _ =>
    obtain ⟨rest, h⟩ := ihl
    exact ⟨rest ++ (if op = Token.juxtaposition then [] else [op]) ++ x.tokens, by simp [tokens, firstToken, h]⟩
  | closing x w ih =>
    obtain ⟨rest, h⟩ := ih
    exact ⟨rest ++ [w], by simp [tokens, firstToken, h]⟩
  | call f a _ => exact ⟨_, rfl⟩
  | emptyCall f => exact ⟨_, rfl⟩
  | paren x _ => exact ⟨_, rfl⟩

theorem length_tokens_pos (e : Expr) : 0 < e.tokens.length := by
  obtain ⟨rest, h⟩ := tokens_eq_firstToken_cons e
  simp [h]

/-- An operand starts with `(`, a unary operator or `*`, or a name or literal. -/
theorem Operand.opens {e : Expr} (h : Operand lim d e) : OpensOperand e.firstToken := by
  cases e with
  | leaf t =>
    rw [Operand] at h
    rcases h.2.2 with hk | ⟨hk, hstar⟩
    · exact .inr (.inr hk)
    · exact .inr (.inl ⟨hk, .inr hstar⟩)
  | unary op x =>
    rw [Operand] at h
    exact .inr (.inl ⟨h.2.2.1, .inl h.2.2.2.1⟩)
  | paren x => exact .inl rfl
  | call f a =>
    rw [Operand] at h
    exact .inr (.inr (by simp [firstToken, h.2.2.1, TokenKind.isOperand, TokenKind.isIdentifier]))
  | emptyCall f =>
    rw [Operand] at h
    exact .inr (.inr (by simp [firstToken, h.2.2, TokenKind.isOperand, TokenKind.isIdentifier]))
  | binary | closing => rw [Operand] at h; exact h.elim

theorem Chain.opens {e : Expr} (h : Chain lim d terms commas e) : OpensOperand e.firstToken := by
  induction e with
  | binary l op x ihl _ => rw [Chain] at h; exact ihl h.1
  | closing x w ih => rw [Chain] at h; exact ih h.1
  | leaf | unary | paren | call | emptyCall => rw [Chain] at h; exact Operand.opens h

/-- An operand is a chain of one operand. -/
theorem Operand.chain {e : Expr} (h : Operand lim d e) : Chain lim d terms commas e := by
  cases e with
  | binary | closing => rw [Operand] at h; exact h.elim
  | leaf | unary | paren | call | emptyCall => rw [Chain]; exact h

namespace OpensOperand

variable {t : Token} (h : OpensOperand t)
include h

theorem isPunct_eq_false {c : Char} (hc : c ≠ '(') : t.isPunct c = false := by
  rcases h with rfl | ⟨hk, -⟩ | hk
  · simp [Token.isPunct, Ne.symm hc]
  · exact isPunct_of_kind_ne (by simp [hk]) c
  · exact isPunct_of_kind_ne (by intro hp; simp [hp, TokenKind.isOperand, TokenKind.isIdentifier] at hk) c

theorem kind_ne_closer : t.kind ≠ .closer := by
  rcases h with rfl | ⟨hk, -⟩ | hk
  · simp
  · simp [hk]
  · intro hc; simp [hc, TokenKind.isOperand, TokenKind.isIdentifier] at hk

theorem isPunct_of_punct (hp : t.kind = .punct) : t.isPunct '(' = true := by
  rcases h with rfl | ⟨hk, -⟩ | hk
  · decide
  · simp [hk] at hp
  · simp [hp, TokenKind.isOperand, TokenKind.isIdentifier] at hk

end OpensOperand

/-- `)` and `,` may follow any tree. -/
theorem EndsBefore.closeParen (e : Expr) : EndsBefore e (some ⟨")", .punct⟩) :=
  fun _ _ => ⟨fun _ => by decide, fun _ => by decide⟩

theorem EndsBefore.comma (e : Expr) : EndsBefore e (some Token.comma) :=
  fun _ _ => ⟨fun _ => by decide, fun _ => by decide⟩

/-- A tree that ends in a closing word or a parenthesis may be followed by anything. -/
theorem EndsBefore.of_lastToken_none {e : Expr} (h : e.lastToken? = none) (next : Option Token) :
    EndsBefore e next := by
  intro t ht
  rw [h] at ht
  nomatch ht

theorem Stops.closeParen : Stops terms commas (some ⟨")", .punct⟩) :=
  .inr ⟨by decide, .inr ⟨rfl, by decide⟩⟩

/-! ### One step of the reader at a time -/

@[simp] theorem Reading.widen_read {m n : Nat} (h : m ≤ n) (e : Expr) (r : List Token) (hr : r.length < m) :
    (Reading.read e r hr).widen h = .read e r (Nat.lt_of_lt_of_le hr h) := rfl

theorem Reading.widen_widen {k m n : Nat} (h₁ : k ≤ m) (h₂ : m ≤ n) (x : Reading k) :
    (x.widen h₁).widen h₂ = x.widen (Nat.le_trans h₁ h₂) := by
  cases x <;> rfl

/-- One step of a chain: a comma and the operand after it. -/
theorem extend_comma {l x : Expr} {r : List Token} (hc : commas = true) {h1 : r.length < (x.tokens ++ r).length}
    (hx : operand lim d (x.tokens ++ r) = .read x r h1)
    (hh : lim.allowsHeight (binary l Token.comma x).height = true) :
    extend lim d terms commas l (Token.comma :: (x.tokens ++ r)) =
      (extend lim d terms commas (binary l Token.comma x) r).widen (by simp; omega) := by
  have hcomma : Token.comma.isPunct ',' = true := by decide
  rw [extend]
  simp only [hc, hcomma, ↓reduceIte, hx, hh]

/-- One step of a chain: an operator and the operand after it. -/
theorem extend_operator {l x : Expr} {op : Token} {r : List Token} (hop : op.kind = .operator)
    {h1 : r.length < (x.tokens ++ r).length} (hx : operand lim d (x.tokens ++ r) = .read x r h1)
    (hh : lim.allowsHeight (binary l op x).height = true) :
    extend lim d terms commas l (op :: (x.tokens ++ r)) =
      (extend lim d terms commas (binary l op x) r).widen (by simp; omega) := by
  rw [extend]
  simp [Token.isPunct, hop, hx, hh]

/-- One step of a chain: a closing word. -/
theorem extend_closing {l : Expr} {w : Token} {r : List Token} (hw : w.kind = .closer)
    (hh : lim.allowsHeight (closing l w).height = true) :
    extend lim d terms commas l (w :: r) = (extend lim d terms commas (closing l w) r).widen (by simp) := by
  rw [extend]
  simp [Token.isPunct, hw, hh]

/-- One step of a chain: an operand written beside the tree, which its first token starts. -/
theorem extend_juxt {l x : Expr} {t : Token} {rest r : List Token} (hxt : x.tokens = t :: rest)
    (hcomma : t.isPunct ',' = false) (hterm : ¬(t.kind = .word ∧ terms.any (sameWord t.text) = true))
    (hcloser : t.kind ≠ .closer) (hop : t.kind ≠ .operator) (hpunct : t.kind = .punct → t.isPunct '(' = true)
    {h1 : r.length < (x.tokens ++ r).length} (hx : operand lim d (x.tokens ++ r) = .read x r h1)
    (hh : lim.allowsHeight (binary l Token.juxtaposition x).height = true) :
    extend lim d terms commas l (x.tokens ++ r) =
      (extend lim d terms commas (binary l Token.juxtaposition x) r).widen (by simp) := by
  have hpunct' : (t.kind == .punct && !t.isPunct '(') = false := by
    by_cases hp : t.kind = .punct
    · simp [hp, hpunct hp]
    · simp [hp]
  have hterm' : (t.kind == .word && terms.any (sameWord t.text)) = false := by
    by_cases hw : t.kind = .word
    · simpa [hw] using hterm
    · simp [hw]
  revert h1 hx
  rw [hxt]
  intro h1 hx
  change operand lim d (t :: (rest ++ r)) = _ at hx
  change extend lim d terms commas l (t :: (rest ++ r)) = _
  rw [extend]
  simp [hcomma, hterm', hcloser, hop, hpunct', hx, hh]

/-- A chain stops before a token that ends it, and at the end of the tokens. -/
theorem extend_stop {e : Expr} {r : List Token} (hs : Stops terms commas r.head?) :
    extend lim d terms commas e r = .read e r (by simp) := by
  cases r with
  | nil => rw [extend]
  | cons t r =>
    simp only [Stops, List.head?_cons] at hs
    rw [extend]
    rcases hs with ⟨hc, hcf⟩ | ⟨hc, ⟨hw, hterm⟩ | ⟨hp, hparen⟩⟩
    · simp [hc, hcf]
    · simp [hc, hw, hterm]
    · simp [hc, hp, hparen]

/-- A name or literal is read as a leaf, unless it is a bare word before `(`; `*` only before
    `)` or `,`. -/
theorem operand_leaf {t : Token} {r : List Token} (h : Operand lim d (.leaf t))
    (hr : EndsBefore (.leaf t) r.head?) : operand lim d (t :: r) = .read (.leaf t) r (by simp) := by
  rw [Operand] at h
  obtain ⟨hd, hh, hk⟩ := h
  obtain ⟨hword, hop⟩ := hr t rfl
  rw [operand.eq_def]
  rcases hk with hk | ⟨hk, hstar⟩
  · have hp : t.kind ≠ .punct := by intro h; simp [h, TokenKind.isOperand, TokenKind.isIdentifier] at hk
    have hnop : t.kind ≠ .operator := by intro h; simp [h, TokenKind.isOperand, TokenKind.isIdentifier] at hk
    by_cases hw : t.kind = .word
    · simp [hd, isPunct_of_kind_ne hp, hw, startsWithPunct_eq, hword hw, TokenKind.isOperand,
        TokenKind.isIdentifier, Limits.node, height, hh]
    · simp [hd, isPunct_of_kind_ne hp, hnop, hw, hk, Limits.node, height, hh]
  · have hp : t.kind ≠ .punct := by simp [hk]
    simp [hd, isPunct_of_kind_ne hp, hk, hstar, startsWithPunct_eq, hop hk, Limits.node,
      height, hh]

theorem operand_unary {op : Token} {x : Expr} {r : List Token} (h : Operand lim d (.unary op x))
    {h1 : r.length < (x.tokens ++ r).length} (hx : operand lim (d + 1) (x.tokens ++ r) = .read x r h1) :
    operand lim d (op :: (x.tokens ++ r)) = .read (.unary op x) r
      (by simp only [List.length_cons, List.length_append]; omega) := by
  rw [Operand] at h
  obtain ⟨hd, hh, hk, hu, -⟩ := h
  have hstar : op.text ≠ "*" := by
    intro hs
    have : isLetters "*" = false := by simp [isLetters]
    simp [isUnaryOperator, hs, this] at hu
  have hp : op.kind ≠ .punct := by simp [hk]
  rw [operand.eq_def]
  simp [hd, isPunct_of_kind_ne hp, hk, hstar, hu, hx, Limits.node, height, hh]

theorem operand_paren {x : Expr} {r : List Token} (h : Operand lim d (.paren x)) {h1}
    (hx : chain lim (d + 1) [] true (x.tokens ++ ⟨")", .punct⟩ :: r) = .read x (⟨")", .punct⟩ :: r) h1) :
    operand lim d (⟨"(", .punct⟩ :: (x.tokens ++ ⟨")", .punct⟩ :: r)) = .read (.paren x) r (by simp; omega) := by
  rw [Operand] at h
  obtain ⟨hd, hh, -⟩ := h
  have hopen : (⟨"(", .punct⟩ : Token).isPunct '(' = true := by decide
  have hclose : (⟨")", .punct⟩ : Token).isPunct ')' = true := by decide
  rw [operand.eq_def]
  simp [hd, hopen, hx, Limits.close, hclose, Limits.node, height, hh]

theorem operand_call {f : Token} {a : Expr} {ts r : List Token} (h : Operand lim d (.call f a))
    (hts : ∃ t rest, ts = t :: rest ∧ t.isPunct ')' = false) {h1}
    (hx : chain lim (d + 1) [] true (ts ++ ⟨")", .punct⟩ :: r) = .read a (⟨")", .punct⟩ :: r) h1) :
    operand lim d (f :: ⟨"(", .punct⟩ :: (ts ++ ⟨")", .punct⟩ :: r)) =
      .read (.call f a) r (by simp; omega) := by
  rw [Operand] at h
  obtain ⟨hd, hh, hk, -⟩ := h
  obtain ⟨t, rest, rfl, ht⟩ := hts
  have hopen : (⟨"(", .punct⟩ : Token).isPunct '(' = true := by decide
  have hclose : (⟨")", .punct⟩ : Token).isPunct ')' = true := by decide
  have hp : f.kind ≠ .punct := by simp [hk]
  change chain lim (d + 1) [] true (t :: (rest ++ ⟨")", .punct⟩ :: r)) = _ at hx
  rw [operand.eq_def]
  simp [hd, isPunct_of_kind_ne hp, hk, startsWithPunct, hopen, ht, hx, Limits.close, hclose,
    Limits.node, height, hh]

theorem operand_emptyCall {f : Token} {r : List Token} (h : Operand lim d (.emptyCall f)) :
    operand lim d (f :: ⟨"(", .punct⟩ :: ⟨")", .punct⟩ :: r) =
      .read (.emptyCall f) r (by simp only [List.length_cons]; omega) := by
  rw [Operand] at h
  obtain ⟨hd, hh, hk⟩ := h
  have hopen : (⟨"(", .punct⟩ : Token).isPunct '(' = true := by decide
  have hclose : (⟨")", .punct⟩ : Token).isPunct ')' = true := by decide
  have hp : f.kind ≠ .punct := by simp [hk]
  rw [operand.eq_def]
  simp [hd, isPunct_of_kind_ne hp, hk, startsWithPunct, hopen, hclose, Limits.node, height, hh]

theorem chain_of_operand {e : Expr} {ts r : List Token} (he : ∃ h, operand lim d ts = .read e r h) :
    ∃ h, chain lim d terms commas ts = (extend lim d terms commas e r).widen h := by
  obtain ⟨h, he⟩ := he
  exact ⟨h, by rw [chain, he]⟩

/-! ### Completeness -/

/-- Every tree of the grammar is read back from its tokens: an operand by `operand`, and a chain by
    `chain` up to where `extend` goes on with the tokens after it. Induction on the tree: a binary
    node or a closing word is one step of its chain, every other node is read as an operand. -/
theorem read_tokens (e : Expr) :
    (∀ {d r}, Operand lim d e → EndsBefore e r.head? →
      ∃ h, operand lim d (e.tokens ++ r) = .read e r h) ∧
    (∀ {d terms commas r}, Chain lim d terms commas e → EndsBefore e r.head? →
      ∃ h, chain lim d terms commas (e.tokens ++ r) = (extend lim d terms commas e r).widen h) := by
  induction e with
  | leaf t =>
    have hop : ∀ {d r}, Operand lim d (leaf t) → EndsBefore (leaf t) r.head? →
        ∃ h, operand lim d ((leaf t).tokens ++ r) = .read (leaf t) r h :=
      fun h hr => ⟨_, operand_leaf h hr⟩
    exact ⟨hop, fun h hr => chain_of_operand (hop (by rwa [Chain] at h) hr)⟩
  | unary op x ihx =>
    have hop : ∀ {d r}, Operand lim d (unary op x) → EndsBefore (unary op x) r.head? →
        ∃ h, operand lim d ((unary op x).tokens ++ r) = .read (unary op x) r h := by
      intro d r h hr
      have hx : Operand lim (d + 1) x := by rw [Operand] at h; exact h.2.2.2.2
      obtain ⟨h1, hxr⟩ := ihx.1 hx hr
      exact ⟨_, operand_unary h hxr⟩
    exact ⟨hop, fun h hr => chain_of_operand (hop (by rwa [Chain] at h) hr)⟩
  | binary l op x ihl ihx =>
    refine ⟨fun h => by rw [Operand] at h; exact h.elim, fun {d terms commas r} h hr => ?_⟩
    rw [Chain] at h
    obtain ⟨hl, hx, hh, hop⟩ := h
    obtain ⟨h1, hxr⟩ := ihx.1 hx hr
    rcases hop with ⟨rfl, hc, hend⟩ | ⟨hk, hend⟩ | ⟨rfl, hstart, hend⟩
    · -- a comma, folded inside parentheses
      obtain ⟨h2, hlr⟩ := ihl.2 (r := Token.comma :: (x.tokens ++ r)) hl hend
      rw [show (binary l Token.comma x).tokens ++ r = l.tokens ++ Token.comma :: (x.tokens ++ r) by
        simp [tokens, Token.comma, Token.juxtaposition], hlr, extend_comma hc hxr hh, Reading.widen_widen]
      exact ⟨_, rfl⟩
    · -- an operator
      have hne : op ≠ Token.juxtaposition := by rintro rfl; simp [Token.juxtaposition] at hk
      obtain ⟨h2, hlr⟩ := ihl.2 (r := op :: (x.tokens ++ r)) hl hend
      rw [show (binary l op x).tokens ++ r = l.tokens ++ op :: (x.tokens ++ r) by simp [tokens, hne], hlr,
        extend_operator hk hxr hh, Reading.widen_widen]
      exact ⟨_, rfl⟩
    · -- an operand written beside the tree: its first token decides that
      obtain ⟨rest, hrest⟩ := tokens_eq_firstToken_cons x
      have hopen := Operand.opens hx
      obtain ⟨h2, hlr⟩ := ihl.2 (r := x.tokens ++ r) hl (by rw [hrest]; exact hend)
      rw [show (binary l Token.juxtaposition x).tokens ++ r = l.tokens ++ (x.tokens ++ r) by simp [tokens], hlr,
        extend_juxt hrest (hopen.isPunct_eq_false (by decide)) hstart.2 hopen.kind_ne_closer hstart.1
          hopen.isPunct_of_punct hxr hh, Reading.widen_widen]
      exact ⟨_, rfl⟩
  | closing x w ihx =>
    refine ⟨fun h => by rw [Operand] at h; exact h.elim, fun {d terms commas r} h hr => ?_⟩
    rw [Chain] at h
    obtain ⟨hx, hh, hw, hend⟩ := h
    obtain ⟨h1, hxr⟩ := ihx.2 (r := w :: r) hx hend
    rw [show (closing x w).tokens ++ r = x.tokens ++ w :: r by simp [tokens], hxr, extend_closing hw hh,
      Reading.widen_widen]
    exact ⟨_, rfl⟩
  | call f a iha =>
    have hop : ∀ {d r}, Operand lim d (call f a) → EndsBefore (call f a) r.head? →
        ∃ h, operand lim d ((call f a).tokens ++ r) = .read (call f a) r h := by
      intro d r h _
      have ha : Chain lim (d + 1) [] true a := by rw [Operand] at h; exact h.2.2.2
      obtain ⟨h1, har⟩ := iha.2 (r := ⟨")", .punct⟩ :: r) ha (EndsBefore.closeParen a)
      rw [extend_stop Stops.closeParen, Reading.widen_read] at har
      obtain ⟨rest, hrest⟩ := tokens_eq_firstToken_cons a
      rw [show (call f a).tokens ++ r = f :: ⟨"(", .punct⟩ :: (a.tokens ++ ⟨")", .punct⟩ :: r) by simp [tokens]]
      exact ⟨_, operand_call h ⟨_, rest, hrest, (Chain.opens ha).isPunct_eq_false (by decide)⟩ har⟩
    exact ⟨hop, fun h hr => chain_of_operand (hop (by rwa [Chain] at h) hr)⟩
  | emptyCall f =>
    have hop : ∀ {d r}, Operand lim d (emptyCall f) → EndsBefore (emptyCall f) r.head? →
        ∃ h, operand lim d ((emptyCall f).tokens ++ r) = .read (emptyCall f) r h :=
      fun h _ => ⟨_, operand_emptyCall h⟩
    exact ⟨hop, fun h hr => chain_of_operand (hop (by rwa [Chain] at h) hr)⟩
  | paren x ihx =>
    have hop : ∀ {d r}, Operand lim d (paren x) → EndsBefore (paren x) r.head? →
        ∃ h, operand lim d ((paren x).tokens ++ r) = .read (paren x) r h := by
      intro d r h _
      have hx : Chain lim (d + 1) [] true x := by rw [Operand] at h; exact h.2.2
      obtain ⟨h1, hxr⟩ := ihx.2 (r := ⟨")", .punct⟩ :: r) hx (EndsBefore.closeParen x)
      rw [extend_stop Stops.closeParen, Reading.widen_read] at hxr
      rw [show (paren x).tokens ++ r = ⟨"(", .punct⟩ :: (x.tokens ++ ⟨")", .punct⟩ :: r) by simp [tokens]]
      exact ⟨_, operand_paren h hxr⟩
    exact ⟨hop, fun h hr => chain_of_operand (hop (by rwa [Chain] at h) hr)⟩

/-- A chain of the grammar is read back from its tokens, up to a token that stops it. -/
theorem chain_tokens_append {e : Expr} {r : List Token} (h : Chain lim d terms commas e)
    (hend : EndsBefore e r.head?) (hs : Stops terms commas r.head?) :
    ∃ h', chain lim d terms commas (e.tokens ++ r) = .read e r h' := by
  obtain ⟨hw, he⟩ := (read_tokens e).2 h hend
  rw [he, extend_stop hs, Reading.widen_read]
  exact ⟨_, rfl⟩

end SqlSchema.Expr
