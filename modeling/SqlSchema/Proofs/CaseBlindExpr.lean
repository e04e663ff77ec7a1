import SqlSchema.Proofs.CaseBlindLexing
import SqlSchema.Expr.Reader

/-! # Expressions do not see ASCII case

`Expr.lower` lowers the texts of a tree's tokens. The expression reader reads the lowered tokens as
the lowered tree and leaves the lowered tokens, and it fails on the lowered tokens exactly where it
fails on the tokens (`Expr.read_lowered`): its tests look at a token's kind, compare its text with
texts that have no letters, or compare words up to case, and the limits on depth and height do not
look at texts at all. The printer writes the lowered tree as the tree's text, up to case
(`Expr.render_lower`): only its spacing depends on the tree, and never on a letter's case. -/

namespace SqlSchema

/-! ### Texts without letters -/

theorem map_toLower_eq_iff {l w : List Char} (hw : ∀ c ∈ w, c.isAlpha = false) :
    l.map Char.toLower = w ↔ l = w := by
  induction w generalizing l with
  | nil => simp
  | cons c w ih =>
    cases l with
    | nil => simp
    | cons a l =>
      simp only [List.map_cons, List.cons.injEq, Lexer.toLower_eq_iff (hw c (by simp)),
        ih (fun x hx => hw x (by simp [hx]))]

/-- Only `w` itself lowers to a text `w` without letters. -/
theorem toLower_eq_iff_of_noLetters {s w : String} (hw : ∀ c ∈ w.toList, c.isAlpha = false) :
    s.toLower = w ↔ s = w := by
  rw [← String.toList_inj, ← String.toList_inj, String.toLower, String.toList_map, map_toLower_eq_iff hw]

theorem toLower_beq_of_noLetters {s w : String} (hw : ∀ c ∈ w.toList, c.isAlpha = false) :
    (s.toLower == w) = (s == w) := by
  rw [Bool.eq_iff_iff, beq_iff_eq, beq_iff_eq, toLower_eq_iff_of_noLetters hw]

theorem toLower_append (a b : String) : (a ++ b).toLower = a.toLower ++ b.toLower := by
  rw [← String.toList_inj]
  simp [String.toLower, String.toList_map]

theorem toLower_toLower (s : String) : s.toLower.toLower = s.toLower := by
  simp [String.toLower, String.map_map, Function.comp_def]

theorem toLower_intercalate (sep : String) :
    ∀ l : List String, (sep.intercalate l).toLower = sep.toLower.intercalate (l.map String.toLower)
  | [] => by
    rw [String.intercalate_nil, List.map_nil, String.intercalate_nil, toLower_eq_iff_of_noLetters (by simp)]
  | [a] => by simp
  | a :: b :: l => by
    rw [String.intercalate_cons_cons, List.map_cons, List.map_cons, String.intercalate_cons_cons, toLower_append,
      toLower_append, ← List.map_cons, toLower_intercalate sep (b :: l)]

theorem isEmpty_of_toLower_eq {a b : String} (h : a.toLower = b.toLower) : a.isEmpty = b.isEmpty := by
  rw [Bool.eq_iff_iff, String.isEmpty_iff, String.isEmpty_iff,
    ← toLower_eq_iff_of_noLetters (w := "") (by simp), h, toLower_eq_iff_of_noLetters (by simp)]

/-- Whether a text starts with `-` does not depend on its case. -/
theorem startsWith_minus_toLower (s : String) : s.toLower.startsWith "-" = s.startsWith "-" := by
  rw [Bool.eq_iff_iff, String.startsWith_string_iff, String.startsWith_string_iff, String.toLower,
    String.toList_map]
  cases s.toList with
  | nil => simp
  | cons c l => simpa [eq_comm] using Lexer.toLower_eq_iff (c := c) (q := '-') (by simp)

theorem head_isDigit_toLower (s : String) :
    s.toLower.toList.head?.map Char.isDigit = s.toList.head?.map Char.isDigit := by
  simp [String.toLower, String.toList_map, List.head?_map, Function.comp_def]

/-! ### Tokens -/

namespace Token

@[simp] theorem isPunct_lower (t : Token) {c : Char} (hc : c.isAlpha = false) : t.lower.isPunct c = t.isPunct c := by
  simp only [isPunct, lower_kind, lower_text, String.toLower, String.toList_map]
  congr 2
  rw [Bool.eq_iff_iff, beq_iff_eq, beq_iff_eq, map_toLower_eq_iff (by simpa using hc)]

@[simp] theorem comma_lower : comma.lower = comma := by
  simp [comma, lower, toLower_eq_iff_of_noLetters]

@[simp] theorem juxtaposition_lower : juxtaposition.lower = juxtaposition := by
  simp [juxtaposition, lower, toLower_eq_iff_of_noLetters]

end Token

namespace Quoted

theorem double_lower {q : Char} (hq : q.isAlpha = false) (cs : List Char) :
    double q (cs.map Char.toLower) = (double q cs).map Char.toLower := by
  have hql : q.toLower = q := (Lexer.toLower_eq_iff hq).mpr rfl
  induction cs with
  | nil => rfl
  | cons c cs ih =>
    by_cases hc : c = q
    · subst hc
      simp [double, hql, ih]
    · simp [double, hc, Lexer.toLower_eq_iff hq, ih]

theorem enquote_toLower {q : Char} (hq : q.isAlpha = false) (s : String) :
    (enquote q s.toLower).toLower = (enquote q s).toLower := by
  rw [← String.toList_inj]
  simp [enquote, String.toLower, String.toList_map, double_lower hq, Function.comp_def]

end Quoted

theorem Token.render_lower (t : Token) : t.lower.render.toLower = t.render.toLower := by
  cases t with
  | mk text kind =>
    cases kind <;> simp [Token.render, Token.lower, toLower_append, toLower_toLower,
      Quoted.enquote_toLower (q := '"') (by simp), Quoted.enquote_toLower (q := Token.apostrophe) (by decide),
      Quoted.enquote_toLower (q := Token.backquote) (by decide)]

namespace Expr

/-- The tree with the texts of its tokens in lower case. -/
def lower : Expr → Expr
  | .leaf t => .leaf t.lower
  | .unary op e => .unary op.lower e.lower
  | .binary l op r => .binary l.lower op.lower r.lower
  | .closing e w => .closing e.lower w.lower
  | .call f a => .call f.lower a.lower
  | .emptyCall f => .emptyCall f.lower
  | .paren e => .paren e.lower

@[simp] theorem height_lower (e : Expr) : e.lower.height = e.height := by
  induction e <;> simp [lower, height, *]

theorem isLetters_toLower (s : String) : isLetters s.toLower = isLetters s := by
  simp [isLetters, String.all_bool_eq, String.toLower, String.toList_map, Function.comp_def]

@[simp] theorem isUnaryOperator_lower (t : Token) : isUnaryOperator t.lower = isUnaryOperator t := by
  simp only [isUnaryOperator, Token.lower_text, isLetters_toLower,
    toLower_beq_of_noLetters (w := "-") (by simp), toLower_beq_of_noLetters (w := "+") (by simp),
    toLower_beq_of_noLetters (w := "~") (by simp), toLower_beq_of_noLetters (w := "!") (by simp)]

theorem startsWithPunct_lower (ts : List Token) {c : Char} (hc : c.isAlpha = false) :
    startsWithPunct (ts.map Token.lower) c = startsWithPunct ts c := by
  cases ts <;> simp [startsWithPunct, hc]

theorem lastToken?_lower (e : Expr) : e.lower.lastToken? = e.lastToken?.map Token.lower := by
  induction e <;> simp [lower, lastToken?, *]

/-- The printer writes the lowered tree as the tree's text, up to case: its choices of spacing look
    at no letter's case. -/
theorem render_lower (e : Expr) : e.lower.render.toLower = e.render.toLower := by
  induction e with
  | leaf t => exact Token.render_lower t
  | unary op e ih =>
    have hs : e.lower.render.startsWith "-" = e.render.startsWith "-" := by
      rw [← startsWith_minus_toLower, ih, startsWith_minus_toLower]
    simp only [lower, render, Token.lower_text, isLetters_toLower, hs]
    split <;> simp [toLower_append, Token.render_lower, ih]
  | binary l op r ihl ihr =>
    have hd : (r.lower.render.toList.head?.map Char.isDigit) = (r.render.toList.head?.map Char.isDigit) := by
      rw [← head_isDigit_toLower, ihr, head_isDigit_toLower]
    simp only [lower, render, Token.lower_kind, Token.lower_text, lastToken?_lower, Option.map_map, hd,
      Function.comp_def,
      toLower_beq_of_noLetters (w := ",") (by simp), toLower_beq_of_noLetters (w := "") (by simp),
      toLower_beq_of_noLetters (w := ".") (by simp)]
    split_ifs <;> simp [toLower_append, Token.render_lower, ihl, ihr]
  | closing e w ih => simp [lower, render, toLower_append, Token.render_lower, ih]
  | call f a ih => simp [lower, render, toLower_append, Token.render_lower, ih]
  | emptyCall f => simp [lower, render, toLower_append, Token.render_lower]
  | paren e ih => simp [lower, render, toLower_append, ih]

/-! ### Reading lowered tokens -/

/-- The reading `y` is the reading `x` with its tree and the tokens it left in lower case. -/
def Reading.Lowered {m n : Nat} (x : Reading m) (y : Reading n) : Prop :=
  y.expr? = x.expr?.map lower ∧ y.rest = x.rest.map Token.lower

namespace Reading

variable {m m' n n' : Nat}

@[simp] theorem expr?_widen (h : m ≤ n) (x : Reading m) : (x.widen h).expr? = x.expr? := by
  cases x <;> rfl

@[simp] theorem rest_widen (h : m ≤ n) (x : Reading m) : (x.widen h).rest = x.rest := by
  cases x <;> rfl

theorem Lowered.widen {x : Reading m} {y : Reading m'} (hxy : x.Lowered y) (h : m ≤ n) (h' : m' ≤ n') :
    (x.widen h).Lowered (y.widen h') := by
  simpa [Lowered] using hxy

theorem lowered_failed (r : List Token) : (Reading.failed r : Reading m).Lowered (Reading.failed (r.map Token.lower) : Reading n) :=
  ⟨rfl, rfl⟩

/-- A lowered reading read the lowered tree and left the lowered tokens, or failed where the
    reading failed. -/
theorem Lowered.cases {x : Reading m} {y : Reading m'} (hxy : x.Lowered y) :
    (∃ e r h h', x = .read e r h ∧ y = .read e.lower (r.map Token.lower) h') ∨
      (∃ r, x = .failed r ∧ y = .failed (r.map Token.lower)) := by
  obtain ⟨he, hr⟩ := hxy
  cases x with
  | read e r h =>
    cases y with
    | read e' r' h' =>
      simp only [expr?, Option.map_some, Option.some.injEq, rest] at he hr
      subst he hr
      exact .inl ⟨e, r, h, h', rfl, rfl⟩
    | failed r' => cases he
  | failed r =>
    cases y with
    | read e' r' h' => cases he
    | failed r' =>
      simp only [rest] at hr
      exact .inr ⟨r, rfl, hr ▸ rfl⟩

/-- Two readings that lower to the same reading both read, trees and tokens left the same up to case,
    or both fail. -/
theorem Lowered.both {m m' k : Nat} {x : Reading m} {x' : Reading m'} {y : Reading k} (h : x.Lowered y)
    (h' : x'.Lowered y) :
    (∃ e r hr e' r' hr', x = .read e r hr ∧ x' = .read e' r' hr' ∧ e.lower = e'.lower ∧
      r.map Token.lower = r'.map Token.lower) ∨ (∃ r r', x = .failed r ∧ x' = .failed r') := by
  obtain ⟨he, hr⟩ := h
  obtain ⟨he', hr'⟩ := h'
  cases x with
  | read e r hr0 =>
    cases x' with
    | read e' r' hr0' =>
      simp only [expr?, rest, Option.map_some] at he hr he' hr'
      exact .inl ⟨e, r, hr0, e', r', hr0', rfl, rfl, Option.some.inj (he.symm.trans he'), hr.symm.trans hr'⟩
    | failed r' => simp [expr?] at he he'; rw [he] at he'; cases he'
  | failed r =>
    cases x' with
    | read e' r' hr0' => simp [expr?] at he he'; rw [he] at he'; cases he'
    | failed r' => exact .inr ⟨r, r', rfl, rfl⟩

/-- Two branches on equivalent conditions give lowered readings when the branches taken do. -/
theorem lowered_ite {c c' : Prop} [Decidable c] [Decidable c'] (hc : c ↔ c') {x y : Reading m}
    {x' y' : Reading m'} (h1 : c → x.Lowered x') (h2 : ¬c → y.Lowered y') :
    (if c then x else y).Lowered (if c' then x' else y') := by
  by_cases h : c
  · rw [if_pos h, if_pos (hc.mp h)]
    exact h1 h
  · rw [if_neg h, if_neg (mt hc.mpr h)]
    exact h2 h

end Reading

theorem Limits.node_lowered (lim : Limits) (e : Expr) (r : List Token) {h : r.length < n}
    {h' : (r.map Token.lower).length < n'} :
    (lim.node e r h).Lowered (lim.node e.lower (r.map Token.lower) h') := by
  unfold Limits.node
  simp only [height_lower]
  split
  · exact ⟨rfl, rfl⟩
  · exact Reading.lowered_failed r

theorem Limits.close_lowered (lim : Limits) (e : Expr) (ts : List Token) {h : ts.length < n}
    {h' : (ts.map Token.lower).length < n'} :
    (lim.close e ts h).Lowered (lim.close e.lower (ts.map Token.lower) h') := by
  cases ts with
  | nil => exact Reading.lowered_failed []
  | cons c r =>
    revert h'
    rw [List.map_cons]
    intro h'
    simp only [Limits.close, Token.isPunct_lower c (c := ')') (by simp)]
    split
    · exact Limits.node_lowered lim e r
    · exact Reading.lowered_failed (c :: r)

variable {lim : Limits}


/-- The readers read the lowered tokens as the lowered tree and leave the lowered tokens: `operand`,
    `extend` and `chain` together, by strong induction on the number of tokens, in the order in which
    they call each other on the same tokens. -/
theorem lowered_of_length (n : Nat) :
    (∀ d ts, ts.length = n → (operand lim d ts).Lowered (operand lim d (ts.map Token.lower))) ∧
    (∀ d terms commas lhs ts, ts.length = n →
      (extend lim d terms commas lhs ts).Lowered (extend lim d terms commas lhs.lower (ts.map Token.lower))) ∧
    (∀ d terms commas ts, ts.length = n →
      (chain lim d terms commas ts).Lowered (chain lim d terms commas (ts.map Token.lower))) := by
  induction n using Nat.strongRecOn with
  | _ n ih =>
  have hop : ∀ d ts, ts.length = n → (operand lim d ts).Lowered (operand lim d (ts.map Token.lower)) := by
    intro d ts hn
    rw [operand.eq_def, operand.eq_def]
    by_cases hd : lim.allowsDepth d = true
    swap
    · simp only [hd, Bool.not_false, ↓reduceIte]
      exact Reading.lowered_failed ts
    simp only [hd, Bool.not_true, Bool.false_eq_true, ↓reduceIte]
    cases ts with
    | nil => exact Reading.lowered_failed []
    | cons t r =>
      rw [List.map_cons]
      simp only [Token.isPunct_lower t (c := '(') (by simp), Token.lower_kind, Token.lower_text,
        startsWithPunct_lower r (c := ')') (by simp), startsWithPunct_lower r (c := ',') (by simp),
        startsWithPunct_lower r (c := '(') (by simp), isUnaryOperator_lower,
        toLower_beq_of_noLetters (w := "*") (by simp)]
      split_ifs with h1 h2 h3 h4 h5
      · -- a group
        obtain ⟨e, r1, _, _, hx, hy⟩ | ⟨r1, hx, hy⟩ :=
          ((ih r.length (by simp at hn; omega)).2.2 (d + 1) [] true r rfl).cases
        · rw [hx, hy]
          exact Limits.close_lowered lim e.paren r1
        · rw [hx, hy]
          exact Reading.lowered_failed r1
      · -- `*` before `)` or `,`
        exact Limits.node_lowered lim (leaf t) r
      · -- a unary operator and its operand
        obtain ⟨e, r1, _, _, hx, hy⟩ | ⟨r1, hx, hy⟩ := ((ih r.length (by simp at hn; omega)).1 (d + 1) r rfl).cases
        · rw [hx, hy]
          exact Limits.node_lowered lim (unary t e) r1
        · rw [hx, hy]
          exact Reading.lowered_failed r1
      · -- a call, with or without arguments
        rcases r with _ | ⟨p, _ | ⟨c, r2⟩⟩
        · exact Reading.lowered_failed []
        · exact Reading.lowered_failed []
        rw [List.map_cons, List.map_cons]
        simp only [Token.isPunct_lower c (c := ')') (by simp)]
        split_ifs with hc
        · exact Limits.node_lowered lim (emptyCall t) r2
        · have hargs : (chain lim (d + 1) [] true (c :: r2)).Lowered
              (chain lim (d + 1) [] true (c.lower :: r2.map Token.lower)) :=
            (ih (c :: r2).length (by simp at hn ⊢; omega)).2.2 (d + 1) [] true (c :: r2) rfl
          obtain ⟨e, r1, _, _, hx, hy⟩ | ⟨r1, hx, hy⟩ := hargs.cases
          · rw [hx, hy]
            exact Limits.close_lowered lim (call t e) r1
          · rw [hx, hy]
            exact Reading.lowered_failed r1
      · -- a name or a literal
        simp only [h5, ↓reduceIte]
        exact Limits.node_lowered lim (leaf t) r
      · simp only [h5, Bool.false_eq_true, ↓reduceIte]
        exact Reading.lowered_failed r
  have hext : ∀ d terms commas lhs ts, ts.length = n →
      (extend lim d terms commas lhs ts).Lowered (extend lim d terms commas lhs.lower (ts.map Token.lower)) := by
    intro d terms commas lhs ts hn
    cases ts with
    | nil =>
      rw [List.map_nil, extend, extend]
      exact ⟨rfl, rfl⟩
    | cons t r =>
      rw [List.map_cons, extend, extend]
      have hw : sameWord t.text.toLower = sameWord t.text := funext (Lexer.sameWord_toLower t.text)
      simp only [Token.isPunct_lower t (c := ',') (by simp), Token.isPunct_lower t (c := '(') (by simp),
        Token.lower_kind, Token.lower_text, hw]
      have hr : r.length < n := by simp at hn; omega
      -- the two sides test the same conditions in the same order
      refine Reading.lowered_ite Iff.rfl (fun _ => ?_) fun _ => ?_
      · refine Reading.lowered_ite Iff.rfl (fun _ => ?_) fun _ => ⟨rfl, rfl⟩
        -- a comma and the operand after it
        obtain ⟨rhs, r1, h1, _, hx, hy⟩ | ⟨r1, hx, hy⟩ := ((ih r.length hr).1 d r rfl).cases
        · rw [hx, hy]
          refine Reading.lowered_ite (by simp [height]) (fun _ => ?_) fun _ => Reading.lowered_failed r1
          have hmore := (ih r1.length (by omega)).2.1 d terms commas (lhs.binary Token.comma rhs) r1 rfl
          simp only [lower, Token.comma_lower] at hmore
          exact hmore.widen _ _
        · rw [hx, hy]
          exact Reading.lowered_failed r1
      refine Reading.lowered_ite Iff.rfl (fun _ => ⟨rfl, rfl⟩) fun _ => ?_
      refine Reading.lowered_ite Iff.rfl (fun _ => ?_) fun _ => ?_
      · -- a closing word
        refine Reading.lowered_ite (by simp [height]) (fun _ => ?_) fun _ => Reading.lowered_failed r
        exact ((ih r.length hr).2.1 d terms commas (lhs.closing t) r rfl).widen _ _
      refine Reading.lowered_ite Iff.rfl (fun _ => ?_) fun _ => ?_
      · -- an operator and the operand after it
        obtain ⟨rhs, r1, h1, _, hx, hy⟩ | ⟨r1, hx, hy⟩ := ((ih r.length hr).1 d r rfl).cases
        · rw [hx, hy]
          refine Reading.lowered_ite (by simp [height]) (fun _ => ?_) fun _ => Reading.lowered_failed r1
          exact ((ih r1.length (by omega)).2.1 d terms commas (lhs.binary t rhs) r1 rfl).widen _ _
        · rw [hx, hy]
          exact Reading.lowered_failed r1
      refine Reading.lowered_ite Iff.rfl (fun _ => ⟨rfl, rfl⟩) fun _ => ?_
      -- an operand written beside the tree, read from the same tokens
      have hjux : (operand lim d (t :: r)).Lowered (operand lim d (t.lower :: r.map Token.lower)) :=
        hop d (t :: r) hn
      obtain ⟨rhs, r1, h1, _, hx, hy⟩ | ⟨r1, hx, hy⟩ := hjux.cases
      · rw [hx, hy]
        refine Reading.lowered_ite (by simp [height]) (fun _ => ?_) fun _ => Reading.lowered_failed r1
        have hmore := (ih r1.length (by simp at h1; omega)).2.1 d terms commas
          (lhs.binary Token.juxtaposition rhs) r1 rfl
        simp only [lower, Token.juxtaposition_lower] at hmore
        exact hmore.widen _ _
      · rw [hx, hy]
        exact Reading.lowered_failed r1
  refine ⟨hop, hext, ?_⟩
  intro d terms commas ts hn
  rw [chain, chain]
  obtain ⟨lhs, r1, h1, _, hx, hy⟩ | ⟨r1, hx, hy⟩ := (hop d ts hn).cases
  · rw [hx, hy]
    exact ((ih r1.length (by omega)).2.1 d terms commas lhs r1 rfl).widen _ _
  · rw [hx, hy]
    exact Reading.lowered_failed r1

/-- The reader reads the lowered tokens as the lowered tree, and fails on them where it fails. -/
theorem read_lowered (terms : List String) (ts : List Token) :
    (read terms ts).Lowered (read terms (ts.map Token.lower)) :=
  (lowered_of_length ts.length).2.2 0 terms false ts rfl

theorem readOperand_lowered (ts : List Token) : (readOperand ts).Lowered (readOperand (ts.map Token.lower)) :=
  (lowered_of_length ts.length).1 0 ts rfl

end Expr

end SqlSchema
