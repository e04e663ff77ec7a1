import SqlSchema.Expr.Printer

/-! # Reading expressions

The reader folds operands left to right. A chain starts with an operand and then, token by token:
a comma joins the next operand when commas are folded (inside parentheses) and stops the chain
otherwise; a bare word from the terminator list stops it; a closing word wraps the tree so far; an
operator joins the next operand; other punctuation than `(` stops it; anything else is an operand
written beside the tree so far and joined by juxtaposition.

An operand is a group `( chain )`, a `*` before `)` or `,`, a unary operator (`-`, `+`, `~`, `!` or
an operator word) with its operand, a call `f ( chain )` or `f ( )` of a bare word `f`, or a single
name or literal.

Two limits bound the trees: an operand is not read at nesting depth 256 or more (groups, call
arguments and unary operands nest), and no node may stand higher than 1000. Reading keeps the tokens
it has taken also when it fails: a failure reports the tokens that were left at that point.

The three readers are one well-founded definition on the length of the tokens, then the rank
operand < chain extension < chain: a call on the same tokens goes to a lower rank. -/

namespace SqlSchema.Expr

/-- Bounds on the trees a reader builds; `none` leaves a bound out. -/
structure Limits where
  /-- An operand is read only at a nesting depth below this. -/
  depth : Option Nat
  /-- No node stands higher than this. -/
  height : Option Nat
  deriving DecidableEq, Repr

namespace Limits

/-- The limits of statement text: depth 256, height 1000. -/
def standard : Limits := ⟨some 256, some 1000⟩

/-- No limits: the plain left-to-right fold. -/
def unbounded : Limits := ⟨none, none⟩

/-- An operand may start at nesting depth `d`. -/
def allowsDepth (lim : Limits) (d : Nat) : Bool :=
  match lim.depth with
  | some m => d < m
  | none => true

/-- A node of height `h` may be built. -/
def allowsHeight (lim : Limits) (h : Nat) : Bool :=
  match lim.height with
  | some m => h ≤ m
  | none => true

end Limits

/-- What reading from a list of tokens gave: a tree with the tokens after it, fewer than `n`, or a
    failure with the tokens left when reading stopped. -/
inductive Reading (n : Nat) where
  | read (e : Expr) (rest : List Token) (shorter : rest.length < n)
  | failed (rest : List Token)

namespace Reading

/-- The same reading under a larger bound. -/
def widen (h : m ≤ n) : Reading m → Reading n
  | .read e rest hr => .read e rest (Nat.lt_of_lt_of_le hr h)
  | .failed rest => .failed rest

/-- The tree read, if reading succeeded. -/
def expr? : Reading n → Option Expr
  | .read e _ _ => some e
  | .failed _ => none

/-- The tokens left, after the tree or where reading stopped. -/
def rest : Reading n → List Token
  | .read _ r _ => r
  | .failed r => r

end Reading

/-- The first token is the punctuation `c`. -/
def startsWithPunct (ts : List Token) (c : Char) : Bool :=
  match ts with
  | t :: _ => t.isPunct c
  | [] => false

/-- An operator that may stand before an operand: `-`, `+`, `~`, `!`, or a word. -/
def isUnaryOperator (t : Token) : Bool :=
  t.text == "-" || t.text == "+" || t.text == "~" || t.text == "!" || isLetters t.text

/-- `e` with the tokens `rest` after it, unless `e` stands too high. -/
def Limits.node (lim : Limits) (e : Expr) (rest : List Token) (h : rest.length < n) : Reading n :=
  if lim.allowsHeight e.height then .read e rest h else .failed rest

/-- Closes a group or call: `e` when the tokens start with `)`, which it takes. -/
def Limits.close (lim : Limits) (e : Expr) : (ts : List Token) → ts.length < n → Reading n
  | c :: r, h => if c.isPunct ')' then lim.node e r (by simp at h; omega) else .failed (c :: r)
  | [], _ => .failed []

mutual

/-- Reads one operand at nesting depth `depth`. -/
def operand (lim : Limits) (depth : Nat) (ts : List Token) : Reading ts.length :=
  if !lim.allowsDepth depth then .failed ts
  else
    match ts with
    | [] => .failed []
    | t :: r =>
      if t.isPunct '(' then
        match chain lim (depth + 1) [] true r with
        | .read inner r1 h1 => lim.close (.paren inner) r1 (by simp; omega)
        | .failed r1 => .failed r1
      else if t.kind == .operator && t.text == "*" &&
          (startsWithPunct r ')' || startsWithPunct r ',') then
        lim.node (.leaf t) r (by simp)
      else if t.kind == .operator && isUnaryOperator t then
        match operand lim (depth + 1) r with
        | .read e r1 h1 => lim.node (.unary t e) r1 (by simp; omega)
        | .failed r1 => .failed r1
      else if t.kind == .word && startsWithPunct r '(' then
        match r with
        | _ :: c :: r2 =>
          if c.isPunct ')' then lim.node (.emptyCall t) r2 (by simp; omega)
          else
            match chain lim (depth + 1) [] true (c :: r2) with
            | .read args r1 h1 => lim.close (.call t args) r1 (by simp at h1 ⊢; omega)
            | .failed r1 => .failed r1
        | _ => .failed []
      else if t.kind.isOperand then lim.node (.leaf t) r (by simp)
      else .failed r
termination_by (ts.length, 0)

/-- Extends the tree `lhs` with what follows in `ts`, as the chain rules say. -/
def extend (lim : Limits) (depth : Nat) (terms : List String) (commas : Bool) (lhs : Expr)
    (ts : List Token) : Reading (ts.length + 1) :=
  match ts with
  | [] => .read lhs [] (by simp)
  | t :: r =>
    if t.isPunct ',' then
      if commas then
        match operand lim depth r with
        | .read rhs r1 h1 =>
          let e := Expr.binary lhs Token.comma rhs
          if lim.allowsHeight e.height then
            (extend lim depth terms commas e r1).widen (by simp; omega)
          else .failed r1
        | .failed r1 => .failed r1
      else .read lhs (t :: r) (by simp)
    else if t.kind == .word && terms.any (sameWord t.text) then .read lhs (t :: r) (by simp)
    else if t.kind == .closer then
      let e := Expr.closing lhs t
      if lim.allowsHeight e.height then (extend lim depth terms commas e r).widen (by simp)
      else .failed r
    else if t.kind == .operator then
      match operand lim depth r with
      | .read rhs r1 h1 =>
        let e := Expr.binary lhs t rhs
        if lim.allowsHeight e.height then
          (extend lim depth terms commas e r1).widen (by simp; omega)
        else .failed r1
      | .failed r1 => .failed r1
    else if t.kind == .punct && !t.isPunct '(' then .read lhs (t :: r) (by simp)
    else
      match operand lim depth (t :: r) with
      | .read rhs r1 h1 =>
        let e := Expr.binary lhs Token.juxtaposition rhs
        if lim.allowsHeight e.height then
          (extend lim depth terms commas e r1).widen (by simp at h1 ⊢; omega)
        else .failed r1
      | .failed r1 => .failed r1
termination_by (ts.length, 1)

/-- Reads a chain: an operand extended as far as the chain rules allow. -/
def chain (lim : Limits) (depth : Nat) (terms : List String) (commas : Bool) (ts : List Token) :
    Reading ts.length :=
  match operand lim depth ts with
  | .read lhs r h => (extend lim depth terms commas lhs r).widen (by omega)
  | .failed r => .failed r
termination_by (ts.length, 2)

end

/-- Reads one expression from the front of `ts` under the standard limits. It stops before a comma,
    before a bare word of `terms` (up to ASCII case), and before punctuation other than `(`. -/
def read (terms : List String) (ts : List Token) : Reading ts.length :=
  chain Limits.standard 0 terms false ts

/-- Reads one operand from the front of `ts` under the standard limits. -/
def readOperand (ts : List Token) : Reading ts.length :=
  operand Limits.standard 0 ts

end SqlSchema.Expr
