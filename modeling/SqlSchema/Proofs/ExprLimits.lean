import SqlSchema.Proofs.ExprReading

/-! # The limits of the expression reader

The reader takes an operand only at a nesting depth below 256 and builds no node higher than 1000
(`Limits.standard`). These two checks cut the plain left-to-right fold exactly: the reader reads a
tree exactly when the fold without limits reads the same tree and that tree is at most 1000 high and
nests fewer than 256 deep (`read_iff_unbounded`).

The proof runs through the grammar of the reader: a tree of the grammar under some limits is a tree
of the grammar without limits that the limits allow as a whole (`grammar_limits_iff`), since no node
stands higher than the whole tree and no operand nests deeper than its deepest one. Soundness and
completeness of the reader for its grammar, under either limits, then carry the statement over to
the reader itself. -/

namespace SqlSchema.Expr

/-- How deep a tree nests: the largest number of groups, argument lists and unary operators around
    any of its nodes. Read at depth `d`, its deepest operand is read at depth `d + nesting`. -/
def nesting : Expr → Nat
  | .leaf _ => 0
  | .unary _ e => e.nesting + 1
  | .binary l _ r => max l.nesting r.nesting
  | .closing e _ => e.nesting
  | .call _ a => a.nesting + 1
  | .emptyCall _ => 0
  | .paren e => e.nesting + 1

namespace Limits

variable {lim : Limits}

theorem allowsDepth_iff {d : Nat} : lim.allowsDepth d = true ↔ ∀ m ∈ lim.depth, d < m := by
  unfold allowsDepth
  split <;> simp_all

theorem allowsHeight_iff {h : Nat} : lim.allowsHeight h = true ↔ ∀ m ∈ lim.height, h ≤ m := by
  unfold allowsHeight
  split <;> simp_all

@[simp] theorem unbounded_allowsDepth (d : Nat) : unbounded.allowsDepth d = true := rfl

@[simp] theorem unbounded_allowsHeight (h : Nat) : unbounded.allowsHeight h = true := rfl

theorem standard_allowsDepth {d : Nat} : standard.allowsDepth d = true ↔ d < 256 := by
  simp [allowsDepth_iff, standard]

theorem standard_allowsHeight {h : Nat} : standard.allowsHeight h = true ↔ h ≤ 1000 := by
  simp [allowsHeight_iff, standard]

/-- The limits let a tree read at depth `d` through: its height, and the depth of its deepest
    operand. -/
def Allows (lim : Limits) (d : Nat) (e : Expr) : Prop :=
  lim.allowsHeight e.height = true ∧ lim.allowsDepth (d + e.nesting) = true

/-- A node around one child read a level deeper (a group, a call, a unary operator): its own checks
    and those of its child are the checks of the whole. -/
theorem nested_iff (lim : Limits) (d h n : Nat) :
    (lim.allowsDepth d = true ∧ lim.allowsHeight (h + 1) = true ∧ lim.allowsHeight h = true ∧
        lim.allowsDepth (d + 1 + n) = true) ↔
      (lim.allowsHeight (h + 1) = true ∧ lim.allowsDepth (d + (n + 1)) = true) := by
  simp only [allowsDepth_iff, allowsHeight_iff]
  constructor
  · rintro ⟨-, hh, -, hd⟩
    exact ⟨hh, fun m hm => by have := hd m hm; omega⟩
  · rintro ⟨hh, hd⟩
    exact ⟨fun m hm => by have := hd m hm; omega, hh, fun m hm => by have := hh m hm; omega,
      fun m hm => by have := hd m hm; omega⟩

/-- A node that joins two children read at its own depth: their checks and the node's height are the
    checks of the whole. -/
theorem joined_iff (lim : Limits) (d hl hr nl nr : Nat) :
    (lim.allowsHeight hl = true ∧ lim.allowsDepth (d + nl) = true ∧ lim.allowsHeight hr = true ∧
        lim.allowsDepth (d + nr) = true ∧ lim.allowsHeight (max hl hr + 1) = true) ↔
      (lim.allowsHeight (max hl hr + 1) = true ∧ lim.allowsDepth (d + max nl nr) = true) := by
  simp only [allowsDepth_iff, allowsHeight_iff]
  constructor
  · rintro ⟨-, hld, -, hrd, hh⟩
    exact ⟨hh, fun m hm => by have := hld m hm; have := hrd m hm; omega⟩
  · rintro ⟨hh, hd⟩
    exact ⟨fun m hm => by have := hh m hm; omega, fun m hm => by have := hd m hm; omega,
      fun m hm => by have := hh m hm; omega, fun m hm => by have := hd m hm; omega, hh⟩

/-- A closing word over a child read at the same depth. -/
theorem closed_iff (lim : Limits) (d h n : Nat) :
    (lim.allowsHeight h = true ∧ lim.allowsDepth (d + n) = true ∧ lim.allowsHeight (h + 1) = true) ↔
      (lim.allowsHeight (h + 1) = true ∧ lim.allowsDepth (d + n) = true) := by
  simp only [allowsDepth_iff, allowsHeight_iff]
  constructor
  · rintro ⟨-, hd, hh⟩
    exact ⟨hh, hd⟩
  · rintro ⟨hh, hd⟩
    exact ⟨fun m hm => by have := hh m hm; omega, hd, hh⟩

end Limits

open Limits

variable {lim : Limits}

/-! ### The grammar under limits -/

/-- A tree of the grammar under limits is a tree of the grammar without them that the limits allow.
    Induction on the tree: the checks a node makes itself are checks of its height and of its own
    depth, and those its children make follow from them, since no child stands higher or nests
    deeper than the node. -/
theorem grammar_limits_iff (e : Expr) :
    (∀ {d}, Operand lim d e ↔ Operand unbounded d e ∧ lim.Allows d e) ∧
    (∀ {d terms commas}, Chain lim d terms commas e ↔ Chain unbounded d terms commas e ∧ lim.Allows d e) := by
  induction e with
  | leaf t =>
    have hop : ∀ {d}, Operand lim d (leaf t) ↔ Operand unbounded d (leaf t) ∧ lim.Allows d (leaf t) := by
      intro d
      simp only [Operand, Allows, height, nesting, Nat.add_zero, unbounded_allowsDepth, unbounded_allowsHeight]
      tauto
    exact ⟨hop, fun {_ _ _} => by simp only [Chain]; exact hop⟩
  | unary op x ihx =>
    have hop : ∀ {d}, Operand lim d (unary op x) ↔ Operand unbounded d (unary op x) ∧ lim.Allows d (unary op x) := by
      intro d
      have := nested_iff lim d x.height x.nesting
      simp only [Operand, ihx.1, Allows, height, nesting, unbounded_allowsDepth, unbounded_allowsHeight]
      tauto
    exact ⟨hop, fun {_ _ _} => by simp only [Chain]; exact hop⟩
  | binary l op x ihl ihx =>
    refine ⟨fun {d} => by simp [Operand], fun {d terms commas} => ?_⟩
    have := joined_iff lim d l.height x.height l.nesting x.nesting
    simp only [Chain, ihl.2, ihx.1, Allows, height, nesting, unbounded_allowsHeight]
    tauto
  | closing x w ihx =>
    refine ⟨fun {d} => by simp [Operand], fun {d terms commas} => ?_⟩
    have := closed_iff lim d x.height x.nesting
    simp only [Chain, ihx.2, Allows, height, nesting, unbounded_allowsHeight]
    tauto
  | call f a iha =>
    have hop : ∀ {d}, Operand lim d (call f a) ↔ Operand unbounded d (call f a) ∧ lim.Allows d (call f a) := by
      intro d
      have := nested_iff lim d a.height a.nesting
      simp only [Operand, iha.2, Allows, height, nesting, unbounded_allowsDepth, unbounded_allowsHeight]
      tauto
    exact ⟨hop, fun {_ _ _} => by simp only [Chain]; exact hop⟩
  | emptyCall f =>
    have hop : ∀ {d}, Operand lim d (emptyCall f) ↔ Operand unbounded d (emptyCall f) ∧
        lim.Allows d (emptyCall f) := by
      intro d
      simp only [Operand, Allows, height, nesting, Nat.add_zero, unbounded_allowsDepth, unbounded_allowsHeight]
      tauto
    exact ⟨hop, fun {_ _ _} => by simp only [Chain]; exact hop⟩
  | paren x ihx =>
    have hop : ∀ {d}, Operand lim d (paren x) ↔ Operand unbounded d (paren x) ∧ lim.Allows d (paren x) := by
      intro d
      have := nested_iff lim d x.height x.nesting
      simp only [Operand, ihx.2, Allows, height, nesting, unbounded_allowsDepth, unbounded_allowsHeight]
      tauto
    exact ⟨hop, fun {_ _ _} => by simp only [Chain]; exact hop⟩

/-! ### The reader under limits -/

/-- A reading under some limits is a reading without them of a tree the limits allow, and back:
    both readers read exactly the trees of their grammar, from the tree's tokens up to a token that
    stops it. -/
theorem chain_limits_iff {terms : List String} {commas : Bool} {d : Nat} {ts : List Token} {e : Expr} :
    (chain lim d terms commas ts).expr? = some e ↔
      (chain unbounded d terms commas ts).expr? = some e ∧ lim.Allows d e := by
  -- a reading under either limits, as a tree of the grammar with the tokens around it
  have sound : ∀ {lim' : Limits}, (chain lim' d terms commas ts).expr? = some e →
      Chain lim' d terms commas e ∧ ts = e.tokens ++ (chain lim' d terms commas ts).rest ∧
        Stops terms commas (chain lim' d terms commas ts).rest.head? ∧
        EndsBefore e (chain lim' d terms commas ts).rest.head? := by
    intro lim' he
    cases hr : chain lim' d terms commas ts with
    | read e' r h =>
      rw [hr] at he
      obtain rfl : e' = e := Option.some.inj he
      exact (grammar_of_read ts.length).2.2 rfl hr
    | failed r => rw [hr] at he; cases he
  constructor
  · intro he
    obtain ⟨hg, hts, hs, hend⟩ := sound he
    obtain ⟨hg', hallow⟩ := (grammar_limits_iff e).2.mp hg
    obtain ⟨h', hr⟩ := chain_tokens_append hg' hend hs
    rw [hts, hr]
    exact ⟨rfl, hallow⟩
  · rintro ⟨he, hallow⟩
    obtain ⟨hg, hts, hs, hend⟩ := sound he
    obtain ⟨h', hr⟩ := chain_tokens_append ((grammar_limits_iff e).2.mpr ⟨hg, hallow⟩) hend hs
    rw [hts, hr]
    rfl

/-- The depth and height limits cut the unbounded fold exactly: the reader reads a tree exactly when
    the fold without limits reads it and the tree stands at most 1000 high and nests fewer than 256
    deep. -/
theorem read_iff_unbounded {terms : List String} {ts : List Token} {e : Expr} :
    (read terms ts).expr? = some e ↔
      (chain unbounded 0 terms false ts).expr? = some e ∧ e.height ≤ 1000 ∧ e.nesting < 256 := by
  rw [read, chain_limits_iff, Allows, standard_allowsHeight, standard_allowsDepth, Nat.zero_add]

end SqlSchema.Expr
