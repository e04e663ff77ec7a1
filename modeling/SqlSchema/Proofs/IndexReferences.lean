import Mathlib
import SqlSchema.Rename.Columns

/-! # The column references of an index

Which leaves of an index a change map touches depends on where they stand. Each leaf is reached from
the root of an indexed column, or of the predicate, by a path of steps. A leaf is skipped when its
path goes to the callee of a call or into the collation name on the right of `COLLATE`. Otherwise
it stands in the predicate when its root is the predicate. From an indexed column it stands at the
indexed column itself when every step of its path goes into the operand of a closing word or into the
left side of `COLLATE`, and it is nested otherwise. Whether a leaf is a column reference then
follows from its token and its place, by the table of `Token.refersToColumn`.

The main statement, `Index.renameColumns_references`, says what carrying an index over a change map
does in these terms. The leaves are listed with their places, the columns in order and then the
predicate, each left to right. The pass fails exactly when some reference is to a dropped column,
and it names the first such reference. Every reference before that one that the map renames becomes
a double-quoted name. Every other leaf, and the shape of every tree, stays as it was. -/

namespace SqlSchema

/-- A step from a node of a tree to one of its children, or to the callee of a call. -/
inductive Step where
  | unary
  | left (op : Token)
  | right (op : Token)
  | closing
  | callee
  | args
  | paren
  deriving DecidableEq, Repr

namespace Step

/-- The step stays at the place it starts from: into the operand of a closing word, or into the
    left side of `COLLATE`. -/
def keepsPlace : Step → Bool
  | .closing => true
  | .left op => op.isKeyword "COLLATE"
  | _ => false

/-- Past the step no leaf names a column: the callee of a call, and the collation name on the right
    of `COLLATE`. -/
def skips : Step → Bool
  | .callee => true
  | .right op => op.isKeyword "COLLATE"
  | _ => false

/-- A path with one more step in front. -/
def prepend (s : Step) (x : List Step × Token) : List Step × Token :=
  (s :: x.1, x.2)

end Step

/-- The place of a leaf reached along `path` from a root at place `root`, or `none` when the leaf is
    skipped. In the predicate every leaf stands in the predicate. From an indexed column a leaf stands
    at the indexed column when every step keeps the place, and is nested otherwise. -/
def Place.along (root : Place) (path : List Step) : Option Place :=
  if path.any Step.skips then none
  else
    match root with
    | .indexed => some (if path.all Step.keepsPlace then .indexed else .nested)
    | .nested => some .nested
    | .predicate => some .predicate

theorem Place.along_nil (p : Place) : p.along [] = some p := by
  cases p <;> rfl

/-- One step in front of a path: it skips, or it keeps the place, or it goes one level further in. -/
theorem Place.along_cons (p : Place) (s : Step) (path : List Step) :
    p.along (s :: path) = if s.skips then none else (if s.keepsPlace then p else p.inner).along path := by
  by_cases hs : s.skips
  · simp [along, hs]
  · by_cases hk : s.keepsPlace
    · cases p <;> simp [along, hs, hk]
    · cases p <;> simp [along, hs, hk, Place.inner]

/-- A leaf of an index: its token, and its place, or `none` when it is skipped. -/
@[ext] structure Occurrence where
  token : Token
  place : Option Place
  deriving DecidableEq, Repr

namespace Occurrence

variable (m : RenameMap)

/-- The leaf is a column reference. -/
def isReference (o : Occurrence) : Bool :=
  match o.place with
  | some p => o.token.refersToColumn p
  | none => false

/-- The leaf is a reference to a column that `m` drops. -/
def dropsColumn (o : Occurrence) : Bool :=
  o.isReference && m.drops o.token.text

/-- The leaf after the change map: a reference that `m` renames becomes a double-quoted name. -/
def renamed (o : Occurrence) : Occurrence :=
  if o.isReference then
    match m.get? o.token.text with
    | some (.rename n) => { o with token := ⟨n, .quoted⟩ }
    | _ => o
  else o

/-- The leaves with every one before the first reference to a dropped column renamed. -/
def renameUntilDrop : List Occurrence → List Occurrence
  | [] => []
  | o :: os => if o.dropsColumn m then o :: os else o.renamed m :: renameUntilDrop os

variable {m}

theorem renameUntilDrop_of_any {os : List Occurrence} (h : os.any (dropsColumn m) = false) :
    renameUntilDrop m os = os.map (renamed m) := by
  induction os with
  | nil => rfl
  | cons o os ih =>
    simp only [List.any_cons, Bool.or_eq_false_iff] at h
    simp [renameUntilDrop, h.1, ih h.2]

/-- The leaves of two trees side by side: the second is renamed only when the first has no reference
    to a dropped column. -/
theorem renameUntilDrop_append (xs ys : List Occurrence) :
    renameUntilDrop m (xs ++ ys) =
      if xs.any (dropsColumn m) then renameUntilDrop m xs ++ ys else xs.map (renamed m) ++ renameUntilDrop m ys := by
  induction xs with
  | nil => simp
  | cons o xs ih =>
    by_cases ho : o.dropsColumn m
    · simp [renameUntilDrop, ho]
    · simp only [List.cons_append, renameUntilDrop, ho, Bool.false_eq_true, ↓reduceIte, ih, List.any_cons,
        Bool.false_or, List.map_cons]
      split <;> rfl

/-- Renaming up to the first reference to a dropped column, as a prefix and the rest. -/
theorem renameUntilDrop_eq (os : List Occurrence) :
    renameUntilDrop m os = (os.take (os.findIdx (dropsColumn m))).map (renamed m) ++
      os.drop (os.findIdx (dropsColumn m)) := by
  induction os with
  | nil => rfl
  | cons o os ih =>
    by_cases ho : o.dropsColumn m
    · simp [renameUntilDrop, ho, List.findIdx_cons]
    · simp [renameUntilDrop, ho, List.findIdx_cons, ih]

@[simp] theorem place_renamed (o : Occurrence) : (o.renamed m).place = o.place := by
  unfold renamed
  split
  · split <;> rfl
  · rfl

/-- A skipped leaf is no reference. -/
theorem dropsColumn_skipped (t : Token) : (⟨t, none⟩ : Occurrence).dropsColumn m = false := rfl

theorem renamed_skipped (t : Token) : (⟨t, none⟩ : Occurrence).renamed m = ⟨t, none⟩ := rfl

end Occurrence

/-- A leaf token carried over the change map at place `p`: the name of the dropped column when it is
    a reference to one, else the token the leaf becomes. -/
theorem Token.renameAt_eq (m : RenameMap) (p : Place) (t : Token) :
    t.renameAt m p =
      if (⟨t, some p⟩ : Occurrence).dropsColumn m then .error t.text
      else .ok ((⟨t, some p⟩ : Occurrence).renamed m).token := by
  simp only [Token.renameAt, Occurrence.dropsColumn, Occurrence.renamed, Occurrence.isReference,
    RenameMap.drops]
  by_cases href : t.refersToColumn p
  · simp only [href, ↓reduceIte, Bool.true_and]
    split <;> simp_all
  · simp [href]

namespace Expr

/-- Every leaf token of the tree, the callee of a call included, with the path from the root to it,
    in print order. -/
def leafPaths : Expr → List (List Step × Token)
  | .leaf t => [([], t)]
  | .unary _ e => e.leafPaths.map (Step.prepend .unary)
  | .binary l op r => l.leafPaths.map (Step.prepend (.left op)) ++ r.leafPaths.map (Step.prepend (.right op))
  | .closing e _ => e.leafPaths.map (Step.prepend .closing)
  | .call f a => ([.callee], f) :: a.leafPaths.map (Step.prepend .args)
  | .emptyCall f => [([.callee], f)]
  | .paren e => e.leafPaths.map (Step.prepend .paren)

/-- The leaves of a tree whose root stands at place `p`, each with its place. -/
def occurrences (p : Place) (e : Expr) : List Occurrence :=
  e.leafPaths.map fun x => ⟨x.2, p.along x.1⟩

/-- The tree with every leaf token blanked: its shape, with its operators, closing words and
    callees. -/
def shape : Expr → Expr
  | .leaf _ => .leaf default
  | .unary op e => .unary op e.shape
  | .binary l op r => .binary l.shape op r.shape
  | .closing e w => .closing e.shape w
  | .call f a => .call f a.shape
  | .emptyCall f => .emptyCall f
  | .paren e => .paren e.shape

-- the passes over a tree, one equation per shape of tree, also for `grind`
attribute [grind] leafPaths occurrences shape renameAt

variable {p : Place}

/-- The leaves under one more step: skipped when the step skips, else at the place the step leads
    to. -/
theorem occurrences_prepend (s : Step) (e : Expr) :
    (e.leafPaths.map (Step.prepend s)).map (fun x => (⟨x.2, p.along x.1⟩ : Occurrence)) =
      if s.skips then e.leafPaths.map (fun x => ⟨x.2, none⟩)
      else e.occurrences (if s.keepsPlace then p else p.inner) := by
  rw [List.map_map]
  split
  · exact List.map_congr_left fun x _ => by simp [Step.prepend, Place.along_cons, *]
  · exact List.map_congr_left fun x _ => by simp [Step.prepend, Place.along_cons, *]

@[simp] theorem occurrences_leaf (t : Token) : (leaf t).occurrences p = [⟨t, some p⟩] := by
  simp [occurrences, leafPaths, Place.along_nil]

@[simp] theorem occurrences_unary (op : Token) (e : Expr) : (unary op e).occurrences p = e.occurrences p.inner :=
  occurrences_prepend .unary e

@[simp] theorem occurrences_closing (e : Expr) (w : Token) : (closing e w).occurrences p = e.occurrences p :=
  occurrences_prepend .closing e

@[simp] theorem occurrences_call (f : Token) (a : Expr) :
    (call f a).occurrences p = ⟨f, none⟩ :: a.occurrences p.inner := by
  simp only [occurrences, leafPaths, List.map_cons, Place.along_cons, Step.skips, ↓reduceIte]
  exact congrArg _ (occurrences_prepend .args a)

@[simp] theorem occurrences_emptyCall (f : Token) : (emptyCall f).occurrences p = [⟨f, none⟩] := rfl

@[simp] theorem occurrences_paren (e : Expr) : (paren e).occurrences p = e.occurrences p.inner :=
  occurrences_prepend .paren e

/-- Under `COLLATE` the left side keeps the place and the right side is skipped. -/
theorem occurrences_binary_collate {op : Token} (h : op.isKeyword "COLLATE" = true) (l r : Expr) :
    (binary l op r).occurrences p = l.occurrences p ++ r.leafPaths.map fun x => ⟨x.2, none⟩ := by
  simp only [occurrences, leafPaths, List.map_append]
  rw [occurrences_prepend, occurrences_prepend]
  simp [Step.skips, Step.keepsPlace, h, occurrences]

/-- Under any other operator both sides stand one level further in. -/
theorem occurrences_binary {op : Token} (h : op.isKeyword "COLLATE" = false) (l r : Expr) :
    (binary l op r).occurrences p = l.occurrences p.inner ++ r.occurrences p.inner := by
  simp only [occurrences, leafPaths, List.map_append]
  rw [occurrences_prepend, occurrences_prepend]
  simp [Step.skips, Step.keepsPlace, h, occurrences]

theorem any_skipped (xs : List (List Step × Token)) (m : RenameMap) :
    (xs.map fun x => (⟨x.2, none⟩ : Occurrence)).any (Occurrence.dropsColumn m) = false := by
  simp [Occurrence.dropsColumn_skipped]

theorem find?_skipped (xs : List (List Step × Token)) (m : RenameMap) :
    (xs.map fun x => (⟨x.2, none⟩ : Occurrence)).find? (Occurrence.dropsColumn m) = none := by
  simp [Occurrence.dropsColumn_skipped]

variable {m : RenameMap}

/-- The pass over a tree stops at its first reference to a dropped column, and names it. Induction
    on the tree; a binary node looks at its right side only when its left side has no such
    reference, and the leaves of the right side of `COLLATE` are never references. -/
theorem error_renameAt (e : Expr) :
    (e.renameAt m p).2 = ((e.occurrences p).find? (Occurrence.dropsColumn m)).map (·.token.text) := by
  induction e generalizing p with
  | leaf t =>
    by_cases hd : (⟨t, some p⟩ : Occurrence).dropsColumn m <;> simp [renameAt, Token.renameAt_eq, hd]
  | unary op e ih => simp [renameAt, ih]
  | closing e w ih => simp [renameAt, ih]
  | call f a ih => simp [renameAt, ih, Occurrence.dropsColumn_skipped]
  | emptyCall f => simp [renameAt, Occurrence.dropsColumn_skipped]
  | paren e ih => simp [renameAt, ih]
  | binary l op r ihl ihr =>
    cases hc : op.isKeyword "COLLATE"
    · rw [occurrences_binary hc, List.find?_append]
      simp only [renameAt, hc, Bool.false_eq_true, ↓reduceIte]
      cases hl : (l.renameAt m p.inner).2 with
      | some n =>
        rw [ihl] at hl
        obtain ⟨o, ho, rfl⟩ := Option.map_eq_some_iff.mp hl
        simp [ho]
      | none =>
        rw [ihl, Option.map_eq_none_iff] at hl
        simp [hl, ihr]
    · rw [occurrences_binary_collate hc, List.find?_append, find?_skipped]
      simp [renameAt, hc, ihl]

/-- The pass over a tree changes no operator, closing word, callee or node. -/
theorem shape_renameAt (e : Expr) : (e.renameAt m p).1.shape = e.shape := by
  induction e generalizing p with
  | leaf t =>
    simp only [renameAt]
    cases t.renameAt m p <;> rfl
  | unary op e ih => simp [renameAt, shape, ih]
  | closing e w ih => simp [renameAt, shape, ih]
  | call f a ih => simp [renameAt, shape, ih]
  | emptyCall f => rfl
  | paren e ih => simp [renameAt, shape, ih]
  | binary l op r ihl ihr =>
    cases hc : op.isKeyword "COLLATE"
    · simp only [renameAt, hc, Bool.false_eq_true, ↓reduceIte]
      cases (l.renameAt m p.inner).2 <;> simp [shape, ihl, ihr]
    · simp [renameAt, hc, shape, ihl]

/-- The leaves after the pass over a tree: every one before the first reference to a dropped column
    renamed, the others as they were. -/
theorem occurrences_renameAt (e : Expr) :
    (e.renameAt m p).1.occurrences p = Occurrence.renameUntilDrop m (e.occurrences p) := by
  induction e generalizing p with
  | leaf t =>
    by_cases hd : (⟨t, some p⟩ : Occurrence).dropsColumn m
    · simp [renameAt, Token.renameAt_eq, hd, Occurrence.renameUntilDrop]
    · simp [renameAt, Token.renameAt_eq, hd, Occurrence.renameUntilDrop, Occurrence.ext_iff]
  | unary op e ih => simp [renameAt, ih]
  | closing e w ih => simp [renameAt, ih]
  | call f a ih => simp [renameAt, ih, Occurrence.renameUntilDrop, Occurrence.dropsColumn_skipped,
      Occurrence.renamed_skipped]
  | emptyCall f => simp [renameAt, Occurrence.renameUntilDrop, Occurrence.dropsColumn_skipped,
      Occurrence.renamed_skipped]
  | paren e ih => simp [renameAt, ih]
  | binary l op r ihl ihr =>
    cases hc : op.isKeyword "COLLATE"
    · rw [occurrences_binary hc, Occurrence.renameUntilDrop_append]
      have herr := error_renameAt (m := m) (p := p.inner) l
      simp only [renameAt, hc, Bool.false_eq_true, ↓reduceIte]
      cases hl : (l.renameAt m p.inner).2 with
      | some n =>
        -- the left side has a reference to a dropped column: the right side is left alone
        rw [hl, eq_comm, Option.map_eq_some_iff] at herr
        obtain ⟨o, ho, -⟩ := herr
        have hany : (l.occurrences p.inner).any (Occurrence.dropsColumn m) = true :=
          List.any_eq_true.mpr ⟨o, List.mem_of_find?_eq_some ho, List.find?_some ho⟩
        simp [occurrences_binary hc, ihl, hany]
      | none =>
        rw [hl, eq_comm, Option.map_eq_none_iff, List.find?_eq_none] at herr
        have hany : (l.occurrences p.inner).any (Occurrence.dropsColumn m) = false :=
          List.any_eq_false.mpr herr
        simp [occurrences_binary hc, ihl, ihr, hany, Occurrence.renameUntilDrop_of_any hany]
    · -- the right side of `COLLATE` is skipped, so it stays as it was
      rw [occurrences_binary_collate hc, Occurrence.renameUntilDrop_append]
      simp only [renameAt, hc, ↓reduceIte, occurrences_binary_collate hc, ihl]
      cases hany : (l.occurrences p).any (Occurrence.dropsColumn m)
      · simp [Occurrence.renameUntilDrop_of_any hany, Occurrence.renameUntilDrop_of_any (any_skipped _ m),
          Function.comp_def, Occurrence.renamed_skipped]
      · rfl

end Expr

/-! ### Indexes -/

namespace Index

/-- The leaves of an index with their places: those of its columns in order, then those of its
    predicate. -/
def occurrences (i : Index) : List Occurrence :=
  i.columns.flatMap (·.occurrences .indexed) ++
    match i.predicate with
    | some q => q.occurrences .predicate
    | none => []

end Index

variable {m : RenameMap}

/-- The pass over the indexed columns stops at the first reference to a dropped column. -/
theorem error_renameIndexedColumns (cs : List Expr) :
    (renameIndexedColumns m cs).2 =
      ((cs.flatMap (·.occurrences .indexed)).find? (Occurrence.dropsColumn m)).map (·.token.text) := by
  induction cs with
  | nil => rfl
  | cons c cs ih =>
    simp only [renameIndexedColumns, List.flatMap_cons, List.find?_append]
    cases hc : (c.renameAt m .indexed).2 with
    | some n =>
      rw [Expr.error_renameAt] at hc
      obtain ⟨o, ho, rfl⟩ := Option.map_eq_some_iff.mp hc
      simp [ho]
    | none =>
      rw [Expr.error_renameAt, Option.map_eq_none_iff] at hc
      simp [hc, ih]

theorem shape_renameIndexedColumns (cs : List Expr) :
    (renameIndexedColumns m cs).1.map Expr.shape = cs.map Expr.shape := by
  induction cs with
  | nil => rfl
  | cons c cs ih =>
    simp only [renameIndexedColumns]
    cases (c.renameAt m .indexed).2 <;> simp [Expr.shape_renameAt, ih]

theorem occurrences_renameIndexedColumns (cs : List Expr) :
    (renameIndexedColumns m cs).1.flatMap (·.occurrences .indexed) =
      Occurrence.renameUntilDrop m (cs.flatMap (·.occurrences .indexed)) := by
  induction cs with
  | nil => rfl
  | cons c cs ih =>
    have herr := Expr.error_renameAt (m := m) (p := .indexed) c
    simp only [renameIndexedColumns, List.flatMap_cons, Occurrence.renameUntilDrop_append]
    cases hc : (c.renameAt m .indexed).2 with
    | some n =>
      rw [hc, eq_comm, Option.map_eq_some_iff] at herr
      obtain ⟨o, ho, -⟩ := herr
      have hany : (c.occurrences .indexed).any (Occurrence.dropsColumn m) = true :=
        List.any_eq_true.mpr ⟨o, List.mem_of_find?_eq_some ho, List.find?_some ho⟩
      simp [Expr.occurrences_renameAt, hany]
    | none =>
      rw [hc, eq_comm, Option.map_eq_none_iff, List.find?_eq_none] at herr
      have hany : (c.occurrences .indexed).any (Occurrence.dropsColumn m) = false :=
        List.any_eq_false.mpr herr
      simp [Expr.occurrences_renameAt, ih, hany, Occurrence.renameUntilDrop_of_any hany]

/-- Carrying an index over a change map follows its column references. The pass fails exactly when
    some reference is to a column the map drops, and then names the first such reference. The index
    keeps its name, table, uniqueness and the shape of every tree. Its leaves, with their places, are
    the old ones with every one before that first reference renamed (a reference the map renames
    becomes a double-quoted name), and the others as they were. -/
theorem Index.renameColumns_references (m : RenameMap) (i : Index) :
    (i.renameColumns m).2 =
        (i.occurrences.find? (Occurrence.dropsColumn m)).map (fun o => .droppedColumn o.token.text) ∧
      (i.renameColumns m).1.name = i.name ∧ (i.renameColumns m).1.table = i.table ∧
      (i.renameColumns m).1.unique = i.unique ∧
      (i.renameColumns m).1.columns.map Expr.shape = i.columns.map Expr.shape ∧
      (i.renameColumns m).1.predicate.map Expr.shape = i.predicate.map Expr.shape ∧
      (i.renameColumns m).1.occurrences =
        (i.occurrences.take (i.occurrences.findIdx (Occurrence.dropsColumn m))).map (Occurrence.renamed m) ++
          i.occurrences.drop (i.occurrences.findIdx (Occurrence.dropsColumn m)) := by
  obtain ⟨name, table, unique, columns, predicate⟩ := i
  rw [← Occurrence.renameUntilDrop_eq]
  have herr := error_renameIndexedColumns (m := m) columns
  have hshape := shape_renameIndexedColumns (m := m) columns
  have hocc := occurrences_renameIndexedColumns (m := m) columns
  simp only [renameColumns, occurrences, List.find?_append, Occurrence.renameUntilDrop_append]
  cases hc : (renameIndexedColumns m columns).2 with
  | some n =>
    -- a column refers to a dropped column: the predicate is left alone
    rw [hc, eq_comm, Option.map_eq_some_iff] at herr
    obtain ⟨o, ho, rfl⟩ := herr
    have hany : (columns.flatMap (·.occurrences .indexed)).any (Occurrence.dropsColumn m) = true :=
      List.any_eq_true.mpr ⟨o, List.mem_of_find?_eq_some ho, List.find?_some ho⟩
    simp [ho, hshape, hocc, hany]
  | none =>
    rw [hc, eq_comm, Option.map_eq_none_iff, List.find?_eq_none] at herr
    have hany : (columns.flatMap (·.occurrences .indexed)).any (Occurrence.dropsColumn m) = false :=
      List.any_eq_false.mpr herr
    have hnone : (columns.flatMap (·.occurrences .indexed)).find? (Occurrence.dropsColumn m) = none :=
      List.find?_eq_none.mpr herr
    cases predicate with
    | none => simp [hnone, hshape, hocc, hany, Occurrence.renameUntilDrop_of_any hany, Occurrence.renameUntilDrop]
    | some q =>
      simp [hnone, hshape, hocc, hany, Occurrence.renameUntilDrop_of_any hany, Expr.error_renameAt,
        Expr.shape_renameAt, Expr.occurrences_renameAt, Function.comp_def]

/-- `a DESC, lower('a')` with the predicate `a > "a"`: the bare word of the column is a reference, the
    callee is skipped, the string under the call is nested and no reference, and in the predicate only
    the quoted name is one. Renaming `a` to `b` touches exactly those two. -/
example :
    let i : Index := ⟨"ix", "t", false,
      [.closing (.leaf ⟨"a", .word⟩) ⟨"DESC", .closer⟩, .call ⟨"lower", .word⟩ (.leaf ⟨"a", .string⟩)],
      some (.binary (.leaf ⟨"a", .word⟩) ⟨">", .operator⟩ (.leaf ⟨"a", .quoted⟩))⟩
    i.occurrences.map (·.place) = [some .indexed, none, some .nested, some .predicate, some .predicate] ∧
      ((i.renameColumns (RenameMap.empty.rename "a" "b")).1.occurrences.map (·.token)) =
        [⟨"b", .quoted⟩, ⟨"lower", .word⟩, ⟨"a", .string⟩, ⟨"a", .word⟩, ⟨"b", .quoted⟩] := by
  decide +kernel

end SqlSchema
