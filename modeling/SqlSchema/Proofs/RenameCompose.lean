import SqlSchema.Proofs.TableKey

/-! # Successive column changes

Two change maps applied one after the other act as one map, their composition `m₁.andThen m₂`: a
column `m₁` drops is dropped; a column `m₁` renames to `y` gets `m₂`'s change for `y`, or keeps the
name `y` when `m₂` has none; a column `m₁` leaves alone gets `m₂`'s change. The main statement,
`Statement.renamed?_twice`, says that carrying a statement over `m₁` and then over `m₂` goes through
at both steps exactly when carrying it over the composition goes through, and then gives the same
statement.

For an index this rests on renaming never changing which leaves are column references: a renamed
reference becomes a double-quoted name, which is a reference at every place, and what is no
reference stays as it was. For a table, the two rounds of dropping fields and renumbering the key
compose into one. Each level (token, tree, list of columns, index, table) is read through an
`Option` view that is `none` exactly when the pass stops at a dropped column, so each composition law
is one equation. -/

namespace SqlSchema

/-- The change that `c` followed by the changes of `m` makes. -/
def Change.andThen (c : Change) (m : RenameMap) : Change :=
  match c with
  | .drop => .drop
  | .rename y => (m.get? y).getD (.rename y)

namespace RenameMap

/-- The changes of `m₁` followed by those of `m₂`: a name `m₁` changes gets that change followed by
    `m₂`'s, and any other name gets `m₂`'s change. -/
def andThen (m₁ m₂ : RenameMap) : RenameMap :=
  ⟨m₁.entries.map (fun e => (e.1, e.2.andThen m₂)) ++ m₂.entries⟩

theorem get?_andThen (m₁ m₂ : RenameMap) (x : String) :
    (m₁.andThen m₂).get? x =
      match m₁.get? x with
      | some c => some (c.andThen m₂)
      | none => m₂.get? x := by
  simp only [andThen, get?, List.find?_append, List.find?_map]
  cases h : m₁.entries.find? (·.1 == x) <;> simp [Function.comp_def, h]

end RenameMap

/-! ### Tokens and trees -/

/-- A token carried over the composition is the token carried over `m₁` and then over `m₂`, the two
    going through together. A renamed reference is a double-quoted name, a reference at every place,
    so `m₂` sees it under its new name. -/
theorem Token.renameAt_andThen (m₁ m₂ : RenameMap) (p : Place) (t : Token) :
    ((t.renameAt m₁ p).toOption.bind fun t' => (t'.renameAt m₂ p).toOption) =
      (t.renameAt (m₁.andThen m₂) p).toOption := by
  by_cases href : t.refersToColumn p
  · have hquoted : ∀ y, (⟨y, .quoted⟩ : Token).refersToColumn p = true := fun _ => rfl
    simp only [renameAt, href, ↓reduceIte, RenameMap.get?_andThen]
    cases h₁ : m₁.get? t.text with
    | none => cases h₂ : m₂.get? t.text <;> simp [Except.toOption, href, h₂]
    | some c =>
      cases c with
      | drop => simp [Except.toOption, Change.andThen]
      | rename y =>
        cases h₂ : m₂.get? y with
        | none => simp [Except.toOption, Change.andThen, hquoted, h₂]
        | some c₂ => cases c₂ <;> simp [Except.toOption, Change.andThen, hquoted, h₂]
  · simp [renameAt, href, Except.toOption]

namespace Expr

/-- The tree carried over the change map at place `p`, when none of its references is to a dropped
    column. -/
def renamed? (m : RenameMap) (p : Place) (e : Expr) : Option Expr :=
  match e.renameAt m p with
  | (e', none) => some e'
  | (_, some _) => none

variable {m : RenameMap} {p : Place}

@[simp] theorem renamed?_leaf (t : Token) : (leaf t).renamed? m p = (t.renameAt m p).toOption.map leaf := by
  simp only [renamed?, renameAt]
  cases t.renameAt m p <;> rfl

@[simp] theorem renamed?_closing (e : Expr) (w : Token) :
    (closing e w).renamed? m p = (e.renamed? m p).map (closing · w) := by
  simp only [renamed?, renameAt]
  cases e.renameAt m p with
  | mk e' n => cases n <;> rfl

theorem renamed?_binary_collate {op : Token} (h : op.isKeyword "COLLATE" = true) (l r : Expr) :
    (binary l op r).renamed? m p = (l.renamed? m p).map (binary · op r) := by
  simp only [renamed?, renameAt, h, ↓reduceIte]
  cases l.renameAt m p with
  | mk l' n => cases n <;> rfl

theorem renamed?_binary {op : Token} (h : op.isKeyword "COLLATE" = false) (l r : Expr) :
    (binary l op r).renamed? m p =
      (l.renamed? m p.inner).bind fun l' => (r.renamed? m p.inner).map (binary l' op ·) := by
  simp only [renamed?, renameAt, h, Bool.false_eq_true, ↓reduceIte]
  cases l.renameAt m p.inner with
  | mk l' n =>
    cases n with
    | some n => rfl
    | none =>
      cases r.renameAt m p.inner with
      | mk r' n' => cases n' <;> rfl

@[simp] theorem renamed?_unary (op : Token) (e : Expr) :
    (unary op e).renamed? m p = (e.renamed? m p.inner).map (unary op) := by
  simp only [renamed?, renameAt]
  cases e.renameAt m p.inner with
  | mk e' n => cases n <;> rfl

@[simp] theorem renamed?_call (f : Token) (a : Expr) :
    (call f a).renamed? m p = (a.renamed? m p.inner).map (call f) := by
  simp only [renamed?, renameAt]
  cases a.renameAt m p.inner with
  | mk a' n => cases n <;> rfl

@[simp] theorem renamed?_emptyCall (f : Token) : (emptyCall f).renamed? m p = some (emptyCall f) := rfl

@[simp] theorem renamed?_paren (e : Expr) : (paren e).renamed? m p = (e.renamed? m p.inner).map paren := by
  simp only [renamed?, renameAt]
  cases e.renameAt m p.inner with
  | mk e' n => cases n <;> rfl

/-- A tree carried over `m₁` and then `m₂` is the tree carried over their composition. Induction on
    the tree; each node passes the same place to its children in both runs, and a binary node visits
    its left child before its right one in both. -/
theorem renamed?_andThen (m₁ m₂ : RenameMap) (p : Place) (e : Expr) :
    (e.renamed? m₁ p).bind (·.renamed? m₂ p) = e.renamed? (m₁.andThen m₂) p := by
  induction e generalizing p with
  | leaf t =>
    rw [renamed?_leaf, renamed?_leaf, ← Token.renameAt_andThen]
    cases (t.renameAt m₁ p).toOption <;> simp
  | unary op e ih => rw [renamed?_unary, renamed?_unary, ← ih]; cases e.renamed? m₁ p.inner <;> simp
  | closing e w ih => rw [renamed?_closing, renamed?_closing, ← ih]; cases e.renamed? m₁ p <;> simp
  | call f a ih => rw [renamed?_call, renamed?_call, ← ih]; cases a.renamed? m₁ p.inner <;> simp
  | emptyCall f => rfl
  | paren e ih => rw [renamed?_paren, renamed?_paren, ← ih]; cases e.renamed? m₁ p.inner <;> simp
  | binary l op r ihl ihr =>
    cases hc : op.isKeyword "COLLATE"
    · -- both children are renamed, the left first
      rw [renamed?_binary hc, renamed?_binary hc, ← ihl, ← ihr]
      cases l.renamed? m₁ p.inner with
      | none => rfl
      | some l' =>
        cases r.renamed? m₁ p.inner with
        | none => cases l'.renamed? m₂ p.inner <;> simp
        | some r' => simp [renamed?_binary hc]
    · -- only the left side is renamed: the right one is a collation name
      rw [renamed?_binary_collate hc, renamed?_binary_collate hc, ← ihl]
      cases l.renamed? m₁ p <;> simp [renamed?_binary_collate hc]

end Expr

/-! ### Indexes -/

/-- The indexed columns carried over the change map, when none of their references is to a dropped
    column: the columns renamed one by one. -/
theorem renameIndexedColumns_mapM (m : RenameMap) (cs : List Expr) :
    cs.mapM (·.renamed? m .indexed) =
      match renameIndexedColumns m cs with
      | (cs', none) => some cs'
      | (_, some _) => none := by
  induction cs with
  | nil => rfl
  | cons c cs ih =>
    rw [List.mapM_cons, ih]
    simp only [renameIndexedColumns, Expr.renamed?]
    cases (c.renameAt m .indexed) with
    | mk c' n =>
      cases n with
      | some n => rfl
      | none => cases renameIndexedColumns m cs with
        | mk cs' n' => cases n' <;> rfl

/-- Carrying a list over two maps in turn, each element over a composed step. -/
theorem mapM_bind_mapM {α : Type} (f g : α → Option α) (xs : List α) :
    (xs.mapM f).bind (·.mapM g) = xs.mapM fun x => (f x).bind g := by
  induction xs with
  | nil => rfl
  | cons x xs ih =>
    rw [List.mapM_cons, List.mapM_cons, ← ih]
    cases f x with
    | none => rfl
    | some y => cases hxs : xs.mapM f <;> cases hg : g y <;> simp [hg, List.mapM_cons]

namespace Index

/-- The index carried over the change map, when none of its references is to a dropped column. -/
def renamed? (m : RenameMap) (i : Index) : Option Index :=
  match i.renameColumns m with
  | (i', none) => some i'
  | (_, some _) => none

/-- An index goes through when its columns do, then its predicate. -/
theorem renamed?_eq (m : RenameMap) (i : Index) :
    i.renamed? m = (i.columns.mapM fun c : Expr => c.renamed? m .indexed).bind fun cols =>
      match i.predicate with
      | some q => (q.renamed? m .predicate).map fun q' => { i with columns := cols, predicate := some q' }
      | none => some { i with columns := cols } := by
  obtain ⟨name, table, unique, columns, predicate⟩ := i
  simp only [renamed?, renameColumns, renameIndexedColumns_mapM]
  cases renameIndexedColumns m columns with
  | mk cs n =>
    cases n with
    | some n => rfl
    | none =>
      cases predicate with
      | none => rfl
      | some q =>
        simp only [Expr.renamed?]
        cases q.renameAt m .predicate with
        | mk q' n' => cases n' <;> rfl

/-- An index carried over `m₁` and then `m₂` is the index carried over their composition: its
    columns first, then its predicate. -/
theorem renamed?_andThen (m₁ m₂ : RenameMap) (i : Index) :
    (i.renamed? m₁).bind (·.renamed? m₂) = i.renamed? (m₁.andThen m₂) := by
  obtain ⟨name, table, unique, columns, predicate⟩ := i
  simp only [renamed?_eq, ← Expr.renamed?_andThen, ← mapM_bind_mapM]
  cases columns.mapM fun c : Expr => c.renamed? m₁ .indexed with
  | none => rfl
  | some cols =>
    cases predicate with
    | none => simp
    | some q => cases hq : Expr.renamed? m₁ .predicate q <;> simp [hq]

end Index

/-! ### Tables -/

namespace RenameMap

variable {m₁ m₂ : RenameMap}

/-- A field survives the composition when `m₁` keeps it and `m₂` keeps it under its new name. -/
theorem keeps_andThen (f : Field) : (m₁.andThen m₂).keeps f = (m₁.keeps f && m₂.keeps (f.renamed m₁)) := by
  simp only [keeps, drops, get?_andThen, Field.renamed]
  cases h₁ : m₁.get? f.name with
  | none => simp
  | some c =>
    cases c with
    | drop => simp [Change.andThen]
    | rename y =>
      cases h₂ : m₂.get? y with
      | none => simp [Change.andThen, h₂]
      | some c₂ => cases c₂ <;> simp [Change.andThen, h₂]

/-- A field both steps keep is renamed by the composition as by `m₁` and then `m₂`. -/
theorem renamed_andThen {f : Field} (h₁ : m₁.keeps f = true) (h₂ : m₂.keeps (f.renamed m₁) = true) :
    f.renamed (m₁.andThen m₂) = (f.renamed m₁).renamed m₂ := by
  simp only [keeps, drops, Bool.not_eq_true', beq_eq_false_iff_ne, ne_eq] at h₁ h₂
  simp only [Field.renamed, get?_andThen] at h₂ ⊢
  cases hm₁ : m₁.get? f.name with
  | none => rfl
  | some c =>
    cases c with
    | drop => exact absurd hm₁ h₁
    | rename y =>
      simp only [hm₁] at h₂
      cases hm₂ : m₂.get? y with
      | none => simp [Change.andThen, hm₂]
      | some c₂ => cases c₂ <;> simp_all [Change.andThen]

/-- The fields the composition keeps, renamed, are those `m₁` keeps, renamed, then those of these
    that `m₂` keeps, renamed again. -/
theorem filter_map_andThen (fs : List Field) :
    (((fs.filter m₁.keeps).map (Field.renamed m₁)).filter m₂.keeps).map (Field.renamed m₂) =
      (fs.filter (m₁.andThen m₂).keeps).map (Field.renamed (m₁.andThen m₂)) := by
  induction fs with
  | nil => rfl
  | cons f fs ih =>
    rw [List.filter_cons, List.filter_cons, keeps_andThen]
    cases h₁ : m₁.keeps f
    · simpa using ih
    · cases h₂ : m₂.keeps (f.renamed m₁)
      · simpa [h₂] using ih
      · simp [h₂, ih, renamed_andThen h₁ h₂]

/-- The new position of the field at `i`, if it is kept. -/
def slot (m : RenameMap) (fs : List Field) (i : Nat) : Option Nat :=
  (m.slots 0 fs)[i]?.join

/-- Kept fields counted from `k` are counted from `0` and shifted by `k`. -/
theorem slots_eq_map (m : RenameMap) (k : Nat) (fs : List Field) :
    m.slots k fs = (m.slots 0 fs).map (Option.map (· + k)) := by
  induction fs generalizing k with
  | nil => rfl
  | cons f fs ih =>
    unfold slots
    split
    · rw [ih k, ih 0]; simp
    · rw [ih (k + 1), ih 1]; simp [Function.comp_def, Nat.add_assoc, Nat.add_comm 1 k]

@[simp] theorem slot_nil (m : RenameMap) (i : Nat) : slot m [] i = none := rfl

theorem slot_cons_zero (m : RenameMap) (f : Field) (fs : List Field) :
    slot m (f :: fs) 0 = if m.keeps f then some 0 else none := by
  simp only [slot, slots, keeps]
  by_cases h : m.drops f.name <;> simp [h]

theorem slot_cons_succ (m : RenameMap) (f : Field) (fs : List Field) (i : Nat) :
    slot m (f :: fs) (i + 1) = if m.keeps f then (slot m fs i).map (· + 1) else slot m fs i := by
  simp only [slot, slots, keeps]
  by_cases h : m.drops f.name
  · simp [h]
  · rw [slots_eq_map m (0 + 1)]
    simp only [h, Bool.false_eq_true, ↓reduceIte, Bool.not_false, List.getElem?_cons_succ, List.getElem?_map]
    cases (m.slots 0 fs)[i]? with
    | none => rfl
    | some o => cases o <;> rfl

/-- The new position after `m₁` and then `m₂` is the new position after their composition.
    Induction on the fields: the first field is dropped by `m₁`, dropped by `m₂` under its new name,
    or kept by both, and only then does it count before the others. -/
theorem slot_andThen (fs : List Field) (i : Nat) :
    (slot m₁ fs i).bind (slot m₂ ((fs.filter m₁.keeps).map (Field.renamed m₁))) =
      slot (m₁.andThen m₂) fs i := by
  induction fs generalizing i with
  | nil => rfl
  | cons f fs ih =>
    rw [List.filter_cons]
    cases h₁ : m₁.keeps f
    · -- dropped by `m₁`, so by the composition
      have hc : (m₁.andThen m₂).keeps f = false := by simp [keeps_andThen, h₁]
      cases i with
      | zero => simp [slot_cons_zero, h₁, hc]
      | succ i => simpa [slot_cons_succ, h₁, hc] using ih i
    · cases h₂ : m₂.keeps (f.renamed m₁)
      · -- dropped by `m₂` under its new name
        have hc : (m₁.andThen m₂).keeps f = false := by simp [keeps_andThen, h₁, h₂]
        cases i with
        | zero => simp [slot_cons_zero, h₁, h₂, hc]
        | succ i =>
          simp only [slot_cons_succ, h₁, hc, ↓reduceIte, List.map_cons, Bool.false_eq_true, ← ih i]
          cases slot m₁ fs i <;> simp [slot_cons_succ, h₂]
      · -- kept by both: counted first in both runs
        have hc : (m₁.andThen m₂).keeps f = true := by simp [keeps_andThen, h₁, h₂]
        cases i with
        | zero => simp [slot_cons_zero, h₁, h₂, hc]
        | succ i =>
          simp only [slot_cons_succ, h₁, hc, ↓reduceIte, List.map_cons, ← ih i]
          cases slot m₁ fs i <;> simp [slot_cons_succ, h₂]

end RenameMap

/-- A table carried over `m₁` and then `m₂` is the table carried over their composition: the fields
    both maps keep, under their final names, with the key renumbered once. -/
theorem Table.renameColumns_andThen (m₁ m₂ : RenameMap) (t : Table) :
    ((t.renameColumns m₁).toOption.bind fun t' => (t'.renameColumns m₂).toOption) =
      (t.renameColumns (m₁.andThen m₂)).toOption := by
  have hfields : (((t.fields.filter m₁.keeps).map (Field.renamed m₁)).filter m₂.keeps).map (Field.renamed m₂) =
      (t.fields.filter (m₁.andThen m₂).keeps).map (Field.renamed (m₁.andThen m₂)) :=
    RenameMap.filter_map_andThen t.fields
  -- the composition keeps no field exactly when the second step keeps none
  have hempty : ((t.fields.filter m₁.keeps).map (Field.renamed m₁)).filter m₂.keeps = [] ↔
      t.fields.filter (m₁.andThen m₂).keeps = [] := by
    rw [← List.map_eq_nil_iff (f := Field.renamed m₂), hfields, List.map_eq_nil_iff]
  by_cases h₁ : (t.fields.filter m₁.keeps).isEmpty
  · -- `m₁` keeps no field, nor does the composition
    have hc : (t.fields.filter (m₁.andThen m₂).keeps).isEmpty := by
      rw [List.isEmpty_iff] at h₁ ⊢
      rw [← hempty, h₁]
      rfl
    simp only [renameColumns, h₁, hc, ↓reduceIte, Except.toOption, Option.bind]
  · by_cases h₂ : (((t.fields.filter m₁.keeps).map (Field.renamed m₁)).filter m₂.keeps).isEmpty
    · -- `m₂` keeps none of the fields `m₁` leaves, nor does the composition
      have hc : (t.fields.filter (m₁.andThen m₂).keeps).isEmpty := by
        rw [List.isEmpty_iff] at h₂ ⊢
        exact hempty.mp h₂
      simp only [renameColumns, h₁, h₂, hc, Bool.false_eq_true, ↓reduceIte, Except.toOption, Option.bind]
    · have hc : (t.fields.filter (m₁.andThen m₂).keeps).isEmpty = false := by
        rw [List.isEmpty_iff] at h₂
        rw [Bool.eq_false_iff, ne_eq, List.isEmpty_iff]
        exact fun h => h₂ (hempty.mpr h)
      simp only [renameColumns, h₁, h₂, hc, Bool.false_eq_true, ↓reduceIte, Except.toOption, Option.bind,
        Option.some.injEq]
      refine congrArg₂ (fun fs pk => { t with fields := fs, primaryKey := pk }) hfields ?_
      rw [List.filterMap_filterMap]
      exact List.filterMap_congr fun i _ => RenameMap.slot_andThen t.fields i

/-! ### Statements -/

namespace Statement

/-- The statement carried over the change map, when that goes through. -/
def renamed? (m : RenameMap) (s : Statement) : Option Statement :=
  match s.renameColumns m with
  | (s', none) => some s'
  | (_, some _) => none

theorem renamed?_table (m : RenameMap) (t : Table) :
    (table t).renamed? m = (t.renameColumns m).toOption.map table := by
  simp only [renamed?, renameColumns]
  cases t.renameColumns m <;> rfl

theorem renamed?_index (m : RenameMap) (i : Index) : (index i).renamed? m = (i.renamed? m).map index := by
  simp only [renamed?, renameColumns, Index.renamed?]
  cases i.renameColumns m with
  | mk i' n => cases n <;> rfl

/-- Successive column changes compose: carrying a statement over `m₁` and then over `m₂` goes
    through at both steps exactly when carrying it over `m₁.andThen m₂` goes through, and the two
    give the same statement. -/
theorem renamed?_twice (m₁ m₂ : RenameMap) (s : Statement) :
    (s.renamed? m₁).bind (·.renamed? m₂) = s.renamed? (m₁.andThen m₂) := by
  cases s with
  | table t =>
    rw [renamed?_table, renamed?_table, ← Table.renameColumns_andThen]
    cases (t.renameColumns m₁).toOption <;> simp [renamed?_table]
  | index i =>
    rw [renamed?_index, renamed?_index, ← Index.renamed?_andThen]
    cases i.renamed? m₁ <;> simp [renamed?_index]

end Statement

end SqlSchema
