import SqlSchema.Proofs.RenameCompose

/-! # Carrying a table over column changes

What a change map does to a table, said without the slots the code counts with: the kept fields,
in order, each under the name its old name is renamed to and with every other attribute as it was;
the key with the positions of dropped fields left out and every other position moved to the number
of kept fields before it; and, when every field is dropped, an error naming the table, which is
then left as it was (`Table.renameColumns_spec`). Each field is looked up once by its old name, so
renames happen all at once: `a → b` with `b → a` swaps two columns.

The bridge is `RenameMap.slot_eq`: the new position of a field is the number of kept fields before
it, read by induction on the fields from the slot equations of `Proofs/RenameCompose`. -/

namespace SqlSchema

namespace RenameMap

variable {m : RenameMap}

theorem drops_iff (name : String) : m.drops name = true ↔ m.get? name = some .drop := by
  simp [drops]

/-- The new position of the field at `i`: the number of kept fields before it, when it is kept. -/
theorem slot_eq (fs : List Field) (i : Nat) :
    slot m fs i = (fs[i]?).bind fun f => if m.keeps f then some ((fs.take i).countP m.keeps) else none := by
  induction fs generalizing i with
  | nil => rfl
  | cons f fs ih =>
    cases i with
    | zero => simp [slot_cons_zero]
    | succ i =>
      rw [slot_cons_succ, ih i]
      cases hf : fs[i]? with
      | none => simp [hf]
      | some g =>
        by_cases hg : m.keeps g = true <;> by_cases hk : m.keeps f = true <;> simp [hf, hk, Nat.add_comm]

end RenameMap

namespace Table

variable {m : RenameMap}

/-- The key carried over the slots: positions of kept fields, renumbered, in the same order. -/
theorem filterMap_slot {fs : List Field} {keys : List Nat} (hk : ∀ i ∈ keys, i < fs.length) :
    keys.filterMap (fun i => RenameMap.slot m fs i) =
      (keys.filter fun i => (fs[i]?).any m.keeps).map fun i => (fs.take i).countP m.keeps := by
  induction keys with
  | nil => rfl
  | cons i keys ih =>
    have hi : i < fs.length := hk i List.mem_cons_self
    rw [List.filterMap_cons, RenameMap.slot_eq, List.getElem?_eq_getElem hi, Option.bind_some,
      ih fun j hj => hk j (List.mem_cons_of_mem i hj), List.filter_cons]
    by_cases hkeep : m.keeps fs[i] = true <;> simp [hkeep, List.getElem?_eq_getElem hi]

/-- A change map on a table whose key positions are fields of it. It fails, with the table's name,
    exactly when every field is dropped, and the table is then left as it was. Otherwise the fields
    are those not dropped, in order, each renamed when its old name is renamed and otherwise as it
    was; the key keeps the positions of kept fields, in order, each moved to the number of kept
    fields before it; the name and the other flags stay. -/
theorem renameColumns_spec (t : Table) (m : RenameMap) (hk : ∀ i ∈ t.primaryKey, i < t.fields.length) :
    (t.renameColumns m = .error (.noColumnsLeft t.name) ↔ ∀ f ∈ t.fields, m.get? f.name = some .drop) ∧
    ((∀ f ∈ t.fields, m.get? f.name = some .drop) →
      (Statement.table t).renameColumns m = (.table t, some (.noColumnsLeft t.name))) ∧
    ((∃ f ∈ t.fields, m.get? f.name ≠ some .drop) →
      t.renameColumns m = .ok { t with
        fields := (t.fields.filter fun f => m.get? f.name ≠ some .drop).map (Field.renamed m)
        primaryKey := (t.primaryKey.filter fun i => (t.fields[i]?).any fun f => m.get? f.name ≠ some .drop).map
          fun i => (t.fields.take i).countP fun f => m.get? f.name ≠ some .drop }) := by
  -- the code's predicate `keeps` is "not mapped to a drop"
  have hkeeps : (fun f : Field => decide (m.get? f.name ≠ some .drop)) = m.keeps := by
    funext f
    by_cases h : m.get? f.name = some .drop <;> simp [RenameMap.keeps, RenameMap.drops, h]
  have hnone : (t.fields.filter m.keeps).isEmpty = true ↔ ∀ f ∈ t.fields, m.get? f.name = some .drop := by
    simp [List.filter_eq_nil_iff, RenameMap.drops_iff]
  have herror : t.renameColumns m = .error (.noColumnsLeft t.name) ↔ ∀ f ∈ t.fields, m.get? f.name = some .drop := by
    rw [← hnone]
    unfold renameColumns
    dsimp only
    split <;> simp_all
  refine ⟨herror, fun hall => ?_, fun hsome => ?_⟩
  · simp [Statement.renameColumns, herror.mpr hall]
  · obtain ⟨f, hf, hkept⟩ := hsome
    have hne : (t.fields.filter m.keeps).isEmpty = false := by
      rw [Bool.eq_false_iff, ne_eq, hnone]
      exact fun hall => hkept (hall f hf)
    simp only [renameColumns, hne, Bool.false_eq_true, ↓reduceIte, hkeeps]
    rw [← filterMap_slot hk]
    rfl

/-- The rule at a table keyed by `(c, b, a)` whose columns `a` and `b` are swapped (`a → b`,
    `b → a`) while `c` is dropped. -/
theorem renameColumns_spec_swap :
    let t : Table :=
      { name := "t"
        fields := [{ name := "a" }, { name := "b" }, { name := "c" }]
        primaryKey := [2, 1, 0] }
    let m : RenameMap := (RenameMap.empty.rename "a" "b" |>.rename "b" "a").dropColumn "c"
    (∀ i ∈ t.primaryKey, i < t.fields.length) ∧
    (t.renameColumns m = .error (.noColumnsLeft t.name) ↔ ∀ f ∈ t.fields, m.get? f.name = some .drop) ∧
    ((∀ f ∈ t.fields, m.get? f.name = some .drop) →
      (Statement.table t).renameColumns m = (.table t, some (.noColumnsLeft t.name))) ∧
    ((∃ f ∈ t.fields, m.get? f.name ≠ some .drop) →
      t.renameColumns m = .ok { t with
        fields := (t.fields.filter fun f => m.get? f.name ≠ some .drop).map (Field.renamed m)
        primaryKey := (t.primaryKey.filter fun i => (t.fields[i]?).any fun f => m.get? f.name ≠ some .drop).map
          fun i => (t.fields.take i).countP fun f => m.get? f.name ≠ some .drop }) := by
  intro t m
  have hk : ∀ i ∈ t.primaryKey, i < t.fields.length := by decide
  exact ⟨hk, renameColumns_spec t m hk⟩

end Table

end SqlSchema
