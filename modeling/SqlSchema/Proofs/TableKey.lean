import SqlSchema.Rename.Columns
import Mathlib

/-! # A table's key

A table keeps its key twice: as the list of key positions, in the order the key names them, and as a
flag on each field. `Table.KeyConsistent` says the two agree, and that only a key field increments on
its own. Marking a key column, appending a column, and carrying a table over a change map all keep
it. -/

namespace SqlSchema

namespace Table

/-- The key positions and the key flags agree: the positions are distinct fields of the table, a
    field is flagged exactly when its position is in the key, and only a key field increments on its
    own. -/
structure KeyConsistent (t : Table) : Prop where
  nodup : t.primaryKey.Nodup
  lt : ∀ i ∈ t.primaryKey, i < t.fields.length
  flag : ∀ i (h : i < t.fields.length), t.fields[i].inPrimaryKey = true ↔ i ∈ t.primaryKey
  auto : ∀ i (h : i < t.fields.length), t.fields[i].autoIncrement = true → t.fields[i].inPrimaryKey = true

/-- A table as the reader gives it: it has a column, and its key is consistent. -/
structure Valid (t : Table) : Prop extends t.KeyConsistent where
  nonempty : t.fields ≠ []

variable {t : Table} {i : Nat}

@[simp] theorem length_markPrimaryKey_fields : (t.markPrimaryKey i).fields.length = t.fields.length :=
  List.length_modify _ _ _

@[simp] theorem length_markAutoIncrement_fields : (t.markAutoIncrement i).fields.length = t.fields.length :=
  List.length_modify _ _ _

theorem mem_markPrimaryKey {j : Nat} : j ∈ (t.markPrimaryKey i).primaryKey ↔ j ∈ t.primaryKey ∨ j = i := by
  simp only [markPrimaryKey]
  split
  · rename_i hc
    constructor
    · exact Or.inl
    · rintro (hj | rfl)
      · exact hj
      · exact List.elem_iff.mp hc
  · simp

theorem getElem_markPrimaryKey_fields {j : Nat} (hj : j < t.fields.length)
    (hj' : j < (t.markPrimaryKey i).fields.length) :
    (t.markPrimaryKey i).fields[j] = if i = j then { t.fields[j] with inPrimaryKey := true } else t.fields[j] :=
  List.getElem_modify _ _ _ _ _

theorem getElem_markAutoIncrement_fields {j : Nat} (hj : j < t.fields.length)
    (hj' : j < (t.markAutoIncrement i).fields.length) :
    (t.markAutoIncrement i).fields[j] = if i = j then { t.fields[j] with autoIncrement := true } else t.fields[j] :=
  List.getElem_modify _ _ _ _ _

theorem position?_lt {name : String} {i : Nat} (h : t.position? name = some i) : i < t.fields.length := by
  obtain ⟨hi, -⟩ := List.findIdx?_eq_some_iff_getElem.mp h
  exact hi

theorem KeyConsistent.congr {t' : Table} (h : t.KeyConsistent) (hf : t'.fields = t.fields)
    (hk : t'.primaryKey = t.primaryKey) : t'.KeyConsistent := by
  obtain ⟨⟩ := t
  obtain ⟨⟩ := t'
  simp only at hf hk
  subst hf hk
  exact ⟨h.nodup, h.lt, h.flag, h.auto⟩

theorem KeyConsistent.markPrimaryKey (h : t.KeyConsistent) (hi : i < t.fields.length) :
    (t.markPrimaryKey i).KeyConsistent where
  nodup := by
    simp only [Table.markPrimaryKey]
    split
    · exact h.nodup
    · rename_i hc
      exact h.nodup.append (List.nodup_singleton i) (by simpa using hc)
  lt j hj := by
    rcases mem_markPrimaryKey.mp hj with hj | rfl
    · simpa using h.lt j hj
    · simpa using hi
  flag j hj := by
    rw [getElem_markPrimaryKey_fields (by simpa using hj) hj, mem_markPrimaryKey]
    split
    · rename_i hij
      simp [hij]
    · rename_i hij
      rw [h.flag j (by simpa using hj)]
      constructor
      · exact Or.inl
      · rintro (hj | rfl)
        · exact hj
        · exact absurd rfl hij
  auto j hj := by
    rw [getElem_markPrimaryKey_fields (by simpa using hj) hj]
    split
    · intro _; rfl
    · exact h.auto j (by simpa using hj)

theorem KeyConsistent.markAutoIncrement (h : t.KeyConsistent) (hi : i ∈ t.primaryKey) :
    (t.markAutoIncrement i).KeyConsistent where
  nodup := h.nodup
  lt j hj := by simpa using h.lt j hj
  flag j hj := by
    rw [getElem_markAutoIncrement_fields (by simpa using hj) hj]
    split
    · exact h.flag j (by simpa using hj)
    · exact h.flag j (by simpa using hj)
  auto j hj := by
    rw [getElem_markAutoIncrement_fields (by simpa using hj) hj]
    split
    · rename_i hij
      subst hij
      intro _
      exact (h.flag i (by simpa using hj)).mpr hi
    · exact h.auto j (by simpa using hj)

/-- A column definition appends its field, and puts it into the key when the field is flagged. -/
theorem KeyConsistent.push (h : t.KeyConsistent) {f : Field}
    (hf : f.autoIncrement = true → f.inPrimaryKey = true) :
    ({ t with fields := t.fields ++ [f],
               primaryKey := if f.inPrimaryKey then t.primaryKey ++ [t.fields.length] else t.primaryKey } :
      Table).KeyConsistent := by
  -- the new position is past every old key position
  have fresh : t.fields.length ∉ t.primaryKey := fun hm => Nat.lt_irrefl _ (h.lt _ hm)
  have getElem_push : ∀ j (hj : j < (t.fields ++ [f]).length),
      (t.fields ++ [f])[j] = if hlt : j < t.fields.length then t.fields[j] else f := by
    intro j hj
    split
    · exact List.getElem_append_left _
    · rename_i hlt
      have : j = t.fields.length := by simp at hj; omega
      subst this
      simp
  constructor
  · split
    · exact h.nodup.append (List.nodup_singleton _) (by simpa using fresh)
    · exact h.nodup
  · intro i hi
    simp only [List.length_append, List.length_singleton]
    split at hi
    · rcases List.mem_append.mp hi with hi | hi
      · exact Nat.lt_succ_of_lt (h.lt i hi)
      · simp at hi; omega
    · exact Nat.lt_succ_of_lt (h.lt i hi)
  · intro j hj
    simp only [getElem_push]
    split
    · rename_i hlt
      rw [h.flag j hlt]
      split <;> simp [Nat.ne_of_lt hlt]
    · rename_i hlt
      have : j = t.fields.length := by simp at hj; omega
      subst this
      split <;> simp_all
  · intro j hj
    simp only [getElem_push]
    split
    · exact h.auto j ‹_›
    · exact hf

theorem markPrimaryKey_push {f : Field} (h : t.KeyConsistent) (hf : f.inPrimaryKey = true) :
    ({ t with fields := t.fields ++ [f] } : Table).markPrimaryKey t.fields.length =
      { t with fields := t.fields ++ [f], primaryKey := t.primaryKey ++ [t.fields.length] } := by
  have fresh : t.primaryKey.contains t.fields.length = false := by
    simpa using fun hm => Nat.lt_irrefl _ (h.lt _ hm)
  have kept : ({ f with inPrimaryKey := true } : Field) = f := by
    cases f; simp_all
  simp only [markPrimaryKey, fresh, Bool.false_eq_true, ↓reduceIte, mk.injEq, and_true, true_and]
  refine List.ext_getElem (by simp) fun j _ _ => ?_
  rw [List.getElem_modify]
  split
  · rename_i hj
    subst hj
    simpa using kept
  · rfl

/-- A table-level key marks each of its columns, and makes each increment on its own when it says
    so. -/
theorem KeyConsistent.markKeys (h : t.KeyConsistent) (auto : Bool) {keys : List Nat}
    (hk : ∀ i ∈ keys, i < t.fields.length) :
    (keys.foldl (fun t i =>
      let t := t.markPrimaryKey i
      if auto then t.markAutoIncrement i else t) t).KeyConsistent := by
  induction keys generalizing t with
  | nil => exact h
  | cons i keys ih =>
    have hi := hk i List.mem_cons_self
    have h₁ := h.markPrimaryKey hi
    refine ih ?_ ?_
    · cases auto
      · exact h₁
      · exact h₁.markAutoIncrement (mem_markPrimaryKey.mpr (Or.inr rfl))
    · intro j hj
      cases auto <;> simpa using hk j (List.mem_cons_of_mem _ hj)

end Table

/-! ### Carrying the key over column changes -/

namespace RenameMap

variable (m : RenameMap)

/-- A field is kept by the change map when it is not dropped. -/
abbrev keeps (f : Field) : Bool := !m.drops f.name

@[simp] theorem length_slots (k : Nat) (fs : List Field) : (m.slots k fs).length = fs.length := by
  induction fs generalizing k with
  | nil => rfl
  | cons f fs ih =>
    unfold slots
    split <;> simp [ih]

variable {m}

/-- A kept field's new position counts from `k` among the kept fields, and names that field. -/
theorem slots_some {k i j : Nat} {fs : List Field} (h : (m.slots k fs)[i]? = some (some j)) :
    k ≤ j ∧ ∃ hi : i < fs.length, (fs.filter m.keeps)[j - k]? = some fs[i] := by
  induction fs generalizing k i with
  | nil => simp [slots] at h
  | cons f fs ih =>
    unfold slots at h
    split at h
    · rename_i hd
      cases i with
      | zero => simp at h
      | succ i =>
        obtain ⟨hk, hi, hj⟩ := ih (by simpa using h)
        exact ⟨hk, by simpa using hi, by simpa [keeps, hd] using hj⟩
    · rename_i hd
      cases i with
      | zero =>
        obtain rfl : k = j := by simpa using h
        exact ⟨Nat.le_refl _, by simp, by simp [keeps, hd]⟩
      | succ i =>
        obtain ⟨hk, hi, hj⟩ := ih (by simpa using h)
        refine ⟨by omega, by simpa using hi, ?_⟩
        have : j - k = j - (k + 1) + 1 := by omega
        simpa [keeps, hd, this] using hj

/-- No two fields share a new position. -/
theorem slots_inj {k i i' j : Nat} {fs : List Field} (h : (m.slots k fs)[i]? = some (some j))
    (h' : (m.slots k fs)[i']? = some (some j)) : i = i' := by
  induction fs generalizing k i i' with
  | nil => simp [slots] at h
  | cons f fs ih =>
    unfold slots at h h'
    by_cases hd : m.drops f.name = true
    · simp only [hd, ↓reduceIte] at h h'
      cases i <;> cases i' <;> simp_all
      exact ih h h'
    · simp only [hd, Bool.false_eq_true, ↓reduceIte] at h h'
      cases i with
      | zero =>
        cases i' with
        | zero => rfl
        | succ i' =>
          obtain rfl : k = j := by simpa using h
          have := (slots_some (by simpa using h')).1
          omega
      | succ i =>
        cases i' with
        | zero =>
          obtain rfl : k = j := by simpa using h'
          have := (slots_some (by simpa using h)).1
          omega
        | succ i' => exact congrArg (· + 1) (ih (by simpa using h) (by simpa using h'))

/-- Every kept field has a new position. -/
theorem slots_surj {k j : Nat} {fs : List Field} (hj : j < (fs.filter m.keeps).length) :
    ∃ i : Nat, (m.slots k fs)[i]? = some (some (k + j)) := by
  induction fs generalizing k j with
  | nil => simp at hj
  | cons f fs ih =>
    unfold slots
    split
    · rename_i hd
      obtain ⟨i, hi⟩ := ih (k := k) (j := j) (by simpa [keeps, hd] using hj)
      exact ⟨i + 1, by simpa using hi⟩
    · rename_i hd
      cases j with
      | zero => exact ⟨0, by simp⟩
      | succ j =>
        obtain ⟨i, hi⟩ := ih (k := k + 1) (j := j) (by simpa [keeps, hd] using hj)
        exact ⟨i + 1, by simpa [Nat.add_right_comm, Nat.add_assoc] using hi⟩

end RenameMap

@[simp] theorem Field.renamed_inPrimaryKey (m : RenameMap) (f : Field) :
    (f.renamed m).inPrimaryKey = f.inPrimaryKey := by
  unfold Field.renamed
  split <;> rfl

@[simp] theorem Field.renamed_autoIncrement (m : RenameMap) (f : Field) :
    (f.renamed m).autoIncrement = f.autoIncrement := by
  unfold Field.renamed
  split <;> rfl

namespace Table

variable {t t' : Table} {m : RenameMap}

/-- The table a change map makes keeps its fields' flags, and its key follows the kept fields. -/
theorem renameColumns_ok (h : t.renameColumns m = .ok t') :
    t.fields.filter m.keeps ≠ [] ∧ t'.fields = (t.fields.filter m.keeps).map (Field.renamed m) ∧
      t'.primaryKey = t.primaryKey.filterMap (fun i => (m.slots 0 t.fields)[i]?.join) := by
  simp only [renameColumns] at h
  split at h
  · cases h
  · rename_i hne
    cases h
    exact ⟨by simpa using hne, rfl, rfl⟩

/-- A change map that leaves a field leaves a valid table. -/
theorem KeyConsistent.renameColumns (h : t.KeyConsistent) (hr : t.renameColumns m = .ok t') :
    t'.Valid := by
  obtain ⟨hne, hf, hk⟩ := renameColumns_ok hr
  -- each new position is the slot of exactly one old field
  have origin : ∀ j (hj : j < t'.fields.length), ∃ i, ∃ hi : i < t.fields.length,
      (m.slots 0 t.fields)[i]? = some (some j) ∧ t'.fields[j] = t.fields[i].renamed m := by
    intro j hj
    have hj' : j < (t.fields.filter m.keeps).length := by simpa [hf] using hj
    obtain ⟨i, hi⟩ := RenameMap.slots_surj (k := 0) hj'
    rw [Nat.zero_add] at hi
    obtain ⟨-, hlt, hget⟩ := RenameMap.slots_some hi
    refine ⟨i, hlt, hi, ?_⟩
    have hget' : (t.fields.filter m.keeps)[j] = t.fields[i] := by
      simpa [List.getElem?_eq_getElem hj'] using hget
    simp [hf, hget']
  have mem_key : ∀ i j, (m.slots 0 t.fields)[i]? = some (some j) → (j ∈ t'.primaryKey ↔ i ∈ t.primaryKey) := by
    intro i j hij
    rw [hk, List.mem_filterMap]
    constructor
    · rintro ⟨i', hi', hj⟩
      obtain rfl := RenameMap.slots_inj hij (Option.join_eq_some_iff.mp hj)
      exact hi'
    · intro hi
      exact ⟨i, hi, Option.join_eq_some_iff.mpr hij⟩
  refine ⟨⟨?_, ?_, ?_, ?_⟩, ?_⟩
  · rw [hk]
    refine h.nodup.filterMap fun a a' b hb hb' => ?_
    exact RenameMap.slots_inj (Option.join_eq_some_iff.mp hb) (Option.join_eq_some_iff.mp hb')
  · intro j hj
    rw [hk, List.mem_filterMap] at hj
    obtain ⟨i, -, hij⟩ := hj
    obtain ⟨-, _, hget⟩ := RenameMap.slots_some (Option.join_eq_some_iff.mp hij)
    have := (List.getElem?_eq_some_iff.mp hget).1
    simpa [hf] using this
  · intro j hj
    obtain ⟨i, hi, hij, hfield⟩ := origin j hj
    rw [hfield, Field.renamed_inPrimaryKey, h.flag i hi, mem_key i j hij]
  · intro j hj
    obtain ⟨i, hi, -, hfield⟩ := origin j hj
    rw [hfield, Field.renamed_inPrimaryKey, Field.renamed_autoIncrement]
    exact h.auto i hi
  · simpa [hf] using hne

end Table

end SqlSchema
