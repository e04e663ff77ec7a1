import SqlSchema.Proofs.TableKey
import SqlSchema.Proofs.Cursor
import SqlSchema.Statement.Reader

/-! # The statements a program can hold

A statement is read from text, and then carried over change maps, moved to another table, or both;
each change may go through or fail. Every table met along the way is valid: it has a column, and its
key positions and key flags agree. The reader establishes this one constraint, column or table
element at a time, and each change keeps it. -/

namespace SqlSchema

/-- A statement is valid when the table it holds, if any, is valid. -/
def Statement.Valid : Statement → Prop
  | .table t => t.Valid
  | .index _ => True

namespace Reader

open Cursor

/-- A default sets the default and leaves the key flags alone. -/
theorem defaultClause_keyFlags (f : Field) :
    Yields (defaultClause f) fun g => g.inPrimaryKey = f.inPrimaryKey ∧ g.autoIncrement = f.autoIncrement := by
  delta defaultClause
  extract_lets literal
  -- a literal is read where no parenthesis or sign comes first, and at the end of the text
  have hlit : Yields literal fun g => g.inPrimaryKey = f.inPrimaryKey ∧ g.autoIncrement = f.autoIncrement := by
    refine Yields.bind fun t => ?_
    split <;> first | exact Yields.pure ⟨rfl, rfl⟩ | exact Yields.throw
  refine Yields.bind fun t => ?_
  split
  · split
    · refine Yields.bind fun e => ?_
      split
      · exact Yields.pure ⟨rfl, rfl⟩
      · exact Yields.throw
    · split
      · exact Yields.bind fun _ => Yields.pure ⟨rfl, rfl⟩
      · exact hlit
  · exact hlit

/-- A column constraint either makes the column a key column or leaves its key flags alone. -/
theorem columnConstraint_keyFlags (f : Field) :
    Yields (columnConstraint f) fun r =>
      r.1.inPrimaryKey = true ∨ (r.1.inPrimaryKey = f.inPrimaryKey ∧ r.1.autoIncrement = f.autoIncrement) := by
  rw [columnConstraint]
  refine Yields.bind fun named => ?_
  extract_lets rest
  -- the constraint's name, if any, changes nothing
  suffices h : Yields (rest ()) _ by
    split
    · exact Yields.bind fun _ => h
    · exact h
  have keep : ∀ {β : Type} (x : Cursor β), Yields (x >>= fun _ => pure (f, true)) fun r =>
      r.1.inPrimaryKey = true ∨ (r.1.inPrimaryKey = f.inPrimaryKey ∧ r.1.autoIncrement = f.autoIncrement) :=
    fun _ => Yields.bind fun _ => Yields.pure (Or.inr ⟨rfl, rfl⟩)
  refine Yields.bind fun b => ?_
  split
  · -- PRIMARY KEY
    exact Yields.bind fun _ => Yields.bind fun _ => Yields.bind fun _ => Yields.bind fun _ =>
      Yields.pure (Or.inl rfl)
  refine Yields.bind fun b => ?_
  split
  · -- NOT NULL
    exact Yields.bind fun _ => Yields.bind fun _ => Yields.pure (Or.inr ⟨rfl, rfl⟩)
  refine Yields.bind fun b => ?_
  split
  · exact keep _
  refine Yields.bind fun b => ?_
  split
  · exact keep _
  refine Yields.bind fun b => ?_
  split
  · -- DEFAULT
    exact Yields.bind_of (defaultClause_keyFlags f) fun _ hg => Yields.pure (Or.inr hg)
  refine Yields.bind fun b => ?_
  split
  · exact keep _
  refine Yields.bind fun b => ?_
  split
  · exact keep _
  refine Yields.bind fun b => ?_
  split
  · exact Yields.bind fun _ => Yields.bind fun _ => keep _
  refine Yields.bind fun b => ?_
  split
  · exact keep _
  split
  · exact Yields.unexpected
  · exact Yields.pure (Or.inr ⟨rfl, rfl⟩)

variable {t : Table}

/-- A column definition keeps the key consistent. -/
theorem columnDef_keyConsistent (h : t.KeyConsistent) : Yields (columnDef t) Table.KeyConsistent := by
  rw [columnDef]
  refine Yields.bind fun name => Yields.bind fun ty => ?_
  -- the column's constraints only ever make it increment on its own as a key column
  have hf : Yields (repeatWhile columnConstraint { name, typeName := ty })
      fun f : Field => f.autoIncrement = true → f.inPrimaryKey = true := by
    refine Yields.repeatWhile (fun f hf => ?_) (by simp)
    refine (columnConstraint_keyFlags f).mono fun r hr => ?_
    rcases hr with hk | ⟨hk, ha⟩
    · exact fun _ => hk
    · rw [hk, ha]; exact hf
  refine Yields.bind_of hf fun f hf => Yields.pure ?_
  split
  · rename_i hk
    rw [Table.markPrimaryKey_push h hk]
    simpa [hk] using h.push hf
  · rename_i hk
    simpa [hk] using h.push hf

/-- A key column names a field of the table, or is passed over. -/
theorem keyColumn_lt {keys : List Nat} (hk : ∀ i ∈ keys, i < t.fields.length) :
    Yields (keyColumn t keys) fun r => ∀ i ∈ r.1, i < t.fields.length := by
  rw [keyColumn]
  refine Yields.bind fun name => ?_
  extract_lets keys' rest
  -- the column's position, when the table has it, joins the key
  have hkeys : ∀ i ∈ keys', i < t.fields.length := by
    intro i hi
    unfold keys' at hi
    split at hi
    · rename_i j hj
      rcases List.mem_append.mp hi with hi | hi
      · exact hk i hi
      · obtain rfl : i = j := by simpa using hi
        exact Table.position?_lt hj
    · exact hk i hi
  suffices h : Yields (rest ()) _ by
    refine Yields.bind fun b => ?_
    split
    · exact Yields.bind fun _ => h
    · exact h
  exact Yields.bind fun _ => Yields.bind fun _ => Yields.pure hkeys

/-- A table constraint keeps the key consistent. -/
theorem tableConstraint_keyConsistent (h : t.KeyConsistent) : Yields (tableConstraint t) Table.KeyConsistent := by
  rw [tableConstraint]
  refine Yields.bind fun named => ?_
  extract_lets rest
  refine Yields.ite_prefix ?_
  refine Yields.bind fun b => ?_
  split
  · -- PRIMARY KEY marks each listed column that the table has
    have hkeys : Yields (repeatWhile (keyColumn t) []) fun keys => ∀ i ∈ keys, i < t.fields.length :=
      Yields.repeatWhile (fun _ hk => keyColumn_lt hk) (by simp)
    refine Yields.bind fun _ => Yields.bind fun _ => Yields.bind_of hkeys fun keys hk => ?_
    exact Yields.bind fun auto => Yields.bind fun _ => Yields.bind fun _ => Yields.pure (h.markKeys auto hk)
  -- the other constraints keep the table
  refine Yields.bind fun b => ?_
  split
  · exact Yields.bind fun _ => Yields.bind fun _ => Yields.pure h
  refine Yields.bind fun b => ?_
  split
  · exact Yields.bind fun _ => Yields.pure h
  refine Yields.bind fun b => ?_
  split
  · exact Yields.bind fun _ => Yields.bind fun _ => Yields.bind fun _ => Yields.bind fun _ => Yields.pure h
  · exact Yields.unexpected

/-- A table element keeps the key consistent. -/
theorem tableElement_keyConsistent (h : t.KeyConsistent) :
    Yields (tableElement t) fun r => r.1.KeyConsistent := by
  rw [tableElement]
  refine Yields.bind fun _ => ?_
  extract_lets isConstraint finish
  have hfinish : ∀ t', t'.KeyConsistent → Yields (finish t') fun r => r.1.KeyConsistent :=
    fun t' ht => Yields.bind fun _ => Yields.pure ht
  split
  · exact Yields.bind_of (tableConstraint_keyConsistent h) hfinish
  · exact Yields.bind_of (columnDef_keyConsistent h) hfinish

/-- The table of a `CREATE TABLE` statement is valid. -/
theorem createTable_valid (temporary : Bool) : Yields (createTable temporary) Table.Valid := by
  rw [createTable]
  refine Yields.bind fun _ => Yields.bind fun name => Yields.bind fun _ => ?_
  have hempty : Table.KeyConsistent { name, temporary } := ⟨List.nodup_nil, by simp, by simp, by simp⟩
  have hloop : Yields (repeatWhile tableElement { name, temporary }) Table.KeyConsistent :=
    Yields.repeatWhile (fun _ ht => tableElement_keyConsistent ht) hempty
  refine Yields.bind_of hloop fun t ht => Yields.bind fun _ => ?_
  extract_lets finish
  split
  · -- an empty column list is refused
    exact Yields.bind_of (Yields.throw (P := fun _ => False)) fun _ h => h.elim
  · rename_i hne
    have hne : t.fields ≠ [] := by simpa using hne
    refine Yields.bind fun _ => ?_
    -- `WITHOUT ROWID` changes neither the fields nor the key
    have hfinish : ∀ t' : Table, t'.fields = t.fields → t'.primaryKey = t.primaryKey →
        Yields (finish t') Table.Valid :=
      fun t' hf hk => Yields.bind fun _ => Yields.pure ⟨ht.congr hf hk, hf ▸ hne⟩
    split
    · simp only [pure_bind]
      exact Yields.bind fun _ => hfinish _ rfl rfl
    · simp only [pure_bind]
      exact hfinish _ rfl rfl


/-- A statement read from text holds a valid table, if it holds one. -/
theorem statement_valid : Yields statement Statement.Valid := by
  rw [statement]
  refine Yields.bind fun _ => Yields.bind fun temp => ?_
  have htable : ∀ temporary, Yields (createTable temporary >>= fun t => pure (Statement.table t))
      Statement.Valid :=
    fun temporary => Yields.bind_of (createTable_valid temporary) fun _ ht => Yields.pure ht
  have hindex : ∀ unique, Yields (createIndex unique >>= fun i => pure (Statement.index i))
      Statement.Valid :=
    fun _ => Yields.bind fun _ => Yields.pure trivial
  split
  · exact Yields.bind fun _ => htable true
  refine Yields.bind fun b => ?_
  split
  · exact htable false
  refine Yields.bind fun b => ?_
  split
  · exact Yields.bind fun _ => hindex true
  refine Yields.bind fun b => ?_
  split
  · exact hindex false
  · exact Yields.unexpected

end Reader

namespace Statement

/-- A statement read from text is what the reader gives on the text's tokens. -/
theorem run_of_parse {sql : String} {s : Statement} (h : Statement.parse sql = .ok s) :
    ∃ ts, Reader.statement (tokenize sql) = .ok (s, ts) := by
  simp only [Statement.parse] at h
  cases hr : Reader.statement.run (tokenize sql) with
  | error e => simp [hr, Except.map] at h
  | ok r =>
    obtain ⟨s', ts⟩ := r
    obtain rfl : s' = s := by simpa [hr, Except.map] using h
    exact ⟨ts, hr⟩

theorem parse_valid {sql : String} {s : Statement} (h : Statement.parse sql = .ok s) : s.Valid := by
  obtain ⟨ts, hrun⟩ := run_of_parse h
  exact Reader.statement_valid _ _ _ hrun

/-- The statements a program can hold: one read from text, and what changing its columns or its
    table makes of one, whether the change goes through or not. -/
inductive Reachable : Statement → Prop
  | parse {sql : String} {s : Statement} : Statement.parse sql = .ok s → Reachable s
  | renameColumns {s : Statement} (m : RenameMap) : Reachable s → Reachable (s.renameColumns m).1
  | replace {s : Statement} (name : String) (m : RenameMap) : Reachable s → Reachable (s.replace name m).1

theorem Valid.renameColumns {s : Statement} (h : s.Valid) (m : RenameMap) : (s.renameColumns m).1.Valid := by
  cases s with
  | table t =>
    simp only [Statement.renameColumns]
    split
    · rename_i t' ht'
      exact Table.KeyConsistent.renameColumns h.toKeyConsistent ht'
    · exact h
  | index i => trivial

theorem Valid.withTable {s : Statement} (h : s.Valid) (name : String) : (s.withTable name).Valid := by
  cases s with
  | table t => exact ⟨h.toKeyConsistent.congr rfl rfl, h.nonempty⟩
  | index i => trivial

theorem Reachable.valid {s : Statement} (h : s.Reachable) : s.Valid := by
  induction h with
  | parse hp => exact parse_valid hp
  | renameColumns m _ ih => exact ih.renameColumns m
  | replace name m _ ih => exact (ih.withTable name).renameColumns m

end Statement

/-- Every table a program holds has a column; its key lists distinct fields of the table, a field is
    flagged as a key field exactly when the key lists it, and only a key field increments on its own.
    So printing the key and carrying it over a change map only look up positions that exist. -/
theorem table_invariant_of_reachable {t : Table} (h : (Statement.table t).Reachable) :
    t.fields ≠ [] ∧ t.primaryKey.Nodup ∧ (∀ i ∈ t.primaryKey, i < t.fields.length) ∧
      (∀ i (hi : i < t.fields.length), t.fields[i].inPrimaryKey = true ↔ i ∈ t.primaryKey) ∧
      (∀ i (hi : i < t.fields.length), t.fields[i].autoIncrement = true → t.fields[i].inPrimaryKey = true) ∧
      ∀ m : RenameMap, ∀ i ∈ t.primaryKey, i < (m.slots 0 t.fields).length := by
  have hv : t.Valid := h.valid
  refine ⟨hv.nonempty, hv.nodup, hv.lt, hv.flag, hv.auto, fun m i hi => ?_⟩
  rw [RenameMap.length_slots]
  exact hv.lt i hi

/-- A parse checked through its optional result. -/
theorem Statement.parse_eq_ok_of_toOption {sql : String} {s : Statement} (h : (Statement.parse sql).toOption = some s) :
    Statement.parse sql = .ok s := by
  revert h
  cases Statement.parse sql <;> simp [Except.toOption]

/-- A table whose key column increments on its own, read from text. -/
theorem table_invariant_of_reachable_autoIncrement :
    let t : Table := { name := "t", fields := [{ name := "a" },
      { name := "b", inPrimaryKey := true, autoIncrement := true }], primaryKey := [1] }
    (Statement.table t).Reachable ∧
      (t.fields ≠ [] ∧ t.primaryKey.Nodup ∧ (∀ i ∈ t.primaryKey, i < t.fields.length) ∧
        (∀ i (hi : i < t.fields.length), t.fields[i].inPrimaryKey = true ↔ i ∈ t.primaryKey) ∧
        (∀ i (hi : i < t.fields.length), t.fields[i].autoIncrement = true → t.fields[i].inPrimaryKey = true) ∧
        ∀ m : RenameMap, ∀ i ∈ t.primaryKey, i < (m.slots 0 t.fields).length) := by
  intro t
  have hp : Statement.parse "CREATE TABLE t (a, b PRIMARY KEY AUTOINCREMENT)" = .ok (.table t) :=
    Statement.parse_eq_ok_of_toOption (by decide +kernel)
  exact ⟨.parse hp, table_invariant_of_reachable (.parse hp)⟩

end SqlSchema
