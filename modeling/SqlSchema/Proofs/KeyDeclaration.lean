import SqlSchema.Proofs.Agreement
import SqlSchema.Proofs.Normalize
import SqlSchema.Proofs.Reachable
import SqlSchema.Statement.Reader

/-! # The key as a table's text declares it

A table's key is declared by the `PRIMARY KEY` clauses of its text, in their order. A column
constraint `PRIMARY KEY` names its own column; a table constraint `PRIMARY KEY (c₁, ..., cₖ)` names,
for each of its names in turn, the first column defined before the constraint with that name up to
ASCII case, and passes over a name that no such column has. A naming says `AUTOINCREMENT` when its
clause does.

`Table.Element` is a table element as far as the key goes, and `Reader.tableText` reads a table
statement as its elements, by the statement grammar. The table the reader makes is the one its
elements declare (`Reader.createTable_declared`): the key lists each field that is named, once, in the
order of its first naming, and a field increments on its own exactly when a naming that says
`AUTOINCREMENT` names it. The main statement is `primaryKey_declaredOrder`. -/

namespace SqlSchema

/-- A table element, as far as the key goes. -/
inductive Table.Element where
  /-- A column named `name`; `keys` says, for each of its `PRIMARY KEY` constraints in order, whether
      it has `AUTOINCREMENT`. -/
  | column (name : String) (keys : List Bool)
  /-- A table constraint `PRIMARY KEY` over the columns named `names`, with `AUTOINCREMENT` when
      `auto`. -/
  | primaryKey (names : List String) (auto : Bool)
  /-- Any other table constraint. -/
  | constraint
  deriving DecidableEq, Repr

namespace Table.Element

/-- The names of the columns the elements define, in order. -/
def columnNames : List Element → List String
  | [] => []
  | .column n _ :: els => n :: columnNames els
  | _ :: els => columnNames els

/-- The first of `names` that is `n` up to ASCII case. -/
def resolve (names : List String) (n : String) : Option Nat :=
  names.findIdx? (sameWord · n)

/-- The fields an element names for the key, after the columns `before`, each with whether the naming
    says `AUTOINCREMENT`. A column with `PRIMARY KEY` constraints names itself, once however many it
    has; a key constraint names, for each of its names, the first column before it with that name up
    to ASCII case, and passes over a name that no column before it has. -/
def keyNames (before : List String) : Element → List (Nat × Bool)
  | .column _ keys => if keys.isEmpty then [] else [(before.length, keys.any id)]
  | .primaryKey names auto => (names.filterMap (resolve before)).map (·, auto)
  | .constraint => []

/-- The namings of key fields by the elements, after the columns `before`, in the order of the text. -/
def keyNamingsAfter (before : List String) : List Element → List (Nat × Bool)
  | [] => []
  | el :: els => el.keyNames before ++ keyNamingsAfter (before ++ columnNames [el]) els

/-- The namings of key fields by a table's elements, in the order of the text. -/
def keyNamings (els : List Element) : List (Nat × Bool) :=
  keyNamingsAfter [] els

theorem columnNames_append (els els' : List Element) :
    columnNames (els ++ els') = columnNames els ++ columnNames els' := by
  induction els with
  | nil => rfl
  | cons el els ih => cases el <;> simp [columnNames, ih]

theorem keyNamingsAfter_snoc (before : List String) (els : List Element) (el : Element) :
    keyNamingsAfter before (els ++ [el]) = keyNamingsAfter before els ++ el.keyNames (before ++ columnNames els) := by
  induction els generalizing before with
  | nil => simp [keyNamingsAfter, columnNames]
  | cons el' els ih =>
    rw [List.cons_append, keyNamingsAfter, keyNamingsAfter, ih, List.append_assoc, List.append_assoc,
      ← columnNames_append]
    rfl

/-- A new element adds its own namings after those of the elements before it. -/
theorem keyNamings_snoc (els : List Element) (el : Element) :
    keyNamings (els ++ [el]) = keyNamings els ++ el.keyNames (columnNames els) :=
  keyNamingsAfter_snoc [] els el

theorem resolve_lt {names : List String} {n : String} {i : Nat} (h : resolve names n = some i) :
    i < names.length :=
  (List.findIdx?_eq_some_iff_getElem.mp h).1

/-- An element names only columns defined before it or by itself. -/
theorem keyNames_lt (before : List String) (el : Element) :
    ∀ p ∈ el.keyNames before, p.1 < (before ++ columnNames [el]).length := by
  intro p hp
  cases el with
  | column n keys =>
    by_cases hk : keys.isEmpty <;> simp_all [keyNames, columnNames]
  | primaryKey names auto =>
    simp only [keyNames, List.mem_map, List.mem_filterMap] at hp
    obtain ⟨i, ⟨n, -, hn⟩, rfl⟩ := hp
    simpa [columnNames] using resolve_lt hn
  | constraint => simp [keyNames] at hp

/-- The elements of a table name only its columns. -/
theorem keyNamings_lt (els : List Element) : ∀ p ∈ keyNamings els, p.1 < (columnNames els).length := by
  induction els using List.reverseRecOn with
  | nil => simp [keyNamings, keyNamingsAfter]
  | append_singleton els el ih =>
    intro p hp
    rw [keyNamings_snoc, List.mem_append] at hp
    rw [columnNames_append, List.length_append]
    rcases hp with hp | hp
    · exact Nat.lt_of_lt_of_le (ih p hp) (Nat.le_add_right _ _)
    · simpa using keyNames_lt _ el p hp

end Table.Element

/-! ### What a list of namings declares -/

namespace Table

open Element

/-- The key of `t` and the `AUTOINCREMENT` flags of its fields are what the namings `ns` declare: the
    key lists each field named, once, in the order of its first naming, and a field increments on its
    own exactly when a naming that says `AUTOINCREMENT` names it. -/
structure Keyed (t : Table) (ns : List (Nat × Bool)) : Prop where
  key : t.primaryKey = (ns.map Prod.fst).eraseDups
  auto : ∀ i (h : i < t.fields.length), t.fields[i].autoIncrement = true ↔ (i, true) ∈ ns

/-- The table that the elements `els` declare, as far as the names of its columns and its key go. -/
structure Declared (t : Table) (els : List Element) : Prop extends Keyed t (keyNamings els) where
  names : t.fields.map Field.name = Element.columnNames els

variable {t : Table} {ns : List (Nat × Bool)}

/-- A position joins a key at its end, unless it is there already. -/
theorem eraseDups_snoc (l : List Nat) (i : Nat) :
    (l ++ [i]).eraseDups = if i ∈ l then l.eraseDups else l.eraseDups ++ [i] := by
  rw [List.eraseDups_append]
  by_cases hi : i ∈ l <;> simp [List.removeAll, hi, List.eraseDups_cons]

theorem Declared.length_fields (h : Declared t els) : t.fields.length = (Element.columnNames els).length := by
  rw [← h.names, List.length_map]

/-- A table-level key marks its positions one after another: the key gets those it lacks, in order,
    and with `AUTOINCREMENT` each of them increments on its own. -/
theorem Keyed.markKeys (h : Keyed t ns) (auto : Bool) (keys : List Nat) :
    Keyed (keys.foldl (markKeyStep auto) t) (ns ++ keys.map (·, auto)) where
  key := by
    rw [foldl_markKeyStep, List.map_append, List.map_map, List.eraseDups_append, ← h.key]
    simp only [List.removeAll, List.elem_eq_contains, Function.comp_def, List.map_id']
    congr 2
    refine List.filter_congr fun i _ => ?_
    rw [h.key]
    simp [List.mem_eraseDups]
  auto i hi := by
    have hi' : i < t.fields.length := by simpa [foldl_markKeyStep] using hi
    simp only [foldl_markKeyStep, List.getElem_mapIdx]
    rw [List.mem_append, ← h.auto i hi']
    by_cases hk : keys.contains i <;> simp_all [Field.markKey]

/-- The table with the column `f` added, and put into the key when it is flagged a key column, as a
    column definition adds it. -/
def addColumn (t : Table) (f : Field) : Table :=
  let u : Table := { t with fields := t.fields ++ [f] }
  if f.inPrimaryKey then u.markPrimaryKey t.fields.length else u

theorem addColumn_fields (t : Table) (f : Field) :
    (t.addColumn f).fields = if f.inPrimaryKey then (t.fields ++ [f]).modify t.fields.length
      (fun g => { g with inPrimaryKey := true }) else t.fields ++ [f] := by
  unfold addColumn
  split <;> rfl

theorem addColumn_primaryKey (h : t.fields.length ∉ t.primaryKey) (f : Field) :
    (t.addColumn f).primaryKey = if f.inPrimaryKey then t.primaryKey ++ [t.fields.length] else t.primaryKey := by
  unfold addColumn
  split
  · simp [markPrimaryKey, h]
  · rfl

/-- Adding a column adds its name after the others. -/
theorem addColumn_names (t : Table) (f : Field) :
    (t.addColumn f).fields.map Field.name = t.fields.map Field.name ++ [f.name] := by
  have hf : t.fields.map Field.name ++ [f.name] = (t.fields ++ [f]).map Field.name := by simp
  rw [addColumn_fields, hf]
  split
  · -- marking the key renames nothing
    exact List.ext_getElem (by simp) fun j _ _ => by
      rw [List.getElem_map, List.getElem_modify, List.getElem_map]
      split <;> rfl
  · rfl

/-- Adding a column leaves the `AUTOINCREMENT` flags of the old fields, and the new one has its own. -/
theorem addColumn_autoIncrement (t : Table) (f : Field) (j : Nat) (hj : j < (t.addColumn f).fields.length) :
    (t.addColumn f).fields[j].autoIncrement =
      if hlt : j < t.fields.length then t.fields[j].autoIncrement else f.autoIncrement := by
  have hj' : j < (t.fields ++ [f]).length := by
    rw [addColumn_fields] at hj
    split at hj <;> simpa using hj
  have hmod : ∀ g : Field, ({ g with inPrimaryKey := true } : Field).autoIncrement = g.autoIncrement := fun _ => rfl
  simp only [addColumn_fields]
  split
  · rw [List.getElem_modify]
    split
    · rw [hmod]
      exact (by rw [List.getElem_append]; split <;> simp)
    · rw [List.getElem_append]; split <;> simp
  · rw [List.getElem_append]; split <;> simp

/-- A column joins the table with the flags its constraints give it, and names itself for the key when
    it is a key column. -/
theorem Keyed.addColumn (h : Keyed t ns) (hlt : ∀ p ∈ ns, p.1 < t.fields.length) {f : Field}
    {keys : List Bool} (hk : f.inPrimaryKey = !keys.isEmpty) (ha : f.autoIncrement = keys.any id) :
    Keyed (t.addColumn f) (ns ++ if keys.isEmpty then [] else [(t.fields.length, keys.any id)]) := by
  -- the new column's position is past every position named so far
  have fresh : t.fields.length ∉ ns.map Prod.fst := by
    simp only [List.mem_map]
    rintro ⟨p, hp, he⟩
    exact Nat.lt_irrefl _ (he ▸ hlt p hp)
  have fresh' : t.fields.length ∉ t.primaryKey := by
    simpa [h.key, List.mem_eraseDups] using fresh
  constructor
  · rw [addColumn_primaryKey fresh', h.key, hk]
    by_cases hkeys : keys.isEmpty <;> simp [hkeys, eraseDups_snoc, fresh]
  · intro j hj
    rw [addColumn_autoIncrement, List.mem_append]
    split
    · rename_i hlt'
      rw [h.auto j hlt']
      by_cases hkeys : keys.isEmpty <;> simp [hkeys, Nat.ne_of_lt hlt']
    · rename_i hlt'
      have hj' : j < t.fields.length + 1 := by
        have := hj
        rw [addColumn_fields] at this
        split at this <;> simpa using this
      obtain rfl : j = t.fields.length := by omega
      have hnot : (t.fields.length, true) ∉ ns := fun hm => fresh (List.mem_map.mpr ⟨_, hm, rfl⟩)
      rw [ha]
      by_cases hkeys : keys.isEmpty
      · simp [hnot, List.isEmpty_iff.mp hkeys]
      · simp [hkeys, hnot]

/-- The key constraint's positions are its names looked up among the table's columns. -/
theorem position?_eq_resolve (h : t.fields.map Field.name = names) (n : String) :
    t.position? n = resolve names n := by
  rw [position?, resolve, ← h, List.findIdx?_map]
  rfl

/-! ### What each element adds -/

variable {els : List Element}

/-- A table with no columns declares nothing. -/
theorem declared_nil (name : String) (temporary : Bool) : Declared { name, temporary } [] where
  key := rfl
  auto i hi := absurd hi (Nat.not_lt_zero i)
  names := rfl

/-- A constraint other than a key adds nothing. -/
theorem Declared.constraint (h : Declared t els) : Declared t (els ++ [.constraint]) where
  key := by rw [keyNamings_snoc, keyNames, List.append_nil]; exact h.key
  auto := by rw [keyNamings_snoc, keyNames, List.append_nil]; exact h.auto
  names := by rw [columnNames_append, h.names]; simp [Element.columnNames]

/-- A column adds its field, which names itself for the key when it has a `PRIMARY KEY` constraint. -/
theorem Declared.column (h : Declared t els) {f : Field} {name : String} {keys : List Bool}
    (hf : f.name = name ∧ f.inPrimaryKey = !keys.isEmpty ∧ f.autoIncrement = keys.any id) :
    Declared (t.addColumn f) (els ++ [.column name keys]) := by
  have hlen := h.length_fields
  have hlt : ∀ p ∈ keyNamings els, p.1 < t.fields.length := fun p hp => hlen ▸ keyNamings_lt els p hp
  have hkeyed := h.toKeyed.addColumn hlt hf.2.1 hf.2.2
  rw [hlen] at hkeyed
  refine ⟨by rw [keyNamings_snoc]; exact hkeyed, ?_⟩
  rw [addColumn_names, columnNames_append, h.names, hf.1]
  rfl

/-- A key constraint marks, in order, the first column before it of each of its names. -/
theorem Declared.primaryKey (h : Declared t els) (names : List String) (auto : Bool) :
    Declared ((names.filterMap (resolve (Element.columnNames els))).foldl (markKeyStep auto) t)
      (els ++ [.primaryKey names auto]) := by
  refine ⟨?_, ?_⟩
  · rw [keyNamings_snoc]
    exact h.toKeyed.markKeys auto _
  · rw [foldl_markKeyStep, columnNames_append, ← h.names]
    simp only [Element.columnNames, List.append_nil]
    exact List.ext_getElem (by simp) fun j _ _ => by
      simp only [List.getElem_map, List.getElem_mapIdx]
      split <;> rfl

/-- Dropping the rowid changes neither the columns nor the key. -/
theorem Declared.withoutRowid (h : Declared t els) : Declared { t with hasRowid := false } els :=
  ⟨⟨h.key, h.auto⟩, h.names⟩

end Table

/-! ### The elements of a table's text -/

namespace Reader

open Cursor Table.Element

/-- One column constraint, as far as the key goes: after a `PRIMARY KEY` constraint, `keys` gets
    whether it says `AUTOINCREMENT`. Then whether there was a constraint. -/
def constraintKeys (keys : List Bool) : Cursor (List Bool × Bool) := do
  let named ← eatKeyword "CONSTRAINT"
  if named then
    let _ ← expectName "constraint name"
  if ← eatKeyword "PRIMARY" then
    expectKeyword "KEY"
    let _ ← eatAnyKeyword ["ASC", "DESC"]
    conflictClause
    let auto ← eatKeyword "AUTOINCREMENT"
    pure (keys ++ [auto], true)
  else if ← eatKeyword "NOT" then
    expectKeyword "NULL"
    conflictClause
    pure (keys, true)
  else if ← eatAnyKeyword ["NULL", "UNIQUE"] then
    conflictClause
    pure (keys, true)
  else if ← eatKeyword "CHECK" then
    skipBalanced
    pure (keys, true)
  else if ← eatKeyword "DEFAULT" then
    let _ ← defaultClause { name := "" }
    pure (keys, true)
  else if ← eatKeyword "COLLATE" then
    let _ ← expectName "collation name"
    pure (keys, true)
  else if ← eatKeyword "REFERENCES" then
    foreignKeyClause
    pure (keys, true)
  else if ← eatKeyword "GENERATED" then
    expectKeyword "ALWAYS"
    expectKeyword "AS"
    generatedBody
    pure (keys, true)
  else if ← eatKeyword "AS" then
    generatedBody
    pure (keys, true)
  else if named then unexpected "column constraint"
  else pure (keys, false)

/-- A column definition: its name, its type, and its constraints as far as the key goes. -/
def columnElement : Cursor Table.Element := do
  let name ← expectName "column name"
  let _ ← typeName
  let keys ← repeatWhile constraintKeys []
  pure (.column name keys)

/-- One column of a table-level key, added to `names`, then whether a comma follows. -/
def keyColumnName (names : List String) : Cursor (List String × Bool) := do
  let name ← expectName "primary key column"
  if ← eatKeyword "COLLATE" then
    let _ ← expectName "collation name"
  let _ ← eatAnyKeyword ["ASC", "DESC"]
  pure (names ++ [name], ← eatPunct ',')

/-- A table constraint, as far as the key goes. -/
def constraintElement : Cursor Table.Element := do
  if ← eatKeyword "CONSTRAINT" then
    let _ ← expectName "constraint name"
  if ← eatKeyword "PRIMARY" then
    expectKeyword "KEY"
    expectPunct '('
    let names ← repeatWhile keyColumnName []
    let auto ← eatKeyword "AUTOINCREMENT"
    expectPunct ')'
    conflictClause
    pure (.primaryKey names auto)
  else if ← eatKeyword "UNIQUE" then
    skipBalanced
    conflictClause
    pure .constraint
  else if ← eatKeyword "CHECK" then
    skipBalanced
    pure .constraint
  else if ← eatKeyword "FOREIGN" then
    expectKeyword "KEY"
    skipBalanced
    expectKeyword "REFERENCES"
    foreignKeyClause
    pure .constraint
  else unexpected "table constraint"

/-- One element of a table, added to `els`, then whether a comma follows. -/
def element (els : List Table.Element) : Cursor (List Table.Element × Bool) := do
  let isConstraint := (← peek?).any fun tok => tableConstraintWords.any tok.isKeyword
  let el ← if isConstraint then constraintElement else columnElement
  pure (els ++ [el], ← eatPunct ',')

/-- The elements of a `CREATE TABLE` statement after `TABLE`. -/
def tableElements : Cursor (List Table.Element) := do
  ifNotExists
  let _ ← qualifiedName
  expectPunct '('
  let els ← repeatWhile element []
  expectPunct ')'
  if (columnNames els).isEmpty then throw .emptyColumnList
  if ← eatKeyword "WITHOUT" then
    expectKeyword "ROWID"
  expectEnd
  pure els

/-- The elements of a table statement: `CREATE`, an optional `TEMP` or `TEMPORARY`, `TABLE`, and the
    rest of the statement. -/
def tableText : Cursor (List Table.Element) := do
  expectKeyword "CREATE"
  let _ ← eatAnyKeyword ["TEMP", "TEMPORARY"]
  expectKeyword "TABLE"
  tableElements

/-! ### The reader makes the table its elements declare -/

variable {t : Table} {els : List Table.Element}

theorem agree_throw_refl {α : Type} {R : α → α → Prop} {e : ReadError} : Agree Eq R (throw e) (throw e) :=
  Agree.throw (ReadError.rel_eq_iff.mpr rfl)

/-- A default sets the default alone: read into any two fields, it takes the same tokens, and the
    first keeps its name and key flags. -/
theorem defaultClause_agree (f g : Field) :
    Agree Eq (fun a _ => a.name = f.name ∧ a.inPrimaryKey = f.inPrimaryKey ∧ a.autoIncrement = f.autoIncrement)
      (defaultClause f) (defaultClause g) := by
  delta defaultClause
  extract_lets lit lit'
  -- a literal, read where no parenthesis or sign comes first
  have hlit : Agree Eq (fun a _ => a.name = f.name ∧ a.inPrimaryKey = f.inPrimaryKey ∧
      a.autoIncrement = f.autoIncrement) lit lit' := by
    refine Agree.bind_refl _ fun t => ?_
    cases t.kind <;> first | exact Agree.pure ⟨rfl, rfl, rfl⟩ | exact agree_throw_refl
  refine Agree.bind_refl _ fun o => ?_
  cases o with
  | none => exact hlit
  | some t =>
    refine Agree.ite (fun _ => ?_) fun _ => Agree.ite (fun _ => ?_) fun _ => hlit
    · refine Agree.bind_refl _ fun e => ?_
      cases e <;> first | exact Agree.pure ⟨rfl, rfl, rfl⟩ | exact agree_throw_refl
    · exact Agree.bind_refl _ fun _ => Agree.pure ⟨rfl, rfl, rfl⟩

/-- The field `f` is the column `name` whose `PRIMARY KEY` constraints say `keys`. -/
abbrev ColumnKeys (name : String) (f : Field) (keys : List Bool) : Prop :=
  f.name = name ∧ f.inPrimaryKey = !keys.isEmpty ∧ f.autoIncrement = keys.any id

/-- A column constraint sets the key flags of its column as the `PRIMARY KEY` it is, if it is one. -/
theorem columnConstraint_agree {name : String} {f : Field} {keys : List Bool} (h : ColumnKeys name f keys) :
    Agree Eq (fun p q => ColumnKeys name p.1 q.1 ∧ p.2 = q.2) (columnConstraint f) (constraintKeys keys) := by
  rw [columnConstraint, constraintKeys]
  refine Agree.bind_refl _ fun named => ?_
  extract_lets jp jp'
  -- the constraint's name, if it has one, is read alike on both sides
  suffices hjp : Agree Eq (fun p q => ColumnKeys name p.1 q.1 ∧ p.2 = q.2) (jp ()) (jp' ()) from
    Agree.ite (fun _ => Agree.bind_refl _ fun _ => hjp) fun _ => hjp
  have keep : Agree Eq (fun p q => ColumnKeys name p.1 q.1 ∧ p.2 = q.2) (pure (f, true)) (pure (keys, true)) :=
    Agree.pure ⟨h, rfl⟩
  refine Agree.bind_refl _ fun _ => Agree.ite (fun _ => ?_) fun _ => ?_
  · -- `PRIMARY KEY`, with `AUTOINCREMENT` or not
    refine Agree.bind_refl _ fun _ => Agree.bind_refl _ fun _ => Agree.bind_refl _ fun _ =>
      Agree.bind_refl _ fun auto => Agree.pure ⟨⟨h.1, ?_, ?_⟩, rfl⟩
    · simp
    · simp [h.2.2]
  refine Agree.bind_refl _ fun _ => Agree.ite (fun _ => ?_) fun _ => ?_
  · exact Agree.bind_refl _ fun _ => Agree.bind_refl _ fun _ => Agree.pure ⟨h, rfl⟩
  refine Agree.bind_refl _ fun _ => Agree.ite (fun _ => Agree.bind_refl _ fun _ => keep) fun _ => ?_
  refine Agree.bind_refl _ fun _ => Agree.ite (fun _ => Agree.bind_refl _ fun _ => keep) fun _ => ?_
  refine Agree.bind_refl _ fun _ => Agree.ite (fun _ => ?_) fun _ => ?_
  · -- `DEFAULT` keeps the name and the key flags
    refine (defaultClause_agree f _).bind fun g _ hg => Agree.pure ⟨⟨?_, ?_, ?_⟩, rfl⟩
    · exact hg.1.trans h.1
    · exact hg.2.1.trans h.2.1
    · exact hg.2.2.trans h.2.2
  refine Agree.bind_refl _ fun _ => Agree.ite (fun _ => Agree.bind_refl _ fun _ => keep) fun _ => ?_
  refine Agree.bind_refl _ fun _ => Agree.ite (fun _ => Agree.bind_refl _ fun _ => keep) fun _ => ?_
  refine Agree.bind_refl _ fun _ => Agree.ite (fun _ => ?_) fun _ => ?_
  · exact Agree.bind_refl _ fun _ => Agree.bind_refl _ fun _ => Agree.bind_refl _ fun _ => keep
  refine Agree.bind_refl _ fun _ => Agree.ite (fun _ => Agree.bind_refl _ fun _ => keep) fun _ => ?_
  exact Agree.ite (fun _ => Agree.unexpected) fun _ => Agree.pure ⟨h, rfl⟩

/-- A column definition adds the column its constraints declare. -/
theorem columnDef_agree (h : t.Declared els) :
    Agree Eq (fun t' el => t'.Declared (els ++ [el])) (columnDef t) columnElement := by
  rw [columnDef, columnElement]
  refine Agree.bind_refl _ fun name => Agree.bind_refl _ fun ty => ?_
  refine (Agree.repeatWhile (fun f keys hf => columnConstraint_agree hf)
    (show ColumnKeys name { name, typeName := ty } [] from ⟨rfl, rfl, rfl⟩)).bind fun f keys hf => ?_
  exact Agree.pure (h.column hf)

/-- One column of a table-level key: its position, looked up among the table's columns, joins the
    key's positions as its name joins the key's names. -/
theorem keyColumn_agree {cols names : List String} {keys : List Nat} (hn : t.fields.map Field.name = cols)
    (hk : keys = names.filterMap (Table.Element.resolve cols)) :
    Agree Eq (fun (p : List Nat × Bool) (q : List String × Bool) =>
        p.1 = q.1.filterMap (Table.Element.resolve cols) ∧ p.2 = q.2)
      (keyColumn t keys) (keyColumnName names) := by
  rw [keyColumn, keyColumnName]
  refine Agree.bind_refl _ fun name => Agree.bind_refl _ fun _ => ?_
  extract_lets keys' jp jp'
  suffices hjp : Agree Eq (fun (p : List Nat × Bool) (q : List String × Bool) =>
      p.1 = q.1.filterMap (Table.Element.resolve cols) ∧ p.2 = q.2) (jp ()) (jp' ()) from
    Agree.ite (fun _ => Agree.bind_refl _ fun _ => hjp) fun _ => hjp
  refine Agree.bind_refl _ fun _ => Agree.bind_refl _ fun _ => Agree.pure ⟨?_, rfl⟩
  simp only [keys', List.filterMap_append, ← hk, Table.position?_eq_resolve hn]
  cases hr : Table.Element.resolve cols name <;> simp [hr]

/-- The columns of a table-level key are read as their names and, looked up, as their positions. -/
theorem keyColumns_agree (h : t.Declared els) :
    Agree Eq (fun (keys : List Nat) (names : List String) =>
        keys = names.filterMap (Table.Element.resolve (Table.Element.columnNames els)))
      (repeatWhile (keyColumn t) []) (repeatWhile keyColumnName []) :=
  Agree.repeatWhile (fun _ _ hk => keyColumn_agree h.names hk) rfl

/-- A table constraint adds the key it declares, if it is a key. -/
theorem tableConstraint_agree (h : t.Declared els) :
    Agree Eq (fun t' el => t'.Declared (els ++ [el])) (tableConstraint t) constraintElement := by
  rw [tableConstraint, constraintElement]
  refine Agree.bind_refl _ fun _ => ?_
  extract_lets jp jp'
  suffices hjp : Agree Eq (fun t' el => t'.Declared (els ++ [el])) (jp ()) (jp' ()) from
    Agree.ite (fun _ => Agree.bind_refl _ fun _ => hjp) fun _ => hjp
  have keep : Agree Eq (fun t' el => t'.Declared (els ++ [el])) (pure t) (pure .constraint) :=
    Agree.pure h.constraint
  refine Agree.bind_refl _ fun _ => Agree.ite (fun _ => ?_) fun _ => ?_
  · -- `PRIMARY KEY (...)`: the positions of its names, marked in order
    refine Agree.bind_refl _ fun _ => Agree.bind_refl _ fun _ => ?_
    refine (keyColumns_agree h).bind fun keys names hk => ?_
    subst hk
    exact Agree.bind_refl _ fun auto => Agree.bind_refl _ fun _ => Agree.bind_refl _ fun _ =>
      Agree.pure (h.primaryKey names auto)
  refine Agree.bind_refl _ fun _ => Agree.ite (fun _ => Agree.bind_refl _ fun _ => Agree.bind_refl _ fun _ => keep)
    fun _ => ?_
  refine Agree.bind_refl _ fun _ => Agree.ite (fun _ => Agree.bind_refl _ fun _ => keep) fun _ => ?_
  refine Agree.bind_refl _ fun _ => Agree.ite (fun _ => ?_) fun _ => Agree.unexpected
  exact Agree.bind_refl _ fun _ => Agree.bind_refl _ fun _ => Agree.bind_refl _ fun _ => Agree.bind_refl _ fun _ => keep

/-- A table element adds what it declares. -/
theorem tableElement_agree (h : t.Declared els) :
    Agree Eq (fun p q => p.1.Declared q.1 ∧ p.2 = q.2) (tableElement t) (element els) := by
  rw [tableElement, element]
  refine Agree.bind_refl _ fun _ => ?_
  extract_lets isConstraint jp jp'
  have hjp : ∀ t' el, t'.Declared (els ++ [el]) →
      Agree Eq (fun p q => p.1.Declared q.1 ∧ p.2 = q.2) (jp t') (jp' el) :=
    fun t' el h' => Agree.bind_refl _ fun _ => Agree.pure ⟨h', rfl⟩
  exact Agree.ite (fun _ => (tableConstraint_agree h).bind hjp) fun _ => (columnDef_agree h).bind hjp

/-- The reader's table is the one the elements of its text declare. -/
theorem createTable_declared (temporary : Bool) :
    Agree Eq Table.Declared (createTable temporary) tableElements := by
  rw [createTable, tableElements]
  refine Agree.bind_refl _ fun _ => Agree.bind_refl _ fun name => Agree.bind_refl _ fun _ => ?_
  refine (Agree.repeatWhile (fun _ _ h => tableElement_agree h) (Table.declared_nil name temporary)).bind
    fun t els h => Agree.bind_refl _ fun _ => ?_
  extract_lets fin jp fin' jp'
  -- the end of the statement: `WITHOUT ROWID` changes neither the columns nor the key
  have hjp : Agree Eq Table.Declared (jp ()) (jp' ()) := by
    refine Agree.bind_refl _ fun _ => Agree.ite (fun _ => Agree.bind_refl _ fun _ => ?_) fun _ => ?_
    · simp only [pure_bind]
      exact Agree.bind_refl _ fun _ => Agree.pure h.withoutRowid
    · simp only [pure_bind]
      exact Agree.bind_refl _ fun _ => Agree.pure h
  have hempty : t.fields.isEmpty = true ↔ (Table.Element.columnNames els).isEmpty = true := by
    rw [← h.names, List.isEmpty_map]
  exact Agree.ite_iff hempty (fun _ => Agree.throw_bind (ReadError.rel_eq_iff.mpr rfl)) fun _ => hjp

/-- A table statement is read as elements from the same tokens, and its table is the one they
    declare. -/
theorem tableText_of_statement {ts r : List Token} {t : Table} (h : statement ts = .ok (.table t, r)) :
    ∃ els, tableText ts = .ok (els, r) ∧ t.Declared els := by
  rw [statement] at h
  obtain ⟨_, ts₁, hcreate, h⟩ := bind_ok.mp h
  rw [eatAnyKeyword, eatIf_bind] at h
  rw [tableText, bind_of_ok hcreate, eatAnyKeyword, eatIf_bind]
  -- with `TEMP` or without, `TABLE` comes next, then the rest of a table
  have rest : ∀ (temporary : Bool) (us : List Token),
      (expectKeyword "TABLE" >>= fun _ => createTable temporary >>= fun t => pure (Statement.table t)) us =
        .ok (.table t, r) →
      ∃ els, (expectKeyword "TABLE" >>= fun _ => tableElements) us = .ok (els, r) ∧ t.Declared els := by
    intro temporary us hus
    obtain ⟨_, us₁, hkw, hus⟩ := bind_ok.mp hus
    obtain ⟨t', r', hct, hp⟩ := bind_ok.mp hus
    obtain ⟨ht, rfl⟩ := pure_ok.mp hp
    obtain rfl : t' = t := Statement.table.inj ht
    obtain ⟨els, hels, hd⟩ := (createTable_declared temporary).ok_of_ok hct
    exact ⟨els, by rw [bind_of_ok hkw, hels], hd⟩
  split at h
  · obtain ⟨els, hels, hd⟩ := rest true _ h
    exact ⟨els, by rw [if_pos ‹_›]; exact hels, hd⟩
  · -- without `TEMP`: the statement takes `TABLE` as the table's keyword, or reads an index
    rw [if_neg ‹_›]
    simp only [Bool.false_eq_true, ↓reduceIte] at h
    rw [eatKeyword, eatIf_bind] at h
    split at h
    · rename_i htable
      obtain ⟨t', r', hct, hp⟩ := bind_ok.mp h
      obtain ⟨ht, rfl⟩ := pure_ok.mp hp
      obtain rfl : t' = t := Statement.table.inj ht
      obtain ⟨els, hels, hd⟩ := (createTable_declared false).ok_of_ok hct
      refine ⟨els, ?_, hd⟩
      obtain ⟨tok, rest, rfl⟩ : ∃ tok rest, ts₁ = tok :: rest := by
        cases ts₁ with
        | nil => simp at htable
        | cons tok rest => exact ⟨tok, rest, rfl⟩
      rw [bind_of_ok (expectKeyword_cons (by simpa using htable) rest)]
      exact hels
    · -- an index statement is not a table
      simp only [Bool.false_eq_true, ↓reduceIte] at h
      rw [eatKeyword, eatIf_bind] at h
      split at h
      · obtain ⟨_, _, _, h⟩ := bind_ok.mp h
        obtain ⟨_, _, _, hp⟩ := bind_ok.mp h
        exact absurd (pure_ok.mp hp).1 (by simp)
      · simp only [Bool.false_eq_true, ↓reduceIte] at h
        rw [eatKeyword, eatIf_bind] at h
        split at h
        · obtain ⟨_, _, _, hp⟩ := bind_ok.mp h
          exact absurd (pure_ok.mp hp).1 (by simp)
        · exact absurd h unexpected_ne_ok

end Reader

/-- The elements of a table statement's text. -/
def Table.Element.ofText (x : String) : Except ReadError (List Table.Element) :=
  (Reader.tableText.run (tokenize x)).map Prod.fst

/-- The key of a table read from text lists each field that the text's `PRIMARY KEY` clauses name,
    once, in the order of its first naming: a column constraint names its own column, and a table
    constraint names, for each of its names in turn, the first column defined before it with that
    name up to ASCII case, passing over a name that no such column has. A field increments on its own
    exactly when a clause that says `AUTOINCREMENT` names it. -/
theorem primaryKey_declaredOrder {x : String} {t : Table} (h : Statement.parse x = .ok (.table t)) :
    ∃ els, Table.Element.ofText x = .ok els ∧ t.fields.map Field.name = Table.Element.columnNames els ∧
      t.primaryKey = ((Table.Element.keyNamings els).map Prod.fst).eraseDups ∧
      ∀ i (hi : i < t.fields.length), t.fields[i].autoIncrement = true ↔ (i, true) ∈ Table.Element.keyNamings els := by
  obtain ⟨r, hrun⟩ := Statement.run_of_parse h
  obtain ⟨els, hels, hd⟩ := Reader.tableText_of_statement hrun
  refine ⟨els, ?_, hd.names, hd.key, hd.auto⟩
  simp [Table.Element.ofText, StateT.run, hels, Except.map]

/-- A key named by a column and by a table constraint that repeats it in another case, passes over
    an unknown name, and says `AUTOINCREMENT`. -/
theorem primaryKey_declaredOrder_mixed :
    let t : Table :=
      { name := "t",
        fields := [{ name := "a", inPrimaryKey := true, autoIncrement := true },
          { name := "b", inPrimaryKey := true, autoIncrement := true }],
        primaryKey := [1, 0] }
    Statement.parse "CREATE TABLE t (a, b PRIMARY KEY, PRIMARY KEY (B, missing, a AUTOINCREMENT))" =
        .ok (.table t) ∧
      ∃ els, Table.Element.ofText "CREATE TABLE t (a, b PRIMARY KEY, PRIMARY KEY (B, missing, a AUTOINCREMENT))" =
          .ok els ∧ t.fields.map Field.name = Table.Element.columnNames els ∧
        t.primaryKey = ((Table.Element.keyNamings els).map Prod.fst).eraseDups ∧
        ∀ i (hi : i < t.fields.length), t.fields[i].autoIncrement = true ↔ (i, true) ∈ Table.Element.keyNamings els := by
  intro t
  have hp : Statement.parse "CREATE TABLE t (a, b PRIMARY KEY, PRIMARY KEY (B, missing, a AUTOINCREMENT))" =
      .ok (.table t) :=
    Statement.parse_eq_ok_of_toOption (by decide +kernel)
  exact ⟨hp, primaryKey_declaredOrder hp⟩

end SqlSchema
