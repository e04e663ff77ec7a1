import SqlSchema.Proofs.TableKey

/-! # The normal form of a table

A table's text keeps its columns and their types, defaults and `NOT NULL`, but not every choice the
table holds. The key is written as a table constraint that names its columns, and reading it takes
the first column of each name up to ASCII case; `AUTOINCREMENT` is written only when every key column
has it, and reading gives it to all of them; a default flagged both quoted and as a group is written
quoted. `Table.normalize` is the table its text reads back as, and `Table.Normal` says that a table
made none of these choices. Every normal form is normal (`normal_normalize`), a consistent normal
table is its own normal form (`normalize_of_normal`), so normalizing twice is normalizing once. -/

namespace SqlSchema

namespace Field

/-- A field as its text reads back: a key column or not, incrementing on its own only as a key column
    of an incrementing key, and with a quoted default taken as quoted only. -/
def canonical (key auto : Bool) (f : Field) : Field :=
  { f with
    inPrimaryKey := key
    autoIncrement := key && auto
    defaultIsExpression := f.defaultIsExpression && !f.defaultIsQuoted }

@[simp] theorem canonical_name (key auto : Bool) (f : Field) : (f.canonical key auto).name = f.name := rfl

/-- A field that already reads back as itself. -/
theorem canonical_eq_self {f : Field} {key auto : Bool} (hk : f.inPrimaryKey = key)
    (ha : f.autoIncrement = (key && auto)) (hd : f.defaultIsQuoted = true → f.defaultIsExpression = false) :
    f.canonical key auto = f := by
  obtain ⟨name, typeName, value, expr, quoted, inKey, inc, notNull⟩ := f
  simp only at hk ha hd
  subst hk ha
  cases quoted <;> simp_all [canonical]

end Field

namespace Table

/-- The positions a printed key names: the first field of each key column's name, up to ASCII case. -/
def keyPositions (t : Table) : List Nat :=
  t.primaryKey.filterMap fun i => t.position? (t.fields.getD i default).name

/-- A printed key says `AUTOINCREMENT` when every key column increments on its own. -/
def keyAutoIncrement (t : Table) : Bool :=
  t.primaryKey.all fun i => (t.fields.getD i default).autoIncrement

/-- The table that the text of `t` reads back as. -/
def normalize (t : Table) : Table :=
  { t with
    fields := t.fields.mapIdx fun j f => f.canonical (t.keyPositions.contains j) t.keyAutoIncrement
    primaryKey := t.keyPositions.eraseDups }

/-- A table that its text reads back as: each key position is the first field of its name, the key
    columns increment on their own all together or none, and no default is both quoted and a group. -/
structure Normal (t : Table) : Prop where
  firstMatch : ∀ i ∈ t.primaryKey, t.position? (t.fields.getD i default).name = some i
  autoIncrement : ∀ i ∈ t.primaryKey, (t.fields.getD i default).autoIncrement = t.keyAutoIncrement
  default : ∀ f ∈ t.fields, f.defaultIsQuoted = true → f.defaultIsExpression = false

variable {t : Table}

@[simp] theorem length_normalize_fields : t.normalize.fields.length = t.fields.length := by
  simp [normalize]

theorem getD_fields {i : Nat} (hi : i < t.fields.length) : t.fields.getD i default = t.fields[i] := by
  simp [List.getD_eq_getElem?_getD, hi]

/-! ### Looking a name up -/

/-- Looking a name up reads the fields' names only. -/
theorem position?_congr {t' : Table} (h : t'.fields.map Field.name = t.fields.map Field.name) :
    t'.position? = t.position? := by
  funext a
  have : ∀ fs : List Field, fs.findIdx? (fun f => sameWord f.name a) =
      (fs.map Field.name).findIdx? (fun n => sameWord n a) := fun fs => by
    rw [List.findIdx?_map]
    rfl
  simp only [position?, this, h]

/-- The field a name is found at is found under its own name: names that are equal up to case are
    found at the same first field. -/
theorem position?_name {a : String} {j : Nat} (h : t.position? a = some j) :
    t.position? (t.fields.getD j default).name = some j := by
  obtain ⟨hj, hpj, hbefore⟩ := List.findIdx?_eq_some_iff_getElem.mp h
  simp only [sameWord, beq_iff_eq] at hpj hbefore
  rw [getD_fields hj]
  refine List.findIdx?_eq_some_iff_getElem.mpr ⟨hj, by simp [sameWord], fun k hk => ?_⟩
  simp only [sameWord, beq_iff_eq, hpj]
  exact hbefore k hk

theorem mem_keyPositions {j : Nat} :
    j ∈ t.keyPositions ↔ ∃ i ∈ t.primaryKey, t.position? (t.fields.getD i default).name = some j := by
  simp [keyPositions]

theorem lt_of_mem_keyPositions {j : Nat} (h : j ∈ t.keyPositions) : j < t.fields.length := by
  obtain ⟨i, -, hi⟩ := mem_keyPositions.mp h
  exact position?_lt hi

/-! ### The normal form is normal -/

theorem eraseDups_eq_self {l : List Nat} (h : l.Nodup) : l.eraseDups = l := by
  induction l with
  | nil => rfl
  | cons a l ih =>
    obtain ⟨ha, hl⟩ := List.nodup_cons.mp h
    have hfilter : l.filter (fun b => !b == a) = l := by
      refine List.filter_eq_self.mpr fun b hb => ?_
      simp only [Bool.not_eq_eq_eq_not, Bool.not_true, beq_eq_false_iff_ne]
      rintro rfl
      exact ha hb
    rw [List.eraseDups_cons, hfilter, ih hl]

/-- Each position stays once, at its first place: the filter behind the first one shortens the list. -/
theorem nodup_eraseDups : ∀ l : List Nat, l.eraseDups.Nodup
  | [] => by simp
  | a :: l => by
    have : (l.filter fun b => !b == a).length < l.length + 1 := Nat.lt_succ_of_le (List.length_filter_le _ _)
    rw [List.eraseDups_cons]
    refine List.nodup_cons.mpr ⟨fun ha => ?_, nodup_eraseDups _⟩
    have := List.mem_filter.mp (List.mem_eraseDups.mp ha)
    simp at this
termination_by l => l.length

theorem getD_normalize_fields {j : Nat} (hj : j < t.fields.length) :
    t.normalize.fields.getD j default = t.fields[j].canonical (t.keyPositions.contains j) t.keyAutoIncrement := by
  simp [normalize, List.getD_eq_getElem?_getD, hj]

/-- Normalizing renames nothing, so it finds every name where the table did. -/
theorem position?_normalize : t.normalize.position? = t.position? :=
  position?_congr (List.ext_getElem (by simp) fun j _ _ => by simp [normalize])

/-- Every key column of the normal form increments on its own as the whole printed key says. -/
theorem autoIncrement_normalize {j : Nat} (hj : j ∈ t.normalize.primaryKey) :
    (t.normalize.fields.getD j default).autoIncrement = t.keyAutoIncrement := by
  have hj' : j ∈ t.keyPositions := List.mem_eraseDups.mp hj
  rw [getD_normalize_fields (lt_of_mem_keyPositions hj')]
  simp [Field.canonical, hj']

theorem keyAutoIncrement_normalize {j : Nat} (hj : j ∈ t.normalize.primaryKey) :
    t.normalize.keyAutoIncrement = t.keyAutoIncrement := by
  cases ha : t.keyAutoIncrement
  · rw [keyAutoIncrement, List.all_eq_false]
    exact ⟨j, hj, by rw [autoIncrement_normalize hj, ha]; decide⟩
  · rw [keyAutoIncrement, List.all_eq_true]
    intro i hi
    rw [autoIncrement_normalize hi, ha]

/-- The normal form of a table is normal. -/
theorem normal_normalize (t : Table) : t.normalize.Normal where
  firstMatch j hj := by
    have hj' : j ∈ t.keyPositions := List.mem_eraseDups.mp hj
    obtain ⟨i, -, hi⟩ := mem_keyPositions.mp hj'
    rw [position?_normalize, getD_normalize_fields (lt_of_mem_keyPositions hj'), Field.canonical_name,
      ← getD_fields (lt_of_mem_keyPositions hj')]
    exact position?_name hi
  autoIncrement j hj := by rw [autoIncrement_normalize hj, keyAutoIncrement_normalize hj]
  default f hf hq := by
    obtain ⟨j, hj, rfl⟩ := List.mem_iff_getElem.mp hf
    simp only [normalize, List.getElem_mapIdx, Field.canonical] at hq ⊢
    simp [hq]

/-- A consistent table that is normal is its own normal form. -/
theorem normalize_of_normal (hk : t.KeyConsistent) (hn : t.Normal) : t.normalize = t := by
  have hpos : t.keyPositions = t.primaryKey := by
    rw [keyPositions, List.filterMap_congr (g := some) fun i hi => hn.firstMatch i hi, List.filterMap_some]
  have hfields : t.fields.mapIdx (fun j f => f.canonical (t.primaryKey.contains j) t.keyAutoIncrement) =
      t.fields := by
    refine List.ext_getElem (by simp) fun j hj _ => ?_
    rw [List.getElem_mapIdx]
    have hj' : j < t.fields.length := by simpa using hj
    refine Field.canonical_eq_self ?_ ?_ (hn.default _ (List.getElem_mem _))
    · have := hk.flag j hj'
      by_cases hin : j ∈ t.primaryKey <;> simp_all
    · by_cases hin : j ∈ t.primaryKey
      · have := hn.autoIncrement j hin
        rw [getD_fields hj'] at this
        simp [this, hin]
      · have hkey : t.fields[j].inPrimaryKey = false := by simpa [hin] using hk.flag j hj'
        have hauto : t.fields[j].autoIncrement = false := by
          cases h : t.fields[j].autoIncrement
          · rfl
          · simpa [hkey] using hk.auto j hj' h
        simp [hauto, hin]
  simp only [normalize, hpos, hfields, eraseDups_eq_self hk.nodup]

/-- Normalizing a consistent table twice is normalizing it once. -/
theorem normalize_normalize (hk : t.normalize.KeyConsistent) : t.normalize.normalize = t.normalize :=
  normalize_of_normal hk (normal_normalize t)

end Table

/-! ### Marking a printed key -/

/-- The flags a table-level key gives a column: it is a key column, and increments on its own when the
    key says `AUTOINCREMENT`. -/
def Field.markKey (auto : Bool) (f : Field) : Field :=
  { f with inPrimaryKey := true, autoIncrement := f.autoIncrement || auto }

@[simp] theorem Field.markKey_markKey (auto : Bool) (f : Field) : (f.markKey auto).markKey auto = f.markKey auto := by
  simp [Field.markKey]

/-- A column read with neither key flag and then marked by a key is its canonical form as a key
    column. -/
theorem Field.markKey_canonical (auto : Bool) (f : Field) :
    (f.canonical false false).markKey auto = f.canonical true auto := by
  simp [Field.markKey, Field.canonical]

namespace Table

/-- One round of marking a table-level key. -/
abbrev markKeyStep (auto : Bool) (t : Table) (i : Nat) : Table :=
  let t := t.markPrimaryKey i
  if auto then t.markAutoIncrement i else t

theorem markKeyStep_fields (auto : Bool) (t : Table) (i : Nat) :
    (t.markKeyStep auto i).fields = t.fields.mapIdx fun j f => if j = i then f.markKey auto else f := by
  refine List.ext_getElem (by cases auto <;> simp [markKeyStep]) fun j h₁ h₂ => ?_
  have hj : j < t.fields.length := by simpa using h₂
  rw [List.getElem_mapIdx]
  cases auto
  · simp only [markKeyStep, Bool.false_eq_true, ↓reduceIte]
    rw [getElem_markPrimaryKey_fields hj]
    by_cases hij : j = i
    · subst hij
      simp [Field.markKey]
    · simp [hij, Ne.symm hij]
  · simp only [markKeyStep, ↓reduceIte]
    rw [getElem_markAutoIncrement_fields (by simpa using hj), getElem_markPrimaryKey_fields hj]
    by_cases hij : j = i
    · subst hij
      simp [Field.markKey]
    · simp [hij, Ne.symm hij]

theorem markKeyStep_primaryKey (auto : Bool) (t : Table) (i : Nat) :
    (t.markKeyStep auto i).primaryKey = if t.primaryKey.contains i then t.primaryKey else t.primaryKey ++ [i] := by
  cases auto <;> rfl

theorem markKeyStep_eq (auto : Bool) (t : Table) (i : Nat) :
    t.markKeyStep auto i =
      { t with
        fields := t.fields.mapIdx fun j f => if j = i then f.markKey auto else f
        primaryKey := if t.primaryKey.contains i then t.primaryKey else t.primaryKey ++ [i] } := by
  rw [← markKeyStep_fields auto t i, ← markKeyStep_primaryKey auto t i]
  cases auto <;> rfl

/-- Key positions added one after another, each kept once at its first place. -/
theorem foldl_addKey (keys pk : List Nat) :
    keys.foldl (fun pk i => if pk.contains i then pk else pk ++ [i]) pk =
      pk ++ (keys.filter fun i => !pk.contains i).eraseDups := by
  induction keys generalizing pk with
  | nil => simp
  | cons i keys ih =>
    rw [List.foldl_cons, ih]
    by_cases hi : pk.contains i
    · rw [if_pos hi, List.filter_cons_of_neg (by rw [hi]; decide)]
    · -- `i` is new: it stays first, and the later positions are filtered against it too
      have hfilter : (keys.filter fun x => !(pk ++ [i]).contains x) =
          (keys.filter fun x => !pk.contains x).filter fun b => !b == i := by
        rw [List.filter_filter]
        refine List.filter_congr fun x _ => ?_
        rw [List.contains_append, List.contains_cons, List.contains_nil, Bool.or_false, Bool.not_or, Bool.and_comm]
      rw [if_neg hi, List.filter_cons_of_pos (by simpa using hi), List.eraseDups_cons, hfilter, List.append_assoc,
        List.singleton_append]

/-- Marking a table-level key flags exactly its columns, and keeps each position once, at its first
    place. -/
theorem foldl_markKeyStep (auto : Bool) (keys : List Nat) (t : Table) :
    keys.foldl (markKeyStep auto) t =
      { t with
        fields := t.fields.mapIdx fun j f => if keys.contains j then f.markKey auto else f
        primaryKey := t.primaryKey ++ (keys.filter fun i => !t.primaryKey.contains i).eraseDups } := by
  induction keys generalizing t with
  | nil =>
    have hfields : t.fields.mapIdx (fun _ f => f) = t.fields := List.mapIdx_eq_iff.mpr fun i => by simp
    simp [hfields]
  | cons i keys ih =>
    rw [List.foldl_cons, ih, markKeyStep_eq]
    have hkey := foldl_addKey (i :: keys) t.primaryKey
    rw [List.foldl_cons, foldl_addKey] at hkey
    simp only [List.mapIdx_mapIdx, hkey, Table.mk.injEq, true_and, and_true]
    -- a column marked by this round and by a later one is marked once
    refine List.mapIdx_eq_mapIdx_iff.mpr fun j _ => ?_
    by_cases hji : j = i
    · subst hji
      simp
    · simp [hji]

/-- The columns of `t` read with neither key flag, then marked by the key its text prints, make the
    normal form of `t`. -/
theorem markKeys_normalize (t : Table) :
    t.keyPositions.foldl (markKeyStep t.keyAutoIncrement)
      { t with fields := t.fields.map (Field.canonical false false), primaryKey := [] } = t.normalize := by
  rw [foldl_markKeyStep]
  simp only [normalize, List.nil_append, List.contains_nil, Bool.not_false, List.filter_true, Table.mk.injEq,
    true_and, and_true]
  refine List.ext_getElem (by simp) fun j _ _ => ?_
  simp only [List.getElem_mapIdx, List.getElem_map]
  split
  · rename_i hj
    rw [Field.markKey_canonical, hj]
  · rename_i hj
    rw [Bool.not_eq_true] at hj
    rw [hj]
    simp [Field.canonical]

end Table

/-! ### Keys resolved by name

What printing a table is meant to lose: the key is looked up again by its columns' names, and
`AUTOINCREMENT` goes to all key columns or to none. A default flagged both quoted and as a group is
another loss, but not one the format means to make: reading a second default keeps the first one's
quote flag. `resolveKey` is the normal form without it; on tables whose defaults each have one form
the two agree (`normalize_eq_resolveKey`). -/

/-- A default flagged in one form at most: quoted text is not also a group. -/
def Field.OneDefaultForm (f : Field) : Prop :=
  f.defaultIsQuoted = true → f.defaultIsExpression = false

namespace Table

/-- Every default of the table is flagged in one form at most. -/
def OneDefaultForm (t : Table) : Prop :=
  ∀ f ∈ t.fields, f.OneDefaultForm

/-- The table with its key resolved as its text prints it: each key column found again by its name,
    and incrementing on its own exactly when every key column did. -/
def resolveKey (t : Table) : Table :=
  { t with
    fields := t.fields.mapIdx fun j f =>
      { f with
        inPrimaryKey := t.keyPositions.contains j
        autoIncrement := t.keyPositions.contains j && t.keyAutoIncrement }
    primaryKey := t.keyPositions.eraseDups }

/-- A table whose key is already resolved by name: each key position is the first field of its name,
    and the key columns increment on their own all together or none. -/
structure KeyResolved (t : Table) : Prop where
  firstMatch : ∀ i ∈ t.primaryKey, t.position? (t.fields.getD i default).name = some i
  autoIncrement : ∀ i ∈ t.primaryKey, (t.fields.getD i default).autoIncrement = t.keyAutoIncrement

variable {t : Table}

/-- On a table whose defaults have one form each, the normal form only resolves the key. -/
theorem normalize_eq_resolveKey (hd : t.OneDefaultForm) : t.normalize = t.resolveKey := by
  simp only [normalize, resolveKey, Table.mk.injEq, true_and, and_true]
  refine List.ext_getElem (by simp) fun j hj _ => ?_
  have hj' : j < t.fields.length := by simpa using hj
  have hone : t.fields[j].OneDefaultForm := hd _ (List.getElem_mem hj')
  simp only [List.getElem_mapIdx, Field.canonical]
  -- the group flag survives: it is already clear wherever the quote flag is set
  cases hq : t.fields[j].defaultIsQuoted
  · simp
  · simp [hone hq]

/-- A table whose key is resolved and whose defaults have one form each is normal. -/
theorem normal_of_keyResolved (hk : t.KeyResolved) (hd : t.OneDefaultForm) : t.Normal :=
  ⟨hk.firstMatch, hk.autoIncrement, hd⟩

end Table

/-! ### Statements -/

/-- The statement the text of `s` reads back as: a table in its normal form, an index as it is. -/
def Statement.normalize : Statement → Statement
  | .table t => .table t.normalize
  | .index i => .index i

/-- A statement that its text reads back as: a normal table, or any index. -/
def Statement.Normal : Statement → Prop
  | .table t => t.Normal
  | .index _ => True

namespace Statement

/-- A statement with its key resolved by name: a table's key looked up again, an index as it is. -/
def resolveKey : Statement → Statement
  | .table t => .table t.resolveKey
  | .index i => .index i

/-- A statement whose key is resolved by name: a table so resolved, or any index. -/
def KeyResolved : Statement → Prop
  | .table t => t.KeyResolved
  | .index _ => True

/-- A statement whose defaults have one form each: such a table, or any index. -/
def OneDefaultForm : Statement → Prop
  | .table t => t.OneDefaultForm
  | .index _ => True

theorem normalize_eq_resolveKey {s : Statement} (hd : s.OneDefaultForm) : s.normalize = s.resolveKey := by
  cases s with
  | table t => exact congrArg Statement.table (Table.normalize_eq_resolveKey hd)
  | index i => rfl

theorem normal_of_keyResolved {s : Statement} (hk : s.KeyResolved) (hd : s.OneDefaultForm) : s.Normal := by
  cases s with
  | table t => exact Table.normal_of_keyResolved hk hd
  | index i => trivial

end Statement

end SqlSchema
