import SqlSchema.Catalog.Schema

/-! # Changes to a catalog

A statement that was read without error changes the catalog when it runs: it adds an object to a
schema or drops one. Dropping a table or view drops the indexes on it and the triggers on it as well.
A table with an `AUTOINCREMENT` key brings the schema's table of counters into being, which stays when
the table is dropped. -/

namespace SqlSchema.Catalog

/-- What a statement does to the catalog when it runs. -/
inductive Change where
  | nothing
  | add (sn : SchemaName) (e : Entry)
  | dropRelation (sn : SchemaName) (name : String)
  | dropIndex (sn : SchemaName) (name : String)
  | dropTrigger (sn : SchemaName) (name : String)
  deriving Repr, Inhabited

namespace Schema

/-- The schema without the objects `keep` refuses. -/
def keepOnly (s : Schema) (keep : Entry → Bool) : Schema :=
  { s with entries := s.entries.filter keep }

/-- The entry is the table or view named `n`, or an index or trigger on it. -/
def belongsTo (n : String) : Entry → Bool
  | .table t => sameName t.name n
  | .view v => sameName v.name n
  | .index i => sameName i.table n
  | .trigger tr => sameName tr.table n

/-- The entry is the index named `n`. -/
def isIndexNamed (n : String) : Entry → Bool
  | .index i => sameName i.name n
  | _ => false

/-- The entry is the trigger named `n`. -/
def isTriggerNamed (n : String) : Entry → Bool
  | .trigger tr => sameName tr.name n
  | _ => false

/-- The entry is a trigger on the table named `n`. -/
def isTriggerOn (n : String) : Entry → Bool
  | .trigger tr => sameName tr.table n
  | _ => false

end Schema

namespace Database

/-- The catalog after a change. -/
def apply (c : Database) : Change → Database
  | .nothing => c
  | .add sn e =>
    let s := (c.schema sn).add e
    let s := match e with
      | .table t => if t.autoincrement then { s with hasSequence := true } else s
      | _ => s
    c.withSchema sn s
  | .dropRelation sn n =>
    let c := c.withSchema sn ((c.schema sn).keepOnly fun e => !Schema.belongsTo n e)
    c.withSchema .temp (c.temp.keepOnly fun e => !Schema.isTriggerOn n e)
  | .dropIndex sn n => c.withSchema sn ((c.schema sn).keepOnly fun e => !Schema.isIndexNamed n e)
  | .dropTrigger sn n => c.withSchema sn ((c.schema sn).keepOnly fun e => !Schema.isTriggerNamed n e)

end Database

end SqlSchema.Catalog
