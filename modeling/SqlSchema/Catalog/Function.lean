import SqlSchema.Catalog.Name

/-! # Built-in functions

The functions the engine knows, by name and number of arguments. A function is a plain function,
which is deterministic or not, an aggregate, or a window function. A call names a function the engine
does not know, or gives a known function a number of arguments none of its forms takes, or finds the
form that takes that number; a form with a fixed number of arguments is preferred to one that takes
any number.

The engine is built without its mathematical functions, so names such as `sqrt` or `pi` are unknown.
The full-text search and R*Tree modules add functions of their own. Some functions may only be called
directly from a statement, never from an expression kept in the schema. -/

namespace SqlSchema.Catalog

/-- How many arguments a form of a function takes. -/
inductive Arity where
  | exactly (n : Nat)
  | atLeast (n : Nat)
  deriving DecidableEq, Repr

/-- The kind of a function. -/
inductive FunctionKind where
  | plain (deterministic : Bool)
  | aggregate
  | window
  deriving DecidableEq, Repr

/-- One form of a built-in function. -/
structure FunctionForm where
  name : String
  arity : Arity
  kind : FunctionKind
  /-- The form may be called from a statement, but not from an expression kept in the schema. -/
  directOnly : Bool := false
  deriving Repr

/-- Forms of plain functions, deterministic or not, one per name and number of arguments. -/
def plainForms (det : Bool) (names : List String) (arities : List Arity) : List FunctionForm :=
  names.flatMap fun n => arities.map fun a => ⟨n, a, .plain det, false⟩

/-- Forms of plain functions that may only be called directly from a statement. -/
def directForms (names : List String) (arities : List Arity) : List FunctionForm :=
  names.flatMap fun n => arities.map fun a => ⟨n, a, .plain false, true⟩

/-- An aggregate form. -/
def aggregateForm (n : String) (a : Nat) : FunctionForm := ⟨n, .exactly a, .aggregate, false⟩

/-- A window form. -/
def windowForm (n : String) (a : Nat) : FunctionForm := ⟨n, .exactly a, .window, false⟩

/-- The built-in functions. -/
def builtinFunctions : List FunctionForm :=
  plainForms true ["ltrim", "rtrim", "trim", "round", "unhex"] [.exactly 1, .exactly 2] ++
  plainForms true ["like"] [.exactly 2, .exactly 3] ++
  plainForms true ["min", "max", "coalesce", "iif", "if", "concat_ws"] [.atLeast 2] ++
  plainForms true ["concat"] [.atLeast 1] ++
  plainForms true ["typeof", "subtype", "length", "octet_length", "unicode", "abs", "upper", "lower",
    "hex", "unlikely", "likely", "quote", "zeroblob", "sqlite_compileoption_used",
    "sqlite_compileoption_get", "soundex", "unistr", "unistr_quote", "sign", "json", "jsonb",
    "json_error_position", "json_quote"] [.exactly 1] ++
  plainForms true ["instr", "ifnull", "likelihood", "sqlite_log", "glob", "nullif", "timediff",
    "->", "->>", "json_patch", "jsonb_patch"] [.exactly 2] ++
  plainForms true ["replace"] [.exactly 3] ++
  plainForms true ["substr", "substring"] [.exactly 2, .exactly 3] ++
  plainForms true ["json_array_length", "json_pretty", "json_type", "json_valid"]
    [.exactly 1, .exactly 2] ++
  plainForms true ["sqlite_version", "sqlite_source_id", "fts5_source_id"] [.exactly 0] ++
  plainForms true ["printf", "format", "char", "julianday", "unixepoch", "date", "time", "datetime",
    "strftime", "json_array", "jsonb_array", "json_extract", "jsonb_extract", "json_insert",
    "jsonb_insert", "json_object", "jsonb_object", "json_remove", "jsonb_remove", "json_replace",
    "jsonb_replace", "json_set", "jsonb_set"] [.atLeast 0] ++
  plainForms false ["current_time", "current_timestamp", "current_date", "random",
    "last_insert_rowid", "changes", "total_changes"] [.exactly 0] ++
  plainForms false ["randomblob", "offsets", "optimize", "rtreedepth", "fts5", "fts5_insttoken"]
    [.exactly 1] ++
  plainForms false ["matchinfo"] [.exactly 1, .exactly 2] ++
  plainForms false ["rtreenode", "match", "fts5_locale"] [.exactly 2] ++
  plainForms false ["snippet", "highlight", "bm25", "fts5_get_locale", "rtreecheck"] [.atLeast 0] ++
  directForms ["load_extension", "fts3_tokenizer"] [.exactly 1, .exactly 2] ++
  [aggregateForm "avg" 1, aggregateForm "count" 0, aggregateForm "count" 1,
    aggregateForm "group_concat" 1, aggregateForm "group_concat" 2, aggregateForm "string_agg" 2,
    aggregateForm "max" 1, aggregateForm "min" 1, aggregateForm "sum" 1, aggregateForm "total" 1,
    aggregateForm "json_group_array" 1, aggregateForm "jsonb_group_array" 1,
    aggregateForm "json_group_object" 2, aggregateForm "jsonb_group_object" 2,
    windowForm "row_number" 0, windowForm "rank" 0, windowForm "dense_rank" 0,
    windowForm "percent_rank" 0, windowForm "cume_dist" 0, windowForm "ntile" 1,
    windowForm "lead" 1, windowForm "lead" 2, windowForm "lead" 3,
    windowForm "lag" 1, windowForm "lag" 2, windowForm "lag" 3,
    windowForm "first_value" 1, windowForm "last_value" 1, windowForm "nth_value" 2]

/-- What a call finds among the built-in functions. -/
inductive CallTarget where
  | unknown
  | wrongArity
  | found (kind : FunctionKind) (directOnly : Bool)
  deriving DecidableEq, Repr

/-- The form a call of `fn` with `n` arguments finds. -/
def lookupFunction (fn : String) (n : Nat) : CallTarget :=
  let forms := builtinFunctions.filter (sameName ·.name fn)
  if forms.isEmpty then .unknown
  else
    match forms.find? (·.arity == .exactly n) with
    | some f => .found f.kind f.directOnly
    | none =>
      match forms.find? (fun f => match f.arity with | .atLeast m => m ≤ n | .exactly _ => false) with
      | some f => .found f.kind f.directOnly
      | none => .wrongArity

/-- The collations the engine knows. -/
def knownCollation (c : String) : Bool :=
  sameName c "BINARY" || sameName c "NOCASE" || sameName c "RTRIM"

end SqlSchema.Catalog
