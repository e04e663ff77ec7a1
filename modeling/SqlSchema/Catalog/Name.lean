/-! # Names in the catalog

The catalog compares names without regard to the case of ASCII letters, and takes the quotes off a
quoted name: `"a""b"`, `` `a``b` `` and `'a''b'` stand for `a"b`, ``a`b`` and `a'b`, and `[a b]` for
`a b`. Only the first quoted part counts: what follows its closing quote is dropped. -/

namespace SqlSchema.Catalog

/-- A quote character that may open a quoted name. -/
def isQuote (c : Char) : Bool :=
  c = '"' || c = '\'' || c.toNat = 0x60 || c = '['

/-- The characters inside a quoted name whose closing quote is `q`, a doubled `q` standing for one. -/
def unquoteBody (q : Char) : List Char → List Char
  | [] => []
  | c :: r =>
    if c = q then
      match r with
      | d :: r' => if d = q then q :: unquoteBody q r' else []
      | [] => []
    else c :: unquoteBody q r

/-- A name without its quotes. -/
def dequote (s : String) : String :=
  match s.toList with
  | c :: r =>
    if isQuote c then String.ofList (unquoteBody (if c = '[' then ']' else c) r) else s
  | [] => s

/-- Two names are the same up to the case of ASCII letters. -/
def sameName (a b : String) : Bool :=
  a.toLower == b.toLower

/-- A name starts with `sqlite_`, in any case: such names are kept for the engine's own objects. -/
def isReservedName (s : String) : Bool :=
  (String.ofList (s.toList.take 7)).toLower == "sqlite_"

end SqlSchema.Catalog
