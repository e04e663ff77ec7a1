/-! # Quoted text

Statement text quotes a name or a string by enclosing it in a quote character and writing each
occurrence of that character inside twice. Reading undoes this: a doubled quote stands for one, and a
single quote ends the text. Reading never
grows the rest of the input. -/

namespace SqlSchema.Quoted

/-- The characters of `s` with every `q` written twice. -/
def double (q : Char) : List Char → List Char
  | [] => []
  | c :: r => if c = q then q :: q :: double q r else c :: double q r

/-- The text `s` enclosed in `q`, with `q` inside written twice. -/
def enquote (q : Char) (s : String) : String :=
  String.ofList (q :: double q s.toList ++ [q])

/-- Reads quoted text after its opening quote `q`: a doubled `q` stands for one, a single `q` ends it.
    Returns the decoded text and the characters after the closing quote; without a closing quote
    the text runs to the end. -/
def unquote (q : Char) : List Char → List Char × List Char
  | [] => ([], [])
  | [c] => if c = q then ([], []) else ([c], [])
  | c :: d :: r =>
    if c = q then
      if d = q then (unquote q r).map (q :: ·) id
      else ([], d :: r)
    else (unquote q (d :: r)).map (c :: ·) id

/-- What follows the decoded text is a suffix of the input, so reading never grows the rest. -/
theorem unquote_length_le (q : Char) (cs : List Char) : (unquote q cs).2.length ≤ cs.length := by
  fun_induction unquote q cs <;> simp_all <;> omega

end SqlSchema.Quoted

namespace SqlSchema

/-- A name written as a double-quoted identifier. -/
def quoteIdentifier (name : String) : String :=
  Quoted.enquote '"' name

end SqlSchema
