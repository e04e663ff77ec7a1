import SqlSchema.Proofs.ColumnText
import SqlSchema.Proofs.TokenText

/-! # Reading printed statements back

The text of a table is its columns' lines after `(`, separated by a comma and a line break, then its
key as a table constraint and the closing parenthesis. Reading it takes the columns one element at a
time, and the key constraint marks the columns it names, found by name. The main statement,
`Statement.parse_toSql`, says that the text of every printable statement reads back as its normal
form: a table as `Table.normalize` makes it, an index as it is. -/

namespace SqlSchema

open Lexer Cursor Reader

/-! ### Columns as table elements -/

/-- Before a token that opens no table constraint, a table element is a column definition. -/
theorem tableElement_of_column {u : Table} {ts : List Token}
    (h : ∀ t ∈ ts.head?, tableConstraintWords.any t.isKeyword = false) :
    tableElement u ts = (do let t ← columnDef u; pure (t, ← eatPunct ',')) ts := by
  rw [tableElement, peek?_bind]
  cases ts with
  | nil => rfl
  | cons t r => simp [h t rfl]

/-- A column's line is a table element: its quoted name opens no table constraint. The round asks for
    another when a comma follows. -/
theorem tableElement_column (u : Table) {f : Field} (hf : f.Printable) {s : List Char}
    (hs : ∀ c ∈ s.head?, Separates c) (hnext : ∀ t ∈ (Lexer.tokens s).head?, EndsColumn t) :
    ∃ fts, Lexer.tokens (f.toSql.toList ++ s) = ⟨f.name, .quoted⟩ :: (fts ++ Lexer.tokens s) ∧
      ∀ b r, eatPunct ',' (Lexer.tokens s) = .ok (b, r) →
        tableElement u (⟨f.name, .quoted⟩ :: (fts ++ Lexer.tokens s)) =
          .ok (({ u with fields := u.fields ++ [f.canonical false false] }, b), r) := by
  obtain ⟨fts, hfts, hread⟩ := columnDef_toSql u hf hs hnext
  refine ⟨fts, hfts, fun b r hb => ?_⟩
  -- a quoted name is no keyword
  rw [tableElement_of_column fun t ht => by cases ht; simp [tableConstraintWords, Token.isKeyword],
    bind_of_ok hread, bind_of_ok hb]
  rfl

/-- The lines of all columns but the last are read round by round, each up to its comma. -/
theorem elements_init {fs : List Field} (hfs : ∀ f ∈ fs, f.Printable) (u : Table) (f : Field) (s : List Char) :
    repeatWhile tableElement u (Lexer.tokens ((",\n".intercalate ((fs ++ [f]).map Field.toSql)).toList ++ s)) =
      repeatWhile tableElement { u with fields := u.fields ++ fs.map (Field.canonical false false) }
        (Lexer.tokens (f.toSql.toList ++ s)) := by
  induction fs generalizing u with
  | nil => simp
  | cons g fs ih =>
    have hg := hfs g List.mem_cons_self
    -- the text: the first line, a comma and a line break, then the other lines
    have htext : (",\n".intercalate ((g :: fs ++ [f]).map Field.toSql)).toList ++ s =
        g.toSql.toList ++ (',' :: '\n' :: ((",\n".intercalate ((fs ++ [f]).map Field.toSql)).toList ++ s)) := by
      rw [List.cons_append, List.map_cons, String.intercalate_cons_of_ne_nil (by simp)]
      simp
    obtain ⟨gts, hgts, hread⟩ := tableElement_column u hg
      (s := ',' :: '\n' :: ((",\n".intercalate ((fs ++ [f]).map Field.toSql)).toList ++ s))
      (by simp [Separates]) (by simp [tokens_comma, EndsColumn])
    rw [htext, hgts, repeatWhile_more (hread true _ (by rw [tokens_comma]; exact eatIf_of_true rfl _))
      (by simp [tokens_comma]; omega), tokens_blank (by decide), ih (fun f hf => hfs f (List.mem_cons_of_mem _ hf))]
    simp

/-! ### The key -/

/-- A name printed as a double-quoted identifier is read back as that name, before any character but
    a double quote. -/
theorem tokens_quoted (n : String) {r : List Char} (hr : ∀ c ∈ r.head?, c ≠ '"') :
    Lexer.tokens ((quoteIdentifier n).toList ++ r) = ⟨n, .quoted⟩ :: Lexer.tokens r :=
  tokens_render_append (show (⟨n, .quoted⟩ : Token).Lexical from trivial) hr


/-- One name of a key: its field's position is added when the table has one, and the round asks for
    another when a comma follows. -/
theorem keyColumn_name (u : Table) (keys : List Nat) {n : Token} (hn : n.isName = true) {rest r : List Token}
    {b : Bool} (hnext : ∀ t ∈ rest.head?, t = Token.comma ∨ t = ⟨"AUTOINCREMENT", .word⟩ ∨ t = ⟨")", .punct⟩)
    (hb : eatPunct ',' rest = .ok (b, r)) :
    keyColumn u keys (n :: rest) = .ok ((keys ++ (u.position? n.text).toList, b), r) := by
  have hcollate : rest.head?.any (·.isKeyword "COLLATE") = false := by
    cases rest with
    | nil => rfl
    | cons t r' =>
      simp only [List.head?_cons, Option.any_some]
      rcases hnext t rfl with rfl | rfl | rfl <;> simp [Token.isKeyword, Token.comma, sameWord_eq]
  have horder : rest.head?.any (fun t => t.isKeyword "ASC" || t.isKeyword "DESC") = false := by
    cases rest with
    | nil => rfl
    | cons t r' =>
      simp only [List.head?_cons, Option.any_some]
      rcases hnext t rfl with rfl | rfl | rfl <;> simp [Token.isKeyword, Token.comma, sameWord_eq]
  rw [keyColumn, bind_of_ok (expectName_cons hn _)]
  simp [eatKeyword, eatAnyKeyword, eatIf_bind, hcollate, horder, map_of_ok hb]
  -- the position, when there is one, is added after the others
  cases u.position? n.text <;> simp

/-- The quoted names of a printed key lex as name tokens between commas, and are read as the positions
    of the fields they name, before `AUTOINCREMENT` or the closing parenthesis. -/
theorem keyColumns_text {ns : List String} (hne : ns ≠ []) {s : List Char}
    (hs : ∀ c ∈ s.head?, c = ' ' ∨ c = ')')
    (hnext : ∀ t ∈ (Lexer.tokens s).head?, t = ⟨"AUTOINCREMENT", .word⟩ ∨ t = ⟨")", .punct⟩) :
    ∃ kts, Lexer.tokens ((",".intercalate (ns.map quoteIdentifier)).toList ++ s) = kts ++ Lexer.tokens s ∧
      ∀ (u : Table) (keys : List Nat), repeatWhile (keyColumn u) keys (kts ++ Lexer.tokens s) =
        .ok (keys ++ ns.filterMap u.position?, Lexer.tokens s) := by
  induction ns with
  | nil => exact absurd rfl hne
  | cons n ns ih =>
    cases ns with
    | nil =>
      -- the last name, before `AUTOINCREMENT` or `)`
      refine ⟨[⟨n, .quoted⟩], ?_, fun u keys => ?_⟩
      · rw [List.map_singleton, String.intercalate_singleton, tokens_quoted n fun c hc => by
          rcases hs c hc with rfl | rfl <;> decide]
        rfl
      · have hlast : eatPunct ',' (Lexer.tokens s) = .ok (false, Lexer.tokens s) :=
          eatIf_of_false fun t ht => by rcases hnext t ht with rfl | rfl <;> rfl
        rw [List.singleton_append,
          repeatWhile_last (keyColumn_name u keys (n := ⟨n, .quoted⟩) rfl (fun t ht => .inr (hnext t ht)) hlast)]
        cases h : u.position? n <;> simp [h]
    | cons n' ns =>
      -- a name and its comma, then the other names
      obtain ⟨kts, hkts, hread⟩ := ih (List.cons_ne_nil _ _)
      refine ⟨⟨n, .quoted⟩ :: Token.comma :: kts, ?_, fun u keys => ?_⟩
      · rw [List.map_cons, String.intercalate_cons_of_ne_nil (by simp), String.toList_append, String.toList_append,
          List.append_assoc, List.append_assoc, tokens_quoted n (by simp), show ",".toList = [','] by simp,
          List.singleton_append, tokens_comma, hkts]
        rfl
      · rw [List.cons_append, List.cons_append,
          repeatWhile_more (keyColumn_name u keys (n := ⟨n, .quoted⟩) rfl (by simp) (eatIf_of_true rfl _)) (by simp), hread]
        cases h : u.position? n <;> simp [h]

/-- The names a table's printed key lists: the name of the field at each key position. -/
def Table.keyNames (t : Table) : List String :=
  t.primaryKey.map fun i => (t.fields.getD i default).name

theorem Table.keySql_eq {t : Table} (h : t.primaryKey ≠ []) :
    t.keySql = ",\n\tPRIMARY KEY(" ++ ",".intercalate (t.keyNames.map quoteIdentifier) ++
      (if t.keyAutoIncrement then " AUTOINCREMENT" else "") ++ ")" := by
  simp [Table.keySql, h, keyNames, keyAutoIncrement, Function.comp_def]

theorem Table.keyPositions_eq (t : Table) : t.keyPositions = t.keyNames.filterMap t.position? := by
  simp [keyPositions, keyNames, List.filterMap_map]

theorem isKeyword_primary : (⟨"PRIMARY", .word⟩ : Token).isKeyword "CONSTRAINT" = false ∧
    (⟨"PRIMARY", .word⟩ : Token).isKeyword "PRIMARY" = true ∧ (⟨"KEY", .word⟩ : Token).isKeyword "KEY" = true ∧
    tableConstraintWords.any (⟨"PRIMARY", .word⟩ : Token).isKeyword = true ∧
    (⟨"AUTOINCREMENT", .word⟩ : Token).isKeyword "AUTOINCREMENT" = true := by
  simp [Token.isKeyword, tableConstraintWords, sameWord_eq]

/-- Before a token that opens a table constraint, a table element is that constraint. -/
theorem tableElement_of_constraint {u : Table} {t : Token} {r : List Token}
    (h : tableConstraintWords.any t.isKeyword = true) :
    tableElement u (t :: r) = (do let t ← tableConstraint u; pure (t, ← eatPunct ',')) (t :: r) := by
  rw [tableElement, peek?_bind]
  simp [h]

/-- A key constraint whose columns are read up to `AUTOINCREMENT` or `)` marks the positions read, as a
    key that increments on its own when `AUTOINCREMENT` follows them, before a token that opens no
    conflict clause. -/
theorem tableConstraint_primaryKey {u : Table} {cts ts : List Token} {keys : List Nat} (auto : Bool)
    (hkeys : repeatWhile (keyColumn u) [] cts =
      .ok (keys, (if auto then [⟨"AUTOINCREMENT", .word⟩] else []) ++ ⟨")", .punct⟩ :: ts))
    (hts : ∀ tok ∈ ts.head?, tok.isKeyword "ON" = false) :
    tableConstraint u (⟨"PRIMARY", .word⟩ :: ⟨"KEY", .word⟩ :: ⟨"(", .punct⟩ :: cts) =
      .ok (keys.foldl (Table.markKeyStep auto) u, ts) := by
  have hauto : eatKeyword "AUTOINCREMENT" ((if auto then [⟨"AUTOINCREMENT", .word⟩] else []) ++
      ⟨")", .punct⟩ :: ts) = .ok (auto, ⟨")", .punct⟩ :: ts) := by
    cases auto
    · exact eatIf_of_false fun t ht => by cases ht; decide
    · exact eatIf_of_true isKeyword_primary.2.2.2.2 _
  have hconflict : conflictClause ts = .ok ((), ts) := by
    rw [conflictClause, eatKeyword, bind_of_ok (eatIf_of_false hts)]
    rfl
  -- the steps are taken one by one: a `simp` over the whole block makes the kernel evaluate keywords
  rw [tableConstraint, eatKeyword, bind_of_ok (eatIf_of_false fun t ht => by cases ht; exact isKeyword_primary.1)]
  simp only [Bool.false_eq_true, ↓reduceIte]
  rw [eatKeyword, bind_of_ok (eatIf_of_true isKeyword_primary.2.1 _)]
  simp only [↓reduceIte]
  rw [bind_of_ok (expectKeyword_cons isKeyword_primary.2.2.1 _), bind_of_ok (expectPunct_cons rfl _),
    bind_of_ok hkeys, bind_of_ok hauto, bind_of_ok (expectPunct_cons rfl _), bind_of_ok hconflict]
  rfl

/-- A printed key lexes as `PRIMARY KEY`, its names in parentheses and `AUTOINCREMENT` when every key
    column increments on its own; it is read as one table element that marks the fields the names
    find, before the closing parenthesis of the table. -/
theorem tableElement_key (t : Table) (hne : t.primaryKey ≠ []) {s : List Char}
    (hnext : ∀ tok ∈ (Lexer.tokens s).head?, tok = ⟨")", .punct⟩) :
    ∃ kts, Lexer.tokens (("\n\tPRIMARY KEY(" ++ ",".intercalate (t.keyNames.map quoteIdentifier) ++
        (if t.keyAutoIncrement then " AUTOINCREMENT" else "") ++ ")").toList ++ s) = kts ++ Lexer.tokens s ∧
      ∀ u : Table, tableElement u (kts ++ Lexer.tokens s) =
        .ok (((t.keyNames.filterMap u.position?).foldl (Table.markKeyStep t.keyAutoIncrement) u, false),
          Lexer.tokens s) := by
  have hnames : t.keyNames ≠ [] := by simpa [Table.keyNames] using hne
  -- after the names: `AUTOINCREMENT` or not, then the key's closing parenthesis
  have hauto : Lexer.tokens (((if t.keyAutoIncrement then " AUTOINCREMENT" else "") ++ ")").toList ++ s) =
      (if t.keyAutoIncrement then [⟨"AUTOINCREMENT", .word⟩] else []) ++ ⟨")", .punct⟩ :: Lexer.tokens s := by
    split
    · rw [show ((" AUTOINCREMENT" ++ ")").toList ++ s) = ' ' :: ("AUTOINCREMENT".toList ++ ')' :: s) by simp,
        tokens_blank_word (k := .word) (by decide) (by simp [IsWord, isWordStart, isWordChar])
          (by simp [wordKind, operatorWords, closerWords, sameWord_eq])
          (fun c hc => by simp at hc; exact hc ▸ Separates.endsWord (.inr (.inr rfl))),
        tokens_closeParen]
      rfl
    · rw [show (("" ++ ")").toList ++ s) = ')' :: s by simp, tokens_closeParen]
      rfl
  obtain ⟨kts, hkts, hread⟩ := keyColumns_text hnames (s := ((if t.keyAutoIncrement then " AUTOINCREMENT" else "") ++ ")").toList ++ s)
    (by split <;> simp) (by rw [hauto]; split <;> simp)
  have htext : ("\n\tPRIMARY KEY(" ++ ",".intercalate (t.keyNames.map quoteIdentifier) ++
        (if t.keyAutoIncrement then " AUTOINCREMENT" else "") ++ ")").toList ++ s =
      '\n' :: '\t' :: ("PRIMARY".toList ++ ' ' :: ("KEY".toList ++ '(' ::
        ((",".intercalate (t.keyNames.map quoteIdentifier)).toList ++
          (((if t.keyAutoIncrement then " AUTOINCREMENT" else "") ++ ")").toList ++ s)))) := by
    simp
  refine ⟨⟨"PRIMARY", .word⟩ :: ⟨"KEY", .word⟩ :: ⟨"(", .punct⟩ :: (kts ++
    (if t.keyAutoIncrement then [⟨"AUTOINCREMENT", .word⟩] else []) ++ [⟨")", .punct⟩]), ?_, fun u => ?_⟩
  · rw [htext, tokens_blank (by decide), tokens_blank (by decide),
      tokens_word_append (k := .word) (by simp [IsWord, isWordStart, isWordChar])
        (by simp [wordKind, operatorWords, closerWords, sameWord_eq])
        (fun c hc => by simp at hc; exact hc ▸ Separates.endsWord (.inl (by decide))),
      tokens_blank (by decide), tokens_word_append (k := .word) (by simp [IsWord, isWordStart, isWordChar])
        (by simp [wordKind, operatorWords, closerWords, sameWord_eq])
        (fun c hc => by simp at hc; exact hc ▸ ⟨by decide, by decide⟩),
      tokens_openParen, hkts, hauto]
    simp
  · have hread := hread u []
    rw [hauto, List.nil_append] at hread
    have hcomma : eatPunct ',' (Lexer.tokens s) = .ok (false, Lexer.tokens s) :=
      eatIf_of_false fun tok htok => by rw [hnext tok htok]; rfl
    rw [show ⟨"PRIMARY", .word⟩ :: ⟨"KEY", .word⟩ :: ⟨"(", .punct⟩ :: (kts ++
          (if t.keyAutoIncrement then [⟨"AUTOINCREMENT", .word⟩] else []) ++ [⟨")", .punct⟩]) ++ Lexer.tokens s =
        ⟨"PRIMARY", .word⟩ :: ⟨"KEY", .word⟩ :: ⟨"(", .punct⟩ :: (kts ++
          ((if t.keyAutoIncrement then [⟨"AUTOINCREMENT", .word⟩] else []) ++ ⟨")", .punct⟩ :: Lexer.tokens s)) by
        simp,
      tableElement_of_constraint isKeyword_primary.2.2.2.1, bind_of_ok (tableConstraint_primaryKey _ hread fun tok htok => by rw [hnext tok htok]; rfl),
      bind_of_ok hcomma]
    rfl

/-! ### The table -/

/-- The elements of a printed table, its columns' lines and then its key when it has one, are read up
    to the table's closing parenthesis: every column with its key flags cleared, then marked by the
    fields the key's names find. -/
theorem elements_toSql (u : Table) {t : Table} (hne : t.fields ≠ []) (hf : ∀ f ∈ t.fields, f.Printable)
    (rest : List Char) :
    repeatWhile tableElement u
        (Lexer.tokens ((",\n".intercalate (t.fields.map Field.toSql) ++ t.keySql ++ "\n)").toList ++ rest)) =
      .ok ((t.keyNames.filterMap { u with fields := u.fields ++ t.fields.map (Field.canonical false false) }.position?).foldl
          (Table.markKeyStep t.keyAutoIncrement) { u with fields := u.fields ++ t.fields.map (Field.canonical false false) },
        ⟨")", .punct⟩ :: Lexer.tokens rest) := by
  obtain ⟨init, last, hfs⟩ := (List.eq_nil_or_concat t.fields).resolve_left hne
  rw [List.concat_eq_append] at hfs
  have hinit : ∀ f ∈ init, f.Printable := fun f hf' => hf f (by rw [hfs]; exact List.mem_append_left _ hf')
  have hlast : last.Printable := hf last (by rw [hfs]; exact List.mem_append_right _ List.mem_cons_self)
  have hclose : Lexer.tokens ('\n' :: ')' :: rest) = ⟨")", .punct⟩ :: Lexer.tokens rest := by
    rw [tokens_blank (by decide), tokens_closeParen]
  have hend : eatPunct ',' (⟨")", .punct⟩ :: Lexer.tokens rest) = .ok (false, ⟨")", .punct⟩ :: Lexer.tokens rest) :=
    eatIf_of_false fun tok htok => by cases htok; rfl
  rw [String.toList_append, String.toList_append, List.append_assoc, List.append_assoc, hfs,
    elements_init hinit]
  by_cases hpk : t.primaryKey = []
  · -- no key: the last column ends at the closing parenthesis
    have hkey : t.keySql = "" := by simp [Table.keySql, hpk]
    obtain ⟨fts, hfts, hread⟩ := tableElement_column { u with fields := u.fields ++ init.map (Field.canonical false false) }
      hlast (s := '\n' :: ')' :: rest) (fun c hc => by cases hc; exact .inl (by decide)) (by simp [hclose, EndsColumn])
    rw [hkey, show ("".toList ++ ("\n)".toList ++ rest)) = '\n' :: ')' :: rest by simp, hfts,
      repeatWhile_last (hread false _ (by rw [hclose]; exact hend))]
    simp [Table.keyNames, hpk]
  · -- a key: a comma ends the last column, and the key constraint ends at the closing parenthesis
    have hafter : ∀ tok ∈ (Lexer.tokens ('\n' :: ')' :: rest)).head?, tok = ⟨")", .punct⟩ := by
      simp [hclose]
    obtain ⟨kts, hkts, hkey⟩ := tableElement_key t hpk hafter
    obtain ⟨fts, hfts, hread⟩ := tableElement_column { u with fields := u.fields ++ init.map (Field.canonical false false) }
      hlast (s := ',' :: (("\n\tPRIMARY KEY(" ++ ",".intercalate (t.keyNames.map quoteIdentifier) ++
        (if t.keyAutoIncrement then " AUTOINCREMENT" else "") ++ ")").toList ++ '\n' :: ')' :: rest))
      (by simp [Separates]) (by simp [tokens_comma, EndsColumn])
    rw [Table.keySql_eq hpk, show ((",\n\tPRIMARY KEY(" ++ ",".intercalate (t.keyNames.map quoteIdentifier) ++
        (if t.keyAutoIncrement then " AUTOINCREMENT" else "") ++ ")").toList ++ ("\n)".toList ++ rest)) =
      ',' :: (("\n\tPRIMARY KEY(" ++ ",".intercalate (t.keyNames.map quoteIdentifier) ++
        (if t.keyAutoIncrement then " AUTOINCREMENT" else "") ++ ")").toList ++ '\n' :: ')' :: rest) by simp,
      hfts, repeatWhile_more (hread true _ (by rw [tokens_comma]; exact eatIf_of_true rfl _))
        (by simp only [tokens_comma, List.length_cons, List.length_append]; omega),
      hkts, repeatWhile_last (hkey _), hclose]
    simp

/-- Marking a key leaves the rowid flag alone. -/
theorem Table.foldl_markKeyStep_hasRowid (auto : Bool) (keys : List Nat) (u : Table) (b : Bool) :
    { keys.foldl (markKeyStep auto) u with hasRowid := b } = keys.foldl (markKeyStep auto) { u with hasRowid := b } := by
  induction keys generalizing u with
  | nil => rfl
  | cons i keys ih =>
    rw [List.foldl_cons, List.foldl_cons, ih]
    congr 1
    simp [markKeyStep_eq]

/-- The table read back from the elements of a printed table, its columns with their key flags
    cleared and then marked by the key's names, is the table's normal form with a rowid. -/
theorem Table.markKeys_read (t : Table) :
    let u : Table := { name := t.name, temporary := t.temporary, fields := t.fields.map (Field.canonical false false) }
    (t.keyNames.filterMap u.position?).foldl (markKeyStep t.keyAutoIncrement) u = { t.normalize with hasRowid := true } := by
  intro u
  have hpos : u.position? = t.position? := position?_congr (by simp [u, Function.comp_def])
  rw [hpos, ← keyPositions_eq, ← markKeys_normalize, foldl_markKeyStep_hasRowid]

/-! ### The words around the elements -/

/-- The words that open and close a printed statement are bare words of the plain kind. -/
theorem frameWords_word :
    ∀ w ∈ ["CREATE", "TEMPORARY", "TABLE", "UNIQUE", "INDEX", "ON", "WHERE", "WITHOUT", "ROWID"],
      IsWord w.toList ∧ wordKind w = .word := by
  intro w hw
  simp only [List.mem_cons, List.not_mem_nil, or_false] at hw
  rcases hw with rfl | rfl | rfl | rfl | rfl | rfl | rfl | rfl | rfl <;>
    exact ⟨by simp [IsWord, isWordStart, isWordChar], by simp [wordKind, operatorWords, closerWords, sameWord_eq]⟩

/-- A bare word of the plain kind before a blank is read as its word, and the blank is skipped. -/
theorem tokens_word_blank {w : String} (hw : IsWord w.toList ∧ wordKind w = .word) (s : List Char) :
    Lexer.tokens (w.toList ++ ' ' :: s) = ⟨w, .word⟩ :: Lexer.tokens s := by
  rw [tokens_word_append hw.1 hw.2 fun c hc => by cases hc; exact Separates.endsWord (.inl (by decide)),
    tokens_blank (by decide)]

/-- The opening words of a table's text, its quoted name and `(`, then a line break. -/
theorem tokens_tableHead (temporary : Bool) (name : String) (rest : List Char) :
    Lexer.tokens ((if temporary then "CREATE TEMPORARY TABLE " else "CREATE TABLE ").toList ++
        ((quoteIdentifier name).toList ++ ' ' :: '(' :: '\n' :: rest)) =
      ⟨"CREATE", .word⟩ :: ((if temporary then [⟨"TEMPORARY", .word⟩] else []) ++
        ⟨"TABLE", .word⟩ :: ⟨name, .quoted⟩ :: ⟨"(", .punct⟩ :: Lexer.tokens rest) := by
  have hname : Lexer.tokens ((quoteIdentifier name).toList ++ ' ' :: '(' :: '\n' :: rest) =
      ⟨name, .quoted⟩ :: ⟨"(", .punct⟩ :: Lexer.tokens rest := by
    rw [tokens_quoted name (by simp), tokens_blank (by decide), tokens_openParen, tokens_blank (by decide)]
  cases temporary
  · have hwords : ∀ x : List Char, "CREATE TABLE ".toList ++ x = "CREATE".toList ++ ' ' :: ("TABLE".toList ++ ' ' :: x) :=
      fun x => by simp
    simp only [Bool.false_eq_true, ↓reduceIte, List.nil_append]
    rw [hwords, tokens_word_blank (frameWords_word "CREATE" (by simp)),
      tokens_word_blank (frameWords_word "TABLE" (by simp)), hname]
  · have hwords : ∀ x : List Char, "CREATE TEMPORARY TABLE ".toList ++ x =
        "CREATE".toList ++ ' ' :: ("TEMPORARY".toList ++ ' ' :: ("TABLE".toList ++ ' ' :: x)) :=
      fun x => by simp
    simp only [↓reduceIte, List.cons_append, List.nil_append]
    rw [hwords, tokens_word_blank (frameWords_word "CREATE" (by simp)),
      tokens_word_blank (frameWords_word "TEMPORARY" (by simp)), tokens_word_blank (frameWords_word "TABLE" (by simp)),
      hname]

/-- The text of a table lexes as its opening words, its quoted name and `(`, then the text of its
    elements, the closing parenthesis and `WITHOUT ROWID` when it has no rowid. -/
theorem Table.tokenize_toSql (t : Table) :
    tokenize t.toSql = ⟨"CREATE", .word⟩ :: ((if t.temporary then [⟨"TEMPORARY", .word⟩] else []) ++
      ⟨"TABLE", .word⟩ :: ⟨t.name, .quoted⟩ :: ⟨"(", .punct⟩ :: Lexer.tokens
        ((",\n".intercalate (t.fields.map Field.toSql) ++ t.keySql ++ "\n)").toList ++
          (if t.hasRowid then "" else " WITHOUT ROWID").toList)) := by
  rw [tokenize, ← tokens_tableHead]
  simp [Table.toSql]

/-- A quoted name is no `IF`: the statement goes on with it. -/
theorem ifNotExists_quoted (n : String) (r : List Token) :
    ifNotExists (⟨n, .quoted⟩ :: r) = .ok ((), ⟨n, .quoted⟩ :: r) := by
  simp [ifNotExists, eatKeyword, eatIf_bind, Token.isKeyword]

/-- A quoted name with no point after it is the whole name. -/
theorem qualifiedName_quoted (n : String) {r : List Token} (hr : ∀ t ∈ r.head?, t.isOperator "." = false) :
    qualifiedName (⟨n, .quoted⟩ :: r) = .ok (n, r) := by
  rw [qualifiedName, bind_of_ok (expectName_cons rfl _), peek?_bind]
  cases r with
  | nil => rfl
  | cons t r => simp [hr t rfl]

/-- The closing words of a table without a rowid. -/
theorem isKeyword_withoutRowid : (⟨"WITHOUT", .word⟩ : Token).isKeyword "WITHOUT" = true ∧
    (⟨"ROWID", .word⟩ : Token).isKeyword "ROWID" = true := by
  simp [Token.isKeyword, sameWord_eq]

/-- The text of a printable table after `TABLE` is read back as the table's normal form. -/
theorem createTable_toSql {t : Table} (ht : t.Printable) :
    createTable t.temporary (⟨t.name, .quoted⟩ :: ⟨"(", .punct⟩ :: Lexer.tokens
        ((",\n".intercalate (t.fields.map Field.toSql) ++ t.keySql ++ "\n)").toList ++
          (if t.hasRowid then "" else " WITHOUT ROWID").toList)) = .ok (t.normalize, []) := by
  rw [createTable, bind_of_ok (ifNotExists_quoted _ _), bind_of_ok (qualifiedName_quoted _ (by simp; rfl)),
    bind_of_ok (expectPunct_cons rfl _), bind_of_ok (elements_toSql _ ht.nonempty ht.fields_printable _),
    bind_of_ok (expectPunct_cons rfl _)]
  have hread := Table.markKeys_read t
  dsimp only at hread
  dsimp only [List.nil_append]
  simp only [hread]
  have hne : t.normalize.fields.isEmpty = false := by simp [Table.normalize, ht.nonempty]
  -- the normal form keeps the rowid flag, which the text gives back
  have hrowid : ∀ b, t.hasRowid = b → ({ t.normalize with hasRowid := b } : Table) = t.normalize :=
    fun b hb => hb ▸ rfl
  cases hr : t.hasRowid
  · have hwithout : Lexer.tokens " WITHOUT ROWID".toList = [⟨"WITHOUT", .word⟩, ⟨"ROWID", .word⟩] := by
      rw [show " WITHOUT ROWID".toList = ' ' :: ("WITHOUT".toList ++ ' ' :: ("ROWID".toList ++ [])) by simp,
        tokens_blank (by decide), tokens_word_blank (frameWords_word "WITHOUT" (by simp)),
        tokens_word_append (frameWords_word "ROWID" (by simp)).1 (frameWords_word "ROWID" (by simp)).2 (by simp),
        Lexer.tokens_nil]
    simp only [hne, Bool.false_eq_true, ↓reduceIte, hwithout]
    rw [eatKeyword, bind_of_ok (eatIf_of_true isKeyword_withoutRowid.1 _)]
    simp only [↓reduceIte]
    rw [bind_of_ok (expectKeyword_cons isKeyword_withoutRowid.2 _), bind_of_ok (pure_apply _ _),
      bind_of_ok expectEnd_nil, pure_apply]
    exact congrArg (fun u => (.ok (u, []) : Except ReadError (Table × List Token))) (hrowid false hr)
  · simp only [hne, Bool.false_eq_true, ↓reduceIte, String.toList_empty, Lexer.tokens_nil]
    rw [eatKeyword, bind_of_ok (show eatIf _ [] = .ok (false, []) from rfl)]
    simp only [Bool.false_eq_true, ↓reduceIte]
    rw [bind_of_ok (pure_apply _ _), bind_of_ok expectEnd_nil, pure_apply]
    exact congrArg (fun u => (.ok (u, []) : Except ReadError (Table × List Token))) (hrowid true hr)

/-! ### The index -/

/-- A chain of the grammar is read back as an expression from its tokens, before a token that stops
    it. -/
theorem Cursor.expression_tokens {e : Expr} (h : Expr.Chain Expr.Limits.standard 0 [] false e) {rest : List Token}
    (hend : Expr.EndsBefore e rest.head?) (hs : Expr.Stops [] false rest.head?) (context : String) :
    Cursor.expression [] context (e.tokens ++ rest) = .ok (e, rest) := by
  obtain ⟨h', hread⟩ := Expr.chain_tokens_append h hend hs
  simp [Cursor.expression, Expr.read, hread]

/-- A printed indexed column, after its tab, lexes as its tree's tokens; it is read back as the tree,
    and the round asks for another when a comma follows. -/
theorem indexedColumn_text {c : Expr} (hc : c.Readable) {s : List Char} (hs : ∀ x ∈ s.head?, Separates x)
    (hnext : (Lexer.tokens s).head? = some Token.comma ∨ (Lexer.tokens s).head? = some ⟨")", .punct⟩) :
    Lexer.tokens (("\t" ++ c.render).toList ++ s) = c.tokens ++ Lexer.tokens s ∧
      ∀ cols b r, eatPunct ',' (Lexer.tokens s) = .ok (b, r) →
        indexedColumn cols (c.tokens ++ Lexer.tokens s) = .ok ((cols ++ [c], b), r) := by
  refine ⟨?_, fun cols b r hb => ?_⟩
  · rw [show ("\t" ++ c.render).toList ++ s = '\t' :: (c.render.toList ++ s) by simp, tokens_blank (by decide),
      Expr.lex_render_append c hc.1 hc.2 fun x hx => (hs x hx).stopsAt _]
  · have hend : Expr.EndsBefore c (Lexer.tokens s).head? := by
      rcases hnext with h | h <;> rw [h]
      · exact Expr.EndsBefore.comma c
      · exact Expr.EndsBefore.closeParen c
    have hstop : Expr.Stops [] false (Lexer.tokens s).head? := by
      rcases hnext with h | h <;> rw [h]
      · exact .inl ⟨by decide, rfl⟩
      · exact Expr.Stops.closeParen
    rw [indexedColumn, bind_of_ok (Cursor.expression_tokens hc.1 hend hstop _), bind_of_ok hb]
    rfl

/-- The printed columns of an index, one after a tab on each line, are read round by round up to the
    closing parenthesis. -/
theorem indexedColumns_text {cs : List Expr} (hne : cs ≠ []) (hc : ∀ c ∈ cs, c.Readable) (rest : List Char)
    (cols : List Expr) :
    repeatWhile indexedColumn cols
        (Lexer.tokens ((",\n".intercalate (cs.map fun c => "\t" ++ c.render)).toList ++ '\n' :: ')' :: rest)) =
      .ok (cols ++ cs, ⟨")", .punct⟩ :: Lexer.tokens rest) := by
  have hclose : Lexer.tokens ('\n' :: ')' :: rest) = ⟨")", .punct⟩ :: Lexer.tokens rest := by
    rw [tokens_blank (by decide), tokens_closeParen]
  induction cs generalizing cols with
  | nil => exact absurd rfl hne
  | cons c cs ih =>
    have hc₀ := hc c List.mem_cons_self
    cases cs with
    | nil =>
      -- the last column, before the closing parenthesis
      obtain ⟨htext, hread⟩ := indexedColumn_text hc₀ (s := '\n' :: ')' :: rest)
        (fun x hx => by cases hx; exact .inl (by decide)) (.inr (by rw [hclose]; rfl))
      rw [List.map_singleton, String.intercalate_singleton, htext,
        repeatWhile_last (hread cols false _ (by rw [hclose]; exact eatIf_of_false fun t ht => by cases ht; rfl))]
    | cons c' cs =>
      -- a column and its comma, then the other columns
      obtain ⟨htext, hread⟩ := indexedColumn_text hc₀
        (s := ',' :: '\n' :: ((",\n".intercalate ((c' :: cs).map fun c => "\t" ++ c.render)).toList ++ '\n' :: ')' :: rest))
        (fun x hx => by cases hx; exact .inr (.inl rfl)) (.inl (by rw [tokens_comma]; rfl))
      rw [List.map_cons, String.intercalate_cons_of_ne_nil (by simp), String.toList_append, String.toList_append,
        List.append_assoc, List.append_assoc, show ",\n".toList = [',', '\n'] by simp, List.cons_append,
        List.cons_append, List.nil_append, htext,
        repeatWhile_more (hread cols true _ (by rw [tokens_comma]; exact eatIf_of_true rfl _))
          (by simp only [tokens_comma, List.length_cons, List.length_append]; omega),
        tokens_blank (by decide), ih (List.cons_ne_nil _ _) (fun c hc' => hc c (List.mem_cons_of_mem _ hc'))]
      simp

/-- The opening words of an index's text, its quoted name, `ON`, its table's quoted name and `(`, then a
    line break. -/
theorem tokens_indexHead (unique : Bool) (name table : String) (rest : List Char) :
    Lexer.tokens ((if unique then "CREATE UNIQUE INDEX " else "CREATE INDEX ").toList ++
        ((quoteIdentifier name).toList ++ ' ' :: ("ON".toList ++ ' ' ::
          ((quoteIdentifier table).toList ++ ' ' :: '(' :: '\n' :: rest)))) =
      ⟨"CREATE", .word⟩ :: ((if unique then [⟨"UNIQUE", .word⟩] else []) ++ ⟨"INDEX", .word⟩ ::
        ⟨name, .quoted⟩ :: ⟨"ON", .word⟩ :: ⟨table, .quoted⟩ :: ⟨"(", .punct⟩ :: Lexer.tokens rest) := by
  have hnames : Lexer.tokens ((quoteIdentifier name).toList ++ ' ' :: ("ON".toList ++ ' ' ::
      ((quoteIdentifier table).toList ++ ' ' :: '(' :: '\n' :: rest))) =
      ⟨name, .quoted⟩ :: ⟨"ON", .word⟩ :: ⟨table, .quoted⟩ :: ⟨"(", .punct⟩ :: Lexer.tokens rest := by
    rw [tokens_quoted name (by simp), tokens_blank (by decide), tokens_word_blank (frameWords_word "ON" (by simp)),
      tokens_quoted table (by simp), tokens_blank (by decide), tokens_openParen, tokens_blank (by decide)]
  cases unique
  · have hwords : ∀ x : List Char, "CREATE INDEX ".toList ++ x = "CREATE".toList ++ ' ' :: ("INDEX".toList ++ ' ' :: x) :=
      fun x => by simp
    simp only [Bool.false_eq_true, ↓reduceIte, List.nil_append]
    rw [hwords, tokens_word_blank (frameWords_word "CREATE" (by simp)),
      tokens_word_blank (frameWords_word "INDEX" (by simp)), hnames]
  · have hwords : ∀ x : List Char, "CREATE UNIQUE INDEX ".toList ++ x =
        "CREATE".toList ++ ' ' :: ("UNIQUE".toList ++ ' ' :: ("INDEX".toList ++ ' ' :: x)) :=
      fun x => by simp
    simp only [↓reduceIte, List.cons_append, List.nil_append]
    rw [hwords, tokens_word_blank (frameWords_word "CREATE" (by simp)),
      tokens_word_blank (frameWords_word "UNIQUE" (by simp)), tokens_word_blank (frameWords_word "INDEX" (by simp)),
      hnames]

/-- The text of an index lexes as its opening words, its quoted name, `ON`, its table's quoted name and
    `(`, then the text of its columns, the closing parenthesis and its predicate. -/
theorem Index.tokenize_toSql (i : Index) :
    tokenize i.toSql = ⟨"CREATE", .word⟩ :: ((if i.unique then [⟨"UNIQUE", .word⟩] else []) ++ ⟨"INDEX", .word⟩ ::
      ⟨i.name, .quoted⟩ :: ⟨"ON", .word⟩ :: ⟨i.table, .quoted⟩ :: ⟨"(", .punct⟩ :: Lexer.tokens
        ((",\n".intercalate (i.columns.map fun c => "\t" ++ c.render)).toList ++ '\n' :: ')' ::
          (i.predicate.elim "" fun p => " WHERE " ++ p.render).toList)) := by
  rw [tokenize, ← tokens_indexHead]
  cases hp : i.predicate <;> simp [Index.toSql, hp]

/-- The text of a printable index after `INDEX` is read back as the index. -/
theorem createIndex_toSql {i : Index} (hi : i.Printable) :
    createIndex i.unique (⟨i.name, .quoted⟩ :: ⟨"ON", .word⟩ :: ⟨i.table, .quoted⟩ :: ⟨"(", .punct⟩ :: Lexer.tokens
        ((",\n".intercalate (i.columns.map fun c => "\t" ++ c.render)).toList ++ '\n' :: ')' ::
          (i.predicate.elim "" fun p => " WHERE " ++ p.render).toList)) = .ok (i, []) := by
  have hon : (⟨"ON", .word⟩ : Token).isKeyword "ON" = true ∧ (⟨"ON", .word⟩ : Token).isOperator "." = false := by
    simp [Token.isKeyword, Token.isOperator, sameWord_eq]
  rw [createIndex, bind_of_ok (ifNotExists_quoted _ _), bind_of_ok (qualifiedName_quoted _ (by simp [hon])),
    bind_of_ok (expectKeyword_cons hon.1 _), bind_of_ok (expectName_cons rfl _), bind_of_ok (expectPunct_cons rfl _),
    bind_of_ok (indexedColumns_text hi.columns_ne hi.columns _ []), bind_of_ok (expectPunct_cons rfl _)]
  obtain ⟨name, table, unique, columns, predicate⟩ := i
  cases predicate with
  | none => simp [eatKeyword, eatIf_bind, map_of_ok expectEnd_nil]
  | some p =>
    -- `WHERE` and the predicate's tree, which ends the text
    obtain ⟨hp, hend⟩ := hi.predicate p rfl
    have htext : Lexer.tokens (" WHERE " ++ p.render).toList = ⟨"WHERE", .word⟩ :: p.tokens := by
      rw [show (" WHERE " ++ p.render).toList = ' ' :: ("WHERE".toList ++ ' ' :: (p.render.toList ++ [])) by simp,
        tokens_blank (by decide), tokens_word_blank (frameWords_word "WHERE" (by simp)),
        Expr.lex_render_append p hp.1 hp.2 (by simp), Lexer.tokens_nil, List.append_nil]
    have hexpr : expression [] "WHERE clause" (p.tokens ++ []) = .ok (p, []) :=
      @Cursor.expression_tokens p hp.1 [] hend trivial "WHERE clause"
    rw [List.append_nil] at hexpr
    have hwhere : (⟨"WHERE", .word⟩ : Token).isKeyword "WHERE" = true := by
      simp [Token.isKeyword, sameWord_eq]
    rw [Option.elim_some, htext]
    simp [eatKeyword, eatIf_bind, hwhere, bind_of_ok hexpr, map_of_ok expectEnd_nil]

/-! ### Statements -/

/-- The opening words of a printed statement, and the words the reader tries them against. -/
theorem isKeyword_opening :
    (⟨"CREATE", .word⟩ : Token).isKeyword "CREATE" = true ∧
    ["TEMP", "TEMPORARY"].any (⟨"TEMPORARY", .word⟩ : Token).isKeyword = true ∧
    ["TEMP", "TEMPORARY"].any (⟨"TABLE", .word⟩ : Token).isKeyword = false ∧
    (⟨"TABLE", .word⟩ : Token).isKeyword "TABLE" = true ∧
    ["TEMP", "TEMPORARY"].any (⟨"UNIQUE", .word⟩ : Token).isKeyword = false ∧
    (⟨"UNIQUE", .word⟩ : Token).isKeyword "TABLE" = false ∧ (⟨"UNIQUE", .word⟩ : Token).isKeyword "UNIQUE" = true ∧
    ["TEMP", "TEMPORARY"].any (⟨"INDEX", .word⟩ : Token).isKeyword = false ∧
    (⟨"INDEX", .word⟩ : Token).isKeyword "TABLE" = false ∧ (⟨"INDEX", .word⟩ : Token).isKeyword "UNIQUE" = false ∧
    (⟨"INDEX", .word⟩ : Token).isKeyword "INDEX" = true := by
  simp [Token.isKeyword, sameWord_eq]

theorem Statement.parse_toSql {s : Statement} (h : s.Printable) : Statement.parse s.toSql = .ok s.normalize := by
  cases s with
  | table t =>
    rw [Statement.parse, Statement.toSql, Table.tokenize_toSql]
    simp only [StateT.run]
    rw [statement, bind_of_ok (expectKeyword_cons isKeyword_opening.1 _)]
    have hread := createTable_toSql h
    cases htemp : t.temporary <;> rw [htemp] at hread <;>
      simp only [eatAnyKeyword, eatKeyword, eatIf_bind, List.head?_cons, Option.any_some, isKeyword_opening,
        ↓reduceIte, List.tail_cons, Bool.false_eq_true, List.nil_append, List.cons_append]
    · rw [bind_of_ok hread]
      rfl
    · rw [bind_of_ok (expectKeyword_cons isKeyword_opening.2.2.2.1 _), bind_of_ok hread]
      rfl
  | index i =>
    rw [Statement.parse, Statement.toSql, Index.tokenize_toSql]
    simp only [StateT.run]
    rw [statement, bind_of_ok (expectKeyword_cons isKeyword_opening.1 _)]
    have hread := createIndex_toSql h
    cases hunique : i.unique <;> rw [hunique] at hread <;>
      simp only [eatAnyKeyword, eatKeyword, eatIf_bind, List.head?_cons, Option.any_some, isKeyword_opening,
        ↓reduceIte, List.tail_cons, Bool.false_eq_true, List.nil_append, List.cons_append]
    · rw [bind_of_ok hread]
      rfl
    · rw [bind_of_ok (expectKeyword_cons isKeyword_opening.2.2.2.2.2.2.2.2.2.2 _), bind_of_ok hread]
      rfl

/-! ### The statements a program holds -/

namespace Statement

/-- A valid statement that made none of the choices its text loses is its own normal form. -/
theorem normalize_of_normal {s : Statement} (hv : s.Valid) (hn : s.Normal) : s.normalize = s := by
  cases s with
  | table t => exact congrArg Statement.table (Table.normalize_of_normal hv.toKeyConsistent hn)
  | index i => rfl

/-- The normal form of a statement is normal. -/
theorem normal_normalize (s : Statement) : s.normalize.Normal := by
  cases s with
  | table t => exact Table.normal_normalize t
  | index i => trivial

/-- Every statement a program can hold whose defaults have one form each prints to a text that reads
    back as it with its key resolved by name, and one whose key is already so resolved reads back as
    itself. -/
theorem parse_toSql_reachable {s : Statement} (h : s.Reachable) (hd : s.OneDefaultForm) :
    Statement.parse s.toSql = .ok s.resolveKey ∧ (s.KeyResolved → s.resolveKey = s) := by
  have hnorm : s.normalize = s.resolveKey := normalize_eq_resolveKey hd
  refine ⟨hnorm ▸ parse_toSql h.printable, fun hk => ?_⟩
  rw [← hnorm]
  exact normalize_of_normal h.valid (normal_of_keyResolved hk hd)

/-- The table of a key over two columns, only the second of which increments on its own, as read from
    text. -/
theorem parse_partialAutoIncrement :
    Statement.parse "CREATE TABLE t (a PRIMARY KEY, b PRIMARY KEY AUTOINCREMENT)" =
      .ok (.table { name := "t", fields := [{ name := "a", inPrimaryKey := true },
        { name := "b", inPrimaryKey := true, autoIncrement := true }], primaryKey := [0, 1] }) :=
  parse_eq_ok_of_toOption (by decide +kernel)

/-- A table held after reading its text, with no default, reads back from its printed text with its
    key resolved by name. -/
theorem parse_toSql_reachable_partialAutoIncrement :
    let s : Statement := .table { name := "t", fields := [{ name := "a", inPrimaryKey := true },
      { name := "b", inPrimaryKey := true, autoIncrement := true }], primaryKey := [0, 1] }
    s.Reachable ∧ s.OneDefaultForm ∧ Statement.parse s.toSql = .ok s.resolveKey ∧
      (s.KeyResolved → s.resolveKey = s) := by
  intro s
  have hd : s.OneDefaultForm := by
    simp [s, OneDefaultForm, Table.OneDefaultForm, Field.OneDefaultForm]
  exact ⟨.parse parse_partialAutoIncrement, hd, parse_toSql_reachable (.parse parse_partialAutoIncrement) hd⟩

/-- Printing drops `AUTOINCREMENT` from a key when not every key column increments on its own: the
    table read from `CREATE TABLE t (a PRIMARY KEY, b PRIMARY KEY AUTOINCREMENT)` does not read back
    as itself from its printed text. -/
theorem parse_toSql_ne_partialAutoIncrement :
    let s : Statement := .table { name := "t", fields := [{ name := "a", inPrimaryKey := true },
      { name := "b", inPrimaryKey := true, autoIncrement := true }], primaryKey := [0, 1] }
    Statement.parse "CREATE TABLE t (a PRIMARY KEY, b PRIMARY KEY AUTOINCREMENT)" = .ok s ∧
      Statement.parse s.toSql ≠ .ok s := by
  intro s
  refine ⟨parse_partialAutoIncrement, fun h => ?_⟩
  have hne : (Statement.parse s.toSql).toOption ≠ some s := by decide +kernel
  exact hne (by rw [h]; rfl)

/-! ### A default written twice -/

/-- A word that is not `IF` starts no `IF NOT EXISTS`. -/
theorem ifNotExists_name {n : Token} (hn : n.isKeyword "IF" = false) (r : List Token) :
    ifNotExists (n :: r) = .ok ((), n :: r) := by
  rw [ifNotExists, eatKeyword, bind_of_ok (eatIf_of_false fun t ht => by cases ht; exact hn)]
  rfl

/-- A name with no point after it is the whole name. -/
theorem qualifiedName_name {n : Token} (hn : n.isName = true) {r : List Token}
    (hr : ∀ t ∈ r.head?, t.isOperator "." = false) : qualifiedName (n :: r) = .ok (n.text, r) := by
  rw [qualifiedName, bind_of_ok (expectName_cons hn _), peek?_bind]
  cases r with
  | nil => rfl
  | cons t r => simp [hr t rfl]

theorem tokenize_bothDefaults : tokenize "CREATE TABLE t (a DEFAULT 'x' DEFAULT (1))" =
    [⟨"CREATE", .word⟩, ⟨"TABLE", .word⟩, ⟨"t", .word⟩, ⟨"(", .punct⟩, ⟨"a", .word⟩, ⟨"DEFAULT", .word⟩,
      ⟨"x", .string⟩, ⟨"DEFAULT", .word⟩, ⟨"(", .punct⟩, ⟨"1", .numeric⟩, ⟨")", .punct⟩, ⟨")", .punct⟩] := by
  decide +kernel

/-- A second default keeps the first one's quote flag: a quoted default and then a group are read as
    the group's text flagged both ways. -/
theorem constraints_bothDefaults (g : Field) {rest : List Token} (hrest : ∀ t ∈ rest.head?, t.kind = .punct) :
    repeatWhile columnConstraint g (⟨"DEFAULT", .word⟩ :: ⟨"x", .string⟩ :: ⟨"DEFAULT", .word⟩ ::
      ⟨"(", .punct⟩ :: ⟨"1", .numeric⟩ :: ⟨")", .punct⟩ :: rest) =
      .ok ({ g with defaultValue := some "1", defaultIsQuoted := true, defaultIsExpression := true }, rest) := by
  have hgroup : Expr.Operand Expr.Limits.standard 0 (.paren (.leaf ⟨"1", .numeric⟩)) := by
    simp [Expr.Operand, Expr.Chain, Expr.Limits.standard, Expr.Limits.allowsDepth, Expr.Limits.allowsHeight,
      Expr.height, TokenKind.isOperand, TokenKind.isIdentifier]
  have hread (g' : Field) : defaultClause g' (⟨"(", .punct⟩ :: ⟨"1", .numeric⟩ :: ⟨")", .punct⟩ :: rest) =
      .ok ({ g' with defaultValue := some "1", defaultIsExpression := true }, rest) :=
    defaultClause_group hgroup rest
  rw [repeatWhile_more (columnConstraint_default (defaultClause_string "x" _)) (by simp),
    repeatWhile_more (columnConstraint_default (hread _)) (by simp only [List.length_cons]; omega),
    repeatWhile_last (columnConstraint_stop hrest)]

/-- The table of a column given a quoted default and then a default in parentheses, as read from
    text: the value is the second default's, and it keeps the first one's quote flag. -/
theorem parse_bothDefaultFlags :
    Statement.parse "CREATE TABLE t (a DEFAULT 'x' DEFAULT (1))" =
      .ok (.table { name := "t"
                    fields := [{ name := "a", defaultValue := some "1"
                                 defaultIsExpression := true, defaultIsQuoted := true }] }) := by
  -- the column, read up to the closing parenthesis of the table
  have hcol : columnDef { name := "t" } (⟨"a", .word⟩ :: ⟨"DEFAULT", .word⟩ :: ⟨"x", .string⟩ ::
      ⟨"DEFAULT", .word⟩ :: ⟨"(", .punct⟩ :: ⟨"1", .numeric⟩ :: ⟨")", .punct⟩ :: [⟨")", .punct⟩]) =
      .ok ({ name := "t"
             fields := [{ name := "a", defaultValue := some "1", defaultIsExpression := true, defaultIsQuoted := true }] },
        [⟨")", .punct⟩]) := by
    rw [columnDef, bind_of_ok (expectName_cons rfl _), bind_of_ok (typeName_none (by decide +kernel)),
      bind_of_ok (constraints_bothDefaults _ (by simp))]
    rfl
  -- it is the table's only element: no comma follows
  have hloop : tableElement { name := "t" } (⟨"a", .word⟩ :: ⟨"DEFAULT", .word⟩ ::
      ⟨"x", .string⟩ :: ⟨"DEFAULT", .word⟩ :: ⟨"(", .punct⟩ :: ⟨"1", .numeric⟩ :: ⟨")", .punct⟩ :: [⟨")", .punct⟩]) =
      .ok (({ name := "t"
              fields := [{ name := "a", defaultValue := some "1", defaultIsExpression := true, defaultIsQuoted := true }] },
        false), [⟨")", .punct⟩]) := by
    rw [tableElement_of_column (by decide +kernel), bind_of_ok hcol]
    rfl
  have hcreate : createTable false (⟨"t", .word⟩ :: ⟨"(", .punct⟩ :: ⟨"a", .word⟩ :: ⟨"DEFAULT", .word⟩ ::
      ⟨"x", .string⟩ :: ⟨"DEFAULT", .word⟩ :: ⟨"(", .punct⟩ :: ⟨"1", .numeric⟩ :: ⟨")", .punct⟩ :: [⟨")", .punct⟩]) =
      .ok ({ name := "t"
             fields := [{ name := "a", defaultValue := some "1", defaultIsExpression := true, defaultIsQuoted := true }] },
        []) := by
    rw [createTable, bind_of_ok (ifNotExists_name (by decide +kernel) _),
      bind_of_ok (qualifiedName_name rfl (by decide +kernel)), bind_of_ok (expectPunct_cons rfl _),
      bind_of_ok (repeatWhile_last hloop), bind_of_ok (expectPunct_cons rfl _)]
    rfl
  rw [Statement.parse, tokenize_bothDefaults]
  simp only [StateT.run]
  rw [statement, bind_of_ok (expectKeyword_cons (by decide +kernel) _), eatAnyKeyword,
    bind_of_ok (eatIf_of_false fun t ht => by cases ht; decide +kernel)]
  simp only [Bool.false_eq_true, ↓reduceIte]
  rw [eatKeyword, bind_of_ok (eatIf_of_true (by decide +kernel) _)]
  simp only [↓reduceIte]
  rw [bind_of_ok hcreate]
  rfl

/-- A default flagged both quoted and as a group prints quoted, so the table read from
    `CREATE TABLE t (a DEFAULT 'x' DEFAULT (1))` does not read back as itself from its printed text. -/
theorem parse_toSql_ne_bothDefaultFlags :
    let s : Statement := .table { name := "t"
                                  fields := [{ name := "a", defaultValue := some "1"
                                               defaultIsExpression := true, defaultIsQuoted := true }] }
    Statement.parse "CREATE TABLE t (a DEFAULT 'x' DEFAULT (1))" = .ok s ∧
      Statement.parse s.toSql ≠ .ok s := by
  intro s
  refine ⟨parse_bothDefaultFlags, fun h => ?_⟩
  have hne : (Statement.parse s.toSql).toOption ≠ some s := by decide +kernel
  exact hne (by rw [h]; rfl)

/-- Reading back the text of a statement a program can hold succeeds, and what it reads back is a
    fixed point: its own text reads back as itself. -/
theorem parse_toSql_fixedPoint {s : Statement} (h : s.Reachable) :
    ∃ n, Statement.parse s.toSql = .ok n ∧ Statement.parse n.toSql = .ok n := by
  have hread : Statement.parse s.toSql = .ok s.normalize := parse_toSql h.printable
  -- what is read back is itself a statement the program can hold
  have hreach : s.normalize.Reachable := .parse hread
  refine ⟨s.normalize, hread, ?_⟩
  rw [parse_toSql hreach.printable, normalize_of_normal hreach.valid (normal_normalize s)]

/-- The table read from `CREATE TABLE t (a PRIMARY KEY, b PRIMARY KEY AUTOINCREMENT)` reads back from
    its text as a statement whose own text reads back as itself. -/
theorem parse_toSql_fixedPoint_partialAutoIncrement :
    let s : Statement := .table { name := "t", fields := [{ name := "a", inPrimaryKey := true },
      { name := "b", inPrimaryKey := true, autoIncrement := true }], primaryKey := [0, 1] }
    s.Reachable ∧ ∃ n, Statement.parse s.toSql = .ok n ∧ Statement.parse n.toSql = .ok n :=
  ⟨.parse parse_partialAutoIncrement, parse_toSql_fixedPoint (.parse parse_partialAutoIncrement)⟩

end Statement

end SqlSchema
