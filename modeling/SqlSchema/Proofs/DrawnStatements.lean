import SqlSchema.Proofs.DrawnTables
import SqlSchema.Check.RoundTrip

/-! # Generated statements read back

A generated table is its name and its elements in parentheses: its columns, then the key as a table
constraint when it has the third style, then the foreign key when it has one. Each element lexes as
its tokens, and one round of the reader's element loop takes them into the table it is building
(`ElementRead.Reads`): a column adds its field, the key marks the columns its names find, and the
foreign key changes nothing. As far as the key goes each element is a `Table.Element`, so the table
read is the one those elements declare. Its columns have different names up to case and its key
clauses agree on `AUTOINCREMENT`, so its key is already resolved by name (`Declared.keyResolved`).

A generated index is read as the trees it was drawn from: each indexed column is one of a few trees
over a column's name, and the predicate says the column is set and not empty. A statement read with
one form for each default and its key resolved is read back from its own text as itself, so every
statement of a generated schema passes the round-trip check. -/

namespace SqlSchema

open Lexer Cursor Reader Generate

/-! ### Keys declared over names that differ up to case -/

namespace Table

open Element

/-- Names no two of which are the same up to ASCII case. -/
def DistinctNames (names : List String) : Prop :=
  ∀ i j (hi : i < names.length) (hj : j < names.length), sameWord names[i] names[j] = true → i = j

/-- Among names that differ up to ASCII case, each is found first at its own place. -/
theorem resolve_getElem {names : List String} (h : DistinctNames names) {i : Nat} (hi : i < names.length) :
    resolve names names[i] = some i := by
  rw [resolve, List.findIdx?_eq_some_iff_getElem]
  refine ⟨hi, by simp [sameWord], fun j hji hs => ?_⟩
  -- an earlier name the same up to case would stand at the same place
  have := h j i (by omega) hi (by simpa using hs)
  omega

variable {t : Table} {els : List Element} {b : Bool}

/-- When every naming of the key says `AUTOINCREMENT` or none does, each key column increments on its
    own exactly as the namings say. -/
theorem Declared.autoIncrement_of_key (h : t.Declared els) (hauto : ∀ p ∈ keyNamings els, p.2 = b) {i : Nat}
    (hi : i ∈ t.primaryKey) : (t.fields.getD i default).autoIncrement = b := by
  obtain ⟨p, hp, rfl⟩ : ∃ p ∈ keyNamings els, p.1 = i := by
    simpa [h.key, List.mem_eraseDups] using hi
  have hlt : p.1 < t.fields.length := h.length_fields ▸ keyNamings_lt els p hp
  rw [List.getD_eq_getElem _ _ hlt]
  cases hb : b
  · -- a naming that says `AUTOINCREMENT` would not agree with the others
    rw [Bool.eq_false_iff]
    intro hf
    have := hauto _ ((h.auto p.1 hlt).mp hf)
    simp_all
  · exact (h.auto p.1 hlt).mpr (by rw [← hb, ← hauto p hp]; exact hp)

/-- A table declared by elements whose columns' names differ up to ASCII case, and whose key clauses all
    say `AUTOINCREMENT` or all do not, has its key resolved by name. -/
theorem Declared.keyResolved (h : t.Declared els) (hnames : DistinctNames (Element.columnNames els))
    (hauto : ∀ p ∈ keyNamings els, p.2 = b) : t.KeyResolved where
  firstMatch i hi := by
    obtain ⟨p, hp, rfl⟩ : ∃ p ∈ keyNamings els, p.1 = i := by
      simpa [h.key, List.mem_eraseDups] using hi
    have hlt := keyNamings_lt els p hp
    have hlt' : p.1 < t.fields.length := h.length_fields ▸ hlt
    have hname : (t.fields.getD p.1 default).name = (Element.columnNames els)[p.1] := by
      rw [List.getD_eq_getElem _ _ hlt']
      simp [← h.names]
    rw [hname, position?_eq_resolve h.names, resolve_getElem hnames hlt]
  autoIncrement i hi := by
    rw [Declared.autoIncrement_of_key h hauto hi, keyAutoIncrement]
    -- every key column says the same, and the key has one
    cases b
    · exact (List.all_eq_false.mpr ⟨i, hi, by
        simp only [Declared.autoIncrement_of_key h hauto hi, Bool.false_eq_true, not_false_eq_true]⟩).symm
    · exact (List.all_eq_true.mpr fun j hj => by simp only [Declared.autoIncrement_of_key h hauto hj]).symm

/-! ### Defaults in one form, kept by the key -/

theorem OneDefaultForm.addColumn (ht : t.OneDefaultForm) {f : Field} (hf : f.OneDefaultForm) :
    (t.addColumn f).OneDefaultForm := by
  intro g hg
  rw [addColumn_fields] at hg
  -- marking the key changes no default
  have hmod : ∀ g ∈ (t.fields ++ [f]).modify t.fields.length (fun g => { g with inPrimaryKey := true }),
      ∃ g' ∈ t.fields ++ [f], g.defaultIsQuoted = g'.defaultIsQuoted ∧ g.defaultIsExpression = g'.defaultIsExpression := by
    intro g hg
    obtain ⟨j, hj, rfl⟩ := List.getElem_of_mem hg
    rw [List.getElem_modify]
    split
    · exact ⟨_, List.getElem_mem (by simpa using hj), rfl, rfl⟩
    · exact ⟨_, List.getElem_mem (by simpa using hj), rfl, rfl⟩
  have hold : ∀ g ∈ t.fields ++ [f], g.OneDefaultForm := by
    intro g hg
    rcases List.mem_append.mp hg with hg | hg
    · exact ht g hg
    · rw [List.mem_singleton.mp hg]; exact hf
  split at hg
  · obtain ⟨g', hg', hq, he⟩ := hmod g hg
    intro hgq
    rw [he]
    exact hold g' hg' (hq ▸ hgq)
  · exact hold g hg

theorem OneDefaultForm.markKeys (ht : t.OneDefaultForm) (auto : Bool) (keys : List Nat) :
    (keys.foldl (markKeyStep auto) t).OneDefaultForm := by
  intro g hg
  rw [foldl_markKeyStep] at hg
  obtain ⟨j, hj, rfl⟩ := List.getElem_of_mem hg
  have hj' : j < t.fields.length := by simpa using hj
  have hf := ht _ (List.getElem_mem hj')
  rw [List.getElem_mapIdx]
  split
  · exact hf
  · exact hf

end Table

/-! ### Table elements -/

/-- A table element as text: its text, its tokens, what one round of the element loop does with them
    to the table being read, and what it declares for the key. -/
structure ElementRead where
  text : String
  tokens : List Token
  effect : Table → Table
  element : Table.Element

namespace ElementRead

/-- The element's text lexes as its tokens, and one round of the element loop reads them into any table
    by its effect, before a comma or the closing parenthesis, asking for another round when a comma
    follows. The effect declares the element and keeps defaults in one form. -/
structure Reads (e : ElementRead) : Prop where
  lexes : Lexes e.text e.tokens
  ne : e.tokens ≠ []
  reads : ∀ u rest b r, (∀ t ∈ rest.head?, EndsColumn t) → eatPunct ',' rest = .ok (b, r) →
    tableElement u (e.tokens ++ rest) = .ok ((e.effect u, b), r)
  declares : ∀ u els, u.Declared els → (e.effect u).Declared (els ++ [e.element])
  oneDefaultForm : ∀ u : Table, u.OneDefaultForm → (e.effect u).OneDefaultForm

variable {es : List ElementRead}

/-- The table that elements read one after another make of `u`. -/
def readAll (es : List ElementRead) (u : Table) : Table :=
  es.foldl (fun u e => e.effect u) u

/-- Elements between commas lex as their tokens between commas. -/
theorem lexes_join (hes : ∀ e ∈ es, e.Reads) :
    Lexes (",\n  ".intercalate (es.map text)) ([Token.comma].intercalate (es.map tokens)) := by
  have hsep : LexesBefore ",\n  " [Token.comma] := by
    simpa using LexesBefore.comma.append (LexesBefore.lineBreak.append (LexesBefore.blank.append LexesBefore.blank))
  refine Lexes.intercalate hsep (fun x => by simp [StartsApart, Separates]) ?_
  rw [List.forall₂_map_left_iff, List.forall₂_map_right_iff, List.forall₂_same]
  exact fun e he => (hes e he).lexes

/-- The element loop reads elements between commas, up to the closing parenthesis. -/
theorem repeatWhile_join (hes : ∀ e ∈ es, e.Reads) (hne : es ≠ []) (u : Table) (rest : List Token) :
    repeatWhile tableElement u ([Token.comma].intercalate (es.map tokens) ++ ⟨")", .punct⟩ :: rest) =
      .ok (readAll es u, ⟨")", .punct⟩ :: rest) := by
  induction es generalizing u with
  | nil => exact absurd rfl hne
  | cons e es ih =>
    have he := hes e List.mem_cons_self
    cases es with
    | nil =>
      -- the last element, before the closing parenthesis
      rw [List.map_singleton, List.intercalate_singleton]
      exact repeatWhile_last (he.reads u _ false _ (by simp [EndsColumn]) (eatIf_of_false fun t ht => by cases ht; rfl))
    | cons e' es =>
      -- an element and its comma, then the others
      have hsplit : [Token.comma].intercalate ((e :: e' :: es).map tokens) =
          e.tokens ++ Token.comma :: [Token.comma].intercalate ((e' :: es).map tokens) := by
        simp [List.intercalate_cons_cons]
      rw [hsplit, List.append_assoc, List.cons_append,
        repeatWhile_more (he.reads u _ true _ (by simp [EndsColumn]) (eatIf_of_true rfl _))
          (by simp; have := List.length_pos_of_ne_nil he.ne; omega),
        ih (fun e he' => hes e (List.mem_cons_of_mem _ he')) (List.cons_ne_nil _ _)]
      rfl

theorem declared_readAll (hes : ∀ e ∈ es, e.Reads) {u : Table} {els : List Table.Element} (h : u.Declared els) :
    (readAll es u).Declared (els ++ es.map element) := by
  induction es generalizing u els with
  | nil => simpa [readAll] using h
  | cons e es ih =>
    have he := hes e List.mem_cons_self
    simpa [readAll] using ih (fun e he' => hes e (List.mem_cons_of_mem _ he')) (he.declares u els h)

theorem oneDefaultForm_readAll (hes : ∀ e ∈ es, e.Reads) {u : Table} (h : u.OneDefaultForm) :
    (readAll es u).OneDefaultForm := by
  induction es generalizing u with
  | nil => exact h
  | cons e es ih =>
    exact ih (fun e he' => hes e (List.mem_cons_of_mem _ he')) ((hes e List.mem_cons_self).oneDefaultForm u h)

end ElementRead

/-! ### The elements of a generated table -/

/-- Keywords each after a blank start apart. -/
theorem StartsApart.keywords {ws : List Token} (hne : ws ≠ []) :
    StartsApart (String.join (ws.map fun w => " " ++ w.text)) := by
  obtain ⟨w, ws, rfl⟩ := List.exists_cons_of_ne_nil hne
  rw [List.map_cons, String.join_cons, String.append_assoc]
  exact StartsApart.blank _

/-- A name with a digit opens no table constraint. -/
theorem tableConstraintWords_of_digits {t : Token} (ht : digits t.text ≠ []) :
    tableConstraintWords.any t.isKeyword = false := by
  refine List.any_eq_false.mpr fun kw hkw => ?_
  have hkw' : digits kw = [] := by
    simp only [tableConstraintWords, List.mem_cons, List.not_mem_nil, or_false] at hkw
    rcases hkw with rfl | rfl | rfl | rfl | rfl <;> simp [digits]
  simp [isKeyword_of_digits ht hkw']

namespace Generate.ColumnChoice

/-- A drawn column is an element of its table: it adds the field it is read as, which names itself for
    the key when the column has an inline key. -/
theorem elementRead {ch : ColumnChoice} {keyStyle j : Nat} {auto : Bool} (hch : ch.Drawn keyStyle auto j)
    {c : Token} (hc : c ∈ nameTokens "c" j) :
    ∃ f, ch.ReadAs (Name.ofToken c) f ∧ ∃ ts,
      (⟨ch.sql (Name.ofToken c), c :: ts, (·.addColumn f), .column c.text ch.key.toList⟩ : ElementRead).Reads := by
  have hk : c.kind ≠ .punct := by rcases kind_nameTokens hc with h | h | h | h <;> simp [h]
  obtain ⟨ts, f, hlex, hread, hcol⟩ := drawn_read hch (isName_nameTokens hc) (lexical_nameTokens nameStem_c hc) hk
  refine ⟨f, hread, ts, hlex, List.cons_ne_nil _ _, fun u rest b r hrest hb => ?_, fun u els h => ?_, fun u hu => ?_⟩
  · rw [List.cons_append, tableElement_of_column fun t ht => by
      cases ht; exact tableConstraintWords_of_digits (digits_nameTokens_ne nameStem_c hc),
      bind_of_ok (hcol u rest hrest), bind_of_ok hb]
    rfl
  · -- the field's key flags are those its inline key gives
    refine Table.Declared.column h ⟨hread.name, ?_, ?_⟩
    · rw [hread.inPrimaryKey]
      cases ch.key <;> rfl
    · rw [hread.autoIncrement]
      cases ch.key <;> simp
  · refine Table.OneDefaultForm.addColumn hu fun hq => ?_
    simpa [hq] using hread.defaultForm

end Generate.ColumnChoice

/-- Names between commas are read as the positions of the columns they find, up to the closing
    parenthesis. -/
theorem repeatWhile_keyColumn_join (u : Table) {cs : List Token} (hcs : ∀ c ∈ cs, c.isName = true) (hne : cs ≠ [])
    (keys : List Nat) (rest : List Token) :
    repeatWhile (keyColumn u) keys ([Token.comma].intercalate (cs.map ([·])) ++ ⟨")", .punct⟩ :: rest) =
      .ok (keys ++ (cs.map Token.text).filterMap u.position?, ⟨")", .punct⟩ :: rest) := by
  induction cs generalizing keys with
  | nil => exact absurd rfl hne
  | cons c cs ih =>
    have hc := hcs c List.mem_cons_self
    cases cs with
    | nil =>
      rw [List.map_singleton, List.intercalate_singleton, List.singleton_append,
        repeatWhile_last (keyColumn_name u keys hc (fun t ht => by cases ht; exact .inr (.inr rfl))
          (eatIf_of_false fun t ht => by cases ht; rfl))]
      cases h : u.position? c.text <;> simp [h]
    | cons c' cs =>
      have hsplit : [Token.comma].intercalate ((c :: c' :: cs).map ([·])) =
          [c] ++ Token.comma :: [Token.comma].intercalate ((c' :: cs).map ([·])) := by
        simp [List.intercalate_cons_cons]
      rw [hsplit, List.append_assoc, List.singleton_append, List.cons_append,
        repeatWhile_more (keyColumn_name u keys hc (fun t ht => by cases ht; exact .inl rfl) (eatIf_of_true rfl _))
          (by simp),
        ih (fun c hc' => hcs c (List.mem_cons_of_mem _ hc')) (List.cons_ne_nil _ _)]
      cases h : u.position? c.text <;> simp [h]

/-- The key of a generated table as a table constraint over the columns `cs`: it marks the first column
    of each name. -/
def keyElement (cs : List Token) : ElementRead where
  text := "PRIMARY KEY (" ++ ", ".intercalate (cs.map Token.render) ++ ")"
  tokens := ⟨"PRIMARY", .word⟩ :: ⟨"KEY", .word⟩ :: ⟨"(", .punct⟩ ::
    ([Token.comma].intercalate (cs.map ([·])) ++ [⟨")", .punct⟩])
  effect u := ((cs.map Token.text).filterMap u.position?).foldl (Table.markKeyStep false) u
  element := .primaryKey (cs.map Token.text) false

@[simp] theorem keyElement_text (cs : List Token) :
    (keyElement cs).text = "PRIMARY KEY (" ++ ", ".intercalate (cs.map Token.render) ++ ")" := rfl

@[simp] theorem keyElement_element (cs : List Token) :
    (keyElement cs).element = .primaryKey (cs.map Token.text) false := rfl

/-- Names of the lexer's shape between commas lex as their tokens between commas. -/
theorem lexes_names {cs : List Token} (hcs : ∀ c ∈ cs, c.Lexical) :
    Lexes (", ".intercalate (cs.map Token.render)) ([Token.comma].intercalate (cs.map ([·]))) := by
  refine Lexes.intercalate (by simpa using LexesBefore.comma.append LexesBefore.blank)
    (fun x => by simp [StartsApart, Separates]) ?_
  rw [List.forall₂_map_left_iff, List.forall₂_map_right_iff, List.forall₂_same]
  exact fun c hc => Lexes.token (hcs c hc)

/-- The words that open the key and the foreign key, and the referenced column, are bare words of the
    plain kind. -/
theorem isWord_plain : ∀ w ∈ ["PRIMARY", "CONSTRAINT", "id"], IsWord w.toList ∧ wordKind w = .word := by
  intro w hw
  simp only [List.mem_cons, List.not_mem_nil, or_false] at hw
  rcases hw with rfl | rfl | rfl <;>
    exact ⟨by simp [IsWord, isWordStart, isWordChar], by simp [wordKind, operatorWords, closerWords, sameWord_eq]⟩

theorem keyElement_reads {cs : List Token} (hne : cs ≠ []) (hcs : ∀ c ∈ cs, c.isName = true ∧ c.Lexical) :
    (keyElement cs).Reads where
  lexes := by
    have hhead : LexesBefore "PRIMARY KEY (" [⟨"PRIMARY", .word⟩, ⟨"KEY", .word⟩, ⟨"(", .punct⟩] := by
      have h := (LexesBefore.of_lexes_blank ((Lexes.word (isWord_plain "PRIMARY" (by simp)).1
        (isWord_plain "PRIMARY" (by simp)).2).append (Lexes.keywords [⟨"KEY", .word⟩]
          (by simp [IsWord, isWordStart, isWordChar]) (by decide +kernel)) (StartsApart.blank _))).append
        LexesBefore.openParen
      simpa using h
    have h := hhead.prepend ((lexes_names fun c hc => (hcs c hc).2).append LexesBefore.closeParen.lexes
      (by simp [StartsApart, Separates]))
    simpa [keyElement, String.append_assoc] using h
  ne := List.cons_ne_nil _ _
  reads u rest b r hrest hb := by
    have hkeys := repeatWhile_keyColumn_join u (fun c hc => (hcs c hc).1) hne [] rest
    rw [List.nil_append] at hkeys
    have hts : ∀ t ∈ rest.head?, t.isKeyword "ON" = false := fun t ht => by
      simp [Token.isKeyword, (hrest t ht).kind]
    simp only [keyElement, List.cons_append, List.append_assoc]
    rw [tableElement_of_constraint isKeyword_primary.2.2.2.1,
      bind_of_ok (tableConstraint_primaryKey false (by rw [List.nil_append, hkeys]; rfl) hts), bind_of_ok hb]
    rfl
  declares u els h := by
    have hpos : (cs.map Token.text).filterMap u.position? =
        (cs.map Token.text).filterMap (Table.Element.resolve (Table.Element.columnNames els)) := by
      congr 1
      funext n
      exact Table.position?_eq_resolve h.names n
    simp only [keyElement]
    rw [hpos]
    exact h.primaryKey _ false
  oneDefaultForm u hu := hu.markKeys false _

/-! ### The foreign key -/

section ForeignKey

variable {rest : List Token}

/-- After a table element comes punctuation, which is no keyword. -/
theorem isKeyword_of_punct {t : Token} (ht : t.kind = .punct) (kw : String) : t.isKeyword kw = false := by
  simp [Token.isKeyword, ht]

/-- One `ON DELETE CASCADE` action, and then none before punctuation. -/
theorem foreignKeyAction_cascade :
    foreignKeyAction () (⟨"ON", .word⟩ :: ⟨"DELETE", .word⟩ :: ⟨"CASCADE", .word⟩ :: rest) =
      .ok (((), true), rest) := by
  have hwords : (⟨"ON", .word⟩ : Token).isKeyword "ON" = true ∧
      ["DELETE", "UPDATE"].any (⟨"DELETE", .word⟩ : Token).isKeyword = true ∧
      (⟨"CASCADE", .word⟩ : Token).isKeyword "SET" = false ∧ (⟨"CASCADE", .word⟩ : Token).isKeyword "NO" = false ∧
      ["CASCADE", "RESTRICT"].any (⟨"CASCADE", .word⟩ : Token).isKeyword = true := by
    simp [Token.isKeyword, sameWord_eq]
  obtain ⟨hon, hdelete, hset, hno, hcascade⟩ := hwords
  rw [foreignKeyAction, eatKeyword, bind_of_ok (eatIf_of_true hon _)]
  simp only [↓reduceIte]
  rw [expectOneOf, eatAnyKeyword, bind_assoc, bind_of_ok (eatIf_of_true hdelete _)]
  simp only [↓reduceIte, pure_bind]
  rw [eatKeyword, bind_of_ok (eatIf_of_false fun t ht => by cases ht; exact hset)]
  simp only [Bool.false_eq_true, ↓reduceIte]
  rw [eatKeyword, bind_of_ok (eatIf_of_false fun t ht => by cases ht; exact hno)]
  simp only [Bool.false_eq_true, ↓reduceIte]
  rw [expectOneOf, eatAnyKeyword, bind_assoc, bind_of_ok (eatIf_of_true hcascade _)]
  rfl

theorem foreignKeyAction_none (hrest : ∀ t ∈ rest.head?, t.kind = .punct) :
    foreignKeyAction () rest = .ok (((), false), rest) := by
  rw [foreignKeyAction, eatKeyword, bind_of_ok (eatIf_of_false fun t ht => isKeyword_of_punct (hrest t ht) _)]
  simp only [Bool.false_eq_true, ↓reduceIte]
  rw [eatKeyword, bind_of_ok (eatIf_of_false fun t ht => isKeyword_of_punct (hrest t ht) _)]
  rfl

/-- The clause after `REFERENCES` of a generated foreign key, before punctuation. -/
theorem foreignKeyClause_parent (hrest : ∀ t ∈ rest.head?, t.kind = .punct) :
    foreignKeyClause (⟨"parent", .word⟩ :: ⟨"(", .punct⟩ :: ⟨"id", .word⟩ :: ⟨")", .punct⟩ :: ⟨"ON", .word⟩ ::
      ⟨"DELETE", .word⟩ :: ⟨"CASCADE", .word⟩ :: rest) = .ok ((), rest) := by
  have hloop : repeatWhile foreignKeyAction () (⟨"ON", .word⟩ :: ⟨"DELETE", .word⟩ :: ⟨"CASCADE", .word⟩ :: rest) =
      .ok ((), rest) := by
    rw [repeatWhile_more foreignKeyAction_cascade (by simp only [List.length_cons]; omega),
      repeatWhile_last (foreignKeyAction_none hrest)]
  have hskip : skipBalanced (⟨"(", .punct⟩ :: ⟨"id", .word⟩ :: ⟨")", .punct⟩ :: ⟨"ON", .word⟩ ::
      ⟨"DELETE", .word⟩ :: ⟨"CASCADE", .word⟩ :: rest) =
      .ok ((), ⟨"ON", .word⟩ :: ⟨"DELETE", .word⟩ :: ⟨"CASCADE", .word⟩ :: rest) :=
    skipBalanced_flat (show ∀ t ∈ [(⟨"id", .word⟩ : Token)], t.parenStep = 0 by decide) _
  rw [foreignKeyClause, bind_of_ok (expectName_cons rfl _), peek?_bind]
  simp only [List.head?_cons, Option.any_some, show (⟨"(", .punct⟩ : Token).isPunct '(' = true by decide, ↓reduceIte]
  rw [bind_of_ok hskip, bind_of_ok hloop,
    bind_of_ok (get_apply _)]
  -- what follows is punctuation: neither `NOT DEFERRABLE` nor `DEFERRABLE`
  cases rest with
  | nil => rfl
  | cons t r =>
    -- the reader looks two tokens ahead for `NOT DEFERRABLE`
    cases r <;> simp [eatKeyword, eatIf_bind, isKeyword_of_punct (hrest t rfl)]

/-- The constraint `CONSTRAINT fk FOREIGN KEY (c) REFERENCES parent (id) ON DELETE CASCADE`, before
    punctuation, is read and changes nothing the table keeps. -/
theorem tableConstraint_foreignKey (u : Table) {c : Token} (hk : c.kind ≠ .punct)
    (hrest : ∀ t ∈ rest.head?, t.kind = .punct) :
    tableConstraint u (⟨"CONSTRAINT", .word⟩ :: ⟨"fk", .word⟩ :: ⟨"FOREIGN", .word⟩ :: ⟨"KEY", .word⟩ ::
      ⟨"(", .punct⟩ :: c :: ⟨")", .punct⟩ :: ⟨"REFERENCES", .word⟩ :: ⟨"parent", .word⟩ :: ⟨"(", .punct⟩ ::
      ⟨"id", .word⟩ :: ⟨")", .punct⟩ :: ⟨"ON", .word⟩ :: ⟨"DELETE", .word⟩ :: ⟨"CASCADE", .word⟩ :: rest) =
      .ok (u, rest) := by
  have hwords : (⟨"CONSTRAINT", .word⟩ : Token).isKeyword "CONSTRAINT" = true ∧
      (⟨"FOREIGN", .word⟩ : Token).isKeyword "PRIMARY" = false ∧
      (⟨"FOREIGN", .word⟩ : Token).isKeyword "UNIQUE" = false ∧
      (⟨"FOREIGN", .word⟩ : Token).isKeyword "CHECK" = false ∧
      (⟨"FOREIGN", .word⟩ : Token).isKeyword "FOREIGN" = true ∧ (⟨"KEY", .word⟩ : Token).isKeyword "KEY" = true ∧
      (⟨"REFERENCES", .word⟩ : Token).isKeyword "REFERENCES" = true := by
    simp [Token.isKeyword, sameWord_eq]
  obtain ⟨hcon, hprimary, hunique, hcheck, hforeign, hkey, hrefs⟩ := hwords
  have hskip : skipBalanced (⟨"(", .punct⟩ :: c :: ⟨")", .punct⟩ :: ⟨"REFERENCES", .word⟩ :: ⟨"parent", .word⟩ ::
      ⟨"(", .punct⟩ :: ⟨"id", .word⟩ :: ⟨")", .punct⟩ :: ⟨"ON", .word⟩ :: ⟨"DELETE", .word⟩ :: ⟨"CASCADE", .word⟩ ::
        rest) = .ok ((), ⟨"REFERENCES", .word⟩ :: ⟨"parent", .word⟩ :: ⟨"(", .punct⟩ :: ⟨"id", .word⟩ ::
          ⟨")", .punct⟩ :: ⟨"ON", .word⟩ :: ⟨"DELETE", .word⟩ :: ⟨"CASCADE", .word⟩ :: rest) :=
    skipBalanced_flat (fun t ht => by cases List.mem_singleton.mp ht; exact Token.parenStep_of_kind hk) _
  -- `CONSTRAINT fk`, then no key, no unique and no check, but a foreign key
  rw [tableConstraint, eatKeyword, bind_of_ok (eatIf_of_true hcon _)]
  simp only [↓reduceIte]
  rw [bind_of_ok (expectName_cons rfl _)]
  rw [eatKeyword, bind_of_ok (eatIf_of_false fun t ht => by cases ht; exact hprimary)]
  simp only [Bool.false_eq_true, ↓reduceIte]
  rw [eatKeyword, bind_of_ok (eatIf_of_false fun t ht => by cases ht; exact hunique)]
  simp only [Bool.false_eq_true, ↓reduceIte]
  rw [eatKeyword, bind_of_ok (eatIf_of_false fun t ht => by cases ht; exact hcheck)]
  simp only [Bool.false_eq_true, ↓reduceIte]
  rw [eatKeyword, bind_of_ok (eatIf_of_true hforeign _)]
  simp only [↓reduceIte]
  rw [bind_of_ok (expectKeyword_cons hkey _), bind_of_ok hskip, bind_of_ok (expectKeyword_cons hrefs _),
    bind_of_ok (foreignKeyClause_parent hrest)]
  rfl

end ForeignKey

/-- The foreign key of a generated table over the column `c`: a constraint that changes nothing the
    model keeps. -/
def foreignKeyElement (c : Token) : ElementRead where
  text := "CONSTRAINT fk FOREIGN KEY (" ++ c.render ++ ") REFERENCES parent (id) ON DELETE CASCADE"
  tokens := [⟨"CONSTRAINT", .word⟩, ⟨"fk", .word⟩, ⟨"FOREIGN", .word⟩, ⟨"KEY", .word⟩, ⟨"(", .punct⟩, c,
    ⟨")", .punct⟩, ⟨"REFERENCES", .word⟩, ⟨"parent", .word⟩, ⟨"(", .punct⟩, ⟨"id", .word⟩, ⟨")", .punct⟩,
    ⟨"ON", .word⟩, ⟨"DELETE", .word⟩, ⟨"CASCADE", .word⟩]
  effect := id
  element := .constraint

@[simp] theorem foreignKeyElement_text (c : Token) : (foreignKeyElement c).text =
    "CONSTRAINT fk FOREIGN KEY (" ++ c.render ++ ") REFERENCES parent (id) ON DELETE CASCADE" := by
  dsimp only [foreignKeyElement]

@[simp] theorem foreignKeyElement_element (c : Token) : (foreignKeyElement c).element = .constraint := by
  dsimp only [foreignKeyElement]

theorem foreignKeyElement_reads {c : Token} (hc : c.Lexical) (hk : c.kind ≠ .punct) :
    (foreignKeyElement c).Reads where
  lexes := by
    -- the literal pieces stay apart until the last step, which joins them
    have hcon := (Lexes.word (isWord_plain "CONSTRAINT" (by simp)).1 (isWord_plain "CONSTRAINT" (by simp)).2).append
      (Lexes.keywords [⟨"fk", .word⟩, ⟨"FOREIGN", .word⟩, ⟨"KEY", .word⟩] (by simp [IsWord, isWordStart, isWordChar])
        (by decide +kernel)) (StartsApart.keywords (List.cons_ne_nil _ _))
    have href := (LexesBefore.of_lexes_blank (Lexes.keywords [⟨"REFERENCES", .word⟩, ⟨"parent", .word⟩]
      (by simp [IsWord, isWordStart, isWordChar]) (by decide +kernel))).append LexesBefore.openParen
    have hact := Lexes.keywords [⟨"ON", .word⟩, ⟨"DELETE", .word⟩, ⟨"CASCADE", .word⟩]
      (by simp [IsWord, isWordStart, isWordChar]) (by decide +kernel)
    have hid : Lexes "id" [⟨"id", .word⟩] := Lexes.word (isWord_plain "id" (by simp)).1 (isWord_plain "id" (by simp)).2
    have htail := LexesBefore.closeParen.prepend (href.prepend (hid.append (LexesBefore.closeParen.prepend hact)
      (StartsApart.closeParen _)))
    have h := ((LexesBefore.of_lexes_blank hcon).append LexesBefore.openParen).prepend
      ((Lexes.token hc).append htail (StartsApart.closeParen _))
    dsimp only [foreignKeyElement]
    simpa [String.append_assoc] using h
  ne := List.cons_ne_nil _ _
  reads u rest b r hrest hb := by
    have hopens : tableConstraintWords.any (⟨"CONSTRAINT", .word⟩ : Token).isKeyword = true := by
      simp [Token.isKeyword, tableConstraintWords, sameWord_eq]
    dsimp only [foreignKeyElement]
    simp only [List.cons_append, List.nil_append]
    rw [tableElement_of_constraint hopens,
      bind_of_ok (tableConstraint_foreignKey u hk fun t ht => (hrest t ht).kind), bind_of_ok hb]
    rfl
  declares u els h := h.constraint
  oneDefaultForm u hu := hu

/-! ### Reading a table from its elements -/

/-- The keys of a table's elements all say `AUTOINCREMENT` as `b` does. -/
def Table.Element.SaysAuto (b : Bool) : Table.Element → Prop
  | .column _ keys => ∀ a ∈ keys, a = b
  | .primaryKey _ auto => auto = b
  | .constraint => True

/-- Elements whose key clauses all say `AUTOINCREMENT` as `b` does name the key only so. -/
theorem Table.Element.keyNamingsAfter_saysAuto {b : Bool} {els : List Table.Element}
    (h : ∀ el ∈ els, el.SaysAuto b) (before : List String) : ∀ p ∈ keyNamingsAfter before els, p.2 = b := by
  induction els generalizing before with
  | nil => simp [keyNamingsAfter]
  | cons el els ih =>
    intro p hp
    rw [keyNamingsAfter, List.mem_append] at hp
    rcases hp with hp | hp
    · have hel := h el List.mem_cons_self
      cases el with
      | column n keys =>
        by_cases hk : keys.isEmpty
        · simp [keyNames, hk] at hp
        · simp only [keyNames, hk, Bool.false_eq_true, ↓reduceIte, List.mem_singleton] at hp
          subst hp
          obtain ⟨a, ha⟩ := List.exists_mem_of_ne_nil keys (by simpa using hk)
          -- every key clause of the column says `b`, and it has one
          cases b
          · simpa using fun a ha => hel a ha
          · simpa using hel a ha ▸ ha
      | primaryKey names auto =>
        simp only [keyNames, List.mem_map] at hp
        obtain ⟨i, -, rfl⟩ := hp
        exact hel
      | constraint => simp [keyNames] at hp
    · exact ih (fun el hel => h el (List.mem_cons_of_mem _ hel)) _ p hp

/-- The table that `CREATE TABLE` makes of elements read one after another, after a name. -/
def tableOf (name : String) (es : List ElementRead) (withoutRowid : Bool) : Table :=
  let t := ElementRead.readAll es { name, temporary := false }
  if withoutRowid then { t with hasRowid := false } else t

/-- The tokens of `WITHOUT ROWID`, when a table has it. -/
def rowidTokens (withoutRowid : Bool) : List Token :=
  if withoutRowid then [⟨"WITHOUT", .word⟩, ⟨"ROWID", .word⟩] else []

/-- After `TABLE`: a name, then elements between commas in parentheses and `WITHOUT ROWID` if it is
    there, are read as the table the elements make, when they make one with a column. -/
theorem createTable_elements {tn : Token} (hname : tn.isName = true) (hif : tn.isKeyword "IF" = false)
    {es : List ElementRead} (hes : ∀ e ∈ es, e.Reads) (hne : es ≠ [])
    (hfields : (ElementRead.readAll es { name := tn.text, temporary := false }).fields ≠ []) (w : Bool) :
    createTable false (tn :: ⟨"(", .punct⟩ :: ([Token.comma].intercalate (es.map ElementRead.tokens) ++
      ⟨")", .punct⟩ :: rowidTokens w)) = .ok (tableOf tn.text es w, []) := by
  rw [createTable, bind_of_ok (Statement.ifNotExists_name hif _), bind_of_ok (Statement.qualifiedName_name hname (by simp; rfl)),
    bind_of_ok (expectPunct_cons rfl _), bind_of_ok (ElementRead.repeatWhile_join hes hne _ _),
    bind_of_ok (expectPunct_cons rfl _)]
  have hne' : (ElementRead.readAll es { name := tn.text, temporary := false }).fields.isEmpty = false := by
    simpa using hfields
  cases w
  · simp only [hne', Bool.false_eq_true, ↓reduceIte, rowidTokens]
    rw [eatKeyword, bind_of_ok (show eatIf _ [] = .ok (false, []) from rfl)]
    simp only [Bool.false_eq_true, ↓reduceIte]
    rw [bind_of_ok (pure_apply _ _), bind_of_ok expectEnd_nil, pure_apply]
    rfl
  · simp only [hne', Bool.false_eq_true, ↓reduceIte, rowidTokens]
    rw [eatKeyword, bind_of_ok (eatIf_of_true isKeyword_withoutRowid.1 _)]
    simp only [↓reduceIte]
    rw [bind_of_ok (expectKeyword_cons isKeyword_withoutRowid.2 _), bind_of_ok (pure_apply _ _),
      bind_of_ok expectEnd_nil, pure_apply]
    rfl

/-- A whole `CREATE TABLE` statement over elements is read as the table they make. -/
theorem statement_elements {tn : Token} (hname : tn.isName = true) (hif : tn.isKeyword "IF" = false)
    {es : List ElementRead} (hes : ∀ e ∈ es, e.Reads) (hne : es ≠ [])
    (hfields : (ElementRead.readAll es { name := tn.text, temporary := false }).fields ≠ []) (w : Bool) :
    statement (⟨"CREATE", .word⟩ :: ⟨"TABLE", .word⟩ :: tn :: ⟨"(", .punct⟩ ::
      ([Token.comma].intercalate (es.map ElementRead.tokens) ++ ⟨")", .punct⟩ :: rowidTokens w)) =
      .ok (.table (tableOf tn.text es w), []) := by
  rw [statement, bind_of_ok (expectKeyword_cons isKeyword_opening.1 _)]
  simp only [eatAnyKeyword, eatKeyword, eatIf_bind, List.head?_cons, Option.any_some, isKeyword_opening,
    ↓reduceIte, List.tail_cons, Bool.false_eq_true]
  rw [bind_of_ok (createTable_elements hname hif hes hne hfields w)]
  rfl

/-- The text of a table's head, its elements between commas, the closing parenthesis and `WITHOUT ROWID`
    when it has it, lexes as the tokens the reader takes. -/
theorem lexes_table {tn : Token} (hn : tn.Lexical) {es : List ElementRead} (hes : ∀ e ∈ es, e.Reads) (w : Bool) :
    Lexes ("CREATE TABLE " ++ tn.render ++ " (\n  " ++ ",\n  ".intercalate (es.map ElementRead.text) ++ "\n)" ++
        (if w then " WITHOUT ROWID" else ""))
      (⟨"CREATE", .word⟩ :: ⟨"TABLE", .word⟩ :: tn :: ⟨"(", .punct⟩ ::
        ([Token.comma].intercalate (es.map ElementRead.tokens) ++ ⟨")", .punct⟩ :: rowidTokens w)) := by
  have hcreate := LexesBefore.of_lexes_blank ((Lexes.word (frameWords_word "CREATE" (by simp)).1
    (frameWords_word "CREATE" (by simp)).2).append (Lexes.keywords [⟨"TABLE", .word⟩]
      (by simp [IsWord, isWordStart, isWordChar]) (by decide +kernel)) (StartsApart.keywords (List.cons_ne_nil _ _)))
  have hopen := LexesBefore.blank.append (LexesBefore.openParen.append (LexesBefore.lineBreak.append
    (LexesBefore.blank.append LexesBefore.blank)))
  have hrowid : Lexes (if w then " WITHOUT ROWID" else "") (rowidTokens w) := by
    cases w
    · exact Lexes.empty
    · simpa [rowidTokens] using Lexes.keywords [⟨"WITHOUT", .word⟩, ⟨"ROWID", .word⟩]
        (by simp [IsWord, isWordStart, isWordChar]) (by decide +kernel)
  have hclose := (LexesBefore.lineBreak.append LexesBefore.closeParen).prepend hrowid
  have hbody := (ElementRead.lexes_join hes).append hclose (by rw [String.append_assoc]; exact StartsApart.lineBreak _)
  have h := hcreate.prepend ((Lexes.token hn).append (hopen.prepend hbody)
    (by rw [String.append_assoc]; exact StartsApart.blank _))
  simpa [String.append_assoc] using h

/-! ### Generated tables -/

/-- Values that exist at each place below `n` make a list of length `n`. -/
theorem exists_list_of_forall_lt {α : Type} {P : Nat → α → Prop} (n : Nat) (h : ∀ j < n, ∃ a, P j a) :
    ∃ l : List α, l.length = n ∧ ∀ j (hj : j < l.length), P j l[j] := by
  induction n with
  | zero => exact ⟨[], rfl, fun j hj => absurd hj (Nat.not_lt_zero j)⟩
  | succ n ih =>
    obtain ⟨l, hlen, hl⟩ := ih fun j hj => h j (by omega)
    obtain ⟨a, ha⟩ := h n (by omega)
    refine ⟨l ++ [a], by simp [hlen], fun j hj => ?_⟩
    by_cases hjl : j < l.length
    · rw [List.getElem_append_left hjl]
      exact hl j hjl
    · -- the last place holds the new value
      have hj' : j = n := by simp at hj; omega
      subst hj'
      rw [List.getElem_append_right (by omega)]
      simpa [hlen] using ha

/-- Column elements name their columns, in order. -/
theorem columnNames_columns (l : List (Token × ColumnChoice)) :
    Table.Element.columnNames (l.map fun p => .column p.1.text p.2.key.toList) = l.map (·.1.text) := by
  induction l with
  | nil => rfl
  | cons p l ih => simp [Table.Element.columnNames, ih]

namespace Generate.TableDraw

variable {d : TableDraw}

/-- The columns of a drawn table are written from name tokens, each with its column's number. -/
theorem Drawn.exists_tokens (hd : d.Drawn) :
    ∃ cs : List Token, d.columns = cs.map Name.ofToken ∧ ∀ j (hj : j < cs.length), cs[j] ∈ nameTokens "c" j := by
  obtain ⟨cs, hlen, hcs⟩ := exists_list_of_forall_lt (P := fun j t => t ∈ nameTokens "c" j ∧
      ∀ hj : j < d.columns.length, d.columns[j] = Name.ofToken t) d.columns.length fun j hj => by
    obtain ⟨t, ht, he⟩ := hd.columns j hj
    exact ⟨t, ht, fun _ => he⟩
  refine ⟨cs, List.ext_getElem (by simp [hlen]) fun j h₁ h₂ => ?_, fun j hj => (hcs j hj).1⟩
  rw [List.getElem_map]
  exact (hcs j (by simpa [hlen] using h₁)).2 h₁

/-- The columns of a drawn table, as elements that each add their field. -/
theorem Drawn.exists_columnElements (hd : d.Drawn) {cs : List Token} (hcols : d.columns = cs.map Name.ofToken)
    (hcs : ∀ j (hj : j < cs.length), cs[j] ∈ nameTokens "c" j) :
    ∃ es : List ElementRead, (∀ e ∈ es, e.Reads) ∧
      es.map ElementRead.text = List.zipWith (fun c ch => ch.sql c) d.columns d.choices ∧
      es.map ElementRead.element = (cs.zip d.choices).map fun p => .column p.1.text p.2.key.toList := by
  have hlen : cs.length = d.choices.length := by rw [hd.length_choices, hcols, List.length_map]
  obtain ⟨es, hes_len, hes⟩ := exists_list_of_forall_lt (P := fun j (e : ElementRead) => e.Reads ∧
      ∀ (h₁ : j < cs.length) (h₂ : j < d.choices.length),
        e.text = d.choices[j].sql (Name.ofToken cs[j]) ∧
          e.element = Table.Element.column cs[j].text d.choices[j].key.toList)
    cs.length fun j hj => by
      obtain ⟨f, -, ts, hr⟩ := ColumnChoice.elementRead (hd.choices j (hlen ▸ hj)) (hcs j hj)
      exact ⟨_, hr, fun _ _ => ⟨rfl, rfl⟩⟩
  refine ⟨es, fun e he => ?_, ?_, ?_⟩
  · obtain ⟨j, hj, rfl⟩ := List.getElem_of_mem he
    exact (hes j hj).1
  · refine List.ext_getElem (by simp [hes_len, hcols, hlen]) fun j h₁ h₂ => ?_
    have hj : j < cs.length := by simpa [hes_len] using h₁
    simp only [List.getElem_map, List.getElem_zipWith]
    rw [((hes j (by simpa using h₁)).2 hj (hlen ▸ hj)).1]
    simp [hcols]
  · refine List.ext_getElem (by simp [hes_len, hlen]) fun j h₁ h₂ => ?_
    have hj : j < cs.length := by simpa [hes_len] using h₁
    simp only [List.getElem_map, List.getElem_zip]
    exact ((hes j (by simpa using h₁)).2 hj (hlen ▸ hj)).2

end Generate.TableDraw

/-- A column token of a drawn table is a name of the lexer's shape, no punctuation, with a digit. -/
theorem columnToken_facts {cs : List Token} (hcs : ∀ j (hj : j < cs.length), cs[j] ∈ nameTokens "c" j) :
    ∀ c ∈ cs, c.isName = true ∧ c.Lexical ∧ c.kind ≠ .punct ∧ digits c.text ≠ [] := by
  intro c hc
  obtain ⟨j, hj, rfl⟩ := List.getElem_of_mem hc
  have hn := hcs j hj
  refine ⟨isName_nameTokens hn, lexical_nameTokens nameStem_c hn, ?_, digits_nameTokens_ne nameStem_c hn⟩
  rcases kind_nameTokens hn with h | h | h | h <;> simp [h]

/-- Columns written from name tokens with different numbers have names that differ up to case. -/
theorem distinctNames_tokens {cs : List Token} (hcs : ∀ j (hj : j < cs.length), cs[j] ∈ nameTokens "c" j) :
    Table.DistinctNames (cs.map Token.text) := by
  intro i j hi hj h
  simp only [List.getElem_map] at h
  exact sameWord_nameTokens nameStem_c.digits nameStem_c.digits (hcs i (by simpa using hi)) (hcs j (by simpa using hj)) h

/-- The table elements make is declared by them, with or without `WITHOUT ROWID`. -/
theorem tableOf_declared {name : String} {es : List ElementRead} {els : List Table.Element}
    (h : (ElementRead.readAll es { name, temporary := false }).Declared els) (w : Bool) :
    (tableOf name es w).Declared els := by
  unfold tableOf
  split
  · exact h.withoutRowid
  · exact h

/-- The table elements make has one form for each default when each element keeps that. -/
theorem tableOf_oneDefaultForm {name : String} {es : List ElementRead} (hes : ∀ e ∈ es, e.Reads) (w : Bool) :
    (tableOf name es w).OneDefaultForm := by
  have hone := ElementRead.oneDefaultForm_readAll hes (u := { name, temporary := false }) (fun f hf => by cases hf)
  unfold tableOf
  split
  · exact hone
  · exact hone

namespace Generate.TableDraw

variable {d : TableDraw} {cs : List Token}

/-- The key of a drawn table in the third style, over its last `keyCount` column tokens in reverse. -/
def keyElements (d : TableDraw) (cs : List Token) : List ElementRead :=
  if d.keyStyle = 2 then [keyElement (cs.reverse.take d.keyCount)] else []

/-- The foreign key of a drawn table, when it has one, over its first column token. -/
def foreignKeyElements (d : TableDraw) (cs : List Token) : List ElementRead :=
  if d.foreignKey then [foreignKeyElement (cs.headD default)] else []

theorem Drawn.keyElements_reads (hd : d.Drawn) (hcs : ∀ j (hj : j < cs.length), cs[j] ∈ nameTokens "c" j)
    (hne : cs ≠ []) : ∀ e ∈ d.keyElements cs, e.Reads := by
  intro e he
  by_cases h2 : d.keyStyle = 2
  · simp only [keyElements, h2, ↓reduceIte, List.mem_singleton] at he
    subst he
    refine keyElement_reads ?_ fun c hc => ?_
    · simpa [List.take_eq_nil_iff, hne] using Nat.one_le_iff_ne_zero.mp (hd.keyCount h2)
    · have hc := columnToken_facts hcs c (List.mem_reverse.mp (List.mem_of_mem_take hc))
      exact ⟨hc.1, hc.2.1⟩
  · simp [keyElements, h2] at he

theorem foreignKeyElements_reads (hcs : ∀ j (hj : j < cs.length), cs[j] ∈ nameTokens "c" j) (hne : cs ≠ []) :
    ∀ e ∈ d.foreignKeyElements cs, e.Reads := by
  intro e he
  by_cases hf : d.foreignKey
  · simp only [foreignKeyElements, hf, ↓reduceIte, List.mem_singleton] at he
    subst he
    obtain ⟨c, cs', rfl⟩ := List.exists_cons_of_ne_nil hne
    have hc := columnToken_facts hcs c List.mem_cons_self
    exact foreignKeyElement_reads hc.2.1 hc.2.2.1
  · simp [foreignKeyElements, hf] at he

/-- The key and the foreign key name no column. -/
theorem columnNames_keyElements :
    Table.Element.columnNames ((d.keyElements cs ++ d.foreignKeyElements cs).map ElementRead.element) = [] := by
  by_cases h2 : d.keyStyle = 2 <;> by_cases hf : d.foreignKey <;>
    simp [keyElements, foreignKeyElements, h2, hf, Table.Element.columnNames]

/-- A drawn column's inline key says `AUTOINCREMENT` exactly when the table's first column does. -/
theorem Drawn.key_saysAuto (hd : d.Drawn) {ch : ColumnChoice} (hch : ch ∈ d.choices) : ∀ a ∈ ch.key, a = d.auto := by
  obtain ⟨j, hj, rfl⟩ := List.getElem_of_mem hch
  intro a ha
  rw [(hd.choices j hj).key] at ha
  split at ha
  · exact (Option.mem_some_iff.mp ha).symm
  · simp at ha

/-- The key in the third style says no `AUTOINCREMENT`, and neither does the table. -/
theorem Drawn.keyElements_saysAuto (hd : d.Drawn) :
    ∀ el ∈ (d.keyElements cs ++ d.foreignKeyElements cs).map ElementRead.element, el.SaysAuto d.auto := by
  intro el hel
  rw [List.map_append, List.mem_append] at hel
  rcases hel with hel | hel
  · -- the key constraint stands only in the third style, where the table has no `AUTOINCREMENT`
    by_cases h2 : d.keyStyle = 2
    · simp only [keyElements, h2, ↓reduceIte, List.map_singleton, keyElement_element, List.mem_singleton] at hel
      subst hel
      exact (Bool.eq_false_iff.mpr fun hauto => absurd (hd.auto hauto) (by omega)).symm
    · simp [keyElements, h2] at hel
  · -- the foreign key has no key clause
    by_cases hf : d.foreignKey
    · simp only [foreignKeyElements, hf, ↓reduceIte, List.map_singleton, foreignKeyElement_element,
        List.mem_singleton] at hel
      subst hel
      trivial
    · simp [foreignKeyElements, hf] at hel

/-- The text of a drawn table's elements: its columns', then its key's and its foreign key's. -/
theorem elements_eq (hcols : d.columns = cs.map Name.ofToken) (hne : cs ≠ []) {ces : List ElementRead}
    (htexts : ces.map ElementRead.text = List.zipWith (fun c ch => ch.sql c) d.columns d.choices) :
    d.elements = (ces ++ d.keyElements cs ++ d.foreignKeyElements cs).map ElementRead.text := by
  unfold TableDraw.elements
  simp only [List.map_append, htexts]
  congr 1
  · congr 1
    by_cases h2 : d.keyStyle = 2
    · simp [keyElements, h2, hcols, List.map_reverse, Function.comp_def]
    · simp [keyElements, h2]
  · by_cases hf : d.foreignKey
    · obtain ⟨c, cs', rfl⟩ := List.exists_cons_of_ne_nil hne
      simp [foreignKeyElements, hf, hcols, Name.ofToken]
    · simp [foreignKeyElements, hf]

/-- The statement of a drawn table is read as a table whose defaults have one form each and whose key
    is already resolved by name. -/
theorem Drawn.parse_sql (hd : d.Drawn) :
    ∃ t : SqlSchema.Table, Statement.parse d.sql = .ok (.table t) ∧ t.OneDefaultForm ∧ t.KeyResolved := by
  obtain ⟨tn, htn, hname⟩ := hd.name
  obtain ⟨cs, hcols, hcs⟩ := hd.exists_tokens
  obtain ⟨ces, hces, htexts, helements⟩ := hd.exists_columnElements hcols hcs
  have hcs_ne : cs ≠ [] := by
    rintro rfl
    exact hd.columns_ne (by simpa using hcols)
  -- the elements: the columns, the key in the third style, the foreign key
  let es := ces ++ d.keyElements cs ++ d.foreignKeyElements cs
  have hes : ∀ e ∈ es, e.Reads := by
    intro e he
    simp only [es, List.mem_append] at he
    rcases he with (he | he) | he
    · exact hces e he
    · exact hd.keyElements_reads hcs hcs_ne e he
    · exact foreignKeyElements_reads hcs hcs_ne e he
  have hel : es.map ElementRead.element = (cs.zip d.choices).map (fun p => .column p.1.text p.2.key.toList) ++
      (d.keyElements cs ++ d.foreignKeyElements cs).map ElementRead.element := by
    simp [es, helements]
  have hnames : Table.Element.columnNames (es.map ElementRead.element) = cs.map Token.text := by
    have hlen : cs.length ≤ d.choices.length := by rw [hd.length_choices, hcols, List.length_map]
    rw [hel, Table.Element.columnNames_append, columnNames_columns, columnNames_keyElements, List.append_nil,
      show (fun p : Token × ColumnChoice => p.1.text) = Token.text ∘ Prod.fst from rfl, ← List.map_map,
      List.map_fst_zip hlen]
  -- every key clause says the table's `AUTOINCREMENT`: the inline keys and the key constraint alike
  have hsays : ∀ el ∈ es.map ElementRead.element, el.SaysAuto d.auto := by
    rw [hel]
    intro el hmem
    rcases List.mem_append.mp hmem with hmem | hmem
    · obtain ⟨p, hp, rfl⟩ := List.mem_map.mp hmem
      exact fun a ha => hd.key_saysAuto (List.of_mem_zip hp).2 a (Option.mem_toList.mp ha)
    · exact hd.keyElements_saysAuto el hmem
  have hdecl : (ElementRead.readAll es { name := tn.text, temporary := false }).Declared (es.map ElementRead.element) := by
    simpa using ElementRead.declared_readAll hes (Table.declared_nil tn.text false)
  have hfields : (ElementRead.readAll es { name := tn.text, temporary := false }).fields ≠ [] := by
    intro h
    have hlen := hdecl.length_fields
    rw [h, hnames, List.length_nil, List.length_map] at hlen
    exact hcs_ne (List.eq_nil_of_length_eq_zero hlen.symm)
  have hne : es ≠ [] := fun h => hfields (by rw [h]; rfl)
  have hsql : d.sql = "CREATE TABLE " ++ tn.render ++ " (\n  " ++ ",\n  ".intercalate (es.map ElementRead.text) ++
      "\n)" ++ (if d.withoutRowid then " WITHOUT ROWID" else "") := by
    unfold TableDraw.sql
    rw [hname, elements_eq hcols hcs_ne htexts]
    rfl
  have hif : tn.isKeyword "IF" = false := isKeyword_of_digits (digits_nameTokens_ne nameStem_t htn) (by simp [digits])
  refine ⟨tableOf tn.text es d.withoutRowid, ?_, tableOf_oneDefaultForm hes _, ?_⟩
  · rw [Statement.parse, hsql, (lexes_table (lexical_nameTokens nameStem_t htn) hes d.withoutRowid).tokenize_eq]
    show (statement _).map Prod.fst = _
    rw [statement_elements (isName_nameTokens htn) hif hes hne hfields]
    rfl
  · exact (tableOf_declared hdecl _).keyResolved (hnames ▸ distinctNames_tokens hcs)
      (Table.Element.keyNamingsAfter_saysAuto hsays [])

end Generate.TableDraw

/-! ### Generated indexes -/

section Indexes

variable {c : Token}

/-- A column token is a name of the lexer's shape that can stand as an operand. -/
theorem Generate.ColumnToken.facts (hc : ColumnToken c) :
    c.isName = true ∧ c.Lexical ∧ (c.kind = .word ∨ c.kind = .quoted ∨ c.kind = .bracketed ∨ c.kind = .backquoted) := by
  obtain ⟨j, hj⟩ := hc
  exact ⟨isName_nameTokens hj, lexical_nameTokens nameStem_c hj, kind_nameTokens hj⟩

/-- The tokens of the trees drawn over a column token `c`: `c`, a string, or one of the fixed words and
    signs, each of the lexer's shape. -/
theorem lexical_drawnToken (hlex : c.Lexical) {t : Token} (ht : t = c ∨ t.kind = .string ∨
    t ∈ [(⟨"DESC", .closer⟩ : Token), ⟨"COLLATE", .operator⟩, ⟨"NOCASE", .word⟩, ⟨"ASC", .closer⟩,
      ⟨"lower", .word⟩, ⟨"(", .punct⟩, ⟨")", .punct⟩, ⟨"+", .operator⟩, ⟨"1", .numeric⟩, ⟨"NOTNULL", .closer⟩,
      ⟨"AND", .operator⟩, ⟨"<>", .operator⟩]) : t.Lexical := by
  rcases ht with rfl | hs | ht
  · exact hlex
  · simp [Token.Lexical, hs]
  · simp only [List.mem_cons, List.not_mem_nil, or_false] at ht
    rcases ht with rfl | rfl | rfl | rfl | rfl | rfl | rfl | rfl | rfl | rfl | rfl | rfl <;>
      exact Token.lexical_of_tokens (by decide +kernel)

/-- Every tree an indexed column is drawn as is read back from its text. -/
theorem readable_indexTrees (hc : ColumnToken c) (literal : String) : ∀ e ∈ indexTrees c literal, e.Readable := by
  obtain ⟨-, hlex, hk⟩ := ColumnToken.facts hc
  have htrees : ∀ e, e ∈ indexTrees c literal → e = .leaf c ∨ e = .closing (.leaf c) ⟨"DESC", .closer⟩ ∨
      e = .closing (.binary (.leaf c) ⟨"COLLATE", .operator⟩ (.leaf ⟨"NOCASE", .word⟩)) ⟨"ASC", .closer⟩ ∨
      e = .call ⟨"lower", .word⟩ (.leaf c) ∨ e = .binary (.leaf c) ⟨"+", .operator⟩ (.leaf ⟨"1", .numeric⟩) ∨
      e = .leaf ⟨literal, .string⟩ := by
    simp [indexTrees]
  intro e he
  refine ⟨?_, fun t ht => lexical_drawnToken hlex ?_⟩
  -- the grammar of each tree, whatever the kind of the column's name
  · rcases htrees e he with rfl | rfl | rfl | rfl | rfl | rfl <;> rcases hk with h | h | h | h <;>
      simp [Expr.Chain, Expr.Operand, Expr.EndsBefore, Expr.height, Expr.lastToken?, Expr.Limits.standard,
        Expr.Limits.allowsDepth, Expr.Limits.allowsHeight, TokenKind.isOperand, TokenKind.isIdentifier, h,
        Token.isPunct]
  -- each token of each tree: the column's, the string, or a fixed one
  · rcases htrees e he with rfl | rfl | rfl | rfl | rfl | rfl <;>
      simp [Expr.tokens, Token.juxtaposition] at ht <;> rcases ht with rfl | rfl | rfl | rfl <;> simp

/-- The predicate of a drawn index is read back from its text, and nothing need follow it. -/
theorem readable_whereTree (hc : ColumnToken c) : (whereTree c).Readable ∧ Expr.EndsBefore (whereTree c) none := by
  obtain ⟨-, hlex, hk⟩ := ColumnToken.facts hc
  refine ⟨⟨?_, fun t ht => lexical_drawnToken hlex ?_⟩, fun t ht => ?_⟩
  · rcases hk with h | h | h | h <;>
      simp [whereTree, Expr.Chain, Expr.Operand, Expr.EndsBefore, Expr.height, Expr.lastToken?,
        Expr.Limits.standard, Expr.Limits.allowsDepth, Expr.Limits.allowsHeight, TokenKind.isOperand,
        TokenKind.isIdentifier, h, Token.isPunct]
  · simp [whereTree, Expr.tokens, Token.juxtaposition] at ht
    rcases ht with rfl | rfl | rfl | rfl | rfl | rfl <;> simp
  · simp [whereTree, Expr.lastToken?] at ht
    subst ht
    simp

/-- An indexed column before a comma or the closing parenthesis is read as its tree, and the round asks
    for another exactly when a comma follows. -/
theorem indexedColumn_round {e : Expr} (he : e.Readable) {next : Token} (hnext : next = Token.comma ∨ next = ⟨")", .punct⟩)
    (cols : List Expr) {rest r : List Token} {b : Bool} (hb : eatPunct ',' (next :: rest) = .ok (b, r)) :
    indexedColumn cols (e.tokens ++ next :: rest) = .ok ((cols ++ [e], b), r) := by
  have hend : Expr.EndsBefore e (some next) := by
    rcases hnext with rfl | rfl
    · exact Expr.EndsBefore.comma e
    · exact Expr.EndsBefore.closeParen e
  have hstop : Expr.Stops [] false (some next) := by
    rcases hnext with rfl | rfl
    · exact .inl ⟨by decide, rfl⟩
    · exact Expr.Stops.closeParen
  rw [indexedColumn, bind_of_ok (@Cursor.expression_tokens e he.1 (next :: rest) hend hstop _), bind_of_ok hb]
  rfl

/-- The column loop of an index reads trees between commas, up to the closing parenthesis. -/
theorem repeatWhile_indexedColumn {es : List Expr} (hes : ∀ e ∈ es, e.Readable) (hne : es ≠ []) (cols : List Expr)
    (rest : List Token) :
    repeatWhile indexedColumn cols ([Token.comma].intercalate (es.map Expr.tokens) ++ ⟨")", .punct⟩ :: rest) =
      .ok (cols ++ es, ⟨")", .punct⟩ :: rest) := by
  induction es generalizing cols with
  | nil => exact absurd rfl hne
  | cons e es ih =>
    have he := hes e List.mem_cons_self
    cases es with
    | nil =>
      -- the last column, before the closing parenthesis
      rw [List.map_singleton, List.intercalate_singleton]
      exact repeatWhile_last (indexedColumn_round he (.inr rfl) cols (eatIf_of_false fun t ht => by cases ht; rfl))
    | cons e' es =>
      -- a column and its comma, then the others
      have hsplit : [Token.comma].intercalate ((e :: e' :: es).map Expr.tokens) =
          e.tokens ++ Token.comma :: [Token.comma].intercalate ((e' :: es).map Expr.tokens) := by
        simp [List.intercalate_cons_cons]
      rw [hsplit, List.append_assoc, List.cons_append,
        repeatWhile_more (indexedColumn_round he (.inl rfl) cols (eatIf_of_true rfl _))
          (by simp only [List.length_append, List.length_cons]; omega),
        ih (fun e he' => hes e (List.mem_cons_of_mem _ he')) (List.cons_ne_nil _ _)]
      simp

/-- `IF NOT EXISTS` is read and passed over. -/
theorem ifNotExists_present (r : List Token) :
    ifNotExists (⟨"IF", .word⟩ :: ⟨"NOT", .operator⟩ :: ⟨"EXISTS", .operator⟩ :: r) = .ok ((), r) := by
  have hwords : (⟨"IF", .word⟩ : Token).isKeyword "IF" = true ∧ (⟨"NOT", .operator⟩ : Token).isKeyword "NOT" = true ∧
      (⟨"EXISTS", .operator⟩ : Token).isKeyword "EXISTS" = true := by
    simp [Token.isKeyword, sameWord_eq]
  rw [ifNotExists, eatKeyword, bind_of_ok (eatIf_of_true hwords.1 _)]
  simp only [↓reduceIte]
  rw [bind_of_ok (expectKeyword_cons hwords.2.1 _), expectKeyword_cons hwords.2.2]

end Indexes

namespace Generate.IndexDraw

variable {d : IndexDraw}

/-- The name of a drawn index, `ix` and its position, as a word. -/
def nameToken (d : IndexDraw) : Token :=
  ⟨"ix" ++ toString d.position, .word⟩

/-- `WHERE` and the tokens of the predicate, when a drawn index has one. -/
def whereTokens (d : IndexDraw) : List Token :=
  d.predicate.elim [] fun c => ⟨"WHERE", .word⟩ :: (whereTree c).tokens

/-- The tokens of a drawn index's statement after `INDEX`. -/
def bodyTokens (d : IndexDraw) : List Token :=
  ⟨"IF", .word⟩ :: ⟨"NOT", .operator⟩ :: ⟨"EXISTS", .operator⟩ :: d.nameToken :: ⟨"ON", .word⟩ :: ⟨d.table, .quoted⟩ ::
    ⟨"(", .punct⟩ :: ([Token.comma].intercalate (d.columns.map Expr.tokens) ++ ⟨")", .punct⟩ :: d.whereTokens)

/-- The index the statement of a drawn index is read as. -/
def index (d : IndexDraw) : Index :=
  { name := d.nameToken.text, table := d.table, unique := d.unique, columns := d.columns,
    predicate := d.predicate.map whereTree }

theorem nameToken_lexical (d : IndexDraw) : d.nameToken.Lexical := by
  have hdigits : digits ("ix" ++ toString d.position) ≠ [] := by
    rw [digits_append, digits_toString]
    simp [Nat.toDigits_ne_nil]
  exact ⟨isWord_append_toString (by simp [IsWord, isWordStart, isWordChar]) _, wordKind_of_digits hdigits⟩

theorem Drawn.readable (hd : d.Drawn ColumnToken) : ∀ e ∈ d.columns, e.Readable := by
  intro e he
  obtain ⟨c, hc, literal, hmem⟩ := hd.columns e he
  exact readable_indexTrees hc literal e hmem

/-- The text of a drawn index with its predicate written out as an `Option.elim`. -/
theorem sql_eq (d : IndexDraw) : d.sql = "CREATE " ++ (if d.unique then "UNIQUE " else "") ++ "INDEX IF NOT EXISTS " ++
    d.nameToken.render ++ " ON " ++ quoteIdentifier d.table ++ " (" ++ ", ".intercalate (d.columns.map Expr.render) ++
    ")" ++ d.predicate.elim "" fun c => " WHERE " ++ (whereTree c).render := by
  have hsplit : ∀ x, "INDEX IF NOT EXISTS ix" ++ x = "INDEX IF NOT EXISTS " ++ ("ix" ++ x) := fun x => by
    rw [← String.append_assoc]
    rfl
  obtain ⟨unique, position, table, columns, _ | c⟩ := d <;>
    simp [IndexDraw.sql, nameToken, Token.render, String.append_assoc, hsplit]

/-- The text of a drawn index lexes as its opening words and the tokens after `INDEX`. -/
theorem Drawn.lexes_sql (hd : d.Drawn ColumnToken) :
    Lexes d.sql (⟨"CREATE", .word⟩ :: ((if d.unique then [⟨"UNIQUE", .word⟩] else []) ++ ⟨"INDEX", .word⟩ ::
      d.bodyTokens)) := by
  have hword : ∀ w ∈ ["CREATE", "UNIQUE", "INDEX"], IsWord w.toList ∧ wordKind w = .word := by
    simp only [List.mem_cons, List.not_mem_nil, or_false]
    rintro w (rfl | rfl | rfl) <;> exact frameWords_word _ (by simp)
  have hcreate : LexesBefore "CREATE " [⟨"CREATE", .word⟩] := by
    simpa using LexesBefore.of_lexes_blank (Lexes.word (hword "CREATE" (by simp)).1 (hword "CREATE" (by simp)).2)
  have hunique : LexesBefore (if d.unique then "UNIQUE " else "") (if d.unique then [⟨"UNIQUE", .word⟩] else []) := by
    cases d.unique
    · exact fun s => by simp
    · exact LexesBefore.of_lexes_blank (Lexes.word (hword "UNIQUE" (by simp)).1 (hword "UNIQUE" (by simp)).2)
  have hindex : LexesBefore "INDEX IF NOT EXISTS "
      [⟨"INDEX", .word⟩, ⟨"IF", .word⟩, ⟨"NOT", .operator⟩, ⟨"EXISTS", .operator⟩] := by
    simpa using LexesBefore.of_lexes_blank ((Lexes.word (hword "INDEX" (by simp)).1 (hword "INDEX" (by simp)).2).append
      (Lexes.keywords [⟨"IF", .word⟩, ⟨"NOT", .operator⟩, ⟨"EXISTS", .operator⟩]
        (by simp [IsWord, isWordStart, isWordChar]) (by decide +kernel)) (StartsApart.keywords (List.cons_ne_nil _ _)))
  have hname : LexesBefore (d.nameToken.render ++ " ON ") [d.nameToken, ⟨"ON", .word⟩] := by
    simpa [String.append_assoc] using LexesBefore.of_lexes_blank ((Lexes.token d.nameToken_lexical).append
      (Lexes.keywords [⟨"ON", .word⟩] (by simp [IsWord, isWordStart, isWordChar]) (by decide +kernel))
      (StartsApart.keywords (List.cons_ne_nil _ _)))
  have htable : Lexes (quoteIdentifier d.table) [⟨d.table, .quoted⟩] := Lexes.token (t := ⟨d.table, .quoted⟩) trivial
  have hopen : LexesBefore " (" [⟨"(", .punct⟩] := by
    simpa using LexesBefore.blank.append LexesBefore.openParen
  -- the columns between commas, each a tree of the grammar
  have hcols : Lexes (", ".intercalate (d.columns.map Expr.render)) ([Token.comma].intercalate (d.columns.map Expr.tokens)) := by
    refine Lexes.intercalate (by simpa using LexesBefore.comma.append LexesBefore.blank)
      (fun x => by simp [StartsApart, Separates]) ?_
    rw [List.forall₂_map_left_iff, List.forall₂_map_right_iff, List.forall₂_same]
    exact fun e he => Lexes.tree (hd.readable e he).1 (hd.readable e he).2
  have hwhere : Lexes (d.predicate.elim "" fun c => " WHERE " ++ (whereTree c).render) d.whereTokens := by
    unfold whereTokens
    cases hp : d.predicate with
    | none => exact Lexes.empty
    | some c =>
      have hc := readable_whereTree (hd.predicate c hp)
      have hsplit : " WHERE " ++ (whereTree c).render = " " ++ ("WHERE" ++ " " ++ (whereTree c).render) := by
        rw [← String.append_assoc, ← String.append_assoc]
        rfl
      rw [Option.elim_some, hsplit]
      exact Lexes.blank ((LexesBefore.of_lexes_blank
        (Lexes.word (frameWords_word "WHERE" (by simp)).1 (frameWords_word "WHERE" (by simp)).2)).prepend
          (Lexes.tree hc.1.1 hc.1.2))
  have h := hcreate.prepend (hunique.prepend (hindex.prepend (hname.prepend (htable.append
    (hopen.prepend (hcols.append (LexesBefore.closeParen.prepend hwhere) (StartsApart.closeParen _)))
    (by simp [StartsApart, Separates, isBlank])))))
  rw [sql_eq]
  simpa [bodyTokens, String.append_assoc] using h

/-- The tokens of a drawn index after `INDEX` are read as its index. -/
theorem Drawn.createIndex_bodyTokens (hd : d.Drawn ColumnToken) : createIndex d.unique d.bodyTokens = .ok (d.index, []) := by
  have hon : (⟨"ON", .word⟩ : Token).isKeyword "ON" = true := by
    simp [Token.isKeyword, sameWord_eq]
  rw [createIndex, bodyTokens, bind_of_ok (ifNotExists_present _),
    bind_of_ok (Statement.qualifiedName_name rfl fun t ht => by cases ht; rfl), bind_of_ok (expectKeyword_cons hon _),
    bind_of_ok (expectName_cons rfl _), bind_of_ok (expectPunct_cons rfl _),
    bind_of_ok (repeatWhile_indexedColumn hd.readable hd.columns_ne [] _), bind_of_ok (expectPunct_cons rfl _)]
  cases hp : d.predicate with
  | none => simp [whereTokens, hp, index, eatKeyword, eatIf_bind, map_of_ok expectEnd_nil]
  | some c =>
    -- `WHERE` and the predicate's tree, which ends the text
    have hc := readable_whereTree (hd.predicate c hp)
    have hexpr : expression [] "WHERE clause" ((whereTree c).tokens ++ []) = .ok (whereTree c, []) :=
      @Cursor.expression_tokens _ hc.1.1 [] hc.2 trivial _
    rw [List.append_nil] at hexpr
    have hwhere : (⟨"WHERE", .word⟩ : Token).isKeyword "WHERE" = true := by
      simp [Token.isKeyword, sameWord_eq]
    simp [whereTokens, hp, index, eatKeyword, eatIf_bind, hwhere, bind_of_ok hexpr, map_of_ok expectEnd_nil]

/-- The statement of a drawn index is read as its index. -/
theorem Drawn.parse_sql (hd : d.Drawn ColumnToken) : Statement.parse d.sql = .ok (.index d.index) := by
  rw [Statement.parse, hd.lexes_sql.tokenize_eq]
  show (statement _).map Prod.fst = _
  rw [statement, bind_of_ok (expectKeyword_cons isKeyword_opening.1 _)]
  cases hu : d.unique
  · simp only [Bool.false_eq_true, ↓reduceIte, List.nil_append, eatAnyKeyword, eatKeyword, eatIf_bind,
      List.head?_cons, Option.any_some, isKeyword_opening, List.tail_cons]
    rw [bind_of_ok (hu ▸ hd.createIndex_bodyTokens)]
    rfl
  · simp only [↓reduceIte, List.cons_append, List.nil_append, eatAnyKeyword, eatKeyword, eatIf_bind,
      List.head?_cons, Option.any_some, isKeyword_opening, List.tail_cons, Bool.false_eq_true]
    rw [bind_of_ok (expectKeyword_cons isKeyword_opening.2.2.2.2.2.2.2.2.2.2 _),
      bind_of_ok (hu ▸ hd.createIndex_bodyTokens)]
    rfl

end Generate.IndexDraw

/-! ### The round trip of generated schemas -/

namespace Check

/-- The round-trip check passes on a text, giving its statement back, exactly when the text reads as a
    statement whose own text reads back as itself. -/
theorem assertRoundTrip_eq_ok {sql : String} {s : Statement} :
    assertRoundTrip sql = .ok s ↔ Statement.parse sql = .ok s ∧ Statement.parse s.toSql = .ok s := by
  constructor
  · intro h
    unfold assertRoundTrip at h
    cases hp : Statement.parse sql with
    | error e => simp [hp, Except.mapError, bind, Except.bind] at h
    | ok s₁ =>
      cases hq : Statement.parse s₁.toSql with
      | error e => simp [hp, hq, Except.mapError, bind, Except.bind] at h
      | ok s₂ =>
        -- the check compares the two readings first
        by_cases h12 : s₁ = s₂
        · subst h12
          simp [hp, hq, Except.mapError, bind, Except.bind, expectEqual, pure, Except.pure] at h
          subst h
          exact ⟨rfl, hq⟩
        · simp [hp, hq, Except.mapError, bind, Except.bind, expectEqual, h12] at h
  · rintro ⟨hp, hq⟩
    simp [assertRoundTrip, hp, hq, Except.mapError, bind, Except.bind, expectEqual, pure, Except.pure]

end Check

/-- A statement read from text, with one form for each default and its key resolved by name, is read
    back from its own text as itself. -/
theorem Statement.parse_toSql_of_read {sql : String} {s : Statement} (hp : Statement.parse sql = .ok s)
    (hone : s.OneDefaultForm) (hkey : s.KeyResolved) : Statement.parse s.toSql = .ok s := by
  obtain ⟨hread, hresolved⟩ := Statement.parse_toSql_reachable (.parse hp) hone
  rwa [hresolved hkey] at hread

namespace Generate

variable {src : Source}

/-- Each statement of a generated schema is read as a statement with one form for each default and
    its key resolved by name: the table's by its elements, an index's as the index drawn. -/
theorem Schema.statements_read (hsrc : src.Lawful) (st : src.State) :
    ∀ sql ∈ ((schema src).run st).1.statements,
      ∃ s, Statement.parse sql = .ok s ∧ s.OneDefaultForm ∧ s.KeyResolved := by
  obtain ⟨d, hd, htable, ixs, hixs, hindexes⟩ := schema_yields hsrc st
  intro sql hsql
  rw [Schema.statements, htable, hindexes] at hsql
  rcases List.mem_cons.mp hsql with rfl | hsql
  · obtain ⟨t, hparse, hone, hkey⟩ := hd.parse_sql
    exact ⟨.table t, hparse, hone, hkey⟩
  · obtain ⟨i, hi, rfl⟩ := List.mem_map.mp hsql
    exact ⟨.index i.index, (hixs i hi).1.parse_sql, trivial, trivial⟩

/-- Whatever a lawful source gives, every statement of the schema generated from it is read, its text
    reads back as the same statement, and the round-trip check passes on it. -/
theorem schema_statements_roundTrip (hsrc : src.Lawful) (st : src.State) :
    ∀ sql ∈ ((schema src).run st).1.statements,
      ∃ s, Statement.parse sql = .ok s ∧ Statement.parse s.toSql = .ok s ∧ Check.assertRoundTrip sql = .ok s := by
  intro sql hsql
  obtain ⟨s, hparse, hone, hkey⟩ := Schema.statements_read hsrc st sql hsql
  have hback := Statement.parse_toSql_of_read hparse hone hkey
  exact ⟨s, hparse, hback, Check.assertRoundTrip_eq_ok.mpr ⟨hparse, hback⟩⟩

/-- The schema drawn from the bytes `2a 07 ff 10`, by the lawful byte source, round-trips. -/
theorem Schema.ofBytes_statements_roundTrip : Draw.source.Lawful ∧
    ∀ sql ∈ (Schema.ofBytes [0x2a, 0x07, 0xff, 0x10]).statements,
      ∃ s, Statement.parse sql = .ok s ∧ Statement.parse s.toSql = .ok s ∧ Check.assertRoundTrip sql = .ok s :=
  ⟨Draw.source_lawful, schema_statements_roundTrip Draw.source_lawful [0x2a, 0x07, 0xff, 0x10]⟩

end Generate

end SqlSchema
