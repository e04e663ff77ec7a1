import Mathlib
import SqlSchema.Generate.Draw
import SqlSchema.Expr.Printer

/-! # What the schema generator draws

The generator makes every choice by drawing from a source. `Source.Yields x P` says that whatever
the source's state, the value that `x` draws satisfies `P`; its rules follow the generator's `do`
blocks. Of the draws only their ranges matter, and a source is lawful when an integer drawn from
`[lo, hi]` lies in it (`Source.Lawful`); then a value chosen from a list is one of its values. From
these, each text the generator writes is described by the choices behind it: a column by a
`ColumnChoice`, a table by a `TableDraw`, an index by an `IndexDraw`, and a whole schema by
`schema_yields`. The source that draws from bytes is lawful (`Draw.source_lawful`). -/

namespace SqlSchema.Generate

variable {α β : Type} {src : Source}

/-- Every value `x` draws satisfies `P`, whatever the state it draws from. -/
def Source.Yields (x : StateM src.State α) (P : α → Prop) : Prop :=
  ∀ st, P (x.run st).1

/-- A source whose integers drawn from a range lie in it. -/
structure Source.Lawful (src : Source) : Prop where
  intIn_mem : ∀ lo hi width, lo ≤ hi → Source.Yields (src.intIn lo hi width) fun n => lo ≤ n ∧ n ≤ hi

namespace Source.Yields

variable {P : α → Prop} {Q : β → Prop}

theorem pure {a : α} (h : P a) : Yields (pure a : StateM src.State α) P :=
  fun _ => h

theorem bind {x : StateM src.State α} {f : α → StateM src.State β} (hx : Yields x P)
    (hf : ∀ a, P a → Yields (f a) Q) : Yields (x >>= f) Q :=
  fun st => hf _ (hx st) (x.run st).2

theorem mono {x : StateM src.State α} {P' : α → Prop} (h : Yields x P) (hp : ∀ a, P a → P' a) : Yields x P' :=
  fun st => hp _ (h st)

theorem any (x : StateM src.State α) : Yields x fun _ => True :=
  fun _ => trivial

theorem ite {c : Prop} [Decidable c] {x y : StateM src.State α} (hx : c → Yields x P) (hy : ¬c → Yields y P) :
    Yields (if c then x else y) P := by
  split
  · exact hx ‹_›
  · exact hy ‹_›

theorem mapM {γ : Type} {R : γ → α → Prop} {f : γ → StateM src.State α} :
    ∀ {l : List γ}, (∀ c ∈ l, Yields (f c) (R c)) → Yields (l.mapM f) (List.Forall₂ R l)
  | [], _ => pure .nil
  | c :: l, h => by
    rw [List.mapM_cons]
    exact (h c List.mem_cons_self).bind fun a ha =>
      (mapM fun c hc => h c (List.mem_cons_of_mem _ hc)).bind fun as has => pure (.cons ha has)

end Source.Yields

open Source

/-- Values drawn for each number below `n` satisfy, each at its place, what the draw of that number
    yields. -/
theorem mapM_range {n : Nat} {f : Nat → StateM src.State α} {P : Nat → α → Prop}
    (h : ∀ j < n, Yields (f j) (P j)) :
    Yields ((List.range n).mapM f) fun l => l.length = n ∧ ∀ j (hj : j < l.length), P j l[j] :=
  (Yields.mapM fun j hj => h j (List.mem_range.mp hj)).mono fun l hl => by
    obtain ⟨hlen, hget⟩ := List.forall₂_iff_get.mp hl
    simp only [List.length_range] at hlen
    exact ⟨hlen.symm, fun j hj => by simpa using hget j (by simpa [hlen] using hj) hj⟩

/-- A value chosen from a list that is not empty is one of its values. -/
theorem choose_mem (hsrc : src.Lawful) [Inhabited α] {xs : List α} (h : xs ≠ []) : Yields (src.choose xs) (· ∈ xs) := by
  unfold Source.choose
  refine (hsrc.intIn_mem 0 (xs.length - 1) 8 (Nat.zero_le _)).bind fun i hi => Yields.pure ?_
  have hlen : 0 < xs.length := List.length_pos_iff.mpr h
  have hi' : i < xs.length := by omega
  rw [List.getD_eq_getElem _ _ hi']
  exact List.getElem_mem hi'




/-- Appending a drawn piece by chance either leaves the text or appends one of the pieces. -/
theorem withChance_yields {more : StateM src.State String} {P : String → Prop} (hmore : Yields more P) (n d : Nat)
    (s : String) : Yields (withChance src n d s more) fun r => ∃ o : Option String, (∀ m ∈ o, P m) ∧ r = s ++ o.getD "" := by
  unfold withChance
  refine (Yields.any _).bind fun b _ => ?_
  cases b
  · exact Yields.pure ⟨none, by simp, by simp⟩
  · exact hmore.bind fun m hm => Yields.pure ⟨some m, by simpa using hm, rfl⟩

/-- The tokens a name after `stem` is written as: a bare word, or a name in double quotes, brackets or
    backquotes. -/
def nameTokens (stem : String) (i : Nat) : List Token :=
  [⟨stem ++ toString i, .word⟩, ⟨stem ++ " \"" ++ toString i ++ "\"", .quoted⟩, ⟨stem ++ " " ++ toString i, .bracketed⟩,
    ⟨stem ++ String.singleton (Char.ofNat 0x60) ++ toString i, .backquoted⟩]

/-- The name that a token stands for: its text, written in its source form. -/
def Name.ofToken (t : Token) : Name :=
  ⟨t.text, t.render⟩

@[simp] theorem Name.name_ofToken (t : Token) : (Name.ofToken t).name = t.text := rfl

@[simp] theorem Name.written_ofToken (t : Token) : (Name.ofToken t).written = t.render := rfl

/-- A drawn name is one of the tokens after its stem, written out. -/
theorem name_yields (stem : String) (i : Nat) :
    Yields (name src stem i) fun n => ∃ t ∈ nameTokens stem i, n = Name.ofToken t := by
  unfold name
  refine (Yields.any _).bind fun k _ => ?_
  split
  · exact Yields.pure ⟨⟨stem ++ toString i, .word⟩, by simp [nameTokens], rfl⟩
  · exact Yields.pure ⟨⟨stem ++ " \"" ++ toString i ++ "\"", .quoted⟩, by simp [nameTokens], rfl⟩
  · exact Yields.pure ⟨⟨stem ++ " " ++ toString i, .bracketed⟩, by simp [nameTokens], rfl⟩
  · exact Yields.pure ⟨⟨stem ++ String.singleton (Char.ofNat 0x60) ++ toString i, .backquoted⟩, by simp [nameTokens], rfl⟩

/-! ### Columns -/

/-- The choices behind a column's text: its type, then the constraints it carries in the order its
    text has them, an inline key with or without `AUTOINCREMENT` among them. -/
structure ColumnChoice where
  type : String
  key : Option Bool
  notNull : Bool
  default : Option String
  unique : Bool
  check : Bool

/-- The text of the column named `c` with the choices `ch`. -/
def ColumnChoice.sql (ch : ColumnChoice) (c : Name) : String :=
  c.written ++ (if ch.type.isEmpty then "" else " " ++ ch.type) ++
    (match ch.key with
     | some auto => " PRIMARY KEY" ++ (if auto then " AUTOINCREMENT" else "")
     | none => "") ++
    (if ch.notNull then " NOT NULL" else "") ++
    (match ch.default with
     | some d => " DEFAULT " ++ d
     | none => "") ++
    (if ch.unique then " UNIQUE" else "") ++
    (if ch.check then " CHECK (" ++ c.written ++ " IS NOT 42)" else "")

/-- The choices the generator can make for the `i`-th column of a table whose key has the style
    `keyStyle`: a type of the list, the inline key on the first column of the second style only, and a
    default of the list. -/
structure ColumnChoice.Drawn (ch : ColumnChoice) (keyStyle : Nat) (auto : Bool) (i : Nat) : Prop where
  type : ch.type ∈ typeNames
  key : ch.key = if keyStyle == 1 && i == 0 then some auto else none
  default : ∀ d ∈ ch.default, d ∈ defaults

/-- A piece appended by chance is some value of an optional piece. -/
theorem getD_of_forall {α : Type} {o : Option String} {g : α → String} {P : α → Prop}
    (h : ∀ m ∈ o, ∃ a, P a ∧ m = g a) : ∃ oa : Option α, (∀ a ∈ oa, P a) ∧ o.getD "" = (oa.map g).getD "" := by
  cases o with
  | none => exact ⟨none, by simp, rfl⟩
  | some m =>
    obtain ⟨a, ha, rfl⟩ := h m rfl
    exact ⟨some a, by simpa using ha, rfl⟩

theorem getD_map_const (o : Option Unit) (s : String) : (o.map fun _ => s).getD "" = if o.isSome then s else "" := by
  cases o <;> rfl

/-- A drawn column is written with choices the generator can make for it. -/
theorem columnDef_yields (hsrc : src.Lawful) (keyStyle : Nat) (auto : Bool) (i : Nat) (c : Name) :
    Yields (columnDef src keyStyle auto i c) fun s => ∃ ch : ColumnChoice, ch.Drawn keyStyle auto i ∧ s = ch.sql c := by
  unfold columnDef
  extract_lets jp
  have hconst (s : String) : Yields (pure s : StateM src.State String) fun m => ∃ _ : Unit, True ∧ m = s :=
    Yields.pure ⟨(), trivial, rfl⟩
  have hdefault : Yields (do pure (" DEFAULT " ++ (← src.choose defaults)) : StateM src.State String)
      fun m => ∃ d, d ∈ defaults ∧ m = " DEFAULT " ++ d :=
    (choose_mem hsrc (by simp [defaults])).bind fun d hd => Yields.pure ⟨d, hd, rfl⟩
  -- after the type, four constraints are appended by chance, each written or not
  have hjp : ∀ ty ∈ typeNames, Yields (jp ty) fun s => ∃ ch : ColumnChoice, ch.Drawn keyStyle auto i ∧ s = ch.sql c := by
    intro ty hty
    refine (withChance_yields (hconst _) 1 3 _).bind fun s₁ h₁ => ?_
    refine (withChance_yields hdefault 1 3 _).bind fun s₂ h₂ => ?_
    refine (withChance_yields (hconst _) 1 6 _).bind fun s₃ h₃ => ?_
    refine (withChance_yields (hconst _) 1 6 _).mono fun s₄ h₄ => ?_
    obtain ⟨o₁, ho₁, rfl⟩ := h₁
    obtain ⟨o₂, ho₂, rfl⟩ := h₂
    obtain ⟨o₃, ho₃, rfl⟩ := h₃
    obtain ⟨o₄, ho₄, rfl⟩ := h₄
    obtain ⟨n₁, -, hn₁⟩ := getD_of_forall ho₁
    obtain ⟨d₂, hd₂, hn₂⟩ := getD_of_forall ho₂
    obtain ⟨n₃, -, hn₃⟩ := getD_of_forall ho₃
    obtain ⟨n₄, -, hn₄⟩ := getD_of_forall ho₄
    refine ⟨⟨ty, if keyStyle == 1 && i == 0 then some auto else none, n₁.isSome, d₂, n₃.isSome, n₄.isSome⟩,
      ⟨hty, rfl, hd₂⟩, ?_⟩
    rw [hn₁, hn₂, hn₃, hn₄, getD_map_const, getD_map_const, getD_map_const, ColumnChoice.sql]
    split <;> cases d₂ <;> simp [String.append_assoc]
  split
  · exact (Yields.pure (by simp [typeNames])).bind hjp
  · exact (choose_mem hsrc (by simp [typeNames])).bind hjp

/-! ### Tables -/

/-- The choices behind a generated table: its name, its columns' names and choices, the style of its
    key (none, inline on the first column, or a table constraint over the last `keyCount` columns in
    reverse), whether the first column's key increments on its own, a foreign key, and `WITHOUT
    ROWID`. -/
structure TableDraw where
  name : Name
  columns : List Name
  choices : List ColumnChoice
  keyStyle : Nat
  auto : Bool
  keyCount : Nat
  foreignKey : Bool
  withoutRowid : Bool

namespace TableDraw

/-- The texts of a table's elements: its columns, its key constraint, its foreign key. -/
def elements (d : TableDraw) : List String :=
  List.zipWith (fun c ch => ch.sql c) d.columns d.choices ++
    (if d.keyStyle == 2 then
      ["PRIMARY KEY (" ++ ", ".intercalate ((d.columns.reverse.take d.keyCount).map (·.written)) ++ ")"]
    else []) ++
    (if d.foreignKey then
      ["CONSTRAINT fk FOREIGN KEY (" ++ (d.columns.headD default).written ++
        ") REFERENCES parent (id) ON DELETE CASCADE"]
    else [])

/-- The statement of a generated table. -/
def sql (d : TableDraw) : String :=
  "CREATE TABLE " ++ d.name.written ++ " (\n  " ++ ",\n  ".intercalate d.elements ++ "\n)" ++
    (if d.withoutRowid then " WITHOUT ROWID" else "")

/-- The choices the generator can make for a table. -/
structure Drawn (d : TableDraw) : Prop where
  name : ∃ t ∈ nameTokens "t" 0, d.name = Name.ofToken t
  columns_ne : d.columns ≠ []
  length_le : d.columns.length ≤ 6
  length_choices : d.choices.length = d.columns.length
  columns : ∀ j (h : j < d.columns.length), ∃ t ∈ nameTokens "c" j, d.columns[j] = Name.ofToken t
  choices : ∀ j (h : j < d.choices.length), d.choices[j].Drawn d.keyStyle d.auto j
  keyStyle : d.keyStyle ≤ 2
  auto : d.auto = true → d.keyStyle = 1
  keyCount : d.keyStyle = 2 → 1 ≤ d.keyCount

end TableDraw

/-- Values drawn one for each pair of a list, each written from its pair with some choice, are the
    pairs' texts with one choice each. -/
theorem exists_zipWith {α γ : Type} {R : α → γ → Prop} {g : α → γ → String} {l : List α} {l' : List String}
    (h : List.Forall₂ (fun a s => ∃ c, R a c ∧ s = g a c) l l') :
    ∃ cs : List γ, List.Forall₂ R l cs ∧ l' = List.zipWith g l cs := by
  induction h with
  | nil => exact ⟨[], .nil, rfl⟩
  | cons hab _ ih =>
    obtain ⟨c, hc, rfl⟩ := hab
    obtain ⟨cs, hcs, rfl⟩ := ih
    exact ⟨c :: cs, .cons hc hcs, rfl⟩

/-- The generator's table: its name, its statement and its columns' names. -/
def TableDraw.toTable (d : TableDraw) : Table :=
  { name := d.name.name, sql := d.sql, columns := d.columns }

/-- The columns' texts, drawn one for each column with its position, are the columns written with one
    drawn choice each. -/
theorem columnDefs_yields (hsrc : src.Lawful) (keyStyle : Nat) (auto : Bool) (columns : List Name) :
    Yields (((List.range columns.length).zip columns).mapM fun p => columnDef src keyStyle auto p.1 p.2)
      fun defs => ∃ chs : List ColumnChoice, chs.length = columns.length ∧
        (∀ j (h : j < chs.length), chs[j].Drawn keyStyle auto j) ∧
        defs = List.zipWith (fun c ch => ch.sql c) columns chs := by
  refine (Yields.mapM fun p _ => columnDef_yields hsrc keyStyle auto p.1 p.2).mono fun defs h => ?_
  obtain ⟨chs, hchs, rfl⟩ := exists_zipWith h
  obtain ⟨hlen, hget⟩ := List.forall₂_iff_get.mp hchs
  simp only [List.length_zip, List.length_range, min_self] at hlen
  refine ⟨chs, hlen.symm, fun j hj => by simpa using hget j (by simp; omega) hj, ?_⟩
  apply List.ext_getElem
  · simp [hlen]
  · intro j h₁ h₂
    simp

theorem table_yields (hsrc : src.Lawful) : Yields (table src) fun t => ∃ d : TableDraw, d.Drawn ∧ t = d.toTable := by
  unfold table
  refine (name_yields "t" 0).bind fun tn htn => (hsrc.intIn_mem 1 6 8 (by decide)).bind fun count hcount => ?_
  refine (mapM_range fun j _ => name_yields "c" j).bind fun columns hcols => ?_
  refine (hsrc.intIn_mem 0 2 1 (by decide)).bind fun keyStyle hkey => ?_
  obtain ⟨rfl, hcolumns⟩ := hcols
  replace hcount : 1 ≤ columns.length ∧ columns.length ≤ 6 := by simpa using hcount
  replace hkey : keyStyle ≤ 2 := by simpa using hkey
  extract_lets jpAuto
  have hjpAuto : ∀ auto : Bool, (auto = true → keyStyle = 1) →
      Yields (jpAuto auto) fun t => ∃ d : TableDraw, d.Drawn ∧ t = d.toTable := by
    intro auto hauto
    dsimp only [jpAuto]
    -- the last choices, and the table they make
    have hfinal : ∀ (w : Bool) (chs : List ColumnChoice) (k : Nat) (b : Bool), chs.length = columns.length →
        (∀ j (h : j < chs.length), chs[j].Drawn keyStyle auto j) → (keyStyle = 2 → 1 ≤ k) →
        ∃ d : TableDraw, d.Drawn ∧ (⟨tn.name, "CREATE TABLE " ++ tn.written ++ " (\n  " ++
          ",\n  ".intercalate (List.zipWith (fun c ch => ch.sql c) columns chs ++
            (if keyStyle == 2 then
              ["PRIMARY KEY (" ++ ", ".intercalate ((columns.reverse.take k).map (·.written)) ++ ")"] else []) ++
            (if b then ["CONSTRAINT fk FOREIGN KEY (" ++ (columns.headD default).written ++
              ") REFERENCES parent (id) ON DELETE CASCADE"] else [])) ++ "\n)" ++
          (if w then " WITHOUT ROWID" else ""), columns⟩ : Table) = d.toTable :=
      fun w chs k b hlen hchs hk =>
        ⟨⟨tn, columns, chs, keyStyle, auto, k, b, w⟩,
          ⟨htn, fun h => by simp [show columns = [] from h] at hcount, hcount.2, hlen, hcolumns, hchs, hkey, hauto,
            hk⟩, rfl⟩
    refine Yields.ite (fun _ => (Yields.any _).bind fun w _ => ?_) fun _ => (Yields.pure rfl).bind fun w _ => ?_
    all_goals
      refine (columnDefs_yields hsrc keyStyle auto columns).bind fun defs hdefs => ?_
      obtain ⟨chs, hlen, hchs, rfl⟩ := hdefs
      refine Yields.ite (fun h2 => (hsrc.intIn_mem 1 columns.length 8 hcount.1).bind fun k hk => (Yields.pure rfl).bind
        fun defs' hdefs' => ?_) fun h2 => (Yields.pure rfl).bind fun defs' hdefs' => ?_
      all_goals
        refine (Yields.any _).bind fun b _ => Yields.ite (fun hb => (Yields.pure rfl).bind fun defs'' h'' =>
          Yields.pure ?_) fun hb => (Yields.pure rfl).bind fun defs'' h'' => Yields.pure ?_
        all_goals
          subst h''
          subst hdefs'
      · simpa [‹(keyStyle == 2) = true›, hb] using hfinal w chs k true hlen hchs fun _ => hk.1
      · simpa [‹(keyStyle == 2) = true›, hb] using hfinal w chs k false hlen hchs fun _ => hk.1
      · simpa [‹¬(keyStyle == 2) = true›, hb] using hfinal w chs 1 true hlen hchs fun _ => le_rfl
      · simpa [‹¬(keyStyle == 2) = true›, hb] using hfinal w chs 1 false hlen hchs fun _ => le_rfl
  refine Yields.ite (fun h => (Yields.any _).bind fun auto _ => hjpAuto auto fun _ => by simpa using h)
    fun _ => (Yields.pure rfl).bind fun auto hauto => hjpAuto auto fun h => by simp [← hauto] at h

/-! ### Indexes -/

/-- The trees an indexed column is written as over the column token `c`: the column, ordered, collated
    and ordered, in a call, in a sum, or a string. -/
def indexTrees (c : Token) (literal : String) : List Expr :=
  [.leaf c, .closing (.leaf c) ⟨"DESC", .closer⟩,
    .closing (.binary (.leaf c) ⟨"COLLATE", .operator⟩ (.leaf ⟨"NOCASE", .word⟩)) ⟨"ASC", .closer⟩,
    .call ⟨"lower", .word⟩ (.leaf c), .binary (.leaf c) ⟨"+", .operator⟩ (.leaf ⟨"1", .numeric⟩),
    .leaf ⟨literal, .string⟩]

/-- The predicate of an index over the column token `c`: the column is set and not empty. -/
def whereTree (c : Token) : Expr :=
  .binary (.binary (.closing (.leaf c) ⟨"NOTNULL", .closer⟩) ⟨"AND", .operator⟩ (.leaf c)) ⟨"<>", .operator⟩
    (.leaf ⟨"", .string⟩)

/-- The choices behind a generated index: whether it is unique, its position among the indexes, the
    table it is on, its columns' trees and the column of its predicate. -/
structure IndexDraw where
  unique : Bool
  position : Nat
  table : String
  columns : List Expr
  predicate : Option Token

/-- The statement of a generated index. -/
def IndexDraw.sql (d : IndexDraw) : String :=
  "CREATE " ++ (if d.unique then "UNIQUE " else "") ++ "INDEX IF NOT EXISTS ix" ++ toString d.position ++
    " ON " ++ quoteIdentifier d.table ++ " (" ++ ", ".intercalate (d.columns.map Expr.render) ++ ")" ++
    (match d.predicate with
     | some c => " WHERE " ++ (whereTree c).render
     | none => "")

/-- The choices the generator can make for an index over columns written as tokens of `names`. -/
structure IndexDraw.Drawn (d : IndexDraw) (names : Token → Prop) : Prop where
  columns_ne : d.columns ≠ []
  columns : ∀ e ∈ d.columns, ∃ c, names c ∧ ∃ literal, e ∈ indexTrees c literal
  predicate : ∀ c ∈ d.predicate, names c

/-- A word, an operator, a closing word or a number is written as its text. -/
theorem Token.render_plain {s : String} {k : TokenKind} (hk : k = .word ∨ k = .operator ∨ k = .closer ∨ k = .numeric) :
    (⟨s, k⟩ : Token).render = s := by
  rcases hk with rfl | rfl | rfl | rfl <;> rfl

/-- A string written from a name with each apostrophe doubled is the name quoted as a string. -/
theorem enquote_apostrophe (x : String) :
    "\x27" ++ String.ofList (Quoted.double (Char.ofNat 0x27) x.toList) ++ "\x27" = Quoted.enquote (Char.ofNat 0x27) x := by
  rw [Quoted.enquote, ← String.toList_inj]
  simp

/-- An indexed column is one of the trees over a column the table has. -/
theorem indexColumn_yields (hsrc : src.Lawful) {t : Table} {names : Token → Prop} (hne : t.columns ≠ [])
    (hnames : ∀ n ∈ t.columns, ∃ c, names c ∧ n = Name.ofToken c) :
    Yields (indexColumn src t) fun s => ∃ c, names c ∧ ∃ literal, ∃ e ∈ indexTrees c literal, s = e.render := by
  unfold indexColumn
  refine (choose_mem hsrc hne).bind fun n hn => (Yields.any _).bind fun k _ => ?_
  obtain ⟨c, hc, rfl⟩ := hnames n hn
  have htree : ∀ literal, ∀ e ∈ indexTrees c literal, ∀ s, s = e.render →
      Yields (pure s : StateM src.State String) fun s => ∃ c, names c ∧ ∃ literal, ∃ e ∈ indexTrees c literal, s = e.render :=
    fun literal e he s hs => Yields.pure ⟨c, hc, literal, e, he, hs⟩
  split
  · exact htree "" (.leaf c) (by simp [indexTrees]) _ (Name.written_ofToken c)
  · exact htree "" (.closing (.leaf c) ⟨"DESC", .closer⟩) (by simp [indexTrees]) _
      (by simp [Expr.render, Token.render_plain, String.append_assoc])
  · exact htree "" (.closing (.binary (.leaf c) ⟨"COLLATE", .operator⟩ (.leaf ⟨"NOCASE", .word⟩)) ⟨"ASC", .closer⟩)
      (by simp [indexTrees]) _ (by simp [Expr.render, Token.render_plain, String.append_assoc])
  · exact htree "" (.call ⟨"lower", .word⟩ (.leaf c)) (by simp [indexTrees]) _
      (by simp [Expr.render, Token.render_plain, String.append_assoc])
  · exact htree "" (.binary (.leaf c) ⟨"+", .operator⟩ (.leaf ⟨"1", .numeric⟩)) (by simp [indexTrees]) _
      (by simp [Expr.render, Token.render_plain, String.append_assoc])
  · -- a column's name as a string: the name found, or nothing
    rw [columnLiteral]
    split
    · rename_i n _
      exact htree n.name (.leaf ⟨n.name, .string⟩) (by simp [indexTrees]) _ (enquote_apostrophe n.name)
    · exact htree "" (.leaf ⟨"", .string⟩) (by simp [indexTrees]) _ (enquote_apostrophe "")

theorem whereTree_render (c : Token) :
    (whereTree c).render = c.render ++ " NOTNULL AND " ++ c.render ++ " <> ''" := by
  simp [whereTree, Expr.render, Token.render_plain, String.append_assoc]
  rfl

/-- Texts drawn one for each member of a list, each written from some value, are the values written. -/
theorem exists_map {α β γ : Type} {P : β → Prop} {g : β → γ} {l : List α} {l' : List γ}
    (h : List.Forall₂ (fun _ s => ∃ b, P b ∧ s = g b) l l') :
    ∃ bs : List β, bs.length = l.length ∧ (∀ b ∈ bs, P b) ∧ l' = bs.map g := by
  induction h with
  | nil => exact ⟨[], rfl, by simp, rfl⟩
  | cons hab _ ih =>
    obtain ⟨b, hb, rfl⟩ := hab
    obtain ⟨bs, hlen, hbs, rfl⟩ := ih
    exact ⟨b :: bs, by simp [hlen], by simpa using ⟨hb, hbs⟩, rfl⟩

/-- A drawn index is written with choices the generator can make for it, on the table it is drawn
    for. -/
theorem index_yields (hsrc : src.Lawful) {t : Table} {names : Token → Prop} (hne : t.columns ≠ [])
    (hnames : ∀ n ∈ t.columns, ∃ c, names c ∧ n = Name.ofToken c) (pos : Nat) :
    Yields (index src t pos) fun s => ∃ d : IndexDraw, d.Drawn names ∧ d.position = pos ∧ d.table = t.name ∧ s = d.sql := by
  unfold index
  refine (hsrc.intIn_mem 1 3 8 (by decide)).bind fun count hcount => ?_
  refine (Yields.mapM fun j _ => indexColumn_yields hsrc hne hnames).bind fun cols hcols => ?_
  refine (Yields.any _).bind fun unique _ => ?_
  obtain ⟨es, hlen, hes, rfl⟩ := exists_map (g := Expr.render)
    (P := fun e => ∃ c, names c ∧ ∃ literal, e ∈ indexTrees c literal)
    (hcols.imp fun _ s ⟨c, hc, literal, e, he, hs⟩ => ⟨e, ⟨c, hc, literal, he⟩, hs⟩)
  have hne' : es ≠ [] := by
    rintro rfl
    simp at hlen
    omega
  refine (Yields.any _).bind fun b _ => Yields.ite (fun _ => ?_) fun _ => Yields.pure ?_
  · refine (choose_mem hsrc hne).bind fun n hn => Yields.pure ?_
    obtain ⟨c, hc, rfl⟩ := hnames n hn
    refine ⟨⟨unique, pos, t.name, es, some c⟩, ⟨hne', hes, by simpa using hc⟩, rfl, rfl, ?_⟩
    simp [IndexDraw.sql, whereTree_render, Name.ofToken, ← String.append_assoc]
  · refine ⟨⟨unique, pos, t.name, es, none⟩, ⟨hne', hes, by simp⟩, rfl, rfl, ?_⟩
    simp [IndexDraw.sql]

/-! ### Schemas -/

/-- A token a generated column's name can be: a name after the stem `c`. -/
def ColumnToken (c : Token) : Prop :=
  ∃ j, c ∈ nameTokens "c" j

/-- Every column of a drawn table is named by a column token. -/
theorem TableDraw.Drawn.columns_named {d : TableDraw} (h : d.Drawn) :
    ∀ n ∈ d.columns, ∃ c, ColumnToken c ∧ n = Name.ofToken c := by
  intro n hn
  obtain ⟨j, hj, rfl⟩ := List.getElem_of_mem hn
  obtain ⟨c, hc, hcj⟩ := h.columns j hj
  exact ⟨c, ⟨j, hc⟩, hcj⟩

/-- A drawn schema is a drawn table and indexes drawn on it. -/
theorem schema_yields (hsrc : src.Lawful) : Yields (schema src) fun s => ∃ d : TableDraw, d.Drawn ∧ s.table = d.toTable ∧
    ∃ ixs : List IndexDraw, (∀ i ∈ ixs, i.Drawn ColumnToken ∧ i.table = d.name.name) ∧
      s.indexes = ixs.map IndexDraw.sql := by
  unfold schema
  refine (table_yields hsrc).bind fun t ⟨d, hd, ht⟩ => (Yields.any _).bind fun count _ => ?_
  subst ht
  refine (Yields.mapM fun pos _ => index_yields hsrc hd.columns_ne hd.columns_named pos).bind fun sqls hsqls => ?_
  obtain ⟨ixs, -, hixs, rfl⟩ := exists_map (g := IndexDraw.sql)
    (P := fun i => i.Drawn ColumnToken ∧ i.table = d.name.name)
    (hsqls.imp fun _ s ⟨i, hi, _, htable, hs⟩ => ⟨i, ⟨hi, htable⟩, hs⟩)
  exact Yields.pure ⟨d, hd, rfl, ixs, hixs, rfl⟩

end SqlSchema.Generate

namespace SqlSchema.Draw

open Generate

/-- An integer drawn from bytes lies in its range. -/
theorem intIn_mem (lo hi width : Nat) (h : lo ≤ hi) :
    @Source.Yields Nat source (intIn lo hi width) fun n => lo ≤ n ∧ n ≤ hi := by
  unfold intIn
  split
  · exact Source.Yields.pure ⟨le_rfl, by omega⟩
  · refine (Source.Yields.any _).bind fun n _ => Source.Yields.pure ⟨Nat.le_add_right _ _, ?_⟩
    have := Nat.mod_lt n (Nat.succ_pos (hi - lo))
    rw [Nat.succ_eq_add_one] at this
    omega

/-- The source that draws from bytes is lawful. -/
theorem source_lawful : Source.Lawful source :=
  ⟨intIn_mem⟩

end SqlSchema.Draw
