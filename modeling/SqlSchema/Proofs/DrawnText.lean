import SqlSchema.Proofs.Drawing
import SqlSchema.Proofs.StatementText
import SqlSchema.Proofs.CaseBlindLexing

/-! # The pieces of generated text, as tokens

The generator writes its statements from pieces: names in four spellings, keywords after a blank,
types, defaults and punctuation. `Lexes p ts` says that the piece `p` lexes as the tokens `ts`
whatever follows it, as long as that starts with a character ending every token; pieces put together
lex as their tokens put together (`Lexes.append`).

A generated name carries its number in its digits, and ASCII case leaves digits alone. So two names
with different numbers are different words up to case (`sameWord_nameTokens`), and no name is a
keyword, since no keyword has a digit (`isKeyword_of_digits`). -/

namespace SqlSchema

open Lexer Generate Reader

/-! ### Texts that lex as known tokens -/

/-- The text `p` lexes as the tokens `ts`, before any text that starts with a character ending every
    token. -/
def Lexes (p : String) (ts : List Token) : Prop :=
  ∀ s : List Char, (∀ c ∈ s.head?, Separates c) → Lexer.tokens (p.toList ++ s) = ts ++ Lexer.tokens s

/-- A text that is empty or starts with a character ending every token. -/
def StartsApart (p : String) : Prop :=
  ∀ c ∈ p.toList.head?, Separates c

namespace StartsApart

theorem empty : StartsApart "" := by
  simp [StartsApart]

theorem blank (p : String) : StartsApart (" " ++ p) := by
  simp [StartsApart, Separates, isBlank]

theorem comma (p : String) : StartsApart ("," ++ p) := by
  simp [StartsApart, Separates]

theorem lineBreak (p : String) : StartsApart ("\n" ++ p) := by
  simp [StartsApart, Separates, isBlank]

theorem closeParen (p : String) : StartsApart (")" ++ p) := by
  simp [StartsApart, Separates]

theorem ite {c : Prop} [Decidable c] {p q : String} (hp : StartsApart p) (hq : StartsApart q) :
    StartsApart (if c then p else q) := by
  split
  · exact hp
  · exact hq

/-- A text that starts apart and is not empty starts apart whatever follows it. -/
theorem append_left {p : String} (hp : StartsApart p) (hne : p.toList ≠ []) (q : String) :
    StartsApart (p ++ q) := by
  obtain ⟨c, r, hcr⟩ := List.exists_cons_of_ne_nil hne
  intro x hx
  simp only [String.toList_append, hcr, List.cons_append, List.head?_cons, Option.mem_def, Option.some.injEq] at hx
  exact hp x (by simp [hcr, hx])

theorem append {p q : String} (hp : StartsApart p) (hq : StartsApart q) : StartsApart (p ++ q) := by
  by_cases hne : p.toList = []
  · simpa [StartsApart, hne] using hq
  · exact hp.append_left hne q

end StartsApart

/-- The text `p` lexes as the tokens `ts` whatever follows it: it ends in a blank or in punctuation. -/
def LexesBefore (p : String) (ts : List Token) : Prop :=
  ∀ s : List Char, Lexer.tokens (p.toList ++ s) = ts ++ Lexer.tokens s

namespace LexesBefore

variable {p q : String} {ts us : List Token}

theorem lexes (hp : LexesBefore p ts) : Lexes p ts :=
  fun s _ => hp s

theorem append (hp : LexesBefore p ts) (hq : LexesBefore q us) : LexesBefore (p ++ q) (ts ++ us) := fun s => by
  rw [String.toList_append, List.append_assoc, hp, hq, List.append_assoc]

theorem blank : LexesBefore " " [] := fun s => by
  rw [show " ".toList ++ s = ' ' :: s by simp, tokens_blank (by decide)]
  rfl

theorem lineBreak : LexesBefore "\n" [] := fun s => by
  rw [show "\n".toList ++ s = '\n' :: s by simp, tokens_blank (by decide)]
  rfl

theorem openParen : LexesBefore "(" [⟨"(", .punct⟩] := fun s => by
  rw [show "(".toList ++ s = '(' :: s by simp, tokens_openParen]
  rfl

theorem closeParen : LexesBefore ")" [⟨")", .punct⟩] := fun s => by
  rw [show ")".toList ++ s = ')' :: s by simp, tokens_closeParen]
  rfl

theorem comma : LexesBefore "," [Token.comma] := fun s => by
  rw [show ",".toList ++ s = ',' :: s by simp, tokens_comma]
  rfl

/-- A piece that ends in a blank or in punctuation, then any piece. -/
theorem prepend (hp : LexesBefore p ts) (hq : Lexes q us) : Lexes (p ++ q) (ts ++ us) := fun s hs => by
  rw [String.toList_append, List.append_assoc, hp, hq s hs, List.append_assoc]

/-- A piece followed by a blank lexes as its tokens whatever comes after the blank. -/
theorem of_lexes_blank (hp : Lexes p ts) : LexesBefore (p ++ " ") ts := fun s => by
  rw [String.toList_append, List.append_assoc, hp _ (by simp [Separates, isBlank]), show " ".toList ++ s = ' ' :: s by simp,
    tokens_blank (by decide)]

end LexesBefore

namespace Lexes

variable {p q : String} {ts us : List Token}

theorem empty : Lexes "" [] := fun s _ => by
  simp

/-- Two pieces lex as their tokens one after the other, when the second starts apart from the first. -/
theorem append (hp : Lexes p ts) (hq : Lexes q us) (hsep : StartsApart q) : Lexes (p ++ q) (ts ++ us) := by
  intro s hs
  have hqs : ∀ c ∈ (q.toList ++ s).head?, Separates c := by
    cases hq' : q.toList with
    | nil => simpa using hs
    | cons c r => simpa using hsep c (by simp [hq'])
  rw [String.toList_append, List.append_assoc, hp _ hqs, hq s hs, List.append_assoc]

theorem blank (hp : Lexes p ts) : Lexes (" " ++ p) ts := by
  simpa using LexesBefore.blank.prepend hp

theorem token {t : Token} (ht : t.Lexical) : Lexes t.render [t] := fun _ hs =>
  tokens_render_append ht fun c hc => (hs c hc).stopsAt t

theorem word {w : String} {k : TokenKind} (hw : IsWord w.toList) (hk : wordKind w = k) : Lexes w [⟨w, k⟩] :=
  fun _ hs => tokens_word_append hw hk fun c hc => (hs c hc).endsWord

theorem ite {c : Prop} [Decidable c] {p' : String} {ts' : List Token} (hp : Lexes p ts) (hp' : Lexes p' ts') :
    Lexes (if c then p else p') (if c then ts else ts') := by
  split
  · exact hp
  · exact hp'

/-- Keywords, each after a blank, lex as their tokens. -/
theorem keywords (ws : List Token) (hw : ∀ w ∈ ws, IsWord w.text.toList)
    (hk : ws.all fun w => wordKind w.text == w.kind) : Lexes (String.join (ws.map fun w => " " ++ w.text)) ws := by
  induction ws with
  | nil => exact empty
  | cons w ws ih =>
    simp only [List.all_cons, Bool.and_eq_true, beq_iff_eq] at hk
    have hapart : StartsApart (String.join (ws.map fun w => " " ++ w.text)) := by
      cases ws with
      | nil => exact StartsApart.empty
      | cons w' ws => simpa [String.append_assoc] using StartsApart.blank (w'.text ++ String.join (ws.map fun w => " " ++ w.text))
    have hrest := ih (fun w' hw' => hw w' (List.mem_cons_of_mem _ hw')) hk.2
    simpa using (blank (word (hw w List.mem_cons_self) hk.1)).append hrest hapart

/-- A whole text that lexes as some tokens is tokenized as them. -/
theorem tokenize_eq (hp : Lexes p ts) : tokenize p = ts := by
  have h := hp [] (by simp)
  rw [List.append_nil] at h
  rw [tokenize, h, Lexer.tokens_nil, List.append_nil]

/-- Pieces joined by a separator that starts apart and ends in a blank or in punctuation lex as their
    tokens joined by the separator's. -/
theorem intercalate {sep : String} {sts : List Token} (hsep : LexesBefore sep sts)
    (hapart : ∀ x, StartsApart (sep ++ x)) {ps : List String} {tss : List (List Token)}
    (h : List.Forall₂ Lexes ps tss) : Lexes (sep.intercalate ps) (sts.intercalate tss) := by
  induction h with
  | nil => exact empty
  | cons hp h ih =>
    cases h with
    | nil => simpa using hp
    | cons hq h' =>
      rw [String.intercalate_cons_cons, String.append_assoc, List.intercalate_cons_cons, List.append_assoc]
      exact hp.append (hsep.prepend ih) (hapart _)

end Lexes

/-! ### Names carry their numbers in their digits -/

/-- The digits of a text, in order. -/
def digits (s : String) : List Char :=
  s.toList.filter Char.isDigit

theorem digits_append (a b : String) : digits (a ++ b) = digits a ++ digits b := by
  simp [digits]

/-- ASCII case makes no digit and changes none. -/
theorem isDigit_toUpper (c : Char) : c.toUpper.isDigit = c.isDigit := by
  by_cases hl : c.isLower = true
  · have ha : c.toUpper.isAlpha = true := by
      rw [Char.isAlpha_toUpper_eq_isAlpha]
      simp [Char.isAlpha, hl]
    have hc : c.isAlpha = true := by simp [Char.isAlpha, hl]
    rw [isAlpha_iff] at ha hc
    rw [Bool.eq_iff_iff, isDigit_iff, isDigit_iff]
    omega
  · rw [Char.toUpper_eq_of_not_isLower hl]

theorem toUpper_of_isDigit {c : Char} (h : c.isDigit = true) : c.toUpper = c := by
  refine Char.toUpper_eq_of_not_isLower fun hl => ?_
  have ha : c.isAlpha = true := by simp [Char.isAlpha, hl]
  rw [isAlpha_iff] at ha
  rw [isDigit_iff] at h
  omega

theorem filter_isDigit_map_toUpper (l : List Char) :
    (l.map Char.toUpper).filter Char.isDigit = l.filter Char.isDigit := by
  induction l with
  | nil => rfl
  | cons c r ih =>
    by_cases hc : c.isDigit = true
    · simp [hc, toUpper_of_isDigit hc, ih]
    · simp [isDigit_toUpper, hc, ih]

/-- Words that are the same up to case have the same digits. -/
theorem digits_eq_of_sameWord {a b : String} (h : sameWord a b = true) : digits a = digits b := by
  rw [sameWord_eq, beq_iff_eq] at h
  rw [digits, digits, ← filter_isDigit_map_toUpper, h, filter_isDigit_map_toUpper]

/-- A token with a digit is not a keyword without one. -/
theorem isKeyword_of_digits {t : Token} {kw : String} (ht : digits t.text ≠ []) (hkw : digits kw = []) :
    t.isKeyword kw = false := by
  cases h : sameWord t.text kw
  · simp [Token.isKeyword, h]
  · exact absurd ((digits_eq_of_sameWord h).trans hkw) ht

/-- A word with a digit is a plain word: no operator or closing word has one. -/
theorem wordKind_of_digits {w : String} (hw : digits w ≠ []) : wordKind w = .word := by
  have hwords : ∀ kw ∈ operatorWords ++ closerWords, sameWord w kw = false := by
    intro kw hkw
    have hkw' : digits kw = [] := by
      simp only [operatorWords, closerWords, List.cons_append, List.nil_append, List.mem_cons,
        List.not_mem_nil, or_false] at hkw
      rcases hkw with rfl | rfl | rfl | rfl | rfl | rfl | rfl | rfl | rfl | rfl | rfl | rfl | rfl | rfl | rfl | rfl |
        rfl | rfl | rfl | rfl | rfl | rfl | rfl <;> simp [digits]
    cases h : sameWord w kw
    · rfl
    · exact absurd ((digits_eq_of_sameWord h).trans hkw') hw
  have hop : operatorWords.any (sameWord w) = false :=
    List.any_eq_false.mpr fun kw hkw => by simp [hwords kw (List.mem_append_left _ hkw)]
  have hcl : closerWords.any (sameWord w) = false :=
    List.any_eq_false.mpr fun kw hkw => by simp [hwords kw (List.mem_append_right _ hkw)]
  simp [wordKind, hop, hcl]

theorem digits_toString (j : Nat) : digits (toString j) = Nat.toDigits 10 j := by
  rw [digits, show (toString j).toList = Nat.toDigits 10 j from Nat.toList_repr, List.filter_eq_self]
  exact fun c hc => by simpa using Nat.isDigit_of_mem_toDigits (by decide) (by decide) hc

/-- A name after a stem without digits carries its number in its digits. -/
theorem digits_nameTokens {stem : String} (hstem : digits stem = []) {j : Nat} {t : Token}
    (ht : t ∈ nameTokens stem j) : digits t.text = Nat.toDigits 10 j := by
  simp only [nameTokens, List.mem_cons, List.not_mem_nil, or_false] at ht
  -- the quotes, blanks and backquotes of the spellings are no digits
  rcases ht with rfl | rfl | rfl | rfl <;> simp only [digits_append, hstem, digits_toString] <;> simp [digits]

/-- Names with different numbers are different words, whatever their stems and spellings. -/
theorem sameWord_nameTokens {stem stem' : String} (hstem : digits stem = []) (hstem' : digits stem' = [])
    {j j' : Nat} {t t' : Token} (ht : t ∈ nameTokens stem j) (ht' : t' ∈ nameTokens stem' j')
    (h : sameWord t.text t'.text = true) : j = j' := by
  have hdigits := digits_eq_of_sameWord h
  rw [digits_nameTokens hstem ht, digits_nameTokens hstem' ht'] at hdigits
  have hnum := congrArg (fun l => Nat.ofDigitChars 10 l 0) hdigits
  simpa [Nat.ofDigitChars_ten_toDigits] using hnum

/-- A stem that names can be built on: a bare word without digits or closing brackets. -/
structure NameStem (stem : String) : Prop where
  isWord : IsWord stem.toList
  digits : digits stem = []
  bracket : ']' ∉ stem.toList

theorem nameStem_t : NameStem "t" :=
  ⟨by simp [IsWord, isWordStart], by simp [digits], by simp⟩

theorem nameStem_c : NameStem "c" :=
  ⟨by simp [IsWord, isWordStart], by simp [digits], by simp⟩

section Names

variable {stem : String} {j : Nat} {t : Token}

theorem isWordChar_of_isDigit {c : Char} (h : c.isDigit = true) : isWordChar c = true := by
  simp [isWordChar, Char.isAlphanum, h]

/-- A word followed by digits is a word. -/
theorem isWord_append_toString (h : IsWord stem.toList) (j : Nat) : IsWord (stem ++ toString j).toList := by
  rw [String.toList_append, show (toString j).toList = Nat.toDigits 10 j from Nat.toList_repr]
  cases hs : stem.toList with
  | nil => rw [hs] at h; exact h.elim
  | cons c r =>
    rw [hs] at h
    refine ⟨h.1, fun x hx => ?_⟩
    rcases List.mem_append.mp hx with hx | hx
    · exact h.2 x hx
    · exact isWordChar_of_isDigit (Nat.isDigit_of_mem_toDigits (by decide) (by decide) hx)

theorem digits_nameTokens_ne (hs : NameStem stem) (ht : t ∈ nameTokens stem j) : digits t.text ≠ [] := by
  rw [digits_nameTokens hs.digits ht]
  exact Nat.toDigits_ne_nil

theorem kind_nameTokens (ht : t ∈ nameTokens stem j) :
    t.kind = .word ∨ t.kind = .quoted ∨ t.kind = .bracketed ∨ t.kind = .backquoted := by
  simp only [nameTokens, List.mem_cons, List.not_mem_nil, or_false] at ht
  rcases ht with rfl | rfl | rfl | rfl <;> simp

/-- Every spelling of a name is a token of the lexer's shape. -/
theorem lexical_nameTokens (hs : NameStem stem) (ht : t ∈ nameTokens stem j) : t.Lexical := by
  have hdigits := digits_nameTokens_ne hs ht
  simp only [nameTokens, List.mem_cons, List.not_mem_nil, or_false] at ht
  rcases ht with rfl | rfl | rfl | rfl
  · exact ⟨isWord_append_toString hs.isWord j, wordKind_of_digits hdigits⟩
  · trivial
  · -- no closing bracket in the stem, the blank or the digits
    show ']' ∉ (stem ++ " " ++ toString j).toList
    rw [String.toList_append, String.toList_append, show (toString j).toList = Nat.toDigits 10 j from Nat.toList_repr]
    intro hb
    rcases List.mem_append.mp hb with hb | hb
    · rcases List.mem_append.mp hb with hb | hb
      · exact hs.bracket hb
      · simp at hb
    · exact absurd (Nat.isDigit_of_mem_toDigits (by decide) (by decide) hb) (by decide)
  · trivial

theorem isName_nameTokens (ht : t ∈ nameTokens stem j) : t.isName = true := by
  rcases kind_nameTokens ht with h | h | h | h <;> simp [Token.isName, TokenKind.isIdentifier, h]

end Names

/-! ### Types -/

/-- A number token that the lexer gives for its own text is of the lexer's shape. -/
theorem Token.lexical_of_tokens {t : Token} (h : Lexer.tokens t.text.toList = [t]) : t.Lexical :=
  tokens_lexical _ t (by rw [h]; exact List.mem_singleton_self t)

/-- An unsigned number, given by the lexer's reading of its text. -/
def SignedNumber.ofDigits (text : String) (h : Lexer.tokens text.toList = [⟨text, .numeric⟩]) : SignedNumber :=
  ⟨none, ⟨text, .numeric⟩, (by intro _ hs; cases hs), rfl, Token.lexical_of_tokens h⟩

/-- A type spelled with bare words and a size, given the facts the reader checks of the words. -/
def TypeSpelling.ofWords (ws : List String) (size : Option (SignedNumber × Option SignedNumber)) (hne : ws ≠ [])
    (hw : ∀ w ∈ ws, IsWord w.toList) (hk : ∀ w ∈ ws, wordKind w = .word ∧ isTypeWord ⟨w, .word⟩ = true) :
    TypeSpelling :=
  ⟨ws.map (⟨·, .word⟩), size, by simpa using hne, by
    simp only [List.mem_map]
    rintro _ ⟨w, hw', rfl⟩
    exact ⟨(hk w hw').2, hw w hw', (hk w hw').1⟩⟩

/-- Every type the generator draws is one the reader gives: none, or a spelling of words and a size. -/
theorem typeNames_text : ∀ ty ∈ typeNames, TypeText ty := by
  let ten := SignedNumber.ofDigits "10" (by decide +kernel)
  let two := SignedNumber.ofDigits "2" (by decide +kernel)
  simp only [typeNames, List.mem_cons, List.not_mem_nil, or_false]
  rintro ty (rfl | rfl | rfl | rfl | rfl | rfl | rfl | rfl | rfl)
  · exact .inl rfl
  · exact .inr ⟨.ofWords ["INTEGER"] none (by simp) (by simp [IsWord, isWordStart, isWordChar]) (by decide +kernel), rfl⟩
  · exact .inr ⟨.ofWords ["TEXT"] none (by simp) (by simp [IsWord, isWordStart, isWordChar]) (by decide +kernel), rfl⟩
  · exact .inr ⟨.ofWords ["REAL"] none (by simp) (by simp [IsWord, isWordStart, isWordChar]) (by decide +kernel), rfl⟩
  · exact .inr ⟨.ofWords ["BLOB"] none (by simp) (by simp [IsWord, isWordStart, isWordChar]) (by decide +kernel), rfl⟩
  · exact .inr ⟨.ofWords ["NUMERIC"] none (by simp) (by simp [IsWord, isWordStart, isWordChar]) (by decide +kernel),
      rfl⟩
  · exact .inr ⟨.ofWords ["VARCHAR"] (some (ten, none)) (by simp) (by simp [IsWord, isWordStart, isWordChar])
      (by decide +kernel), rfl⟩
  · exact .inr ⟨.ofWords ["DECIMAL"] (some (ten, some two)) (by simp) (by simp [IsWord, isWordStart, isWordChar])
      (by decide +kernel), rfl⟩
  · exact .inr ⟨.ofWords ["UNSIGNED", "BIG", "INT"] none (by simp) (by simp [IsWord, isWordStart, isWordChar])
      (by decide +kernel), rfl⟩

/-! ### Defaults -/

/-- A tree of the grammar lexes as its tokens. -/
theorem Lexes.tree {lim : Expr.Limits} {d : Nat} {terms : List String} {commas : Bool} {e : Expr}
    (h : Expr.Chain lim d terms commas e) (hlex : ∀ t ∈ e.tokens, t.Lexical) : Lexes e.render e.tokens :=
  fun _ hs => Expr.lex_render_append e h hlex fun c hc => (hs c hc).stopsAt _

/-- How the reader takes a default of the generator's list: the tokens of its text, the value it
    keeps, and whether it was quoted or a group. Printed in that form, the value gives the text
    back. -/
structure DefaultReading (x : String) where
  tokens : List Token
  value : String
  quoted : Bool
  group : Bool
  lexes : Lexes x tokens
  form : (quoted && group) = false
  prints : (if quoted then Quoted.enquote Token.apostrophe value else if group then "(" ++ value ++ ")" else value) = x
  reads : ∀ (g : Field) (rest : List Token), defaultClause g (tokens ++ rest) =
    .ok ({ g with defaultValue := some value, defaultIsQuoted := quoted || g.defaultIsQuoted,
                  defaultIsExpression := group || g.defaultIsExpression }, rest)

namespace DefaultReading

/-- A signed number is kept as its text. -/
def ofNumber (n : SignedNumber) : DefaultReading n.text where
  tokens := n.tokens
  value := n.text
  quoted := false
  group := false
  lexes := fun _ hs => n.tokens_text_append hs
  form := rfl
  prints := rfl
  reads g rest := by
    rw [defaultClause_number]
    cases g
    simp_all

/-- A string is kept as its inside, quoted. -/
def ofString (v : String) : DefaultReading (Quoted.enquote Token.apostrophe v) where
  tokens := [⟨v, .string⟩]
  value := v
  quoted := true
  group := false
  lexes := Lexes.token (t := ⟨v, .string⟩) trivial
  form := rfl
  prints := rfl
  reads g rest := by
    rw [List.singleton_append, defaultClause_string]
    cases g
    simp_all

/-- A word or a blob is kept as it is written. -/
def ofLiteral (t : Token) (hk : t.kind = .word ∨ t.kind = .blob) (ht : t.Lexical) : DefaultReading t.render where
  tokens := [t]
  value := t.render
  quoted := false
  group := false
  lexes := Lexes.token ht
  form := rfl
  prints := rfl
  reads g rest := by
    rw [List.singleton_append, defaultClause_literal hk]
    cases g
    simp_all

/-- A group is kept as the text of its inside. -/
def ofGroup (e : Expr) (hop : Expr.Operand Expr.Limits.standard 0 (.paren e)) (hlex : ∀ t ∈ e.tokens, t.Lexical) :
    DefaultReading ("(" ++ e.render ++ ")") where
  tokens := (Expr.paren e).tokens
  value := e.render
  quoted := false
  group := true
  lexes := Lexes.tree (hop.chain : Expr.Chain Expr.Limits.standard 0 [] false (.paren e)) fun t ht => by
    simp only [Expr.tokens, List.cons_append, List.mem_cons, List.mem_append, List.not_mem_nil, or_false] at ht
    rcases ht with rfl | ht | rfl
    · exact Token.punct_lexical (c := '(') (by decide) (by decide) (by decide) (by decide) (by decide)
    · exact hlex t ht
    · exact Token.punct_lexical (c := ')') (by decide) (by decide) (by decide) (by decide) (by decide)
  form := rfl
  prints := rfl
  reads g rest := by
    rw [defaultClause_group hop]
    cases g
    simp_all

end DefaultReading

/-- Every default the generator draws is one the reader takes back, in a form that prints it as
    drawn. -/
theorem defaults_read : ∀ x ∈ defaults, Nonempty (DefaultReading x) := by
  simp only [defaults, List.mem_cons, List.not_mem_nil, or_false]
  rintro x (rfl | rfl | rfl | rfl | rfl | rfl | rfl | rfl | rfl)
  · exact ⟨.ofNumber (.ofDigits "0" (by decide +kernel))⟩
  · exact ⟨.ofNumber ⟨some ⟨"-", .operator⟩, ⟨"1", .numeric⟩, by simp, rfl, Token.lexical_of_tokens (by decide +kernel)⟩⟩
  · exact ⟨.ofNumber ⟨some ⟨"+", .operator⟩, ⟨"2.5", .numeric⟩, by simp, rfl, Token.lexical_of_tokens (by decide +kernel)⟩⟩
  · exact ⟨.ofString "x"⟩
  · exact ⟨.ofString "it's"⟩
  · exact ⟨.ofLiteral ⟨"NULL", .word⟩ (.inl rfl) ⟨by simp [IsWord, isWordStart, isWordChar], by decide +kernel⟩⟩
  · exact ⟨.ofLiteral ⟨"00FF", .blob⟩ (.inr rfl) (by simp [Token.Lexical])⟩
  · -- a sum of two numbers in parentheses
    refine ⟨.ofGroup (.binary (.leaf ⟨"1", .numeric⟩) ⟨"+", .operator⟩ (.leaf ⟨"2", .numeric⟩)) ?_ ?_⟩
    · simp [Expr.Operand, Expr.Chain, Expr.EndsBefore, Expr.Limits.standard, Expr.Limits.allowsDepth,
        Expr.Limits.allowsHeight, Expr.height, Expr.lastToken?, TokenKind.isOperand]
    · intro t ht
      simp [Expr.tokens, Token.juxtaposition] at ht
      rcases ht with rfl | rfl | rfl <;> exact Token.lexical_of_tokens (by decide +kernel)
  · exact ⟨.ofLiteral ⟨"CURRENT_TIMESTAMP", .word⟩ (.inl rfl) ⟨by simp [IsWord, isWordStart, isWordChar], by decide +kernel⟩⟩

end SqlSchema
