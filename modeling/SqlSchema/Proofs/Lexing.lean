import SqlSchema.Proofs.LexNumbers

/-! # Reading tokens back from their source form

A token has the lexer's shape (`Token.Lexical`) when its text is one the lexer gives for its kind: a
bare word that is a word start followed by word characters and whose kind is the kind of that word,
a number that reads back whole, a bracketed name without `]`, an operator of one or two symbol
characters, and so on. `Lexer.tokens_lexical` says that every token the lexer gives has that shape.

Conversely the lexer reads such a token back from its source form, whatever text follows, as long as
that text does not run into the token (`Token.StopsAt`: a word must not go on with a word character,
a number with a letter, digit or point, `-` must not become `--` and so on). `tokens_render_append`
is the equation the printing proofs use: the tokens of a token's source form followed by more text
are that token and the tokens of the text. -/

namespace SqlSchema.Lexer

/-! ### Gaps -/

theorem skipGaps_of_dropGap_none {cs : List Char} (h : dropGap cs = none) : skipGaps cs = cs := by
  rw [skipGaps]
  split
  · rename_i r hr
    rw [h] at hr
    cases hr
  · rfl

theorem skipGaps_of_dropGap_some {cs r : List Char} (h : dropGap cs = some r) : skipGaps cs = skipGaps r := by
  rw [skipGaps]
  split
  · rename_i r' hr
    rw [h] at hr
    cases hr
    rfl
  · rename_i hr
    rw [h] at hr
    cases hr


theorem tokens_of_skipGaps {cs r : List Char} {c : Char} (h : skipGaps cs = c :: r) :
    tokens cs = (readToken c r).1 :: tokens (readToken c r).2 := by
  rw [tokens]
  split
  · rename_i hnil
    rw [h] at hnil
    cases hnil
  · rename_i c' r' hcons
    rw [h] at hcons
    cases hcons
    rfl

theorem tokens_of_skipGaps_nil {cs : List Char} (h : skipGaps cs = []) : tokens cs = [] := by
  rw [tokens]
  split
  · rfl
  · rename_i c' r' hcons
    rw [h] at hcons
    cases hcons

/-- The tokens of a text depend only on what is left after the gaps at its front. -/
theorem tokens_congr {cs cs' : List Char} (h : skipGaps cs = skipGaps cs') : tokens cs = tokens cs' := by
  cases hc : skipGaps cs' with
  | nil => rw [tokens_of_skipGaps_nil (h.trans hc), tokens_of_skipGaps_nil hc]
  | cons c r => rw [tokens_of_skipGaps (h.trans hc), tokens_of_skipGaps hc]

/-- A blank before the text changes none of its tokens. -/
theorem tokens_blank {c : Char} (hc : isBlank c = true) (cs : List Char) : tokens (c :: cs) = tokens cs := by
  apply tokens_congr
  apply skipGaps_of_dropGap_some
  simp [dropGap, hc]

end SqlSchema.Lexer

namespace SqlSchema.Quoted

/-- Quoted text is read back up to its closing quote, when no quote follows that. -/
theorem unquote_double_append (q : Char) (cs : List Char) {s : List Char} (hs : ∀ x ∈ s.head?, x ≠ q) :
    unquote q (double q cs ++ q :: s) = (cs, s) := by
  induction cs with
  | nil =>
    cases s with
    | nil => simp [double, unquote]
    | cons d s => simp [double, unquote, hs d rfl]
  | cons x cs ih =>
    by_cases hx : x = q
    · subst hx
      simp [double, unquote, ih]
    · -- the doubled rest is not empty: it ends with the closing quote
      obtain ⟨d, r, hdr⟩ : ∃ d r, double q cs ++ q :: s = d :: r := by
        cases double q cs <;> simp
      simp only [double, hx, ↓reduceIte, List.cons_append, hdr, unquote]
      rw [← hdr, ih]
      rfl

end SqlSchema.Quoted

namespace SqlSchema.Lexer

/-! ### One equation for each kind of token -/

theorem upTo_append {close : Char} {cs : List Char} (h : close ∉ cs) (s : List Char) :
    upTo close (cs ++ close :: s) = (cs, s) := by
  have hall : ∀ x ∈ cs, (x != close) = true := by
    intro x hx
    simpa using fun he : x = close => h (he ▸ hx)
  obtain ⟨htake, hdrop⟩ := takeWhile_dropWhile_exact (p := (· != close)) (s := close :: s) hall (by simp)
  simp [upTo, htake, hdrop]

theorem readToken_apostrophe (r : List Char) :
    readToken Token.apostrophe r = (⟨String.ofList (Quoted.unquote Token.apostrophe r).1, .string⟩,
      (Quoted.unquote Token.apostrophe r).2) := by
  simp [readToken, Token.apostrophe]

theorem readToken_doubleQuote (r : List Char) :
    readToken '"' r = (⟨String.ofList (Quoted.unquote '"' r).1, .quoted⟩, (Quoted.unquote '"' r).2) := by
  simp [readToken]

theorem readToken_backquote (r : List Char) :
    readToken Token.backquote r = (⟨String.ofList (Quoted.unquote Token.backquote r).1, .backquoted⟩,
      (Quoted.unquote Token.backquote r).2) := by
  simp [readToken, Token.backquote]

theorem readToken_bracket (r : List Char) :
    readToken '[' r = (⟨String.ofList (upTo ']' r).1, .bracketed⟩, (upTo ']' r).2) := by
  simp [readToken, Token.backquote]

theorem readToken_blob {c : Char} (hc : c = 'X' ∨ c = 'x') (r : List Char) :
    readToken c ('\x27' :: r) = (⟨String.ofList (upTo '\x27' r).1, .blob⟩, (upTo '\x27' r).2) := by
  rcases hc with rfl | rfl <;> simp [readToken, Token.backquote]

theorem readToken_number {c : Char} {r : List Char}
    (hc : c.isDigit = true ∨ (c = '.' ∧ ∃ x ∈ r.head?, x.isDigit = true)) :
    readToken c r = (⟨String.ofList (numberAfter c r).1, .numeric⟩, (numberAfter c r).2) := by
  -- a number starts with a digit or a point, which open no quote, name or blob
  have hne : ∀ d : Char, d.isDigit = false → d ≠ '.' → c ≠ d := by
    rintro d hd hdot rfl
    rcases hc with hc | ⟨rfl, -⟩
    · rw [hc] at hd; cases hd
    · exact hdot rfl
  have hnum : (c.isDigit || (c == '.' && (r.head?.map Char.isDigit).getD false)) = true := by
    rcases hc with hc | ⟨rfl, x, hx, hd⟩
    · simp [hc]
    · cases r with
      | nil => simp at hx
      | cons y r =>
        simp only [List.head?_cons, Option.mem_def, Option.some.injEq] at hx
        subst hx
        simp [hd]
  simp [readToken, hne '\x27' rfl (by decide), hne '"' rfl (by decide),
    hne Token.backquote rfl (by decide), hne '[' rfl (by decide), hne 'X' rfl (by decide),
    hne 'x' rfl (by decide), hnum]


theorem readToken_word {c : Char} {r : List Char} (hc : isWordStart c = true)
    (hblob : ¬((c = 'X' ∨ c = 'x') ∧ r.head? = some '\x27')) :
    readToken c r = (⟨String.ofList (c :: r.takeWhile isWordChar),
      wordKind (String.ofList (c :: r.takeWhile isWordChar))⟩, r.dropWhile isWordChar) := by
  have hne : ∀ d : Char, isWordStart d = false → c ≠ d := by
    rintro d hd rfl
    rw [hc] at hd
    cases hd
  have hdigit : c.isDigit = false := by
    have := isWordStart_iff.mp hc
    rw [Bool.eq_false_iff, ne_eq, isDigit_iff]
    omega
  have hb : ((c == 'X' || c == 'x') && r.head? == some '\x27') = false := by
    simpa [Bool.and_eq_false_iff] using hblob
  simp [readToken, hne '\x27' (by decide), hne '"' (by decide), hne Token.backquote (by decide),
    hne '[' (by decide), hne '.' (by decide), hdigit, hb, hc]

/-- A character that starts no quote, name, blob, number or word is read as a symbol: an operator
    of two characters when it forms one with the next, else a token of its own. -/
theorem readToken_symbol {c : Char} {r : List Char} (hq : c ∉ ['\x27', '"', Token.backquote, '['])
    (hw : isWordStart c = false) (hd : c.isDigit = false)
    (hdot : ¬(c = '.' ∧ ∃ x ∈ r.head?, x.isDigit = true)) :
    readToken c r = match r with
      | d :: r' =>
        if pairOperators.contains [c, d] then (⟨String.ofList [c, d], .operator⟩, r')
        else (⟨String.singleton c, symbolKind c⟩, r)
      | [] => (⟨String.singleton c, symbolKind c⟩, []) := by
  simp only [List.mem_cons, List.not_mem_nil, or_false, not_or] at hq
  obtain ⟨h1, h2, h3, h4⟩ := hq
  have hX : ((c == 'X' || c == 'x') && r.head? == some '\x27') = false := by
    have : c ≠ 'X' ∧ c ≠ 'x' := by
      constructor <;> rintro rfl <;> simp [isWordStart] at hw
    simp [this.1, this.2]
  have hnum : (c.isDigit || (c == '.' && (r.head?.map Char.isDigit).getD false)) = false := by
    cases r with
    | nil => simp [hd]
    | cons x r => simpa [hd] using hdot
  simp only [readToken, beq_iff_eq, h1, h2, h3, h4, ↓reduceIte, hX, hnum, hw, Bool.false_eq_true]
  cases r <;> rfl

theorem dropGap_cons_none {c : Char} {rest : List Char} (hb : isBlank c = false)
    (hm : c = '-' → rest.head? ≠ some '-') (hs : c = '/' → rest.head? ≠ some '*') :
    dropGap (c :: rest) = none := by
  simp only [dropGap, hb, Bool.false_eq_true, ↓reduceIte]
  split
  · rename_i r' _
    exact absurd (by simp) (hm rfl)
  · rename_i r' _
    exact absurd (by simp) (hs rfl)
  · rfl

/-- Text that starts with a character other than a blank, `-` or `/` has no gap at its front. -/
theorem dropGap_cons_of_start {c : Char} (hc : isBlank c = false ∧ c ≠ '-' ∧ c ≠ '/') (rest : List Char) :
    dropGap (c :: rest) = none :=
  dropGap_cons_none hc.1 (fun h => absurd h hc.2.1) (fun h => absurd h hc.2.2)

/-- A character that cannot continue a word, nor turn a word `X` into a blob. -/
def EndsWord (c : Char) : Prop :=
  isWordChar c = false ∧ c ≠ '\x27'

/-- The characters of a bare word: a word start, then word characters. -/
def IsWord : List Char → Prop
  | c :: r => isWordStart c = true ∧ ∀ x ∈ r, isWordChar x = true
  | [] => False

instance : DecidablePred IsWord := fun cs =>
  match cs with
  | c :: r => inferInstanceAs (Decidable (isWordStart c = true ∧ ∀ x ∈ r, isWordChar x = true))
  | [] => inferInstanceAs (Decidable False)

end SqlSchema.Lexer

namespace SqlSchema.Token

open Lexer

/-- A token as the lexer gives it: its text has the shape its kind requires. -/
def Lexical (t : Token) : Prop :=
  match t.kind with
  | .quoted | .backquoted | .string => True
  | .bracketed => ']' ∉ t.text.toList
  | .blob => '\x27' ∉ t.text.toList
  | .numeric =>
    match t.text.toList with
    | c :: r => (c.isDigit = true ∨ (c = '.' ∧ ∃ x ∈ r.head?, x.isDigit = true)) ∧
        ∀ s, EndsNumber s → numberAfter c (r ++ s) = (c :: r, s)
    | [] => False
  | .word | .closer => IsWord t.text.toList ∧ wordKind t.text = t.kind
  | .operator =>
    (IsWord t.text.toList ∧ wordKind t.text = .operator) ∨ t.text.toList ∈ pairOperators ∨
      ∃ c ∈ operatorSymbols, t.text.toList = [c]
  | .punct =>
    ∃ c, t.text.toList = [c] ∧ symbolKind c = .punct ∧ isBlank c = false ∧ isWordStart c = false ∧
      c.isDigit = false ∧ c ∉ ['\x27', '"', backquote, '[']

/-- The character `c`, written right after the source form of `t`, does not run into it. -/
def StopsAt (t : Token) (c : Char) : Prop :=
  match t.kind with
  | .quoted => c ≠ '"'
  | .backquoted => c ≠ backquote
  | .string => c ≠ '\x27'
  | .numeric => c.isAlphanum = false ∧ c ≠ '.'
  | .word | .closer => EndsWord c
  | .operator =>
    match t.text.toList with
    | [a] =>
      if isWordStart a then EndsWord c
      else [a, c] ∉ pairOperators ∧ ¬(a = '-' ∧ c = '-') ∧ ¬(a = '/' ∧ c = '*') ∧ ¬(a = '.' ∧ c.isDigit = true)
    | a :: _ => isWordStart a = true → EndsWord c
    | [] => True
  | .bracketed | .blob | .punct => True

theorem readBack_quote {q : Char} {k : TokenKind} {text : String} {s : List Char}
    (hread : ∀ r, readToken q r = (⟨String.ofList (Quoted.unquote q r).1, k⟩, (Quoted.unquote q r).2))
    (hs : ∀ x ∈ s.head?, x ≠ q) (hq : isBlank q = false ∧ q ≠ '-' ∧ q ≠ '/') :
    ∃ c r, (Quoted.enquote q text).toList = c :: r ∧ dropGap (c :: (r ++ s)) = none ∧
      readToken c (r ++ s) = (⟨text, k⟩, s) := by
  refine ⟨q, Quoted.double q text.toList ++ [q], by simp [Quoted.enquote], ?_, ?_⟩
  · exact dropGap_cons_of_start hq _
  · rw [hread, List.append_assoc, List.singleton_append, Quoted.unquote_double_append q _ hs]
    simp

/-- A bare word, operator word or closing word is read back up to the first character that cannot
    continue a word. -/
theorem readBack_word {text : String} {k : TokenKind} (hw : IsWord text.toList) (hk : wordKind text = k)
    {s : List Char} (hs : ∀ x ∈ s.head?, EndsWord x) :
    ∃ c r, text.toList = c :: r ∧ dropGap (c :: (r ++ s)) = none ∧ readToken c (r ++ s) = (⟨text, k⟩, s) := by
  cases hcr : text.toList with
  | nil => rw [hcr] at hw; exact hw.elim
  | cons c r =>
    rw [hcr] at hw
    obtain ⟨hc, hr⟩ := hw
    have hrange := isWordStart_iff.mp hc
    refine ⟨c, r, rfl, dropGap_cons_of_start ?_ _, ?_⟩
    · refine ⟨?_, ?_, ?_⟩
      · simp only [isBlank, Bool.or_eq_false_iff, beq_eq_false_iff_ne, ne_eq, ← Char.toNat_inj]
        refine ⟨⟨⟨⟨?_, ?_⟩, ?_⟩, ?_⟩, ?_⟩ <;> simp <;> omega
      · rw [ne_eq, ← Char.toNat_inj]; simp; omega
      · rw [ne_eq, ← Char.toNat_inj]; simp; omega
    · -- a blob needs an apostrophe right after `X`, which neither the word nor what follows gives
      have hblob : ¬((c = 'X' ∨ c = 'x') ∧ (r ++ s).head? = some '\x27') := by
        rintro ⟨-, hhead⟩
        cases r with
        | nil => exact (hs '\x27' (by simpa using hhead)).2 rfl
        | cons x r =>
          simp only [List.cons_append, List.head?_cons, Option.some.injEq] at hhead
          have := hr x List.mem_cons_self
          rw [hhead] at this
          cases this
      obtain ⟨htake, hdrop⟩ := takeWhile_dropWhile_exact hr (fun x hx => (hs x hx).1)
      rw [readToken_word hc hblob, htake, hdrop, ← hcr, String.ofList_toList, hk]

theorem readToken_pair {a b : Char} (h : [a, b] ∈ pairOperators) (s : List Char) :
    readToken a (b :: s) = (⟨String.ofList [a, b], .operator⟩, s) := by
  have ha : a ∉ ['\x27', '"', backquote, '['] ∧ isWordStart a = false ∧ a.isDigit = false ∧ a ≠ '.' := by
    simp only [pairOperators, List.mem_cons, List.cons.injEq, List.not_mem_nil, or_false, and_true] at h
    rcases h with ⟨rfl, rfl⟩ | ⟨rfl, rfl⟩ | ⟨rfl, rfl⟩ | ⟨rfl, rfl⟩ | ⟨rfl, rfl⟩ | ⟨rfl, rfl⟩ | ⟨rfl, rfl⟩ |
      ⟨rfl, rfl⟩ <;> decide
  rw [readToken_symbol ha.1 ha.2.1 ha.2.2.1 (fun h' => ha.2.2.2 h'.1)]
  simp [h]

/-- Only the characters that are operators on their own start an operator of two characters. -/
theorem symbolKind_of_pair {a b : Char} (h : [a, b] ∈ pairOperators) : symbolKind a = .operator := by
  simp only [pairOperators, List.mem_cons, List.cons.injEq, List.not_mem_nil, or_false, and_true] at h
  rcases h with ⟨rfl, rfl⟩ | ⟨rfl, rfl⟩ | ⟨rfl, rfl⟩ | ⟨rfl, rfl⟩ | ⟨rfl, rfl⟩ | ⟨rfl, rfl⟩ | ⟨rfl, rfl⟩ |
    ⟨rfl, rfl⟩ <;> decide

/-- What the lexer knows of each one-character operator. -/
theorem operatorSymbols_facts : ∀ a ∈ operatorSymbols, a ∉ ['\x27', '"', backquote, '['] ∧
    isWordStart a = false ∧ a.isDigit = false ∧ symbolKind a = .operator ∧ isBlank a = false := by
  intro a ha
  simp only [operatorSymbols, List.mem_cons, List.not_mem_nil, or_false] at ha
  rcases ha with rfl | rfl | rfl | rfl | rfl | rfl | rfl | rfl | rfl | rfl | rfl | rfl | rfl <;> decide

/-- The lexer reads a token of the lexer's shape back from its source form, followed by any text
    that does not run into it. -/
theorem readBack {t : Token} (ht : t.Lexical) {s : List Char} (hs : ∀ c ∈ s.head?, t.StopsAt c) :
    ∃ c r, t.render.toList = c :: r ∧ dropGap (c :: (r ++ s)) = none ∧ readToken c (r ++ s) = (t, s) := by
  obtain ⟨text, kind⟩ := t
  cases kind with
  | quoted => exact readBack_quote readToken_doubleQuote hs (by decide)
  | backquoted => exact readBack_quote readToken_backquote hs (by decide)
  | string => exact readBack_quote readToken_apostrophe hs (by decide)
  | bracketed =>
    refine ⟨'[', text.toList ++ [']'], by simp [render], dropGap_cons_of_start (by decide) _, ?_⟩
    rw [readToken_bracket, List.append_assoc, List.singleton_append, upTo_append ht]
    simp
  | blob =>
    refine ⟨'X', '\x27' :: text.toList ++ ['\x27'], by simp [render], dropGap_cons_of_start (by decide) _, ?_⟩
    simp only [List.cons_append]
    rw [readToken_blob (Or.inl rfl), List.append_assoc, List.singleton_append, upTo_append ht]
    simp
  | numeric =>
    simp only [Lexical] at ht
    split at ht
    · rename_i c r hcr
      obtain ⟨hstart, hback⟩ := ht
      have hend : EndsNumber s := fun x hx => hs x hx
      refine ⟨c, r, by simpa [render] using hcr, dropGap_cons_of_start ?_ _, ?_⟩
      · rcases hstart with hd | ⟨rfl, -⟩
        · have := isDigit_iff.mp hd
          simp only [isBlank, Bool.or_eq_false_iff, beq_eq_false_iff_ne, ne_eq, ← Char.toNat_inj]
          refine ⟨⟨⟨⟨⟨?_, ?_⟩, ?_⟩, ?_⟩, ?_⟩, ?_, ?_⟩ <;> simp <;> omega
        · decide
      · -- a point opens a number only before a digit, which the number's own text gives
        have hstart' : c.isDigit = true ∨ (c = '.' ∧ ∃ x ∈ (r ++ s).head?, x.isDigit = true) := by
          rcases hstart with hd | ⟨hc, x, hx, hd⟩
          · exact Or.inl hd
          · cases r with
            | nil => simp at hx
            | cons y r => exact Or.inr ⟨hc, x, by simpa using hx, hd⟩
        rw [readToken_number hstart', hback s hend, ← hcr, String.ofList_toList]
    · exact ht.elim
  | word => exact readBack_word ht.1 ht.2 hs
  | closer => exact readBack_word ht.1 ht.2 hs
  | operator =>
    simp only [Lexical] at ht
    rcases ht with ⟨hw, hk⟩ | hpair | ⟨a, ha, htext⟩
    · -- an operator word is read like any word
      refine readBack_word hw hk fun x hx => ?_
      have hstop := hs x hx
      cases hcr : text.toList with
      | nil => rw [hcr] at hw; exact hw.elim
      | cons c r =>
        rw [hcr] at hw
        cases r with
        | nil => simpa [StopsAt, hcr, hw.1] using hstop
        | cons d r => simpa [StopsAt, hcr, hw.1] using hstop
    · -- an operator of two characters is always read whole
      obtain ⟨a, b, hab⟩ : ∃ a b, text.toList = [a, b] := by
        simp only [pairOperators, List.mem_cons, List.not_mem_nil, or_false] at hpair
        rcases hpair with h | h | h | h | h | h | h | h <;> exact ⟨_, _, h⟩
      rw [hab] at hpair
      have hk := symbolKind_of_pair hpair
      refine ⟨a, [b], by simpa [render] using hab, dropGap_cons_of_start ?_ _, ?_⟩
      · simp only [pairOperators, List.mem_cons, List.cons.injEq, List.not_mem_nil, or_false, and_true] at hpair
        rcases hpair with ⟨rfl, rfl⟩ | ⟨rfl, rfl⟩ | ⟨rfl, rfl⟩ | ⟨rfl, rfl⟩ | ⟨rfl, rfl⟩ | ⟨rfl, rfl⟩ |
          ⟨rfl, rfl⟩ | ⟨rfl, rfl⟩ <;> decide
      · rw [List.singleton_append, readToken_pair hpair, ← hab, String.ofList_toList]
    · -- a one-character operator, which the next character must not extend
      obtain ⟨hq, hw, hd, hk, hb⟩ := operatorSymbols_facts a ha
      have hstop : ∀ x ∈ s.head?, [a, x] ∉ pairOperators ∧ ¬(a = '-' ∧ x = '-') ∧ ¬(a = '/' ∧ x = '*') ∧
          ¬(a = '.' ∧ x.isDigit = true) := by
        intro x hx
        have := hs x hx
        simpa [StopsAt, htext, hw] using this
      refine ⟨a, [], by simpa [render] using htext, ?_, ?_⟩
      · cases s with
        | nil => exact dropGap_cons_none hb (by simp) (by simp)
        | cons x s =>
          obtain ⟨-, hm, hsl, -⟩ := hstop x rfl
          exact dropGap_cons_none hb (fun h => by simpa using fun hx => hm ⟨h, hx⟩)
            (fun h => by simpa using fun hx => hsl ⟨h, hx⟩)
      · have hdot : ¬(a = '.' ∧ ∃ x ∈ ([] ++ s).head?, x.isDigit = true) := by
          rintro ⟨hdot, x, hx, hdx⟩
          exact (hstop x hx).2.2.2 ⟨hdot, hdx⟩
        have htext' : String.singleton a = text := String.toList_inj.mp (by rw [htext, String.toList_singleton])
        rw [readToken_symbol hq hw hd hdot]
        cases s with
        | nil => simp [hk, htext']
        | cons x s => simp [(hstop x rfl).1, hk, htext']
  | punct =>
    -- a character of its own: it starts nothing longer
    obtain ⟨c, htext, hk, hb, hw, hd, hq⟩ := ht
    have hop : ∀ d : Char, symbolKind d = .operator → c ≠ d := by
      rintro d hd' rfl
      rw [hk] at hd'
      cases hd'
    have htext' : String.singleton c = text := String.toList_inj.mp (by rw [htext, String.toList_singleton])
    refine ⟨c, [], by simpa [render] using htext, dropGap_cons_of_start ⟨hb, hop '-' (by decide), hop '/' (by decide)⟩ _, ?_⟩
    have hdot : ¬(c = '.' ∧ ∃ x ∈ ([] ++ s).head?, x.isDigit = true) := fun h => hop '.' (by decide) h.1
    rw [readToken_symbol hq hw hd hdot]
    cases s with
    | nil => simp [hk, htext']
    | cons x s =>
      have hpair : [c, x] ∉ pairOperators := fun h => by
        have := symbolKind_of_pair h
        rw [hk] at this
        cases this
      simp [hpair, hk, htext']

end SqlSchema.Token

namespace SqlSchema.Lexer

/-- The lexer reads a token of the lexer's shape back from its source form, and goes on with the text
    after it, provided that text does not run into the token. -/
theorem tokens_render_append {t : Token} (ht : t.Lexical) {s : List Char} (hs : ∀ c ∈ s.head?, t.StopsAt c) :
    tokens (t.render.toList ++ s) = t :: tokens s := by
  obtain ⟨c, r, hrender, hgap, hread⟩ := t.readBack ht hs
  rw [hrender, List.cons_append, tokens_of_skipGaps (skipGaps_of_dropGap_none hgap), hread]

/-- A bare word, operator word or closing word is read back from its text, whatever follows that
    cannot continue it. -/
theorem tokens_word_append {w : String} {k : TokenKind} (hw : IsWord w.toList) (hk : wordKind w = k)
    {s : List Char} (hs : ∀ c ∈ s.head?, EndsWord c) : tokens (w.toList ++ s) = ⟨w, k⟩ :: tokens s := by
  obtain ⟨c, r, hcr, hgap, hread⟩ := Token.readBack_word hw hk hs
  rw [hcr, List.cons_append, tokens_of_skipGaps (skipGaps_of_dropGap_none hgap), hread]

/-! ### The tokens the lexer gives -/

/-- After the gaps at its front, a text starts with no gap. -/
theorem dropGap_skipGaps (cs : List Char) : dropGap (skipGaps cs) = none := by
  fun_induction skipGaps cs with
  | case1 cs r h _ ih => exact ih
  | case2 cs h => exact h

theorem wordKind_cases (w : String) :
    wordKind w = .operator ∨ wordKind w = .closer ∨ wordKind w = .word := by
  unfold wordKind
  split
  · exact .inl rfl
  split
  · exact .inr (.inl rfl)
  · exact .inr (.inr rfl)

theorem symbolKind_cases (c : Char) :
    symbolKind c = .punct ∨ (symbolKind c = .operator ∧ c ∈ operatorSymbols) := by
  unfold symbolKind
  split
  · exact .inl rfl
  split
  · rename_i h
    exact .inr ⟨rfl, by simpa using h⟩
  · exact .inl rfl

theorem not_mem_takeWhile_ne (c : Char) (cs : List Char) : c ∉ cs.takeWhile (· != c) := by
  intro hc
  have := List.all_eq_true.mp List.all_takeWhile c hc
  simp at this

/-- A character that starts no other token is a token of its own, an operator or punctuation. -/
theorem symbol_lexical {c : Char} (hb : isBlank c = false) (hw : isWordStart c = false)
    (hd : c.isDigit = false) (hq : c ∉ ['\x27', '"', Token.backquote, '[']) :
    Token.Lexical ⟨String.singleton c, symbolKind c⟩ := by
  rcases symbolKind_cases c with hk | ⟨hk, hmem⟩
  · rw [hk]
    exact ⟨c, String.toList_singleton c, hk, hb, hw, hd, hq⟩
  · rw [hk]
    exact .inr (.inr ⟨c, hmem, String.toList_singleton c⟩)

/-- A point opens a number only before a digit, and that digit is the next character of the
    number. -/
theorem numberAfter_point {r : List Char} (hd : ∃ x ∈ r.head?, x.isDigit = true) :
    ∃ p, (numberAfter '.' r).1 = '.' :: p ∧ ∃ x ∈ p.head?, x.isDigit = true := by
  obtain ⟨x, hx, hdx⟩ := hd
  cases r with
  | nil => simp at hx
  | cons y r =>
    simp only [List.head?_cons, Option.mem_def, Option.some.injEq] at hx
    subst hx
    refine ⟨(afterPoint (y :: r)).1, by simp [numberAfter, decimalAfter], y, ?_, hdx⟩
    simp [afterPoint, List.takeWhile_cons_of_pos hdx]

/-- The lexer gives a token of the lexer's shape wherever a token starts. -/
theorem readToken_lexical {c : Char} {r : List Char} (hgap : dropGap (c :: r) = none) :
    (readToken c r).1.Lexical := by
  have hb : isBlank c = false := by
    cases hc : isBlank c
    · rfl
    · simp [dropGap, hc] at hgap
  unfold readToken
  split
  · trivial
  rename_i h1
  split
  · trivial
  rename_i h2
  split
  · trivial
  rename_i h3
  split
  · show ']' ∉ (String.ofList (upTo ']' r).1).toList
    simpa [upTo] using not_mem_takeWhile_ne ']' r
  rename_i h4
  split
  · show '\x27' ∉ (String.ofList (upTo '\x27' r.tail).1).toList
    simpa [upTo] using not_mem_takeWhile_ne '\x27' r.tail
  rename_i h5
  split
  · -- a number: it starts with a digit, or with a point before a digit, and reads back whole
    rename_i hnum
    have hsplit : numberAfter c r = ((numberAfter c r).1, (numberAfter c r).2) := rfl
    obtain ⟨p, htok, -, hback⟩ := numberAfter_readsBack hsplit
    show match (String.ofList (numberAfter c r).1).toList with
      | c :: r => (c.isDigit = true ∨ (c = '.' ∧ ∃ x ∈ r.head?, x.isDigit = true)) ∧
          ∀ s, EndsNumber s → numberAfter c (r ++ s) = (c :: r, s)
      | [] => False
    rw [String.toList_ofList, htok]
    refine ⟨?_, hback⟩
    simp only [Bool.or_eq_true, Bool.and_eq_true, beq_iff_eq] at hnum
    rcases hnum with hd | ⟨rfl, hd⟩
    · exact .inl hd
    · refine .inr ⟨rfl, ?_⟩
      have hd' : ∃ x ∈ r.head?, x.isDigit = true := by
        cases r with
        | nil => simp at hd
        | cons y r => exact ⟨y, rfl, by simpa using hd⟩
      obtain ⟨p', hp', hhead⟩ := numberAfter_point hd'
      rw [htok] at hp'
      cases hp'
      exact hhead
  rename_i h6
  split
  · -- a word, whose kind is the kind of its text
    rename_i hw
    have hword : IsWord (String.ofList (c :: r.takeWhile isWordChar)).toList := by
      rw [String.toList_ofList]
      exact ⟨hw, fun x hx => List.all_eq_true.mp List.all_takeWhile x hx⟩
    dsimp only
    generalize String.ofList (c :: r.takeWhile isWordChar) = w at hword ⊢
    rcases wordKind_cases w with hk | hk | hk <;> simp [Token.Lexical, hk, hword]
  -- a symbol: two characters of an operator, or one character of its own
  rename_i h7
  have hq : c ∉ ['\x27', '"', Token.backquote, '['] := by simp_all
  have hdigit : c.isDigit = false := by simp_all
  split
  · rename_i d r'
    split
    · rename_i hpair
      show Token.Lexical ⟨_, .operator⟩
      simp only [Token.Lexical, String.toList_ofList]
      exact .inr (.inl (by simpa using hpair))
    · exact symbol_lexical hb (by simpa using h7) hdigit hq
  · exact symbol_lexical hb (by simpa using h7) hdigit hq

/-- Every token the lexer gives has the lexer's shape. Induction on the lexer's own recursion: each
    token is read where the gaps in front of it end. -/
theorem tokens_lexical (cs : List Char) : ∀ t ∈ tokens cs, t.Lexical := by
  fun_induction tokens cs with
  | case1 cs h => simp
  | case2 cs c r h _ ih =>
    intro t ht
    rcases List.mem_cons.mp ht with rfl | ht
    · exact readToken_lexical (h ▸ dropGap_skipGaps cs)
    · exact ih t ht

end SqlSchema.Lexer

namespace SqlSchema

/-- Two words are the same keyword when their characters agree once each is upper-cased: the form
    in which `simp` and `decide` compare literal words character by character. -/
theorem sameWord_eq (a b : String) :
    sameWord a b = (a.toList.map Char.toUpper == b.toList.map Char.toUpper) := by
  rw [sameWord, Bool.eq_iff_iff, beq_iff_eq, beq_iff_eq, String.toUpper, String.toUpper,
    ← String.toList_map, ← String.toList_map, String.toList_inj]

theorem tokenize_lexical (s : String) : ∀ t ∈ tokenize s, t.Lexical :=
  Lexer.tokens_lexical s.toList

end SqlSchema

namespace SqlSchema.Token

open Lexer

/-! ### Characters that run into no token -/

/-- A character ends every token when it continues no word, closes no quote, completes no operator of
    two characters, and makes no comment or number of the operator before it; after a number it must
    not be a letter, digit or point either. -/
theorem stopsAt_of_inert (t : Token) {c : Char} (hw : EndsWord c)
    (hq : c ≠ '"' ∧ c ≠ backquote ∧ c ≠ '\x27') (hp : ∀ a, [a, c] ∉ pairOperators) (hm : c ≠ '-')
    (hs : c ≠ '*') (hd : c.isDigit = false) (hn : t.kind = .numeric → c.isAlphanum = false ∧ c ≠ '.') :
    t.StopsAt c := by
  obtain ⟨text, kind⟩ := t
  cases kind with
  | quoted => exact hq.1
  | backquoted => exact hq.2.1
  | string => exact hq.2.2
  | numeric => exact hn rfl
  | word | closer => exact hw
  | bracketed | blob | punct => trivial
  | operator =>
    show match text.toList with
      | [a] => if isWordStart a then EndsWord c else [a, c] ∉ pairOperators ∧ ¬(a = '-' ∧ c = '-') ∧
          ¬(a = '/' ∧ c = '*') ∧ ¬(a = '.' ∧ c.isDigit = true)
      | a :: _ => isWordStart a = true → EndsWord c
      | [] => True
    split
    · rename_i a _
      split
      · exact hw
      · exact ⟨hp a, fun h => hm h.2, fun h => hs h.2, fun h => by simp [hd] at h⟩
    · exact fun _ => hw
    · trivial

/-- A blank, `)` and `,` end every token. -/
theorem stopsAt_separator (t : Token) {c : Char} (hc : c = ' ' ∨ c = ')' ∨ c = ',') : t.StopsAt c := by
  rcases hc with rfl | rfl | rfl <;>
    exact stopsAt_of_inert t ⟨by decide, by decide⟩ (by decide) (by simp [pairOperators]) (by decide)
      (by decide) (by decide) fun _ => ⟨by decide, by decide⟩

/-- A blank ends every token. -/
theorem stopsAt_blank (t : Token) {c : Char} (hc : isBlank c = true) : t.StopsAt c := by
  simp only [isBlank, Bool.or_eq_true, beq_iff_eq] at hc
  rcases hc with (((rfl | rfl) | rfl) | rfl) | rfl <;>
    exact stopsAt_of_inert t ⟨by decide, by decide⟩ (by decide) (by simp [pairOperators]) (by decide)
      (by decide) (by decide) fun _ => ⟨by decide, by decide⟩

/-- A point ends every token but a number. -/
theorem stopsAt_point {t : Token} (hk : t.kind ≠ .numeric) : t.StopsAt '.' :=
  stopsAt_of_inert t ⟨by decide, by decide⟩ (by decide) (by simp [pairOperators]) (by decide) (by decide)
    (by decide) fun h => absurd h hk

end SqlSchema.Token
