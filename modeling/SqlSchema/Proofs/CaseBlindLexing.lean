import Mathlib
import SqlSchema.Proofs.Lexing

/-! # The lexer does not see ASCII case

Lowering the ASCII letters of a text lowers the texts of its tokens and changes nothing else
(`Lexer.tokens_lower`). Every test the lexer makes on a character is one that ASCII case does not
change: blanks, letters, digits, hexadecimal digits and word characters are classes closed under
it, and the characters it compares with are not letters, but for the `x` of a blob or a hexadecimal
prefix and the `e` of an exponent, which it takes in either case. Every token's text is decoded from
a piece of the input, character by character, so it is lowered with the input. -/

namespace SqlSchema

/-- The token with the ASCII letters of its text in lower case. -/
def Token.lower (t : Token) : Token :=
  { t with text := t.text.toLower }

@[simp] theorem Token.lower_kind (t : Token) : t.lower.kind = t.kind := rfl

@[simp] theorem Token.lower_text (t : Token) : t.lower.text = t.text.toLower := rfl

namespace Lexer

/-! ### Characters -/

/-- Lowering adds 32 to the code point of an upper-case ASCII letter and keeps any other
    character. -/
theorem toNat_toLower (c : Char) :
    c.toLower.toNat = if 65 ≤ c.toNat ∧ c.toNat ≤ 90 then c.toNat + 32 else c.toNat := by
  have hu : c.isUpper = true ↔ 65 ≤ c.toNat ∧ c.toNat ≤ 90 := by
    simp [Char.isUpper, UInt32.le_iff_toNat_le, Char.toNat_val]
  by_cases h : c.isUpper = true
  · have hr := hu.mp h
    rw [Char.toLower_eq_of_isUpper h, if_pos hr, Char.toNat_ofNat, if_pos]
    simp [Nat.isValidChar]
    omega
  · rw [Char.toLower_eq_of_not_isUpper h, if_neg (mt hu.mpr h)]

theorem isAlpha_iff {c : Char} :
    c.isAlpha = true ↔ (65 ≤ c.toNat ∧ c.toNat ≤ 90) ∨ (97 ≤ c.toNat ∧ c.toNat ≤ 122) := by
  simp [Char.isAlpha, Char.isUpper, Char.isLower, UInt32.le_iff_toNat_le, Char.toNat_val]

theorem isBlank_iff {c : Char} :
    isBlank c = true ↔ c.toNat = 32 ∨ c.toNat = 9 ∨ c.toNat = 10 ∨ c.toNat = 12 ∨ c.toNat = 13 := by
  simp [isBlank, ← Char.toNat_inj]
  omega

/-- Only `q` itself lowers to a character `q` that is not a letter. -/
@[simp] theorem toLower_eq_iff {c q : Char} (hq : q.isAlpha = false) : c.toLower = q ↔ c = q := by
  have hq' : ¬ ((65 ≤ q.toNat ∧ q.toNat ≤ 90) ∨ (97 ≤ q.toNat ∧ q.toNat ≤ 122)) := by
    rw [← isAlpha_iff, hq]
    simp
  rw [← Char.toNat_inj, ← Char.toNat_inj, toNat_toLower]
  split <;> omega

/-- A lower-case letter is the lowering of itself and of its upper case. -/
@[simp] theorem toLower_eq_lower_iff {c q : Char} (hq : q.isLower = true) :
    c.toLower = q ↔ c = q ∨ c = q.toUpper := by
  have hq' : 97 ≤ q.toNat ∧ q.toNat ≤ 122 := by
    simpa [Char.isLower, UInt32.le_iff_toNat_le, Char.toNat_val] using hq
  have hup : q.toUpper.toNat = q.toNat - 32 := by
    rw [Char.toUpper_eq_of_isLower hq, Char.toNat_ofNat, if_pos]
    simp [Nat.isValidChar]
    omega
  rw [← Char.toNat_inj, ← Char.toNat_inj, ← Char.toNat_inj, toNat_toLower, hup]
  split <;> omega

/-- Nothing lowers to an upper-case letter. -/
@[simp] theorem toLower_ne_upper {c q : Char} (hq : q.isUpper = true) : c.toLower = q ↔ False := by
  refine iff_false_intro fun h => ?_
  have := Char.isUpper_toLower_eq_false c
  rw [h, hq] at this
  exact Bool.noConfusion this

/-- A test on characters that ASCII case does not change. -/
def CaseBlind (p : Char → Bool) : Prop :=
  ∀ c, p c.toLower = p c

-- each class below is a union of code point ranges that holds an upper-case letter exactly when
-- it holds its lower case
@[simp] theorem isBlank_toLower (c : Char) : isBlank c.toLower = isBlank c := by
  rw [Bool.eq_iff_iff, isBlank_iff, isBlank_iff, toNat_toLower]
  split <;> omega

@[simp] theorem isDigit_toLower (c : Char) : c.toLower.isDigit = c.isDigit := by
  rw [Bool.eq_iff_iff, isDigit_iff, isDigit_iff, toNat_toLower]
  split <;> omega

@[simp] theorem isHexDigit_toLower (c : Char) : isHexDigit c.toLower = isHexDigit c := by
  rw [Bool.eq_iff_iff, isHexDigit_iff, isHexDigit_iff, toNat_toLower]
  split <;> omega

@[simp] theorem isWordStart_toLower (c : Char) : isWordStart c.toLower = isWordStart c := by
  rw [Bool.eq_iff_iff, isWordStart_iff, isWordStart_iff, toNat_toLower]
  split <;> omega

@[simp] theorem isWordChar_toLower (c : Char) : isWordChar c.toLower = isWordChar c := by
  rw [Bool.eq_iff_iff, isWordChar_iff, isWordChar_iff, toNat_toLower]
  split <;> omega

theorem caseBlind_ne {q : Char} (hq : q.isAlpha = false) : CaseBlind (· != q) := by
  intro c
  rw [Bool.eq_iff_iff, bne_iff_ne, bne_iff_ne, ne_eq, ne_eq, toLower_eq_iff hq]

theorem takeWhile_lower {p : Char → Bool} (hp : CaseBlind p) (cs : List Char) :
    (cs.map Char.toLower).takeWhile p = (cs.takeWhile p).map Char.toLower := by
  rw [List.takeWhile_map]
  congr 2
  funext c
  exact hp c

theorem dropWhile_lower {p : Char → Bool} (hp : CaseBlind p) (cs : List Char) :
    (cs.map Char.toLower).dropWhile p = (cs.dropWhile p).map Char.toLower := by
  rw [List.dropWhile_map]
  congr 2
  funext c
  exact hp c

theorem ofList_lower (cs : List Char) : String.ofList (cs.map Char.toLower) = (String.ofList cs).toLower := by
  rw [← String.toList_inj, String.toList_ofList, String.toLower, String.toList_map, String.toList_ofList]

/-! ### Gaps -/

theorem afterBlockComment_lower (cs : List Char) :
    afterBlockComment (cs.map Char.toLower) = (afterBlockComment cs).map Char.toLower := by
  fun_induction afterBlockComment cs with
  | case1 r => simp [afterBlockComment]
  | case2 c r hne ih =>
    -- the lowered text does not close the comment here either
    have hne' : ∀ r', c.toLower = '*' → r.map Char.toLower = '/' :: r' → False := by
      intro r' hc hr
      cases r with
      | nil => cases hr
      | cons d r'' =>
        simp only [List.map_cons, List.cons.injEq] at hr
        simp at hc hr
        exact hne r'' hc (by rw [hr.1])
    rw [List.map_cons, afterBlockComment.eq_2 _ _ hne', ih]
  | case3 => rfl

theorem dropGap_lower (cs : List Char) :
    dropGap (cs.map Char.toLower) = (dropGap cs).map (List.map Char.toLower) := by
  rcases cs with _ | ⟨c, _ | ⟨d, r⟩⟩
  · rfl
  · by_cases hb : isBlank c = true
    · simp [dropGap, hb, isBlank_toLower c]
    · simp [dropGap, hb, isBlank_toLower c]
  · by_cases hb : isBlank c = true
    · simp [dropGap, hb, isBlank_toLower c]
    by_cases h1 : c = '-' ∧ d = '-'
    · obtain ⟨rfl, rfl⟩ := h1
      simp [dropGap, hb, dropWhile_lower (caseBlind_ne (q := '\n') (by simp))]
    by_cases h2 : c = '/' ∧ d = '*'
    · obtain ⟨rfl, rfl⟩ := h2
      simp [dropGap, hb, afterBlockComment_lower]
    -- neither `--` nor `/*`, in either case
    simp only [List.map_cons, dropGap, isBlank_toLower c, hb, Bool.false_eq_true, ↓reduceIte]
    split <;> split <;> simp_all

theorem skipGaps_lower (cs : List Char) : skipGaps (cs.map Char.toLower) = (skipGaps cs).map Char.toLower := by
  fun_induction skipGaps cs with
  | case1 cs r h _ ih => rw [skipGaps_of_dropGap_some (by rw [dropGap_lower, h]; rfl), ih]
  | case2 cs h => rw [skipGaps_of_dropGap_none (by rw [dropGap_lower, h]; rfl)]

/-! ### The readers of a token -/

/-- A token's characters and the text after it, each lowered. -/
def lowerPair (p : List Char × List Char) : List Char × List Char :=
  (p.1.map Char.toLower, p.2.map Char.toLower)

theorem unquote_lower {q : Char} (hq : q.isAlpha = false) (cs : List Char) :
    Quoted.unquote q (cs.map Char.toLower) = lowerPair (Quoted.unquote q cs) := by
  have hql : q.toLower = q := (toLower_eq_iff hq).mpr rfl
  fun_induction Quoted.unquote q cs with
  | case1 => rfl
  | case2 => simp [Quoted.unquote, hql, lowerPair]
  | case3 c hc => simp [Quoted.unquote, toLower_eq_iff hq, hc, lowerPair]
  | case4 r ih => simp [Quoted.unquote, hql, ih, lowerPair]
  | case5 d r hd => simp [Quoted.unquote, toLower_eq_iff hq, hd, hql, lowerPair]
  | case6 c d r hc ih =>
    rw [List.map_cons] at ih
    simp [Quoted.unquote, toLower_eq_iff hq, hc, ih, lowerPair]

theorem upTo_lower {q : Char} (hq : q.isAlpha = false) (cs : List Char) :
    upTo q (cs.map Char.toLower) = lowerPair (upTo q cs) := by
  simp [upTo, takeWhile_lower (caseBlind_ne hq), dropWhile_lower (caseBlind_ne hq), lowerPair]

theorem exponentDigits_lower (cs : List Char) :
    exponentDigits (cs.map Char.toLower) = (exponentDigits cs).map lowerPair := by
  rcases cs with _ | ⟨s, _ | ⟨d, r⟩⟩
  · rfl
  · by_cases h : s.isDigit = true <;> simp [exponentDigits, isDigit_toLower s, h, lowerPair]
  · simp only [List.map_cons, exponentDigits]
    rw [← List.map_cons, ← List.map_cons, takeWhile_lower isDigit_toLower, dropWhile_lower isDigit_toLower,
      takeWhile_lower isDigit_toLower, dropWhile_lower isDigit_toLower]
    simp only [Bool.and_eq_true, Bool.or_eq_true, beq_iff_eq, isDigit_toLower,
      toLower_eq_iff (q := '+') (by simp), toLower_eq_iff (q := '-') (by simp)]
    split_ifs <;> simp [lowerPair]

theorem exponentPart_lower (cs : List Char) :
    exponentPart (cs.map Char.toLower) = lowerPair (exponentPart cs) := by
  cases cs with
  | nil => rfl
  | cons e r =>
    by_cases he : e = 'e' ∨ e = 'E'
    · cases hd : exponentDigits r with
      | none => simp [exponentPart, he, exponentDigits_lower, hd, lowerPair]
      | some p => simp [exponentPart, he, exponentDigits_lower, hd, lowerPair]
    · simp [exponentPart, he, lowerPair]

theorem afterPoint_lower (r : List Char) : afterPoint (r.map Char.toLower) = lowerPair (afterPoint r) := by
  simp [afterPoint, takeWhile_lower isDigit_toLower, dropWhile_lower isDigit_toLower, exponentPart_lower,
    lowerPair]

theorem decimalAfter_lower (c : Char) (r : List Char) :
    decimalAfter c.toLower (r.map Char.toLower) = lowerPair (decimalAfter c r) := by
  by_cases hc : c = '.'
  · subst hc
    simp [decimalAfter, afterPoint_lower, lowerPair]
  · rw [decimalAfter, decimalAfter]
    simp only [beq_iff_eq, toLower_eq_iff (q := '.') (by simp), hc, ↓reduceIte, dropWhile_lower isDigit_toLower]
    rcases hd : r.dropWhile Char.isDigit with _ | ⟨d, r'⟩
    · simp [takeWhile_lower isDigit_toLower, exponentPart, lowerPair]
    · by_cases hdot : d = '.'
      · subst hdot
        simp [takeWhile_lower isDigit_toLower, afterPoint_lower, lowerPair]
      · simp only [List.map_cons]
        split
        · rename_i heq
          simp at heq
          exact absurd heq.1 hdot
        · split
          · rename_i heq
            simp at heq
            exact absurd heq.1 hdot
          · rw [← List.map_cons, exponentPart_lower]
            simp [takeWhile_lower isDigit_toLower, lowerPair]

theorem numberAfter_lower (c : Char) (r : List Char) :
    numberAfter c.toLower (r.map Char.toLower) = lowerPair (numberAfter c r) := by
  by_cases hhex : c = '0' ∧ ∃ x h r', r = x :: h :: r'
  · obtain ⟨rfl, x, h, r', rfl⟩ := hhex
    have h0 : '0'.toLower = '0' := by simp
    simp only [List.map_cons, h0, numberAfter]
    by_cases hx : (x = 'x' ∨ x = 'X') ∧ isHexDigit h = true
    · simp [hx, isHexDigit_toLower h, takeWhile_lower isHexDigit_toLower,
        dropWhile_lower isHexDigit_toLower, lowerPair]
    · have hx' : ¬((x.toLower == 'x' || x.toLower == 'X') && isHexDigit h.toLower) = true := by
        simpa [isHexDigit_toLower h, or_comm] using hx
      have hx'' : ¬((x == 'x' || x == 'X') && isHexDigit h) = true := by
        simpa using hx
      rw [if_neg hx', if_neg hx'']
      have hd := decimalAfter_lower '0' (x :: h :: r')
      rwa [h0, List.map_cons, List.map_cons] at hd
  · -- no hexadecimal prefix: a decimal number on both sides
    have hlow : ∀ x h r', c.toLower = '0' → r.map Char.toLower = x :: h :: r' → False := by
      intro x h r' hc hr
      rcases r with _ | ⟨x', _ | ⟨h', r''⟩⟩ <;> simp at hr
      exact hhex ⟨by simpa using hc, x', h', r'', rfl⟩
    have horig : ∀ x h r', c = '0' → r = x :: h :: r' → False :=
      fun x h r' hc hr => hhex ⟨hc, x, h, r', hr⟩
    rw [numberAfter.eq_2 _ _ hlow, numberAfter.eq_2 _ _ horig, decimalAfter_lower]

/-! ### Tokens -/

theorem sameWord_toLower (a b : String) : sameWord a.toLower b = sameWord a b := by
  simp [sameWord, String.toUpper, String.toLower, String.map_map, Function.comp_def]

theorem wordKind_toLower (w : String) : wordKind w.toLower = wordKind w := by
  simp [wordKind, sameWord_toLower]

theorem pairOperators_contains_toLower (c d : Char) :
    pairOperators.contains [c, d.toLower] = pairOperators.contains [c, d] := by
  simp [pairOperators]

theorem readToken_lower (c : Char) (r : List Char) :
    readToken c.toLower (r.map Char.toLower) = ((readToken c r).1.lower, (readToken c r).2.map Char.toLower) := by
  have hbq : Token.backquote.toLower = Token.backquote := by decide
  have hba : Token.backquote.isAlpha = false := by decide
  have hbr : '[' ≠ Token.backquote := by decide
  by_cases h1 : c = '\x27'
  · subst h1
    simp [readToken, unquote_lower (q := '\x27') (by simp), ofList_lower, Token.lower, lowerPair]
  by_cases h2 : c = '"'
  · subst h2
    simp [readToken, unquote_lower (q := '"') (by simp), ofList_lower, Token.lower, lowerPair]
  by_cases h3 : c = Token.backquote
  · subst h3
    simp [readToken, unquote_lower hba, hbq, h1, h2, ofList_lower, Token.lower, lowerPair]
  by_cases h4 : c = '['
  · subst h4
    simp [readToken, upTo_lower (q := ']') (by simp), hbr, ofList_lower, Token.lower, lowerPair]
  have hq : c.toLower ≠ '\x27' ∧ c.toLower ≠ '"' ∧ c.toLower ≠ Token.backquote ∧ c.toLower ≠ '[' := by
    simp [h1, h2, h4, toLower_eq_iff (q := Token.backquote) (by decide), h3]
  simp only [readToken, beq_iff_eq, hq, h1, h2, h3, h4, ↓reduceIte]
  -- the tests that are left do not see case either
  have e5 : ((c.toLower == 'X' || c.toLower == 'x') && (r.map Char.toLower).head? == some '\x27') =
      ((c == 'X' || c == 'x') && r.head? == some '\x27') := by
    rw [Bool.eq_iff_iff]
    cases r <;> simp [or_comm]
  have e6 : (c.toLower.isDigit || c.toLower == '.' && ((r.map Char.toLower).head?.map Char.isDigit).getD false) =
      (c.isDigit || c == '.' && (r.head?.map Char.isDigit).getD false) := by
    rw [Bool.eq_iff_iff]
    cases r <;> simp
  rw [e5, e6, isWordStart_toLower c]
  split_ifs with h5 h6 h7
  · -- a blob
    rw [← List.map_tail, upTo_lower (q := '\x27') (by simp)]
    simp [ofList_lower, Token.lower, lowerPair]
  · -- a number
    simp [numberAfter_lower, ofList_lower, Token.lower, lowerPair]
  · -- a word
    rw [takeWhile_lower isWordChar_toLower, dropWhile_lower isWordChar_toLower, ← List.map_cons,
      ofList_lower, wordKind_toLower]
    rfl
  · -- a symbol, which is no letter
    have hc : c.toLower = c := by
      have ha : c.isAlpha = false := by
        simp only [isWordStart, Bool.or_eq_true, not_or] at h7
        simpa using h7.1.1
      exact (toLower_eq_iff ha).mpr rfl
    have hs : (String.singleton c).toLower = String.singleton c := by
      rw [← String.toList_inj, String.toLower, String.toList_map, String.toList_singleton, List.map_singleton, hc]
    rw [hc]
    cases r with
    | nil => simp [Token.lower, hs]
    | cons d r' =>
      simp only [List.map_cons, pairOperators_contains_toLower]
      split_ifs with hp
      · rw [show [c, d.toLower] = [c, d].map Char.toLower by simp [hc], ofList_lower]
        rfl
      · simp [Token.lower, hs]

/-- Lowering a text lowers its tokens. -/
theorem tokens_lower (cs : List Char) : tokens (cs.map Char.toLower) = (tokens cs).map Token.lower := by
  fun_induction tokens cs with
  | case1 cs h => rw [tokens_of_skipGaps_nil (by rw [skipGaps_lower, h]; rfl)]; rfl
  | case2 cs c r h _ ih =>
    rw [tokens_of_skipGaps (by rw [skipGaps_lower, h]; rfl), readToken_lower, ih]
    rfl

theorem tokenize_toLower (x : String) : tokenize x.toLower = (tokenize x).map Token.lower := by
  rw [tokenize, tokenize, String.toLower, String.toList_map, tokens_lower]

/-- Two texts that differ only in the ASCII case of letters have the same tokens up to the case of
    their texts. -/
theorem tokenize_lower_eq {x x' : String} (h : x.toLower = x'.toLower) :
    (tokenize x).map Token.lower = (tokenize x').map Token.lower := by
  rw [← tokenize_toLower, h, tokenize_toLower]

end Lexer

end SqlSchema
