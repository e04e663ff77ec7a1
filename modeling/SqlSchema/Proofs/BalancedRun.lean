import SqlSchema.Proofs.Cursor
import SqlSchema.Statement.Reader

/-! # Skipping a balanced run

The reader skips the clauses it does not keep (a `CHECK`, a generated column's body, a foreign key's
column list) as one run of tokens balanced in parentheses. `skipBalanced` takes a `(` and then token
after token, counting the parentheses still open, until none is. Only the punctuation tokens `(`
and `)` count: a name or a string with a parenthesis in its text does not.

Main statement (`skipBalanced_spec`): it succeeds exactly when the tokens start with `(` and some
prefix of them is balanced, and then it takes exactly the shortest such prefix and leaves the rest.
It fails at a first token other than `(`, at the end of the tokens when there is none, and at the
end of the tokens, waiting for `)`, when no prefix closes. The loop is taken apart one round at a
time: a round takes one token and moves the count by that token's step (`closeRound_cons`), and a run
of rounds from `n` open parentheses stops right after the shortest prefix that closes them all
(`closeLoop_cases`). -/

namespace SqlSchema

/-- How a token moves the number of open parentheses: `(` opens one, `)` closes one. -/
def Token.parenStep (t : Token) : Int :=
  if t.isPunct '(' then 1 else if t.isPunct ')' then -1 else 0

/-- The number of parentheses a run of tokens leaves open: those it opens less those it closes. -/
def parenDepth (ts : List Token) : Int :=
  (ts.map Token.parenStep).sum

@[simp] theorem parenDepth_nil : parenDepth [] = 0 := rfl

@[simp] theorem parenDepth_cons (t : Token) (ts : List Token) :
    parenDepth (t :: ts) = t.parenStep + parenDepth ts := by
  simp [parenDepth]

/-- A balanced run: a non-empty run that closes every parenthesis it opens. -/
def Balanced (p : List Token) : Prop :=
  p ≠ [] ∧ parenDepth p = 0

/-- A run that closes all of `n` open parentheses, while no shorter non-empty prefix of it does. -/
def ClosesFrom (n : Int) (p : List Token) : Prop :=
  p ≠ [] ∧ n + parenDepth p = 0 ∧ ∀ k, 0 < k → k < p.length → n + parenDepth (p.take k) ≠ 0

/-- The run that `skipBalanced` takes: it opens with `(`, and it is the shortest balanced prefix of
    itself. -/
def ShortestBalanced (p : List Token) : Prop :=
  p.head?.any (·.isPunct '(') = true ∧ ClosesFrom 0 p

/-! ### Shortest closing runs -/

/-- Two runs that both close the same count first are the same prefix of the tokens. -/
theorem ClosesFrom.unique {n : Int} {p p' rest rest' : List Token} (h : ClosesFrom n p)
    (h' : ClosesFrom n p') (heq : p ++ rest = p' ++ rest') : p = p' ∧ rest = rest' := by
  -- the shorter run is a prefix of the longer one, which it would close too early
  have shorter : ∀ {p p' a : List Token}, ClosesFrom n p → ClosesFrom n p' → p' = p ++ a → a = [] := by
    intro p p' a h h' hp'
    by_contra ha
    have hlen : p.length < p'.length := by
      rw [hp', List.length_append]
      have := List.length_pos_of_ne_nil ha
      omega
    have htake : p'.take p.length = p := by rw [hp', List.take_left]
    have hpos : 0 < p.length := List.length_pos_of_ne_nil h.1
    exact h'.2.2 p.length hpos hlen (by rw [htake]; exact h.2.1)
  rcases List.append_eq_append_iff.mp heq with ⟨a, hp', hrest⟩ | ⟨c, hp, hrest'⟩
  · obtain rfl := shorter h h' hp'
    simp_all
  · obtain rfl := shorter h' h hp
    simp_all

theorem closesFrom_singleton {n : Int} {t : Token} (h : n + t.parenStep = 0) : ClosesFrom n [t] :=
  ⟨List.cons_ne_nil t [], by simpa using h, fun k hk hlt => by simp at hlt; omega⟩

/-- A longer run closes from `n` when its first token leaves a count other than zero and the rest
    closes from that count. -/
theorem closesFrom_cons {n : Int} {t : Token} {p : List Token} (hne : n + t.parenStep ≠ 0) :
    ClosesFrom n (t :: p) ↔ ClosesFrom (n + t.parenStep) p := by
  constructor
  · rintro ⟨-, hd, hk⟩
    refine ⟨fun hp => ?_, by simp at hd; omega, fun k hk0 hlt => ?_⟩
    · subst hp
      exact hne (by simpa using hd)
    · have := hk (k + 1) (by omega) (by simp; omega)
      simp only [List.take_succ_cons, parenDepth_cons] at this
      omega
  · rintro ⟨hp, hd, hk⟩
    refine ⟨List.cons_ne_nil t p, by simp; omega, fun k hk0 hlt => ?_⟩
    obtain ⟨j, rfl⟩ : ∃ j, k = j + 1 := ⟨k - 1, by omega⟩
    simp only [List.take_succ_cons, parenDepth_cons]
    rcases Nat.eq_zero_or_pos j with rfl | hj
    · simpa using hne
    · have := hk j hj (by simp at hlt; omega)
      omega

/-! ### The loop of `skipBalanced` -/

namespace Reader

open Cursor

/-- One round of `skipBalanced`'s loop: take a token, count it, and go on while a parenthesis is
    open. -/
def closeRound (depth : Nat) : Cursor (Nat × Bool) := do
  let t ← next ")"
  let d := if t.isPunct '(' then depth + 1 else if t.isPunct ')' then depth - 1 else depth
  pure (d, 0 < d)

theorem skipBalanced_eq_loop : skipBalanced = (do
    expectPunct '('
    let _ ← repeatWhile closeRound 1
    pure ()) := rfl

theorem closeRound_nil (depth : Nat) : closeRound depth [] = .error (.unexpectedEnd ")") := rfl

/-- A round takes the next token and moves the count by its step. -/
theorem closeRound_cons {depth : Nat} (hd : 0 < depth) (t : Token) (r : List Token) :
    ∃ d : Nat, (d : Int) = depth + t.parenStep ∧ closeRound depth (t :: r) = .ok ((d, 0 < d), r) := by
  refine ⟨if t.isPunct '(' then depth + 1 else if t.isPunct ')' then depth - 1 else depth, ?_, rfl⟩
  unfold Token.parenStep
  by_cases ho : t.isPunct '(' = true <;> by_cases hc : t.isPunct ')' = true <;> simp [ho, hc]; omega

/-- A run of rounds from `n` open parentheses either stops right after the shortest prefix that
    closes them, leaving the rest, or, when no prefix closes them, fails at the end of the tokens.
    Induction on the tokens, one round each. -/
theorem closeLoop_cases (ts : List Token) {n : Nat} (hn : 0 < n) :
    (∃ p rest, ts = p ++ rest ∧ ClosesFrom n p ∧ repeatWhile closeRound n ts = .ok (0, rest)) ∨
    ((∀ p, p <+: ts → p ≠ [] → (n : Int) + parenDepth p ≠ 0) ∧
      repeatWhile closeRound n ts = .error (.unexpectedEnd ")")) := by
  induction ts generalizing n with
  | nil =>
    refine .inr ⟨fun p hp hne => absurd (List.prefix_nil.mp hp) hne, ?_⟩
    rw [repeatWhile, closeRound_nil]
  | cons t r ih =>
    obtain ⟨d, hd, hround⟩ := closeRound_cons hn t r
    rcases Nat.eq_zero_or_pos d with rfl | hpos
    · -- the token closes the last open parenthesis
      refine .inl ⟨[t], r, rfl, closesFrom_singleton (by omega), ?_⟩
      exact repeatWhile_last hround
    · have hne : (n : Int) + t.parenStep ≠ 0 := by omega
      rw [repeatWhile_more (by simpa [hpos] using hround) (by simp)]
      rcases ih hpos with ⟨p, rest, rfl, hp, hloop⟩ | ⟨hnone, hloop⟩
      · exact .inl ⟨t :: p, rest, rfl, (closesFrom_cons hne).mpr (by rwa [← hd]), hloop⟩
      · refine .inr ⟨fun p hp hpne => ?_, hloop⟩
        rcases List.prefix_cons_iff.mp hp with rfl | ⟨p', rfl, hp'⟩
        · exact absurd rfl hpne
        · cases p' with
          | nil => simpa using hne
          | cons u p'' =>
            have := hnone _ hp' (List.cons_ne_nil u p'')
            simp only [parenDepth_cons] at this ⊢
            omega

/-! ### `skipBalanced` -/

/-- The three ways `skipBalanced` goes: past the shortest prefix that closes the `(` it starts with,
    or failing where `(` or `)` was due. -/
theorem skipBalanced_cases (ts : List Token) :
    (ts = [] ∧ skipBalanced ts = .error (.unexpectedEnd "(")) ∨
    (∃ t r, ts = t :: r ∧ t.isPunct '(' = false ∧ skipBalanced ts = .error (.unexpectedToken "(" t)) ∨
    (∃ t r, ts = t :: r ∧ t.isPunct '(' = true ∧
      ((∃ p rest, r = p ++ rest ∧ ClosesFrom 1 p ∧ skipBalanced ts = .ok ((), rest)) ∨
        ((∀ p, p <+: r → p ≠ [] → 1 + parenDepth p ≠ 0) ∧ skipBalanced ts = .error (.unexpectedEnd ")")))) := by
  rw [skipBalanced_eq_loop]
  cases ts with
  | nil => exact .inl ⟨rfl, rfl⟩
  | cons t r =>
    by_cases ht : t.isPunct '(' = true
    · refine .inr (.inr ⟨t, r, rfl, ht, ?_⟩)
      rw [bind_of_ok (expectPunct_cons ht r)]
      rcases closeLoop_cases r Nat.one_pos with ⟨p, rest, hr, hp, hloop⟩ | ⟨hnone, hloop⟩
      · exact .inl ⟨p, rest, hr, by simpa using hp, by rw [bind_of_ok hloop]; rfl⟩
      · refine .inr ⟨by simpa using hnone, ?_⟩
        show (StateT.bind (repeatWhile closeRound 1) fun _ => pure ()) r = _
        simp only [StateT.bind, hloop]
        rfl
    · have hx : expectPunct '(' (t :: r) = .error (.unexpectedToken "(" t) := by
        rw [expectPunct, eatPunct, eatIf_bind]
        simp [ht]
        rfl
      refine .inr (.inl ⟨t, r, rfl, by simpa using ht, ?_⟩)
      show (StateT.bind (expectPunct '(') _) (t :: r) = _
      simp only [StateT.bind, hx]
      rfl

/-- The run `skipBalanced` takes from tokens that open with `(`: a closing run of the tokens after
    it, counted from the one it opens. -/
theorem shortestBalanced_cons {t : Token} (ht : t.isPunct '(' = true) {p : List Token} :
    ShortestBalanced (t :: p) ↔ ClosesFrom 1 p := by
  have hstep : t.parenStep = 1 := by simp [Token.parenStep, ht]
  unfold ShortestBalanced
  rw [closesFrom_cons (by omega), hstep]
  simp [ht]

/-- After a `(`, a balanced run is the `(` and a run that closes it. -/
theorem balanced_cons {t : Token} (ht : t.isPunct '(' = true) {p : List Token} :
    Balanced (t :: p) ↔ 1 + parenDepth p = 0 := by
  have hstep : t.parenStep = 1 := by simp [Token.parenStep, ht]
  simp [Balanced, hstep]

theorem ShortestBalanced.balanced {p : List Token} (h : ShortestBalanced p) : Balanced p :=
  ⟨h.2.1, by simpa using h.2.2.1⟩

/-- What `skipBalanced` takes when it succeeds: the shortest balanced prefix. -/
theorem skipBalanced_ok_iff (ts rest : List Token) :
    skipBalanced ts = .ok ((), rest) ↔ ∃ p, ts = p ++ rest ∧ ShortestBalanced p := by
  rcases skipBalanced_cases ts with ⟨rfl, hrun⟩ | ⟨t, r, rfl, ht, hrun⟩ | ⟨t, r, rfl, ht, hcase⟩
  · simp only [hrun, reduceCtorEq, false_iff, not_exists, not_and]
    intro p hp hshort
    exact hshort.2.1 (List.append_eq_nil_iff.mp hp.symm).1
  · simp only [hrun, reduceCtorEq, false_iff, not_exists, not_and]
    intro p hp hshort
    obtain ⟨u, p', rfl⟩ := List.exists_cons_of_ne_nil hshort.2.1
    obtain ⟨rfl, -⟩ := List.cons.inj hp
    simpa [ht] using hshort.1
  · rcases hcase with ⟨p, rest', rfl, hp, hrun⟩ | ⟨hnone, hrun⟩
    · rw [hrun, Except.ok.injEq, Prod.mk.injEq]
      constructor
      · rintro ⟨-, rfl⟩
        exact ⟨t :: p, rfl, (shortestBalanced_cons ht).mpr hp⟩
      · rintro ⟨q, hq, hshort⟩
        obtain ⟨u, q', rfl⟩ := List.exists_cons_of_ne_nil hshort.2.1
        obtain ⟨rfl, hq'⟩ := List.cons.inj hq
        exact ⟨rfl, (hp.unique ((shortestBalanced_cons ht).mp hshort) hq').2⟩
    · simp only [hrun, reduceCtorEq, false_iff, not_exists, not_and]
      intro q hq hshort
      obtain ⟨u, q', rfl⟩ := List.exists_cons_of_ne_nil hshort.2.1
      obtain ⟨rfl, hq'⟩ := List.cons.inj hq
      have hc := (shortestBalanced_cons ht).mp hshort
      exact hnone q' ⟨rest, hq'.symm⟩ hc.1 (by simpa using hc.2.1)

/-- `skipBalanced` skips exactly one balanced run. It succeeds exactly when the tokens start with
    `(` and some prefix of them is balanced; it then takes exactly the shortest balanced prefix, up
    to the `)` that closes the first `(`, and leaves the rest untouched. Without a `(` first it
    fails at the first token, or at the end of the tokens when there is none, with `(` due; and
    when no prefix is balanced it fails at the end of the tokens with `)` due. -/
theorem skipBalanced_spec (ts : List Token) :
    (∀ rest, skipBalanced ts = .ok ((), rest) ↔ ∃ p, ts = p ++ rest ∧ ShortestBalanced p) ∧
    ((∃ rest, skipBalanced ts = .ok ((), rest)) ↔
      ts.head?.any (·.isPunct '(') = true ∧ ∃ p, p <+: ts ∧ Balanced p) ∧
    (ts = [] → skipBalanced ts = .error (.unexpectedEnd "(")) ∧
    (∀ t r, ts = t :: r → t.isPunct '(' = false → skipBalanced ts = .error (.unexpectedToken "(" t)) ∧
    (ts.head?.any (·.isPunct '(') = true → (∀ p, p <+: ts → ¬Balanced p) →
      skipBalanced ts = .error (.unexpectedEnd ")")) := by
  have hsucceeds : (∃ rest, skipBalanced ts = .ok ((), rest)) ↔
      ts.head?.any (·.isPunct '(') = true ∧ ∃ p, p <+: ts ∧ Balanced p := by
    constructor
    · rintro ⟨rest, hrun⟩
      obtain ⟨p, rfl, hshort⟩ := (skipBalanced_ok_iff ts rest).mp hrun
      obtain ⟨u, p', rfl⟩ := List.exists_cons_of_ne_nil hshort.2.1
      exact ⟨by simpa using hshort.1, u :: p', ⟨rest, rfl⟩, ShortestBalanced.balanced hshort⟩
    · rintro ⟨hopen, q, hq, hbal⟩
      rcases skipBalanced_cases ts with ⟨rfl, -⟩ | ⟨t, r, rfl, ht, -⟩ | ⟨t, r, rfl, ht, hcase⟩
      · simp at hopen
      · simp [ht] at hopen
      · rcases hcase with ⟨p, rest, -, -, hrun⟩ | ⟨hnone, -⟩
        · exact ⟨rest, hrun⟩
        · -- a balanced prefix is the `(` and a run after it that closes it
          exfalso
          rcases List.prefix_cons_iff.mp hq with rfl | ⟨q', rfl, hq'⟩
          · exact hbal.1 rfl
          · have hclose := (balanced_cons ht).mp hbal
            cases q' with
            | nil => simp at hclose
            | cons u q'' => exact hnone _ hq' (List.cons_ne_nil u q'') hclose
  refine ⟨skipBalanced_ok_iff ts, hsucceeds, ?_, ?_, ?_⟩
  · rintro rfl
    rcases skipBalanced_cases [] with ⟨-, hrun⟩ | ⟨t, r, h, -⟩ | ⟨t, r, h, -⟩
    · exact hrun
    · exact absurd h (List.cons_ne_nil t r).symm
    · exact absurd h (List.cons_ne_nil t r).symm
  · intro t r hts ht
    subst hts
    rcases skipBalanced_cases (t :: r) with ⟨h, -⟩ | ⟨t', r', h, -, hrun⟩ | ⟨t', r', h, ht', -⟩
    · exact absurd h (List.cons_ne_nil t r)
    · obtain ⟨rfl, rfl⟩ := List.cons.inj h
      exact hrun
    · obtain ⟨rfl, rfl⟩ := List.cons.inj h
      simp [ht] at ht'
  · intro hopen hno
    rcases skipBalanced_cases ts with ⟨rfl, -⟩ | ⟨t, r, rfl, ht, -⟩ | ⟨t, r, rfl, ht, hcase⟩
    · simp at hopen
    · simp [ht] at hopen
    · rcases hcase with ⟨p, rest, hr, hp, -⟩ | ⟨-, hrun⟩
      · exfalso
        exact hno (t :: p) ⟨rest, by rw [hr]; rfl⟩ ((balanced_cons ht).mpr hp.2.1)
      · exact hrun

/-- An unclosed body, `( a`: no prefix is balanced, so `skipBalanced` fails at the end, with `)`
    due. -/
theorem skipBalanced_spec_unclosed :
    skipBalanced [⟨"(", .punct⟩, ⟨"a", .word⟩] = .error (.unexpectedEnd ")") := by
  refine (skipBalanced_spec _).2.2.2.2 rfl fun p hp hbal => ?_
  rcases List.prefix_cons_iff.mp hp with rfl | ⟨q, rfl, hq⟩
  · exact hbal.1 rfl
  · rcases List.prefix_cons_iff.mp hq with rfl | ⟨q', rfl, hq'⟩
    · simp [Balanced, Token.parenStep, Token.isPunct] at hbal
    · obtain rfl := List.prefix_nil.mp hq'
      simp [Balanced, Token.parenStep, Token.isPunct] at hbal

end Reader

end SqlSchema
