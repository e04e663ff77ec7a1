import Mathlib
import SqlSchema.Token.ByteLexer
import SqlSchema.Proofs.TextPositions

/-! # Bytes at the offsets of the texts the lexer works on

The lexer over characters works on suffixes of the statement's characters; the lexer over bytes
stands at their byte offsets (`offsetIn`). From the offset of a suffix the bytes are those of its
characters (`byte?_offsetIn`), and a character past ASCII has only bytes past ASCII
(`byteChar_of_mem`). So a test that answers alike on every character past ASCII (`Uniform`) gives,
on each byte of a character, the character's own answer, and every byte loop of the byte reader
stops where the character reader stops: the skipping loops (`skipWhile_offsetIn`), the end of a
block comment (`commentEnd_offsetIn`) and the gaps between tokens (`skipGaps_offsetIn`). A cut
between the offsets of two suffixes lies between characters and gives the characters between them
(`slice_offsetIn`). -/

namespace SqlSchema.ByteLexer
/-! ## The bytes of a character -/

/-- A test on characters that gives one answer on every character past ASCII. The byte reader
    applies it to bytes, and every byte of a character past ASCII is past ASCII too, so there it
    gives the character's own answer. -/
def Uniform (p : Char → Bool) : Prop :=
  ∀ c d : Char, 128 ≤ c.toNat → 128 ≤ d.toNat → p c = p d

theorem Uniform.of_ascii {p : Char → Bool} (h : ∀ c, p c = true → c.toNat < 128) : Uniform p := by
  intro c d hc hd
  rw [Bool.eq_iff_iff]
  exact ⟨fun h' => absurd (h c h') (by omega), fun h' => absurd (h d h') (by omega)⟩

theorem Uniform.of_high {p : Char → Bool} (h : ∀ c, 128 ≤ c.toNat → p c = true) : Uniform p :=
  fun c d hc hd => by rw [h c hc, h d hd]

@[simp]
theorem toNat_byteChar (b : UInt8) : (byteChar b).toNat = b.toNat := by
  simp [byteChar, Char.ofUInt8, Char.toNat]

theorem byteChar_ofNat {c : Char} (hc : c.toNat < 128) : byteChar (UInt8.ofNat c.toNat) = c := by
  rw [← Char.toNat_inj, toNat_byteChar, UInt8.toNat_ofNat']
  omega

/-- A byte of a character is the character itself when it is ASCII, and past ASCII otherwise. -/
theorem byteChar_of_mem {c : Char} {b : UInt8} (hb : b ∈ String.utf8EncodeChar c) :
    (c.toNat < 128 ∧ byteChar b = c) ∨ (128 ≤ c.toNat ∧ 128 ≤ (byteChar b).toNat) := by
  have hv : c.val.toNat = c.toNat := rfl
  unfold String.utf8EncodeChar at hb
  simp only [hv] at hb
  split at hb
  · simp only [List.mem_singleton] at hb
    subst hb
    exact .inl ⟨by omega, byteChar_ofNat (by omega)⟩
  · refine .inr ⟨by omega, ?_⟩
    rw [toNat_byteChar]
    split at hb
    · simp only [List.mem_cons, List.not_mem_nil, or_false] at hb
      rcases hb with rfl | rfl <;> simp [UInt8.toNat_ofNat'] <;> omega
    split at hb
    · simp only [List.mem_cons, List.not_mem_nil, or_false] at hb
      rcases hb with rfl | rfl | rfl <;> simp [UInt8.toNat_ofNat'] <;> omega
    · simp only [List.mem_cons, List.not_mem_nil, or_false] at hb
      rcases hb with rfl | rfl | rfl | rfl <;> simp [UInt8.toNat_ofNat'] <;> omega

/-- A uniform test gives a character's own answer on each of its bytes. -/
theorem Uniform.byteChar_eq {p : Char → Bool} (hp : Uniform p) {c : Char} {b : UInt8}
    (hb : b ∈ String.utf8EncodeChar c) : p (byteChar b) = p c := by
  rcases byteChar_of_mem hb with ⟨-, h⟩ | ⟨hc, hb⟩
  · rw [h]
  · exact hp _ _ hb hc

/-- An ASCII character answers a uniform test for equality with itself. -/
theorem uniform_eq {a : Char} (ha : a.toNat < 128) : Uniform (· == a) :=
  Uniform.of_ascii fun c h => by simp only [beq_iff_eq] at h; subst h; exact ha

/-- A byte of a character reads as an ASCII character exactly when the character is that one. -/
theorem byteChar_eq_iff {c a : Char} {b : UInt8} (hb : b ∈ String.utf8EncodeChar c) (ha : a.toNat < 128) :
    byteChar b = a ↔ c = a := by
  simpa using (uniform_eq ha).byteChar_eq hb

theorem uniform_ne {a : Char} (ha : a.toNat < 128) : Uniform (· != a) := by
  intro c d hc hd
  simp only [bne, uniform_eq ha c d hc hd]

theorem uniform_isDigit : Uniform Char.isDigit :=
  Uniform.of_ascii fun c h => by rw [Lexer.isDigit_iff] at h; omega

theorem uniform_isHexDigit : Uniform Lexer.isHexDigit :=
  Uniform.of_ascii fun c h => by rw [Lexer.isHexDigit_iff] at h; omega

theorem uniform_isWordChar : Uniform Lexer.isWordChar :=
  Uniform.of_high fun c h => Lexer.isWordChar_iff.mpr (by omega)

theorem uniform_isWordStart : Uniform Lexer.isWordStart :=
  Uniform.of_high fun c h => Lexer.isWordStart_iff.mpr (by omega)

theorem isBlank_ascii {c : Char} (h : Lexer.isBlank c = true) : c.toNat < 128 := by
  simp only [Lexer.isBlank, Bool.or_eq_true, beq_iff_eq] at h
  rcases h with (((rfl | rfl) | rfl) | rfl) | rfl <;> decide

theorem uniform_isBlank : Uniform Lexer.isBlank :=
  Uniform.of_ascii fun _ => isBlank_ascii

/-! ## The bytes at the offset of a suffix -/

theorem getElem?_toByteArray (l : List UInt8) (i : Nat) : l.toByteArray[i]? = l[i]? := by
  by_cases h : i < l.length
  · have h' : i < l.toByteArray.size := by simpa [List.size_toByteArray] using h
    rw [getElem?_pos l.toByteArray i h', List.getElem?_eq_getElem h, List.getElem_toByteArray]
  · rw [getElem?_neg l.toByteArray i (by simpa [List.size_toByteArray] using h),
      List.getElem?_eq_none (by omega)]

/-- The bytes of a text are the bytes of its characters, one after another. -/
theorem byte?_eq (x : String) (i : Nat) : byte? x i = (x.toList.flatMap String.utf8EncodeChar)[i]? := by
  have hx : x.toUTF8 = (x.toList.flatMap String.utf8EncodeChar).toByteArray := by
    rw [String.toUTF8_eq_toByteArray]
    conv_lhs => rw [← String.ofList_toList (s := x)]
    rw [String.toByteArray_ofList]
    rfl
  rw [byte?, hx, getElem?_toByteArray]

theorem utf8ByteSize_ofList (l : List Char) :
    (String.ofList l).utf8ByteSize = (l.flatMap String.utf8EncodeChar).length := by
  rw [← String.size_toByteArray, String.toByteArray_ofList, List.utf8Encode, List.size_toByteArray]

theorem utf8ByteSize_ofList_cons (c : Char) (r : List Char) :
    (String.ofList (c :: r)).utf8ByteSize = c.utf8Size + (String.ofList r).utf8ByteSize := by
  simp [utf8ByteSize_ofList]

theorem utf8ByteSize_ofList_append (l m : List Char) :
    (String.ofList (l ++ m)).utf8ByteSize = (String.ofList l).utf8ByteSize + (String.ofList m).utf8ByteSize := by
  simp [utf8ByteSize_ofList]

theorem utf8ByteSize_eq_of_suffix {x : String} {cs : List Char} (hs : cs <:+ x.toList) :
    x.utf8ByteSize = (offsetIn x cs).byteIdx + (String.ofList cs).utf8ByteSize := by
  obtain ⟨pre, hpre⟩ := hs
  have : x.utf8ByteSize = (String.ofList pre).utf8ByteSize + (String.ofList cs).utf8ByteSize := by
    rw [← utf8ByteSize_ofList_append, hpre, String.ofList_toList]
  simp only [offsetIn]
  omega

@[simp]
theorem offsetIn_nil (x : String) : (offsetIn x []).byteIdx = x.utf8ByteSize := by
  simp [offsetIn]

/-- Past a character, the offset moves on by the character's bytes. -/
theorem offsetIn_cons {x : String} {c : Char} {r : List Char} (hs : c :: r <:+ x.toList) :
    (offsetIn x (c :: r)).byteIdx + c.utf8Size = (offsetIn x r).byteIdx := by
  have := utf8ByteSize_eq_of_suffix hs
  simp only [offsetIn, utf8ByteSize_ofList_cons] at this ⊢
  omega

theorem offsetIn_append {x : String} {m r : List Char} (hs : m ++ r <:+ x.toList) :
    (offsetIn x (m ++ r)).byteIdx + (String.ofList m).utf8ByteSize = (offsetIn x r).byteIdx := by
  have := utf8ByteSize_eq_of_suffix hs
  simp only [offsetIn, utf8ByteSize_ofList_append] at this ⊢
  omega

/-- From the offset of a suffix on, the bytes are those of the suffix's characters. -/
theorem byte?_offsetIn {x : String} {cs : List Char} (hs : cs <:+ x.toList) (i : Nat) :
    byte? x ((offsetIn x cs).byteIdx + i) = (cs.flatMap String.utf8EncodeChar)[i]? := by
  obtain ⟨pre, hpre⟩ := hs
  have hoff : (offsetIn x cs).byteIdx = (pre.flatMap String.utf8EncodeChar).length := by
    have : x.utf8ByteSize = (String.ofList pre).utf8ByteSize + (String.ofList cs).utf8ByteSize := by
      rw [← utf8ByteSize_ofList_append, hpre, String.ofList_toList]
    rw [← utf8ByteSize_ofList]
    simp only [offsetIn]
    omega
  rw [byte?_eq, ← hpre, List.flatMap_append, hoff, List.getElem?_append_right (by omega), Nat.add_sub_cancel_left]

/-- The bytes at the offset of a suffix that starts with `c` are the bytes of `c`. -/
theorem byte?_offsetIn_cons {x : String} {c : Char} {r : List Char} (hs : c :: r <:+ x.toList) {i : Nat}
    (hi : i < c.utf8Size) : ∃ b, byte? x ((offsetIn x (c :: r)).byteIdx + i) = some b ∧ b ∈ String.utf8EncodeChar c := by
  have hlen : i < (String.utf8EncodeChar c).length := by simpa using hi
  refine ⟨(String.utf8EncodeChar c)[i], ?_, List.getElem_mem hlen⟩
  rw [byte?_offsetIn hs, List.flatMap_cons, List.getElem?_append_left hlen, List.getElem?_eq_getElem hlen]

/-- The first byte of a character's encoding, as a character: the character itself when it is
    ASCII, and a character past ASCII otherwise. -/
def lead (c : Char) : Char := byteChar ((String.utf8EncodeChar c).headD 0)

theorem lead_mem (c : Char) : (String.utf8EncodeChar c).headD 0 ∈ String.utf8EncodeChar c := by
  have : 0 < (String.utf8EncodeChar c).length := by simpa using c.utf8Size_pos
  cases h : String.utf8EncodeChar c with
  | nil => simp [h] at this
  | cons b bs => simp

theorem Uniform.lead {p : Char → Bool} (hp : Uniform p) (c : Char) : p (lead c) = p c :=
  hp.byteChar_eq (lead_mem c)

theorem lead_eq_iff {c a : Char} (ha : a.toNat < 128) : lead c = a ↔ c = a :=
  byteChar_eq_iff (lead_mem c) ha

/-- The byte at the offset of a suffix is the first byte of its first character. -/
theorem char?_offsetIn_cons {x : String} {c : Char} {r : List Char} (hs : c :: r <:+ x.toList) :
    char? x (offsetIn x (c :: r)).byteIdx = some (lead c) := by
  have hlen : 0 < (String.utf8EncodeChar c).length := by simpa using c.utf8Size_pos
  have hb := byte?_offsetIn hs 0
  rw [Nat.add_zero, List.flatMap_cons, List.getElem?_append_left hlen] at hb
  cases h : String.utf8EncodeChar c with
  | nil => simp [h] at hlen
  | cons b bs => simp [char?, hb, h, lead]

theorem lead_of_ascii {c : Char} (h : c.toNat < 128) : lead c = c := (lead_eq_iff h).mpr rfl

/-- The byte at the offset of a suffix that starts with an ASCII character is that character. -/
theorem byte?_offsetIn_ascii {x : String} {c : Char} {r : List Char} (hs : c :: r <:+ x.toList)
    (hc : c.toNat < 128) : ∃ b, byte? x (offsetIn x (c :: r)).byteIdx = some b ∧ byteChar b = c :=
  char?_eq_some_iff.mp (by rw [char?_offsetIn_cons hs, lead_of_ascii hc])

@[simp]
theorem char?_end (x : String) : char? x x.utf8ByteSize = none := by
  simp [char?, byte?_eq_none_iff]

/-- A uniform test of the byte at the offset of a suffix gives its answer on the suffix's first character. -/
theorem char?_offsetIn_map {p : Char → Bool} (hp : Uniform p) {x : String} {c : Char} {r : List Char}
    (hs : c :: r <:+ x.toList) : (char? x (offsetIn x (c :: r)).byteIdx).map p = some (p c) := by
  rw [char?_offsetIn_cons hs, Option.map_some, hp.lead]

/-- A uniform test of the byte at the offset of a suffix is the test of its first character. -/
theorem char?_offsetIn_map_head {p : Char → Bool} (hp : Uniform p) {x : String} {cs : List Char}
    (hs : cs <:+ x.toList) : (char? x (offsetIn x cs).byteIdx).map p = cs.head?.map p := by
  cases cs with
  | nil => simp
  | cons c r => rw [char?_offsetIn_map hp hs]; rfl

/-- The byte at the offset of a suffix reads as an ASCII character exactly when the suffix starts
    with it. -/
theorem char?_offsetIn_eq_some {x : String} {cs : List Char} (hs : cs <:+ x.toList) {a : Char}
    (ha : a.toNat < 128) : char? x (offsetIn x cs).byteIdx = some a ↔ cs.head? = some a := by
  cases cs with
  | nil => simp
  | cons c r =>
    have := char?_offsetIn_map (uniform_eq ha) hs
    cases h : char? x (offsetIn x (c :: r)).byteIdx with
    | none => simp [h] at this
    | some d => simp_all

/-! ## The byte loops over a suffix -/

/-- Bytes that pass the test are stepped over one by one. -/
theorem skipWhile_run {p : Char → Bool} {x : String} {pos : Nat} :
    ∀ n, (∀ i < n, ∃ b, byte? x (pos + i) = some b ∧ p (byteChar b) = true) →
      skipWhile p x pos = skipWhile p x (pos + n)
  | 0, _ => rfl
  | n + 1, h => by
    rw [skipWhile_run n fun i hi => h i (by omega)]
    obtain ⟨b, hb, hp⟩ := h n (by omega)
    rw [skipWhile_of_byte hb, if_pos hp, Nat.add_assoc]

/-- From the offset of a suffix, the byte loop stops at the offset where the character loop stops:
    a character that passes the test passes it on each of its bytes, and one that fails it fails on
    its first. -/
theorem skipWhile_offsetIn {p : Char → Bool} (hp : Uniform p) {x : String} :
    ∀ {cs : List Char}, cs <:+ x.toList →
      skipWhile p x (offsetIn x cs).byteIdx = .ok (offsetIn x (cs.dropWhile p)).byteIdx
  | [], _ => by simp [skipWhile_of_none, byte?_eq_none_iff]
  | c :: r, hs => by
    have hr : r <:+ x.toList := (List.suffix_cons c r).trans hs
    by_cases hc : p c = true
    · rw [skipWhile_run c.utf8Size (fun i hi => ?_), offsetIn_cons hs, skipWhile_offsetIn hp hr,
        List.dropWhile_cons_of_pos hc]
      obtain ⟨b, hb, hmem⟩ := byte?_offsetIn_cons hs hi
      exact ⟨b, hb, (hp.byteChar_eq hmem).trans hc⟩
    · obtain ⟨b, hb, hmem⟩ := byte?_offsetIn_cons hs (i := 0) c.utf8Size_pos
      rw [Nat.add_zero] at hb
      rw [skipWhile_of_byte hb, if_neg (by rw [hp.byteChar_eq hmem]; exact hc),
        List.dropWhile_cons_of_neg (by simpa using hc)]

theorem utf8Size_of_ascii {c : Char} (h : c.toNat < 128) : c.utf8Size = 1 := by
  rw [Char.utf8Size_eq_one_iff, UInt32.le_iff_toNat_le]
  exact Nat.le_of_lt_succ h

/-- A byte that does not open a `*/` is stepped over; at the last byte the comment runs to the end
    either way. -/
theorem commentEnd_step {x : String} {pos : Nat} {b : UInt8} (hb : byte? x pos = some b)
    (hnot : ¬(byteChar b = '*' ∧ char? x (pos + 1) = some '/')) : commentEnd x pos = commentEnd x (pos + 1) := by
  have hpos := lt_of_byte?_eq_some hb
  unfold commentEnd
  by_cases hlt : pos + 1 < x.utf8ByteSize
  · have hstop : commentStop x pos = commentStop x (pos + 1) := by
      rw [commentStop, dif_pos hlt]
      simp only [byteAt, hb, bind, Except.bind]
      by_cases hstar : byteChar b = '*'
      · cases hd : byte? x (pos + 1) with
        | none => exact absurd (byte?_eq_none_iff.mp hd) (by omega)
        | some d =>
          have hd' : byteChar d ≠ '/' := fun h => hnot ⟨hstar, by simp [char?, hd, h]⟩
          simp [hstar, hd', Functor.map, Except.map]
      · simp [hstar, pure, Except.pure]
    rw [hstop]
  · rw [commentStop, dif_neg hlt, commentStop, dif_neg (by omega)]
    simp only [Functor.map, Except.map, Except.ok.injEq]
    omega

theorem commentEnd_run {x : String} {pos : Nat} :
    ∀ n, (∀ i < n, ∃ b, byte? x (pos + i) = some b ∧ ¬(byteChar b = '*' ∧ char? x (pos + i + 1) = some '/')) →
      commentEnd x pos = commentEnd x (pos + n)
  | 0, _ => rfl
  | n + 1, h => by
    rw [commentEnd_run n fun i hi => h i (by omega)]
    obtain ⟨b, hb, hnot⟩ := h n (by omega)
    rw [commentEnd_step hb hnot, Nat.add_assoc]

/-- From the offset of a suffix, a block comment ends at the offset of the text the character
    reader leaves after it. -/
theorem commentEnd_offsetIn {x : String} {cs : List Char} (hs : cs <:+ x.toList) :
    commentEnd x (offsetIn x cs).byteIdx = .ok (offsetIn x (Lexer.afterBlockComment cs)).byteIdx := by
  fun_induction Lexer.afterBlockComment cs with
  | case1 r =>
    -- a star and a slash, one byte each
    have hs' := (List.suffix_cons _ _).trans hs
    have hr := (List.suffix_cons _ _).trans hs'
    have h1 := offsetIn_cons hs
    have h2 := offsetIn_cons hs'
    have hend := utf8ByteSize_eq_of_suffix hr
    simp only [utf8Size_of_ascii (c := '*') (by decide), utf8Size_of_ascii (c := '/') (by decide)] at h1 h2
    obtain ⟨b, hb, hbc⟩ := byte?_offsetIn_ascii hs (by decide)
    obtain ⟨d, hd, hdc⟩ := byte?_offsetIn_ascii hs' (by decide)
    rw [← h1] at hd
    unfold commentEnd
    rw [commentStop, dif_pos (by omega)]
    simp only [byteAt, hb, hd, hbc, hdc, bind, Except.bind, Functor.map, Except.map, beq_self_eq_true,
      if_true, Except.ok.injEq]
    omega
  | case2 c r hne ih =>
    have hr := (List.suffix_cons c r).trans hs
    rw [commentEnd_run c.utf8Size (fun i hi => ?_), offsetIn_cons hs, ih hr]
    obtain ⟨b, hb, hmem⟩ := byte?_offsetIn_cons hs hi
    refine ⟨b, hb, fun hopen => ?_⟩
    obtain ⟨hstar, hslash⟩ := hopen
    rcases byteChar_of_mem hmem with ⟨hasc, hbc⟩ | ⟨-, hhigh⟩
    · -- an ASCII star is one byte, and the byte after it starts the rest, which is not a slash
      have hone := utf8Size_of_ascii hasc
      obtain rfl : i = 0 := by omega
      have hnext : (offsetIn x (c :: r)).byteIdx + 0 + 1 = (offsetIn x r).byteIdx := by
        rw [← offsetIn_cons hs, hone]
      rw [hnext, char?_offsetIn_eq_some hr (by decide)] at hslash
      rw [hbc] at hstar
      cases r with
      | nil => simp at hslash
      | cons d t =>
        simp only [List.head?_cons, Option.some.injEq] at hslash
        exact hne t hstar (by rw [hslash])
    · rw [hstar] at hhigh
      exact absurd hhigh (by decide)
  | case3 =>
    simp [commentEnd, commentStop, Functor.map, Except.map]

/-! ## Cuts between the offsets of two suffixes -/

theorem extract_go₂ : ∀ (mid rest : List Char) (k : Nat),
    String.Pos.Raw.extract.go₂ (mid ++ rest) ⟨k⟩ ⟨k + (String.ofList mid).utf8ByteSize⟩ = mid
  | [], rest, k => by cases rest <;> simp [String.Pos.Raw.extract.go₂]
  | d :: ds, rest, k => by
    have hpos := d.utf8Size_pos
    have hne : (⟨k⟩ : String.Pos.Raw) ≠ ⟨k + (String.ofList (d :: ds)).utf8ByteSize⟩ := by
      intro h
      have h2 : k = k + (String.ofList (d :: ds)).utf8ByteSize := congrArg String.Pos.Raw.byteIdx h
      rw [utf8ByteSize_ofList_cons] at h2
      omega
    simp only [List.cons_append, String.Pos.Raw.extract.go₂, if_neg hne]
    have hadd : (⟨k⟩ : String.Pos.Raw) + d = ⟨k + d.utf8Size⟩ := rfl
    rw [hadd, utf8ByteSize_ofList_cons, ← Nat.add_assoc]
    exact congrArg (d :: ·) (extract_go₂ ds rest (k + d.utf8Size))

theorem extract_go₁ (e : String.Pos.Raw) : ∀ (pre rest : List Char) (k : Nat),
    String.Pos.Raw.extract.go₁ (pre ++ rest) ⟨k⟩ ⟨k + (String.ofList pre).utf8ByteSize⟩ e =
      String.Pos.Raw.extract.go₂ rest ⟨k + (String.ofList pre).utf8ByteSize⟩ e
  | [], rest, k => by cases rest <;> simp [String.Pos.Raw.extract.go₁, String.Pos.Raw.extract.go₂]
  | d :: ds, rest, k => by
    have hpos := d.utf8Size_pos
    have hne : (⟨k⟩ : String.Pos.Raw) ≠ ⟨k + (String.ofList (d :: ds)).utf8ByteSize⟩ := by
      intro h
      have h2 : k = k + (String.ofList (d :: ds)).utf8ByteSize := congrArg String.Pos.Raw.byteIdx h
      rw [utf8ByteSize_ofList_cons] at h2
      omega
    simp only [List.cons_append, String.Pos.Raw.extract.go₁, if_neg hne]
    have hadd : (⟨k⟩ : String.Pos.Raw) + d = ⟨k + d.utf8Size⟩ := rfl
    rw [hadd, utf8ByteSize_ofList_cons, ← Nat.add_assoc]
    exact extract_go₁ e ds rest (k + d.utf8Size)

/-- The text between the byte offsets of a prefix and of the characters after it. -/
theorem extract_eq {s : String} {pre mid rest : List Char} (h : s.toList = pre ++ mid ++ rest) :
    String.Pos.Raw.extract s ⟨(String.ofList pre).utf8ByteSize⟩
      ⟨(String.ofList pre).utf8ByteSize + (String.ofList mid).utf8ByteSize⟩ = String.ofList mid := by
  cases mid with
  | nil => simp [String.Pos.Raw.extract]
  | cons d ds =>
    have hpos := d.utf8Size_pos
    have hlt : ¬ ((String.ofList pre).utf8ByteSize + (String.ofList (d :: ds)).utf8ByteSize ≤
        (String.ofList pre).utf8ByteSize) := by
      rw [utf8ByteSize_ofList_cons]; omega
    simp only [String.Pos.Raw.extract, ge_iff_le]
    rw [if_neg (by simpa [String.Pos.Raw.le_iff] using hlt)]
    congr 1
    rw [h, List.append_assoc, show (0 : String.Pos.Raw) = ⟨0⟩ from rfl,
      show (⟨(String.ofList pre).utf8ByteSize⟩ : String.Pos.Raw) = ⟨0 + (String.ofList pre).utf8ByteSize⟩ by simp,
      extract_go₁ _ pre ((d :: ds) ++ rest) 0]
    simpa using extract_go₂ (d :: ds) rest (String.ofList pre).utf8ByteSize

/-- Cutting the text between the offsets of two suffixes gives the characters between them: both
    offsets lie between characters, so the cut does not fault. -/
theorem slice_offsetIn {x : String} {m r : List Char} (hs : m ++ r <:+ x.toList) :
    slice x (offsetIn x (m ++ r)).byteIdx (offsetIn x r).byteIdx = .ok (String.ofList m) := by
  have hr : r <:+ x.toList := (List.suffix_append m r).trans hs
  have hoff := offsetIn_append hs
  have hvalid := (offsetIn_isValid hs).1
  have hvalid' := (offsetIn_isValid hr).1
  obtain ⟨pre, hpre⟩ := hs
  have hpos : (offsetIn x (m ++ r)).byteIdx = (String.ofList pre).utf8ByteSize := by
    have := utf8ByteSize_eq_of_suffix ⟨pre, hpre⟩
    have h2 : x.utf8ByteSize = (String.ofList pre).utf8ByteSize + (String.ofList (m ++ r)).utf8ByteSize := by
      rw [← utf8ByteSize_ofList_append, hpre, String.ofList_toList]
    omega
  rw [slice, if_pos ⟨by omega, hvalid, hvalid'⟩, ← hoff, hpos]
  exact congrArg Except.ok (extract_eq (by rw [← hpre, List.append_assoc]))

/-- The text from the offset of a suffix to the end. -/
theorem slice_offsetIn_end {x : String} {cs : List Char} (hs : cs <:+ x.toList) :
    slice x (offsetIn x cs).byteIdx x.utf8ByteSize = .ok (String.ofList cs) := by
  have := slice_offsetIn (m := cs) (r := []) (by simpa using hs)
  simpa using this

/-! ## Gaps -/

theorem skipGaps_of_byte {x : String} {pos : Nat} {b : UInt8} (hb : byte? x pos = some b) :
    skipGaps x pos =
      if Lexer.isBlank (byteChar b) then skipGaps x (pos + 1)
      else if byteChar b = '-' ∧ char? x (pos + 1) = some '-' then skipWhile (· != '\n') x (pos + 2) >>= skipGaps x
      else if byteChar b = '/' ∧ char? x (pos + 1) = some '*' then commentEnd x (pos + 2) >>= skipGaps x
      else .ok pos := by
  rw [skipGaps, if_pos (lt_of_byte?_eq_some hb)]
  simp only [byteAt, hb, bind, Except.bind, Bool.and_eq_true, beq_iff_eq]
  split_ifs
  · rfl
  · -- a match on the result of the loop is a bind
    split <;> rename_i hq <;> simp [hq]
  · split <;> rename_i hq <;> simp [hq, commentEnd, Functor.map, Except.map]
  · rfl

/-- The first byte of a suffix's first character. -/
theorem byte?_offsetIn_head {x : String} {c : Char} {r : List Char} (hs : c :: r <:+ x.toList) :
    ∃ b, byte? x (offsetIn x (c :: r)).byteIdx = some b ∧ b ∈ String.utf8EncodeChar c := by
  simpa using byte?_offsetIn_cons hs (i := 0) c.utf8Size_pos

/-- The offset after an ASCII character at the front of a suffix. -/
theorem offsetIn_ascii {x : String} {c : Char} {r : List Char} (hs : c :: r <:+ x.toList) (hc : c.toNat < 128) :
    (offsetIn x (c :: r)).byteIdx + 1 = (offsetIn x r).byteIdx := by
  rw [← offsetIn_cons hs, utf8Size_of_ascii hc]

/-- One blank or comment at the front of a suffix: the byte reader steps over it to the offset of
    the text the character reader leaves. -/
theorem skipGaps_of_dropGap {x : String} {cs r : List Char} (hs : cs <:+ x.toList)
    (h : Lexer.dropGap cs = some r) : skipGaps x (offsetIn x cs).byteIdx = skipGaps x (offsetIn x r).byteIdx := by
  cases cs with
  | nil => simp [Lexer.dropGap] at h
  | cons c t =>
    have ht := (List.suffix_cons c t).trans hs
    obtain ⟨b, hb, hmem⟩ := byte?_offsetIn_head hs
    rw [skipGaps_of_byte hb, uniform_isBlank.byteChar_eq hmem]
    simp only [Lexer.dropGap] at h
    split at h
    · -- a blank is one ASCII byte
      rename_i hblank
      cases h
      rw [if_pos hblank, offsetIn_ascii hs (isBlank_ascii hblank)]
    · rename_i hblank
      rw [if_neg hblank]
      split at h
      · -- a line comment: two dashes, then up to the line feed
        rename_i r'
        cases h
        have h1 := offsetIn_ascii hs (c := '-') (by decide)
        have h2 := offsetIn_ascii ht (c := '-') (by decide)
        have hr' := (List.suffix_cons _ _).trans ht
        have hnext : char? x ((offsetIn x ('-' :: '-' :: r')).byteIdx + 1) = some '-' := by
          rw [h1]; exact (char?_offsetIn_eq_some ht (by decide)).mpr rfl
        rw [if_pos ⟨(byteChar_eq_iff hmem (by decide)).mpr rfl, hnext⟩,
          show (offsetIn x ('-' :: '-' :: r')).byteIdx + 2 = (offsetIn x r').byteIdx by omega,
          skipWhile_offsetIn (uniform_ne (by decide)) hr']
        rfl
      · -- a block comment: a slash and a star, then past the first star and slash
        rename_i r'
        cases h
        have h1 := offsetIn_ascii hs (c := '/') (by decide)
        have h2 := offsetIn_ascii ht (c := '*') (by decide)
        have hr' := (List.suffix_cons _ _).trans ht
        have hnext : char? x ((offsetIn x ('/' :: '*' :: r')).byteIdx + 1) = some '*' := by
          rw [h1]; exact (char?_offsetIn_eq_some ht (by decide)).mpr rfl
        rw [if_neg (by rw [byteChar_eq_iff hmem (by decide)]; simp),
          if_pos ⟨(byteChar_eq_iff hmem (by decide)).mpr rfl, hnext⟩,
          show (offsetIn x ('/' :: '*' :: r')).byteIdx + 2 = (offsetIn x r').byteIdx by omega,
          commentEnd_offsetIn hr']
        rfl
      · simp at h

/-- Where no gap starts, the byte reader stays. -/
theorem skipGaps_of_dropGap_none {x : String} {cs : List Char} (hs : cs <:+ x.toList)
    (h : Lexer.dropGap cs = none) : skipGaps x (offsetIn x cs).byteIdx = .ok (offsetIn x cs).byteIdx := by
  cases cs with
  | nil => simp [skipGaps]
  | cons c t =>
    have ht := (List.suffix_cons c t).trans hs
    obtain ⟨b, hb, hmem⟩ := byte?_offsetIn_head hs
    rw [skipGaps_of_byte hb, uniform_isBlank.byteChar_eq hmem]
    simp only [Lexer.dropGap] at h
    split at h
    · simp at h
    · rename_i hblank
      -- a dash or slash here is one byte, and the byte after it is not the second of a comment opening
      have hopen : ∀ a d : Char, a.toNat < 128 → d.toNat < 128 → (∀ r', ¬(c = a ∧ t = d :: r')) →
          ¬(byteChar b = a ∧ char? x ((offsetIn x (c :: t)).byteIdx + 1) = some d) := by
        rintro a d ha hd hno ⟨hba, hnext⟩
        have hca := (byteChar_eq_iff hmem ha).mp hba
        subst hca
        rw [offsetIn_ascii hs ha, char?_offsetIn_eq_some ht hd] at hnext
        cases t with
        | nil => simp at hnext
        | cons e t' =>
          simp only [List.head?_cons, Option.some.injEq] at hnext
          exact hno t' ⟨rfl, (by rw [hnext])⟩
      rw [if_neg hblank, if_neg (hopen '-' '-' (by decide) (by decide) ?_),
        if_neg (hopen '/' '*' (by decide) (by decide) ?_)]
      all_goals
        rintro r' ⟨rfl, rfl⟩
        simp at h

/-- From the offset of a suffix, the byte reader skips gaps to the offset of the text the character
    reader leaves. -/
theorem skipGaps_offsetIn {x : String} {cs : List Char} (hs : cs <:+ x.toList) :
    skipGaps x (offsetIn x cs).byteIdx = .ok (offsetIn x (Lexer.skipGaps cs)).byteIdx := by
  fun_induction Lexer.skipGaps cs with
  | case1 cs r h _ ih => rw [skipGaps_of_dropGap hs h, ih ((Lexer.dropGap_suffix h).trans hs)]
  | case2 cs h => exact skipGaps_of_dropGap_none hs h

end SqlSchema.ByteLexer
