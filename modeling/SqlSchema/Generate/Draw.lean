import SqlSchema.Generate.Schema

/-! # Drawing choices from bytes

A generator makes its choices by drawing bytes from the front of a byte string. An integer in a range
`[lo, hi]` of a type `width` bytes wide takes no byte when the range holds one value; otherwise it
reads bytes, most significant first, as long as the range's span `hi - lo` still has bits at the
position the next byte would fill and the width allows, and lands on `lo + n % (hi - lo + 1)`. When the
bytes run out it reads what is there, so an empty source always gives `lo`. A ratio `n / d` is an
integer in `[1, d]` that is at most `n`; a truth value is the low bit of one byte, or false when there
is none. -/

namespace SqlSchema

/-- A generator that draws from a byte string. -/
abbrev Draw := StateM (List UInt8)

namespace Draw

/-- Reads up to `count` bytes as a number while `span` has bits at the next byte's position. -/
def readBytes (span : Nat) : Nat → Nat → Nat → Draw Nat
  | 0, _, acc => pure acc
  | count + 1, used, acc => fun bs =>
    if span >>> (8 * used) = 0 then (acc, bs)
    else
      match bs with
      | b :: r => readBytes span count (used + 1) (acc * 256 + b.toNat) r
      | [] => (acc, [])

/-- An integer in `[lo, hi]` drawn as a type `width` bytes wide. -/
def intIn (lo hi width : Nat) : Draw Nat := do
  if hi ≤ lo then pure lo
  else
    let n ← readBytes (hi - lo) width 0 0
    pure (lo + n % (hi - lo + 1))

/-- True with the chance `n / d`: an integer in `[1, d]` that is at most `n`. -/
def ratio (n d : Nat) : Draw Bool := do
  let x ← intIn 1 d 4
  pure (x ≤ n)

/-- The low bit of one byte, or false when there is none. -/
def bit : Draw Bool := fun bs =>
  match bs with
  | b :: r => (b % 2 == 1, r)
  | [] => (false, [])

/-- The byte string as the generator's source. -/
def source : Generate.Source where
  State := List UInt8
  intIn := intIn
  ratio := ratio
  bit := bit

end Draw

/-- The schema that a byte string determines. -/
def Generate.Schema.ofBytes (bytes : List UInt8) : Generate.Schema :=
  ((Generate.schema Draw.source).run bytes).1

end SqlSchema
