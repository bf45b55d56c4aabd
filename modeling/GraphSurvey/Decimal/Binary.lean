/-!
# Binary floating-point numbers

A number of a binary format is stored as a sign and a word, the exponent field above the fraction
field. Words of finite numbers, read as natural numbers, are in the order of the magnitudes; the
word `infinity` follows the greatest of them, and the words after it stand for no number. All
arithmetic here is exact arithmetic on natural numbers followed by one rounding to the nearest
number of the format, a tie going to the even word.

## Main definitions

* `GraphSurvey.BinaryFormat`, `GraphSurvey.Binary` — a format and its numbers.
* `GraphSurvey.Binary.ofRatio` — the number of a format nearest to a quotient.
* `GraphSurvey.Binary.narrow` — the number of one format nearest to a number of another.
-/

namespace GraphSurvey

/-- The widths of the two fields of a word. -/
structure BinaryFormat where
  fractionBits : Nat
  exponentBits : Nat
  deriving DecidableEq, Repr

namespace BinaryFormat

/-- Double precision. -/
def double : BinaryFormat := ⟨52, 11⟩

/-- Single precision. -/
def single : BinaryFormat := ⟨23, 8⟩

/-- The number of fraction fields. -/
def fractions (f : BinaryFormat) : Nat := 1 <<< f.fractionBits

/-- The number of exponent fields. -/
def exponents (f : BinaryFormat) : Nat := 1 <<< f.exponentBits

/-- The number of words. -/
def words (f : BinaryFormat) : Nat := f.exponents * f.fractions

/-- The word of infinity: all bits of the exponent field are set, none of the fraction field. -/
def infinity (f : BinaryFormat) : Nat := (f.exponents - 1) * f.fractions

/-- The smallest positive number of the format, its unit, goes as often into one. -/
def unitsPerOne (f : BinaryFormat) : Nat := 1 <<< (f.exponents / 2 - 2 + f.fractionBits)

theorem fractions_pos (f : BinaryFormat) : 0 < f.fractions := by
  rw [fractions, Nat.one_shiftLeft]
  exact Nat.two_pow_pos _

theorem exponents_pos (f : BinaryFormat) : 0 < f.exponents := by
  rw [exponents, Nat.one_shiftLeft]
  exact Nat.two_pow_pos _

theorem words_pos (f : BinaryFormat) : 0 < f.words :=
  Nat.mul_pos f.exponents_pos f.fractions_pos

theorem infinity_lt_words (f : BinaryFormat) : f.infinity < f.words :=
  Nat.mul_lt_mul_of_pos_right (Nat.sub_lt f.exponents_pos Nat.one_pos) f.fractions_pos

end BinaryFormat

/-- A number of a binary format: its sign, and its exponent and fraction fields as one word. -/
structure Binary (f : BinaryFormat) where
  negative : Bool
  word : Nat
  word_lt : word < f.words
  deriving DecidableEq, Repr

/-- A number of double precision. -/
abbrev Binary64 := Binary .double

/-- A number of single precision. -/
abbrev Binary32 := Binary .single

/-- The natural number nearest to `num / den`, a tie going to the even one. -/
def roundEven (num den : Nat) : Nat :=
  let whole := num / den
  let rest := num % den
  if 2 * rest < den then whole
  else if den < 2 * rest then whole + 1
  else whole + whole % 2

namespace Binary

variable {f : BinaryFormat}

/-- The number is neither infinite nor undefined. -/
def isFinite (x : Binary f) : Bool := x.word < f.infinity

/-- The number is a zero of either sign. -/
def isZero (x : Binary f) : Bool := x.word = 0

/-- The significand of a finite number: the fraction field, and above it one bit more unless the
exponent field is zero. -/
def significand (x : Binary f) : Nat :=
  if x.word < f.fractions then x.word else f.fractions + x.word % f.fractions

/-- The number of places by which the significand of a finite number is shifted. -/
def scale (x : Binary f) : Nat := x.word / f.fractions - 1

/-- The magnitude of a finite number in units of the smallest positive number of the format. -/
def units (x : Binary f) : Nat := x.significand <<< x.scale

/-- The zero of the given sign. -/
def zero (negative : Bool) : Binary f := ⟨negative, 0, f.words_pos⟩

/-- The infinity of the given sign. -/
def infinite (negative : Bool) : Binary f := ⟨negative, f.infinity, f.infinity_lt_words⟩

/-- The other sign. -/
def neg (x : Binary f) : Binary f := { x with negative := !x.negative }

/-- The number of the given sign and word, infinite if the word is not that of a finite number. -/
def ofWord (negative : Bool) (word : Nat) : Binary f :=
  if h : word < f.infinity then ⟨negative, word, Nat.lt_trans h f.infinity_lt_words⟩
  else infinite negative

/-- The word of the number of the format nearest to `num / den` of its units. Where the quotient has
more bits than a significand, the surplus is rounded away; the carry of a significand that is
rounded up to a power of two goes into the exponent field as it should. -/
def wordOfUnits (f : BinaryFormat) (num den : Nat) : Nat :=
  let surplus := Nat.log2 (num / den) - f.fractionBits
  surplus * f.fractions + roundEven num (den <<< surplus)

/-- The number of the format nearest to `num / den`, with the given sign. -/
def ofRatio (negative : Bool) (num den : Nat) : Binary f :=
  ofWord negative (wordOfUnits f (num * f.unitsPerOne) den)

/-- The number of the format nearest to a natural number. -/
def ofNat (n : Nat) : Binary f := ofRatio false n 1

/-- The number of the format nearest to an integer. -/
def ofInt (i : Int) : Binary f := ofRatio (i < 0) i.natAbs 1

/-- The product of two finite numbers, rounded. -/
def mul (x y : Binary f) : Binary f :=
  ofRatio (x.negative != y.negative) (x.units * y.units) (f.unitsPerOne * f.unitsPerOne)

/-- The quotient of two finite numbers, the second not zero, rounded. -/
def div (x y : Binary f) : Binary f :=
  ofRatio (x.negative != y.negative) x.units y.units

/-- The number of another format nearest to this one. What stands for no number is kept as such. -/
def narrow {g : BinaryFormat} (x : Binary f) : Binary g :=
  if x.isFinite then ofRatio x.negative x.units f.unitsPerOne
  else if x.word = f.infinity then infinite x.negative
  else ⟨x.negative, g.words - 1, Nat.sub_lt g.words_pos Nat.one_pos⟩

end Binary

end GraphSurvey
