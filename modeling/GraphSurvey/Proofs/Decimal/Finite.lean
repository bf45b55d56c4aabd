import GraphSurvey.Document.Numeral
import Mathlib

/-!
# Numerals stand for finite numbers

A numeral of a number that is too great for double precision is refused, so that no number that is
read is infinite. This is not so in single precision, to which a number of double precision is
rounded after it was read.

## Main results

* `GraphSurvey.Binary.wordOfUnits_natural_le` — how great the word of a natural number is.
* `GraphSurvey.Binary.isFinite_ofRatio` — natural numbers of 64 bits are finite in double precision.
* `GraphSurvey.Numeral.isFinite_of_number` — what numerals stand for.
-/

namespace GraphSurvey

/-- A quotient less than a natural number is rounded to it at most. -/
theorem roundEven_le {num den bound : Nat} (h : num / den < bound) : roundEven num den ≤ bound := by
  rw [roundEven]
  split
  · exact h.le
  · split
    · exact h
    · exact (Nat.add_le_add_left (Nat.le_of_lt_succ (Nat.mod_lt _ Nat.two_pos)) _).trans h

namespace Binary

variable {f : BinaryFormat}

/-- The word of a natural number of units. It has one exponent for every bit after the first ones,
and there may be a carry. -/
theorem wordOfUnits_le (f : BinaryFormat) (num : Nat) :
    wordOfUnits f num 1 ≤ (num.log2 - f.fractionBits + 2) * f.fractions := by
  have hquotient : num / (1 <<< (num.log2 - f.fractionBits)) < 2 * f.fractions := by
    rw [BinaryFormat.fractions, Nat.one_shiftLeft, Nat.one_shiftLeft, ← Nat.pow_succ',
      Nat.div_lt_iff_lt_mul (Nat.two_pow_pos _), ← Nat.pow_add]
    exact Nat.lt_log2_self.trans_le (Nat.pow_le_pow_right Nat.two_pos (by omega))
  rw [wordOfUnits, Nat.div_one, Nat.add_mul]
  exact Nat.add_le_add_left (roundEven_le hquotient) _

/-- The word of a natural number of so many bits. -/
theorem wordOfUnits_natural_le (f : BinaryFormat) {n bits : Nat} (h : n ≤ 2 ^ bits) :
    wordOfUnits f (n * f.unitsPerOne) 1 ≤ (bits + (f.exponents / 2 - 2) + 2) * f.fractions := by
  have hlog : (n * f.unitsPerOne).log2 ≤ bits + (f.exponents / 2 - 2 + f.fractionBits) :=
    calc (n * f.unitsPerOne).log2
        ≤ (2 ^ bits * f.unitsPerOne).log2 := by
          rw [Nat.log2_eq_log_two, Nat.log2_eq_log_two]
          exact Nat.log_mono_right (Nat.mul_le_mul_right _ h)
      _ = bits + (f.exponents / 2 - 2 + f.fractionBits) := by
          rw [BinaryFormat.unitsPerOne, Nat.one_shiftLeft, ← Nat.pow_add, Nat.log2_two_pow]
  exact (wordOfUnits_le f _).trans (Nat.mul_le_mul_right _ (by omega))

/-- A natural number that fits a word is a finite number of double precision. -/
theorem isFinite_ofRatio {n : Nat} (h : n < wordBound) (negative : Bool) :
    (ofRatio negative n 1 : Binary64).isFinite = true := by
  have hbits : n ≤ 2 ^ 64 := h.le
  have hword : wordOfUnits .double (n * BinaryFormat.double.unitsPerOne) 1 <
      BinaryFormat.double.infinity :=
    (wordOfUnits_natural_le .double hbits).trans_lt (by decide)
  rw [ofRatio, ofWord, dif_pos hword]
  exact decide_eq_true hword

theorem isFinite_of_isZero {x : Binary64} (h : x.isZero = true) : x.isFinite = true :=
  decide_eq_true ((of_decide_eq_true h).trans_lt (by decide))

end Binary

/-- A number is not scaled beyond the finite ones. -/
theorem Binary64.isFinite_of_scaleTen {x y : Binary64} {power : Int}
    (h : x.scaleTen power = some y) : y.isFinite = true := by
  fun_induction Binary64.scaleTen x power with
  | case1 x power _ _ _ hfinite => exact Option.some.inj h ▸ hfinite
  | case2 => cases h
  | case3 x power _ hzero =>
    obtain rfl := Option.some.inj h
    exact Binary.isFinite_of_isZero hzero
  | case4 => cases h
  | case5 x power _ _ _ ih => exact ih h

namespace Numeral

/-- A number that a numeral stands for is finite. -/
theorem isFinite_of_number {n : Numeral} {x : Binary64} (h : n.number = .ok (.real x)) :
    x.isFinite = true := by
  simp only [number] at h
  split at h
  · cases h
  split at h
  · cases h
  split at h
  · rename_i y hreal
    obtain rfl : y = x := by simpa using h
    obtain ⟨z, hz, rfl⟩ := Option.map_eq_some_iff.mp hreal
    have hfinite := Binary64.isFinite_of_scaleTen hz
    split
    · exact hfinite
    · exact hfinite
  · cases h

end Numeral

end GraphSurvey
