/-!
# Words

A size is a natural number of 64 bits, and an integer value has 64 bits too, in two's complement.
A size that is kept as an integer value is kept by its bits, so that one past the greatest integer
becomes the least.

## Main definitions

* `GraphSurvey.wordBound`, `GraphSurvey.signedBound` — the ends of the two ranges.
* `GraphSurvey.signedWord` — the integer with the bits of a natural number.
-/

namespace GraphSurvey

/-- One more than the greatest natural number of 64 bits. -/
def wordBound : Nat := 0x10000000000000000

/-- One more than the greatest integer of 64 bits. The least one is its negative. -/
def signedBound : Nat := 0x8000000000000000

/-- The integer from `-signedBound` up to, but without, `signedBound` that agrees with a natural
number modulo `wordBound`. -/
def signedWord (n : Nat) : Int := Int.bmod n wordBound

theorem signedWord_lt (n : Nat) : signedWord n < signedBound := by
  rw [signedWord, signedBound, wordBound, Int.bmod_def]
  omega

theorem le_signedWord (n : Nat) : -(signedBound : Int) ≤ signedWord n := by
  rw [signedWord, signedBound, wordBound, Int.bmod_def]
  omega

/-- A natural number below `signedBound` is its own integer. -/
theorem signedWord_of_lt {n : Nat} (h : n < signedBound) : signedWord n = n := by
  rw [signedBound] at h
  rw [signedWord, wordBound, Int.bmod_def]
  omega

/-- Sizes of 64 bits are told apart by the integers with their bits. -/
theorem signedWord_inj {m n : Nat} (hm : m < wordBound) (hn : n < wordBound) :
    signedWord m = signedWord n ↔ m = n := by
  rw [wordBound] at hm hn
  rw [signedWord, signedWord, wordBound, Int.bmod_def, Int.bmod_def]
  omega

end GraphSurvey
