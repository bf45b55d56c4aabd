import GraphSurvey.Decimal.Shortest
import Mathlib

/-!
# Shortest decimals are not zero

A number that is not zero has a decimal that is not zero. The interval of the reals that round to it
lies above zero, so no decimal inside is zero; and the search for one ends before it runs out of
grids, since the finest grid that it tries has points closer to each other than the number is to the
upper end of the interval.

## Main results

* `GraphSurvey.Binary.Interval.onGrid_isSome` — a grid that is fine enough has a point inside.
* `GraphSurvey.leadingPower_spec` — a quotient is not less than its leading power of ten.
* `GraphSurvey.Binary.shortest_pos` — the shortest decimal of a number that is not zero.
-/

namespace GraphSurvey

/-- The positive quotient is not less than the power of ten of its first digit. -/
theorem leadingPower_spec {num den : Nat} (hnum : 0 < num) (hden : 0 < den) :
    den * 10 ^ (leadingPower num den).toNat ≤ num * 10 ^ (-leadingPower num den).toNat := by
  rw [leadingPower]
  split
  case isTrue hle =>
    -- at least one: the quotient has more digits than the power of ten below its first digit
    obtain ⟨k, hk⟩ : ∃ k, (Nat.toDigits 10 (num / den)).length = k + 1 :=
      Nat.exists_eq_add_one.mpr Nat.length_toDigits_pos
    have hpower : 10 ^ k ≤ num / den := by
      rcases Nat.eq_zero_or_pos k with rfl | hpos
      · exact Nat.div_pos hle hden
      · exact Nat.not_lt.mp fun hlt =>
          absurd ((Nat.length_toDigits_le_iff (by decide) hpos).mpr hlt) (by omega)
    have hzero : (-(((k + 1 : Nat) : Int) - 1)).toNat = 0 := by omega
    have hwhole : (((k + 1 : Nat) : Int) - 1).toNat = k := by omega
    rw [hk, hzero, hwhole, pow_zero, mul_one]
    exact (Nat.mul_le_mul_left den hpower).trans (Nat.mul_div_le num den)
  case isFalse hlt =>
    -- below one: the inverse, rounded up, has at most as many digits as the power says
    have hdigits : (den + num - 1) / num - 1 <
        10 ^ (Nat.toDigits 10 ((den + num - 1) / num - 1)).length :=
      (Nat.length_toDigits_le_iff (by decide) Nat.length_toDigits_pos).mp le_rfl
    generalize (Nat.toDigits 10 ((den + num - 1) / num - 1)).length = k at hdigits
    have hup : den ≤ num * ((den + num - 1) / num) := by
      have hrest := Nat.div_add_mod (den + num - 1) num
      have hmod := Nat.mod_lt (den + num - 1) hnum
      omega
    rw [Int.toNat_neg_natCast, neg_neg, Int.toNat_natCast, pow_zero, mul_one]
    exact hup.trans (Nat.mul_le_mul_left num (by omega))

namespace Binary

variable {f : BinaryFormat} {x : Binary f} {half : Halfway} {power : Int}

namespace Interval

variable {i : Interval} {d : Nat}

/-- A point of the grid of the multiples of `10 ^ power` lies in the interval. -/
def Inside (i : Interval) (power : Int) (d : Nat) : Prop :=
  let unit := Nat.pow 10 (-power).toNat
  let step := i.den * Nat.pow 10 power.toNat
  if i.closed then i.low * unit ≤ d * step ∧ d * step ≤ i.high * unit
  else i.low * unit < d * step ∧ d * step < i.high * unit

theorem inside_iff : i.Inside power d ↔
    if i.closed then i.low * 10 ^ (-power).toNat ≤ d * (i.den * 10 ^ power.toNat) ∧
      d * (i.den * 10 ^ power.toNat) ≤ i.high * 10 ^ (-power).toNat
    else i.low * 10 ^ (-power).toNat < d * (i.den * 10 ^ power.toNat) ∧
      d * (i.den * 10 ^ power.toNat) < i.high * 10 ^ (-power).toNat := Iff.rfl

/-- On a grid a point of the interval is found if one of the two points next to the number is
one. -/
theorem onGrid_cases (i : Interval) (half : Halfway) (power : Int) :
    let below := i.mid * 10 ^ (-power).toNat / (i.den * 10 ^ power.toNat)
    (∃ d, i.onGrid half power = some d ∧ i.Inside power d) ∨
      (i.onGrid half power = none ∧ ¬ i.Inside power (below + 1)) := by
  intro below
  unfold onGrid Inside
  extract_lets step unit inside nearest twice middle
  split
  case isTrue =>
    split
    case isTrue =>
      split
      · exact .inl ⟨_, rfl, by assumption⟩
      · split
        · exact .inl ⟨_, rfl, by assumption⟩
        · split
          -- of two points that are equally near the even one is below or above the number
          · refine .inl ⟨_, rfl, ?_⟩
            rcases Nat.mod_two_eq_zero_or_one nearest with heven | hodd
            · rw [heven]
              assumption
            · rw [hodd]
              assumption
          · exact .inl ⟨_, rfl, by assumption⟩
    case isFalse => exact .inl ⟨_, rfl, by assumption⟩
  case isFalse =>
    split
    case isTrue => exact .inl ⟨_, rfl, by assumption⟩
    case isFalse => exact .inr ⟨rfl, by assumption⟩

/-- No point of a grid that lies in an interval of positive numbers is zero. -/
theorem pos_of_onGrid (hlow : 0 < i.low) (h : i.onGrid half power = some d) : 0 < d := by
  obtain ⟨e, he, hinside⟩ | ⟨hnone, -⟩ := i.onGrid_cases half power
  · obtain rfl := Option.some.inj (h.symm.trans he)
    have hunit : 0 < i.low * 10 ^ (-power).toNat := Nat.mul_pos hlow (by positivity)
    have hstep : 0 < d * (i.den * 10 ^ power.toNat) := by
      rw [inside_iff] at hinside
      split at hinside
      · exact hunit.trans_le hinside.1
      · exact hunit.trans hinside.1
    exact Nat.pos_of_mul_pos_right hstep
  · rw [h] at hnone
    cases hnone

/-- A grid with points closer to each other than the number is to the upper end of the interval has
a point in the interval. -/
theorem onGrid_isSome (hden : 0 < i.den) (hlow : i.low ≤ i.mid)
    (hfine : i.den * 10 ^ power.toNat < (i.high - i.mid) * 10 ^ (-power).toNat) :
    ∃ d, i.onGrid half power = some d := by
  obtain ⟨d, hd, -⟩ | ⟨-, hnot⟩ := i.onGrid_cases half power
  · exact ⟨d, hd⟩
  · refine absurd ?_ hnot
    have hstep : 0 < i.den * 10 ^ power.toNat := Nat.mul_pos hden (by positivity)
    rw [inside_iff]
    generalize i.den * 10 ^ power.toNat = step at hfine hstep
    generalize 10 ^ (-power).toNat = unit at hfine
    have hbelow : i.mid * unit / step * step ≤ i.mid * unit := Nat.div_mul_le_self ..
    have habove : i.mid * unit < (i.mid * unit / step + 1) * step := by
      rw [Nat.mul_comm _ step]
      exact Nat.lt_mul_div_succ _ hstep
    have hlower : i.low * unit ≤ i.mid * unit := Nat.mul_le_mul_right _ hlow
    have hnext : (i.mid * unit / step + 1) * step < i.high * unit := by
      rw [Nat.sub_mul] at hfine
      rw [Nat.succ_mul]
      omega
    split
    · exact ⟨(hlower.trans_lt habove).le, hnext.le⟩
    · exact ⟨hlower.trans_lt habove, hnext⟩

/-- A search that meets a grid with a point in the interval finds a decimal that is not zero. -/
theorem search_pos (hlow : 0 < i.low) {count k : Nat} (hk : k < count)
    (hgrid : ∃ d, i.onGrid half (power - k) = some d) :
    0 < (i.search half count power).coefficient := by
  induction count generalizing power k with
  | zero => cases hk
  | succ count ih =>
    rw [search]
    split
    case h_1 d hd => exact pos_of_onGrid hlow hd
    case h_2 hnone =>
      obtain ⟨d, hd⟩ := hgrid
      cases k with
      | zero =>
        rw [Nat.cast_zero, Int.sub_zero, hnone] at hd
        cases hd
      | succ k =>
        refine ih (Nat.lt_of_succ_lt_succ hk) ⟨d, ?_⟩
        rw [← hd]
        congr 1
        push_cast
        ring

end Interval

theorem significand_pos (hx : x.word ≠ 0) : 0 < x.significand := by
  have hfractions := f.fractions_pos
  rw [significand]
  split <;> omega

theorem significand_lt (x : Binary f) : x.significand < 2 * f.fractions := by
  have hmod := Nat.mod_lt x.word f.fractions_pos
  rw [significand]
  split <;> omega

/-- A number is less than this many times its distance to the upper end of its interval. -/
theorem mid_lt (x : Binary f) :
    x.interval.mid < 2 ^ (f.fractionBits + 2) * (x.interval.high - x.interval.mid) := by
  have hsignificand := x.significand_lt
  rw [BinaryFormat.fractions, Nat.one_shiftLeft] at hsignificand
  have hdistance : x.interval.high - x.interval.mid = 2 * 2 ^ x.scale := by
    simp only [interval, Nat.shiftLeft_eq]
    rw [← Nat.sub_mul, Nat.add_sub_cancel_left]
  have hmid : x.interval.mid = 4 * x.significand * 2 ^ x.scale := Nat.shiftLeft_eq ..
  rw [hdistance, hmid, ← mul_assoc]
  refine Nat.mul_lt_mul_of_pos_right ?_ (Nat.two_pow_pos _)
  rw [pow_add]
  omega

/-- The grids that are tried include one that is fine enough. -/
theorem two_pow_le_ten_pow (bits : Nat) : 2 ^ (bits + 2) ≤ 10 ^ (bits / 3 + 2) := by
  calc 2 ^ (bits + 2) ≤ 2 ^ (3 * (bits / 3) + 4) := Nat.pow_le_pow_right (by decide) (by omega)
    _ = 8 ^ (bits / 3) * 16 := by rw [pow_add, pow_mul]; rfl
    _ ≤ 10 ^ (bits / 3) * 100 :=
      Nat.mul_le_mul (Nat.pow_le_pow_left (by decide) _) (by decide)
    _ = 10 ^ (bits / 3 + 2) := by rw [pow_add]; rfl

/-- What is at least `10 ^ p` and less than `10 ^ m` times a bound leaves the bound above
`10 ^ (p - m)`. -/
theorem mul_pow_lt_of_shift {a b c m : Nat} {p : Int}
    (h : a * 10 ^ p.toNat ≤ c * 10 ^ (-p).toNat) (hc : c < 10 ^ m * b) :
    a * 10 ^ (p - m).toNat < b * 10 ^ (-(p - m)).toNat := by
  have hlt : a * 10 ^ p.toNat < 10 ^ m * b * 10 ^ (-p).toNat :=
    h.trans_lt (Nat.mul_lt_mul_of_pos_right hc (by positivity))
  -- the powers of ten of both sides differ by the same factor
  obtain ⟨k, hk, hk'⟩ : ∃ k, p.toNat = (p - m).toNat + k ∧
      m + (-p).toNat = (-(p - m)).toNat + k := ⟨p.toNat - (p - m).toNat, by omega, by omega⟩
  have hright : 10 ^ m * b * 10 ^ (-p).toNat = b * 10 ^ (-(p - m)).toNat * 10 ^ k := by
    rw [mul_assoc b, ← pow_add, ← hk', pow_add]
    ring
  rw [hright, hk, pow_add, ← mul_assoc] at hlt
  exact Nat.lt_of_mul_lt_mul_right hlt

/-- The shortest decimal of a number that is not zero is not zero. -/
theorem shortest_pos (half : Halfway) (hx : x.word ≠ 0) : 0 < (x.shortest half).coefficient := by
  have hsignificand := significand_pos hx
  have hscale := Nat.two_pow_pos x.scale
  have hlow : 0 < x.interval.low := by
    simp only [interval, Nat.shiftLeft_eq]
    refine Nat.mul_pos ?_ hscale
    split <;> omega
  have hlowmid : x.interval.low ≤ x.interval.mid := by
    simp only [interval, Nat.shiftLeft_eq]
    exact Nat.mul_le_mul_right _ (Nat.sub_le _ _)
  have hden : 0 < x.interval.den := by
    have hunits : 0 < f.unitsPerOne := by
      rw [BinaryFormat.unitsPerOne, Nat.one_shiftLeft]
      exact Nat.two_pow_pos _
    exact Nat.mul_pos (by decide) hunits
  have hmid := x.mid_lt
  have hleading := leadingPower_spec (hlow.trans_le hlowmid) hden
  have hfine := mul_pow_lt_of_shift hleading
    (hmid.trans_le (Nat.mul_le_mul_right _ (two_pow_le_ten_pow f.fractionBits)))
  rw [shortest, if_neg hx]
  exact Interval.search_pos hlow (Nat.lt_succ_self _) (Interval.onGrid_isSome hden hlowmid hfine)

end Binary

end GraphSurvey
