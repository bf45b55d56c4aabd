import GraphSurvey.Document.Json
import GraphSurvey.Document.Token
import GraphSurvey.Proofs.Decimal.Shortest
import Mathlib

/-!
# Written numbers are numerals

An integer and a finite number are written by the rules of numerals: digits without a superfluous
zero at the front, digits after a point, and an exponent with its sign. Such a numeral is cut off
where it ends, whatever follows it that cannot go on with it.

## Main definitions

* `GraphSurvey.Numeral.WellFormed` — the parts of a numeral are as the rules say.
* `GraphSurvey.Numeral.spelled` — a numeral as a text, with or without a plus sign.
* `GraphSurvey.Numeral.ofInt`, `GraphSurvey.Layout.numeral` — the numerals of integers and of
  numbers of a binary format.

## Main results

* `GraphSurvey.Token.ofChars_spelled` — the token of a numeral.
* `GraphSurvey.Layout.write_eq`, `GraphSurvey.Layout.wellFormed_numeral` — what is written for a
  number is the text of its numeral.
-/

namespace GraphSurvey

/-! ## Texts of numerals -/

namespace Numeral

/-- The text of a fraction. -/
def fractionChars (fraction : List Char) : List Char :=
  if fraction = [] then [] else '.' :: fraction

/-- The text of an exponent. An exponent that is not negative may have a plus sign. -/
def exponentChars (plus : Bool) : Option (Bool × List Char) → List Char
  | none => []
  | some (negative, digits) =>
    'e' :: ((if negative then ['-'] else if plus then ['+'] else []) ++ digits)

/-- A numeral without its sign as a text. -/
def magnitudeChars (plus : Bool) (n : Numeral) : List Char :=
  n.whole ++ (fractionChars n.fraction ++ exponentChars plus n.exponent)

/-- A numeral as a text. -/
def spelled (plus : Bool) (n : Numeral) : List Char :=
  if n.negative then '-' :: n.magnitudeChars plus else n.magnitudeChars plus

/-- A row of digits. -/
def AllDigits (digits : List Char) : Prop := ∀ c ∈ digits, c.isDigit = true

/-- The numeral is made by the rules. -/
structure WellFormed (n : Numeral) : Prop where
  whole_ne_nil : n.whole ≠ []
  whole : AllDigits n.whole
  /-- A zero stands at the front only of `0` itself. -/
  leading : n.whole.head? = some '0' → n.whole.length = 1
  fraction : AllDigits n.fraction
  exponent : ∀ e ∈ n.exponent, e.2 ≠ [] ∧ AllDigits e.2

end Numeral

open Numeral

namespace Token

variable {negative plus : Bool} {whole fraction rest digits : List Char}
  {e : Option (Bool × List Char)}

/-- Nothing that follows here goes on with a numeral. -/
def Ends (rest : List Char) : Prop :=
  ∀ c, rest.head? = some c → c.isDigit = false ∧ c ≠ '.' ∧ c ≠ 'e' ∧ c ≠ 'E'

theorem ends_nil : Ends [] := nofun

theorem ends_cons {c : Char} (hdigit : c.isDigit = false) (hpoint : c ≠ '.') (hsmall : c ≠ 'e')
    (hgreat : c ≠ 'E') : Ends (c :: rest) := by
  rintro _ ⟨⟩
  exact ⟨hdigit, hpoint, hsmall, hgreat⟩

/-! ### Where digits end -/

theorem takeWhile_digits (hdigits : AllDigits digits)
    (hrest : ∀ c, rest.head? = some c → c.isDigit = false) :
    (digits ++ rest).takeWhile Char.isDigit = digits := by
  rw [List.takeWhile_append_of_pos hdigits]
  cases rest with
  | nil => exact List.append_nil _
  | cons c cs => rw [List.takeWhile_cons_of_neg (by simp [hrest c rfl]), List.append_nil]

theorem dropWhile_digits (hdigits : AllDigits digits)
    (hrest : ∀ c, rest.head? = some c → c.isDigit = false) :
    (digits ++ rest).dropWhile Char.isDigit = rest := by
  rw [List.dropWhile_append_of_pos hdigits]
  cases rest with
  | nil => rfl
  | cons c cs => rw [List.dropWhile_cons_of_neg (by simp [hrest c rfl])]

theorem not_digit_of_ends (h : Ends rest) (c : Char) (hc : rest.head? = some c) :
    c.isDigit = false := (h c hc).1

/-- No exponent starts with a digit, nor does what follows it. -/
theorem not_digit_exponentChars (h : Ends rest) (c : Char)
    (hc : (exponentChars plus e ++ rest).head? = some c) : c.isDigit = false := by
  cases e with
  | none => exact not_digit_of_ends h c hc
  | some e =>
    obtain rfl : 'e' = c := Option.some.inj hc
    decide

theorem ne_point_exponentChars (h : Ends rest) :
    (exponentChars plus e ++ rest).head? ≠ some '.' := by
  intro hc
  cases e with
  | none => exact (h _ hc).2.1 rfl
  | some e => cases hc

/-! ### Reading numerals -/

theorem exponentSign_of_ne (hminus : rest.head? ≠ some '-') (hplus : rest.head? ≠ some '+') :
    exponentSign rest = (false, rest) := by
  unfold exponentSign
  split
  · exact absurd rfl hminus
  · exact absurd rfl hplus
  · rfl

/-- The sign of an exponent is read. -/
theorem exponentSign_append (minus : Bool) (hdigits : AllDigits digits) (hne : digits ≠ []) :
    exponentSign ((if minus then ['-'] else if plus then ['+'] else []) ++ (digits ++ rest)) =
      (minus, digits ++ rest) := by
  cases minus with
  | true => rfl
  | false =>
    cases plus with
    | true => rfl
    | false =>
      obtain ⟨c, cs, rfl⟩ := List.exists_cons_of_ne_nil hne
      have hc : c.isDigit = true := hdigits c List.mem_cons_self
      refine exponentSign_of_ne ?_ ?_ <;> rintro ⟨⟩ <;> exact absurd hc (by decide)

/-- An exponent is read. -/
theorem exponent_append (hends : Ends rest) (he : ∀ x ∈ e, x.2 ≠ [] ∧ AllDigits x.2) :
    exponent negative whole fraction (exponentChars plus e ++ rest) =
      (.number ⟨negative, whole, fraction, e⟩, rest) := by
  cases e with
  | none =>
    cases rest with
    | nil => rfl
    | cons c cs =>
      obtain ⟨-, -, hsmall, hgreat⟩ := hends c rfl
      simp only [exponentChars, List.nil_append, exponent, hsmall, hgreat, or_self, if_false]
  | some e =>
    obtain ⟨minus, digits⟩ := e
    obtain ⟨hne, hdigits⟩ := he _ rfl
    simp only [exponentChars, List.cons_append, List.append_assoc, exponent, true_or, if_true,
      exponentSign_append minus hdigits hne,
      takeWhile_digits hdigits (not_digit_of_ends hends),
      dropWhile_digits hdigits (not_digit_of_ends hends), hne, if_false]

/-- A fraction is read. -/
theorem fraction_append (hends : Ends rest) (hfraction : AllDigits fraction)
    (he : ∀ x ∈ e, x.2 ≠ [] ∧ AllDigits x.2) :
    Token.fraction negative whole (fractionChars fraction ++ (exponentChars plus e ++ rest)) =
      (.number ⟨negative, whole, fraction, e⟩, rest) := by
  rcases eq_or_ne fraction [] with rfl | hne
  · rw [fractionChars, if_pos rfl, List.nil_append, Token.fraction.eq_def]
    split
    · exact absurd (congrArg List.head? (by assumption)) (ne_point_exponentChars hends)
    · exact exponent_append hends he
  · rw [fractionChars, if_neg hne, List.cons_append, Token.fraction]
    simp only [takeWhile_digits hfraction (not_digit_exponentChars hends),
      dropWhile_digits hfraction (not_digit_exponentChars hends), hne, if_false]
    exact exponent_append hends he

variable {n : Numeral}

/-- A numeral without its sign is read. -/
theorem numeral_append (plus : Bool) (h : n.WellFormed) (hends : Ends rest) :
    numeral n.negative (n.magnitudeChars plus ++ rest) = (.number n, rest) := by
  have hafter : ∀ c, (fractionChars n.fraction ++ (exponentChars plus n.exponent ++ rest)).head? =
      some c → c.isDigit = false := by
    intro c hc
    rw [fractionChars] at hc
    split at hc
    · exact not_digit_exponentChars hends c hc
    · obtain rfl : '.' = c := Option.some.inj hc
      decide
  rw [magnitudeChars, List.append_assoc, List.append_assoc, numeral]
  simp only [takeWhile_digits h.whole hafter, dropWhile_digits h.whole hafter, h.whole_ne_nil,
    if_false]
  rw [if_neg fun hzero => hzero.2 (h.leading hzero.1)]
  exact fraction_append hends h.fraction h.exponent

theorem isGap_of_isDigit {c : Char} (h : c.isDigit = true) : isGap c = false := by
  simp only [isGap, Bool.or_eq_false_iff, decide_eq_false_iff_not]
  refine ⟨⟨⟨?_, ?_⟩, ?_⟩, ?_⟩ <;> rintro rfl <;> exact absurd h (by decide)

theorem first_of_isDigit {c : Char} (h : c.isDigit = true) (cs : List Char) :
    first c cs = numeral false (c :: cs) := by
  rw [first.eq_def]
  split
  case h_12 => rw [if_pos h]
  all_goals exact absurd h (by decide)

theorem ofChars_cons {c : Char} {cs : List Char} {token : Token} (hgap : isGap c = false)
    (hfirst : first c cs = (token, rest)) : ofChars (c :: cs) = token :: ofChars rest := by
  rw [ofChars, if_neg (by simp [hgap]), hfirst]

/-- The token of a numeral, and what follows it. -/
theorem ofChars_spelled (h : n.WellFormed) (hends : Ends rest) :
    ofChars (n.spelled plus ++ rest) = .number n :: ofChars rest := by
  have hnumeral := numeral_append plus h hends
  rw [spelled]
  split
  case isTrue hnegative =>
    rw [hnegative] at hnumeral
    exact ofChars_cons rfl hnumeral
  case isFalse hpositive =>
    rw [Bool.not_eq_true] at hpositive
    rw [hpositive] at hnumeral
    obtain ⟨c, cs, hwhole⟩ := List.exists_cons_of_ne_nil h.whole_ne_nil
    have hdigit : c.isDigit = true := h.whole c (hwhole ▸ List.mem_cons_self)
    rw [magnitudeChars, hwhole] at hnumeral ⊢
    exact ofChars_cons (isGap_of_isDigit hdigit) ((first_of_isDigit hdigit _).trans hnumeral)

end Token

/-! ## Digits of natural numbers -/

theorem allDigits_toDigits (n : Nat) : AllDigits (Nat.toDigits 10 n) := fun _ hc =>
  Nat.isDigit_of_mem_toDigits (by decide) (by decide) hc

/-- The first digit of a positive number is not zero. -/
theorem head?_toDigits_ne_zero {n : Nat} (h : 0 < n) : (Nat.toDigits 10 n).head? ≠ some '0' := by
  induction n using Nat.strongRecOn with
  | ind n ih =>
    rcases Nat.lt_or_ge n 10 with hlt | hge
    · rw [Nat.toDigits_of_lt_base hlt]
      interval_cases n <;> decide
    · rw [Nat.toDigits_of_base_le (by decide) hge,
        List.head?_append_of_ne_nil _ Nat.toDigits_ne_nil]
      exact ih (n / 10) (Nat.div_lt_self h (by decide)) (Nat.div_pos hge (by decide))

/-! ## Integers -/

/-- The numeral of an integer. -/
def Numeral.ofInt (i : Int) : Numeral := ⟨i < 0, Nat.toDigits 10 i.natAbs, [], none⟩

theorem intChars_eq (i : Int) : Json.intChars i = (Numeral.ofInt i).spelled false := by
  have hdigits : (Numeral.ofInt i).magnitudeChars false = Nat.toDigits 10 i.natAbs :=
    List.append_nil _
  simp only [Json.intChars, spelled, hdigits]
  simp only [Numeral.ofInt, decide_eq_true_eq]

theorem wellFormed_ofInt (i : Int) : (Numeral.ofInt i).WellFormed where
  whole_ne_nil := Nat.toDigits_ne_nil
  whole := allDigits_toDigits _
  leading hzero := by
    rcases Nat.eq_zero_or_pos i.natAbs with hi | hi
    · rw [Numeral.ofInt, hi]
      rfl
    · exact absurd hzero (head?_toDigits_ne_zero hi)
  fraction := nofun
  exponent := nofun

/-! ## Numbers of a binary format -/

namespace Layout

variable {f : BinaryFormat} {layout : Layout} {x : Binary f}

/-- The digits of the shortest decimal of a number, without zeros at its end. -/
def digits (layout : Layout) (x : Binary f) : List Char :=
  (trimZeros (x.shortest layout.half).digits).1

/-- The power of ten of the first digit of the shortest decimal of a number. -/
def power (layout : Layout) (x : Binary f) : Int := (x.shortest layout.half).leadingPower

/-- The numeral of a positional decimal. -/
def positionalNumeral (negative : Bool) (digits : List Char) (point : Int) : Numeral where
  negative := negative
  whole :=
    if point ≤ 0 then ['0']
    else digits.take point.toNat ++ List.replicate (point.toNat - digits.length) '0'
  fraction :=
    if (List.replicate (-point).toNat '0' ++ digits.drop point.toNat).isEmpty then ['0']
    else List.replicate (-point).toNat '0' ++ digits.drop point.toNat
  exponent := none

/-- The numeral of a coefficient and a power of ten. -/
def scientificNumeral (negative : Bool) (digits : List Char) (power : Int) : Numeral where
  negative := negative
  whole := digits.take 1
  fraction := digits.drop 1
  exponent := some (power < 0, Nat.toDigits 10 power.natAbs)

/-- The numeral of a finite number. -/
def numeral (layout : Layout) (x : Binary f) : Numeral :=
  if x.isZero then ⟨x.negative, ['0'], ['0'], none⟩
  else if layout.least ≤ layout.power x ∧ layout.power x ≤ layout.greatest then
    positionalNumeral x.negative (layout.digits x) (layout.power x + 1)
  else scientificNumeral x.negative (layout.digits x) (layout.power x)

theorem negative_numeral (layout : Layout) (x : Binary f) :
    (layout.numeral x).negative = x.negative := by
  rw [numeral]
  split
  · rfl
  · split <;> rfl

theorem fraction_positionalNumeral_ne_nil (negative : Bool) (digits : List Char) (point : Int) :
    (positionalNumeral negative digits point).fraction ≠ [] := by
  unfold positionalNumeral
  dsimp only
  split
  case isTrue => exact List.cons_ne_nil _ _
  case isFalse h => exact fun hnil => h (List.isEmpty_iff.mpr hnil)

theorem positional_eq (plus negative : Bool) (digits : List Char) (point : Int) :
    positional digits point = (positionalNumeral negative digits point).magnitudeChars plus := by
  rw [magnitudeChars, fractionChars,
    if_neg (fraction_positionalNumeral_ne_nil negative digits point)]
  simp only [positionalNumeral, exponentChars, List.append_nil]
  rfl

theorem scientific_eq (layout : Layout) (negative : Bool) (digits : List Char) (power : Int) :
    layout.scientific digits power =
      (scientificNumeral negative digits power).magnitudeChars layout.plus := by
  simp only [scientific, scientificNumeral, magnitudeChars, fractionChars, exponentChars,
    List.drop_eq_nil_iff, decide_eq_true_eq, List.append_assoc, List.cons_append]

/-- What is written for a number is the text of its numeral. -/
theorem write_eq (layout : Layout) (x : Binary f) :
    layout.write x = (layout.numeral x).spelled layout.plus := by
  have hmagnitude : layout.magnitude x = (layout.numeral x).magnitudeChars layout.plus := by
    show (if x.isZero then ['0', '.', '0']
      else if layout.least ≤ layout.power x ∧ layout.power x ≤ layout.greatest then
        positional (layout.digits x) (layout.power x + 1)
      else layout.scientific (layout.digits x) (layout.power x)) = _
    rw [numeral]
    split
    · rfl
    · split
      · exact positional_eq ..
      · exact scientific_eq ..
  rw [write, spelled, negative_numeral, hmagnitude]

/-! ### The digits of a number -/

/-- The digits of a number are the first digits of the coefficient of its decimal. -/
theorem digits_prefix (layout : Layout) (x : Binary f) :
    layout.digits x <+: (x.shortest layout.half).digits :=
  List.rdropWhile_prefix (· = '0') (l := (x.shortest layout.half).digits)

theorem allDigits_digits (layout : Layout) (x : Binary f) : AllDigits (layout.digits x) :=
  fun c hc => allDigits_toDigits _ c ((layout.digits_prefix x).subset hc)

/-- The digits of a number that is not zero start with a digit that is not zero. -/
theorem exists_digits (layout : Layout) (hx : x.word ≠ 0) :
    ∃ c cs, layout.digits x = c :: cs ∧ c ≠ '0' := by
  have hfirst : (x.shortest layout.half).digits.head? ≠ some '0' :=
    head?_toDigits_ne_zero (Binary.shortest_pos layout.half hx)
  obtain ⟨d, ds, hdigits⟩ := List.exists_cons_of_ne_nil
    (Nat.toDigits_ne_nil (n := (x.shortest layout.half).coefficient) (b := 10))
  have hne : layout.digits x ≠ [] := by
    intro hnil
    have hzeros := (List.rdropWhile_eq_nil_iff (p := (· = '0'))
      (l := (x.shortest layout.half).digits)).mp hnil
    refine hfirst ?_
    rw [Decimal.digits, hdigits] at hzeros ⊢
    exact congrArg some (of_decide_eq_true (hzeros d List.mem_cons_self))
  obtain ⟨c, cs, hcs⟩ := List.exists_cons_of_ne_nil hne
  obtain ⟨rest, hrest⟩ := layout.digits_prefix x
  refine ⟨c, cs, hcs, ?_⟩
  rintro rfl
  rw [← hrest, hcs] at hfirst
  exact hfirst rfl

theorem allDigits_zeros (n : Nat) : AllDigits (List.replicate n '0') := by
  intro c hc
  rw [List.eq_of_mem_replicate hc]
  decide

theorem allDigits_zero : AllDigits ['0'] := allDigits_zeros 1

variable {digits : List Char} {c : Char} {cs : List Char}

theorem wellFormed_positional (negative : Bool) (point : Int) (hdigits : AllDigits digits)
    (hcons : digits = c :: cs) (hc : c ≠ '0') :
    (positionalNumeral negative digits point).WellFormed := by
  have hwhole : (positionalNumeral negative digits point).whole = ['0'] ∨
      ∃ more, (positionalNumeral negative digits point).whole = c :: more := by
    rcases le_or_gt point 0 with hle | hgt
    · exact .inl (if_pos hle)
    · obtain ⟨k, hk⟩ : ∃ k, point.toNat = k + 1 := ⟨point.toNat - 1, by omega⟩
      refine .inr ⟨cs.take k ++ List.replicate (k + 1 - digits.length) '0', ?_⟩
      rw [positionalNumeral]
      dsimp only
      rw [if_neg (not_le.mpr hgt), hk, hcons, List.take_succ_cons, List.cons_append]
  constructor
  case whole_ne_nil =>
    obtain h | ⟨more, h⟩ := hwhole <;> exact h ▸ List.cons_ne_nil _ _
  case whole =>
    rw [positionalNumeral]
    dsimp only
    split
    · exact allDigits_zero
    · exact List.forall_mem_append.mpr
        ⟨fun a ha => hdigits a (List.mem_of_mem_take ha), allDigits_zeros _⟩
  case leading =>
    intro hzero
    obtain h | ⟨more, h⟩ := hwhole
    · rw [h]
      rfl
    · rw [h] at hzero
      exact absurd (Option.some.inj hzero) hc
  case fraction =>
    rw [positionalNumeral]
    dsimp only
    split
    · exact allDigits_zero
    · exact List.forall_mem_append.mpr
        ⟨allDigits_zeros _, fun a ha => hdigits a (List.mem_of_mem_drop ha)⟩
  case exponent => exact nofun

theorem wellFormed_scientific (negative : Bool) (power : Int) (hdigits : AllDigits digits)
    (hcons : digits = c :: cs) :
    (scientificNumeral negative digits power).WellFormed where
  whole_ne_nil := by
    rw [scientificNumeral, hcons]
    exact List.cons_ne_nil _ _
  whole a ha := hdigits a (List.mem_of_mem_take ha)
  leading hzero := by
    rw [scientificNumeral, hcons]
    rfl
  fraction a ha := hdigits a (List.mem_of_mem_drop ha)
  exponent := by
    rintro _ ⟨⟩
    exact ⟨Nat.toDigits_ne_nil, allDigits_toDigits _⟩

/-- The numeral of a number is made by the rules. -/
theorem wellFormed_numeral (layout : Layout) (x : Binary f) : (layout.numeral x).WellFormed := by
  rw [numeral]
  split
  case isTrue =>
    exact ⟨List.cons_ne_nil _ _, allDigits_zero, fun _ => rfl, allDigits_zero, nofun⟩
  case isFalse hzero =>
    have hword : x.word ≠ 0 := by simpa [Binary.isZero] using hzero
    obtain ⟨c, cs, hcons, hc⟩ := layout.exists_digits hword
    split
    · exact wellFormed_positional _ _ (layout.allDigits_digits x) hcons hc
    · exact wellFormed_scientific _ _ (layout.allDigits_digits x) hcons

end Layout

end GraphSurvey
