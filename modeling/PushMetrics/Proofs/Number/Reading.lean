import PushMetrics.Metric.Parse
import PushMetrics.Proofs.Number.Rounding
import Mathlib.Data.List.Basic
import Mathlib.Data.List.TakeDrop

/-!
# Numbers in text

Digits written from a number have its value, an integer reads back as itself, and a finite double precision number
shown with its point in place reads back as itself, sign of zero included.
-/

namespace PushMetrics.Number

/-! ## Digits -/

theorem digitsValue_toDigits (n : Nat) : digitsValue (Nat.toDigits 10 n) = n := Nat.ofDigitChars_ten_toDigits

theorem digitsValue_append (ds es : List Char) :
    digitsValue (ds ++ es) = digitsValue ds * tenPow es.length + digitsValue es := by
  have happend : digitsValue (ds ++ es) = Nat.ofDigitChars 10 es (digitsValue ds) := Nat.ofDigitChars_append 0
  rw [happend, Nat.ofDigitChars_eq_ofDigitChars_zero, Nat.mul_comm]
  rfl

theorem digitsValue_zeros (n : Nat) : digitsValue (List.replicate n '0') = 0 := by
  have hzeros : digitsValue (List.replicate n '0') = 10 ^ n * 0 := Nat.ofDigitChars_replicate_zero
  exact hzeros

theorem isDigit_toDigits {n : Nat} {c : Char} (h : c ∈ Nat.toDigits 10 n) : c.isDigit :=
  Nat.isDigit_of_mem_toDigits (by decide) (by decide) h

theorem isDigits_iff {cs : List Char} : isDigits cs = true ↔ cs ≠ [] ∧ ∀ c ∈ cs, c.isDigit := by
  simp [isDigits]

theorem isDigits_toDigits (n : Nat) : isDigits (Nat.toDigits 10 n) = true :=
  isDigits_iff.2 ⟨Nat.toDigits_ne_nil, fun _ => isDigit_toDigits⟩

/-- Only zero is written with a zero in front. -/
theorem head?_toDigits {n : Nat} (h : n ≠ 0) : (Nat.toDigits 10 n).head? ≠ some '0' := by
  induction n using Nat.strongRecOn with
  | _ n ih =>
      rw [Nat.toDigits_eq_if (by decide)]
      split
      · intro hhead
        exact h (Nat.digitChar_eq_zero.1 (Option.some.inj hhead))
      · rename_i hlong
        rw [List.head?_append_of_ne_nil _ Nat.toDigits_ne_nil]
        exact ih (n / 10) (by omega) (by omega)

/-- Digits in which no zero stands in front of others. -/
structure IsPlain (ds : List Char) : Prop where
  digits : isDigits ds = true
  leading : ds.length = 1 ∨ ds.head? ≠ some '0'

theorem isPlain_toDigits (n : Nat) : IsPlain (Nat.toDigits 10 n) := by
  refine ⟨isDigits_toDigits n, ?_⟩
  by_cases hn : n = 0
  · subst hn
    exact .inl rfl
  · exact .inr (head?_toDigits hn)

/-- Digits end where the first other character stands. -/
theorem span_digits {ds rest : List Char} (hds : ∀ c ∈ ds, c.isDigit) (hrest : ∀ c ∈ rest.head?, ¬c.isDigit) :
    (ds ++ rest).span Char.isDigit = (ds, rest) := by
  have hnone : rest.takeWhile Char.isDigit = [] := by
    cases rest with
    | nil => rfl
    | cons c rest => exact List.takeWhile_cons_of_neg (hrest c rfl)
  have hall : rest.dropWhile Char.isDigit = rest := by
    cases rest with
    | nil => rfl
    | cons c rest => exact List.dropWhile_cons_of_neg (hrest c rfl)
  rw [List.span_eq_takeWhile_dropWhile, List.takeWhile_append_of_pos hds, List.dropWhile_append_of_pos hds, hnone, hall,
    List.append_nil]

/-! ## Signs -/

/-- A sign, which may be left out; the flag tells a minus. -/
inductive IsSign : List Char → Bool → Prop where
  | none : IsSign [] false
  | plus : IsSign ['+'] false
  | minus : IsSign ['-'] true

/-- A sign is taken off what does not begin with another one. -/
theorem takeSign_sign {sign body : List Char} {negative : Bool} (h : IsSign sign negative)
    (hbody : ∀ c ∈ body.head?, c ≠ '-' ∧ c ≠ '+') : takeSign (sign ++ body) = (negative, body) := by
  cases h with
  | none =>
      rw [List.nil_append]
      unfold takeSign
      split
      · exact absurd rfl (hbody '-' rfl).1
      · exact absurd rfl (hbody '+' rfl).2
      · rfl
  | plus => rfl
  | minus => rfl

theorem not_sign_of_isDigit {c : Char} (h : c.isDigit) : c ≠ '-' ∧ c ≠ '+' := by
  constructor <;> rintro rfl <;> revert h <;> decide

/-- The sign that stands in front of a number's digits. -/
def minus (negative : Bool) : List Char := if negative then ['-'] else []

theorem isSign_minus (negative : Bool) : IsSign (minus negative) negative := by
  cases negative with
  | true => exact .minus
  | false => exact .none

theorem takeSign_minus (negative : Bool) {body : List Char} (h : isDigits (body.take 1) = true) :
    takeSign (minus negative ++ body) = (negative, body) := by
  refine takeSign_sign (isSign_minus negative) fun c hc => not_sign_of_isDigit ((isDigits_iff.1 h).2 c ?_)
  cases body with
  | nil => cases hc
  | cons d rest =>
      obtain rfl := Option.some.inj hc
      exact List.mem_cons_self

theorem isDigits_take_one {ds : List Char} (h : isDigits ds = true) (rest : List Char) :
    isDigits ((ds ++ rest).take 1) = true := by
  cases ds with
  | nil => cases h
  | cons c ds =>
      have hc : c.isDigit := (isDigits_iff.1 h).2 c List.mem_cons_self
      simpa [isDigits] using hc

/-! ## Integers -/

theorem integer?_integerText (n : Int) : integer? (integerText n) = some n := by
  have hds := isDigits_toDigits n.natAbs
  have hsign : (if n < 0 then ['-'] else []) = minus (decide (n < 0)) := by simp [minus]
  have hfirst : isDigits ((Nat.toDigits 10 n.natAbs).take 1) = true := by
    simpa using isDigits_take_one hds []
  simp only [integer?, integerText, String.toList_ofList, hsign, takeSign_minus _ hfirst, hds, ↓reduceIte,
    digitsValue_toDigits, Option.some.injEq]
  by_cases h : n < 0
  · simp only [h, decide_true, ↓reduceIte]
    omega
  · simp only [h, decide_false, Bool.false_eq_true, ↓reduceIte]
    omega

theorem int64?_integerText (n : Int64) : int64? (integerText n.toInt) = some n := by
  have hbounds : Int64.minValue.toInt ≤ n.toInt ∧ n.toInt ≤ Int64.maxValue.toInt :=
    ⟨Int64.minValue_le_toInt n, Int64.toInt_le n⟩
  simp only [int64?, integer?_integerText, Option.bind_eq_bind, Option.bind_some, if_pos hbounds, Int64.ofInt_toInt]

/-! ## Decimals -/

namespace Decimal

theorem exponent?_nil : exponent? [] = some 0 := rfl

theorem takeFraction_of_digits {ds : List Char} (hds : ∀ c ∈ ds, c.isDigit) : takeFraction ('.' :: ds) = (ds, []) := by
  have hspan : (ds ++ []).span Char.isDigit = (ds, []) := span_digits hds (by simp)
  rw [List.append_nil] at hspan
  exact hspan

theorem isEmpty_of_isDigits {ds : List Char} (h : isDigits ds = true) : ds.isEmpty = false := by
  simpa using (isDigits_iff.1 h).1

/-- What digits with a sign and a point among or behind them read as. -/
theorem read?_pointed (negative : Bool) {whole fraction : List Char} (hwhole : isDigits whole = true)
    (hfraction : ∀ c ∈ fraction, c.isDigit) :
    read? (minus negative ++ (whole ++ '.' :: fraction)) = some (ofDigits negative whole fraction 0) := by
  have hspan : (whole ++ '.' :: fraction).span Char.isDigit = (whole, '.' :: fraction) :=
    span_digits (isDigits_iff.1 hwhole).2 (by simp)
  simp only [read?, takeSign_minus negative (isDigits_take_one hwhole _), hspan, takeFraction_of_digits hfraction,
    isEmpty_of_isDigits hwhole, Bool.false_and, Bool.false_eq_true, ↓reduceIte, exponent?_nil, Option.map_some]

theorem read?_whole (negative : Bool) {whole : List Char} (hwhole : isDigits whole = true) :
    read? (minus negative ++ whole) = some (ofDigits negative whole [] 0) := by
  have hspan : (whole ++ []).span Char.isDigit = (whole, []) := span_digits (isDigits_iff.1 hwhole).2 (by simp)
  rw [List.append_nil] at hspan
  have hfirst := isDigits_take_one hwhole []
  rw [List.append_nil] at hfirst
  simp only [read?, takeSign_minus negative hfirst, hspan, takeFraction, isEmpty_of_isDigits hwhole, Bool.false_and,
    Bool.false_eq_true, ↓reduceIte, exponent?_nil, Option.map_some]

end Decimal

namespace Layout

open Binary64

/-- Digits with the point in its place are a whole part and a fraction, which is left out with the point where there is
none. No zero stands in front of the whole part, unless the number is a zero times a power of ten. -/
theorem place_eq (l : Layout) (coefficient : Nat) (exponent : Int) :
    ∃ whole fraction, l.place (Nat.toDigits 10 coefficient) (exponent + (Nat.toDigits 10 coefficient).length - 1)
        = whole ++ (if fraction.isEmpty then l.wholeEnd else '.' :: fraction) ∧
      isDigits whole = true ∧ (∀ c ∈ fraction, c.isDigit) ∧
      ((coefficient = 0 → exponent = 0) → IsPlain whole) ∧
      ∀ negative, rankOf (.ofDigits negative whole fraction 0) = rankOf ⟨false, coefficient, exponent⟩ := by
  have hdigits := isDigits_toDigits coefficient
  have hvalue := digitsValue_toDigits coefficient
  have hhead := head?_toDigits (n := coefficient)
  have hzero : coefficient = 0 → (Nat.toDigits 10 coefficient).length = 1 := by
    rintro rfl
    rfl
  generalize Nat.toDigits 10 coefficient = ds at hdigits hvalue hhead hzero
  obtain ⟨hne, hall⟩ := isDigits_iff.1 hdigits
  have hpos : 0 < ds.length := List.length_pos_iff.2 hne
  have hzeros : ∀ n, ∀ c ∈ List.replicate n '0', c.isDigit := by
    intro n c hc
    obtain ⟨-, rfl⟩ := List.mem_replicate.1 hc
    decide
  unfold place
  split
  · -- the digits begin behind the point
    rename_i hneg
    generalize hfill : List.replicate ((-(exponent + ds.length - 1)).toNat - 1) '0' = fill
    refine ⟨['0'], fill ++ ds, by simp [hne], rfl, fun c hc => ?_, fun _ => ⟨rfl, .inl rfl⟩, fun negative => ?_⟩
    · rcases List.mem_append.1 hc with hc | hc
      · exact hzeros _ c (hfill ▸ hc)
      · exact hall c hc
    · have hlength : ((fill ++ ds).length : Int) = -exponent := by
        rw [← hfill, List.length_append, List.length_replicate]
        omega
      have hone : digitsValue ['0'] = 0 := rfl
      have hcoefficient : digitsValue (['0'] ++ (fill ++ ds)) = coefficient := by
        rw [digitsValue_append, digitsValue_append, hone, ← hfill, digitsValue_zeros, hvalue]
        simp
      simp only [Decimal.ofDigits, hcoefficient, hlength, zero_sub, Int.neg_neg]
      rfl
  · rename_i hnonneg
    split
    · -- zeros fill the places up to the point
      rename_i hlong
      obtain ⟨k, rfl⟩ : ∃ k : Nat, exponent = k := ⟨exponent.toNat, by omega⟩
      have hcount : ((k : Int) + ds.length - 1).toNat + 1 - ds.length = k := by omega
      have hwhole : isDigits (ds ++ List.replicate k '0') = true := by
        refine isDigits_iff.2 ⟨by simp [hne], fun c hc => ?_⟩
        rcases List.mem_append.1 hc with hc | hc
        · exact hall c hc
        · exact hzeros _ c hc
      refine ⟨ds ++ List.replicate k '0', [], by rw [hcount]; simp, hwhole, by simp, fun hplain => ⟨hwhole, ?_⟩,
        fun negative => ?_⟩
      · rw [List.length_append, List.length_replicate, List.head?_append_of_ne_nil _ hne]
        by_cases hcoefficient : coefficient = 0
        · have hk := hplain hcoefficient
          have hone := hzero hcoefficient
          exact .inl (by omega)
        · exact .inr (hhead hcoefficient)
      · have hcoefficient : digitsValue (ds ++ List.replicate k '0') = coefficient * tenPow k := by
          rw [digitsValue_append, digitsValue_zeros, hvalue, List.length_replicate, Nat.add_zero]
        have hscale := rankOf_scale negative coefficient k k
        simp only [Int.sub_self] at hscale
        simp only [Decimal.ofDigits, List.append_nil, hcoefficient, List.length_nil, Int.natCast_zero, Int.sub_zero]
        exact hscale
    · -- the point divides the digits
      rename_i hlong
      generalize hn : (exponent + ds.length - 1).toNat + 1 = n at hlong
      have htake : isDigits (ds.take n) = true := by
        refine isDigits_iff.2 ⟨?_, fun c hc => hall c (List.mem_of_mem_take hc)⟩
        rw [← List.length_pos_iff, List.length_take]
        omega
      have hdrop : (ds.drop n).isEmpty = false := by
        rw [List.isEmpty_eq_false_iff, ← List.length_pos_iff, List.length_drop]
        omega
      refine ⟨ds.take n, ds.drop n, by simp [hdrop], htake, fun c hc => hall c (List.mem_of_mem_drop hc),
        fun _ => ⟨htake, .inr ?_⟩, fun negative => ?_⟩
      · rw [List.head?_take, if_neg (by omega)]
        refine hhead fun hcoefficient => ?_
        have hone := hzero hcoefficient
        omega
      · have hlength : ((ds.drop n).length : Int) = -exponent := by
          rw [List.length_drop]
          omega
        simp only [Decimal.ofDigits, List.take_append_drop, hvalue, hlength, zero_sub, Int.neg_neg]
        rfl

/-- Digits with the point in its place read as the same number, if nothing stands behind whole numbers. -/
theorem read?_place {l : Layout} (hl : l.wholeEnd = []) (negative : Bool) (coefficient : Nat) (exponent : Int) :
    ∃ d, Decimal.read? (minus negative ++ l.place (Nat.toDigits 10 coefficient)
        (exponent + (Nat.toDigits 10 coefficient).length - 1)) = some d ∧
      d.negative = negative ∧ rankOf d = rankOf ⟨false, coefficient, exponent⟩ := by
  obtain ⟨whole, fraction, hplace, hwhole, hfraction, -, hrank⟩ := l.place_eq coefficient exponent
  refine ⟨.ofDigits negative whole fraction 0, ?_, rfl, hrank negative⟩
  rw [hplace, hl]
  split
  · rename_i hnone
    obtain rfl := List.isEmpty_iff.1 hnone
    rw [List.append_nil]
    exact Decimal.read?_whole negative hwhole
  · exact Decimal.read?_pointed negative hwhole hfraction

end Layout

end PushMetrics.Number
