import PushMetrics.Proofs.Number.Nearest
import PushMetrics.Proofs.Number.Reading
import Mathlib.Data.List.TakeWhile
import Mathlib.Data.Nat.Digits.Defs

/-!
# The grammar of numbers

Which texts are integers and which are decimals, and of which value, said without a reader: a sign that may be left
out, digits with an optional point among them, and an optional exponent. A number is read from a text exactly if the
text is one of it.
-/

namespace PushMetrics.Number

/-! ## Parts of a number -/

/-- The number that digits stand for by their places, the last one for ones. -/
def positional (ds : List Char) : Nat := Nat.ofDigits 10 (ds.reverse.map fun c => c.toNat - '0'.toNat)

/-- A sign and at least one digit. -/
inductive IsInteger : List Char → Int → Prop where
  | intro {sign ds : List Char} {negative : Bool} (hsign : IsSign sign negative) (hne : ds ≠ [])
      (hds : ∀ c ∈ ds, c.isDigit) :
      IsInteger (sign ++ ds) (if negative then -(positional ds : Int) else positional ds)

/-- Digits with an optional point before, among or behind them, at least one of them; what stands before the point and
what stands behind it. -/
inductive IsPointed : List Char → List Char → List Char → Prop where
  | whole {ds : List Char} (hne : ds ≠ []) (hds : ∀ c ∈ ds, c.isDigit) : IsPointed ds ds []
  | point {whole fraction : List Char} (hne : whole ≠ [] ∨ fraction ≠ []) (hwhole : ∀ c ∈ whole, c.isDigit)
      (hfraction : ∀ c ∈ fraction, c.isDigit) : IsPointed (whole ++ '.' :: fraction) whole fraction

/-- An exponent, which may be left out. -/
inductive IsExponent : List Char → Int → Prop where
  | none : IsExponent [] 0
  | some {letter : Char} {text : List Char} {n : Int} (hletter : letter = 'e' ∨ letter = 'E') (h : IsInteger text n) :
      IsExponent (letter :: text) n

/-- A sign, digits with an optional point and an optional exponent, with the magnitude that they stand for. -/
inductive IsDecimal : List Char → Bool → ℚ → Prop where
  | intro {sign mantissa whole fraction power : List Char} {negative : Bool} {exponent : Int}
      (hsign : IsSign sign negative) (hmantissa : IsPointed mantissa whole fraction)
      (hpower : IsExponent power exponent) :
      IsDecimal (sign ++ (mantissa ++ power)) negative
        (positional (whole ++ fraction) * 10 ^ (exponent - fraction.length))

/-! ## Reading the parts -/

theorem digitsValue_concat (ds : List Char) (c : Char) :
    digitsValue (ds ++ [c]) = 10 * digitsValue ds + (c.toNat - '0'.toNat) := by
  simp [digitsValue]

theorem digitsValue_eq_positional (ds : List Char) : digitsValue ds = positional ds := by
  induction ds using List.reverseRecOn with
  | nil => rfl
  | append_singleton ds c ih =>
      rw [digitsValue_concat, ih, positional, positional, List.reverse_concat, List.map_cons, Nat.ofDigits_cons]
      omega

theorem takeSign_spec (cs : List Char) : ∃ sign, IsSign sign (takeSign cs).1 ∧ cs = sign ++ (takeSign cs).2 := by
  unfold takeSign
  split
  · exact ⟨_, .minus, rfl⟩
  · exact ⟨_, .plus, rfl⟩
  · exact ⟨_, .none, rfl⟩

theorem isInteger_iff {cs : List Char} {n : Int} : IsInteger cs n ↔ isDigits (takeSign cs).2 = true ∧
    (if (takeSign cs).1 then -(digitsValue (takeSign cs).2 : Int) else digitsValue (takeSign cs).2) = n := by
  constructor
  · rintro ⟨hsign, hne, hds⟩
    rw [takeSign_sign hsign fun c hc => not_sign_of_isDigit (hds c (List.mem_of_mem_head? hc)),
      digitsValue_eq_positional]
    exact ⟨isDigits_iff.2 ⟨hne, hds⟩, rfl⟩
  · rintro ⟨hdigits, rfl⟩
    obtain ⟨sign, hsign, hsplit⟩ := takeSign_spec cs
    obtain ⟨hne, hds⟩ := isDigits_iff.1 hdigits
    have hinteger := IsInteger.intro hsign hne hds
    rwa [← hsplit, ← digitsValue_eq_positional] at hinteger

/-- An integer is read from exactly the texts of it. -/
theorem integer?_iff {s : String} {n : Int} : integer? s = some n ↔ IsInteger s.toList n := by
  rw [isInteger_iff, integer?]
  simp only [Option.ite_none_right_eq_some, Option.some.injEq]

namespace Decimal

theorem exponent?_iff {cs : List Char} {n : Int} : exponent? cs = some n ↔ IsExponent cs n := by
  cases cs with
  | nil =>
      refine ⟨fun h => ?_, fun h => ?_⟩
      · obtain rfl : 0 = n := Option.some.inj h
        exact .none
      · cases h
        rfl
  | cons c rest =>
      have hread : exponent? (c :: rest) = some n ↔ (c = 'e' ∨ c = 'E') ∧ IsInteger rest n := by
        simp only [exponent?, isInteger_iff, Option.ite_none_right_eq_some, Option.some.injEq]
      rw [hread]
      refine ⟨fun ⟨hletter, hrest⟩ => .some hletter hrest, fun h => ?_⟩
      cases h with
      | some hletter hrest => exact ⟨hletter, hrest⟩

/-- What is found before the exponent is digits with an optional point. -/
theorem takeFraction_spec (body : List Char)
    (hne : ((body.takeWhile Char.isDigit).isEmpty && (takeFraction (body.dropWhile Char.isDigit)).1.isEmpty) = false) :
    ∃ mantissa, IsPointed mantissa (body.takeWhile Char.isDigit) (takeFraction (body.dropWhile Char.isDigit)).1 ∧
      body = mantissa ++ (takeFraction (body.dropWhile Char.isDigit)).2 := by
  have hsplit := List.takeWhile_append_dropWhile (p := Char.isDigit) (l := body)
  have hwhole : ∀ c ∈ body.takeWhile Char.isDigit, c.isDigit := fun c => List.mem_takeWhile_imp
  generalize body.takeWhile Char.isDigit = whole at hne hsplit hwhole
  generalize body.dropWhile Char.isDigit = rest at hne hsplit
  subst hsplit
  unfold takeFraction at hne ⊢
  split
  · rename_i more
    simp only [List.span_eq_takeWhile_dropWhile, Bool.and_eq_false_iff, List.isEmpty_eq_false_iff] at hne ⊢
    refine ⟨_, .point hne hwhole fun c => List.mem_takeWhile_imp, ?_⟩
    rw [List.append_assoc, List.cons_append, List.takeWhile_append_dropWhile]
  · rename_i hpoint
    split at hne
    · exact absurd rfl (hpoint _)
    · simp only [List.isEmpty_nil, Bool.and_true, List.isEmpty_eq_false_iff] at hne
      exact ⟨whole, .whole hne hwhole, rfl⟩

theorem head?_of_isExponent {power : List Char} {n : Int} (h : IsExponent power n) {c : Char} (hc : c ∈ power.head?) :
    c = 'e' ∨ c = 'E' := by
  cases h with
  | none => cases hc
  | some hletter _ =>
      obtain rfl := Option.some.inj hc
      exact hletter

/-- Digits with an optional point are found before an exponent. -/
theorem takeFraction_of_isPointed {mantissa whole fraction power : List Char} {n : Int}
    (h : IsPointed mantissa whole fraction) (hpower : IsExponent power n) :
    ∃ rest, (mantissa ++ power).span Char.isDigit = (whole, rest) ∧ takeFraction rest = (fraction, power) ∧
      (whole.isEmpty && fraction.isEmpty) = false := by
  have hletter : ∀ c ∈ power.head?, ¬c.isDigit := fun c hc => by
    rcases head?_of_isExponent hpower hc with rfl | rfl <;> decide
  cases h with
  | whole hne hds =>
      refine ⟨power, span_digits hds hletter, ?_, by simpa using hne⟩
      unfold takeFraction
      split
      · rcases head?_of_isExponent hpower rfl with hpoint | hpoint <;> exact absurd hpoint (by decide)
      · rfl
  | point hne hwhole hfraction =>
      rw [List.append_assoc, List.cons_append]
      exact ⟨_, span_digits hwhole (by simp), span_digits hfraction hletter, by simpa [← not_and_or] using hne⟩

theorem ne_nil_of_isPointed {mantissa whole fraction : List Char} (h : IsPointed mantissa whole fraction) :
    mantissa ≠ [] := by
  cases h with
  | whole hne _ => exact hne
  | point _ _ _ => simp

theorem not_sign_of_isPointed {mantissa whole fraction : List Char} (h : IsPointed mantissa whole fraction) {c : Char}
    (hc : c ∈ mantissa) : c ≠ '-' ∧ c ≠ '+' := by
  cases h with
  | whole _ hds => exact not_sign_of_isDigit (hds c hc)
  | point _ hwhole hfraction =>
      rcases List.mem_append.1 hc with hc | hc
      · exact not_sign_of_isDigit (hwhole c hc)
      · rcases List.mem_cons.1 hc with rfl | hc
        · decide
        · exact not_sign_of_isDigit (hfraction c hc)

theorem value_ofDigits (negative : Bool) (whole fraction : List Char) (exponent : Int) :
    (ofDigits negative whole fraction exponent).value =
      positional (whole ++ fraction) * 10 ^ (exponent - fraction.length) := by
  rw [value, ofDigits, digitsValue_eq_positional]

/-- A decimal is read from exactly the texts of it. -/
theorem isDecimal_iff {cs : List Char} {negative : Bool} {x : ℚ} :
    IsDecimal cs negative x ↔ ∃ d, read? cs = some d ∧ d.negative = negative ∧ d.value = x := by
  constructor
  · intro h
    cases h with
    | @intro sign mantissa whole fraction power _ exponent hsign hmantissa hpower =>
        obtain ⟨rest, hspan, hfraction, hne⟩ := takeFraction_of_isPointed hmantissa hpower
        have hbody : ∀ c ∈ (mantissa ++ power).head?, c ≠ '-' ∧ c ≠ '+' := fun c hc => by
          rw [List.head?_append_of_ne_nil _ (ne_nil_of_isPointed hmantissa)] at hc
          exact not_sign_of_isPointed hmantissa (List.mem_of_mem_head? hc)
        refine ⟨ofDigits negative whole fraction exponent, ?_, rfl, value_ofDigits _ _ _ _⟩
        simp only [read?, takeSign_sign hsign hbody, hspan, hfraction, hne, Bool.false_eq_true, ↓reduceIte,
          exponent?_iff.2 hpower, Option.map_some]
  · rintro ⟨d, hread, rfl, rfl⟩
    obtain ⟨sign, hsign, hsplit⟩ := takeSign_spec cs
    simp only [read?, List.span_eq_takeWhile_dropWhile] at hread
    split at hread
    · cases hread
    · rename_i hne
      obtain ⟨exponent, hpower, rfl⟩ := Option.map_eq_some_iff.1 hread
      obtain ⟨mantissa, hmantissa, hbody⟩ := takeFraction_spec (takeSign cs).2 (by simpa using hne)
      have hdecimal := IsDecimal.intro hsign hmantissa (exponent?_iff.1 hpower)
      rw [← hbody, ← hsplit] at hdecimal
      rw [value_ofDigits]
      exact hdecimal

end Decimal

end PushMetrics.Number
