import PushMetrics.Proofs.Json.Reading
import PushMetrics.Proofs.Number.Shortest

/-!
# Numbers in JSON and back

An integer and a finite double precision number are read from their JSON form as what they are, in each of the layouts
in which numbers are written, and with the sign of a zero.
-/

namespace PushMetrics.Number

namespace Shortest

/-- The only decimal for zero is the plain one. -/
theorem exponent_of_coefficient {tie : Tie} {rank : Nat} (h : rank < infinityRank)
    (hzero : (decimal tie rank).coefficient = 0) : (decimal tie rank).exponent = 0 := by
  have hrank := rankOf_decimal tie h
  have hnone : Binary64.rankOf (decimal tie rank) = 0 := by
    rw [Binary64.rankOf, hzero, Nat.zero_mul]
    exact Binary64.nearestRank_eq_zero (by simpa using tenPow_pos _)
  obtain rfl : rank = 0 := hrank.symm.trans hnone
  rfl

end Shortest

/-- A number is written with its point in place or with an exponent. -/
theorem Layout.magnitude_cases (l : Layout) (rank : Nat) :
    l.magnitude rank = l.place (Nat.toDigits 10 (Shortest.decimal l.tie rank).coefficient)
      ((Shortest.decimal l.tie rank).exponent
        + (Nat.toDigits 10 (Shortest.decimal l.tie rank).coefficient).length - 1) ∨
    l.magnitude rank = scale (Nat.toDigits 10 (Shortest.decimal l.tie rank).coefficient)
      ((Shortest.decimal l.tie rank).exponent
        + (Nat.toDigits 10 (Shortest.decimal l.tie rank).coefficient).length - 1) :=
  ite_eq_or_eq _ _ _

end PushMetrics.Number

namespace PushMetrics.Json

open Number Text Binary64

/-! ## Parts of a number -/

/-- A number is read part by part. -/
theorem read?_parts (negative : Bool) {whole fraction rest tail : List Char} {exponent : Int} (hwhole : IsPlain whole)
    (hrest : ∀ c ∈ rest.head?, ¬c.isDigit) (hfraction : fraction? rest = some (fraction, tail))
    (hexponent : Decimal.exponent? tail = some exponent) :
    Numeral.read? (minus negative ++ (whole ++ rest))
      = some ⟨.ofDigits negative whole fraction exponent, rest.isEmpty⟩ := by
  have hspan := span_digits (isDigits_iff.1 hwhole.digits).2 hrest
  have hplain : (whole.isEmpty || (whole.length != 1 && whole.head? == some '0')) = false := by
    rw [Decimal.isEmpty_of_isDigits hwhole.digits, Bool.false_or]
    rcases hwhole.leading with hone | hhead
    · simp [hone]
    · simp [hhead]
  cases negative with
  | true =>
      simp only [minus, ↓reduceIte, List.singleton_append, Numeral.read?, hspan, hplain, Bool.false_eq_true, hfraction,
        hexponent, bind, Option.bind]
  | false =>
      have hunsigned : ∀ body, whole ++ rest ≠ '-' :: body := by
        intro body hbody
        obtain ⟨hne, hall⟩ := isDigits_iff.1 hwhole.digits
        cases whole with
        | nil => exact hne rfl
        | cons c cs =>
            obtain ⟨rfl, -⟩ := List.cons.inj hbody
            exact absurd (hall '-' List.mem_cons_self) (by decide)
      simp only [minus, Bool.false_eq_true, ↓reduceIte, List.nil_append, Numeral.read?, hspan, hplain, hfraction,
        hexponent, bind, Option.bind]

theorem fraction?_pointed {fraction tail : List Char} (hfraction : isDigits fraction = true)
    (htail : ∀ c ∈ tail.head?, ¬c.isDigit) : fraction? ('.' :: (fraction ++ tail)) = some (fraction, tail) := by
  simp only [fraction?, span_digits (isDigits_iff.1 hfraction).2 htail, Decimal.isEmpty_of_isDigits hfraction,
    Bool.false_eq_true, ↓reduceIte]

theorem exponent?_signed (exponent : Int) :
    Decimal.exponent? ('e' :: ((if exponent < 0 then ['-'] else ['+']) ++ Nat.toDigits 10 exponent.natAbs))
      = some exponent := by
  have hdigits := isDigits_toDigits exponent.natAbs
  by_cases hneg : exponent < 0
  · simp only [Decimal.exponent?, true_or, ↓reduceIte, if_pos hneg, List.singleton_append, takeSign, hdigits,
      digitsValue_toDigits, Option.some.injEq]
    omega
  · simp only [Decimal.exponent?, true_or, ↓reduceIte, if_neg hneg, List.singleton_append, takeSign, hdigits,
      digitsValue_toDigits, Bool.false_eq_true, Option.some.injEq]
    omega

/-! ## Numbers as words -/

/-- Whether a character may stand in a number. -/
def isNumeric (c : Char) : Prop := c.isDigit ∨ c = '-' ∨ c = '+' ∨ c = '.' ∨ c = 'e' ∨ c = 'E'

theorem isNumeric_of_isDigits {ds : List Char} (h : isDigits ds = true) : ∀ c ∈ ds, isNumeric c :=
  fun c hc => .inl ((isDigits_iff.1 h).2 c hc)

theorem isNumeric_span {cs : List Char} (h : ∀ c ∈ (cs.span Char.isDigit).2, isNumeric c) : ∀ c ∈ cs, isNumeric c := by
  rw [List.span_eq_takeWhile_dropWhile] at h
  intro c hc
  rw [← List.takeWhile_append_dropWhile (p := Char.isDigit) (l := cs)] at hc
  rcases List.mem_append.1 hc with hc | hc
  · exact .inl (List.all_eq_true.1 List.all_takeWhile c hc)
  · exact h c hc

theorem isNumeric_takeSign {cs : List Char} (h : ∀ c ∈ (takeSign cs).2, isNumeric c) : ∀ c ∈ cs, isNumeric c := by
  unfold takeSign at h
  split at h
  · exact List.forall_mem_cons.2 ⟨by simp [isNumeric], h⟩
  · exact List.forall_mem_cons.2 ⟨by simp [isNumeric], h⟩
  · exact h

theorem isNumeric_of_exponent? {tail : List Char} {exponent : Int} (h : Decimal.exponent? tail = some exponent) :
    ∀ c ∈ tail, isNumeric c := by
  cases tail with
  | nil => simp
  | cons c rest =>
      simp only [Decimal.exponent?] at h
      split at h
      · rename_i hletter
        split at h
        · rename_i hdigits
          refine List.forall_mem_cons.2 ⟨?_, isNumeric_takeSign (isNumeric_of_isDigits hdigits)⟩
          rcases hletter with rfl | rfl <;> simp [isNumeric]
        · cases h
      · cases h

theorem isNumeric_of_fraction? {rest fraction tail : List Char} (h : fraction? rest = some (fraction, tail))
    (htail : ∀ c ∈ tail, isNumeric c) : ∀ c ∈ rest, isNumeric c := by
  unfold fraction? at h
  split at h
  · refine List.forall_mem_cons.2 ⟨by simp [isNumeric], isNumeric_span ?_⟩
    simp only at h
    split at h
    · cases h
    · cases h
      exact htail
  · cases h
    exact htail

/-- A number has no characters but digits, signs, points and the letter before its exponent. -/
theorem isNumeric_of_read? {cs : List Char} {n : Numeral} (h : Numeral.read? cs = some n) :
    cs ≠ [] ∧ ∀ c ∈ cs, isNumeric c := by
  unfold Numeral.read? at h
  split at h
  rename_i negative body hsign
  have hbody : body ≠ [] ∧ ∀ c ∈ body, isNumeric c := by
    simp only at h
    split at h
    · cases h
    · rename_i hplain
      obtain ⟨⟨fraction, tail⟩, hfraction, h⟩ := Option.bind_eq_some_iff.1 h
      obtain ⟨exponent, hexponent, -⟩ := Option.bind_eq_some_iff.1 h
      refine ⟨?_, isNumeric_span (isNumeric_of_fraction? hfraction (isNumeric_of_exponent? hexponent))⟩
      rintro rfl
      exact hplain rfl
  split at hsign
  · cases hsign
    exact ⟨List.cons_ne_nil _ _, List.forall_mem_cons.2 ⟨by simp [isNumeric], hbody.2⟩⟩
  · cases hsign
    exact hbody

theorem endsAtom_of_isNumeric {c : Char} (h : isNumeric c) : Lexer.endsAtom c = false := by
  have hends : Lexer.endsAtom c = true → c ∈ [' ', '\n', '\t', '\r', '"', '[', ']', '\x7b', '\x7d', ',', ':'] := by
    intro hc
    simp only [Lexer.endsAtom, Lexer.isSpace, Bool.or_eq_true, beq_iff_eq] at hc
    unfold Lexer.punctuation? at hc
    split at hc <;> simp_all [or_assoc]
  by_contra hc
  have hlist := hends (by simpa using hc)
  simp only [List.mem_cons, List.not_mem_nil, or_false] at hlist
  rcases hlist with rfl | rfl | rfl | rfl | rfl | rfl | rfl | rfl | rfl | rfl | rfl <;> simp [isNumeric] at h

/-- What is read as a number is a word for it. -/
theorem writes_of_read? {s : String} {n : Numeral} (h : Numeral.read? s.toList = some n) : Writes s (.number n) := by
  obtain ⟨hne, hnumeric⟩ := isNumeric_of_read? h
  have hword : ∀ c cs, ¬isNumeric c → s.toList ≠ c :: cs :=
    fun c cs hc hs => hc (hnumeric c (hs ▸ List.mem_cons_self))
  refine ⟨[.number n], spells_atom hne (fun c hc => endsAtom_of_isNumeric (hnumeric c hc)) ?_, ?_⟩
  · have hnull : s.toList ≠ "null".toList := hword 'n' _ (by simp [isNumeric])
    have htrue : s.toList ≠ "true".toList := hword 't' _ (by simp [isNumeric])
    have hfalse : s.toList ≠ "false".toList := hword 'f' _ (by simp [isNumeric])
    rw [Token.ofAtom?, if_neg hnull, if_neg htrue, if_neg hfalse, h, Option.map_some]
  · intro frames mayClose rest
    cases mayClose <;> rfl

/-! ## Integers -/

theorem read?_integerText (n : Int) : Numeral.read? (integerText n).toList
    = some ⟨⟨decide (n < 0), n.natAbs, 0⟩, true⟩ := by
  have hnone : ∀ c ∈ ([] : List Char).head?, ¬c.isDigit := by simp
  have hread := read?_parts (decide (n < 0)) (isPlain_toDigits n.natAbs) hnone rfl rfl
  have hsign : (if n < 0 then ['-'] else []) = minus (decide (n < 0)) := by simp [minus]
  rw [List.append_nil] at hread
  rw [integerText, String.toList_ofList, hsign, hread, Decimal.ofDigits, List.append_nil, digitsValue_toDigits]
  rfl

theorem int64?_number (n : Int64) :
    Value.int64? (.number ⟨⟨decide (n.toInt < 0), n.toInt.natAbs, 0⟩, true⟩) = some n := by
  have hbounds : Int64.minValue.toInt ≤ n.toInt ∧ n.toInt ≤ Int64.maxValue.toInt :=
    ⟨Int64.minValue_le_toInt n, Int64.toInt_le n⟩
  have hread : Value.integer? (.number ⟨⟨decide (n.toInt < 0), n.toInt.natAbs, 0⟩, true⟩) = some n.toInt := by
    have hzero : ¬(n.toInt < 0 ∧ n.toInt.natAbs = 0) := by omega
    simp only [Value.integer?, decide_eq_true_eq, hzero, not_false_eq_true, and_self, ↓reduceIte, Option.some.injEq]
    split <;> omega
  simp only [Value.int64?, hread, bind, Option.bind, if_pos hbounds, Int64.ofInt_toInt]

theorem writes_encodeInt (n : Int64) : ∃ v, Writes (encodeInt n.toInt) v ∧ v.int64? = some n :=
  ⟨_, writes_of_read? (read?_integerText n.toInt), int64?_number n⟩

/-! ## Double precision numbers -/

/-- A decimal that stands for a magnitude, with a sign. -/
def Stands (negative : Bool) (rank : Nat) (d : Decimal) : Prop := d.negative = negative ∧ rankOf d = rank

/-- Digits with the point in its place, and a zero behind a whole number, are read as the same number. -/
theorem read?_place (negative : Bool) {coefficient : Nat} {exponent : Int} (hzero : coefficient = 0 → exponent = 0) :
    ∃ d, Numeral.read? (minus negative ++ numberLayout.place (Nat.toDigits 10 coefficient)
        (exponent + (Nat.toDigits 10 coefficient).length - 1)) = some ⟨d, false⟩ ∧
      Stands negative (rankOf ⟨false, coefficient, exponent⟩) d := by
  obtain ⟨whole, fraction, hplace, -, hfraction, hplain, hrank⟩ := numberLayout.place_eq coefficient exponent
  have hpointed : ∀ ds, isDigits ds = true →
      Numeral.read? (minus negative ++ (whole ++ '.' :: ds)) = some ⟨.ofDigits negative whole ds 0, false⟩ := by
    intro ds hds
    have hfound : fraction? ('.' :: (ds ++ [])) = some (ds, []) := fraction?_pointed hds (by simp)
    rw [List.append_nil] at hfound
    exact read?_parts negative (hplain hzero) (by simp) hfound rfl
  rw [hplace]
  split
  · rename_i hnone
    obtain rfl := List.isEmpty_iff.1 hnone
    refine ⟨_, hpointed ['0'] rfl, rfl, ?_⟩
    have hscale := rankOf_scale negative (digitsValue whole) 0 1
    have hvalue : digitsValue (whole ++ ['0']) = digitsValue whole * tenPow 1 := digitsValue_append whole ['0']
    have hwhole := hrank negative
    simp only [Decimal.ofDigits, List.append_nil, List.length_nil, Int.natCast_zero, Int.sub_zero] at hwhole
    simp only [Decimal.ofDigits, hvalue]
    exact hscale.trans hwhole
  · rename_i hsome
    refine ⟨_, hpointed fraction (isDigits_iff.2 ⟨?_, hfraction⟩), rfl, hrank negative⟩
    simpa using hsome

/-- One digit, a fraction and an exponent are read as the same number. -/
theorem read?_scale (negative : Bool) (coefficient : Nat) (exponent : Int) :
    ∃ d, Numeral.read? (minus negative ++ Layout.scale (Nat.toDigits 10 coefficient)
        (exponent + (Nat.toDigits 10 coefficient).length - 1)) = some ⟨d, false⟩ ∧
      Stands negative (rankOf ⟨false, coefficient, exponent⟩) d := by
  have hdigits := isDigits_toDigits coefficient
  have hvalue := digitsValue_toDigits coefficient
  generalize Nat.toDigits 10 coefficient = ds at hdigits hvalue
  obtain ⟨hne, hall⟩ := isDigits_iff.1 hdigits
  have hpos : 0 < ds.length := List.length_pos_iff.2 hne
  have hone : (ds.take 1).length = 1 := by
    rw [List.length_take]
    omega
  have hwhole : IsPlain (ds.take 1) := by
    refine ⟨isDigits_iff.2 ⟨?_, fun c hc => hall c (List.mem_of_mem_take hc)⟩, .inl hone⟩
    rw [← List.length_pos_iff, hone]
    exact Nat.one_pos
  have hexponent := exponent?_signed (exponent + ds.length - 1)
  generalize htail : 'e' :: ((if exponent + ds.length - 1 < 0 then ['-'] else ['+'])
    ++ Nat.toDigits 10 (exponent + ds.length - 1).natAbs) = tail at hexponent
  have hletter : ∀ c ∈ tail.head?, ¬c.isDigit := by
    subst htail
    simp
  have hscale : Layout.scale ds (exponent + ds.length - 1)
      = ds.take 1 ++ ((if ds.length ≤ 1 then [] else '.' :: ds.drop 1) ++ tail) := by
    rw [Layout.scale, ← htail]
    simp
  have hrank : rankOf (.ofDigits negative (ds.take 1) (ds.drop 1) (exponent + ds.length - 1))
      = rankOf ⟨false, coefficient, exponent⟩ := by
    have hlength : (exponent + ds.length - 1) - ((ds.drop 1).length : Int) = exponent := by
      rw [List.length_drop]
      omega
    rw [Decimal.ofDigits, List.take_append_drop, hvalue, hlength]
    rfl
  rw [hscale]
  by_cases hshort : ds.length ≤ 1
  · have hnone : ds.drop 1 = [] := List.drop_eq_nil_of_le hshort
    have hfraction : fraction? tail = some ([], tail) := by
      subst htail
      rfl
    have hread := read?_parts negative hwhole hletter hfraction hexponent
    rw [if_pos hshort, List.nil_append]
    refine ⟨_, hread.trans ?_, rfl, hnone ▸ hrank⟩
    subst htail
    rfl
  · have hdrop : isDigits (ds.drop 1) = true := by
      refine isDigits_iff.2 ⟨?_, fun c hc => hall c (List.mem_of_mem_drop hc)⟩
      rw [← List.length_pos_iff, List.length_drop]
      omega
    have hread := read?_parts negative hwhole (by simp) (fraction?_pointed hdrop hletter) hexponent
    rw [if_neg hshort]
    exact ⟨_, hread, rfl, hrank⟩

/-- What is written for a finite number is read as a number that rounds to it. -/
theorem read?_render (negative : Bool) (rank : Fin infinityRank) :
    ∃ d, Numeral.read? (numberLayout.render negative rank.val) = some ⟨d, false⟩ ∧
      ofDecimal d = finite negative rank := by
  have hround : ∀ d, Stands negative (rankOf ⟨false, (Shortest.decimal numberLayout.tie rank.val).coefficient,
      (Shortest.decimal numberLayout.tie rank.val).exponent⟩) d → ofDecimal d = finite negative rank := by
    rintro d ⟨hsign, hrank⟩
    have hback : rankOf d = rank.val := hrank.trans (Shortest.rankOf_decimal numberLayout.tie rank.isLt)
    rw [ofDecimal_eq, hsign, hback, ofRank_of_lt negative rank.isLt]
  have hsign : (if negative then ['-'] else []) = minus negative := rfl
  rw [Layout.render, hsign]
  rcases Layout.magnitude_cases numberLayout rank.val with hplace | hscale
  · obtain ⟨d, hread, hstands⟩ := read?_place negative (Shortest.exponent_of_coefficient rank.isLt)
    rw [hplace]
    exact ⟨d, hread, hround d hstands⟩
  · obtain ⟨d, hread, hstands⟩ := read?_scale negative (Shortest.decimal numberLayout.tie rank.val).coefficient
      (Shortest.decimal numberLayout.tie rank.val).exponent
    rw [hscale]
    exact ⟨d, hread, hround d hstands⟩

theorem writes_encodeBinary64 {x : Binary64} (h : x.isFinite = true) :
    ∃ v, Writes (encodeBinary64 x) v ∧ v.binary64? = some x := by
  cases x with
  | finite negative rank =>
      obtain ⟨d, hread, hround⟩ := read?_render negative rank
      refine ⟨_, writes_of_read? (by rw [encodeBinary64, String.toList_ofList]; exact hread), ?_⟩
      rw [Value.binary64?, hround]
      rfl
  | _ => cases h

end PushMetrics.Json
