import PushMetrics.Text.Utf8
import Mathlib.Data.List.Basic

/-!
# UTF-8 and back

The bytes of a text read back as the text, and no others do.
-/

namespace PushMetrics.Text

theorem toNat_lt (c : Char) : c.toNat < 0x110000 := by
  have hvalid := c.valid
  simp only [UInt32.isValidChar, Nat.isValidChar] at hvalid
  have hval : c.toNat = c.val.toNat := rfl
  omega

theorem charAbove?_toNat {c : Char} {least : Nat} (h : least ≤ c.toNat) : charAbove? least c.toNat = some c := by
  have hvalid : c.toNat.isValidChar := c.valid
  rw [charAbove?, dif_pos hvalid, if_pos h]
  congr 1

/-- The first byte and the continuation bytes of a character, of which there are given numbers. -/
def encoding (v : Nat) : Nat × List Nat :=
  if v ≤ 0x7F then (v, [])
  else if v ≤ 0x7FF then (v / 64 + 0xC0, [v % 64 + 0x80])
  else if v ≤ 0xFFFF then (v / 4096 + 0xE0, [v / 64 % 64 + 0x80, v % 64 + 0x80])
  else (v / 262144 + 0xF0, [v / 4096 % 64 + 0x80, v / 64 % 64 + 0x80, v % 64 + 0x80])

theorem utf8EncodeChar_eq (c : Char) :
    String.utf8EncodeChar c = UInt8.ofNat (encoding c.toNat).1 :: (encoding c.toNat).2.map UInt8.ofNat := by
  have hlimit := toNat_lt c
  have hval : c.val.toNat = c.toNat := rfl
  simp only [String.utf8EncodeChar, encoding, hval]
  generalize c.toNat = v at hlimit
  split
  · simp
  · split
    · have h1 : v / 64 % 32 = v / 64 := by omega
      simp [h1]
    · split
      · have h1 : v / 4096 % 16 = v / 4096 := by omega
        simp [h1]
      · have h1 : v / 262144 % 8 = v / 262144 := by omega
        simp [h1]

theorem toNat_ofNat {n : Nat} (h : n < 256) : (UInt8.ofNat n).toNat = n := UInt8.toNat_ofNat_of_lt h

theorem isContinuation_ofNat {n : Nat} (h : n < 64) : isContinuation (UInt8.ofNat (n + 0x80)) = true := by
  have hn : (UInt8.ofNat (n + 0x80)).toNat = n + 0x80 := toNat_ofNat (by omega)
  simp only [isContinuation, Bool.and_eq_true, decide_eq_true_eq, UInt8.le_iff_toNat_le, UInt8.lt_iff_toNat_lt, hn]
  exact ⟨Nat.le_add_left _ _, by simp; omega⟩

theorem sub_toNat_ofNat {n : Nat} (h : n < 64) : (UInt8.ofNat (n + 0x80)).toNat - 0x80 = n := by
  rw [toNat_ofNat (by omega), Nat.add_sub_cancel]

theorem charAt?_encoding (c : Char) (rest : List UInt8) :
    charAt? (UInt8.ofNat (encoding c.toNat).1) ((encoding c.toNat).2.map UInt8.ofNat ++ rest)
      = some (c, (encoding c.toNat).2.length) := by
  have hlimit := toNat_lt c
  have hfound : ∀ {least n : Nat}, n = c.toNat → least ≤ n → charAbove? least n = some c :=
    fun hn hleast => hn ▸ charAbove?_toNat (hn ▸ hleast)
  generalize c.toNat = v at hlimit hfound
  unfold encoding
  split
  · have hfirst : (UInt8.ofNat v).toNat = v := toNat_ofNat (by omega)
    simp only [charAt?, UInt8.lt_iff_toNat_lt, hfirst, UInt8.reduceToNat]
    rw [if_pos (by omega), hfound rfl (Nat.zero_le v)]
    rfl
  · split
    · have hfirst : (UInt8.ofNat (v / 64 + 0xC0)).toNat = v / 64 + 0xC0 := toNat_ofNat (by omega)
      have hlow : v % 64 < 64 := by omega
      simp only [charAt?, UInt8.lt_iff_toNat_lt, UInt8.le_iff_toNat_le, hfirst, UInt8.reduceToNat, List.map_cons,
        List.map_nil, List.cons_append, List.nil_append, List.take_succ_cons, List.take_zero, List.length_cons,
        List.length_nil, List.all_cons, List.all_nil, isContinuation_ofNat hlow, joinBits, List.foldl_cons,
        List.foldl_nil, sub_toNat_ofNat hlow]
      rw [if_neg (by omega), if_pos (by omega), if_pos (by simp), hfound (by omega) (by omega)]
      rfl
    · split
      · have hfirst : (UInt8.ofNat (v / 4096 + 0xE0)).toNat = v / 4096 + 0xE0 :=
          toNat_ofNat (by omega)
        have hmiddle : v / 64 % 64 < 64 := by omega
        have hlow : v % 64 < 64 := by omega
        simp only [charAt?, UInt8.lt_iff_toNat_lt, UInt8.le_iff_toNat_le, hfirst, UInt8.reduceToNat, List.map_cons,
          List.map_nil, List.cons_append, List.nil_append, List.take_succ_cons, List.take_zero, List.length_cons,
          List.length_nil, List.all_cons, List.all_nil, isContinuation_ofNat hmiddle, isContinuation_ofNat hlow,
          joinBits, List.foldl_cons, List.foldl_nil, sub_toNat_ofNat hmiddle, sub_toNat_ofNat hlow]
        rw [if_neg (by omega), if_neg (by omega), if_pos (by omega), if_pos (by simp), hfound (by omega) (by omega)]
        rfl
      · have hfirst : (UInt8.ofNat (v / 262144 + 0xF0)).toNat = v / 262144 + 0xF0 :=
          toNat_ofNat (by omega)
        have hhigh : v / 4096 % 64 < 64 := by omega
        have hmiddle : v / 64 % 64 < 64 := by omega
        have hlow : v % 64 < 64 := by omega
        simp only [charAt?, UInt8.lt_iff_toNat_lt, UInt8.le_iff_toNat_le, hfirst, UInt8.reduceToNat, List.map_cons,
          List.map_nil, List.cons_append, List.nil_append, List.take_succ_cons, List.take_zero, List.length_cons,
          List.length_nil, List.all_cons, List.all_nil, isContinuation_ofNat hhigh, isContinuation_ofNat hmiddle,
          isContinuation_ofNat hlow, joinBits, List.foldl_cons, List.foldl_nil, sub_toNat_ofNat hhigh,
          sub_toNat_ofNat hmiddle, sub_toNat_ofNat hlow]
        rw [if_neg (by omega), if_neg (by omega), if_neg (by omega), if_pos (by omega), if_pos (by simp),
          hfound (by omega) (by omega)]
        rfl

/-- The bytes of a text are found to be its characters. -/
theorem symbolsAfter_utf8 (cs : List Char) (before : List Symbol) :
    symbolsAfter before (cs.flatMap String.utf8EncodeChar) = before.reverse ++ cs.map .char := by
  induction cs generalizing before with
  | nil =>
      rw [List.flatMap_nil, symbolsAfter]
      simp
  | cons c cs ih =>
      rw [List.flatMap_cons, utf8EncodeChar_eq, List.cons_append, symbolsAfter, charAt?_encoding]
      simp only [List.drop_append, List.length_map, Nat.sub_self, List.drop_zero]
      rw [List.drop_eq_nil_of_le (by simp), List.nil_append, ih]
      simp

theorem symbols_utf8 (s : String) : symbols (utf8 s) = s.toList.map .char := symbolsAfter_utf8 s.toList []

theorem ofUtf8?_utf8 (s : String) : ofUtf8? (utf8 s) = some s := by
  have hchars : ∀ cs : List Char, (cs.map Symbol.char).mapM Symbol.char? = some cs := by
    intro cs
    induction cs with
    | nil => rfl
    | cons c cs ih => simp [Symbol.char?, ih]
  rw [ofUtf8?, symbols_utf8, hchars, Option.map_some, String.ofList_toList]

/-! ## Bytes that are a text -/

theorem symbolsAfter_eq (before : List Symbol) (bytes : List UInt8) :
    symbolsAfter before bytes = before.reverse ++ symbols bytes := by
  rw [symbols]
  generalize hlength : bytes.length = length
  induction length using Nat.strongRecOn generalizing before bytes with
  | _ length ih =>
    subst hlength
    cases bytes with
    | nil => simp [symbolsAfter]
    | cons b rest =>
        rw [symbolsAfter, symbolsAfter.eq_def [] (b :: rest)]
        cases hfound : charAt? b rest with
        | none =>
            simp only [hfound]
            rw [ih rest.length (Nat.lt_succ_self _) (.stray b :: before) rest rfl,
              ih rest.length (Nat.lt_succ_self _) [.stray b] rest rfl]
            simp
        | some found =>
            have hless : (rest.drop found.2).length < (b :: rest).length := by
              rw [List.length_drop, List.length_cons]
              omega
            simp only [hfound]
            rw [ih _ hless (.char found.1 :: before) _ rfl, ih _ hless [.char found.1] _ rfl]
            simp

theorem symbols_cons (b : UInt8) (rest : List UInt8) : symbols (b :: rest) =
    match charAt? b rest with
    | some (c, count) => .char c :: symbols (rest.drop count)
    | none => .stray b :: symbols rest := by
  rw [symbols, symbolsAfter]
  cases hfound : charAt? b rest <;> simp only <;> exact symbolsAfter_eq _ _

theorem charAbove?_eq_some {least n : Nat} {c : Char} (h : charAbove? least n = some c) :
    c.toNat = n ∧ least ≤ n := by
  by_cases hvalid : n.isValidChar
  · rw [charAbove?, dif_pos hvalid] at h
    by_cases hleast : least ≤ n
    · rw [if_pos hleast] at h
      obtain rfl := Option.some.inj h
      exact ⟨rfl, hleast⟩
    · rw [if_neg hleast] at h
      cases h
  · rw [charAbove?, dif_neg hvalid] at h
    cases h

theorem toNat_of_isContinuation {b : UInt8} (h : isContinuation b = true) : 0x80 ≤ b.toNat ∧ b.toNat < 0xC0 := by
  simpa [isContinuation, UInt8.le_iff_toNat_le, UInt8.lt_iff_toNat_lt] using h

theorem ofNat_eq {n : Nat} {b : UInt8} (h : n = b.toNat) : UInt8.ofNat n = b := by
  rw [h, UInt8.ofNat_toNat]

/-- The continuation bytes that are taken for a character. -/
theorem tail_eq_some {rest : List UInt8} {first least size count : Nat} {c : Char}
    (h : (if (rest.take size).length = size ∧ (rest.take size).all isContinuation = true then
      (charAbove? least (joinBits first (rest.take size))).map (·, size) else none) = some (c, count)) :
    (rest.take count).length = size ∧ (∀ b ∈ rest.take count, 0x80 ≤ b.toNat ∧ b.toNat < 0xC0) ∧
      c.toNat = joinBits first (rest.take count) ∧ least ≤ c.toNat := by
  split at h
  · rename_i htaken
    obtain ⟨found, hfound, hpair⟩ := Option.map_eq_some_iff.1 h
    obtain ⟨rfl, rfl⟩ := Prod.mk.inj hpair
    obtain ⟨hn, hleast⟩ := charAbove?_eq_some hfound
    exact ⟨htaken.1, fun b hb => toNat_of_isContinuation (List.all_eq_true.1 htaken.2 b hb), hn, hn ▸ hleast⟩
  · cases h

/-- The bytes that are taken for a character are its bytes. -/
theorem charAt?_eq_some {b : UInt8} {rest : List UInt8} {c : Char} {count : Nat}
    (h : charAt? b rest = some (c, count)) : b :: rest.take count = String.utf8EncodeChar c := by
  have hlimit := toNat_lt c
  rw [utf8EncodeChar_eq]
  simp only [charAt?, UInt8.le_iff_toNat_le, UInt8.lt_iff_toNat_lt, UInt8.reduceToNat] at h
  split at h
  · obtain ⟨found, hfound, hpair⟩ := Option.map_eq_some_iff.1 h
    obtain ⟨rfl, rfl⟩ := Prod.mk.inj hpair
    obtain ⟨hn, -⟩ := charAbove?_eq_some hfound
    have hv : found.toNat ≤ 0x7F := by omega
    simp only [encoding, hv, ↓reduceIte, List.take_zero, List.map_nil, ofNat_eq hn]
  · split at h
    · obtain ⟨hlength, hbytes, hn, hleast⟩ := tail_eq_some h
      generalize rest.take count = taken at hlength hbytes hn
      generalize c.toNat = v at hn hleast hlimit
      obtain ⟨x, rfl⟩ := List.length_eq_one_iff.1 hlength
      have hx := hbytes x (by simp)
      have hv : v = (b.toNat - 0xC0) * 64 + (x.toNat - 0x80) := hn
      rw [encoding, if_neg (by omega), if_pos (by omega), List.map_cons, List.map_nil, ofNat_eq (b := b) (by omega),
        ofNat_eq (b := x) (by omega)]
    · split at h
      · obtain ⟨hlength, hbytes, hn, hleast⟩ := tail_eq_some h
        generalize rest.take count = taken at hlength hbytes hn
        generalize c.toNat = v at hn hleast hlimit
        obtain ⟨x, y, rfl⟩ := List.length_eq_two.1 hlength
        have hx := hbytes x (by simp)
        have hy := hbytes y (by simp)
        have hv : v = ((b.toNat - 0xE0) * 64 + (x.toNat - 0x80)) * 64 + (y.toNat - 0x80) := hn
        rw [encoding, if_neg (by omega), if_neg (by omega), if_pos (by omega), List.map_cons, List.map_cons,
          List.map_nil, ofNat_eq (b := b) (by omega), ofNat_eq (b := x) (by omega), ofNat_eq (b := y) (by omega)]
      · split at h
        · obtain ⟨hlength, hbytes, hn, hleast⟩ := tail_eq_some h
          generalize rest.take count = taken at hlength hbytes hn
          generalize c.toNat = v at hn hleast hlimit
          obtain ⟨x, y, z, rfl⟩ := List.length_eq_three.1 hlength
          have hx := hbytes x (by simp)
          have hy := hbytes y (by simp)
          have hz := hbytes z (by simp)
          have hv : v = (((b.toNat - 0xF0) * 64 + (x.toNat - 0x80)) * 64 + (y.toNat - 0x80)) * 64
              + (z.toNat - 0x80) := hn
          rw [encoding, if_neg (by omega), if_neg (by omega), if_neg (by omega), List.map_cons, List.map_cons,
            List.map_cons, List.map_nil, ofNat_eq (b := b) (by omega), ofNat_eq (b := x) (by omega),
            ofNat_eq (b := y) (by omega), ofNat_eq (b := z) (by omega)]
        · cases h

theorem flatMap_of_mapM {bytes : List UInt8} {cs : List Char} (h : (symbols bytes).mapM Symbol.char? = some cs) :
    cs.flatMap String.utf8EncodeChar = bytes := by
  generalize hlength : bytes.length = length
  induction length using Nat.strongRecOn generalizing bytes cs with
  | _ length ih =>
    subst hlength
    cases bytes with
    | nil =>
        obtain rfl : [] = cs := by simpa [symbols, symbolsAfter] using h
        rfl
    | cons b rest =>
        rw [symbols_cons] at h
        cases hfound : charAt? b rest with
        | none => simp [hfound, Symbol.char?] at h
        | some found =>
            obtain ⟨c, count⟩ := found
            simp only [hfound, List.mapM_cons, Symbol.char?, bind, Option.bind_some, pure] at h
            obtain ⟨more, hmore, hcons⟩ := Option.bind_eq_some_iff.1 h
            obtain rfl := Option.some.inj hcons
            have hless : (rest.drop count).length < (b :: rest).length := by
              rw [List.length_drop, List.length_cons]
              omega
            rw [List.flatMap_cons, ih _ hless hmore rfl, ← charAt?_eq_some hfound, List.cons_append,
              List.take_append_drop]

/-- Bytes are read as a text exactly if they are its bytes. -/
theorem ofUtf8?_iff {bytes : List UInt8} {s : String} : ofUtf8? bytes = some s ↔ bytes = utf8 s := by
  constructor
  · intro h
    obtain ⟨cs, hcs, rfl⟩ := Option.map_eq_some_iff.1 h
    rw [utf8, String.toList_ofList]
    exact (flatMap_of_mapM hcs).symm
  · rintro rfl
    exact ofUtf8?_utf8 s

/-! ## The order of bytes -/

/-- One list comes before another because of the first place in which they differ. -/
def Precedes : List Nat → List Nat → Prop
  | x :: xs, y :: ys => x < y ∨ (x = y ∧ Precedes xs ys)
  | _, _ => False

theorem precedes_encoding {v w : Nat} (h : v < w) :
    Precedes ((encoding v).1 :: (encoding v).2) ((encoding w).1 :: (encoding w).2) := by
  unfold encoding
  repeat' split
  all_goals
    simp only [Precedes, and_false, or_false]
    omega

theorem encoding_lt {v : Nat} (h : v < 0x110000) : ∀ x ∈ (encoding v).1 :: (encoding v).2, x < 256 := by
  unfold encoding
  repeat' split
  all_goals
    simp only [List.mem_cons, List.not_mem_nil, or_false]
    omega

theorem lt_of_precedes {xs ys : List Nat} (hxs : ∀ x ∈ xs, x < 256) (hys : ∀ y ∈ ys, y < 256) (h : Precedes xs ys)
    (us vs : List UInt8) : xs.map UInt8.ofNat ++ us < ys.map UInt8.ofNat ++ vs := by
  induction xs generalizing ys with
  | nil => cases h
  | cons x xs ih =>
      cases ys with
      | nil => cases h
      | cons y ys =>
          rw [List.map_cons, List.map_cons, List.cons_append, List.cons_append, List.cons_lt_cons_iff]
          rcases h with hlt | ⟨rfl, hrest⟩
          · left
            rw [UInt8.lt_iff_toNat_lt, toNat_ofNat (hxs x List.mem_cons_self), toNat_ofNat (hys y List.mem_cons_self)]
            exact hlt
          · exact .inr ⟨rfl, ih (fun z hz => hxs z (List.mem_cons_of_mem x hz))
              (fun z hz => hys z (List.mem_cons_of_mem x hz)) hrest⟩

/-- Texts are in the order of their bytes. -/
theorem utf8_lt_utf8 {s t : String} (h : s < t) : utf8 s < utf8 t := by
  have hchars : ∀ {cs ds : List Char}, cs < ds →
      cs.flatMap String.utf8EncodeChar < ds.flatMap String.utf8EncodeChar := by
    intro cs ds hlt
    induction hlt with
    | nil =>
        rw [List.flatMap_nil, List.flatMap_cons, utf8EncodeChar_eq, List.cons_append]
        exact List.nil_lt_cons _ _
    | rel hcd =>
        rename_i c cs d ds
        have hnat : c.toNat < d.toNat := UInt32.lt_iff_toNat_lt.1 (Char.lt_def.1 hcd)
        rw [List.flatMap_cons, List.flatMap_cons, utf8EncodeChar_eq, utf8EncodeChar_eq]
        exact lt_of_precedes (encoding_lt (toNat_lt c)) (encoding_lt (toNat_lt d)) (precedes_encoding hnat) _ _
    | cons _ ih =>
        rw [List.flatMap_cons, List.flatMap_cons]
        exact List.append_left_lt ih
  exact hchars h

end PushMetrics.Text
