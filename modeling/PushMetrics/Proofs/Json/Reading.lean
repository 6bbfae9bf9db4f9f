import PushMetrics.Json.Value
import PushMetrics.Json.Writer
import PushMetrics.Proofs.Text.Utf8

/-!
# JSON and back

What is written in JSON is read as the value that it was written for. A text is read as tokens in any place, if what
follows it ends a word, and its tokens are taken for one value wherever a value may stand.
-/

namespace PushMetrics.Json

open Text

/-! ## Strings -/

/-- What a written character is read as. -/
def pieceOf (c : Char) : Piece :=
  if c.toNat < 0x20 ∧ c ∉ ['\x08', '\t', '\n', '\x0c', '\r'] then .unit c.toNat else .char c

theorem toNat_of_mem_encodeChar {c d : Char} (h : d ∈ encodeChar c) : 0x20 ≤ d.toNat := by
  have hhex : ∀ n < 16, 0x20 ≤ (Nat.digitChar n).toNat := by decide
  unfold encodeChar at h
  split at h
  case h_8 =>
    split at h
    · have hhigh := hhex (c.toNat / 16) (by omega)
      have hlow := hhex (c.toNat % 16) (by omega)
      simp only [List.mem_cons, List.not_mem_nil, or_false] at h
      obtain rfl | rfl | rfl | rfl | rfl | rfl := h
      all_goals first
        | assumption
        | decide
    · obtain rfl := List.mem_singleton.1 h
      omega
  all_goals
    simp only [List.mem_cons, List.not_mem_nil, or_false] at h
    obtain rfl | rfl := h <;> decide

/-- Nothing that is written for a text is a control character. -/
theorem toNat_of_mem_encodeText {s : String} {d : Char} (h : d ∈ (encodeText s).toList) : 0x20 ≤ d.toNat := by
  simp only [encodeText, String.toList_ofList, List.mem_append, List.mem_cons, List.not_mem_nil, or_false,
    List.mem_flatMap] at h
  obtain (rfl | ⟨c, -, hd⟩) | rfl := h
  · decide
  · exact toNat_of_mem_encodeChar hd
  · decide

theorem mem_intercalate {d : Char} {parts : List String} (h : d ∈ (",".intercalate parts).toList) :
    d = ',' ∨ ∃ part ∈ parts, d ∈ part.toList := by
  induction parts with
  | nil => cases h
  | cons part parts ih =>
      cases parts with
      | nil => exact .inr ⟨part, List.mem_cons_self, by simpa using h⟩
      | cons next parts =>
          rw [String.intercalate_cons_cons, String.toList_append, String.toList_append, List.mem_append,
            List.mem_append] at h
          obtain (h | h) | h := h
          · exact .inr ⟨part, List.mem_cons_self, h⟩
          · exact .inl (List.mem_singleton.1 h)
          · exact (ih h).imp_right fun ⟨other, hother, hd⟩ => ⟨other, List.mem_cons_of_mem part hother, hd⟩

theorem toNat_of_mem_encodeObject {fields : List (String × String)} (hfields : ∀ f ∈ fields, ∀ d ∈ f.2.toList, 0x20 ≤
    d.toNat)
    {d : Char} (h : d ∈ (encodeObject fields).toList) : 0x20 ≤ d.toNat := by
  rw [encodeObject, String.toList_append, String.toList_append, List.mem_append, List.mem_append] at h
  obtain (h | h) | h := h
  · obtain rfl := List.mem_singleton.1 h
    decide
  · rcases mem_intercalate h with rfl | ⟨part, hpart, hd⟩
    · decide
    · obtain ⟨f, hf, rfl⟩ := List.mem_map.1 hpart
      rw [String.toList_append, String.toList_append, List.mem_append, List.mem_append] at hd
      obtain (hd | hd) | hd := hd
      · exact toNat_of_mem_encodeText hd
      · obtain rfl := List.mem_singleton.1 hd
        decide
      · exact hfields f hf d hd
  · obtain rfl := List.mem_singleton.1 h
    decide

theorem hexValue?_digitChar {n : Nat} (h : n < 16) : hexValue? (Nat.digitChar n) = some n := by
  revert n
  decide

theorem run_encodeChar (c : Char) (tokens : List Token) (read : List Piece) (rest : List Symbol) :
    Lexer.run ⟨tokens, .text read⟩ ((encodeChar c).map .char ++ rest)
      = Lexer.run ⟨tokens, .text (pieceOf c :: read)⟩ rest := by
  unfold encodeChar
  split
  case h_8 hquote hslash hb ht hn hf hr =>
    have hplain : c ∉ ['\x08', '\t', '\n', '\x0c', '\r'] := by
      simpa using ⟨hb, ht, hn, hf, hr⟩
    by_cases hcontrol : c.toNat < 0x20
    · have hhigh : c.toNat / 16 < 16 := by omega
      have hlow : c.toNat % 16 < 16 := by omega
      have hcode : c.toNat / 16 * 16 + c.toNat % 16 = c.toNat := Nat.div_add_mod' c.toNat 16
      have hzero : hexValue? '0' = some 0 := by decide
      simp only [hcontrol, ↓reduceIte, List.map_cons, List.map_nil, List.cons_append, List.nil_append, Lexer.run,
        Lexer.next,
        Char.reduceEq, hzero, hexValue?_digitChar hhigh, hexValue?_digitChar hlow, bind, Option.bind, Nat.reduceLeDiff,
        Nat.reduceSub, Nat.zero_mul, Nat.zero_add, hcode, pieceOf, hplain, not_false_eq_true, and_self, Nat.le_refl]
    · have hpiece : pieceOf c = .char c := if_neg fun h => hcontrol h.1
      simp only [hcontrol, ↓reduceIte, List.map_cons, List.map_nil, List.cons_append, List.nil_append, Lexer.run,
        Lexer.next, if_neg hquote, if_neg hslash, hpiece]
  all_goals rfl

theorem run_encodeChars (cs : List Char) (tokens : List Token) (read : List Piece) (rest : List Symbol) :
    Lexer.run ⟨tokens, .text read⟩ ((cs.flatMap encodeChar).map .char ++ rest)
      = Lexer.run ⟨tokens, .text ((cs.map pieceOf).reverse ++ read)⟩ rest := by
  induction cs generalizing read with
  | nil => rfl
  | cons c cs ih =>
      rw [List.flatMap_cons, List.map_append, List.append_assoc, run_encodeChar, ih]
      simp

theorem run_encodeText (s : String) (tokens : List Token) (rest : List Symbol) :
    Lexer.run ⟨tokens, .between⟩ ((encodeText s).toList.map .char ++ rest)
      = Lexer.run ⟨.text (s.toList.map pieceOf) :: tokens, .between⟩ rest := by
  have hopen : Lexer.outside tokens '"' = ⟨tokens, .text []⟩ := rfl
  have hclose : ∀ read, Lexer.next ⟨tokens, .text read⟩ (.char '"') = some ⟨.text read.reverse :: tokens, .between⟩ :=
    fun _ => rfl
  simp only [encodeText, String.toList_ofList, List.map_cons, List.map_append, List.cons_append, Lexer.run, Lexer.next,
    hopen, List.append_assoc, run_encodeChars, List.map_nil, List.nil_append]
  simp

theorem chars?_pieces (cs : List Char) : chars? (cs.map pieceOf) = some cs := by
  induction cs with
  | nil => rfl
  | cons c cs ih =>
      rw [List.map_cons, pieceOf]
      split
      · rename_i hcontrol
        have hlow : ¬(0xD800 ≤ c.toNat ∧ c.toNat < 0xDC00) := by omega
        have hhigh : ¬(0xDC00 ≤ c.toNat ∧ c.toNat < 0xE000) := by omega
        unfold chars?
        simp only [hlow, hhigh, ↓reduceIte, ih, Option.map_some, Char.ofNat_toNat]
      · simp only [chars?, ih, Option.map_some]

theorem string?_pieces (s : String) : string? (s.toList.map pieceOf) = some s := by
  rw [string?, chars?_pieces, Option.map_some, String.ofList_toList]

/-! ## Values -/

/-- A text is read as these tokens, if the character behind it ends a word. -/
def Spells (s : String) (ts : List Token) : Prop :=
  ∀ tokens c rest, Lexer.endsAtom c = true →
    Lexer.run ⟨tokens, .between⟩ (s.toList.map .char ++ .char c :: rest)
      = Lexer.run ⟨ts.reverse ++ tokens, .between⟩ (.char c :: rest)

/-- Tokens are taken for a value wherever one may stand. -/
def Builds (ts : List Token) (v : Value) : Prop :=
  ∀ frames mayClose rest, Builder.run ⟨frames, .value mayClose⟩ (ts ++ rest) = Builder.run ⟨frames, .after v⟩ rest

theorem run_colon (tokens : List Token) (rest : List Symbol) :
    Lexer.run ⟨tokens, .between⟩ (.char ':' :: rest) = Lexer.run ⟨.colon :: tokens, .between⟩ rest := rfl

theorem run_comma (tokens : List Token) (rest : List Symbol) :
    Lexer.run ⟨tokens, .between⟩ (.char ',' :: rest) = Lexer.run ⟨.comma :: tokens, .between⟩ rest := rfl

theorem run_open (tokens : List Token) (rest : List Symbol) :
    Lexer.run ⟨tokens, .between⟩ (.char '\x7b' :: rest) = Lexer.run ⟨.openObject :: tokens, .between⟩ rest := rfl

theorem run_close (tokens : List Token) (rest : List Symbol) :
    Lexer.run ⟨tokens, .between⟩ (.char '\x7d' :: rest) = Lexer.run ⟨.closeObject :: tokens, .between⟩ rest := rfl

theorem run_openArray (tokens : List Token) (rest : List Symbol) :
    Lexer.run ⟨tokens, .between⟩ (.char '[' :: rest) = Lexer.run ⟨.openArray :: tokens, .between⟩ rest := rfl

theorem run_closeArray (tokens : List Token) (rest : List Symbol) :
    Lexer.run ⟨tokens, .between⟩ (.char ']' :: rest) = Lexer.run ⟨.closeArray :: tokens, .between⟩ rest := rfl

/-- A text stands for a value. -/
def Writes (s : String) (v : Value) : Prop := ∃ ts, Spells s ts ∧ Builds ts v

/-- A text has an end of its own: it stands for a value whatever follows. -/
def Encloses (s : String) (v : Value) : Prop :=
  ∃ ts, (∀ tokens rest, Lexer.run ⟨tokens, .between⟩ (s.toList.map .char ++ rest)
    = Lexer.run ⟨ts.reverse ++ tokens, .between⟩ rest) ∧ Builds ts v

theorem Encloses.writes {s : String} {v : Value} : Encloses s v → Writes s v
  | ⟨ts, hread, hbuilds⟩ => ⟨ts, fun tokens _ _ _ => hread tokens _, hbuilds⟩

theorem Encloses.ofText? {s : String} {v : Value} (h : Encloses s v) : Value.ofText? s = some v := by
  obtain ⟨ts, hread, hbuilds⟩ := h
  have hrun := hread [] []
  have hbuild := hbuilds [] false []
  rw [List.append_nil] at hrun hbuild
  simp only [Value.ofText?, Value.ofSymbols?, tokens?, hrun, Lexer.run, Option.bind_some, Lexer.finish, List.append_nil,
    List.reverse_reverse, Value.ofTokens?, hbuild, Builder.run, Builder.finish]

theorem ofBytes?_utf8 (s : String) : Value.ofBytes? (utf8 s) = Value.ofText? s := by
  rw [Value.ofBytes?, symbols_utf8, Value.ofText?]

theorem encloses_encodeText (s : String) : Encloses (encodeText s) (.text (s.toList.map pieceOf)) := by
  refine ⟨[.text (s.toList.map pieceOf)], fun tokens rest => run_encodeText s tokens rest, ?_⟩
  intro frames mayClose rest
  cases mayClose <;> rfl

/-! ## Words -/

/-- Characters that do not end a word are read as one word. -/
theorem run_atom {cs : List Char} (hcs : ∀ c ∈ cs, Lexer.endsAtom c = false) (tokens : List Token) (read : List Char)
    (rest : List Symbol) :
    Lexer.run ⟨tokens, .atom read⟩ (cs.map .char ++ rest) = Lexer.run ⟨tokens, .atom (cs.reverse ++ read)⟩ rest := by
  induction cs generalizing read with
  | nil => rfl
  | cons c cs ih =>
      have hc := hcs c List.mem_cons_self
      simp only [List.map_cons, List.cons_append, Lexer.run, Lexer.next, hc, Bool.false_eq_true, ↓reduceIte]
      rw [ih fun d hd => hcs d (List.mem_cons_of_mem c hd)]
      simp

theorem outside_of_not_endsAtom {c : Char} (h : Lexer.endsAtom c = false) (tokens : List Token) :
    Lexer.outside tokens c = ⟨tokens, .atom [c]⟩ := by
  simp only [Lexer.endsAtom, Bool.or_eq_false_iff, beq_eq_false_iff_ne, Option.isSome_eq_false_iff,
    Option.isNone_iff_eq_none] at h
  obtain ⟨⟨hspace, hquote⟩, hpunctuation⟩ := h
  simp only [Lexer.outside, hspace, Bool.false_eq_true, ↓reduceIte, hquote, hpunctuation]

theorem spells_atom {s : String} {t : Token} (hne : s.toList ≠ []) (hs : ∀ c ∈ s.toList, Lexer.endsAtom c = false)
    (ht : Token.ofAtom? s.toList = some t) : Spells s [t] := by
  intro tokens c rest hc
  generalize s.toList = cs at hne hs ht
  cases cs with
  | nil => exact absurd rfl hne
  | cons d cs =>
      have hread := run_atom (fun e he => hs e (List.mem_cons_of_mem d he)) tokens [d] (.char c :: rest)
      simp only [List.map_cons, List.cons_append, Lexer.run, Lexer.next,
        outside_of_not_endsAtom (hs d List.mem_cons_self)] at hread ⊢
      rw [hread]
      have hword : (cs.reverse ++ [d]).reverse = d :: cs := by simp
      simp only [hc, ↓reduceIte, hword, ht, Option.map_some]
      rfl

/-! ## Objects and arrays -/

theorem Spells.field (name : String) {s : String} {ts : List Token} (h : Spells s ts) :
    Spells (encodeText name ++ ":" ++ s) (.text (name.toList.map pieceOf) :: .colon :: ts) := by
  intro tokens c rest hc
  have hcolon : (":" : String).toList.map Symbol.char = [.char ':'] := rfl
  rw [String.toList_append, String.toList_append, List.map_append, List.map_append, List.append_assoc,
    List.append_assoc, run_encodeText, hcolon, List.singleton_append, run_colon, h _ c rest hc]
  simp

theorem Spells.comma {s r : String} {ts us : List Token} (hs : Spells s ts) (hr : Spells r us) :
    Spells (s ++ "," ++ r) (ts ++ .comma :: us) := by
  intro tokens c rest hc
  have hcomma : ("," : String).toList.map Symbol.char = [.char ','] := rfl
  rw [String.toList_append, String.toList_append, List.map_append, List.map_append, List.append_assoc,
    List.append_assoc, hcomma, List.singleton_append, hs _ ',' _ rfl, run_comma, hr _ c rest hc]
  simp

/-- The written fields of an object are read as its fields. -/
theorem members {fields : List (String × String × Value)} (hne : fields ≠ [])
    (h : ∀ f ∈ fields, Writes f.2.1 f.2.2) :
    ∃ ts, Spells (",".intercalate (fields.map fun f => encodeText f.1 ++ ":" ++ f.2.1)) ts ∧
      ∀ frames done mayClose rest, Builder.run ⟨frames, .key done mayClose⟩ (ts ++ .closeObject :: rest)
        = Builder.run ⟨frames, .after (.object (done.reverse ++ fields.map fun f => (f.1.toList.map pieceOf, f.2.2)))⟩
            rest := by
  induction fields with
  | nil => exact absurd rfl hne
  | cons f fields ih =>
      obtain ⟨tv, hspells, hbuilds⟩ := h f List.mem_cons_self
      have hfield := hspells.field f.1
      cases fields with
      | nil =>
          refine ⟨_, by simpa using hfield, fun frames done mayClose rest => ?_⟩
          cases mayClose <;> simp [Builder.run, Builder.next, hbuilds _ _ _]
      | cons g fields =>
          obtain ⟨us, hrest, hobject⟩ := ih (by simp) fun g hg => h g (List.mem_cons_of_mem f hg)
          refine ⟨_, by simpa using hfield.comma hrest, fun frames done mayClose rest => ?_⟩
          cases mayClose <;> simp [Builder.run, Builder.next, hbuilds _ _ _, hobject]

/-- The value of an object that is written with these fields. -/
def Value.ofFields (fields : List (String × String × Value)) : Value :=
  .object (fields.map fun f => (f.1.toList.map pieceOf, f.2.2))

theorem encloses_encodeObject {fields : List (String × String × Value)} (hne : fields ≠ [])
    (h : ∀ f ∈ fields, Writes f.2.1 f.2.2) :
    Encloses (encodeObject (fields.map fun f => (f.1, f.2.1))) (.ofFields fields) := by
  obtain ⟨ts, hspells, hbuilds⟩ := members hne h
  refine ⟨.openObject :: ts ++ [.closeObject], fun tokens rest => ?_, fun frames mayClose rest => ?_⟩
  · have hopen : ("\x7b" : String).toList.map Symbol.char = [.char '\x7b'] := rfl
    have hclose : ("\x7d" : String).toList.map Symbol.char = [.char '\x7d'] := rfl
    have hfields : (fields.map fun f => (f.1, f.2.1)).map (fun f => encodeText f.1 ++ ":" ++ f.2)
        = fields.map fun f => encodeText f.1 ++ ":" ++ f.2.1 := by simp
    rw [encodeObject, hfields, String.toList_append, String.toList_append, List.map_append, List.map_append, hopen,
      hclose, List.append_assoc, List.append_assoc, List.singleton_append, List.singleton_append, run_open,
      hspells _ '\x7d' rest rfl, run_close]
    simp
  · cases mayClose <;> simp [Builder.run, Builder.next, hbuilds, Value.ofFields]

/-- What is written as an object of fields is read as the object of what the fields stand for. -/
theorem ofText?_encodeObject {fields : List (String × String × Value)} (hne : fields ≠ [])
    (h : ∀ f ∈ fields, Writes f.2.1 f.2.2) :
    Value.ofText? (encodeObject (fields.map fun f => (f.1, f.2.1))) = some (.ofFields fields) :=
  (encloses_encodeObject hne h).ofText?

/-- The written items of an array are read as its items. -/
theorem elements {items : List (String × Value)} (hne : items ≠ []) (h : ∀ i ∈ items, Writes i.1 i.2) :
    ∃ ts, Spells (",".intercalate (items.map (·.1))) ts ∧
      ∀ frames done mayClose rest, Builder.run ⟨.array done :: frames, .value mayClose⟩ (ts ++ .closeArray :: rest)
        = Builder.run ⟨frames, .after (.array (done.reverse ++ items.map (·.2)))⟩ rest := by
  induction items with
  | nil => exact absurd rfl hne
  | cons i items ih =>
      obtain ⟨tv, hspells, hbuilds⟩ := h i List.mem_cons_self
      cases items with
      | nil =>
          refine ⟨tv, by simpa using hspells, fun frames done mayClose rest => ?_⟩
          simp [hbuilds _ _ _, Builder.run, Builder.next]
      | cons j items =>
          obtain ⟨us, hrest, harray⟩ := ih (by simp) fun j hj => h j (List.mem_cons_of_mem i hj)
          refine ⟨tv ++ .comma :: us, by simpa using hspells.comma hrest, fun frames done mayClose rest => ?_⟩
          simp [hbuilds _ _ _, Builder.run, Builder.next, harray]

theorem encloses_encodeArray {items : List (String × Value)} (h : ∀ i ∈ items, Writes i.1 i.2) :
    Encloses (encodeArray (items.map (·.1))) (.array (items.map (·.2))) := by
  have hopen : ("[" : String).toList.map Symbol.char = [.char '['] := rfl
  have hclose : ("]" : String).toList.map Symbol.char = [.char ']'] := rfl
  by_cases hne : items = []
  · subst hne
    refine ⟨[.openArray, .closeArray], fun tokens rest => rfl, fun frames mayClose rest => ?_⟩
    cases mayClose <;> rfl
  · obtain ⟨ts, hspells, hbuilds⟩ := elements hne h
    refine ⟨.openArray :: ts ++ [.closeArray], fun tokens rest => ?_, fun frames mayClose rest => ?_⟩
    · rw [encodeArray, String.toList_append, String.toList_append, List.map_append, List.map_append, hopen, hclose,
        List.append_assoc, List.append_assoc, List.singleton_append, List.singleton_append, run_openArray,
        hspells _ ']' rest rfl, run_closeArray]
      simp
    · cases mayClose <;> simp [Builder.run, Builder.next, hbuilds]

/-- The named fields of a written object. -/
theorem fields?_ofFields (fields : List (String × String × Value)) (names : List String) (least : Nat) :
    (Value.ofFields fields).fields? names least = names.mapM fun name =>
      match (fields.map fun f => (f.1, f.2.2)).filter (·.1 == name) with
      | [] => some none
      | [f] => some (some f.2)
      | _ => none := by
  have hnamed : ∀ fs : List (String × String × Value),
      (fs.map fun f => (f.1.toList.map pieceOf, f.2.2)).mapM (fun f => (string? f.1).map fun name => (name, f.2))
        = some (fs.map fun f => (f.1, f.2.2)) := by
    intro fs
    induction fs with
    | nil => rfl
    | cons f fs ih => simp [string?_pieces, ih]
  rw [Value.ofFields, Value.fields?, hnamed]
  rfl

end PushMetrics.Json
