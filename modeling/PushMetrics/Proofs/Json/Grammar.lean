import PushMetrics.Proofs.Json.Reading

/-!
# The grammar of JSON

Which texts are documents, and of which values, said without a reader: a text is cut into tokens, and a value consists
of tokens. The reader finds a value in a text exactly if the text is one of the value.
-/

namespace PushMetrics.Json

open Text

/-! ## Values -/

mutual

/-- The tokens of which a value consists. -/
def Value.tokens : Value → List Token
  | .null => [.null]
  | .bool b => [.bool b]
  | .number n => [.number n]
  | .text pieces => [.text pieces]
  | .array items => .openArray :: [.comma].intercalate (Value.ofItems items) ++ [.closeArray]
  | .object fields => .openObject :: [.comma].intercalate (Value.ofMembers fields) ++ [.closeObject]

def Value.ofItems : List Value → List (List Token)
  | [] => []
  | v :: rest => v.tokens :: Value.ofItems rest

def Value.ofMembers : List (List Piece × Value) → List (List Token)
  | [] => []
  | (key, v) :: rest => (.text key :: .colon :: v.tokens) :: Value.ofMembers rest

end

/-- The tokens of a field. -/
def member (field : List Piece × Value) : List Token := .text field.1 :: .colon :: field.2.tokens

theorem Value.ofItems_eq (items : List Value) : ofItems items = items.map tokens := by
  induction items with
  | nil => rfl
  | cons v rest ih => rw [ofItems, ih, List.map_cons]

theorem Value.ofMembers_eq (fields : List (List Piece × Value)) : ofMembers fields = fields.map member := by
  induction fields with
  | nil => rfl
  | cons f rest ih =>
      obtain ⟨key, v⟩ := f
      rw [ofMembers, ih, List.map_cons, member]

theorem intercalate_cons_cons {α : Type} (mark part next : List α) (parts : List (List α)) :
    mark.intercalate (part :: next :: parts) = part ++ (mark ++ mark.intercalate (next :: parts)) := by
  simp [List.intercalate]

theorem intercalate_concat {α : Type} (mark : List α) (parts : List (List α)) (last : List α) :
    mark.intercalate (parts ++ [last]) = parts.flatMap (· ++ mark) ++ last := by
  induction parts with
  | nil => simp [List.intercalate]
  | cons part parts ih =>
      rw [List.flatMap_cons, List.append_assoc, List.append_assoc, ← ih]
      cases parts with
      | nil => exact intercalate_cons_cons mark part last []
      | cons next parts => exact intercalate_cons_cons mark part next (parts ++ [last])

/-! ## From a value to its tokens and back -/

/-- Items are taken for those of the innermost open array. -/
theorem run_items {items : List Value} (hne : items ≠ []) (h : ∀ v ∈ items, Builds v.tokens v) (frames : List Frame)
    (done : List Value) (mayClose : Bool) (rest : List Token) :
    Builder.run ⟨.array done :: frames, .value mayClose⟩
        ([.comma].intercalate (items.map Value.tokens) ++ .closeArray :: rest)
      = Builder.run ⟨frames, .after (.array (done.reverse ++ items))⟩ rest := by
  induction items generalizing done mayClose with
  | nil => exact absurd rfl hne
  | cons v items ih =>
      have hv := h v List.mem_cons_self
      cases items with
      | nil => simp [List.intercalate, hv _ _ _, Builder.run, Builder.next]
      | cons w items =>
          have hrest := ih (by simp) (fun u hu => h u (List.mem_cons_of_mem v hu)) (v :: done) false
          rw [List.map_cons, List.map_cons, intercalate_cons_cons, List.append_assoc, hv]
          simpa [Builder.run, Builder.next] using hrest

theorem run_members {fields : List (List Piece × Value)} (hne : fields ≠ [])
    (h : ∀ f ∈ fields, Builds f.2.tokens f.2) (frames : List Frame) (done : List (List Piece × Value))
    (mayClose : Bool) (rest : List Token) :
    Builder.run ⟨frames, .key done mayClose⟩ ([.comma].intercalate (fields.map member) ++ .closeObject :: rest)
      = Builder.run ⟨frames, .after (.object (done.reverse ++ fields))⟩ rest := by
  induction fields generalizing done mayClose with
  | nil => exact absurd rfl hne
  | cons f fields ih =>
      have hf := h f List.mem_cons_self
      have hkey (more : List Token) : Builder.run ⟨frames, .key done mayClose⟩ (member f ++ more)
          = Builder.run ⟨.object done f.1 :: frames, .after f.2⟩ more := by
        rw [← hf (.object done f.1 :: frames) false more]
        cases mayClose <;> rfl
      cases fields with
      | nil => simp [List.intercalate, hkey, Builder.run, Builder.next]
      | cons g fields =>
          have hrest := ih (by simp) (fun u hu => h u (List.mem_cons_of_mem f hu)) (f :: done) false
          rw [List.map_cons, List.map_cons, intercalate_cons_cons, List.append_assoc, hkey]
          simpa [Builder.run, Builder.next] using hrest

mutual

/-- The tokens of a value are taken for it. -/
theorem builds_tokens : (v : Value) → Builds v.tokens v
  | .null => fun _ mayClose _ => by cases mayClose <;> rfl
  | .bool _ => fun _ mayClose _ => by cases mayClose <;> rfl
  | .number _ => fun _ mayClose _ => by cases mayClose <;> rfl
  | .text _ => fun _ mayClose _ => by cases mayClose <;> rfl
  | .array items => fun frames mayClose rest => by
      have hopen (more : List Token) : Builder.run ⟨frames, .value mayClose⟩ (.openArray :: more)
          = Builder.run ⟨.array [] :: frames, .value true⟩ more := by cases mayClose <;> rfl
      rw [Value.tokens, Value.ofItems_eq, List.append_assoc, List.cons_append, hopen]
      cases items with
      | nil => rfl
      | cons v items => exact run_items (by simp) (builds_items (v :: items)) frames [] true rest
  | .object fields => fun frames mayClose rest => by
      have hopen (more : List Token) : Builder.run ⟨frames, .value mayClose⟩ (.openObject :: more)
          = Builder.run ⟨frames, .key [] true⟩ more := by cases mayClose <;> rfl
      rw [Value.tokens, Value.ofMembers_eq, List.append_assoc, List.cons_append, hopen]
      cases fields with
      | nil => rfl
      | cons f fields => exact run_members (by simp) (builds_members (f :: fields)) frames [] true rest

theorem builds_items : (items : List Value) → ∀ v ∈ items, Builds v.tokens v
  | [] => fun _ hv => nomatch hv
  | v :: rest => List.forall_mem_cons.2 ⟨builds_tokens v, builds_items rest⟩

theorem builds_members : (fields : List (List Piece × Value)) → ∀ f ∈ fields, Builds f.2.tokens f.2
  | [] => fun _ hf => nomatch hf
  | (_, v) :: rest => List.forall_mem_cons.2 ⟨builds_tokens v, builds_members rest⟩

end

/-- The tokens of members with a comma after each. -/
def listed {α : Type} (tokens : α → List Token) (members : List α) : List Token :=
  members.flatMap fun a => tokens a ++ [.comma]

@[simp] theorem listed_nil {α : Type} (tokens : α → List Token) : listed tokens [] = [] := rfl

@[simp] theorem listed_concat {α : Type} (tokens : α → List Token) (members : List α) (a : α) :
    listed tokens (members ++ [a]) = listed tokens members ++ tokens a ++ [.comma] := by
  simp [listed]

/-- What has been read of a container when its next member is still to come. -/
def Frame.spelled : Frame → List Token
  | .array items => .openArray :: listed Value.tokens items.reverse
  | .object fields name => .openObject :: listed member fields.reverse ++ [.text name, .colon]

def Phase.spelled : Phase → List Token
  | .value _ => []
  | .key fields _ => .openObject :: listed member fields.reverse
  | .colon fields name => .openObject :: listed member fields.reverse ++ [.text name]
  | .after v => v.tokens

/-- The tokens that a builder has read. -/
def Builder.spelled (b : Builder) : List Token := b.frames.reverse.flatMap Frame.spelled ++ b.phase.spelled

/-- Only a container that has nothing in it may be closed at once. -/
def Builder.MayClose (b : Builder) : Prop :=
  match b.phase with
  | .value true => ∃ frames, b.frames = .array [] :: frames
  | .key fields true => fields = []
  | _ => True

theorem tokens_array (v : Value) (items : List Value) :
    (Value.array (items.reverse ++ [v])).tokens =
      .openArray :: listed Value.tokens items.reverse ++ v.tokens ++ [.closeArray] := by
  rw [Value.tokens, Value.ofItems_eq, List.map_append, List.map_singleton, intercalate_concat, List.flatMap_map]
  simp [listed]

theorem tokens_object (f : List Piece × Value) (fields : List (List Piece × Value)) :
    (Value.object (fields.reverse ++ [f])).tokens =
      .openObject :: listed member fields.reverse ++ member f ++ [.closeObject] := by
  rw [Value.tokens, Value.ofMembers_eq, List.map_append, List.map_singleton, intercalate_concat, List.flatMap_map]
  simp [listed]

namespace Builder

/-- One step: what a builder has read grows by the token. -/
theorem next_spelled {b b' : Builder} {t : Token} (h : b.next t = some b') (hb : b.MayClose) :
    b'.spelled = b.spelled ++ [t] ∧ b'.MayClose := by
  obtain ⟨frames, phase⟩ := b
  unfold next at h
  split at h
  -- containers that are closed with nothing in them
  case h_7 hphase =>
    obtain rfl : phase = _ := hphase
    obtain ⟨rest, rfl⟩ : ∃ rest, frames = .array [] :: rest := hb
    obtain rfl := Option.some.inj h
    simp [spelled, Frame.spelled, Phase.spelled, Value.tokens, Value.ofItems, List.intercalate, MayClose]
  case h_8 fields hphase =>
    obtain rfl : phase = _ := hphase
    obtain rfl : fields = [] := hb
    obtain rfl := Option.some.inj h
    simp [spelled, Phase.spelled, Value.tokens, Value.ofMembers, List.intercalate, MayClose]
  -- a comma or a closing mark after a value: what stands on top of the frames decides
  case h_11 v hphase =>
    obtain rfl : phase = _ := hphase
    cases frames with
    | nil => cases h
    | cons f frames =>
        cases f with
        | array items =>
            obtain rfl := Option.some.inj h
            simp [spelled, Frame.spelled, Phase.spelled, MayClose]
        | object fields name =>
            obtain rfl := Option.some.inj h
            simp [spelled, Frame.spelled, Phase.spelled, MayClose, member]
  case h_12 v hphase =>
    obtain rfl : phase = _ := hphase
    split at h
    · rename_i items rest hframes
      obtain rfl : frames = _ := hframes
      obtain rfl := Option.some.inj h
      simp [spelled, Frame.spelled, Phase.spelled, tokens_array, MayClose]
    · cases h
  case h_13 v hphase =>
    obtain rfl : phase = _ := hphase
    split at h
    · rename_i fields name rest hframes
      obtain rfl : frames = _ := hframes
      obtain rfl := Option.some.inj h
      simp [spelled, Frame.spelled, Phase.spelled, tokens_object, MayClose, member]
    · cases h
  case h_14 => cases h
  all_goals
    rename_i hphase
    obtain rfl : phase = _ := hphase
    obtain rfl := Option.some.inj h
    simp [spelled, Frame.spelled, Phase.spelled, Value.tokens, MayClose]

theorem run_spelled {b b' : Builder} {ts : List Token} (h : b.run ts = some b') (hb : b.MayClose) :
    b'.spelled = b.spelled ++ ts := by
  induction ts generalizing b with
  | nil =>
      obtain rfl := Option.some.inj h
      simp
  | cons t ts ih =>
      rw [run] at h
      split at h
      · cases h
      · rename_i next hnext
        obtain ⟨hspelled, hmayClose⟩ := next_spelled hnext hb
        rw [ih h hmayClose, hspelled, List.append_assoc, List.singleton_append]

end Builder

/-- Tokens are read as a value exactly if it consists of them. -/
theorem ofTokens?_iff {ts : List Token} {v : Value} : Value.ofTokens? ts = some v ↔ ts = v.tokens := by
  constructor
  · intro h
    obtain ⟨b, hrun, hfinish⟩ := Option.bind_eq_some_iff.1 h
    have hspelled := Builder.run_spelled hrun trivial
    unfold Builder.finish at hfinish
    split at hfinish
    · rename_i hframes hphase
      obtain rfl := Option.some.inj hfinish
      simpa [Builder.spelled, hframes, hphase, Phase.spelled] using hspelled.symm
    · cases hfinish
  · rintro rfl
    have hbuilds := builds_tokens v [] false []
    rw [List.append_nil] at hbuilds
    rw [Value.ofTokens?, hbuilds]
    rfl

/-! ## Tokens -/

/-- What stands between quotes, up to the one at the end: the pieces that it gives, and what follows. -/
inductive Content : List Char → List Piece → List Char → Prop where
  | close (rest : List Char) : Content ('"' :: rest) [] rest
  | plain {c : Char} {cs rest : List Char} {ps : List Piece} (hquote : c ≠ '"') (hslash : c ≠ '\\')
      (hcontrol : 0x20 ≤ c.toNat) (h : Content cs ps rest) : Content (c :: cs) (.char c :: ps) rest
  | escaped {c d : Char} {cs rest : List Char} {ps : List Piece} (hc : escaped? c = some d)
      (h : Content cs ps rest) : Content ('\\' :: c :: cs) (.char d :: ps) rest
  | unit {c₃ c₂ c₁ c₀ : Char} {d₃ d₂ d₁ d₀ : Nat} {cs rest : List Char} {ps : List Piece}
      (h₃ : hexValue? c₃ = some d₃) (h₂ : hexValue? c₂ = some d₂) (h₁ : hexValue? c₁ = some d₁)
      (h₀ : hexValue? c₀ = some d₀) (h : Content cs ps rest) :
      Content ('\\' :: 'u' :: c₃ :: c₂ :: c₁ :: c₀ :: cs) (.unit (((d₃ * 16 + d₂) * 16 + d₁) * 16 + d₀) :: ps) rest

/-- A text is cut into tokens. A word reaches as far as it can. -/
inductive Lexes : List Char → List Token → Prop where
  | done : Lexes [] []
  | space {c : Char} {cs : List Char} {ts : List Token} (hc : Lexer.isSpace c = true) (h : Lexes cs ts) :
      Lexes (c :: cs) ts
  | punctuation {c : Char} {t : Token} {cs : List Char} {ts : List Token} (hc : Lexer.punctuation? c = some t)
      (h : Lexes cs ts) : Lexes (c :: cs) (t :: ts)
  | text {cs rest : List Char} {ps : List Piece} {ts : List Token} (hcontent : Content cs ps rest)
      (h : Lexes rest ts) : Lexes ('"' :: cs) (.text ps :: ts)
  | word {cs rest : List Char} {t : Token} {ts : List Token} (hne : cs ≠ [])
      (hinside : ∀ c ∈ cs, Lexer.endsAtom c = false) (hend : ∀ c ∈ rest.head?, Lexer.endsAtom c = true)
      (ht : Token.ofAtom? cs = some t) (h : Lexes rest ts) : Lexes (cs ++ rest) (t :: ts)

namespace Lexer

/-- What a lexer makes of the rest of a text. -/
def reads (l : Lexer) (cs : List Char) : Option (List Token) := (l.run (cs.map .char)).bind (·.finish)

theorem reads_cons (l : Lexer) (c : Char) (cs : List Char) :
    l.reads (c :: cs) = (l.next (.char c)).bind fun l => l.reads cs := by
  simp only [reads, List.map_cons, run]
  cases l.next (.char c) <;> rfl

variable {tokens ts : List Token} {read : List Piece} {cs rest : List Char}

/-! ### Strings -/

theorem reads_text (c : Char) (cs : List Char) : reads ⟨tokens, .text read⟩ (c :: cs) =
    if c = '"' then reads ⟨.text read.reverse :: tokens, .between⟩ cs
    else if c = '\\' then reads ⟨tokens, .escape read⟩ cs
    else if c.toNat < 0x20 then none
    else reads ⟨tokens, .text (.char c :: read)⟩ cs := by
  rw [reads_cons]
  simp only [next]
  repeat' split
  all_goals rfl

theorem reads_escape (c : Char) (cs : List Char) : reads ⟨tokens, .escape read⟩ (c :: cs) =
    if c = 'u' then reads ⟨tokens, .unit read 0 4⟩ cs
    else (escaped? c).bind fun d => reads ⟨tokens, .text (.char d :: read)⟩ cs := by
  rw [reads_cons]
  simp only [next]
  split
  · rfl
  · cases escaped? c <;> rfl

theorem reads_unit (code left : Nat) (c : Char) (cs : List Char) :
    reads ⟨tokens, .unit read code left⟩ (c :: cs) = (hexValue? c).bind fun d => reads ⟨tokens,
      if left ≤ 1 then .text (.unit (code * 16 + d) :: read) else .unit read (code * 16 + d) (left - 1)⟩ cs := by
  rw [reads_cons]
  simp only [next]
  cases hexValue? c <;> rfl

theorem reads_of_content {ps : List Piece} (h : Content cs ps rest) :
    reads ⟨tokens, .text read⟩ cs = reads ⟨.text (read.reverse ++ ps) :: tokens, .between⟩ rest := by
  induction h generalizing read with
  | close rest => simp [reads_text]
  | plain hquote hslash hcontrol _ ih => simp [reads_text, hquote, hslash, Nat.not_lt.2 hcontrol, ih]
  | @escaped c d cs rest ps hc _ ih =>
      have hplain : c ≠ 'u' := by
        rintro rfl
        cases hc
      simp [reads_text, reads_escape, hplain, hc, ih]
  | unit h₃ h₂ h₁ h₀ _ ih => simp [reads_text, reads_escape, reads_unit, h₃, h₂, h₁, h₀, ih]

/-- A digit of a code unit has been read. -/
theorem digit_of_reads {code left : Nat} (h : reads ⟨tokens, .unit read code left⟩ cs = some ts) :
    ∃ c d rest, cs = c :: rest ∧ hexValue? c = some d ∧ reads ⟨tokens,
      if left ≤ 1 then .text (.unit (code * 16 + d) :: read) else .unit read (code * 16 + d) (left - 1)⟩ rest
        = some ts := by
  cases cs with
  | nil => cases h
  | cons c rest =>
      rw [reads_unit] at h
      obtain ⟨d, hd, hrest⟩ := Option.bind_eq_some_iff.1 h
      exact ⟨c, d, rest, rfl, hd, hrest⟩

theorem content_of_reads (h : reads ⟨tokens, .text read⟩ cs = some ts) :
    ∃ ps rest, Content cs ps rest ∧ rest.length < cs.length := by
  -- on the length, since an escape takes several characters
  generalize hlength : cs.length = length
  induction length using Nat.strongRecOn generalizing read cs with
  | _ length ih =>
    subst hlength
    cases cs with
    | nil => cases h
    | cons c cs =>
        rw [reads_text] at h
        split at h
        · rename_i hquote
          subst hquote
          exact ⟨[], cs, .close cs, Nat.lt_succ_self _⟩
        · rename_i hquote
          split at h
          · rename_i hslash
            subst hslash
            cases cs with
            | nil => cases h
            | cons c cs =>
                rw [reads_escape] at h
                split at h
                · rename_i hunit
                  subst hunit
                  obtain ⟨c₃, d₃, cs, rfl, h₃, h⟩ := digit_of_reads h
                  obtain ⟨c₂, d₂, cs, rfl, h₂, h⟩ := digit_of_reads h
                  obtain ⟨c₁, d₁, cs, rfl, h₁, h⟩ := digit_of_reads h
                  obtain ⟨c₀, d₀, cs, rfl, h₀, h⟩ := digit_of_reads h
                  obtain ⟨ps, rest, hcontent, hless⟩ := ih cs.length (by simp only [List.length_cons]; omega) h rfl
                  exact ⟨_, rest, .unit h₃ h₂ h₁ h₀ hcontent, by simp only [List.length_cons]; omega⟩
                · obtain ⟨d, hd, h⟩ := Option.bind_eq_some_iff.1 h
                  obtain ⟨ps, rest, hcontent, hless⟩ := ih cs.length (by simp only [List.length_cons]; omega) h rfl
                  exact ⟨_, rest, .escaped hd hcontent, by simp only [List.length_cons]; omega⟩
          · rename_i hslash
            split at h
            · cases h
            · rename_i hcontrol
              obtain ⟨ps, rest, hcontent, hless⟩ := ih cs.length (Nat.lt_succ_self _) h rfl
              exact ⟨_, rest, .plain hquote hslash (Nat.not_lt.1 hcontrol) hcontent, Nat.lt_succ_of_lt hless⟩

/-! ### Words -/

theorem reads_between (c : Char) (cs : List Char) : reads ⟨tokens, .between⟩ (c :: cs) = (outside tokens c).reads cs :=
  reads_cons _ c cs

theorem reads_atom (word : List Char) (c : Char) (cs : List Char) : reads ⟨tokens, .atom word⟩ (c :: cs) =
    if endsAtom c then (Token.ofAtom? word.reverse).bind fun t => reads ⟨t :: tokens, .between⟩ (c :: cs)
    else reads ⟨tokens, .atom (c :: word)⟩ cs := by
  rw [reads_cons]
  simp only [next, reads_between]
  split
  · cases Token.ofAtom? word.reverse <;> rfl
  · rfl

theorem reads_of_word {before word : List Char} {t : Token} (hinside : ∀ c ∈ word, endsAtom c = false)
    (hend : ∀ c ∈ rest.head?, endsAtom c = true) (ht : Token.ofAtom? (before.reverse ++ word) = some t) :
    reads ⟨tokens, .atom before⟩ (word ++ rest) = reads ⟨t :: tokens, .between⟩ rest := by
  induction word generalizing before with
  | nil =>
      rw [List.append_nil] at ht
      cases rest with
      | nil => simp [reads, run, finish, ht]
      | cons c rest => simp [reads_atom, hend c rfl, ht]
  | cons c word ih =>
      have hc := hinside c List.mem_cons_self
      rw [List.cons_append, reads_atom, if_neg (by simp [hc])]
      exact ih (fun d hd => hinside d (List.mem_cons_of_mem c hd)) (by simpa using ht)

theorem word_of_reads {before : List Char} (h : reads ⟨tokens, .atom before⟩ cs = some ts) :
    ∃ word rest t, cs = word ++ rest ∧ (∀ c ∈ word, endsAtom c = false) ∧ (∀ c ∈ rest.head?, endsAtom c = true) ∧
      Token.ofAtom? (before.reverse ++ word) = some t := by
  induction cs generalizing before with
  | nil =>
      obtain ⟨t, ht, -⟩ := Option.map_eq_some_iff.1 h
      exact ⟨[], [], t, rfl, by simp, by simp, by simpa using ht⟩
  | cons c cs ih =>
      rw [reads_atom] at h
      split at h
      · rename_i hc
        obtain ⟨t, ht, -⟩ := Option.bind_eq_some_iff.1 h
        exact ⟨[], c :: cs, t, rfl, by simp, by simpa using hc, by simpa using ht⟩
      · rename_i hc
        obtain ⟨word, rest, t, rfl, hinside, hend, ht⟩ := ih h
        exact ⟨c :: word, rest, t, rfl, List.forall_mem_cons.2 ⟨by simpa using hc, hinside⟩, hend, by simpa using ht⟩

/-! ### Whole texts -/

theorem outside_of_punctuation? {c : Char} {t : Token} (h : punctuation? c = some t) (tokens : List Token) :
    outside tokens c = ⟨t :: tokens, .between⟩ := by
  unfold punctuation? at h
  split at h
  case h_7 => cases h
  all_goals
    obtain rfl := Option.some.inj h
    rfl

theorem reads_of_lexes {us : List Token} (h : Lexes cs us) :
    reads ⟨tokens, .between⟩ cs = some (tokens.reverse ++ us) := by
  induction h generalizing tokens with
  | done => simp [reads, run, finish]
  | space hc _ ih =>
      rw [reads_between, outside, if_pos hc]
      exact ih
  | punctuation hc _ ih =>
      rw [reads_between, outside_of_punctuation? hc, ih]
      simp
  | text hcontent _ ih =>
      have hopen : outside tokens '"' = ⟨tokens, .text []⟩ := rfl
      rw [reads_between, hopen, reads_of_content hcontent, ih]
      simp
  | @word word rest t ts hne hinside hend ht _ ih =>
      cases word with
      | nil => exact absurd rfl hne
      | cons c word =>
          rw [List.cons_append, reads_between, outside_of_not_endsAtom (hinside c List.mem_cons_self),
            reads_of_word (fun d hd => hinside d (List.mem_cons_of_mem c hd)) hend (by simpa using ht), ih]
          simp

theorem lexes_of_reads (h : reads ⟨tokens, .between⟩ cs = some ts) : ∃ us, Lexes cs us := by
  -- on the length, since strings and words take several characters
  generalize hlength : cs.length = length
  induction length using Nat.strongRecOn generalizing tokens cs with
  | _ length ih =>
    subst hlength
    cases cs with
    | nil => exact ⟨[], .done⟩
    | cons c cs =>
        rw [reads_between, outside] at h
        split at h
        · rename_i hspace
          obtain ⟨us, hus⟩ := ih cs.length (Nat.lt_succ_self _) h rfl
          exact ⟨us, .space hspace hus⟩
        · rename_i hspace
          split at h
          · rename_i hquote
            subst hquote
            obtain ⟨ps, rest, hcontent, hless⟩ := content_of_reads h
            rw [reads_of_content hcontent] at h
            obtain ⟨us, hus⟩ := ih rest.length (Nat.lt_succ_of_lt hless) h rfl
            exact ⟨_, .text hcontent hus⟩
          · rename_i hquote
            split at h
            · rename_i t hpunctuation
              obtain ⟨us, hus⟩ := ih cs.length (Nat.lt_succ_self _) h rfl
              exact ⟨_, .punctuation hpunctuation hus⟩
            · rename_i hpunctuation
              have hc : endsAtom c = false := by simp [endsAtom, hspace, hquote, hpunctuation]
              obtain ⟨word, rest, t, rfl, hinside, hend, ht⟩ := word_of_reads h
              rw [reads_of_word hinside hend ht] at h
              have hless : rest.length < (c :: (word ++ rest)).length := by
                rw [List.length_cons, List.length_append]
                omega
              obtain ⟨us, hus⟩ := ih rest.length hless h rfl
              exact ⟨_, .word (List.cons_ne_nil c word) (List.forall_mem_cons.2 ⟨hc, hinside⟩) hend ht hus⟩

end Lexer

/-- A text is read as tokens exactly if it is cut into them. -/
theorem tokens?_iff {cs : List Char} {ts : List Token} : tokens? (cs.map .char) = some ts ↔ Lexes cs ts := by
  constructor
  · intro h
    obtain ⟨us, hus⟩ := Lexer.lexes_of_reads h
    have hsame : Lexer.reads ⟨[], .between⟩ cs = some us := Lexer.reads_of_lexes hus
    obtain rfl : ts = us := Option.some.inj (h.symm.trans hsame)
    exact hus
  · exact fun h => Lexer.reads_of_lexes h

/-- A text is a document of a value. -/
def Denotes (document : List Char) (v : Value) : Prop := Lexes document v.tokens

theorem ofText?_iff {s : String} {v : Value} : Value.ofText? s = some v ↔ Denotes s.toList v := by
  constructor
  · intro h
    obtain ⟨ts, htokens, hvalue⟩ := Option.bind_eq_some_iff.1 h
    rw [Denotes, ← ofTokens?_iff.1 hvalue]
    exact tokens?_iff.1 htokens
  · intro h
    rw [Value.ofText?, Value.ofSymbols?, tokens?_iff.2 h]
    exact ofTokens?_iff.2 rfl

end PushMetrics.Json
