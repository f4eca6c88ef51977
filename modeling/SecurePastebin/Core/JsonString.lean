import SecurePastebin.Core.Json

/-!
# String tokens

A character of a JSON string may stand for itself, be a two-character escape, a
`\u` escape or a pair of them.  `Written text token` says that `token`, the part
between the quotation marks, is one of the ways to write `text`.  The reader finds
`text` in every one of them, and none is longer than six bytes for each byte of
`text`.
-/

namespace SecurePastebin.Json

open Text Utf8

/-! ## Encoded runes -/

variable {code : ℕ} {bytes token : Bytes} {members : List (Bytes × Value)}

/-- UTF-8 of a code point is a rune. -/
theorem isRune_encodeRune (hcode : code < 0x110000)
    (hhigh : isHighSurrogate code = false) (hlow : isLowSurrogate code = false) :
    isRune (encodeRune code) = true := by
  have hsurrogate : ¬ (0xD800 ≤ code ∧ code < 0xE000) := by
    simp only [isHighSurrogate, isLowSurrogate, Bool.and_eq_false_iff, decide_eq_false_iff_not]
      at hhigh hlow
    omega
  unfold encodeRune
  split_ifs with hone htwo hthree
  · simp [isRune, UInt8.lt_iff_toNat_lt]
    omega
  · simp [isRune, isRune2, isTail, UInt8.le_iff_toNat_le]
    omega
  · simp only [isRune, isRune3, isSecondOf3, isTail, UInt8.le_iff_toNat_le, ← UInt8.toNat_inj]
    split_ifs <;> simp at * <;> omega
  · simp only [isRune, isRune4, isSecondOf4, isTail, UInt8.le_iff_toNat_le, ← UInt8.toNat_inj]
    split_ifs <;> simp at * <;> omega

theorem length_encodeRune_pos (code : ℕ) : 1 ≤ (encodeRune code).length := by
  unfold encodeRune
  split_ifs <;> simp

theorem length_encodeRune_of_ge (hcode : 0x10000 ≤ code) :
    (encodeRune code).length = 4 := by
  unfold encodeRune
  rw [if_neg (by omega), if_neg (by omega), if_neg (by omega)]
  rfl

/-! ## Ways to write a text -/

/-- A byte that may stand for itself in a string. -/
def isPlain (byte : UInt8) : Bool := byte != 0x22 && byte != 0x5C && !decide (byte < 0x20)

/-- The code point of a surrogate pair. -/
def pairCode (high low : ℕ) : ℕ := 0x10000 + (high - 0xD800) * 0x400 + (low - 0xDC00)

/-- One rune, and one way to write it. -/
inductive WrittenRune : Bytes → Bytes → Prop
  | raw {bytes : Bytes} (hrune : isRune bytes = true)
      (hplain : ∀ byte ∈ bytes, isPlain byte = true) : WrittenRune bytes bytes
  | short {letter : UInt8} {code : ℕ} (hletter : escapeUnit letter = some code) :
      WrittenRune (encodeRune code) [0x5C, letter]
  | unit {a b c d : UInt8} {code : ℕ} (hcode : unitOfHex a b c d = some code)
      (hhigh : isHighSurrogate code = false) (hlow : isLowSurrogate code = false) :
      WrittenRune (encodeRune code) [0x5C, 0x75, a, b, c, d]
  | pair {a b c d a' b' c' d' : UInt8} {high low : ℕ} (hfirst : unitOfHex a b c d = some high)
      (hsecond : unitOfHex a' b' c' d' = some low) (hhigh : isHighSurrogate high = true)
      (hlow : isLowSurrogate low = true) :
      WrittenRune (encodeRune (pairCode high low))
        [0x5C, 0x75, a, b, c, d, 0x5C, 0x75, a', b', c', d']

inductive Written : Bytes → Bytes → Prop
  | nil : Written [] []
  | cons {bytes token text rest : Bytes} (hrune : WrittenRune bytes token)
      (hrest : Written text rest) : Written (bytes ++ text) (token ++ rest)

theorem unitOfHex_lt {a b c d : UInt8} (hcode : unitOfHex a b c d = some code) :
    code < 0x10000 := by
  unfold unitOfHex at hcode
  split at hcode
  · rename_i high low _ _
    cases hcode
    have hhigh := high.toNat_lt
    have hlow := low.toNat_lt
    omega
  · cases hcode

theorem escapeUnit_spec {letter : UInt8} (hletter : escapeUnit letter = some code) :
    letter ≠ 0x75 ∧ code < 0x80 := by
  have hall : ∀ letter : UInt8, ∀ code ∈ escapeUnit letter, letter ≠ 0x75 ∧ code < 0x80 := by
    decide +kernel
  exact hall letter code hletter

theorem pairCode_bounds {high low : ℕ} (hhigh : isHighSurrogate high = true)
    (hlow : isLowSurrogate low = true) :
    0x10000 ≤ pairCode high low ∧ pairCode high low < 0x110000 := by
  simp only [isHighSurrogate, isLowSurrogate, Bool.and_eq_true, decide_eq_true_eq] at hhigh hlow
  unfold pairCode
  omega

theorem notSurrogate_of_lt (hcode : code < 0xD800) :
    isHighSurrogate code = false ∧ isLowSurrogate code = false := by
  simp only [isHighSurrogate, isLowSurrogate, Bool.and_eq_false_iff, decide_eq_false_iff_not]
  omega

theorem notSurrogate_of_ge (hcode : 0xE000 ≤ code) :
    isHighSurrogate code = false ∧ isLowSurrogate code = false := by
  simp only [isHighSurrogate, isLowSurrogate, Bool.and_eq_false_iff, decide_eq_false_iff_not]
  omega

theorem isRune_of_written (hwritten : WrittenRune bytes token) :
    isRune bytes = true := by
  cases hwritten with
  | raw hrune _ => exact hrune
  | short hletter =>
      have hlt := (escapeUnit_spec hletter).2
      obtain ⟨hhigh, hlow⟩ := notSurrogate_of_lt (hlt.trans (by decide))
      exact isRune_encodeRune (hlt.trans (by decide)) hhigh hlow
  | unit hcode hhigh hlow =>
      exact isRune_encodeRune ((unitOfHex_lt hcode).trans (by decide)) hhigh hlow
  | pair _ _ hhigh hlow =>
      obtain ⟨hge, hlt⟩ := pairCode_bounds hhigh hlow
      obtain ⟨hnot, hnot'⟩ := notSurrogate_of_ge (Nat.le_trans (by decide) hge)
      exact isRune_encodeRune hlt hnot hnot'

/-! ## Lengths -/

theorem WrittenRune.length_le (hwritten : WrittenRune bytes token) :
    token.length ≤ 6 * bytes.length := by
  cases hwritten with
  | raw => omega
  | @short letter code _ =>
      have := length_encodeRune_pos code
      simp only [List.length_cons, List.length_nil]
      omega
  | @unit _ _ _ _ code _ _ _ =>
      have := length_encodeRune_pos code
      simp only [List.length_cons, List.length_nil]
      omega
  | pair _ _ hhigh hlow =>
      rw [length_encodeRune_of_ge (pairCode_bounds hhigh hlow).1]
      simp

/-- At most six bytes for each byte. -/
theorem Written.length_le {text token : Bytes} (hwritten : Written text token) :
    token.length ≤ 6 * text.length := by
  induction hwritten with
  | nil => simp
  | cons hrune _ ih =>
      have := hrune.length_le
      simp only [List.length_append]
      omega

theorem WrittenRune.length_le_twelve (hwritten : WrittenRune bytes token) :
    token.length ≤ 12 := by
  cases hwritten with
  | raw hrune _ =>
      match bytes, hrune with
      | [a], _ | [a, b], _ | [a, b, c], _ | [a, b, c, d], _ => simp
  | short | unit | pair => simp

/-- At most twelve bytes for each character. -/
theorem Written.length_le_runes {text token : Bytes} (hwritten : Written text token) :
    token.length ≤ 12 * runeCount text := by
  induction hwritten with
  | nil => simp
  | cons hrune _ ih =>
      have := hrune.length_le_twelve
      rw [runeCount, pieces_rune_append (isRune_of_written hrune), List.length_cons, List.length_append]
      rw [runeCount] at ih
      omega

/-! ## Reading -/

/-- The elements of one way to write a rune. -/
def Reads (token : Bytes) (list : List Element) : Prop :=
  ∀ rest, elements (token ++ rest) = (elements rest).map fun (more, tail) => (list ++ more, tail)

theorem Reads.append {front back : Bytes} {list list' : List Element} (hfront : Reads front list)
    (hback : Reads back list') : Reads (front ++ back) (list ++ list') := by
  intro rest
  rw [List.append_assoc, hfront, hback]
  cases elements rest <;> simp

theorem reads_plain {byte : UInt8} (hplain : isPlain byte = true) : Reads [byte] [.raw byte] := by
  simp only [isPlain, Bool.and_eq_true, bne_iff_ne, Bool.not_eq_true', decide_eq_false_iff_not]
    at hplain
  exact elements_raw ⟨hplain.1.1, hplain.1.2, hplain.2⟩

theorem reads_raw {bytes : Bytes} (hplain : ∀ byte ∈ bytes, isPlain byte = true) :
    Reads bytes (bytes.map .raw) := by
  induction bytes with
  | nil =>
      intro rest
      cases helements : elements rest <;> simp [helements]
  | cons byte bytes ih =>
      exact (reads_plain (hplain byte List.mem_cons_self)).append
        (ih fun other hother => hplain other (List.mem_cons_of_mem _ hother))

theorem reads_short {letter : UInt8} (hletter : escapeUnit letter = some code) :
    Reads [0x5C, letter] [.unit code] := by
  intro rest
  simp only [List.cons_append, List.nil_append]
  rw [elements.eq_def]
  simp only [(escapeUnit_spec hletter).1, hletter, if_true, if_false,
    show (0x5C : UInt8) ≠ 0x22 by decide]
  cases elements rest <;> rfl

theorem reads_unit {a b c d : UInt8} (hcode : unitOfHex a b c d = some code) :
    Reads [0x5C, 0x75, a, b, c, d] [.unit code] := elements_unit hcode

/-- Elements that add `bytes` to a text. -/
def Adds (list : List Element) (bytes : Bytes) : Prop :=
  ∀ pending rest, valid pending = true → (∀ text, (∀ pending, valid pending = true →
    assemble pending rest = pending ++ text) →
      assemble pending (list ++ rest) = pending ++ (bytes ++ text))

theorem adds_raw {bytes : Bytes} (hvalid : valid bytes = true) : Adds (bytes.map .raw) bytes := by
  intro pending rest hpending text htext
  rw [assemble_raws, htext (pending ++ bytes) (by rw [valid_append hpending, hvalid]),
    List.append_assoc]

theorem adds_unit (hhigh : isHighSurrogate code = false)
    (hlow : isLowSurrogate code = false) : Adds [.unit code] (encodeRune code) := by
  intro pending rest hpending text htext
  rw [List.singleton_append, assemble.eq_def]
  simp only [hhigh, hlow, Bool.false_eq_true, if_false, sanitize_of_valid hpending,
    htext [] rfl, List.nil_append, List.append_assoc]

theorem adds_pair {high low : ℕ} (hhigh : isHighSurrogate high = true)
    (hlow : isLowSurrogate low = true) :
    Adds [.unit high, .unit low] (encodeRune (pairCode high low)) := by
  intro pending rest hpending text htext
  have hassemble : assemble pending (.unit high :: .unit low :: rest) =
      sanitize pending ++ encodeRune (pairCode high low) ++ assemble [] rest := by
    generalize hcode : pairCode high low = code
    unfold pairCode at hcode
    rw [assemble, if_pos hhigh, if_pos hlow, hcode]
  rw [List.cons_append, List.singleton_append, hassemble, sanitize_of_valid hpending,
    htext [] rfl, List.nil_append, List.append_assoc]

theorem WrittenRune.reads (hwritten : WrittenRune bytes token) :
    ∃ list, Reads token list ∧ Adds list bytes := by
  have hrune := isRune_of_written hwritten
  cases hwritten with
  | raw _ hplain =>
      have hvalid : valid bytes = true := by
        have happend := valid_rune_append hrune []
        rwa [List.append_nil, valid_nil] at happend
      exact ⟨_, reads_raw hplain, adds_raw hvalid⟩
  | short hletter =>
      have hlt := (escapeUnit_spec hletter).2
      obtain ⟨hhigh, hlow⟩ := notSurrogate_of_lt (hlt.trans (by decide))
      exact ⟨_, reads_short hletter, adds_unit hhigh hlow⟩
  | unit hcode hhigh hlow => exact ⟨_, reads_unit hcode, adds_unit hhigh hlow⟩
  | pair hfirst hsecond hhigh hlow =>
      exact ⟨_, (reads_unit hfirst).append (reads_unit hsecond), adds_pair hhigh hlow⟩

/-- Every way to write a text is read as that text. -/
theorem readString_of_written {text token : Bytes} (hwritten : Written text token) (rest : Bytes) :
    readString (token ++ 0x22 :: rest) = some (text, rest) := by
  have hgeneral : ∃ list, elements (token ++ 0x22 :: rest) = some (list, rest) ∧
      ∀ pending, valid pending = true → assemble pending list = pending ++ text := by
    induction hwritten with
    | nil =>
        refine ⟨[], by rw [List.nil_append, elements.eq_def]; rfl, fun pending hpending => ?_⟩
        rw [assemble, sanitize_of_valid hpending, List.append_nil]
    | cons hrune _ ih =>
        obtain ⟨more, hmore, htext⟩ := ih
        obtain ⟨list, hreads, hadds⟩ := hrune.reads
        refine ⟨list ++ more, ?_, fun pending hpending => hadds pending more hpending _ htext⟩
        rw [List.append_assoc, hreads, hmore]
        rfl
  obtain ⟨list, helements, htext⟩ := hgeneral
  rw [readString, helements]
  simp only [htext [] rfl, List.nil_append]

/-- Printable ASCII can be written as it is. -/
theorem written_ascii {text : Bytes}
    (htext : text.all (fun byte => isPlain byte && decide (byte < 0x80)) = true) :
    Written text text := by
  induction text with
  | nil => exact .nil
  | cons byte text ih =>
      simp only [List.all_cons, Bool.and_eq_true, decide_eq_true_eq] at htext
      obtain ⟨⟨hplain, hlow⟩, hrest⟩ := htext
      have hrune : WrittenRune [byte] [byte] :=
        .raw (by simpa [isRune] using hlow) (by simpa using hplain)
      exact .cons hrune (ih (by simpa using hrest))

/-! ## Objects -/

/-- A string or an integer, and one way to write it. -/
inductive WrittenValue : Value → Bytes → Prop
  | string {text token : Bytes} (htext : Written text token) :
      WrittenValue (.string text) (0x22 :: (token ++ [0x22]))
  | number (value : ℤ) : WrittenValue (.number (formatInt value)) (formatInt value)

/-- Members without white space, with the closing brace. -/
inductive WrittenMembers : List (Bytes × Value) → Bytes → Prop
  | last {name nameToken valueToken : Bytes} {value : Value} (hname : Written name nameToken)
      (hvalue : WrittenValue value valueToken) :
      WrittenMembers [(name, value)]
        (0x22 :: (nameToken ++ 0x22 :: 0x3A :: (valueToken ++ [0x7D])))
  | cons {name nameToken valueToken rest : Bytes} {value : Value} {members : List (Bytes × Value)}
      (hname : Written name nameToken) (hvalue : WrittenValue value valueToken)
      (hrest : WrittenMembers members rest) :
      WrittenMembers ((name, value) :: members)
        (0x22 :: (nameToken ++ 0x22 :: 0x3A :: (valueToken ++ 0x2C :: rest)))

/-- An object without white space. -/
def WrittenObject (members : List (Bytes × Value)) (body : Bytes) : Prop :=
  ∃ token, WrittenMembers members token ∧ body = 0x7B :: token

/-- What a value takes at most. -/
def valueBound : Value → ℕ
  | .string text => min (6 * text.length) (12 * runeCount text) + 2
  | .number literal => literal.length
  | _ => 0

theorem WrittenValue.length_le {value : Value} {token : Bytes}
    (hvalue : WrittenValue value token) : token.length ≤ valueBound value := by
  cases hvalue with
  | string htext =>
      have := htext.length_le
      have := htext.length_le_runes
      simp only [valueBound, List.length_cons, List.length_append, List.length_nil]
      omega
  | number => exact le_rfl

/-- What a member takes at most, with its punctuation. -/
def memberBound (member : Bytes × Value) : ℕ := 6 * member.1.length + valueBound member.2 + 4

theorem WrittenMembers.length_le {token : Bytes} (hmembers : WrittenMembers members token) :
    token.length ≤ (members.map memberBound).sum := by
  induction hmembers with
  | last hname hvalue =>
      have := hname.length_le
      have := hvalue.length_le
      simp only [List.map_cons, List.map_nil, List.sum_cons, List.sum_nil, memberBound,
        List.length_cons, List.length_append, List.length_nil]
      omega
  | cons hname hvalue _ ih =>
      have := hname.length_le
      have := hvalue.length_le
      simp only [List.map_cons, List.sum_cons, memberBound, List.length_cons, List.length_append]
      omega

theorem WrittenMembers.count_le {token : Bytes}
    (hmembers : WrittenMembers members token) : members.length + 1 ≤ token.length := by
  induction hmembers with
  | last =>
      simp only [List.length_cons, List.length_append, List.length_nil]
      omega
  | cons _ _ _ ih =>
      simp only [List.length_cons, List.length_append]
      omega

theorem readValue_of_written {value : Value} {token : Bytes} (hvalue : WrittenValue value token)
    (fuel : ℕ) {rest : Bytes} (hrest : EndsNumber rest) :
    readValue (fuel + 1) (token ++ rest) = some (value, rest) := by
  cases hvalue with
  | @string text token htext =>
      rw [readValue, List.cons_append, skipSpace_cons (by decide)]
      simp only [if_true, List.append_assoc, List.singleton_append, readString_of_written htext,
        Option.map_some]
  | number value =>
      obtain ⟨byte, tail, hformat, hbyte⟩ := formatInt_head value
      obtain ⟨hspace, hquote, hbrace, hbracket, hn, ht, hf, -⟩ := number_head byte hbyte
      have hnumber := readNumber_formatInt value hrest
      rw [hformat, List.cons_append] at hnumber
      simp only [hformat, List.cons_append, readValue, skipSpace_cons hspace, hquote, hbrace,
        hbracket, hn, ht, hf, if_false, hnumber, Option.map_some]

theorem readMembers_of_written {token : Bytes}
    (hmembers : WrittenMembers members token) {fuel : ℕ} (hfuel : members.length + 1 ≤ fuel) :
    readMembers fuel token = some (members, []) := by
  induction hmembers generalizing fuel with
  | last hname hvalue =>
      obtain ⟨fuel, rfl⟩ : ∃ rest, fuel = rest + 2 := ⟨fuel - 2, by simp at hfuel; omega⟩
      rw [readMembers, skipSpace_cons (by decide)]
      simp only [readString_of_written hname, skipSpace_cons (show isSpace 0x3A = false by decide),
        readValue_of_written hvalue fuel (endsNumber_brace []),
        skipSpace_cons (show isSpace 0x7D = false by decide)]
  | @cons name nameToken valueToken rest value members hname hvalue _ ih =>
      rw [List.length_cons] at hfuel
      obtain ⟨fuel, rfl⟩ : ∃ rest, fuel = rest + 2 := ⟨fuel - 2, by omega⟩
      have hrest := @ih (fuel + 1) (by omega)
      rw [readMembers, skipSpace_cons (by decide)]
      simp only [readString_of_written hname, skipSpace_cons (show isSpace 0x3A = false by decide),
        readValue_of_written hvalue fuel (endsNumber_comma rest),
        skipSpace_cons (show isSpace 0x2C = false by decide), hrest, Option.map_some]

theorem parse_of_written {body : Bytes}
    (hbody : WrittenObject members body) : parse body = some (.object members) := by
  obtain ⟨token, hmembers, rfl⟩ := hbody
  have hread := readMembers_of_written hmembers (Nat.le_trans hmembers.count_le (Nat.le_succ _))
  have hhead : ∃ tail, token = 0x22 :: tail := by
    cases hmembers <;> exact ⟨_, rfl⟩
  obtain ⟨tail, rfl⟩ := hhead
  rw [parse, List.length_cons, readValue, skipSpace_cons (by decide)]
  simp only [skipSpace_cons (show isSpace 0x22 = false by decide)]
  simp [← List.length_cons, hread, skipSpace]

theorem WrittenObject.length_le {body : Bytes} (hbody : WrittenObject members body) :
    body.length ≤ (members.map memberBound).sum + 1 := by
  obtain ⟨token, hmembers, rfl⟩ := hbody
  exact Nat.succ_le_succ hmembers.length_le

end SecurePastebin.Json
