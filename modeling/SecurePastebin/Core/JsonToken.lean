import SecurePastebin.Core.JsonString

/-!
# Well-formed string tokens

A token the reader accepts need not denote a text: its raw bytes may not be UTF-8,
and an escaped surrogate may be without its partner.  These are the only two ways.
A token with neither is a way to write some text, and that text is what is read.
-/

namespace SecurePastebin.Json

open Text Utf8

/-! ## Tokens and their elements -/

/-- A token, element by element. -/
inductive Lexed : Bytes → List Element → Prop
  | nil : Lexed [] []
  | plain {byte : UInt8} {token : Bytes} {list : List Element} (hplain : isPlain byte = true)
      (hrest : Lexed token list) : Lexed (byte :: token) (.raw byte :: list)
  | short {letter : UInt8} {code : ℕ} {token : Bytes} {list : List Element}
      (hletter : escapeUnit letter = some code) (hrest : Lexed token list) :
      Lexed (0x5C :: letter :: token) (.unit code :: list)
  | unit {a b c d : UInt8} {code : ℕ} {token : Bytes} {list : List Element}
      (hcode : unitOfHex a b c d = some code) (hrest : Lexed token list) :
      Lexed (0x5C :: 0x75 :: a :: b :: c :: d :: token) (.unit code :: list)

variable {token : Bytes} {list : List Element} {text tail : Bytes} {code : ℕ} {fuel : ℕ}
  {value : Value} {members : List (Bytes × Value)}

theorem Lexed.reads (hlexed : Lexed token list) :
    Reads token list := by
  induction hlexed with
  | nil => exact reads_raw (by simp)
  | plain hplain _ ih => exact (reads_plain hplain).append ih
  | short hletter _ ih => exact (reads_short hletter).append ih
  | unit hcode _ ih => exact (reads_unit hcode).append ih

theorem Lexed.elements_eq (hlexed : Lexed token list)
    (rest : Bytes) : elements (token ++ 0x22 :: rest) = some (list, rest) := by
  have hquote : elements (0x22 :: rest) = some ([], rest) := by
    rw [elements.eq_def]
    rfl
  simp only [hlexed.reads (0x22 :: rest), hquote, Option.map_some, List.append_nil]

/-- What the reader accepts is a token and its quotation mark. -/
theorem lexed_of_elements (helements : elements text = some (list, tail)) :
    ∃ token, text = token ++ 0x22 :: tail ∧ Lexed token list := by
  fun_induction elements text generalizing list tail with
  | case2 rest =>
      cases helements
      exact ⟨[], rfl, .nil⟩
  | case4 a b c d rest code more after hmore hcode _ ih =>
      cases helements
      obtain ⟨token, rfl, hlexed⟩ := ih hmore
      exact ⟨_, rfl, .unit hcode hlexed⟩
  | case7 letter rest hletter code more after hmore hcode _ ih =>
      cases helements
      obtain ⟨token, rfl, hlexed⟩ := ih hmore
      exact ⟨_, rfl, .short hcode hlexed⟩
  | case10 byte rest hquote hescape hcontrol more after hmore ih =>
      cases helements
      obtain ⟨token, rfl, hlexed⟩ := ih hmore
      have hplain : isPlain byte = true := by simp [isPlain, hquote, hescape, hcontrol]
      exact ⟨_, rfl, .plain hplain hlexed⟩
  | case1 | case3 | case5 | case6 | case8 | case9 | case11 => cases helements

theorem Lexed.of_plain_append {bytes token : Bytes} (hplain : ∀ byte ∈ bytes, isPlain byte = true)
    (hlexed : Lexed (bytes ++ token) list) :
    ∃ rest, list = bytes.map .raw ++ rest ∧ Lexed token rest := by
  induction bytes generalizing list with
  | nil => exact ⟨list, rfl, hlexed⟩
  | cons byte bytes ih =>
      have hbyte := hplain byte List.mem_cons_self
      rw [List.cons_append] at hlexed
      generalize htoken : bytes ++ token = text at hlexed
      cases hlexed with
      | plain _ hrest =>
          obtain ⟨rest, rfl, hlexed⟩ :=
            ih (fun other hother => hplain other (List.mem_cons_of_mem _ hother)) (htoken ▸ hrest)
          exact ⟨rest, rfl, hlexed⟩
      | short | unit => cases hbyte

/-! ## Surrogates -/

/-- Every surrogate among the elements is half of a pair. -/
def paired : List Element → Bool
  | [] => true
  | .raw _ :: rest => paired rest
  | .unit code :: rest =>
      if isHighSurrogate code then
        match rest with
        | .unit low :: tail => isLowSurrogate low && paired tail
        | _ => false
      else !isLowSurrogate code && paired rest

theorem paired_raws (bytes : Bytes) (list : List Element) :
    paired (bytes.map .raw ++ list) = paired list := by
  induction bytes with
  | nil => rfl
  | cons byte bytes ih => rw [List.map_cons, List.cons_append, paired, ih]

theorem paired_unit (hhigh : isHighSurrogate code = false) (list : List Element) :
    paired (.unit code :: list) = (!isLowSurrogate code && paired list) := by
  rw [paired.eq_def]
  simp only [hhigh, Bool.false_eq_true, if_false]

/-- A token contains an escaped surrogate without its partner. -/
def hasUnpaired (token : Bytes) : Bool :=
  match elements (token ++ [0x22]) with
  | some (list, _) => !paired list
  | none => false

theorem Lexed.hasUnpaired_eq (hlexed : Lexed token list) :
    hasUnpaired token = !paired list := by
  rw [hasUnpaired, hlexed.elements_eq []]

/-- A high surrogate that is paired is followed by the escape of its partner. -/
theorem Lexed.of_paired_high {high : ℕ}
    (hlexed : Lexed token list) (hhigh : isHighSurrogate high = true)
    (hpaired : paired (.unit high :: list) = true) :
    ∃ a b c d low rest list', unitOfHex a b c d = some low ∧ isLowSurrogate low = true ∧
      token = 0x5C :: 0x75 :: a :: b :: c :: d :: rest ∧ Lexed rest list' ∧
      paired list' = true := by
  cases hlexed with
  | nil | plain => simp [paired, hhigh] at hpaired
  | short hletter hrest =>
      have hlow := (notSurrogate_of_lt ((escapeUnit_spec hletter).2.trans (by decide))).2
      simp [paired, hhigh, hlow] at hpaired
  | unit hcode hrest =>
      rw [paired, if_pos hhigh, Bool.and_eq_true] at hpaired
      exact ⟨_, _, _, _, _, _, _, hcode, hpaired.1, rfl, hrest, hpaired.2⟩

/-! ## What a token denotes -/

theorem isPlain_of_high {byte : UInt8} (hhigh : 0x80 ≤ byte) : isPlain byte = true := by
  simp only [isPlain, Bool.and_eq_true, bne_iff_ne, ne_eq, Bool.not_eq_true',
    decide_eq_false_iff_not, ← UInt8.toNat_inj, UInt8.lt_iff_toNat_lt, UInt8.le_iff_toNat_le]
    at hhigh ⊢
  simp at hhigh ⊢
  omega

theorem valid_short {letter : UInt8} (hletter : escapeUnit letter = some code)
    (rest : Bytes) : valid (0x5C :: letter :: rest) = valid rest := by
  have hall : ∀ letter : UInt8, (escapeUnit letter).isSome = true → letter < 0x80 := by
    decide +kernel
  have hascii : ∀ byte ∈ [0x5C, letter], byte < 0x80 := by
    simp [hall letter (by simp [hletter])]
  exact valid_append (valid_of_ascii hascii) rest

theorem valid_unit {a b c d : UInt8} (hcode : unitOfHex a b c d = some code)
    (rest : Bytes) : valid (0x5C :: 0x75 :: a :: b :: c :: d :: rest) = valid rest := by
  have hdigit : ∀ digit : UInt8, (hexValue digit).isSome = true → digit < 0x80 := by
    decide +kernel
  have hbyte : ∀ {high low byte : UInt8}, byteOfHex high low = some byte →
      high < 0x80 ∧ low < 0x80 := by
    intro high low byte hbyte
    unfold byteOfHex at hbyte
    split at hbyte
    · rename_i hhigh hlow
      exact ⟨hdigit high (by simp [hhigh]), hdigit low (by simp [hlow])⟩
    · cases hbyte
  unfold unitOfHex at hcode
  split at hcode
  · rename_i hhigh hlow
    have hascii : ∀ byte ∈ [0x5C, 0x75, a, b, c, d], byte < 0x80 := by
      simp [hbyte hhigh, hbyte hlow]
    exact valid_append (valid_of_ascii hascii) rest
  · cases hcode

/-- A valid text that is not empty starts with a rune. -/
theorem exists_rune_append {text : Bytes} (hvalid : valid text = true) (hne : text ≠ []) :
    ∃ rune rest, text = rune ++ rest ∧ isRune rune = true ∧ valid rest = true := by
  apply valid_induction (motive := fun text => text ≠ [] → ∃ rune rest, text = rune ++ rest ∧
    isRune rune = true ∧ valid rest = true) _ _ text hvalid hne
  · intro hne
    exact absurd rfl hne
  · intro rune rest hrune hrest _ _
    exact ⟨rune, rest, rfl, hrune, hrest⟩

theorem length_pos_of_isRune {rune : Bytes} (hrune : isRune rune = true) : 0 < rune.length := by
  cases rune with
  | nil => cases hrune
  | cons => simp

/-- A token of UTF-8 in which every surrogate is paired is a way to write a text. -/
theorem Lexed.exists_written (hlexed : Lexed token list)
    (hvalid : valid token = true) (hpaired : paired list = true) :
    ∃ text, Written text token := by
  induction hlength : token.length using Nat.strong_induction_on generalizing token list with
  | _ length ih =>
  subst hlength
  cases hlexed with
  | nil => exact ⟨[], .nil⟩
  | @plain byte token list hplain hrest =>
      obtain ⟨rune, rest, htoken, hrune, hrestValid⟩ := exists_rune_append hvalid (by simp)
      have hplains : ∀ other ∈ rune, isPlain other = true := by
        intro other hother
        by_cases hascii : other < 0x80
        · obtain ⟨first, rfl⟩ := List.length_eq_one_iff.mp
            (length_of_ascii_mem hrune hother hascii)
          cases htoken
          rwa [List.mem_singleton.mp hother]
        · exact isPlain_of_high (UInt8.not_lt.mp hascii)
      have hlexed : Lexed (rune ++ rest) (.raw byte :: list) := htoken ▸ .plain hplain hrest
      obtain ⟨list', hlist, hlexed'⟩ := hlexed.of_plain_append hplains
      rw [hlist, paired_raws] at hpaired
      have hshorter : rest.length < (byte :: token).length := by
        rw [htoken, List.length_append]
        exact Nat.lt_add_of_pos_left (length_pos_of_isRune hrune)
      obtain ⟨text, htext⟩ := ih _ hshorter hlexed' hrestValid hpaired rfl
      rw [htoken]
      exact ⟨rune ++ text, .cons (.raw hrune hplains) htext⟩
  | @short letter code token list hletter hrest =>
      obtain ⟨hhigh, hlow⟩ :=
        notSurrogate_of_lt ((escapeUnit_spec hletter).2.trans (by decide))
      rw [valid_short hletter] at hvalid
      rw [paired_unit hhigh, hlow, Bool.not_false, Bool.true_and] at hpaired
      obtain ⟨text, htext⟩ := ih _ (by simp) hrest hvalid hpaired rfl
      exact ⟨_, .cons (.short hletter) htext⟩
  | @unit a b c d code token list hcode hrest =>
      rw [valid_unit hcode] at hvalid
      cases hhigh : isHighSurrogate code with
      | true =>
          obtain ⟨a', b', c', d', low, rest, list', hcode', hlow, rfl, hrest', hpaired'⟩ :=
            hrest.of_paired_high hhigh hpaired
          rw [valid_unit hcode'] at hvalid
          obtain ⟨text, htext⟩ := ih _ (by simp; omega) hrest' hvalid hpaired' rfl
          exact ⟨_, .cons (.pair hcode hcode' hhigh hlow) htext⟩
      | false =>
          rw [paired_unit hhigh, Bool.and_eq_true, Bool.not_eq_true'] at hpaired
          obtain ⟨text, htext⟩ := ih _ (by simp; omega) hrest hvalid hpaired.2 rfl
          exact ⟨_, .cons (.unit hcode hhigh hpaired.1) htext⟩

theorem Lexed.plain_append {bytes token : Bytes}
    (hplain : ∀ byte ∈ bytes, isPlain byte = true) (hlexed : Lexed token list) :
    Lexed (bytes ++ token) (bytes.map .raw ++ list) := by
  induction bytes with
  | nil => exact hlexed
  | cons byte bytes ih =>
      exact .plain (hplain byte List.mem_cons_self)
        (ih fun other hother => hplain other (List.mem_cons_of_mem _ hother))

/-- A token that writes a text is UTF-8, and every surrogate in it is paired. -/
theorem Written.lexed {text token : Bytes} (hwritten : Written text token) :
    ∃ list, Lexed token list ∧ valid token = true ∧ paired list = true := by
  induction hwritten with
  | nil => exact ⟨[], .nil, rfl, rfl⟩
  | cons hrune _ ih =>
      obtain ⟨list, hlexed, hvalid, hpaired⟩ := ih
      cases hrune with
      | raw hrune hplain =>
          exact ⟨_, hlexed.plain_append hplain, by rw [valid_rune_append hrune, hvalid],
            by rw [paired_raws, hpaired]⟩
      | short hletter =>
          obtain ⟨hhigh, hlow⟩ :=
            notSurrogate_of_lt ((escapeUnit_spec hletter).2.trans (by decide))
          exact ⟨_, .short hletter hlexed, (valid_short hletter _).trans hvalid,
            by rw [paired_unit hhigh, hlow, hpaired]; rfl⟩
      | unit hcode hhigh hlow =>
          exact ⟨_, .unit hcode hlexed, (valid_unit hcode _).trans hvalid,
            by rw [paired_unit hhigh, hlow, hpaired]; rfl⟩
      | pair hfirst hsecond hhigh hlow =>
          exact ⟨_, .unit hfirst (.unit hsecond hlexed),
            (valid_unit hfirst _).trans ((valid_unit hsecond _).trans hvalid),
            by rw [paired, if_pos hhigh, hlow, hpaired]; rfl⟩

/-- So such a text is the mark of a well-formed token. -/
theorem Written.wellFormed {text token : Bytes} (hwritten : Written text token) :
    valid token = true ∧ hasUnpaired token = false := by
  obtain ⟨list, hlexed, hvalid, hpaired⟩ := hwritten.lexed
  exact ⟨hvalid, by rw [hlexed.hasUnpaired_eq, hpaired]; rfl⟩

/-! ## The token of a value -/

/-- The bytes of a string between its quotation marks, where `tail` follows it. -/
def stringToken (text tail : Bytes) : Option Bytes :=
  match text with
  | 0x22 :: rest => some (rest.take (rest.length - (tail.length + 1)))
  | _ => none

theorem stringToken_append (token tail : Bytes) :
    stringToken (0x22 :: (token ++ 0x22 :: tail)) tail = some token := by
  rw [stringToken, List.length_append, List.length_cons, Nat.add_sub_cancel, List.take_left]

/-- What is read from a token that is well formed is what it denotes. -/
theorem readString_token {rest tail text token : Bytes}
    (hread : readString rest = some (text, tail))
    (htoken : stringToken (0x22 :: rest) tail = some token) (hvalid : valid token = true)
    (hpaired : hasUnpaired token = false) : Written text token := by
  unfold readString at hread
  split at hread
  · rename_i list tail' helements
    cases hread
    obtain ⟨front, rfl, hlexed⟩ := lexed_of_elements helements
    rw [stringToken_append, Option.some.injEq] at htoken
    subst htoken
    rw [hlexed.hasUnpaired_eq, Bool.not_eq_false'] at hpaired
    obtain ⟨denoted, hwritten⟩ := hlexed.exists_written hvalid hpaired
    have hdenoted := readString_of_written hwritten tail
    rw [readString, helements] at hdenoted
    cases hdenoted
    exact hwritten
  · cases hread

/-- A value is read as a string where it starts with a quotation mark, and only there. -/
theorem readValue_string (hread : readValue fuel text = some (value, tail)) :
    (∃ rest found, skipSpace text = 0x22 :: rest ∧ value = .string found ∧
      readString rest = some (found, tail)) ∨
    stringToken (skipSpace text) tail = none ∧ ∀ found, value ≠ .string found := by
  cases fuel with
  | zero => cases hread
  | succ fuel =>
      rw [readValue] at hread
      cases hskip : skipSpace text with
      | nil =>
          rw [hskip] at hread
          cases hread
      | cons byte rest =>
          rw [hskip] at hread
          by_cases hquote : byte = 0x22
          · subst hquote
            left
            simp only [if_true, Option.map_eq_some_iff, Prod.exists, Prod.mk.injEq] at hread
            obtain ⟨found, after, hfound, rfl, rfl⟩ := hread
            exact ⟨rest, found, rfl, rfl, hfound⟩
          · right
            refine ⟨?_, ?_⟩
            · unfold stringToken
              split
              · rename_i heq
                cases heq
                exact absurd rfl hquote
              · rfl
            · rintro found rfl
              simp only [hquote, if_false] at hread
              split_ifs at hread
              all_goals first
                | simp at hread
                | split at hread <;> simp at hread

/-! ## The tokens of an object -/

/-- The members as they are written: each name, and the token of each value that is
a string. -/
def memberTokens : ℕ → Bytes → List (Bytes × Option Bytes)
  | 0, _ => []
  | fuel + 1, text =>
      match skipSpace text with
      | 0x22 :: rest =>
          match readString rest with
          | none => []
          | some (key, rest) =>
              match skipSpace rest with
              | 0x3A :: rest =>
                  match readValue fuel rest with
                  | none => []
                  | some (_, tail) =>
                      (key, stringToken (skipSpace rest) tail) ::
                        match skipSpace tail with
                        | 0x2C :: more => memberTokens fuel more
                        | _ => []
              | _ => []
      | _ => []

/-- The members of a text that is an object. -/
def objectTokens (text : Bytes) : List (Bytes × Option Bytes) :=
  match skipSpace text with
  | 0x7B :: rest => memberTokens text.length rest
  | _ => []

/-- What was read of a member, and how it is written. -/
structure Spells (member : Bytes × Value) (entry : Bytes × Option Bytes) : Prop where
  name : entry.1 = member.1
  string : ∀ token, entry.2 = some token → ∃ text, member.2 = .string text ∧
    (valid token = true → hasUnpaired token = false → Written text token)
  other : entry.2 = none → ∀ text, member.2 ≠ .string text

theorem spells_of_readValue (hread : readValue fuel text = some (value, tail)) (key : Bytes) :
    Spells (key, value) (key, stringToken (skipSpace text) tail) := by
  rcases readValue_string hread with ⟨rest, found, hskip, rfl, hstring⟩ | ⟨hnone, hother⟩
  · rw [hskip]
    refine ⟨rfl, fun token htoken => ⟨found, rfl, fun hvalid hpaired => ?_⟩, fun hnone => ?_⟩
    · exact readString_token hstring htoken hvalid hpaired
    · cases hnone
  · rw [hnone]
    refine ⟨rfl, fun token htoken => ?_, fun _ => hother⟩
    cases htoken

/-- What reading the members finds: a name, a value, and the end or further members. -/
theorem readMembers_succ {text rest : Bytes}
    (hread : readMembers (fuel + 1) text = some (members, rest)) :
    ∃ body key afterKey valueText value tail others,
      skipSpace text = 0x22 :: body ∧ readString body = some (key, afterKey) ∧
      skipSpace afterKey = 0x3A :: valueText ∧ readValue fuel valueText = some (value, tail) ∧
      members = (key, value) :: others ∧
      ((∃ more, skipSpace tail = 0x2C :: more ∧ readMembers fuel more = some (others, rest)) ∨
        skipSpace tail = 0x7D :: rest ∧ others = []) := by
  rw [readMembers] at hread
  split at hread
  case h_2 => cases hread
  rename_i body hquote
  split at hread
  · cases hread
  rename_i key afterKey hkey
  split at hread
  case h_2 => cases hread
  rename_i valueText hcolon
  split at hread
  · cases hread
  rename_i value tail hvalue
  split at hread
  · rename_i more hcomma
    rw [Option.map_eq_some_iff] at hread
    obtain ⟨⟨others, after⟩, hothers, heq⟩ := hread
    cases heq
    exact ⟨body, key, afterKey, valueText, value, tail, others, hquote, hkey, hcolon, hvalue, rfl,
      .inl ⟨more, hcomma, hothers⟩⟩
  · rename_i hbrace
    cases hread
    exact ⟨body, key, afterKey, valueText, value, tail, [], hquote, hkey, hcolon, hvalue, rfl,
      .inr ⟨hbrace, rfl⟩⟩
  · cases hread

theorem spells_members {text rest : Bytes} (hread : readMembers fuel text = some (members, rest)) :
    List.Forall₂ Spells members (memberTokens fuel text) := by
  induction fuel generalizing text members with
  | zero => cases hread
  | succ fuel ih =>
      obtain ⟨body, key, afterKey, valueText, value, tail, others, hquote, hkey, hcolon, hvalue,
        rfl, hmore⟩ := readMembers_succ hread
      have hspells := spells_of_readValue hvalue key
      rcases hmore with ⟨more, hcomma, hothers⟩ | ⟨hbrace, rfl⟩
      · simp only [memberTokens, hquote, hkey, hcolon, hvalue, hcomma]
        exact .cons hspells (ih hothers)
      · simp only [memberTokens, hquote, hkey, hcolon, hvalue, hbrace]
        exact .cons hspells .nil

/-- An object is read with the members its text has, and another value has none. -/
theorem spells_value {text rest : Bytes}
    (hread : readValue (text.length + 1) text = some (value, rest)) :
    (∃ members, value = .object members ∧ List.Forall₂ Spells members (objectTokens text)) ∨
      objectTokens text = [] := by
  rw [readValue] at hread
  rw [objectTokens]
  cases hskip : skipSpace text with
  | nil => exact .inr rfl
  | cons byte more =>
      rw [hskip] at hread
      by_cases hbrace : byte = 0x7B
      · subst hbrace
        left
        simp only [show (0x7B : UInt8) ≠ 0x22 by decide, if_true, if_false] at hread
        split at hread
        · rename_i hclose
          cases hread
          cases text with
          | nil => cases hskip
          | cons first text =>
              simp only [List.length_cons, memberTokens, hclose]
              exact ⟨[], rfl, .nil⟩
        · rw [Option.map_eq_some_iff] at hread
          obtain ⟨⟨found, after⟩, hmembers, heq⟩ := hread
          cases heq
          exact ⟨found, rfl, spells_members hmembers⟩
      · right
        split
        · rename_i heq
          cases heq
          exact absurd rfl hbrace
        · rfl

end SecurePastebin.Json
