import SecurePastebin.Core.Text

/-!
# UTF-8

A byte string is read from the left as runes and stray bytes: a stray byte is
one at which no well-formed encoding starts, and it is skipped alone.  Validity,
the rune count and the replacement of stray bytes by U+FFFD are all read off
that division, which is the one `unicode/utf8` makes.
-/

namespace SecurePastebin.Utf8

open Text

inductive Piece where
  | rune (bytes : Bytes)
  | stray (byte : UInt8)
  deriving DecidableEq

def isTail (byte : UInt8) : Bool := 0x80 ≤ byte && byte ≤ 0xBF

/-- The second byte of a three-byte encoding: no overlong form, no surrogate. -/
def isSecondOf3 (first second : UInt8) : Bool :=
  if first = 0xE0 then 0xA0 ≤ second && second ≤ 0xBF
  else if first = 0xED then 0x80 ≤ second && second ≤ 0x9F
  else isTail second

/-- The second byte of a four-byte encoding: no overlong form, nothing above
U+10FFFF. -/
def isSecondOf4 (first second : UInt8) : Bool :=
  if first = 0xF0 then 0x90 ≤ second && second ≤ 0xBF
  else if first = 0xF4 then 0x80 ≤ second && second ≤ 0x8F
  else isTail second

def isRune2 (a b : UInt8) : Bool := 0xC2 ≤ a && a ≤ 0xDF && isTail b

def isRune3 (a b c : UInt8) : Bool := 0xE0 ≤ a && a ≤ 0xEF && isSecondOf3 a b && isTail c

def isRune4 (a b c d : UInt8) : Bool :=
  0xF0 ≤ a && a ≤ 0xF4 && isSecondOf4 a b && isTail c && isTail d

/-- The bytes of one rune. -/
def isRune : Bytes → Bool
  | [a] => a < 0x80
  | [a, b] => isRune2 a b
  | [a, b, c] => isRune3 a b c
  | [a, b, c, d] => isRune4 a b c d
  | _ => false

def pieces : Bytes → List Piece
  | a :: b :: c :: d :: rest =>
      if a < 0x80 then .rune [a] :: pieces (b :: c :: d :: rest)
      else if isRune2 a b then .rune [a, b] :: pieces (c :: d :: rest)
      else if isRune3 a b c then .rune [a, b, c] :: pieces (d :: rest)
      else if isRune4 a b c d then .rune [a, b, c, d] :: pieces rest
      else .stray a :: pieces (b :: c :: d :: rest)
  | [a, b, c] =>
      if a < 0x80 then .rune [a] :: pieces [b, c]
      else if isRune2 a b then .rune [a, b] :: pieces [c]
      else if isRune3 a b c then [.rune [a, b, c]]
      else .stray a :: pieces [b, c]
  | [a, b] =>
      if a < 0x80 then .rune [a] :: pieces [b]
      else if isRune2 a b then [.rune [a, b]]
      else .stray a :: pieces [b]
  | [a] => if a < 0x80 then [.rune [a]] else [.stray a]
  | [] => []

def Piece.bytes : Piece → Bytes
  | .rune bytes => bytes
  | .stray byte => [byte]

def Piece.isStray : Piece → Bool
  | .rune _ => false
  | .stray _ => true

/-- `utf8.ValidString`. -/
def valid (text : Bytes) : Bool := (pieces text).all fun piece => !piece.isStray

/-- `utf8.RuneCountInString`. -/
def runeCount (text : Bytes) : ℕ := (pieces text).length

/-- UTF-8 of a code point that is neither a surrogate nor above U+10FFFF. -/
def encodeRune (code : ℕ) : Bytes :=
  if code < 0x80 then [code.toUInt8]
  else if code < 0x800 then [(0xC0 + code / 64).toUInt8, (0x80 + code % 64).toUInt8]
  else if code < 0x10000 then
    [(0xE0 + code / 4096).toUInt8, (0x80 + code / 64 % 64).toUInt8, (0x80 + code % 64).toUInt8]
  else
    [(0xF0 + code / 262144).toUInt8, (0x80 + code / 4096 % 64).toUInt8,
      (0x80 + code / 64 % 64).toUInt8, (0x80 + code % 64).toUInt8]

/-- U+FFFD, which stands for what cannot be decoded. -/
def replacement : Bytes := [0xEF, 0xBF, 0xBD]

/-- Every stray byte replaced by U+FFFD. -/
def sanitize (text : Bytes) : Bytes :=
  (pieces text).flatMap fun piece =>
    match piece with
    | .rune bytes => bytes
    | .stray _ => replacement

private theorem first_lt_of_isRune2 {a b : UInt8} (hrune : isRune2 a b = true) : ¬ a < 0x80 := by
  simp only [isRune2, Bool.and_eq_true, decide_eq_true_eq] at hrune
  intro hlt
  have := hrune.1.1
  rw [UInt8.le_iff_toNat_le] at this
  rw [UInt8.lt_iff_toNat_lt] at hlt
  simp at this hlt
  omega

private theorem first_of_isRune3 {a b c : UInt8} (hrune : isRune3 a b c = true) :
    ¬ a < 0x80 ∧ ∀ b', isRune2 a b' = false := by
  simp only [isRune3, Bool.and_eq_true, decide_eq_true_eq, UInt8.le_iff_toNat_le] at hrune
  have hlow := hrune.1.1.1
  simp only [isRune2, UInt8.lt_iff_toNat_lt, UInt8.le_iff_toNat_le]
  simp at hlow ⊢
  constructor
  · omega
  · intros
    omega

private theorem first_of_isRune4 {a b c d : UInt8} (hrune : isRune4 a b c d = true) :
    ¬ a < 0x80 ∧ (∀ b', isRune2 a b' = false) ∧ ∀ b' c', isRune3 a b' c' = false := by
  simp only [isRune4, Bool.and_eq_true, decide_eq_true_eq, UInt8.le_iff_toNat_le] at hrune
  have hlow := hrune.1.1.1.1
  simp only [isRune2, isRune3, UInt8.lt_iff_toNat_lt, UInt8.le_iff_toNat_le]
  simp at hlow ⊢
  refine ⟨by omega, ?_, ?_⟩
  · intros
    omega
  · intros
    omega

/-- A rune at the front is read as one piece, whatever follows. -/
theorem pieces_rune_append {bytes : Bytes} (hrune : isRune bytes = true) (rest : Bytes) :
    pieces (bytes ++ rest) = .rune bytes :: pieces rest := by
  match bytes, hrune with
  | [a], hrune =>
      have hlt : a < 0x80 := by simpa [isRune] using hrune
      match rest with
      | [] => simp [pieces, hlt]
      | [b] => simp [pieces, hlt]
      | [b, c] => simp [pieces, hlt]
      | b :: c :: d :: tail => simp [pieces, hlt]
  | [a, b], hrune =>
      have hrune2 : isRune2 a b = true := hrune
      have hge := first_lt_of_isRune2 hrune2
      match rest with
      | [] => simp [pieces, hge, hrune2]
      | [c] => simp [pieces, hge, hrune2]
      | c :: d :: tail => simp [pieces, hge, hrune2]
  | [a, b, c], hrune =>
      have hrune3 : isRune3 a b c = true := hrune
      obtain ⟨hge, hnot2⟩ := first_of_isRune3 hrune3
      match rest with
      | [] => simp [pieces, hge, hnot2, hrune3]
      | d :: tail => simp [pieces, hge, hnot2, hrune3]
  | [a, b, c, d], hrune =>
      have hrune4 : isRune4 a b c d = true := hrune
      obtain ⟨hge, hnot2, hnot3⟩ := first_of_isRune4 hrune4
      simp [pieces, hge, hnot2, hnot3, hrune4]

/-- A byte at which no rune starts stands alone. -/
theorem pieces_stray {byte : UInt8} {rest : Bytes}
    (hnone : ∀ count, isRune ((byte :: rest).take count) = false) :
    pieces (byte :: rest) = .stray byte :: pieces rest := by
  have h1 := hnone 1
  have h2 := hnone 2
  have h3 := hnone 3
  have h4 := hnone 4
  rcases rest with _ | ⟨b, _ | ⟨c, _ | ⟨d, rest⟩⟩⟩ <;>
    simp only [List.take_succ_cons, List.take_zero, List.take_nil, isRune,
      decide_eq_false_iff_not] at h1 h2 h3 h4 <;>
    simp [pieces, h1, h2, h3, h4]

/-- A rune of several bytes has no ASCII byte. -/
theorem length_of_ascii_mem {rune : Bytes} (hrune : isRune rune = true) {byte : UInt8}
    (hmem : byte ∈ rune) (hascii : byte < 0x80) : rune.length = 1 := by
  have hlow : ∀ low : UInt8, 0x80 ≤ low → ¬ low < 0x80 := fun low hle => UInt8.not_lt.mpr hle
  unfold isRune at hrune
  split at hrune
  · rfl
  · simp only [isRune2, isTail, Bool.and_eq_true, decide_eq_true_eq] at hrune
    grind
  · simp only [isRune3, isSecondOf3, isTail, Bool.and_eq_true, decide_eq_true_eq] at hrune
    grind
  · simp only [isRune4, isSecondOf4, isTail, Bool.and_eq_true, decide_eq_true_eq] at hrune
    grind
  · cases hrune

/-- Division does not reach across an ASCII byte. -/
theorem pieces_append_ascii (text : Bytes) {byte : UInt8} (hascii : byte < 0x80) (rest : Bytes) :
    pieces (text ++ byte :: rest) = pieces text ++ pieces (byte :: rest) := by
  induction hlength : text.length using Nat.strong_induction_on generalizing text with
  | _ length ih =>
  cases text with
  | nil => rfl
  | cons first more =>
      by_cases hstart : ∃ count, isRune ((first :: more).take count) = true
      · obtain ⟨count, hrune⟩ := hstart
        have hshorter : ((first :: more).drop count).length < length := by
          cases count with
          | zero => cases hrune
          | succ count =>
              rw [List.length_drop, ← hlength, List.length_cons]
              omega
        have hrest := ih _ hshorter ((first :: more).drop count) rfl
        rw [← List.take_append_drop count (first :: more), List.append_assoc,
          pieces_rune_append hrune, pieces_rune_append hrune, hrest]
        rfl
      · have hnone : ∀ count, isRune ((first :: more).take count) = false := by simpa using hstart
        have hnone' : ∀ count, isRune ((first :: (more ++ byte :: rest)).take count) = false := by
          intro count
          rw [← List.cons_append, List.take_append]
          cases hbeyond : count - (first :: more).length with
          | zero =>
              rw [List.take_zero, List.append_nil]
              exact hnone count
          | succ beyond =>
              rw [List.take_of_length_le (by omega), Bool.eq_false_iff]
              intro hrune
              have hmem : byte ∈ first :: more ++ (byte :: rest).take (beyond + 1) := by simp
              have := length_of_ascii_mem hrune hmem hascii
              simp at this
        have hmore := ih more.length (by simp [← hlength]) more rfl
        rw [List.cons_append, pieces_stray hnone', pieces_stray hnone, hmore]
        rfl

theorem pieces_of_ascii_append {text : Bytes} (hascii : ∀ byte ∈ text, byte < 0x80)
    (rest : Bytes) :
    pieces (text ++ rest) = (text.map fun byte => .rune [byte]) ++ pieces rest := by
  induction text with
  | nil => rfl
  | cons byte text ih =>
      have hrune : isRune [byte] = true := decide_eq_true (hascii byte List.mem_cons_self)
      have hrest := ih fun other hother => hascii other (List.mem_cons_of_mem _ hother)
      rw [List.cons_append, ← List.singleton_append, pieces_rune_append hrune, hrest]
      rfl

/-- Every rune piece is the encoding of a rune. -/
theorem isRune_of_mem_pieces {text bytes : Bytes} (hmem : .rune bytes ∈ pieces text) :
    isRune bytes = true := by
  fun_induction pieces text <;> simp_all [isRune] <;> grind [isRune]

/-- The pieces put together again are the text. -/
theorem flatMap_bytes_pieces (text : Bytes) : (pieces text).flatMap Piece.bytes = text := by
  fun_induction pieces text <;> simp_all [Piece.bytes]

theorem valid_nil : valid [] = true := rfl

/-- Validity of a text that starts with a rune is validity of the rest. -/
theorem valid_rune_append {bytes : Bytes} (hrune : isRune bytes = true) (rest : Bytes) :
    valid (bytes ++ rest) = valid rest := by
  simp [valid, pieces_rune_append hrune, Piece.isStray]

theorem sanitize_rune_append {bytes : Bytes} (hrune : isRune bytes = true) (rest : Bytes) :
    sanitize (bytes ++ rest) = bytes ++ sanitize rest := by
  simp [sanitize, pieces_rune_append hrune]

/-- Valid texts are built from runes, so properties of them are proved rune by
rune. -/
theorem valid_induction {motive : Bytes → Prop} (hnil : motive [])
    (hrune : ∀ bytes rest, isRune bytes = true → valid rest = true → motive rest →
      motive (bytes ++ rest))
    (text : Bytes) (hvalid : valid text = true) : motive text := by
  have hgeneral : ∀ list : List Piece, (∀ piece ∈ list, ∃ bytes, piece = .rune bytes ∧
      isRune bytes = true) → valid (list.flatMap Piece.bytes) = true ∧
        motive (list.flatMap Piece.bytes) := by
    intro list
    induction list with
    | nil => exact fun _ => ⟨rfl, hnil⟩
    | cons piece list ih =>
        intro hpieces
        obtain ⟨bytes, rfl, hbytes⟩ := hpieces piece List.mem_cons_self
        obtain ⟨hvalidRest, hmotiveRest⟩ := ih fun other hother =>
          hpieces other (List.mem_cons_of_mem _ hother)
        simp only [List.flatMap_cons, Piece.bytes]
        rw [valid_rune_append hbytes]
        exact ⟨hvalidRest, hrune bytes _ hbytes hvalidRest hmotiveRest⟩
  rw [← flatMap_bytes_pieces text]
  refine (hgeneral (pieces text) ?_).2
  intro piece hpiece
  cases piece with
  | rune bytes => exact ⟨bytes, rfl, isRune_of_mem_pieces hpiece⟩
  | stray byte =>
      have := (List.all_eq_true.mp hvalid) _ hpiece
      simp [Piece.isStray] at this

theorem valid_append {text : Bytes} (hvalid : valid text = true) (more : Bytes) :
    valid (text ++ more) = valid more := by
  apply valid_induction (motive := fun text => valid (text ++ more) = valid more) _ _ text hvalid
  · rfl
  · intro bytes rest hrune _ ih
    rw [List.append_assoc, valid_rune_append hrune, ih]

theorem sanitize_of_valid {text : Bytes} (hvalid : valid text = true) : sanitize text = text := by
  apply valid_induction (motive := fun text => sanitize text = text) _ _ text hvalid
  · rfl
  · intro bytes rest hrune _ ih
    rw [sanitize_rune_append hrune, ih]

theorem valid_of_ascii {text : Bytes} (hascii : ∀ byte ∈ text, byte < 0x80) :
    valid text = true := by
  induction text with
  | nil => rfl
  | cons byte text ih =>
      have hrune : isRune [byte] = true := by simpa [isRune] using hascii byte List.mem_cons_self
      have hrest := ih fun other hother => hascii other (List.mem_cons_of_mem _ hother)
      rw [← List.singleton_append, valid_rune_append hrune, hrest]

end SecurePastebin.Utf8
