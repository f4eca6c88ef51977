import SecurePastebin.Core.Json

/-!
# The encoder's text is valid

Whatever bytes a string has, the encoder writes valid UTF-8: runes stand for
themselves or are escaped, and a stray byte is written as an escape.
-/

namespace SecurePastebin.Json

open Text Utf8

theorem valid_flatMap {Item : Type} {list : List Item} {write : Item → Bytes}
    (hwrite : ∀ item ∈ list, valid (write item) = true) : valid (list.flatMap write) = true := by
  induction list with
  | nil => rfl
  | cons item list ih =>
      rw [List.flatMap_cons, valid_append (hwrite item List.mem_cons_self)]
      exact ih fun other hother => hwrite other (List.mem_cons_of_mem _ hother)

theorem valid_cons {byte : UInt8} (hascii : byte < 0x80) (rest : Bytes) :
    valid (byte :: rest) = valid rest := by
  have hrune : isRune [byte] = true := decide_eq_true hascii
  rw [← List.singleton_append, valid_rune_append hrune]

theorem valid_quoteByte : ∀ byte : UInt8, byte < 0x80 → valid (quoteByte byte) = true := by
  decide +kernel

theorem valid_quoteRune {rune : Bytes} (hrune : isRune rune = true) :
    valid (quoteRune rune) = true := by
  have hself : valid rune = true := by
    have hvalid := valid_rune_append hrune []
    rwa [List.append_nil] at hvalid
  unfold quoteRune
  split
  · exact valid_quoteByte _ (of_decide_eq_true hrune)
  · split_ifs
    · decide
    · decide
    · exact hself

theorem valid_quote (text : Bytes) : valid (quote text) = true := by
  have hbody : valid (quoteBody text) = true := by
    refine valid_flatMap fun piece hpiece => ?_
    cases piece with
    | rune bytes => exact valid_quoteRune (isRune_of_mem_pieces hpiece)
    | stray byte =>
        have hescape : valid (ascii "\\ufffd") = true := by decide
        exact hescape
  rw [quote, valid_cons (by decide), valid_append hbody]
  decide

theorem valid_formatInt (value : ℤ) : valid (formatInt value) = true := by
  have hdigit : ∀ byte : UInt8, isDigit byte = true → byte < 0x80 := by decide +kernel
  have hdigits : valid (padded 1 value.natAbs) = true :=
    valid_of_ascii fun byte hbyte => hdigit byte (isDigit_of_mem_padded hbyte)
  rw [formatInt, appendInt]
  split_ifs
  · rwa [valid_cons (by decide)]
  · exact hdigits

theorem valid_renderItems {items : List Value}
    (hitems : ∀ item ∈ items, valid (render item) = true) : valid (renderItems items) = true := by
  induction items with
  | nil => rfl
  | cons item items ih =>
      have hitem := hitems item List.mem_cons_self
      cases items with
      | nil => exact hitem
      | cons next items =>
          rw [renderItems, valid_append hitem, valid_cons (by decide)]
          · exact ih fun other hother => hitems other (List.mem_cons_of_mem _ hother)
          · simp

theorem valid_renderMembers {members : List (Bytes × Value)}
    (hmembers : ∀ member ∈ members, valid (render member.2) = true) :
    valid (renderMembers members) = true := by
  induction members with
  | nil => rfl
  | cons member members ih =>
      obtain ⟨key, value⟩ := member
      have hvalue := hmembers (key, value) List.mem_cons_self
      cases members with
      | nil =>
          rw [renderMembers, valid_append (valid_quote key), valid_cons (by decide)]
          exact hvalue
      | cons next members =>
          rw [renderMembers, valid_append (valid_quote key), valid_cons (by decide),
            valid_append hvalue, valid_cons (by decide)]
          · exact ih fun other hother => hmembers other (List.mem_cons_of_mem _ hother)
          · simp

/-- What the encoder writes is valid UTF-8. -/
theorem valid_render {value : Value} (hvalue : Readable value) : valid (render value) = true := by
  induction hvalue with
  | null => decide
  | bool value => cases value <;> decide
  | number value => exact valid_formatInt value
  | string _ => exact valid_quote _
  | array _ ih =>
      rw [render, valid_cons (by decide), valid_append (valid_renderItems ih)]
      decide
  | object _ _ ih =>
      rw [render, valid_cons (by decide), valid_append (valid_renderMembers ih)]
      decide

end SecurePastebin.Json
