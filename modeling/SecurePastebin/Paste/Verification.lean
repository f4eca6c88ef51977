import SecurePastebin.Paste.Service

/-!
# What a verification compares

A digest is written in lowercase hexadecimal; a presented one may use either case
and stand between white space.  Canonical texts differ exactly if the contents
differ after their byte order marks.
-/

namespace SecurePastebin.Paste

open Text Uuid Utf8 Process

/-! ## Canonical texts -/

theorem canonicalize_eq_append {content canonical : Bytes} {maxSize : ℤ}
    (hok : canonicalize content maxSize = .ok canonical) : canonical = BOM ++ stripBOM content := by
  have hshape : (if !hasBOM content then BOM ++ content else content) = BOM ++ stripBOM content := by
    cases hbom : hasBOM content with
    | false => simp [stripBOM, hbom]
    | true =>
        simp only [Bool.not_true, Bool.false_eq_true, ↓reduceIte, stripBOM, hbom]
        exact (List.prefix_iff_eq_append.mp (List.isPrefixOf_iff_prefix.mp hbom)).symm
  unfold canonicalize at hok
  split at hok
  · cases hok
  · dsimp only at hok
    rw [hshape] at hok
    split at hok
    · cases hok
    · cases hok
      rfl

/-- Two accepted contents have one canonical text exactly if they agree after
their byte order marks. -/
theorem canonical_eq_iff {left right canonical canonical' : Bytes} {maxSize maxSize' : ℤ}
    (hleft : canonicalize left maxSize = .ok canonical)
    (hright : canonicalize right maxSize' = .ok canonical') :
    canonical = canonical' ↔ stripBOM left = stripBOM right := by
  rw [canonicalize_eq_append hleft, canonicalize_eq_append hright, List.append_cancel_left_eq]

/-! ## White space -/

/-- A text of white space only, rune by rune. -/
def IsSpace (text : Bytes) : Prop :=
  ∃ runes : List Bytes,
    (∀ rune ∈ runes, isRune rune = true ∧ isSpacePiece (.rune rune) = true) ∧ text = runes.flatten

theorem pieces_runes_append {runes : List Bytes} (hrunes : ∀ rune ∈ runes, isRune rune = true)
    (rest : Bytes) : pieces (runes.flatten ++ rest) = runes.map .rune ++ pieces rest := by
  induction runes with
  | nil => rfl
  | cons rune runes ih =>
      rw [List.flatten_cons, List.append_assoc,
        pieces_rune_append (hrunes rune List.mem_cons_self),
        ih fun found hfound => hrunes found (List.mem_cons_of_mem _ hfound)]
      rfl

theorem IsSpace.pieces {space : Bytes} (hspace : IsSpace space) :
    ∀ piece ∈ Utf8.pieces space, isSpacePiece piece = true := by
  obtain ⟨runes, hrunes, rfl⟩ := hspace
  intro piece hpiece
  rw [← List.append_nil runes.flatten,
    pieces_runes_append fun rune hrune => (hrunes rune hrune).1] at hpiece
  obtain ⟨rune, hrune, rfl⟩ := List.mem_map.mp (by simpa [Utf8.pieces] using hpiece)
  exact (hrunes rune hrune).2

private theorem dropWhile_of_head {list : List Piece}
    (hfirst : ∀ piece ∈ list.head?, isSpacePiece piece = false) :
    list.dropWhile isSpacePiece = list := by
  cases list with
  | nil => rfl
  | cons piece list => rw [List.dropWhile_cons_of_neg (by simp [hfirst piece rfl])]

private theorem dropWhile_visible {visible more : List Piece}
    (hfirst : ∀ piece ∈ visible.head?, isSpacePiece piece = false)
    (hlast : ∀ piece ∈ visible.getLast?, isSpacePiece piece = false)
    (hmore : ∀ piece ∈ more, isSpacePiece piece = true) :
    ((visible ++ more).dropWhile isSpacePiece).reverse.dropWhile isSpacePiece = visible.reverse := by
  cases visible with
  | nil =>
      rw [List.nil_append, List.dropWhile_eq_nil_iff.mpr hmore]
      rfl
  | cons piece visible =>
      have hhead : ∀ found ∈ (piece :: visible ++ more).head?, isSpacePiece found = false := hfirst
      rw [dropWhile_of_head hhead, List.reverse_append,
        List.dropWhile_append_of_pos fun found hfound => hmore found (List.mem_reverse.mp hfound)]
      refine dropWhile_of_head fun found hfound => hlast found ?_
      rwa [List.head?_reverse] at hfound

/-- Trimming takes off the white space around a text that neither begins nor
ends with any. -/
theorem trimSpace_between {before text after : Bytes} (hbefore : IsSpace before)
    (hafter : IsSpace after) (hsplit : pieces (text ++ after) = pieces text ++ pieces after)
    (hfirst : ∀ piece ∈ (pieces text).head?, isSpacePiece piece = false)
    (hlast : ∀ piece ∈ (pieces text).getLast?, isSpacePiece piece = false) :
    trimSpace (before ++ text ++ after) = text := by
  have hspace := hbefore.pieces
  obtain ⟨runes, hrunes, rfl⟩ := hbefore
  have hbefore : pieces runes.flatten = runes.map .rune := by
    have hpieces := pieces_runes_append (fun rune hrune => (hrunes rune hrune).1) []
    simpa [pieces] using hpieces
  have hpieces : pieces (runes.flatten ++ text ++ after) =
      pieces runes.flatten ++ (pieces text ++ pieces after) := by
    rw [List.append_assoc, pieces_runes_append fun rune hrune => (hrunes rune hrune).1, hsplit,
      hbefore]
  rw [trimSpace, hpieces, List.dropWhile_append_of_pos hspace,
    dropWhile_visible hfirst hlast hafter.pieces, List.reverse_reverse, flatMap_bytes_pieces]

/-- Trimming takes off the white space around a text of visible ASCII. -/
theorem trimSpace_surrounded {before text after : Bytes} (hbefore : IsSpace before)
    (hafter : IsSpace after)
    (hvisible : ∀ byte ∈ text, byte < 0x80 ∧ isSpacePiece (.rune [byte]) = false) :
    trimSpace (before ++ text ++ after) = text := by
  have hascii := pieces_of_ascii_append fun byte hbyte => (hvisible byte hbyte).1
  have hpieces : pieces text = text.map fun byte => .rune [byte] := by
    simpa [pieces] using hascii []
  have htext : ∀ piece ∈ pieces text, isSpacePiece piece = false := by
    intro piece hpiece
    rw [hpieces] at hpiece
    obtain ⟨byte, hbyte, rfl⟩ := List.mem_map.mp hpiece
    exact (hvisible byte hbyte).2
  refine trimSpace_between hbefore hafter ?_ ?_ ?_
  · rw [hascii, hpieces]
  · exact fun piece hpiece => htext piece (List.mem_of_mem_head? hpiece)
  · exact fun piece hpiece => htext piece (List.mem_of_mem_getLast? hpiece)

/-! ## Digests -/

theorem digit_of_mem_hexEncode {digit : UInt8} {bytes : Bytes} (hmem : digit ∈ hexEncode bytes) :
    ∃ value : UInt8, value < 16 ∧ digit = hexDigit value := by
  have hbound : ∀ byte : UInt8, byte / 16 < 16 ∧ byte % 16 < 16 := by decide +kernel
  obtain ⟨byte, -, hdigit⟩ := List.mem_flatMap.mp hmem
  rw [hexByte, List.mem_pair] at hdigit
  rcases hdigit with rfl | rfl
  · exact ⟨_, (hbound byte).1, rfl⟩
  · exact ⟨_, (hbound byte).2, rfl⟩

theorem map_lower_hexEncode (bytes : Bytes) : (hexEncode bytes).map lower = hexEncode bytes := by
  have hlower : ∀ value : UInt8, value < 16 → lower (hexDigit value) = hexDigit value := by
    decide +kernel
  rw [List.map_congr_left (g := id), List.map_id]
  intro digit hdigit
  obtain ⟨value, hvalue, rfl⟩ := digit_of_mem_hexEncode hdigit
  exact hlower value hvalue

/-- The digits of a digest, in either case, are visible ASCII. -/
theorem visible_of_map_lower {text bytes : Bytes} (htext : text.map lower = hexEncode bytes) :
    ∀ byte ∈ text, byte < 0x80 ∧ isSpacePiece (.rune [byte]) = false := by
  have hdigit : ∀ value : UInt8, value < 16 → (hexValue (hexDigit value)).isSome = true := by
    decide +kernel
  have hascii : ∀ byte : UInt8, (hexValue (lower byte)).isSome = true →
      byte < 0x80 ∧ isSpacePiece (.rune [byte]) = false := by decide +kernel
  intro byte hbyte
  have hmem : lower byte ∈ hexEncode bytes := htext ▸ List.mem_map_of_mem hbyte
  obtain ⟨value, hvalue, hlower⟩ := digit_of_mem_hexEncode hmem
  exact hascii byte (hlower ▸ hdigit value hvalue)

/-- A presented digest matches exactly if the digests are the same. -/
theorem equalFoldHex_surrounded_iff {sha256 : Bytes → Bytes}
    {before text after canonical canonical' : Bytes} (hbefore : IsSpace before)
    (hafter : IsSpace after) (htext : text.map lower = hashHex sha256 canonical) :
    equalFoldHex (trimSpace (before ++ text ++ after)) (hashHex sha256 canonical') = true ↔
      sha256 canonical = sha256 canonical' := by
  rw [trimSpace_surrounded hbefore hafter (visible_of_map_lower htext), equalFoldHex,
    decide_eq_true_eq, htext, hashHex, hashHex, map_lower_hexEncode]
  exact hexEncode_injective.eq_iff

variable {d : Deps} {id : UUID} {sha256hex : Bytes} {trace : List Step}

/-- A `Verify` returns the error of its lookup, or compares with the row it
found. -/
theorem verify_returned {value : Except Err VerifyResult}
    (hreach : (verify d id sha256hex).Reaches trace (.inr value)) :
    ∃ (found : Except Err PasteMeta) (tail : List Step), trace = ⟨.metasGet id, found⟩ :: tail ∧
      ((∃ err, found = .error err ∧ value = .error err) ∨
        ∃ m now, found = .ok m ∧ value =
          .ok ⟨equalFoldHex (trimSpace sha256hex) m.contentHash, m.status now, m⟩) := by
  unfold verify at hreach
  simp only [Proc.perform_bind, Proc.reaches_call_result] at hreach
  obtain ⟨found, tail, rfl, hreach⟩ := hreach
  refine ⟨found, tail, rfl, ?_⟩
  cases found with
  | error err =>
      cases hreach.2
      exact .inl ⟨err, rfl, rfl⟩
  | ok m =>
      simp only [Proc.reaches_call_result] at hreach
      obtain ⟨now, tail, rfl, hreach⟩ := hreach
      rcases Proc.reaches_bind.mp hreach with
        ⟨request, -, ⟨⟩⟩ | ⟨value, front, rest, rfl, -, -, hpoint⟩
      cases hpoint
      exact .inr ⟨m, now, rfl, rfl⟩

end SecurePastebin.Paste
