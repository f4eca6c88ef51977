import SecurePastebin.Config.Numbers
import SecurePastebin.Crypto.Envelope
import SecurePastebin.Paste.Verification

/-!
# Master keys, as they are written and as they are used

The text of the master keys is divided at its commas, every part is trimmed, and
what is not empty is read as an identifier, a colon and the key in base64.  What
is accepted is exactly what is written, entry by entry, and it is a keyring that
`NewEnvelope` accepts together with the rest of the configuration.
-/

namespace SecurePastebin.Configuration

open Text Utf8 Base64
open Paste (trimSpace isSpacePiece IsSpace trimSpace_between)
open Crypto (Argon2Params Envelope newEnvelope newEnvelope_fields
  validateArgon2Params)

/-! ## The parts of the text -/

/-- What the loop does not skip. -/
def entries (parts : List Bytes) : List Bytes := (parts.map trimSpace).filter (· ≠ [])

/-- `part` is an entry for `pair`. -/
structure Reads (part : Bytes) (pair : Bytes × Bytes) : Prop where
  cut : ∃ text, cutColon part = some (pair.1, text) ∧ decode stdEncoding text = some pair.2
  id_ne_nil : pair.1 ≠ []
  length_key : pair.2.length = 32

theorem entries_cons (part : Bytes) (parts : List Bytes) :
    entries (part :: parts) =
      if trimSpace part = [] then entries parts else trimSpace part :: entries parts := by
  by_cases hempty : trimSpace part = [] <;> simp [entries, hempty]

/-- One pass of the loop over an entry. -/
theorem parseMasterKeyEntries_cons_iff {keys : Keyring} {first part : Bytes} {parts : List Bytes}
    {result : Keyring × Bytes} (hentry : trimSpace part ≠ []) :
    parseMasterKeyEntries keys first (part :: parts) = .ok result ↔
      ∃ pair, Reads (trimSpace part) pair ∧ pair.1 ∉ keys.map Prod.fst ∧
        parseMasterKeyEntries (keys ++ [pair]) (if first = [] then pair.1 else first) parts =
          .ok result := by
  have hknown : ∀ id : Bytes, keys.any (·.1 = id) = true ↔ id ∈ keys.map Prod.fst := by simp
  rw [parseMasterKeyEntries]
  simp only [hentry, if_false]
  constructor
  · intro hresult
    split at hresult
    · cases hresult
    · rename_i id text hcut
      by_cases hid : id = []
      · rw [if_pos hid] at hresult
        cases hresult
      rw [if_neg hid] at hresult
      split at hresult
      · cases hresult
      · rename_i key hdecode
        by_cases hlength : key.length ≠ 32
        · rw [if_pos hlength] at hresult
          cases hresult
        rw [if_neg hlength] at hresult
        split at hresult
        · cases hresult
        · rename_i hduplicate
          exact ⟨(id, key), ⟨⟨text, hcut, hdecode⟩, hid, not_not.mp hlength⟩,
            fun hmem => hduplicate ((hknown id).mpr hmem), hresult⟩
  · rintro ⟨⟨id, key⟩, ⟨⟨text, hcut, hdecode⟩, hid, hlength⟩, hfresh, hresult⟩
    rw [hcut]
    dsimp only at hdecode hid hlength hfresh ⊢
    rw [if_neg hid, hdecode]
    dsimp only
    rw [if_neg (not_not.mpr hlength), if_neg (hfresh ∘ (hknown id).mp)]
    exact hresult

private theorem nodup_snoc {keys : Keyring} {pair : Bytes × Bytes}
    (hkeys : (keys.map Prod.fst).Nodup) (hfresh : pair.1 ∉ keys.map Prod.fst) :
    ((keys ++ [pair]).map Prod.fst).Nodup := by
  rw [List.map_append]
  exact List.nodup_append.mpr ⟨hkeys, List.nodup_singleton _,
    fun id hid other hother heq => hfresh (by simp_all)⟩

/-- The identifier of the first key. -/
def firstId (keys : Keyring) : Bytes := (keys.map Prod.fst).headD []

/-- The loop succeeds if every entry is read and no identifier comes back; what it
remembers is the identifier of the first key. -/
theorem parseMasterKeyEntries_eq_ok_iff {keys result : Keyring} {first active : Bytes}
    {parts : List Bytes} (hkeys : (keys.map Prod.fst).Nodup) :
    parseMasterKeyEntries keys first parts = .ok (result, active) ↔
      ∃ pairs, List.Forall₂ Reads (entries parts) pairs ∧ result = keys ++ pairs ∧
        (result.map Prod.fst).Nodup ∧ active = if first = [] then firstId pairs else first := by
  induction parts generalizing keys first with
  | nil =>
      rw [parseMasterKeyEntries]
      constructor
      · intro hresult
        cases hresult
        refine ⟨[], .nil, (List.append_nil _).symm, hkeys, ?_⟩
        split_ifs with hnone
        · exact hnone
        · rfl
      · rintro ⟨pairs, hpairs, rfl, -, rfl⟩
        cases hpairs
        rw [List.append_nil]
        split_ifs with hnone
        · rw [hnone]
          rfl
        · rfl
  | cons part parts ih =>
      by_cases hempty : trimSpace part = []
      · rw [parseMasterKeyEntries, entries_cons, if_pos hempty]
        simpa only [hempty, if_true] using ih hkeys
      · rw [parseMasterKeyEntries_cons_iff hempty, entries_cons, if_neg hempty]
        -- with this entry there is a first key
        have hfirst : ∀ {pair : Bytes × Bytes} {pairs : Keyring}, Reads (trimSpace part) pair →
            (if (if first = [] then pair.1 else first) = [] then firstId pairs
              else if first = [] then pair.1 else first) =
              if first = [] then firstId (pair :: pairs) else first := by
          intro pair pairs hreads
          by_cases hnone : first = []
          · rw [if_pos hnone, if_pos hnone, if_neg hreads.id_ne_nil]
            rfl
          · rw [if_neg hnone, if_neg hnone, if_neg hnone]
        constructor
        · rintro ⟨pair, hreads, hfresh, hresult⟩
          have hkeys' : ((keys ++ [pair]).map Prod.fst).Nodup := nodup_snoc hkeys hfresh
          obtain ⟨pairs, hpairs, rfl, hnodup, rfl⟩ := (ih hkeys').mp hresult
          exact ⟨pair :: pairs, .cons hreads hpairs, (List.append_cons keys pair pairs).symm,
            hnodup, hfirst hreads⟩
        · rintro ⟨_, hall, rfl, hnodup, rfl⟩
          cases hall with
          | @cons _ pair _ pairs hreads hpairs =>
          have hsplit := List.append_cons keys pair pairs
          have hkeys' : ((keys ++ [pair]).map Prod.fst).Nodup := by
            rw [hsplit, List.map_append] at hnodup
            exact hnodup.of_append_left
          refine ⟨pair, hreads, ?_,
            (ih hkeys').mpr ⟨pairs, hpairs, hsplit, hnodup, (hfirst hreads).symm⟩⟩
          rw [List.map_append] at hkeys'
          exact fun hmem => List.disjoint_of_nodup_append hkeys' hmem (List.mem_singleton_self _)

theorem parseMasterKeys_eq_ok_iff {text first : Bytes} {keys : Keyring} :
    parseMasterKeys text = .ok (keys, first) ↔
      List.Forall₂ Reads (entries (text.splitOn 44)) keys ∧ (keys.map Prod.fst).Nodup ∧
        keys ≠ [] ∧ first = firstId keys := by
  have hloop : parseMasterKeys text = .ok (keys, first) ↔
      parseMasterKeyEntries [] [] (text.splitOn 44) = .ok (keys, first) ∧ keys ≠ [] := by
    rw [parseMasterKeys]
    rcases parseMasterKeyEntries [] [] (text.splitOn 44) with problem | ⟨_ | ⟨pair, found⟩, active⟩ <;>
      grind
  have hnil : (([] : Keyring).map Prod.fst).Nodup := List.nodup_nil
  rw [hloop, parseMasterKeyEntries_eq_ok_iff hnil]
  constructor
  · rintro ⟨⟨pairs, hpairs, rfl, hnodup, rfl⟩, hne⟩
    exact ⟨hpairs, hnodup, hne, rfl⟩
  · rintro ⟨hpairs, hnodup, hne, rfl⟩
    exact ⟨⟨keys, hpairs, rfl, hnodup, rfl⟩, hne⟩

/-! ## What is written is read -/

/-- An identifier that can be written. -/
structure IsKeyId (id : Bytes) : Prop where
  ne_nil : id ≠ []
  no_comma : 44 ∉ id
  no_colon : 58 ∉ id
  starts_visible : ∀ piece ∈ (pieces id).head?, isSpacePiece piece = false

/-- The keys in turn, each with white space around it, and empty entries between
them. -/
inductive Layout : Keyring → List Bytes → Prop
  | nil : Layout [] []
  | blank {keys : Keyring} {parts : List Bytes} {space : Bytes} (hspace : IsSpace space)
      (hrest : Layout keys parts) : Layout keys (space :: parts)
  | entry {keys : Keyring} {parts : List Bytes} {before after id key : Bytes}
      (hbefore : IsSpace before) (hafter : IsSpace after) (hrest : Layout keys parts) :
      Layout ((id, key) :: keys)
        ((before ++ (id ++ 58 :: encode stdEncoding key) ++ after) :: parts)

/-- Base64 has neither commas nor white space. -/
theorem visible_of_mem_encode {key : Bytes} {byte : UInt8}
    (hbyte : byte ∈ encode stdEncoding key) :
    byte ≠ 44 ∧ byte < 0x80 ∧ isSpacePiece (.rune [byte]) = false := by
  have hsymbols : ∀ value < 64, symbol stdEncoding value ≠ 44 ∧ symbol stdEncoding value < 0x80 ∧
      isSpacePiece (.rune [symbol stdEncoding value]) = false := by decide
  rcases mem_encode hbyte with ⟨value, hvalue, rfl⟩ | rfl
  · exact hsymbols value hvalue
  · decide

theorem comma_notMem_of_isSpace {space : Bytes} (hspace : IsSpace space) : 44 ∉ space := by
  obtain ⟨runes, hrunes, rfl⟩ := hspace
  intro hmem
  obtain ⟨rune, hrune, hcomma⟩ := List.mem_flatten.mp hmem
  obtain ⟨hvalid, hpiece⟩ := hrunes rune hrune
  have hlength := length_of_ascii_mem hvalid hcomma (by decide)
  obtain ⟨byte, rfl⟩ := List.length_eq_one_iff.mp hlength
  rw [← List.mem_singleton.mp hcomma] at hpiece
  exact absurd hpiece (by decide)

theorem cutColon_append {id : Bytes} (hcolon : 58 ∉ id) (text : Bytes) :
    cutColon (id ++ 58 :: text) = some (id, text) := by
  have hall : ∀ byte ∈ id, decide (byte ≠ 58) = true :=
    fun byte hbyte => decide_eq_true fun heq => hcolon (heq ▸ hbyte)
  rw [cutColon, List.dropWhile_append_of_pos hall, List.takeWhile_append_of_pos hall]
  simp

variable {id key : Bytes}

theorem trimSpace_entry (hid : IsKeyId id) {before after : Bytes} (hbefore : IsSpace before)
    (hafter : IsSpace after) :
    trimSpace (before ++ (id ++ 58 :: encode stdEncoding key) ++ after) =
      id ++ 58 :: encode stdEncoding key := by
  have hvisible : ∀ byte ∈ 58 :: encode stdEncoding key,
      byte < 0x80 ∧ isSpacePiece (.rune [byte]) = false := by
    intro byte hbyte
    rcases List.mem_cons.mp hbyte with rfl | hbyte
    · decide
    · exact (visible_of_mem_encode hbyte).2
  have hpieces : ∀ rest, pieces (id ++ 58 :: encode stdEncoding key ++ rest) =
      pieces id ++ ((58 :: encode stdEncoding key).map fun byte => .rune [byte]) ++
        pieces rest := by
    intro rest
    rw [List.append_assoc, List.cons_append, pieces_append_ascii id (by decide), ← List.cons_append,
      pieces_of_ascii_append fun byte hbyte => (hvisible byte hbyte).1, List.append_assoc]
  have hentry := hpieces []
  rw [List.append_nil, pieces, List.append_nil] at hentry
  refine trimSpace_between hbefore hafter ?_ ?_ ?_
  · rw [hpieces after, hentry]
  · intro piece hpiece
    have hne : pieces id ≠ [] := by
      intro hnil
      have hbytes := flatMap_bytes_pieces id
      rw [hnil] at hbytes
      exact hid.ne_nil hbytes.symm
    rw [hentry, List.head?_append_of_ne_nil _ hne] at hpiece
    exact hid.starts_visible piece hpiece
  · intro piece hpiece
    rw [hentry, List.getLast?_append_of_ne_nil _ (by simp), List.getLast?_map] at hpiece
    obtain ⟨byte, hbyte, rfl⟩ := Option.mem_map.mp hpiece
    exact (hvisible byte (List.mem_of_mem_getLast? hbyte)).2

theorem trimSpace_of_isSpace {space : Bytes} (hspace : IsSpace space) : trimSpace space = [] := by
  have hnil : IsSpace [] := ⟨[], by simp⟩
  have hnone : ∀ piece ∈ (none : Option Piece), isSpacePiece piece = false := by simp
  have htrim : trimSpace (space ++ [] ++ []) = [] := trimSpace_between hspace hnil rfl hnone hnone
  rwa [List.append_nil, List.append_nil] at htrim

/-- What can be in a keyring. -/
def IsKey (pair : Bytes × Bytes) : Prop := IsKeyId pair.1 ∧ pair.2.length = 32

variable {keys : Keyring} {parts : List Bytes}

/-- Every key is the next entry, and nothing else is an entry. -/
theorem Layout.reads (hlayout : Layout keys parts) (hkeys : ∀ pair ∈ keys, IsKey pair) :
    List.Forall₂ Reads (entries parts) keys := by
  induction hlayout with
  | nil => exact .nil
  | blank hspace _ ih =>
      rw [entries_cons, if_pos (trimSpace_of_isSpace hspace)]
      exact ih hkeys
  | @entry keys parts before after id key hbefore hafter _ ih =>
      obtain ⟨hid, hlength⟩ := hkeys (id, key) List.mem_cons_self
      rw [entries_cons, trimSpace_entry hid hbefore hafter, if_neg (by simp)]
      refine .cons ⟨⟨encode stdEncoding key, cutColon_append hid.no_colon _, ?_⟩, hid.ne_nil,
        hlength⟩ (ih fun pair hpair => hkeys pair (List.mem_cons_of_mem _ hpair))
      exact decode_encode stdEncoding_valid key

theorem Layout.comma_notMem (hlayout : Layout keys parts) (hkeys : ∀ pair ∈ keys, IsKey pair) :
    ∀ part ∈ parts, 44 ∉ part := by
  induction hlayout with
  | nil => exact fun _ hpart => absurd hpart List.not_mem_nil
  | blank hspace _ ih =>
      exact List.forall_mem_cons.mpr ⟨comma_notMem_of_isSpace hspace, ih hkeys⟩
  | @entry keys parts before after id key hbefore hafter _ ih =>
      obtain ⟨hid, -⟩ := hkeys (id, key) List.mem_cons_self
      refine List.forall_mem_cons.mpr
        ⟨?_, ih fun pair hpair => hkeys pair (List.mem_cons_of_mem _ hpair)⟩
      have hkey : 44 ∉ encode stdEncoding key := fun hmem => (visible_of_mem_encode hmem).1 rfl
      simp [comma_notMem_of_isSpace hbefore, comma_notMem_of_isSpace hafter, hid.no_comma, hkey]

theorem parseMasterKeys_of_layout (hlayout : Layout keys parts)
    (hkeys : ∀ pair ∈ keys, IsKey pair) (hnodup : (keys.map Prod.fst).Nodup) (hne : keys ≠ []) :
    parseMasterKeys ([44].intercalate parts) = .ok (keys, firstId keys) := by
  have hparts : parts ≠ [] := by
    rintro rfl
    cases hlayout
    exact hne rfl
  rw [parseMasterKeys_eq_ok_iff, List.splitOn_intercalate 44 (hlayout.comma_notMem hkeys) hparts]
  exact ⟨hlayout.reads hkeys, hnodup, hne, rfl⟩

/-! ## What is read is usable -/

/-- The identifiers in a text, one for each entry with a colon. -/
def writtenIds (text : Bytes) : List Bytes :=
  (entries (text.splitOn 44)).filterMap fun part => (cutColon part).map Prod.fst

theorem writtenIds_of_reads (hreads : List.Forall₂ Reads parts keys) :
    (parts.filterMap fun part => (cutColon part).map Prod.fst) = keys.map Prod.fst := by
  induction hreads with
  | nil => rfl
  | cons hread _ ih =>
      obtain ⟨⟨text, hcut, -⟩, -, -⟩ := hread
      rw [List.filterMap_cons, hcut, List.map_cons, ← ih]
      rfl

theorem nodup_writtenIds {text first : Bytes} (hparse : parseMasterKeys text = .ok (keys, first)) :
    (writtenIds text).Nodup := by
  obtain ⟨hreads, hnodup, -⟩ := parseMasterKeys_eq_ok_iff.mp hparse
  rw [writtenIds, writtenIds_of_reads hreads]
  exact hnodup

theorem keys_valid {text first : Bytes} (hparse : parseMasterKeys text = .ok (keys, first)) :
    ∀ pair ∈ keys, pair.1 ≠ [] ∧ pair.2.length = 32 := by
  obtain ⟨hreads, -⟩ := parseMasterKeys_eq_ok_iff.mp hparse
  intro pair hpair
  obtain ⟨index, hindex, rfl⟩ := List.getElem_of_mem hpair
  have hread := hreads.get (by rwa [hreads.length_eq]) hindex
  exact ⟨hread.id_ne_nil, hread.length_key⟩

theorem firstId_mem (hne : keys ≠ []) : firstId keys ∈ keys.map Prod.fst := by
  cases keys with
  | nil => exact absurd rfl hne
  | cons pair keys => exact List.mem_cons_self

variable {env : Environment} {c : Config}

theorem masterKeys_of_load (hload : load env = .ok c) :
    (∃ text first, parseMasterKeys text = .ok (c.masterKeys, first)) ∧
      c.masterKeyActive ∈ c.masterKeys.map Prod.fst := by
  obtain ⟨hnone, rfl⟩ := load_eq_ok env hload
  rw [Environment.problems, List.flatten_eq_nil_iff] at hnone
  have herrs : env.masterKeys.errs = [] := hnone _ (by simp)
  simp only [Environment.config]
  unfold Environment.masterKeys at herrs ⊢
  dsimp only at herrs ⊢
  split_ifs at herrs ⊢ with hsecret hempty
  · exact absurd herrs hsecret
  · split at herrs
    · cases herrs
    · rename_i keys first hparse
      refine ⟨⟨_, first, hparse⟩, ?_⟩
      simp only [problem, ite_eq_right_iff, reduceCtorEq, imp_false] at herrs
      simpa using herrs

/-- `ParamsFromConfig`. -/
def paramsFromConfig (c : Argon2Config) : Argon2Params :=
  ⟨c.time.toUInt32, c.memoryKiB.toUInt32, c.threads.toUInt8⟩

theorem validate_of_load (hload : load env = .ok c) :
    validateArgon2Params (paramsFromConfig c.argon2) = .ok () := by
  obtain ⟨-, hargon, -, heq⟩ := converted_of_load hload
  rw [heq]
  simp only [Environment.argon2, List.append_eq_nil_iff] at hargon ⊢
  obtain ⟨-, hproblem⟩ := hargon
  simp only [problem, ite_eq_right_iff, reduceCtorEq, imp_false, Bool.not_eq_true,
    Bool.or_eq_false_iff, decide_eq_false_iff_not] at hproblem
  have hlt : ((env.intv "ARGON2_MEMORY_KIB" 32768).value % 2 ^ 32).toNat < 2 ^ 32 := by omega
  generalize ((env.intv "ARGON2_MEMORY_KIB" 32768).value % 2 ^ 32).toNat = memoryKiB at *
  have hkept : memoryKiB.toUInt32.toNat = memoryKiB := UInt32.toNat_ofNat_of_lt' hlt
  have hmemory : ¬ memoryKiB.toUInt32 < 16 := by
    rw [UInt32.lt_iff_toNat_lt, hkept]
    have hsixteen : (16 : UInt32).toNat = 16 := rfl
    omega
  have hzero : memoryKiB.toUInt32 ≠ 0 := by
    intro hzero
    rw [hzero] at hmemory
    exact hmemory (by decide)
  unfold validateArgon2Params paramsFromConfig
  rw [if_neg, if_neg]
  · exact hmemory
  · simpa using hzero

theorem newEnvelope_of_load (hload : load env = .ok c) :
    ∃ E, newEnvelope c.masterKeys c.masterKeyActive true (paramsFromConfig c.argon2) = .ok E := by
  obtain ⟨⟨text, first, hparse⟩, hactive⟩ := masterKeys_of_load hload
  have hvalid := keys_valid hparse
  have hlookup : (c.masterKeys.lookup c.masterKeyActive).isSome := by
    obtain ⟨pair, hpair, heq⟩ := List.mem_map.mp hactive
    exact List.lookup_isSome_iff.mpr ⟨pair, hpair, beq_iff_eq.mpr heq.symm⟩
  have hne : c.masterKeyActive ≠ [] := by
    obtain ⟨pair, hpair, heq⟩ := List.mem_map.mp hactive
    exact heq ▸ (hvalid pair hpair).1
  exact ⟨_, newEnvelope_fields ⟨c.masterKeys, c.masterKeyActive, paramsFromConfig c.argon2, hne,
    hvalid, hlookup, validate_of_load hload⟩⟩

/-- Keys that are written in any layout are read back, with the first identifier;
what is accepted are keys of 32 bytes under distinct identifiers that are not
empty, the first one among them; a text with a repeated identifier is refused;
and an accepted configuration makes an envelope. -/
theorem masterKeys_faithful :
    (∀ (keys : Keyring) (parts : List Bytes), Layout keys parts → (∀ pair ∈ keys, IsKey pair) →
        (keys.map Prod.fst).Nodup → ∀ hne : keys ≠ [],
        parseMasterKeys ([44].intercalate parts) = .ok (keys, (keys.head hne).1)) ∧
      (∀ (text : Bytes) (keys : Keyring) (first : Bytes), parseMasterKeys text = .ok (keys, first) →
        (∀ pair ∈ keys, pair.1 ≠ [] ∧ pair.2.length = 32) ∧ (keys.map Prod.fst).Nodup ∧
          first ∈ keys.map Prod.fst) ∧
      (∀ text : Bytes, ¬ (writtenIds text).Nodup →
        ∃ problem, parseMasterKeys text = .error problem) ∧
      ∀ (env : Environment) (c : Config), load env = .ok c →
        ∃ E, newEnvelope c.masterKeys c.masterKeyActive true (paramsFromConfig c.argon2) =
          .ok E := by
  refine ⟨?_, ?_, ?_, fun env c hload => newEnvelope_of_load hload⟩
  · intro keys parts hlayout hkeys hnodup hne
    rw [parseMasterKeys_of_layout hlayout hkeys hnodup hne]
    cases keys with
    | nil => exact absurd rfl hne
    | cons pair keys => rfl
  · intro text keys first hread
    obtain ⟨-, hnodup, hne, rfl⟩ := parseMasterKeys_eq_ok_iff.mp hread
    exact ⟨keys_valid hread, hnodup, firstId_mem hne⟩
  · intro text hrepeated
    rcases hread : parseMasterKeys text with problem | ⟨keys, first⟩
    · exact ⟨problem, rfl⟩
    · exact absurd (nodup_writtenIds hread) hrepeated

namespace Sample

/-- Two keys, with white space around the first and an empty entry between them. -/
def keyParts : List Bytes :=
  [[32, 9] ++ (ascii "new" ++ 58 :: encode stdEncoding (List.replicate 32 7)) ++ [32], [],
    [] ++ (ascii "old" ++ 58 :: encode stdEncoding (List.replicate 32 8)) ++ []]

def writtenKeys : Keyring :=
  [(ascii "new", List.replicate 32 7), (ascii "old", List.replicate 32 8)]

theorem layout_keyParts : Layout writtenKeys keyParts := by
  have hnil : IsSpace [] := ⟨[], by simp⟩
  have hbefore : IsSpace [32, 9] := ⟨[[32], [9]], by decide, rfl⟩
  have hafter : IsSpace [32] := ⟨[[32]], by decide, rfl⟩
  exact .entry hbefore hafter (.blank hnil (.entry hnil hnil .nil))

theorem isKey_writtenKeys : ∀ pair ∈ writtenKeys, IsKey pair := by
  have hvisible : ∀ id : Bytes, (∀ piece ∈ (pieces id).head?.toList, isSpacePiece piece = false) →
      ∀ piece ∈ (pieces id).head?, isSpacePiece piece = false :=
    fun id hall piece hpiece => hall piece (Option.mem_toList.mpr hpiece)
  refine List.forall_mem_cons.mpr ⟨⟨⟨by decide, by decide, by decide, hvisible _ (by decide)⟩, rfl⟩,
    List.forall_mem_cons.mpr ⟨⟨⟨by decide, by decide, by decide, hvisible _ (by decide)⟩, rfl⟩, ?_⟩⟩
  simp

end Sample

theorem masterKeys_faithful_sample :
    parseMasterKeys ([44].intercalate Sample.keyParts) = .ok (Sample.writtenKeys, ascii "new") ∧
      ∃ E, newEnvelope Sample.fitting.config.masterKeys Sample.fitting.config.masterKeyActive true
        (paramsFromConfig Sample.fitting.config.argon2) = .ok E := by
  obtain ⟨hlayout, -, -, hload⟩ := masterKeys_faithful
  exact ⟨hlayout _ _ Sample.layout_keyParts Sample.isKey_writtenKeys (by decide)
    (List.cons_ne_nil _ _), hload _ _ Sample.load_fitting⟩

end SecurePastebin.Configuration
