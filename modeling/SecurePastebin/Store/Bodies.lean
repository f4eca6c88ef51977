import SecurePastebin.Core.Base64
import SecurePastebin.Core.Json
import SecurePastebin.Core.Keyspace
import SecurePastebin.Paste.Types

/-!
# The body store

`internal/store/redis/body.go`: encrypted bodies as JSON under `paste:{id}`,
with native expiry.  The decoder is `json.Unmarshal` into `EncryptedBody`:
member names are compared up to case, unknown members are skipped, `null` leaves
a scalar alone, and a later member overwrites an earlier one.
-/

namespace SecurePastebin.Store.Bodies

open Text Uuid Calendar Utf8
open Paste

/-! ## The record as JSON -/

def wrapText : WrapMode → Bytes
  | .kek => ascii "kek"
  | .password => ascii "pw"
  | .other text => text

def wrapOfText (text : Bytes) : WrapMode :=
  if text = ascii "kek" then .kek
  else if text = ascii "pw" then .password
  else .other text

def bytesValue (bytes : Bytes) : Json.Value := .string (Base64.encode Base64.stdEncoding bytes)

def natValue (value : ℕ) : Json.Value := .number (formatInt value)

def kdfValue (kdf : KDFParams) : Json.Value :=
  .object [(ascii "salt", bytesValue kdf.salt), (ascii "t", natValue kdf.time.toNat),
    (ascii "m", natValue kdf.memoryKiB.toNat), (ascii "p", natValue kdf.threads.toNat)]

/-- The two members that are left out when empty. -/
def optionalMembers (record : EncryptedBody) : List (Bytes × Json.Value) :=
  (if record.kekId = [] then [] else [(ascii "kek_id", .string record.kekId)]) ++
    match record.kdf with
    | none => []
    | some kdf => [(ascii "kdf", kdfValue kdf)]

def bodyValue (record : EncryptedBody) : Json.Value :=
  .object ([(ascii "v", .number (formatInt record.version)), (ascii "alg", .string record.alg),
    (ascii "nonce", bytesValue record.nonce), (ascii "ct", bytesValue record.ciphertext),
    (ascii "wrap", .string (wrapText record.wrapMode))] ++ optionalMembers record ++
    [(ascii "wrap_nonce", bytesValue record.wrapNonce),
      (ascii "wrapped_dek", bytesValue record.wrappedDEK)])

/-- `json.Marshal(rec)`. -/
def marshal (record : EncryptedBody) : Bytes := Json.render (bodyValue record)

/-- A name up to case; U+212A and U+017F are the two characters outside ASCII
that fold to a letter. -/
def foldName : Bytes → Bytes
  | 0xE2 :: 0x84 :: 0xAA :: rest => 0x6B :: foldName rest
  | 0xC5 :: 0xBF :: rest => 0x73 :: foldName rest
  | byte :: rest => lower byte :: foldName rest
  | [] => []

def decodeInt (current : ℤ) : Json.Value → Option ℤ
  | .null => some current
  | .number literal => parseInt64 literal
  | _ => none

/-- An unsigned integer below `bound`. -/
def decodeUint (bound current : ℕ) : Json.Value → Option ℕ
  | .null => some current
  | .number literal =>
      if literal.head? = some 0x2D then none
      else (parseInt64 literal).bind fun value => if value < bound then some value.toNat else none
  | _ => none

def decodeString (current : Bytes) : Json.Value → Option Bytes
  | .null => some current
  | .string text => some text
  | _ => none

/-- A byte slice is base64 text, or an array of small numbers. -/
def decodeBytes : Json.Value → Option Bytes
  | .null => some []
  | .string text => Base64.decode Base64.stdEncoding text
  | .array items => items.mapM fun item => (decodeUint 256 0 item).map Nat.toUInt8
  | _ => none

inductive KdfField where
  | salt
  | time
  | memoryKiB
  | threads
  deriving DecidableEq

/-- The field of `KDFParams` a member name selects. -/
def kdfFieldOf (name : Bytes) : Option KdfField :=
  [(ascii "salt", KdfField.salt), (ascii "t", .time), (ascii "m", .memoryKiB),
    (ascii "p", .threads)].lookup (foldName name)

def setKdfField (kdf : KDFParams) (name : Bytes) (value : Json.Value) : Option KDFParams :=
  match kdfFieldOf name with
  | some .salt => (decodeBytes value).map fun salt => { kdf with salt }
  | some .time =>
      (decodeUint (2 ^ 32) kdf.time.toNat value).map fun time =>
        { kdf with time := time.toUInt32 }
  | some .memoryKiB =>
      (decodeUint (2 ^ 32) kdf.memoryKiB.toNat value).map fun memory =>
        { kdf with memoryKiB := memory.toUInt32 }
  | some .threads =>
      (decodeUint 256 kdf.threads.toNat value).map fun threads =>
        { kdf with threads := threads.toUInt8 }
  | none => some kdf

def decodeKdf (current : Option KDFParams) : Json.Value → Option (Option KDFParams)
  | .null => some none
  | .object members =>
      (members.foldlM (fun kdf member => setKdfField kdf member.1 member.2)
        (current.getD ⟨[], 0, 0, 0⟩)).map some
  | _ => none

inductive BodyField where
  | version
  | alg
  | nonce
  | ciphertext
  | wrapMode
  | kekId
  | kdf
  | wrapNonce
  | wrappedDEK
  deriving DecidableEq

/-- The field of `EncryptedBody` a member name selects. -/
def bodyFieldOf (name : Bytes) : Option BodyField :=
  [(ascii "v", BodyField.version), (ascii "alg", .alg), (ascii "nonce", .nonce),
    (ascii "ct", .ciphertext), (ascii "wrap", .wrapMode), (ascii "kek_id", .kekId),
    (ascii "kdf", .kdf), (ascii "wrap_nonce", .wrapNonce),
    (ascii "wrapped_dek", .wrappedDEK)].lookup (foldName name)

def setBodyField (record : EncryptedBody) (name : Bytes) (value : Json.Value) :
    Option EncryptedBody :=
  match bodyFieldOf name with
  | some .version => (decodeInt record.version value).map fun version => { record with version }
  | some .alg => (decodeString record.alg value).map fun alg => { record with alg }
  | some .nonce => (decodeBytes value).map fun nonce => { record with nonce }
  | some .ciphertext => (decodeBytes value).map fun ciphertext => { record with ciphertext }
  | some .wrapMode =>
      (decodeString (wrapText record.wrapMode) value).map fun text =>
        { record with wrapMode := wrapOfText text }
  | some .kekId => (decodeString record.kekId value).map fun kekId => { record with kekId }
  | some .kdf => (decodeKdf record.kdf value).map fun kdf => { record with kdf }
  | some .wrapNonce => (decodeBytes value).map fun wrapNonce => { record with wrapNonce }
  | some .wrappedDEK => (decodeBytes value).map fun wrappedDEK => { record with wrappedDEK }
  | none => some record

def zeroBody : EncryptedBody := ⟨0, [], [], [], .other [], [], none, [], []⟩

/-- `json.Unmarshal(body, &rec)`. -/
def unmarshal (body : Bytes) : Option EncryptedBody :=
  match Json.parse body with
  | some .null => some zeroBody
  | some (.object members) =>
      members.foldlM (fun record member => setBodyField record member.1 member.2) zeroBody
  | _ => none

/-! ## Reading back what was written -/

private theorem valid_encode (bytes : Bytes) :
    valid (Base64.encode Base64.stdEncoding bytes) = true := by
  apply valid_of_ascii
  intro byte hbyte
  exact (Base64.plain_of_mem_encode Base64.stdEncoding_valid hbyte).2.2

private theorem readable_bytesValue (bytes : Bytes) : Json.Readable (bytesValue bytes) :=
  .string (valid_encode bytes)

private theorem decodeBytes_bytesValue (bytes : Bytes) :
    decodeBytes (bytesValue bytes) = some bytes :=
  Base64.decode_encode Base64.stdEncoding_valid bytes

private theorem decodeUint_natValue {bound value : ℕ} (current : ℕ) (hbound : bound ≤ 2 ^ 63)
    (hvalue : value < bound) : decodeUint bound current (natValue value) = some value := by
  have hfits : FitsInt64 (value : ℤ) := by
    constructor <;> omega
  have hhead : (formatInt (value : ℤ)).head? ≠ some 0x2D := by
    intro hminus
    have hnonneg : ¬ (value : ℤ) < 0 := by omega
    rw [formatInt, appendInt, if_neg hnonneg] at hminus
    cases hdigits : padded 1 (value : ℤ).natAbs with
    | nil =>
        rw [hdigits] at hminus
        cases hminus
    | cons first rest =>
        rw [hdigits] at hminus
        simp only [List.head?_cons, Option.some.injEq] at hminus
        exact padded_head_ne_minus (hdigits.trans (by rw [hminus]))
  simp only [natValue, decodeUint, if_neg hhead, parseInt64_formatInt hfits, Option.bind_some]
  rw [if_pos (by omega), Int.toNat_natCast]

private theorem kdfFieldOf_names :
    kdfFieldOf (ascii "salt") = some .salt ∧ kdfFieldOf (ascii "t") = some .time ∧
      kdfFieldOf (ascii "m") = some .memoryKiB ∧ kdfFieldOf (ascii "p") = some .threads := by
  decide

private theorem decodeKdf_kdfValue (kdf : KDFParams) :
    decodeKdf none (kdfValue kdf) = some (some kdf) := by
  obtain ⟨hsalt, htime, hmemory, hthreads⟩ := kdfFieldOf_names
  simp only [kdfValue, decodeKdf, Option.getD_none, List.foldlM_cons, List.foldlM_nil,
    setKdfField, hsalt, htime, hmemory, hthreads, decodeBytes_bytesValue, Option.map_some,
    decodeUint_natValue _ (show 2 ^ 32 ≤ 2 ^ 63 by decide) kdf.time.toNat_lt,
    decodeUint_natValue _ (show 2 ^ 32 ≤ 2 ^ 63 by decide) kdf.memoryKiB.toNat_lt,
    decodeUint_natValue _ (show 256 ≤ 2 ^ 63 by decide) kdf.threads.toNat_lt,
    Option.bind_eq_bind, Option.bind_some, Option.pure_def, Nat.toUInt32_eq, Nat.toUInt8_eq,
    UInt32.ofNat_toNat, UInt8.ofNat_toNat]

/-- The records whose strings survive JSON. -/
structure Storable (record : EncryptedBody) : Prop where
  version_fits : FitsInt64 record.version
  alg_valid : valid record.alg = true
  kekId_valid : valid record.kekId = true
  wrapMode_known : record.wrapMode = .kek ∨ record.wrapMode = .password

private theorem readable_kdfValue (kdf : KDFParams) : Json.Readable (kdfValue kdf) := by
  apply Json.Readable.object
  · simp only [List.mem_cons, List.not_mem_nil, or_false, forall_eq_or_imp, forall_eq]
    decide
  · simp only [List.mem_cons, List.not_mem_nil, or_false, forall_eq_or_imp, forall_eq]
    exact ⟨readable_bytesValue _, .number _, .number _, .number _⟩

private theorem readable_optionalMembers {record : EncryptedBody} (hstorable : Storable record) :
    ∀ member ∈ optionalMembers record, valid member.1 = true ∧ Json.Readable member.2 := by
  intro member hmember
  rcases List.mem_append.mp hmember with hkek | hkdf
  · split at hkek
    · cases hkek
    · rw [List.mem_singleton] at hkek
      subst hkek
      exact ⟨rfl, .string hstorable.kekId_valid⟩
  · split at hkdf
    · cases hkdf
    · rename_i kdf _
      rw [List.mem_singleton] at hkdf
      subst hkdf
      exact ⟨rfl, readable_kdfValue kdf⟩

private theorem readable_bodyValue {record : EncryptedBody} (hstorable : Storable record) :
    Json.Readable (bodyValue record) := by
  have hwrap : valid (wrapText record.wrapMode) = true := by
    rcases hstorable.wrapMode_known with hmode | hmode <;> rw [hmode] <;> decide
  have hmembers : ∀ member ∈ ([(ascii "v", .number (formatInt record.version)),
      (ascii "alg", .string record.alg), (ascii "nonce", bytesValue record.nonce),
      (ascii "ct", bytesValue record.ciphertext),
      (ascii "wrap", .string (wrapText record.wrapMode))] ++ optionalMembers record ++
      [(ascii "wrap_nonce", bytesValue record.wrapNonce),
        (ascii "wrapped_dek", bytesValue record.wrappedDEK)] : List (Bytes × Json.Value)),
      valid member.1 = true ∧ Json.Readable member.2 := by
    intro member hmember
    simp only [List.mem_append, or_assoc] at hmember
    rcases hmember with hfirst | hoptional | hlast
    · simp only [List.mem_cons, List.not_mem_nil, or_false] at hfirst
      rcases hfirst with rfl | rfl | rfl | rfl | rfl
      · exact ⟨rfl, .number _⟩
      · exact ⟨rfl, .string hstorable.alg_valid⟩
      · exact ⟨rfl, readable_bytesValue _⟩
      · exact ⟨rfl, readable_bytesValue _⟩
      · exact ⟨rfl, .string hwrap⟩
    · exact readable_optionalMembers hstorable member hoptional
    · simp only [List.mem_cons, List.not_mem_nil, or_false] at hlast
      rcases hlast with rfl | rfl
      · exact ⟨rfl, readable_bytesValue _⟩
      · exact ⟨rfl, readable_bytesValue _⟩
  exact .object (fun member hmember => (hmembers member hmember).1)
    fun member hmember => (hmembers member hmember).2

private theorem bodyFieldOf_names :
    bodyFieldOf (ascii "v") = some .version ∧ bodyFieldOf (ascii "alg") = some .alg ∧
      bodyFieldOf (ascii "nonce") = some .nonce ∧ bodyFieldOf (ascii "ct") = some .ciphertext ∧
      bodyFieldOf (ascii "wrap") = some .wrapMode ∧ bodyFieldOf (ascii "kek_id") = some .kekId ∧
      bodyFieldOf (ascii "kdf") = some .kdf ∧
      bodyFieldOf (ascii "wrap_nonce") = some .wrapNonce ∧
      bodyFieldOf (ascii "wrapped_dek") = some .wrappedDEK := by
  decide

/-- A storable record read back is the record. -/
theorem unmarshal_marshal {record : EncryptedBody} (hstorable : Storable record) :
    unmarshal (marshal record) = some record := by
  obtain ⟨hversion, halg, hnonce, hct, hwrap, hkek, hkdf, hwrapNonce, hwrapped⟩ :=
    bodyFieldOf_names
  have hmode : wrapOfText (wrapText record.wrapMode) = record.wrapMode := by
    rcases hstorable.wrapMode_known with hmode | hmode <;> rw [hmode] <;> decide
  rw [unmarshal, marshal, Json.parse_render (readable_bodyValue hstorable), bodyValue]
  obtain ⟨version, alg, nonce, ciphertext, wrapMode, kekId, kdf, wrapNonce, wrappedDEK⟩ := record
  simp only [List.foldlM_append, List.foldlM_cons, List.foldlM_nil, setBodyField, hversion, halg,
    hnonce, hct, hwrap, hwrapNonce, hwrapped, decodeInt, decodeString,
    parseInt64_formatInt hstorable.version_fits, decodeBytes_bytesValue, Option.map_some,
    Option.bind_eq_bind, Option.bind_some, Option.pure_def, zeroBody]
  have hmode' : wrapOfText (wrapText wrapMode) = wrapMode := hmode
  by_cases hempty : kekId = []
  · cases kdf with
    | none => simp [optionalMembers, hempty, hmode']
    | some kdf =>
        simp [optionalMembers, hempty, hmode', hkdf, decodeKdf_kdfValue]
  · cases kdf with
    | none => simp [optionalMembers, hempty, hmode', hkek]
    | some kdf =>
        simp [optionalMembers, hempty, hmode', hkek, hkdf, decodeKdf_kdfValue]

/-! ## The store operations -/

def bodyKey (id : UUID) : Bytes := ascii "paste:" ++ id.text

def unavailableKey (id : UUID) : Bytes := ascii "unavailable:" ++ id.text

def expiringTTL (ttl : ℤ) : Except Err ℤ :=
  if ttl ≤ 0 then .error (.message "redis: ttl must be positive")
  else if ttl < millisecond then .ok millisecond
  else .ok ttl

def put (keys : Keyspace Bytes) (now : ℤ) (id : UUID) (record : EncryptedBody) (ttl : ℤ) :
    Except Err (Keyspace Bytes) :=
  match expiringTTL ttl with
  | .error err => .error err
  | .ok expiration =>
      .ok (keys.set (bodyKey id) ⟨marshal record, Keyspace.expiry now expiration⟩)

def get (keys : Keyspace Bytes) (now : ℤ) (id : UUID) : Except Err EncryptedBody :=
  match keys.find now (bodyKey id) with
  | none => .error .notFound
  | some entry =>
      match unmarshal entry.value with
      | none => .error (.wrap "redis: decode body" (.message "json"))
      | some record => .ok record

def delete (keys : Keyspace Bytes) (id : UUID) : Keyspace Bytes := keys.del (bodyKey id)

/-- `SETNX` on the marker key: true when this call wrote it. -/
def markUnavailableOnce (keys : Keyspace Bytes) (now : ℤ) (id : UUID) (ttl : ℤ) :
    Except Err (Bool × Keyspace Bytes) :=
  match expiringTTL ttl with
  | .error err => .error err
  | .ok expiration =>
      match keys.find now (unavailableKey id) with
      | some _ => .ok (false, keys)
      | none =>
          .ok (true, keys.set (unavailableKey id) ⟨ascii "1", Keyspace.expiry now expiration⟩)

/-! ## What the operations do -/

theorem bodyKey_injective : Function.Injective bodyKey := by
  intro left right heq
  exact text_injective (List.append_cancel_left heq)

theorem bodyKey_ne_unavailableKey (id id' : UUID) : bodyKey id ≠ unavailableKey id' := by
  intro heq
  have hfirst := congrArg List.head? heq
  revert hfirst
  simp [bodyKey, unavailableKey, ascii]

theorem unavailableKey_injective : Function.Injective unavailableKey := by
  intro left right heq
  exact text_injective (List.append_cancel_left heq)

variable {keys keys' : Keyspace Bytes} {now ttl : ℤ} {id : UUID} {record : EncryptedBody}

/-- The life time Redis is given: at least a millisecond, whole milliseconds. -/
def redisTTL (ttl : ℤ) : ℤ := max millisecond (truncate ttl millisecond)

private theorem expiry_max_millisecond (now : ℤ) (hpositive : 0 < ttl) :
    ∃ expiration, expiringTTL ttl = .ok expiration ∧
      Keyspace.expiry now expiration = now + redisTTL ttl := by
  have hms : millisecond = 1000000 := rfl
  unfold expiringTTL Keyspace.expiry redisTTL truncate
  rw [if_neg (by omega)]
  by_cases hsmall : ttl < millisecond
  · refine ⟨millisecond, if_pos hsmall, ?_⟩
    rw [hms] at *
    omega
  · refine ⟨ttl, if_neg hsmall, ?_⟩
    rw [hms] at *
    omega

theorem put_eq_ok_iff :
    put keys now id record ttl = .ok keys' ↔
      0 < ttl ∧ keys' = keys.set (bodyKey id) ⟨marshal record, now + redisTTL ttl⟩ := by
  by_cases hpositive : 0 < ttl
  · obtain ⟨expiration, hexpiring, hexpiry⟩ := expiry_max_millisecond now hpositive
    simp only [put, hexpiring, hexpiry, hpositive, Except.ok.injEq, true_and]
    exact eq_comm
  · have herror : expiringTTL ttl = .error (.message "redis: ttl must be positive") :=
      if_pos (by omega)
    simp [put, herror, hpositive]

/-- The marker is written unless it is there, with whole milliseconds to live. -/
theorem markUnavailableOnce_eq_ok {first : Bool}
    (hmark : markUnavailableOnce keys now id ttl = .ok (first, keys')) :
    (first = false ∧ keys' = keys) ∨
      first = true ∧ 0 < ttl ∧ keys.find now (unavailableKey id) = none ∧
        keys' = keys.set (unavailableKey id) ⟨ascii "1", now + redisTTL ttl⟩ := by
  by_cases hpositive : 0 < ttl
  · obtain ⟨expiration, hexpiring, hexpiry⟩ := expiry_max_millisecond now hpositive
    simp only [markUnavailableOnce, hexpiring, hexpiry] at hmark
    split at hmark
    · cases hmark
      exact .inl ⟨rfl, rfl⟩
    · rename_i hnone
      cases hmark
      exact .inr ⟨rfl, hpositive, hnone, rfl⟩
  · have herror : expiringTTL ttl = .error (.message "redis: ttl must be positive") :=
      if_pos (by omega)
    simp [markUnavailableOnce, herror] at hmark

theorem get_eq_ok_iff :
    get keys now id = .ok record ↔
      ∃ entry, keys (bodyKey id) = some entry ∧ Keyspace.Alive (millis now) (millis entry.expireAt) ∧
        unmarshal entry.value = some record := by
  cases hfind : keys.find now (bodyKey id) with
  | none =>
      simp only [get, hfind, reduceCtorEq, false_iff]
      rintro ⟨entry, hkeys, hlive, -⟩
      have hsome := Keyspace.find_eq_some_iff.mpr ⟨hkeys, hlive⟩
      rw [hfind] at hsome
      cases hsome
  | some entry =>
      obtain ⟨hkeys, hlive⟩ := Keyspace.find_eq_some_iff.mp hfind
      cases hvalue : unmarshal entry.value with
      | none => simp [get, hfind, hvalue, hkeys]
      | some found => simp [get, hfind, hvalue, hkeys, hlive]

/-- An absent or expired body is `ErrNotFound`, and nothing else is. -/
theorem get_eq_notFound_iff {err : Err} (herr : get keys now id = .error err) :
    Err.is .notFound err = true ↔ keys.find now (bodyKey id) = none := by
  cases hfind : keys.find now (bodyKey id) with
  | none =>
      simp only [get, hfind, Except.error.injEq] at herr
      subst herr
      simp [Err.is]
  | some entry =>
      cases hvalue : unmarshal entry.value with
      | none =>
          simp only [get, hfind, hvalue, Except.error.injEq] at herr
          subst herr
          simp [Err.is]
      | some found => simp [get, hfind, hvalue] at herr

theorem delete_bodyKey (id' : UUID) :
    delete keys id (bodyKey id') = if id' = id then none else keys (bodyKey id') := by
  by_cases heq : id' = id
  · rw [if_pos heq, heq, delete, Keyspace.del_self]
  · rw [if_neg heq, delete, Keyspace.del_of_ne]
    exact fun hkey => heq (bodyKey_injective hkey)

/-- The marker does not touch any body. -/
theorem markUnavailableOnce_bodyKey {first : Bool}
    (hmark : markUnavailableOnce keys now id ttl = .ok (first, keys')) (id' : UUID) :
    keys' (bodyKey id') = keys (bodyKey id') := by
  unfold markUnavailableOnce at hmark
  split at hmark
  · cases hmark
  · split at hmark
    · cases hmark
      rfl
    · cases hmark
      exact Keyspace.set_of_ne keys _ (bodyKey_ne_unavailableKey id' id)

end SecurePastebin.Store.Bodies
