import SecurePastebin.Auth.Types
import SecurePastebin.Core.Base64
import SecurePastebin.Core.Keyspace
import SecurePastebin.Core.Process

/-!
# The session store

`internal/store/redis/sessions.go`: a session is a Redis hash `sess:{id}` whose
key expires at the earlier of the idle and the absolute deadline.  Each method
is split at its clock readings, its random draws and its Redis commands; the two
scripts are single commands.
-/

namespace SecurePastebin.Session

open Text Uuid Calendar Base64
open Process Auth

/-! ## Records and deadlines -/

def sessionTokenBytes : ℕ := 32

def sessKey (id : Bytes) : Bytes := ascii "sess:" ++ id

theorem sessKey_injective : Function.Injective sessKey := List.append_right_injective _

/-- The fields of the hash. -/
structure Record where
  userId : Bytes
  createdAt : Bytes
  absExp : Bytes
  csrf : Bytes
  deriving DecidableEq

def unixMilli (t : ℤ) : ℤ := t / millisecond

/-- The earlier of the two deadlines, rounded down to a millisecond. -/
def sessionDeadline (idleTTL absoluteExpiry now : ℤ) : Except Err ℤ :=
  if idleTTL ≤ 0 then .error (.message "redis: session idle ttl must be positive")
  else if absoluteExpiry ≤ now then
    .error (.message "redis: session absolute ttl must be positive")
  else
    let deadline := truncate (min (now + idleTTL) absoluteExpiry) millisecond
    if deadline ≤ now then .error (.message "redis: session ttl is below redis precision")
    else .ok deadline

def encodeSessionTime (value : ℤ) : Bytes := formatInt (wrap64 value)

/-- Small numbers are seconds, the representation of an earlier storage plan. -/
def decodeSessionTime (value : Bytes) : Option ℤ :=
  (parseInt64 value).map fun n =>
    if -1000000000000 < n ∧ n < 1000000000000 then n * second else n

def validSessionToken (value : Bytes) : Bool :=
  match decode rawURLEncoding value with
  | some raw => raw.length = sessionTokenBytes
  | none => false

/-- What `Create` stores for a session. -/
def encodeRecord (sess : Session) : Record where
  userId := sess.userId.text
  createdAt := encodeSessionTime sess.createdAt
  absExp := encodeSessionTime sess.absoluteExpiry
  csrf := sess.csrfToken

/-- The checks of `getWithRaw` on what it finds under `id`, the clock apart. -/
def decodeRecord (id : Bytes) (record : Record) : Except Err Session :=
  match parse record.userId with
  | none => .error (.message "redis: malformed session: invalid user id")
  | some userId =>
    match decodeSessionTime record.createdAt with
    | none => .error (.message "redis: malformed session: invalid creation time")
    | some createdAt =>
      match decodeSessionTime record.absExp with
      | none => .error (.message "redis: malformed session: invalid absolute expiry")
      | some absoluteExpiry =>
        if absoluteExpiry ≤ createdAt then
          .error (.message "redis: malformed session: invalid expiry ordering")
        else if !validSessionToken record.csrf then
          .error (.message "redis: malformed session: invalid csrf token")
        else .ok ⟨id, userId, createdAt, absoluteExpiry, record.csrf⟩

/-! ## The scripts -/

/-- `createSessionScript`.  A `PEXPIREAT` into the past drops the key it is
given at once, which is what the reply -1 reports. -/
def createSessionScript (keys : Keyspace Record) (now : ℤ) (key : Bytes) (record : Record)
    (deadline : ℤ) : ℤ × Keyspace Record :=
  if (keys.find now key).isSome then (0, keys)
  else if deadline * millisecond ≤ now then (-1, keys.del key)
  else (1, keys.set key ⟨record, deadline * millisecond⟩)

/-- `touchSessionScript`.  `PEXPIREAT` into the past replies 1 as well. -/
def touchSessionScript (keys : Keyspace Record) (now : ℤ) (key absExp : Bytes)
    (deadline : ℤ) : ℤ × Keyspace Record :=
  match keys.find now key with
  | none => (0, keys)
  | some entry =>
    if entry.value.absExp ≠ absExp then (-1, keys)
    else if deadline * millisecond ≤ now then (1, keys.del key)
    else (1, keys.set key ⟨entry.value, deadline * millisecond⟩)

/-! ## Ports -/

inductive Call where
  | now
  | randomToken
  | createSession (key : Bytes) (record : Record) (deadline : ℤ)
  | hGetAll (key : Bytes)
  | touchSession (key absExp : Bytes) (deadline : ℤ)
  | del (key : Bytes)
  deriving DecidableEq

/-- What a call returns; `HGETALL` of an absent key is an empty map. -/
@[reducible]
def Call.Reply : Call → Type
  | .now => ℤ
  | .randomToken => Bytes
  | .createSession .. => Except Err ℤ
  | .hGetAll .. => Except Err (Option Record)
  | .touchSession .. => Except Err ℤ
  | .del .. => Except Err Unit

/-- Programs over the ports. -/
abbrev Port := Proc Call Call.Reply

/-- One answered call. -/
abbrev Step := Entry Call Call.Reply

namespace Port

abbrev now : Port ℤ := .perform Call.now

/-- `auth.RandomToken(sessionTokenBytes)`. -/
abbrev randomToken : Port Bytes := .perform Call.randomToken

abbrev createSession (key : Bytes) (record : Record) (deadline : ℤ) : Port (Except Err ℤ) :=
  .perform (Call.createSession key record deadline)

abbrev hGetAll (key : Bytes) : Port (Except Err (Option Record)) := .perform (Call.hGetAll key)

abbrev touchSession (key absExp : Bytes) (deadline : ℤ) : Port (Except Err ℤ) :=
  .perform (Call.touchSession key absExp deadline)

abbrev del (key : Bytes) : Port (Except Err Unit) := .perform (Call.del key)

end Port

/-! ## Methods -/

/-- The loop of `Create`, with the attempts that are left. -/
def allocate (userId : UUID) (now absoluteExpiry deadline : ℤ) :
    ℕ → Port (Except Err Session)
  | 0 => return .error (.message "redis: create session: could not allocate unique id")
  | attempts + 1 => do
    let id ← Port.randomToken
    let csrfToken ← Port.randomToken
    let sess : Session := ⟨id, userId, now, absoluteExpiry, csrfToken⟩
    match ← Port.createSession (sessKey id) (encodeRecord sess) (unixMilli deadline) with
    | .error err => return .error (.wrap "redis: create session" err)
    | .ok created =>
      if created = 0 then allocate userId now absoluteExpiry deadline attempts
      else if created = -1 then
        let _ ← Port.del (sessKey id)
        return .error (.message "redis: create session: expired during write")
      else
        let late ← Port.now
        if deadline ≤ late then
          let _ ← Port.del (sessKey id)
          return .error (.message "redis: create session: expired during write")
        else if created = 1 then return .ok sess
        else allocate userId now absoluteExpiry deadline attempts

def create (userId : UUID) (idleTTL absoluteTTL : ℤ) : Port (Except Err Session) := do
  let now ← Port.now
  if absoluteTTL ≤ 0 then
    return .error (.message "redis: session absolute ttl must be positive")
  else
    match sessionDeadline idleTTL (now + absoluteTTL) now with
    | .error err => return .error err
    | .ok deadline => allocate userId now (now + absoluteTTL) deadline 4

/-- `get`: the session and the text of its absolute expiry, which `Touch`
compares. -/
def getWithRaw (id : Bytes) : Port (Except Err (Session × Bytes)) :=
  if id = [] then return .error .sessionNotFound
  else do
    match ← Port.hGetAll (sessKey id) with
    | .error err => return .error (.wrap "redis: get session" err)
    | .ok none => return .error .sessionNotFound
    | .ok (some record) =>
      match decodeRecord id record with
      | .error err => return .error err
      | .ok sess =>
        let now ← Port.now
        if sess.absoluteExpiry ≤ now then
          let _ ← Port.del (sessKey id)
          return .error .sessionNotFound
        else return .ok (sess, record.absExp)

/-- `Get`. -/
def get (id : Bytes) : Port (Except Err Session) := (·.map Prod.fst) <$> getWithRaw id

def touch (id : Bytes) (idleTTL : ℤ) : Port (Except Err Unit) :=
  if idleTTL ≤ 0 then return .error (.message "redis: session idle ttl must be positive")
  else do
    match ← getWithRaw id with
    | .error err => return .error err
    | .ok (sess, absoluteRaw) =>
      let now ← Port.now
      match sessionDeadline idleTTL sess.absoluteExpiry now with
      | .error err =>
        if sess.absoluteExpiry ≤ now then
          let _ ← Port.del (sessKey id)
          return .error .sessionNotFound
        else return .error err
      | .ok deadline =>
        match ← Port.touchSession (sessKey id) absoluteRaw (unixMilli deadline) with
        | .error err => return .error (.wrap "redis: touch session" err)
        | .ok touched =>
          if touched ≠ 1 then return .error .sessionNotFound
          else
            let late ← Port.now
            if deadline ≤ late then
              let _ ← Port.del (sessKey id)
              return .error .sessionNotFound
            else return .ok ()

def delete (id : Bytes) : Port (Except Err Unit) := do
  match ← Port.del (sessKey id) with
  | .error err => return .error (.wrap "redis: delete session" err)
  | .ok () => return .ok ()

/-! ## Deadlines -/

theorem sessionDeadline_eq_ok {idleTTL absoluteExpiry now deadline : ℤ} :
    sessionDeadline idleTTL absoluteExpiry now = .ok deadline ↔
      0 < idleTTL ∧ now < absoluteExpiry ∧ now < deadline ∧
        deadline = truncate (min (now + idleTTL) absoluteExpiry) millisecond := by
  simp only [sessionDeadline]
  split_ifs with hidle habs hdeadline
  · exact iff_of_false nofun fun h => absurd h.1 (by omega)
  · exact iff_of_false nofun fun h => absurd h.2.1 (by omega)
  · exact iff_of_false nofun fun h => absurd (h.2.2.2 ▸ h.2.2.1) (by omega)
  · constructor
    · intro heq
      cases heq
      exact ⟨by omega, by omega, by omega, rfl⟩
    · rintro ⟨-, -, -, rfl⟩
      rfl

/-- A deadline is a whole number of milliseconds, so that nothing is lost when
it is sent. -/
theorem unixMilli_truncate (t : ℤ) :
    unixMilli (truncate t millisecond) * millisecond = truncate t millisecond := by
  simp only [unixMilli, truncate, millisecond]
  omega

theorem sessionDeadline_bounds {idleTTL absoluteExpiry now deadline : ℤ}
    (hdeadline : sessionDeadline idleTTL absoluteExpiry now = .ok deadline) :
    unixMilli deadline * millisecond = deadline ∧ deadline ≤ now + idleTTL ∧
      deadline ≤ absoluteExpiry := by
  obtain ⟨-, -, -, rfl⟩ := sessionDeadline_eq_ok.mp hdeadline
  have hle := truncate_le (t := min (now + idleTTL) absoluteExpiry)
    (show 0 < millisecond by decide)
  exact ⟨unixMilli_truncate _, by omega, by omega⟩

/-! ## Round trip of a record -/

/-- Instants that are read back as nanoseconds. -/
def Representable (t : ℤ) : Prop := 1000000000000 ≤ t ∧ t < 2 ^ 63

instance (t : ℤ) : Decidable (Representable t) := inferInstanceAs (Decidable (_ ∧ _))

theorem decodeSessionTime_encode {t : ℤ} (ht : Representable t) :
    decodeSessionTime (encodeSessionTime t) = some t := by
  have hfits : FitsInt64 t := ⟨by have := ht.1; omega, ht.2⟩
  rw [decodeSessionTime, encodeSessionTime, wrap64_of_fits hfits, parseInt64_formatInt hfits,
    Option.map_some, if_neg (by have := ht.1; omega)]

/-- A record written for a session that `Create` can make is read back as that
session. -/
theorem decodeRecord_encodeRecord {sess : Session} (hcreated : Representable sess.createdAt)
    (habs : Representable sess.absoluteExpiry) (horder : sess.createdAt < sess.absoluteExpiry)
    (hcsrf : validSessionToken sess.csrfToken = true) :
    decodeRecord sess.id (encodeRecord sess) = .ok sess := by
  simp only [decodeRecord, encodeRecord, parse_text, decodeSessionTime_encode hcreated,
    decodeSessionTime_encode habs, if_neg (not_le.mpr horder), hcsrf, Bool.not_true]
  rfl

theorem validSessionToken_encode {raw : Bytes} (hraw : raw.length = sessionTokenBytes) :
    validSessionToken (encode rawURLEncoding raw) = true := by
  simp [validSessionToken, decode_encode rawURLEncoding_valid, hraw]

/-- What is read under `id` is a session with that identifier and the record's
texts. -/
theorem decodeRecord_eq_ok {id : Bytes} {record : Record} {sess : Session}
    (hdecode : decodeRecord id record = .ok sess) :
    sess.id = id ∧ decodeSessionTime record.absExp = some sess.absoluteExpiry := by
  unfold decodeRecord at hdecode
  split at hdecode
  · cases hdecode
  · split at hdecode
    · cases hdecode
    · split at hdecode
      · cases hdecode
      · rename_i habs
        split_ifs at hdecode
        cases hdecode
        exact ⟨rfl, habs⟩

end SecurePastebin.Session
