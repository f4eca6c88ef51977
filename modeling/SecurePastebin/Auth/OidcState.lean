import SecurePastebin.Auth.Ports
import SecurePastebin.Core.Rfc3339
import SecurePastebin.Store.Bodies

/-!
# The state of logins in flight

`internal/store/redis/oidcstate.go`: verifier, nonce and creation time of an
authorization request, as JSON under `oidc:{state}`.  `Take` consumes a state
with one `GETDEL`.  Of `json.Unmarshal` into a `time.Time` only the strict
reader is modelled.
-/

namespace SecurePastebin.Auth

open Text Calendar Utf8 Process
open Store.Bodies (foldName decodeString)

/-- The server-side half of an authorization request. -/
structure OIDCState where
  verifier : Bytes
  nonce : Bytes
  createdAt : ℤ
  deriving DecidableEq

namespace OIDCState

/-! ## The record as JSON -/

/-- The zero `time.Time`: the first instant of the year 1. -/
def zeroTime : ℤ := -62135596800 * second

def stateValue (value : OIDCState) : Json.Value :=
  .object [(ascii "verifier", .string value.verifier), (ascii "nonce", .string value.nonce),
    (ascii "created_at", .string (rfc3339Nano value.createdAt))]

/-- `json.Marshal(value)`, which refuses an instant outside four-digit years. -/
def marshal (value : OIDCState) : Option Bytes :=
  if Writable value.createdAt then some (Json.render value.stateValue) else none

inductive StateField where
  | verifier
  | nonce
  | createdAt
  deriving DecidableEq

/-- The field of `OIDCState` a member name selects. -/
def fieldOf (name : Bytes) : Option StateField :=
  [(ascii "verifier", StateField.verifier), (ascii "nonce", .nonce),
    (ascii "created_at", .createdAt)].lookup (foldName name)

def decodeTime (current : ℤ) : Json.Value → Option ℤ
  | .null => some current
  | .string text => readTime text
  | _ => none

def setField (value : OIDCState) (name : Bytes) (found : Json.Value) : Option OIDCState :=
  match fieldOf name with
  | some .verifier => (decodeString value.verifier found).map fun verifier => { value with verifier }
  | some .nonce => (decodeString value.nonce found).map fun nonce => { value with nonce }
  | some .createdAt => (decodeTime value.createdAt found).map fun createdAt => { value with createdAt }
  | none => some value

/-- `json.Unmarshal(record, &value)`. -/
def unmarshal (record : Bytes) : Option OIDCState :=
  match Json.parse record with
  | some .null => some ⟨[], [], zeroTime⟩
  | some (.object members) =>
      members.foldlM (fun value member => setField value member.1 member.2) ⟨[], [], zeroTime⟩
  | _ => none

private theorem fieldOf_names :
    fieldOf (ascii "verifier") = some .verifier ∧ fieldOf (ascii "nonce") = some .nonce ∧
      fieldOf (ascii "created_at") = some .createdAt := by
  decide

private theorem readable_stateValue {value : OIDCState} (hverifier : valid value.verifier = true)
    (hnonce : valid value.nonce = true) : Json.Readable value.stateValue := by
  have htime : valid (rfc3339Nano value.createdAt) = true :=
    valid_of_ascii fun _ => ascii_of_mem_rfc3339Nano
  apply Json.Readable.object
  · simp only [List.mem_cons, List.not_mem_nil, or_false, forall_eq_or_imp, forall_eq]
    decide
  · simp only [List.mem_cons, List.not_mem_nil, or_false, forall_eq_or_imp, forall_eq]
    exact ⟨.string hverifier, .string hnonce, .string htime⟩

/-- What `Save` writes is what `Take` reads. -/
theorem unmarshal_marshal {value : OIDCState} {record : Bytes}
    (hverifier : valid value.verifier = true) (hnonce : valid value.nonce = true)
    (hmarshal : value.marshal = some record) : unmarshal record = some value := by
  obtain ⟨hverifierName, hnonceName, htimeName⟩ := fieldOf_names
  unfold marshal at hmarshal
  split at hmarshal
  · rename_i hwritable
    cases hmarshal
    rw [unmarshal, Json.parse_render (readable_stateValue hverifier hnonce), stateValue]
    simp only [List.foldlM_cons, List.foldlM_nil, setField, hverifierName, hnonceName, htimeName,
      decodeString, decodeTime, readTime_rfc3339Nano hwritable, Option.map_some,
      Option.bind_eq_bind, Option.bind_some, Option.pure_def]
  · cases hmarshal

end OIDCState

/-! ## The store -/

def oidcKey (state : Bytes) : Bytes := ascii "oidc:" ++ state

theorem oidcKey_injective : Function.Injective oidcKey := List.append_right_injective _

def validOIDCState (state : Bytes) (value : OIDCState) : Bool :=
  state ≠ [] && value.verifier ≠ [] && value.nonce ≠ [] && value.createdAt ≠ OIDCState.zeroTime

/-- `Save`. -/
def saveState (state : Bytes) (value : OIDCState) (ttl : ℤ) : Port (Except Err Unit) := do
  if ttl ≤ 0 then
    return .error (.message "redis: oidc state ttl must be positive")
  if !validOIDCState state value then
    return .error .oidcStateInvalid
  match value.marshal with
  | none => return .error (.message "redis: encode oidc state")
  | some record =>
      match ← Port.statesSet (oidcKey state) record ttl with
      | .error err => return .error (.wrap "redis: save oidc state" err)
      | .ok () => return .ok ()

/-- What `Take` makes of the record it has removed. -/
def takenState (state record : Bytes) : Except Err OIDCState :=
  match OIDCState.unmarshal record with
  | none => .error .oidcStateInvalid
  | some value => if validOIDCState state value then .ok value else .error .oidcStateInvalid

/-- `Take`. -/
def takeState (state : Bytes) : Port (Except Err OIDCState) := do
  if state = [] then
    return .error .oidcStateInvalid
  match ← Port.statesGetDel (oidcKey state) with
  | .ok none => return .error .oidcStateInvalid
  | .error err => return .error (.wrap "redis: take oidc state" err)
  | .ok (some record) => return takenState state record

end SecurePastebin.Auth
