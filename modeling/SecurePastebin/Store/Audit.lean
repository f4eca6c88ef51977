import SecurePastebin.Core.JsonText
import SecurePastebin.Core.Rfc3339
import SecurePastebin.Store.Pastes

/-!
# The audit store

`internal/store/postgres/audit.go` with the `audit_events` table of the first
migration.  `Record` fills in what the event leaves open from the request, inserts
one row and swallows the error if the database refuses it.  The database refuses
text that is not valid UTF-8 or has a zero byte, and details that are not JSON or
have a zero byte in a string.
-/

namespace SecurePastebin.Store.Audit

open Text Uuid Calendar Utf8
open Json Paste

/-- `audit.RequestInfo`: what the middleware attached, or empty texts. -/
structure RequestInfo where
  ip : Bytes
  userAgent : Bytes

/-- `audit.Event`. -/
structure AuditEvent where
  atTime : ℤ
  event : Bytes
  actorId : Option UUID
  pasteId : Option UUID
  ip : Bytes
  userAgent : Bytes
  outcome : Bytes
  details : List (String × Detail)

def eventText : EventKind → String
  | .pasteCreated => "paste_created"
  | .pasteViewed => "paste_viewed"
  | .pasteUnlockSuccess => "paste_unlock_success"
  | .pasteUnlockFailure => "paste_unlock_failure"
  | .pasteVerify => "paste_verify"
  | .pasteDeleted => "paste_deleted"
  | .pasteExpired => "paste_expired"
  | .pasteUnavailable => "paste_unavailable"
  | .auditPurged => "audit_purged"
  | .metadataPurged => "metadata_purged"

def outcomeText : Outcome → String
  | .success => "success"
  | .failure => "failure"

/-- An event of the paste service, which leaves address and user agent open. -/
def ofPaste (e : Event) : AuditEvent where
  atTime := e.atTime
  event := ascii (eventText e.kind)
  actorId := e.actorId
  pasteId := e.pasteId
  ip := []
  userAgent := []
  outcome := ascii (outcomeText e.outcome)
  details := e.details

/-! ## Details -/

def detailValue : Detail → Value
  | .int value => .number (formatInt value)
  | .bool value => .bool value
  | .status value => .string (ascii (statusText value))
  | .time value => .string (rfc3339Nano value)

/-- `json.Marshal` refuses a time whose year does not have four digits. -/
def canMarshal : Detail → Bool
  | .time value => Writable value
  | _ => true

/-- The members of a map are written in the order of their names. -/
def detailMembers (details : List (String × Detail)) : List (Bytes × Value) :=
  (details.map fun entry => (ascii entry.1, detailValue entry.2)).insertionSort
    fun left right => left.1 ≤ right.1

def detailsJSON (details : List (String × Detail)) : Bytes :=
  if details.all fun entry => canMarshal entry.2 then render (.object (detailMembers details))
  else ascii "\x7b\x7d"

/-! ## The table -/

/-- A row of `audit_events`; addresses are an arbitrary type. -/
structure Row (Address : Type) where
  atTime : ℤ
  event : Bytes
  actorId : Option UUID
  pasteId : Option UUID
  ip : Option Address
  userAgent : Option Bytes
  outcome : Bytes
  details : Bytes

mutual

/-- No string in the value has a zero byte. -/
def zeroFree : Value → Bool
  | .string text => !text.contains 0
  | .array items => zeroFreeItems items
  | .object members => zeroFreeMembers members
  | _ => true

def zeroFreeItems : List Value → Bool
  | [] => true
  | item :: items => zeroFree item && zeroFreeItems items

def zeroFreeMembers : List (Bytes × Value) → Bool
  | [] => true
  | (key, value) :: members => !key.contains 0 && zeroFree value && zeroFreeMembers members

end

def fitsJsonb (text : Bytes) : Bool := valid text && (Json.parse text).any zeroFree

variable {Address : Type}

def insert (rows : List (Row Address)) (row : Row Address) : Except Err (List (Row Address)) :=
  if !(fitsText row.event && row.userAgent.all fitsText && fitsText row.outcome) then
    .error (.message "invalid byte sequence for encoding")
  else if !fitsJsonb row.details then .error (.message "invalid input syntax for type json")
  else .ok (rows ++ [row])

/-! ## Record -/

/-- The zero `time.Time`. -/
def zeroTime : ℤ := -62135596800 * second

def nullIfEmpty (value : Bytes) : Option Bytes := if value = [] then none else some value

variable (parseAddr : Bytes → Option Address)

/-- `Record` at the instant `now`, and the error it logs. -/
def record (now : ℤ) (info : RequestInfo) (rows : List (Row Address)) (e : AuditEvent) :
    List (Row Address) × Option Err :=
  let ip := if e.ip = [] then info.ip else e.ip
  let userAgent := if e.userAgent = [] then info.userAgent else e.userAgent
  let atTime := if e.atTime = zeroTime then now else e.atTime
  match insert rows
    { atTime := pgTime atTime
      event := e.event
      actorId := e.actorId
      pasteId := e.pasteId
      ip := parseAddr ip
      userAgent := nullIfEmpty userAgent
      outcome := e.outcome
      details := detailsJSON e.details } with
  | .error err => (rows, some err)
  | .ok rows' => (rows', none)

/-! ## Details are accepted -/

/-- A name that text can hold, and a value that is no time. -/
def IsPlain (entry : String × Detail) : Prop :=
  fitsText (ascii entry.1) = true ∧ ∀ time, entry.2 ≠ .time time

variable {details : List (String × Detail)}

theorem readable_detailValue (detail : Detail) : Readable (detailValue detail) := by
  cases detail with
  | int value => exact .number value
  | bool value => exact .bool value
  | status value => exact .string (by cases value <;> decide)
  | time value => exact .string (valid_of_ascii fun _ => ascii_of_mem_rfc3339Nano)

theorem zeroFree_detailValue {detail : Detail} (hplain : ∀ time, detail ≠ .time time) :
    zeroFree (detailValue detail) = true := by
  cases detail with
  | int value => rfl
  | bool value => rfl
  | status value => cases value <;> decide
  | time value => exact absurd rfl (hplain value)

theorem zeroFreeMembers_iff {members : List (Bytes × Value)} :
    zeroFreeMembers members = true ↔
      ∀ member ∈ members, member.1.contains 0 = false ∧ zeroFree member.2 = true := by
  induction members with
  | nil => simp [zeroFreeMembers]
  | cons member members ih =>
      rw [zeroFreeMembers, Bool.and_eq_true, Bool.and_eq_true, Bool.not_eq_true', ih,
        List.forall_mem_cons]

theorem mem_detailMembers {member : Bytes × Value} (hmember : member ∈ detailMembers details) :
    ∃ entry ∈ details, member = (ascii entry.1, detailValue entry.2) := by
  obtain ⟨entry, hentry, heq⟩ := List.mem_map.mp ((List.mem_insertionSort _).mp hmember)
  exact ⟨entry, hentry, heq.symm⟩

theorem fitsJsonb_detailsJSON (hplain : ∀ entry ∈ details, IsPlain entry) :
    fitsJsonb (detailsJSON details) = true := by
  have hmembers : ∀ member ∈ detailMembers details, fitsText member.1 = true ∧
      Readable member.2 ∧ zeroFree member.2 = true := by
    intro member hmember
    obtain ⟨entry, hentry, rfl⟩ := mem_detailMembers hmember
    obtain ⟨hname, hvalue⟩ := hplain entry hentry
    exact ⟨hname, readable_detailValue entry.2, zeroFree_detailValue hvalue⟩
  have hnames : ∀ member ∈ detailMembers details,
      valid member.1 = true ∧ member.1.contains 0 = false := by
    intro member hmember
    simpa only [fitsText, Bool.and_eq_true, Bool.not_eq_true'] using (hmembers member hmember).1
  have hreadable : Readable (.object (detailMembers details)) :=
    .object (fun member hmember => (hnames member hmember).1)
      fun member hmember => (hmembers member hmember).2.1
  unfold detailsJSON
  split_ifs
  · rw [fitsJsonb, valid_render hreadable, parse_render hreadable, Bool.true_and, Option.any_some,
      zeroFree, zeroFreeMembers_iff]
    exact fun member hmember => ⟨(hnames member hmember).2, (hmembers member hmember).2.2⟩
  · decide

/-! ## What becomes of an event of the paste service -/

theorem fitsText_eventText (kind : EventKind) : fitsText (ascii (eventText kind)) = true := by
  cases kind <;> decide

theorem fitsText_outcomeText (outcome : Outcome) :
    fitsText (ascii (outcomeText outcome)) = true := by
  cases outcome <;> decide

theorem all_nullIfEmpty (value : Bytes) : (nullIfEmpty value).all fitsText = fitsText value := by
  unfold nullIfEmpty
  split_ifs with hempty
  · rw [hempty]
    rfl
  · rfl

/-- The row of an event that the paste service recorded during a request. -/
def rowOf (now : ℤ) (info : RequestInfo) (e : Event) : Row Address where
  atTime := pgTime (if e.atTime = zeroTime then now else e.atTime)
  event := ascii (eventText e.kind)
  actorId := e.actorId
  pasteId := e.pasteId
  ip := parseAddr info.ip
  userAgent := nullIfEmpty info.userAgent
  outcome := ascii (outcomeText e.outcome)
  details := detailsJSON e.details

/-- The user agent decides whether there is a row. -/
theorem record_ofPaste {e : Event} (hplain : ∀ entry ∈ e.details, IsPlain entry) (now : ℤ)
    (info : RequestInfo) (rows : List (Row Address)) :
    (record parseAddr now info rows (ofPaste e)).1 =
      if fitsText info.userAgent then rows ++ [rowOf parseAddr now info e] else rows := by
  have hinsert : insert rows (rowOf parseAddr now info e) =
      if fitsText info.userAgent then .ok (rows ++ [rowOf parseAddr now info e])
      else .error (.message "invalid byte sequence for encoding") := by
    have hdetails := fitsJsonb_detailsJSON hplain
    simp only [insert, rowOf, fitsText_eventText, fitsText_outcomeText, all_nullIfEmpty, hdetails,
      Bool.true_and, Bool.and_true]
    cases fitsText info.userAgent <;> rfl
  change (match insert rows (rowOf parseAddr now info e) with
    | .error err => (rows, some err)
    | .ok rows' => (rows', none)).1 = _
  rw [hinsert]
  split_ifs <;> rfl

end SecurePastebin.Store.Audit
