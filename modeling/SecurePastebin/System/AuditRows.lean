import SecurePastebin.Store.Audit
import SecurePastebin.Store.Lifecycle
import SecurePastebin.System.Grammar

/-!
# The audit row of a request

Every event the paste service records becomes one row, whatever address the
request came from, if its user agent is text the database takes.  A header may
carry bytes that are not UTF-8, and then there is no row.
-/

namespace SecurePastebin.System

open Text Uuid Paste Process
open SecurePastebin.Store Store.Audit

/-- The bytes of a header value: no control character but the tab. -/
def isHeaderValue (value : Bytes) : Bool :=
  value.all fun byte => byte == 0x09 || (0x20 ≤ byte && byte != 0x7F)

theorem isPlain_of_ownDetails {details : List (String × Detail)} (hown : OwnDetails details) :
    ∀ entry ∈ details, IsPlain entry := by
  have hnames : ∀ name ∈ ["size_bytes", "ttl_seconds", "password_protected", "match", "status",
      "by_admin"], fitsText (ascii name) = true := by decide
  intro entry hentry
  obtain ⟨hname, hvalue⟩ := hown entry hentry
  exact ⟨hnames entry.1 hname, hvalue⟩

/-- Recording an event of the paste service inserts exactly one row, with what the
request and the event say, if and only if the user agent is valid UTF-8 without a
zero byte; otherwise it leaves the table as it is. -/
theorem recorded_once {Address : Type} {sys : Params} {op : Op} (hservice : op ≠ .sweep)
    {trace : List Step} {e : Event}
    (hreach : (program sys op).Reaches trace (.inl (.auditRecord e)))
    (parseAddr : Bytes → Option Address) (now : ℤ) (info : RequestInfo)
    (rows : List (Row Address)) :
    ((Audit.record parseAddr now info rows (ofPaste e)).1 =
        rows ++ [rowOf parseAddr now info e] ↔ fitsText info.userAgent = true) ∧
      (fitsText info.userAgent = false →
        (Audit.record parseAddr now info rows (ofPaste e)).1 = rows) := by
  have hplain := isPlain_of_ownDetails (ownDetails_of_reaches hservice hreach)
  rw [record_ofPaste parseAddr hplain]
  cases fitsText info.userAgent <;> simp

namespace Sample

/-- A verification with a wrong digest, up to the recording of its event. -/
def verifying : List Step :=
  [⟨.metasGet id, .ok (Pastes.Sample.row 9 60)⟩, ⟨.now, 0⟩, ⟨.now, 0⟩]

def mismatch : Event :=
  ⟨0, .pasteVerify, none, some id, .failure, [("match", .bool false), ("status", .status .active)]⟩

theorem reaches_mismatch :
    (program params (.verify id (ascii "00"))).Reaches verifying (.inl (.auditRecord mismatch)) := by
  refine Proc.reaches_map_call.mpr ?_
  exact .inr ⟨_, _, rfl, .inr ⟨_, _, rfl, .inr ⟨_, _, rfl, .inl ⟨rfl, rfl⟩⟩⟩⟩

/-- An address, and a user agent in UTF-8. -/
def plainRequest : RequestInfo := ⟨ascii "10.0.0.5", ascii "curl/8"⟩

/-- The same with one byte that is not UTF-8 at the end of the user agent. -/
def strayRequest : RequestInfo := ⟨ascii "10.0.0.5", ascii "curl/8" ++ [0xFF]⟩

end Sample

theorem recorded_once_sample :
    (Audit.record some 0 Sample.plainRequest [] (ofPaste Sample.mismatch)).1 =
      [rowOf some 0 Sample.plainRequest Sample.mismatch] :=
  (recorded_once (by decide) Sample.reaches_mismatch some 0 Sample.plainRequest []).1.mpr (by decide)

/-- A byte above 0x7F in the user agent keeps the event out of the table. -/
theorem not_recorded :
    isHeaderValue Sample.strayRequest.userAgent = true ∧
      (program Sample.params (.verify Sample.id (ascii "00"))).Reaches Sample.verifying
        (.inl (.auditRecord Sample.mismatch)) ∧
      (Audit.record some 0 Sample.strayRequest [] (ofPaste Sample.mismatch)).1 = [] := by
  refine ⟨by decide, Sample.reaches_mismatch, ?_⟩
  have hown := ownDetails_of_reaches (by decide) Sample.reaches_mismatch
  rw [record_ofPaste some (isPlain_of_ownDetails hown), if_neg (by decide)]

end SecurePastebin.System
