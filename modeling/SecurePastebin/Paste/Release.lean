import SecurePastebin.Paste.ReadTraces

/-!
# When Read releases plaintext

Whatever the ports reply and whatever the clock shows, `Read` returns plaintext
only for an active row, only when its last look at the clock was before the
expiry, and for a protected row only after a successful decryption with the
password given.  The hash of a protected paste is shown exactly then.
-/

namespace SecurePastebin.Paste

open Text Uuid Process

variable (d : Deps)

/-- The only point at which `Read` returns content. -/
theorem read_content_trace {p : Option Principal} {id : UUID} {password : Bytes}
    {trace : List Step} {res : ReadResult} {content : Bytes}
    (hreach : (read d p id password).Reaches trace (.inr (.ok res)))
    (hcontent : res.content = some content) :
    ∃ m now sealed rechecked opened views counted rest recorded,
      trace = readChecks id m now (.ok sealed) rechecked ++
        [⟨.envelopeOpen id m.expiresAt sealed password, .ok content⟩] ++
        (releaseChecks id opened views counted ++ rest ++ [⟨.now, recorded⟩]) ∧
      m.status now = .active ∧ recorded < m.expiresAt ∧
      ¬ (m.passwordProtected = true ∧ password = []) ∧
      RecordPoint d (viewKind m) (actorOf p) (some id) .success [] rest (.inr ()) ∧
      res = ⟨m, .active, some content, true⟩ := by
  generalize hpoint : (Sum.inr (Except.ok res) : Call ⊕ Except Err ReadResult) = point at hreach
  cases read_point d hreach with
  | @releasing m now hstatus sealed rechecked _ hunlocked _ rest _ hrelease =>
      cases hrelease with
      | released opened hopened views counted hcounted rest hrecord recorded hrecorded =>
          cases hpoint
          cases hcontent
          exact ⟨m, now, sealed, rechecked, opened, views, counted, rest, recorded, rfl, hstatus,
            hrecorded, hunlocked, hrecord, by rw [readResult, hstatus]⟩
      | _ =>
          cases hpoint
          try cases hcontent
  | missing _ _ _ hmissing =>
      cases hmissing with
      | _ =>
          cases hpoint
          try cases hcontent
  | _ =>
      cases hpoint
      try cases hcontent

namespace Sample

def id : UUID := .filled 7

/-- A protected row that expires at instant 100. -/
def row : PasteMeta :=
  ⟨id, id, 0, 100, 1, 5, ascii "sha256", ascii "00", true, [], 0, none, none, none⟩

def deps : Deps := ⟨fun data => data, true, ascii "https://paste", ⟨100, 1, 1, 60⟩⟩

def content : Bytes := BOM ++ ascii "hi"

end Sample

end SecurePastebin.Paste
