import SecurePastebin.Auth.Ports

/-!
# Login with a password

`internal/auth/local.go`.  Every failure of the credentials verifies exactly one
hash and gives the same error.
-/

namespace SecurePastebin.Auth

open Text Process

/-- `l.fail`. -/
def credentialsFail (username : Bytes) (reason : String) : Port (Except Err User) := do
  let time ← Port.now
  Port.auditRecord ⟨time, .loginFailure, none, .failure,
    [("username", .text username), ("reason", .text (ascii reason)),
      ("provider", .text (ascii "local"))]⟩
  return .error .badCredentials

/-- Verify the dummy hash before the failure is reported. -/
def dummyFail (dummyPHC username password : Bytes) (reason : String) : Port (Except Err User) := do
  match ← Port.hasherVerify dummyPHC password with
  | .error err => return .error err
  | .ok _ => credentialsFail username reason

def authenticate (dummyPHC username password : Bytes) : Port (Except Err User) := do
  match ← Port.usersGetByUsername username with
  | .error err =>
      if Err.is .userNotFound err then dummyFail dummyPHC username password "unknown_user"
      else return .error err
  | .ok user =>
      if user.provider ≠ .localAccount ∨ user.passwordHash = [] then
        dummyFail dummyPHC username password "not_local"
      else
        match ← Port.hasherVerify user.passwordHash password with
        | .error err => return .error err
        | .ok false => credentialsFail username "wrong_password"
        | .ok true =>
            if user.disabled then credentialsFail username "disabled"
            else do
              let now ← Port.now
              let _ ← Port.usersTouchLogin user.id now
              Port.auditRecord ⟨now, .loginSuccess, some user.id, .success,
                [("provider", .text (ascii "local"))]⟩
              return .ok user

/-! ## Program points -/

/-- The calls of a login with a password. -/
def ofLocal : Call → Prop
  | .now | .auditRecord _ | .hasherVerify .. | .usersGetByUsername _ | .usersTouchLogin .. => True
  | _ => False

theorem dummyFail_calls (dummyPHC username password : Bytes) (reason : String) :
    (dummyFail dummyPHC username password reason).CallsOnly ofLocal := by
  refine ⟨trivial, fun checked => ?_⟩
  cases checked with
  | error err => trivial
  | ok _ => exact ⟨trivial, fun _ => ⟨trivial, fun _ => trivial⟩⟩

theorem authenticate_calls (dummyPHC username password : Bytes) :
    (authenticate dummyPHC username password).CallsOnly ofLocal := by
  refine ⟨trivial, fun found => ?_⟩
  cases found with
  | error err =>
      change Proc.CallsOnly _ (ite ..)
      split_ifs
      · exact dummyFail_calls ..
      · trivial
  | ok user =>
      change Proc.CallsOnly _ (ite ..)
      split
      · exact dummyFail_calls ..
      · refine ⟨trivial, fun checked => ?_⟩
        match checked with
        | .error err => trivial
        | .ok false => exact ⟨trivial, fun _ => ⟨trivial, fun _ => trivial⟩⟩
        | .ok true =>
            change Proc.CallsOnly _ (ite ..)
            split_ifs
            · exact ⟨trivial, fun _ => ⟨trivial, fun _ => trivial⟩⟩
            · exact ⟨trivial, fun _ => ⟨trivial, fun _ => ⟨trivial, fun _ => trivial⟩⟩⟩

theorem credentialsFail_error {username : Bytes} {reason : String} {sub : List Step}
    {outcome : Except Err User}
    (hreach : (credentialsFail username reason).Reaches sub (.inr outcome)) :
    outcome = .error .badCredentials := by
  simp only [credentialsFail, Proc.perform_bind, Proc.reaches_call_result] at hreach
  obtain ⟨_, _, -, _, _, -, -, hpoint⟩ := hreach
  exact Sum.inr.inj hpoint

theorem dummyFail_error {dummyPHC username password : Bytes} {reason : String}
    {sub : List Step} {outcome : Except Err User}
    (hreach : (dummyFail dummyPHC username password reason).Reaches sub (.inr outcome)) :
    ∃ err, outcome = .error err := by
  simp only [dummyFail, Proc.perform_bind, Proc.reaches_call_result] at hreach
  obtain ⟨checked, _, -, hreach⟩ := hreach
  cases checked with
  | error err => exact ⟨err, Sum.inr.inj hreach.2⟩
  | ok _ => exact ⟨_, credentialsFail_error hreach⟩

/-- The calls of a login with a password that succeeds: the row it was given is of
an account in use. -/
theorem authenticate_ok {dummyPHC username password : Bytes} {u : User}
    {sub : List Step}
    (hreach : (authenticate dummyPHC username password).Reaches sub (.inr (.ok u))) :
    u.disabled = false ∧ ∃ checked now touched event recorded,
      sub = [⟨.usersGetByUsername username, .ok u⟩, ⟨.hasherVerify u.passwordHash password, checked⟩,
        ⟨.now, now⟩, ⟨.usersTouchLogin u.id now, touched⟩, ⟨.auditRecord event, recorded⟩] := by
  simp only [authenticate, Proc.perform_bind, Proc.reaches_call_result] at hreach
  obtain ⟨found, tail, rfl, hreach⟩ := hreach
  cases found with
  | error err =>
      dsimp only at hreach
      split_ifs at hreach
      · obtain ⟨_, heq⟩ := dummyFail_error hreach
        cases heq
      · cases hreach.2
  | ok user =>
      dsimp only at hreach
      split at hreach
      · obtain ⟨_, heq⟩ := dummyFail_error hreach
        cases heq
      · rw [Proc.reaches_call_result] at hreach
        obtain ⟨checked, tail, rfl, hreach⟩ := hreach
        rcases checked with err | verified
        · cases hreach.2
        · cases verified with
          | false => cases credentialsFail_error hreach
          | true =>
              dsimp only at hreach
              split_ifs at hreach with hdisabled
              · cases credentialsFail_error hreach
              · simp only [Proc.reaches_call_result] at hreach
                obtain ⟨now, _, rfl, touched, _, rfl, recorded, _, rfl, rfl, hpoint⟩ := hreach
                cases hpoint
                exact ⟨by simpa using hdisabled, _, now, touched, _, recorded, rfl⟩

/-- A password is compared once the row has been looked up, and not again. -/
theorem authenticate_verify {dummyPHC username password phc supplied : Bytes} {sub : List Step}
    (hreach : (authenticate dummyPHC username password).Reaches sub
      (.inl (.hasherVerify phc supplied))) :
    supplied = password ∧ ∃ found, sub = [⟨.usersGetByUsername username, found⟩] := by
  have hfail : ∀ {reason : String} {sub : List Step},
      ¬ (credentialsFail username reason).Reaches sub (.inl (.hasherVerify phc supplied)) := by
    rintro reason sub (⟨-, hpoint⟩ | ⟨time, tail, -, ⟨-, hpoint⟩ | ⟨recorded, rest, -, -, hpoint⟩⟩)
    · cases hpoint
    · cases hpoint
    · cases hpoint
  have hdummy : ∀ {reason : String} {sub : List Step},
      (dummyFail dummyPHC username password reason).Reaches sub (.inl (.hasherVerify phc supplied)) →
        sub = [] ∧ supplied = password := by
    rintro reason sub (⟨rfl, hpoint⟩ | ⟨checked, tail, -, hrest⟩)
    · cases hpoint
      exact ⟨rfl, rfl⟩
    · cases checked with
      | error err => cases hrest.2
      | ok _ => exact absurd hrest hfail
  simp only [authenticate, Proc.perform_bind] at hreach
  rcases hreach with ⟨-, ⟨⟩⟩ | ⟨found, tail, rfl, hreach⟩
  cases found with
  | error err =>
      dsimp only at hreach
      split_ifs at hreach
      · obtain ⟨rfl, hsupplied⟩ := hdummy hreach
        exact ⟨hsupplied, _, rfl⟩
      · cases hreach.2
  | ok user =>
      dsimp only at hreach
      split at hreach
      · obtain ⟨rfl, hsupplied⟩ := hdummy hreach
        exact ⟨hsupplied, _, rfl⟩
      · rcases hreach with ⟨rfl, hpoint⟩ | ⟨checked, tail, rfl, hreach⟩
        · cases hpoint
          exact ⟨rfl, _, rfl⟩
        · rcases checked with err | verified
          · cases hreach.2
          · cases verified with
            | false => exact absurd hreach hfail
            | true =>
                dsimp only at hreach
                split_ifs at hreach
                · exact absurd hreach hfail
                · rcases hreach with ⟨-, hpoint⟩ | ⟨now, tail, rfl, ⟨-, hpoint⟩ |
                    ⟨touched, tail, rfl, ⟨-, hpoint⟩ | ⟨recorded, tail, rfl, -, hpoint⟩⟩⟩
                  all_goals cases hpoint

end SecurePastebin.Auth
