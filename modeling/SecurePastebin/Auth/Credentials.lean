import SecurePastebin.Auth.Local
import SecurePastebin.Core.Evaluation

/-!
# Failures of the credentials

What a login with a password comes to, for any users table and any hasher.  Each
login verifies one hash: that of the account, or the dummy where there is none
to verify against.  All that the caller learns of a failure is the error of this
one verification, or that the credentials are bad.
-/

namespace SecurePastebin.Auth

open Text Process SecurePastebin.Store

/-- A login: the users table, whose usernames are unique, a hasher, the replies
to the other calls, and what was given. -/
structure Attempt where
  users : Users
  unique : (users.rows.map User.username).Nodup
  hasher : (phc password : Bytes) → Except Err Bool
  answer : (request : Call) → request.Reply
  lookup : ∀ username, answer (.usersGetByUsername username) = users.getByUsername username
  verify : ∀ phc password, answer (.hasherVerify phc password) = hasher phc password
  dummyPHC : Bytes
  username : Bytes
  password : Bytes

def isVerify : Step → Bool
  | ⟨.hasherVerify .., _⟩ => true
  | _ => false

namespace Attempt

variable (attempt : Attempt)

/-- What `Authenticate` returns. -/
def outcome : Except Err User :=
  (authenticate attempt.dummyPHC attempt.username attempt.password).eval attempt.answer

/-- The calls of the hasher's `Verify`. -/
def verifications : List Step :=
  ((authenticate attempt.dummyPHC attempt.username attempt.password).answered
    attempt.answer).filter isVerify

/-- The account may log in with the password. -/
structure Accepts (u : User) : Prop where
  mem : u ∈ attempt.users.rows
  username : u.username = attempt.username
  provider : u.provider = .localAccount
  hash : u.passwordHash ≠ []
  verified : attempt.hasher u.passwordHash attempt.password = .ok true
  enabled : u.disabled = false

/-- The account there is to verify against. -/
def account : Option User :=
  (attempt.users.rows.find? fun u => u.username = attempt.username).filter fun u =>
    u.provider = .localAccount && u.passwordHash ≠ []

/-- The hash that is verified. -/
def hash : Bytes := (attempt.account.map User.passwordHash).getD attempt.dummyPHC

/-- What follows from the verification. -/
def verdict (verified : Bool) : Except Err User :=
  match attempt.account with
  | some u => if verified && !u.disabled then .ok u else .error .badCredentials
  | none => .error .badCredentials

/-- The one call of `Verify`, answered. -/
def verification : Step :=
  ⟨.hasherVerify attempt.hash attempt.password, attempt.hasher attempt.hash attempt.password⟩

theorem dummyFail_spec (reason : String) :
    (dummyFail attempt.dummyPHC attempt.username attempt.password reason).eval attempt.answer =
        (attempt.hasher attempt.dummyPHC attempt.password >>= fun _ => .error .badCredentials) ∧
      ((dummyFail attempt.dummyPHC attempt.username attempt.password reason).answered
        attempt.answer).filter isVerify =
          [⟨.hasherVerify attempt.dummyPHC attempt.password,
            attempt.hasher attempt.dummyPHC attempt.password⟩] := by
  simp only [dummyFail, Proc.perform_bind, Proc.eval_call, Proc.answered_call, attempt.verify]
  cases attempt.hasher attempt.dummyPHC attempt.password with
  | _ => exact ⟨rfl, rfl⟩

theorem of_no_account (haccount : attempt.account = none) :
    attempt.hash = attempt.dummyPHC ∧ attempt.verdict = fun _ => .error .badCredentials := by
  constructor
  · rw [hash, haccount]
    rfl
  · funext verified
    rw [verdict, haccount]

/-- A login verifies one hash, and returns the error of this or the verdict. -/
theorem authenticate_spec :
    attempt.outcome = (attempt.hasher attempt.hash attempt.password >>= attempt.verdict) ∧
      attempt.verifications = [attempt.verification] := by
  simp only [outcome, verifications, verification, authenticate, Proc.perform_bind, Proc.eval_call,
    Proc.answered_call, attempt.lookup, Users.getByUsername]
  cases hfind : attempt.users.rows.find? fun u => u.username = attempt.username with
  | none =>
      have haccount : attempt.account = none := by rw [account, hfind]; rfl
      obtain ⟨hhash, hverdict⟩ := attempt.of_no_account haccount
      rw [hhash, hverdict]
      exact dummyFail_spec attempt "unknown_user"
  | some u =>
      by_cases hlocal : u.provider ≠ .localAccount ∨ u.passwordHash = []
      · have haccount : attempt.account = none := by
          rw [account, hfind, Option.filter_some, if_neg]
          simpa [imp_iff_not_or] using hlocal
        obtain ⟨hhash, hverdict⟩ := attempt.of_no_account haccount
        rw [hhash, hverdict]
        dsimp only
        rw [if_pos hlocal]
        exact dummyFail_spec attempt "not_local"
      · have haccount : attempt.account = some u := by
          rw [account, hfind, Option.filter_some, if_pos]
          simpa [not_or] using hlocal
        have hhash : attempt.hash = u.passwordHash := by rw [hash, haccount]; rfl
        have hverdict : attempt.verdict = fun verified =>
            if verified && !u.disabled then .ok u else .error .badCredentials := by
          funext verified
          rw [verdict, haccount]
        dsimp only
        rw [if_neg hlocal, hhash, hverdict]
        simp only [Proc.eval_call, Proc.answered_call, attempt.verify]
        rcases attempt.hasher u.passwordHash attempt.password with err | verified
        · exact ⟨rfl, rfl⟩
        · cases verified with
          | false => exact ⟨rfl, rfl⟩
          | true =>
              cases hdisabled : u.disabled with
              | true => exact ⟨rfl, rfl⟩
              | false => exact ⟨rfl, rfl⟩

/-- The account is the one row with the username, if it is one to verify
against. -/
theorem account_eq_some_iff (u : User) :
    attempt.account = some u ↔ u ∈ attempt.users.rows ∧ u.username = attempt.username ∧
      u.provider = .localAccount ∧ u.passwordHash ≠ [] := by
  rw [account, Option.filter_eq_some_iff]
  simp only [Bool.and_eq_true, decide_eq_true_eq]
  constructor
  · rintro ⟨hfind, hprovider, hhash⟩
    exact ⟨List.mem_of_find?_eq_some hfind, by simpa using List.find?_some hfind, hprovider,
      hhash⟩
  · rintro ⟨hmem, husername, hprovider, hhash⟩
    refine ⟨?_, hprovider, hhash⟩
    rw [← husername]
    exact Table.find?_of_mem attempt.unique hmem

theorem accepts_iff (u : User) :
    attempt.Accepts u ↔ attempt.account = some u ∧
      attempt.hasher attempt.hash attempt.password = .ok true ∧ u.disabled = false := by
  constructor
  · intro haccepts
    have haccount : attempt.account = some u := (attempt.account_eq_some_iff u).mpr
      ⟨haccepts.mem, haccepts.username, haccepts.provider, haccepts.hash⟩
    have hhash : attempt.hash = u.passwordHash := by rw [hash, haccount]; rfl
    exact ⟨haccount, by rw [hhash]; exact haccepts.verified, haccepts.enabled⟩
  · rintro ⟨haccount, hverified, henabled⟩
    obtain ⟨hmem, husername, hprovider, hne⟩ := (attempt.account_eq_some_iff u).mp haccount
    have hhash : attempt.hash = u.passwordHash := by rw [hash, haccount]; rfl
    exact ⟨hmem, husername, hprovider, hne, by rw [← hhash]; exact hverified, henabled⟩

/-- A call of `Verify` ended in an error. -/
def Fails (err : Err) : Prop :=
  ∃ phc password, (⟨.hasherVerify phc password, .error err⟩ : Step) ∈ attempt.verifications

theorem fails_iff (err : Err) :
    attempt.Fails err ↔ attempt.hasher attempt.hash attempt.password = .error err := by
  rw [Fails, attempt.authenticate_spec.2]
  simp only [List.mem_singleton, verification, Sigma.mk.injEq, Call.hasherVerify.injEq]
  constructor
  · rintro ⟨phc, password, ⟨rfl, rfl⟩, hreply⟩
    exact (eq_of_heq hreply).symm
  · intro herror
    exact ⟨attempt.hash, attempt.password, ⟨rfl, rfl⟩, heq_of_eq herror.symm⟩

/-- Without an error of the verification, the outcome is the account that may
log in, or that the credentials are bad. -/
theorem outcome_of_verified (hverified : ∀ err, ¬ attempt.Fails err) :
    (∀ u, attempt.outcome = .ok u ↔ attempt.Accepts u) ∧
      ((∀ u, ¬ attempt.Accepts u) → attempt.outcome = .error .badCredentials) := by
  have houtcome := attempt.authenticate_spec.1
  cases hchecked : attempt.hasher attempt.hash attempt.password with
  | error err => exact absurd ((attempt.fails_iff err).mpr hchecked) (hverified err)
  | ok verified =>
      rw [hchecked] at houtcome
      change attempt.outcome = attempt.verdict verified at houtcome
      simp only [accepts_iff, hchecked, houtcome, verdict]
      cases attempt.account with
      | none => simp
      | some found =>
          cases verified <;> cases hdisabled : found.disabled <;> simp [hdisabled]

end Attempt

/-- Two logins, over any two users tables, with any hashers and inputs.  Each
makes one call of `Verify`.  If it ends without an error, the user is returned if
and only if there is a row with the username that is local, has a hash that
verifies the password and is not disabled, and otherwise the login returns that
the credentials are bad; so two logins that fail in this way return the same.  If
the call of `Verify` ends in an error, that is what is returned, whether or not
there is such a user.  All this is so of every run of a login whose replies are
the ones of its table and hasher. -/
theorem credential_failures_alike (one other : Attempt) :
    (∀ trace value,
      (authenticate one.dummyPHC one.username one.password).Reaches trace (.inr value) →
      (∀ step ∈ trace, step.2 = one.answer step.1) →
      value = one.outcome ∧ trace.filter isVerify = one.verifications) ∧
    (one.verifications.length = 1 ∧ other.verifications.length = 1) ∧
    ((∀ err, ¬ one.Fails err) →
      (∀ u, one.outcome = .ok u ↔ one.Accepts u) ∧
      ((∀ u, ¬ one.Accepts u) → one.outcome = .error .badCredentials)) ∧
    ((∀ err, ¬ one.Fails err) → (∀ err, ¬ other.Fails err) → (∀ u, ¬ one.Accepts u) →
      (∀ u, ¬ other.Accepts u) → one.outcome = other.outcome) ∧
    ∀ err, one.Fails err → other.Fails err →
      one.outcome = .error err ∧ other.outcome = .error err := by
  have hfails : ∀ (attempt : Attempt) err, attempt.Fails err → attempt.outcome = .error err := by
    intro attempt err hfails
    rw [attempt.authenticate_spec.1, (attempt.fails_iff err).mp hfails]
    rfl
  refine ⟨?_, ⟨?_, ?_⟩, one.outcome_of_verified, ?_, ?_⟩
  · intro trace value hreach htrace
    obtain ⟨hvalue, hanswered⟩ := Proc.eq_eval_of_reaches hreach htrace
    exact ⟨hvalue, congrArg (List.filter isVerify) hanswered⟩
  · rw [one.authenticate_spec.2, List.length_singleton]
  · rw [other.authenticate_spec.2, List.length_singleton]
  · intro hone hother hrefused hrefused'
    rw [(one.outcome_of_verified hone).2 hrefused, (other.outcome_of_verified hother).2 hrefused']
  · intro err hone hother
    exact ⟨hfails one err hone, hfails other err hother⟩

namespace Sample

/-- The replies of a table and a hasher that takes the hash for the password;
calls that a login with a password does not make fail. -/
def replies (users : Users) : (request : Call) → request.Reply
  | .usersGetByUsername username => users.getByUsername username
  | .hasherVerify phc password => .ok (phc == password)
  | .now => 0
  | .usersTouchLogin .. => .ok ()
  | .auditRecord _ => ()
  | .randomToken => []
  | .newUUID => Uuid.UUID.filled 0
  | .usersCreate _ => .error .userExists
  | .usersGetByID _ => .error .userNotFound
  | .usersUpsertOIDC _ => .error .userNotFound
  | .usersSetPasswordHash .. => .error .userNotFound
  | .usersSetDisabled .. => .error .userNotFound
  | .hasherHash _ => .error .badCredentials
  | .statesSet .. => .error .oidcStateInvalid
  | .statesGetDel _ => .ok none
  | .exchange .. => .ok none
  | .verifyIDToken _ => .error .canceled

/-- A local account with the password `secret`. -/
def account (number : UInt8) (username : String) (disabled : Bool) : User where
  id := .filled number
  username := ascii username
  displayName := []
  provider := .localAccount
  oidcIssuer := []
  oidcSubject := []
  passwordHash := ascii "secret"
  isAdmin := false
  disabled := disabled
  lastLoginAt := none

def accounts : Users := ⟨[account 1 "ana" false, account 2 "bob" true], by decide⟩

/-- A login with the password `secret`. -/
def attempt (username : String) : Attempt where
  users := accounts
  unique := by decide
  hasher phc password := .ok (phc == password)
  answer := replies accounts
  lookup _ := rfl
  verify _ _ := rfl
  dummyPHC := ascii "dummy"
  username := ascii username
  password := ascii "secret"

theorem attempt_verified (username : String) (err : Err) : ¬ (attempt username).Fails err := by
  rw [Attempt.fails_iff]
  intro herror
  cases herror

end Sample

/-- Ana logs in; the right password of Bob, who is disabled, and an account that
is not there come to the same. -/
theorem credential_failures_alike_sample :
    (Sample.attempt "ana").outcome = .ok (Sample.account 1 "ana" false) ∧
      (Sample.attempt "bob").outcome = (Sample.attempt "eve").outcome := by
  obtain ⟨-, -, hana, -⟩ := credential_failures_alike (Sample.attempt "ana") (Sample.attempt "ana")
  obtain ⟨-, -, -, halike, -⟩ :=
    credential_failures_alike (Sample.attempt "bob") (Sample.attempt "eve")
  refine ⟨((hana (Sample.attempt_verified "ana")).1 _).mpr ⟨by decide, rfl, rfl, by decide, ?_, rfl⟩,
    halike (Sample.attempt_verified "bob") (Sample.attempt_verified "eve") ?_ ?_⟩
  · decide
  · rintro u ⟨hmem, husername, -, -, -, henabled⟩
    simp only [Sample.attempt, Sample.accounts, List.mem_cons, List.not_mem_nil, or_false] at hmem
    rcases hmem with rfl | rfl
    · exact absurd husername (by decide)
    · cases henabled
  · rintro u ⟨hmem, husername, -⟩
    simp only [Sample.attempt, Sample.accounts, List.mem_cons, List.not_mem_nil, or_false] at hmem
    rcases hmem with rfl | rfl <;> exact absurd husername (by decide)

end SecurePastebin.Auth
