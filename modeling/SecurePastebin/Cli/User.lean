import SecurePastebin.Auth.Ports
import SecurePastebin.Core.Utf8

/-!
# The user commands

`internal/cli/user.go`: creating a local user, setting a password, disabling and
enabling.  The arguments are taken as parsed, and the password as what reading
it gave; the command that lists the users is left out.
-/

namespace SecurePastebin.Cli

open Text Process Utf8 Auth

inductive Command where
  | create (username displayName : Bytes) (admin : Bool) (password : Except Err Bytes)
  | setPassword (username : Bytes) (password : Except Err Bytes)
  | disable (username : Bytes)
  | enable (username : Bytes)
  deriving DecidableEq

def minLocalPasswordLen : ℕ := 12

def validateUserPassword (password : Bytes) : Except Err Unit :=
  if valid password = false then .error (.message "password must be valid UTF-8")
  else if runeCount password < minLocalPasswordLen then
    .error (.message "password must be at least 12 characters")
  else .ok ()

/-- The hash of a password that was read and passes the checks. -/
def hashPassword (password : Except Err Bytes) : Port (Except Err Bytes) :=
  match password with
  | .error err => return .error err
  | .ok text =>
      match validateUserPassword text with
      | .error err => return .error err
      | .ok () => Port.hasherHash text

def createUser (username displayName : Bytes) (admin : Bool) (password : Except Err Bytes)
    (now : ℤ) : Port (Except Err Bytes) := do
  match ← hashPassword password with
  | .error err => return .error err
  | .ok passwordHash =>
      let id ← Port.newUUID
      let user : User :=
        { id
          username
          displayName
          provider := .localAccount
          oidcIssuer := []
          oidcSubject := []
          passwordHash
          isAdmin := admin
          disabled := false
          lastLoginAt := none }
      match ← Port.usersCreate user with
      | .error err => return .error err
      | .ok () =>
          Port.auditRecord ⟨now, .userCreated, some user.id, .success,
            [("username", .text username), ("admin", .bool admin), ("via", .text (ascii "cli"))]⟩
          return .ok (ascii "created user " ++ username ++ ascii " (" ++ id.text ++ ascii ")")

def setUserPassword (username : Bytes) (password : Except Err Bytes) : Port (Except Err Bytes) := do
  match ← Port.usersGetByUsername username with
  | .error err => return .error err
  | .ok user =>
      if user.provider ≠ .localAccount then
        return .error (.message "passwords can only be set for local users")
      else
        match ← hashPassword password with
        | .error err => return .error err
        | .ok passwordHash =>
            match ← Port.usersSetPasswordHash user.id passwordHash with
            | .error err => return .error err
            | .ok () => return .ok (ascii "password updated for " ++ user.username)

/-- `disable` and `enable`; only the former is audited. -/
def setUserDisabled (username : Bytes) (disabled : Bool) (now : ℤ) : Port (Except Err Bytes) := do
  match ← Port.usersGetByUsername username with
  | .error err => return .error err
  | .ok user =>
      match ← Port.usersSetDisabled user.id disabled with
      | .error err => return .error err
      | .ok () =>
          if disabled then
            Port.auditRecord ⟨now, .userDisabled, some user.id, .success,
              [("username", .text user.username), ("via", .text (ascii "cli"))]⟩
          return .ok (user.username ++ ascii ": disabled=" ++
            ascii (if disabled then "true" else "false"))

/-- What a command prints, or the error it reports. -/
def runUser (command : Command) : Port (Except Err Bytes) := do
  let now ← Port.now
  match command with
  | .create username displayName admin password =>
      createUser username displayName admin password now
  | .setPassword username password => setUserPassword username password
  | .disable username => setUserDisabled username true now
  | .enable username => setUserDisabled username false now

/-! ## Program points -/

/-- The calls of a command. -/
def ofCommand : Call → Prop
  | .now | .newUUID | .hasherHash _ | .usersCreate _ | .usersGetByUsername _
  | .usersSetPasswordHash .. | .usersSetDisabled .. | .auditRecord _ => True
  | _ => False

theorem hashPassword_calls (password : Except Err Bytes) :
    (hashPassword password).CallsOnly ofCommand := by
  unfold hashPassword
  split
  · trivial
  · split
    · trivial
    · exact ⟨trivial, fun _ => trivial⟩

theorem runUser_calls (command : Command) : (runUser command).CallsOnly ofCommand := by
  have hflag : ∀ username disabled now,
      (setUserDisabled username disabled now).CallsOnly ofCommand := by
    refine fun username disabled now => ⟨trivial, fun found => ?_⟩
    cases found with
    | error err => trivial
    | ok user =>
        refine ⟨trivial, fun set => ?_⟩
        cases set with
        | error err => trivial
        | ok done =>
            cases disabled with
            | false => trivial
            | true => exact ⟨trivial, fun _ => trivial⟩
  refine ⟨trivial, fun now => ?_⟩
  cases command with
  | create username displayName admin password =>
      refine (hashPassword_calls password).bind fun hashed => ?_
      cases hashed with
      | error err => trivial
      | ok passwordHash =>
          refine ⟨trivial, fun id => ⟨trivial, fun created => ?_⟩⟩
          cases created with
          | error err => trivial
          | ok done => exact ⟨trivial, fun _ => trivial⟩
  | setPassword username password =>
      refine ⟨trivial, fun found => ?_⟩
      cases found with
      | error err => trivial
      | ok user =>
          change Proc.CallsOnly _ (ite ..)
          split
          · trivial
          · refine (hashPassword_calls password).bind fun hashed => ?_
            cases hashed with
            | error err => trivial
            | ok passwordHash =>
                refine ⟨trivial, fun set => ?_⟩
                cases set <;> trivial
  | _ => exact hflag ..

end SecurePastebin.Cli
