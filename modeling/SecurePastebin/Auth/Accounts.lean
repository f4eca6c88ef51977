import SecurePastebin.Auth.Ports

/-!
# Accounts and identities

What sequences of user store operations leave of the rows.  The columns that say
whose account a row is are written once; a login through the identity provider
finds the row of its identity, whatever user name it claims.
-/

namespace SecurePastebin.Auth

open Text Uuid SecurePastebin.Store

/-! ## Operations on the user store -/

inductive Operation where
  | create (u : User)
  | upsertOIDC (u : User) (now : ℤ)
  | setPasswordHash (id : UUID) (passwordHash : Bytes)
  | setDisabled (id : UUID) (disabled : Bool)
  | touchLogin (id : UUID) (time : ℤ)

namespace Operation

/-- What the operation leaves of the table; a failed one changes nothing. -/
def apply (users : Users) : Operation → Users
  | .create u => written users (users.create u)
  | .upsertOIDC u now => written users ((users.upsertOIDC now u).map Prod.snd)
  | .setPasswordHash id passwordHash => written users (users.setPasswordHash id passwordHash)
  | .setDisabled id disabled => users.setDisabled id disabled
  | .touchLogin id time => users.touchLogin id time

def run (users : Users) (operations : List Operation) : Users := operations.foldl apply users

/-- The commands create local accounts, and the flow names an identity. -/
def WellCalled : Operation → Prop
  | .create u => u.provider = .localAccount ∧ u.oidcIssuer = [] ∧ u.oidcSubject = []
  | .upsertOIDC u _ => u.oidcIssuer ≠ [] ∧ u.oidcSubject ≠ []
  | _ => True

end Operation

/-! ## What stays of a row -/

/-- Both rows are the same account: the columns no operation writes again. -/
structure SameAccount (row row' : User) : Prop where
  id : row'.id = row.id
  username : row'.username = row.username
  provider : row'.provider = row.provider
  oidcIssuer : row'.oidcIssuer = row.oidcIssuer
  oidcSubject : row'.oidcSubject = row.oidcSubject

theorem SameAccount.refl (row : User) : SameAccount row row := ⟨rfl, rfl, rfl, rfl, rfl⟩

theorem SameAccount.trans {row row' row'' : User} (hfirst : SameAccount row row')
    (hsecond : SameAccount row' row'') : SameAccount row row'' :=
  ⟨hsecond.id.trans hfirst.id, hsecond.username.trans hfirst.username,
    hsecond.provider.trans hfirst.provider, hsecond.oidcIssuer.trans hfirst.oidcIssuer,
    hsecond.oidcSubject.trans hfirst.oidcSubject⟩

/-- Each table has the accounts of the other one. -/
structure SameAccounts (users users' : Users) : Prop where
  kept : ∀ id row, users.find id = some row →
    ∃ row', users'.find id = some row' ∧ SameAccount row row'
  origin : ∀ id row', users'.find id = some row' →
    ∃ row, users.find id = some row ∧ SameAccount row row'

/-- An update of columns that do not identify the account. -/
theorem sameAccounts_update (users : Users) (condition : User → Bool) (f : User → User)
    (hkey : ∀ row, (f row).id = row.id) (hsame : ∀ row, SameAccount row (f row)) :
    SameAccounts users (users.update condition f hkey) := by
  have hrow : ∀ row, SameAccount row (if condition row then f row else row) := by
    intro row
    split
    · exact hsame row
    · exact .refl row
  constructor
  · intro id row hfind
    exact ⟨_, by rw [Table.find_update, hfind, Option.map_some], hrow row⟩
  · intro id row' hfind
    rw [Table.find_update, Option.map_eq_some_iff] at hfind
    obtain ⟨row, hfound, rfl⟩ := hfind
    exact ⟨row, hfound, hrow row⟩

theorem sameAccounts_setPasswordHash {users users' : Users} {id : UUID} {passwordHash : Bytes}
    (hset : users.setPasswordHash id passwordHash = .ok users') : SameAccounts users users' := by
  unfold Users.setPasswordHash at hset
  split at hset
  · cases hset
  · cases hset
    exact sameAccounts_update _ _ _ _ fun _ => ⟨rfl, rfl, rfl, rfl, rfl⟩

theorem sameAccounts_setDisabled (users : Users) (id : UUID) (disabled : Bool) :
    SameAccounts users (users.setDisabled id disabled) :=
  sameAccounts_update _ _ _ _ fun _ => ⟨rfl, rfl, rfl, rfl, rfl⟩

theorem sameAccounts_touchLogin (users : Users) (id : UUID) (time : ℤ) :
    SameAccounts users (users.touchLogin id time) :=
  sameAccounts_update _ _ _ _ fun _ => ⟨rfl, rfl, rfl, rfl, rfl⟩

theorem refreshed_sameAccount (u : User) (now : ℤ) (row : User) :
    SameAccount row (Users.refreshed u now row) := ⟨rfl, rfl, rfl, rfl, rfl⟩

theorem sameIdentity_iff {u row : User} :
    Users.sameIdentity u row = true ↔ u.oidcIssuer ≠ [] ∧ u.oidcSubject ≠ [] ∧
      row.oidcIssuer = u.oidcIssuer ∧ row.oidcSubject = u.oidcSubject := by
  simp [Users.sameIdentity, and_assoc]

/-- An insert that is not refused adds its row, which has a user name and an
identity of its own. -/
theorem insertRow_ok {users users' : Users} {u : User} (hinsert : users.insertRow u = .ok users') :
    users.find u.id = none ∧
      (∀ id, users'.find id = if id = u.id then some u else users.find id) ∧
      ∀ row ∈ users.rows, row.username ≠ u.username ∧ Users.sameIdentity u row = false := by
  unfold Users.insertRow at hinsert
  split at hinsert
  · cases hinsert
  · rename_i hnone
    split at hinsert
    · cases hinsert
    · rename_i found hfound
      cases hinsert
      obtain ⟨hfresh, hfind⟩ := Table.insert_eq_some hfound
      refine ⟨hfresh, hfind, fun row hrow => ?_⟩
      rw [not_not, Table.count, List.countP_eq_zero] at hnone
      simpa using hnone row hrow

theorem insertRow_of_taken {users : Users} {u row : User} (hrow : row ∈ users.rows)
    (htaken : row.username = u.username) : users.insertRow u = .error .userExists := by
  unfold Users.insertRow
  rw [if_pos]
  intro hnone
  rw [Table.count, List.countP_eq_zero] at hnone
  simpa [htaken] using hnone row hrow

/-! ## A login through the identity provider -/

section Upsert

variable {users users' : Users} {u stored : User} {now : ℤ}

/-- A successful upsert returns the one row it has changed: the row of the
identity, or a new one. -/
theorem upsertOIDC_ok (hupsert : users.upsertOIDC now u = .ok (stored, users')) :
    (∀ id, users'.find id = if id = stored.id then some stored else users.find id) ∧
      ((∃ row, users.find stored.id = some row ∧ Users.sameIdentity u row = true ∧
          stored = Users.refreshed u now row) ∨
        stored = Users.provisioned u now ∧ users.find stored.id = none ∧
          ∀ row ∈ users.rows, row.username ≠ u.username ∧ Users.sameIdentity u row = false) := by
  unfold Users.upsertOIDC at hupsert
  split at hupsert
  · cases hupsert
  split at hupsert
  · rename_i row hrow
    cases hupsert
    have hmem : users.find row.id = some row := Table.find_of_mem (List.mem_of_find?_eq_some hrow)
    refine ⟨fun id => ?_, .inl ⟨row, hmem, List.find?_some hrow, rfl⟩⟩
    refine (Table.find_update _ _ _ id).trans ?_
    change _ = if id = row.id then _ else _
    by_cases hid : id = row.id
    · rw [if_pos hid, hid, hmem]
      simp
    · rw [if_neg hid]
      cases hfind : users.find id with
      | none => rfl
      | some other =>
          have hother : other.id ≠ row.id := by
            rw [Table.key_of_find hfind]
            exact hid
          simp [hother]
  · cases hinsert : users.insertRow (Users.provisioned u now) with
    | error err =>
        rw [hinsert] at hupsert
        cases hupsert
    | ok found =>
        rw [hinsert] at hupsert
        cases hupsert
        obtain ⟨hfresh, hfind, hothers⟩ := insertRow_ok hinsert
        exact ⟨hfind, .inr ⟨rfl, hfresh, hothers⟩⟩

/-- The identity of a login has a row: the login succeeds with that row, whatever
user name it claims. -/
theorem upsertOIDC_of_identity (hfits : Users.fits (Users.provisioned u now) = true) {row : User}
    (hrow : row ∈ users.rows) (hidentity : Users.sameIdentity u row = true) :
    ∃ found users', users.upsertOIDC now u = .ok (Users.refreshed u now found, users') ∧
      found ∈ users.rows ∧ Users.sameIdentity u found = true := by
  have hsome : (users.rows.find? (Users.sameIdentity u)).isSome = true :=
    List.find?_isSome.mpr ⟨row, hrow, hidentity⟩
  obtain ⟨found, hfound⟩ := Option.isSome_iff_exists.mp hsome
  refine ⟨found, users.update (fun other => other.id = found.id) (Users.refreshed u now) fun _ => rfl,
    ?_, List.mem_of_find?_eq_some hfound, List.find?_some hfound⟩
  simp only [Users.upsertOIDC, hfits, hfound, Bool.not_true, Bool.false_eq_true, if_false]

/-- A first login under a user name that is taken. -/
theorem upsertOIDC_of_taken (hfits : Users.fits (Users.provisioned u now) = true)
    (hfirst : ∀ row ∈ users.rows, Users.sameIdentity u row = false) {row : User}
    (hrow : row ∈ users.rows) (htaken : row.username = u.username) :
    users.upsertOIDC now u = .error .userExists := by
  have hnone : users.rows.find? (Users.sameIdentity u) = none :=
    List.find?_eq_none.mpr fun other hother => by simp [hfirst other hother]
  have hinsert : users.insertRow (Users.provisioned u now) = .error .userExists :=
    insertRow_of_taken hrow htaken
  simp only [Users.upsertOIDC, hfits, hnone, hinsert, Bool.not_true, Bool.false_eq_true, if_false]
  rfl

end Upsert

/-! ## What every operation keeps -/

/-- No two rows have the same identity, and a local account has none. -/
structure Consistent (users : Users) : Prop where
  identities : ∀ row ∈ users.rows, ∀ other ∈ users.rows,
    Users.sameIdentity row other = true → other.id = row.id
  locals : ∀ row ∈ users.rows, row.provider = .localAccount → row.oidcIssuer = []

/-- Every row was there before, as the same account. -/
theorem Consistent.of_sameAccounts {users users' : Users} (hconsistent : Consistent users)
    (hrows : ∀ id row', users'.find id = some row' →
      ∃ row, users.find id = some row ∧ SameAccount row row') : Consistent users' := by
  have hback : ∀ row' ∈ users'.rows, ∃ row ∈ users.rows, SameAccount row row' := by
    intro row' hrow'
    obtain ⟨row, hrow, hsame⟩ := hrows _ _ (Table.find_of_mem hrow')
    exact ⟨row, Table.mem_of_find hrow, hsame⟩
  constructor
  · intro row' hrow' other' hother' hidentity
    obtain ⟨row, hrow, hsame⟩ := hback row' hrow'
    obtain ⟨other, hother, hsame'⟩ := hback other' hother'
    rw [hsame.id, hsame'.id]
    apply hconsistent.identities row hrow other hother
    rw [sameIdentity_iff] at hidentity ⊢
    rw [← hsame.oidcIssuer, ← hsame.oidcSubject, ← hsame'.oidcIssuer, ← hsame'.oidcSubject]
    exact hidentity
  · intro row' hrow' hlocal
    obtain ⟨row, hrow, hsame⟩ := hback row' hrow'
    rw [hsame.oidcIssuer]
    exact hconsistent.locals row hrow (hsame.provider ▸ hlocal)

/-- A row with an identity of its own is added. -/
theorem Consistent.of_insert {users users' : Users} (hconsistent : Consistent users) (u : User)
    (hlocal : u.provider = .localAccount → u.oidcIssuer = [])
    (hothers : ∀ row ∈ users.rows, Users.sameIdentity u row = false)
    (hfind : ∀ id, users'.find id = if id = u.id then some u else users.find id) :
    Consistent users' := by
  have hback : ∀ row ∈ users'.rows, row = u ∨ row ∈ users.rows := by
    intro row hrow
    have hrow' := Table.find_of_mem hrow
    rw [hfind] at hrow'
    split at hrow'
    · exact .inl (Option.some.inj hrow').symm
    · exact .inr (Table.mem_of_find hrow')
  constructor
  · intro row hrow other hother hidentity
    rcases hback row hrow with rfl | hrow
    · rcases hback other hother with rfl | hother
      · rfl
      · rw [hothers other hother] at hidentity
        cases hidentity
    · rcases hback other hother with rfl | hother
      · have hsymm : Users.sameIdentity other row = true := by
          rw [sameIdentity_iff] at hidentity ⊢
          obtain ⟨hissuer, hsubject, hissuer', hsubject'⟩ := hidentity
          exact ⟨hissuer' ▸ hissuer, hsubject' ▸ hsubject, hissuer'.symm, hsubject'.symm⟩
        rw [hothers row hrow] at hsymm
        cases hsymm
      · exact hconsistent.identities row hrow other hother hidentity
  · intro row hrow
    rcases hback row hrow with rfl | hrow
    · exact hlocal
    · exact hconsistent.locals row hrow

/-- One operation keeps every account that is there. -/
theorem Operation.apply_sameAccount {users : Users} {id : UUID} {row : User}
    (hfind : users.find id = some row) (operation : Operation) :
    ∃ row', (operation.apply users).find id = some row' ∧ SameAccount row row' := by
  cases operation with
  | create u =>
      simp only [Operation.apply, Users.create]
      split
      · exact ⟨row, hfind, .refl row⟩
      · cases hinsert : users.insertRow { u with lastLoginAt := none } with
        | error err => exact ⟨row, hfind, .refl row⟩
        | ok users' =>
            obtain ⟨hfresh, hfind', -⟩ := insertRow_ok hinsert
            refine ⟨row, ?_, .refl row⟩
            change users'.find id = some row
            rw [hfind', if_neg, hfind]
            rintro rfl
            rw [hfresh] at hfind
            cases hfind
  | upsertOIDC u now =>
      simp only [Operation.apply]
      cases hupsert : users.upsertOIDC now u with
      | error err => exact ⟨row, hfind, .refl row⟩
      | ok outcome =>
          obtain ⟨stored, users'⟩ := outcome
          change ∃ row', users'.find id = some row' ∧ SameAccount row row'
          obtain ⟨hfind', hkind⟩ := upsertOIDC_ok hupsert
          rw [hfind']
          split
          · rename_i hid
            rw [hid] at hfind
            rcases hkind with ⟨found, hfound, -, heq⟩ | ⟨-, hfresh, -⟩
            · rw [hfound] at hfind
              cases hfind
              exact ⟨stored, rfl, heq ▸ refreshed_sameAccount u now row⟩
            · rw [hfresh] at hfind
              cases hfind
          · exact ⟨row, hfind, .refl row⟩
  | setPasswordHash id' passwordHash =>
      simp only [Operation.apply]
      cases hset : users.setPasswordHash id' passwordHash with
      | error err => exact ⟨row, hfind, .refl row⟩
      | ok users' => exact (sameAccounts_setPasswordHash hset).kept id row hfind
  | setDisabled id' disabled => exact (sameAccounts_setDisabled users id' disabled).kept id row hfind
  | touchLogin id' time => exact (sameAccounts_touchLogin users id' time).kept id row hfind

theorem Operation.apply_consistent {users : Users} (operation : Operation)
    (hcalled : operation.WellCalled) (hconsistent : Consistent users) :
    Consistent (operation.apply users) := by
  cases operation with
  | create u =>
      simp only [Operation.apply, Users.create]
      split
      · exact hconsistent
      · cases hinsert : users.insertRow { u with lastLoginAt := none } with
        | error err => exact hconsistent
        | ok users' =>
            obtain ⟨-, hfind', hothers⟩ := insertRow_ok hinsert
            exact hconsistent.of_insert { u with lastLoginAt := none } (fun _ => hcalled.2.1)
              (fun row hrow => (hothers row hrow).2) hfind'
  | upsertOIDC u now =>
      simp only [Operation.apply]
      cases hupsert : users.upsertOIDC now u with
      | error err => exact hconsistent
      | ok outcome =>
          obtain ⟨stored, users'⟩ := outcome
          change Consistent users'
          obtain ⟨hfind', hkind⟩ := upsertOIDC_ok hupsert
          rcases hkind with ⟨found, hfound, -, heq⟩ | ⟨heq, -, hothers⟩
          · refine hconsistent.of_sameAccounts fun id row' hrow' => ?_
            rw [hfind'] at hrow'
            split at hrow'
            · rename_i hid
              cases hrow'
              exact ⟨found, hid ▸ hfound, heq ▸ refreshed_sameAccount u now found⟩
            · exact ⟨row', hrow', .refl row'⟩
          · subst heq
            exact hconsistent.of_insert (Users.provisioned u now) (fun hlocal => by cases hlocal)
              (fun row hrow => (hothers row hrow).2) hfind'
  | setPasswordHash id' passwordHash =>
      simp only [Operation.apply]
      cases hset : users.setPasswordHash id' passwordHash with
      | error err => exact hconsistent
      | ok users' => exact hconsistent.of_sameAccounts (sameAccounts_setPasswordHash hset).origin
  | setDisabled id' disabled =>
      exact hconsistent.of_sameAccounts (sameAccounts_setDisabled users id' disabled).origin
  | touchLogin id' time =>
      exact hconsistent.of_sameAccounts (sameAccounts_touchLogin users id' time).origin

/-- A run of operations keeps every account that is there. -/
theorem Operation.run_sameAccount {users : Users} {id : UUID} {row : User}
    (hfind : users.find id = some row) (operations : List Operation) :
    ∃ row', (Operation.run users operations).find id = some row' ∧ SameAccount row row' := by
  induction operations generalizing users row with
  | nil => exact ⟨row, hfind, .refl row⟩
  | cons operation operations ih =>
      obtain ⟨next, hnext, hsame⟩ := Operation.apply_sameAccount hfind operation
      obtain ⟨row', hrow', hsame'⟩ := ih hnext
      exact ⟨row', hrow', hsame.trans hsame'⟩

theorem Operation.run_consistent {users : Users} (hconsistent : Consistent users)
    {operations : List Operation} (hcalled : ∀ operation ∈ operations, operation.WellCalled) :
    Consistent (Operation.run users operations) := by
  induction operations generalizing users with
  | nil => exact hconsistent
  | cons operation operations ih =>
      exact ih (Operation.apply_consistent operation (hcalled _ List.mem_cons_self) hconsistent)
        fun other hother => hcalled other (List.mem_cons_of_mem _ hother)

theorem consistent_empty : Consistent Table.empty :=
  ⟨fun _ hrow => (List.not_mem_nil hrow).elim, fun _ hrow => (List.not_mem_nil hrow).elim⟩

/-! ## Identities are stable -/

/-- After a login, every later login of the same identity is of the same account. -/
theorem upsertOIDC_same {users users' after : Users} {u v stored found : User} {now later : ℤ}
    {operations : List Operation} (hconsistent : Consistent users')
    (hcalled : ∀ operation ∈ operations, operation.WellCalled)
    (hissuer : u.oidcIssuer ≠ []) (hsubject : u.oidcSubject ≠ [])
    (hupsert : users.upsertOIDC now u = .ok (stored, users'))
    (hissuer' : v.oidcIssuer = u.oidcIssuer) (hsubject' : v.oidcSubject = u.oidcSubject)
    (hagain : (Operation.run users' operations).upsertOIDC later v = .ok (found, after)) :
    SameAccount stored found := by
  obtain ⟨hfind, hkind⟩ := upsertOIDC_ok hupsert
  have hstored : users'.find stored.id = some stored := by rw [hfind, if_pos rfl]
  obtain ⟨hrow, hrow'⟩ : stored.oidcIssuer = u.oidcIssuer ∧ stored.oidcSubject = u.oidcSubject := by
    rcases hkind with ⟨row, -, hidentity, rfl⟩ | ⟨rfl, -⟩
    · exact (sameIdentity_iff.mp hidentity).2.2
    · exact ⟨rfl, rfl⟩
  obtain ⟨kept, hkept, hsame⟩ := Operation.run_sameAccount hstored operations
  have hmem := Table.mem_of_find hkept
  have hidentity : Users.sameIdentity v kept = true := by
    rw [sameIdentity_iff, hissuer', hsubject', hsame.oidcIssuer, hsame.oidcSubject]
    exact ⟨hissuer, hsubject, hrow, hrow'⟩
  rcases (upsertOIDC_ok hagain).2 with ⟨row, hfound, hsameIdentity, rfl⟩ | ⟨-, -, hothers⟩
  · -- both rows have the identity of the login, so they are one
    have hone : Users.sameIdentity kept row = true := by
      rw [sameIdentity_iff] at hidentity hsameIdentity ⊢
      obtain ⟨hv, hv', hkept, hkept'⟩ := hidentity
      obtain ⟨-, -, hrow, hrow'⟩ := hsameIdentity
      exact ⟨hkept ▸ hv, hkept' ▸ hv', hrow.trans hkept.symm, hrow'.trans hkept'.symm⟩
    have hid := (Operation.run_consistent hconsistent hcalled).identities kept hmem row
      (Table.mem_of_find hfound) hone
    have heq : row = kept := by
      have hrow : (Operation.run users' operations).find row.id = some row := hfound
      rw [hid, Table.find_of_mem hmem] at hrow
      exact (Option.some.inj hrow).symm
    rw [heq]
    exact hsame.trans (refreshed_sameAccount v later kept)
  · rw [(hothers kept hmem).2] at hidentity
    cases hidentity

/-- After any sequence of operations from an empty table: a login through the
identity provider that succeeds returns the row it leaves, with the privilege
passed in; it has changed three columns of a row that is not a local account, or
added a row, and no other row; and each later login of the same identity returns
the same account.  A first login under a user name that is taken fails and
changes nothing; a later one succeeds, whatever user name is claimed. -/
theorem oidc_identities_stable {before : List Operation}
    (hbefore : ∀ operation ∈ before, operation.WellCalled) {u : User} (hissuer : u.oidcIssuer ≠ [])
    (hsubject : u.oidcSubject ≠ []) (now : ℤ) :
    (∀ stored users',
        (Operation.run Table.empty before).upsertOIDC now u = .ok (stored, users') →
        stored.isAdmin = u.isAdmin ∧ users'.find stored.id = some stored ∧
        (∀ id, id ≠ stored.id → users'.find id = (Operation.run Table.empty before).find id) ∧
        (∀ row, (Operation.run Table.empty before).find stored.id = some row →
          row.provider = .oidc ∧
          stored = { row with
            displayName := u.displayName
            isAdmin := u.isAdmin
            lastLoginAt := some (Store.pgTime now) }) ∧
        (∀ row ∈ (Operation.run Table.empty before).rows, row.provider = .localAccount →
          users'.find row.id = some row) ∧
        ∀ (between : List Operation) (v : User) (later : ℤ) (found : User) (after : Users),
          (∀ operation ∈ between, operation.WellCalled) → v.oidcIssuer = u.oidcIssuer →
          v.oidcSubject = u.oidcSubject →
          (Operation.run users' between).upsertOIDC later v = .ok (found, after) →
          found.id = stored.id ∧ found.username = stored.username ∧
            found.provider = stored.provider) ∧
      (∀ err, (Operation.run Table.empty before).upsertOIDC now u = .error err →
        (Operation.upsertOIDC u now).apply (Operation.run Table.empty before) =
          Operation.run Table.empty before) ∧
      (Users.fits (Users.provisioned u now) = true →
        ((∀ row ∈ (Operation.run Table.empty before).rows, Users.sameIdentity u row = false) →
          (∃ row ∈ (Operation.run Table.empty before).rows, row.username = u.username) →
          (Operation.run Table.empty before).upsertOIDC now u = .error .userExists) ∧
        ∀ row ∈ (Operation.run Table.empty before).rows, Users.sameIdentity u row = true →
          ∃ stored users',
            (Operation.run Table.empty before).upsertOIDC now u = .ok (stored, users') ∧
            stored.id = row.id ∧ stored.username = row.username) := by
  have hconsistent := Operation.run_consistent consistent_empty hbefore
  generalize Operation.run Table.empty before = users at hconsistent ⊢
  refine ⟨fun stored users' hupsert => ?_, fun err herr => ?_, fun hfits => ⟨?_, ?_⟩⟩
  · have hnext : Consistent users' := by
      have := Operation.apply_consistent (.upsertOIDC u now) ⟨hissuer, hsubject⟩ hconsistent
      rwa [Operation.apply, hupsert] at this
    have hsame : ∀ (between : List Operation) (v : User) (later : ℤ) (found : User) (after : Users),
        (∀ operation ∈ between, operation.WellCalled) → v.oidcIssuer = u.oidcIssuer →
        v.oidcSubject = u.oidcSubject →
        (Operation.run users' between).upsertOIDC later v = .ok (found, after) →
        found.id = stored.id ∧ found.username = stored.username ∧
          found.provider = stored.provider := by
      intro between v later found after hbetween hissuer' hsubject' hagain
      have haccount := upsertOIDC_same hnext hbetween hissuer hsubject hupsert hissuer' hsubject'
        hagain
      exact ⟨haccount.id, haccount.username, haccount.provider⟩
    obtain ⟨hfind, hkind⟩ := upsertOIDC_ok hupsert
    have hbefore : ∀ row, users.find stored.id = some row → row.provider = .oidc ∧
        stored = Users.refreshed u now row := by
      intro row hrow
      rcases hkind with ⟨found, hfound, hidentity, heq⟩ | ⟨-, hfresh, -⟩
      · rw [hfound] at hrow
        cases hrow
        refine ⟨?_, heq⟩
        cases hprovider : row.provider with
        | localAccount =>
            have hnone := hconsistent.locals row (Table.mem_of_find hfound) hprovider
            exact absurd ((sameIdentity_iff.mp hidentity).2.2.1 ▸ hnone) hissuer
        | oidc => rfl
      · rw [hfresh] at hrow
        cases hrow
    refine ⟨?_, by rw [hfind, if_pos rfl], fun id hid => by rw [hfind, if_neg hid], hbefore, ?_,
      hsame⟩
    · rcases hkind with ⟨_, -, -, rfl⟩ | ⟨rfl, -⟩ <;> rfl
    · intro row hrow hlocal
      have hfound := Table.find_of_mem hrow
      rw [hfind, if_neg, hfound]
      intro hid
      rw [hid] at hfound
      rw [(hbefore row hfound).1] at hlocal
      cases hlocal
  · rw [Operation.apply, herr]
    rfl
  · rintro hfirst ⟨row, hrow, htaken⟩
    exact upsertOIDC_of_taken hfits hfirst hrow htaken
  · intro row hrow hidentity
    obtain ⟨found, users', hupsert, hfound, hsame⟩ := upsertOIDC_of_identity hfits hrow hidentity
    have hone : Users.sameIdentity row found = true := by
      rw [sameIdentity_iff] at hidentity hsame ⊢
      obtain ⟨-, -, hrow, hrow'⟩ := hidentity
      obtain ⟨-, -, hfound, hfound'⟩ := hsame
      exact ⟨hrow ▸ hissuer, hrow' ▸ hsubject, hfound.trans hrow.symm, hfound'.trans hrow'.symm⟩
    have hid := hconsistent.identities row hrow found hfound hone
    have heq : found = row := by
      have := Table.find_of_mem hfound
      rw [hid, Table.find_of_mem hrow] at this
      exact (Option.some.inj this).symm
    rw [heq] at hupsert
    exact ⟨_, users', hupsert, rfl, rfl⟩

namespace Sample

/-- A local account. -/
def ana : User where
  id := .filled 1
  username := ascii "ana"
  displayName := []
  provider := .localAccount
  oidcIssuer := []
  oidcSubject := []
  passwordHash := ascii "phc"
  isAdmin := true
  disabled := false
  lastLoginAt := none

/-- What the flow passes for a person of the identity provider. -/
def claimed (username : String) : User where
  id := .filled 2
  username := ascii username
  displayName := ascii "B"
  provider := .oidc
  oidcIssuer := ascii "https://id"
  oidcSubject := ascii "7"
  passwordHash := []
  isAdmin := false
  disabled := false
  lastLoginAt := none

end Sample

/-- A person of the identity provider logs in as `bob`, and then again claiming
the name of a local account. -/
theorem oidc_identities_stable_sample :
    ∃ stored users',
      (Operation.run Table.empty [.create Sample.ana, .upsertOIDC (Sample.claimed "bob") 0]).upsertOIDC
          1 (Sample.claimed "ana") = .ok (stored, users') ∧
        stored.username = ascii "bob" ∧ users'.find Sample.ana.id = some Sample.ana := by
  have hcalled : ∀ operation ∈ [Operation.create Sample.ana, .upsertOIDC (Sample.claimed "bob") 0],
      operation.WellCalled := by
    simp only [List.mem_cons, List.not_mem_nil, or_false, forall_eq_or_imp, forall_eq]
    exact ⟨⟨rfl, rfl, rfl⟩, by decide, by decide⟩
  obtain ⟨hsuccess, -, hfits⟩ :=
    oidc_identities_stable hcalled (u := Sample.claimed "ana") (by decide) (by decide) 1
  obtain ⟨stored, users', hupsert, -, hname⟩ := (hfits (by decide)).2
    (Users.provisioned (Sample.claimed "bob") 0) (by decide) (by decide)
  obtain ⟨-, -, -, -, hlocal, -⟩ := hsuccess stored users' hupsert
  exact ⟨stored, users', hupsert, hname, hlocal Sample.ana (by decide) rfl⟩

end SecurePastebin.Auth
