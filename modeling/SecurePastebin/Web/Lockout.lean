import SecurePastebin.Auth.Accounts
import SecurePastebin.Web.Callback
import SecurePastebin.Web.Csrf
import SecurePastebin.Web.Grammar

/-!
# Disabled means locked out

From the moment an account is disabled until the command that enables it, the
flag stays in the row, whatever else is written to it.  Every lookup of the row
in between says so, and a request that is told so goes on without a session, or
ends without a new one.
-/

namespace SecurePastebin.Web

open Text Uuid Process Interleaving
open Crypto SecurePastebin.Store

/-! ## The flag -/

section Accounts

variable {u : Auth.User} {store next : Auth.Store} {request : Auth.Call} {reply : request.Reply}
  {choice : Auth.Choice} {uid : UUID} {entry : Step}

section Flag

variable {users users' : Users} {uid : UUID} {flag : Bool}

/-- The flag of an account, if there is one. -/
def flagOf (users : Users) (uid : UUID) : Option Bool := (users.find uid).map (·.disabled)

theorem flagOf_update {condition : Auth.User → Bool} {f : Auth.User → Auth.User}
    (hkey : ∀ row, (f row).id = row.id) (hkeeps : ∀ row, (f row).disabled = row.disabled) :
    flagOf (users.update condition f hkey) uid = flagOf users uid := by
  rw [flagOf, flagOf, Table.find_update, Option.map_map]
  congr 1
  funext row
  rw [Function.comp_apply]
  split
  · exact hkeeps row
  · rfl

theorem flagOf_setDisabled (id : UUID) (disabled : Bool) :
    flagOf (users.setDisabled id disabled) uid =
      (flagOf users uid).map fun flag => if id = uid then disabled else flag := by
  rw [flagOf, flagOf, Users.setDisabled, Table.find_update, Option.map_map, Option.map_map]
  cases hfind : users.find uid with
  | none => rfl
  | some row =>
      have hid : row.id = uid := Table.key_of_find hfind
      simp only [Option.map_some, Function.comp_apply, hid, decide_eq_true_eq, eq_comm (a := uid)]
      split <;> rfl

theorem flagOf_insertRow (hflag : flagOf users uid = some flag)
    (hinsert : users.insertRow u = .ok users') : flagOf users' uid = some flag := by
  obtain ⟨row, hfind, hrow⟩ := Option.map_eq_some_iff.mp hflag
  obtain ⟨hfresh, hfind', -⟩ := Auth.insertRow_ok hinsert
  have hne : uid ≠ u.id := by
    rintro rfl
    rw [hfresh] at hfind
    cases hfind
  rw [flagOf, hfind', if_neg hne, hfind, Option.map_some, hrow]

/-- A login through the identity provider leaves the flag as it is, and is given
it. -/
theorem flagOf_upsertOIDC (hflag : flagOf users uid = some flag) {u stored : Auth.User} {now : ℤ}
    (hupsert : users.upsertOIDC now u = .ok (stored, users')) :
    flagOf users' uid = some flag ∧ (stored.id = uid → stored.disabled = flag) := by
  obtain ⟨row, hfind, hrow⟩ := Option.map_eq_some_iff.mp hflag
  obtain ⟨hfind', hkind⟩ := Auth.upsertOIDC_ok hupsert
  have hstored : stored.id = uid → stored.disabled = flag := by
    rintro rfl
    rcases hkind with ⟨found, hfound, -, heq⟩ | ⟨-, hfresh, -⟩
    · obtain rfl := Option.some.inj (hfind.symm.trans hfound)
      rw [heq]
      exact hrow
    · rw [hfresh] at hfind
      cases hfind
  refine ⟨?_, hstored⟩
  by_cases hid : uid = stored.id
  · rw [flagOf, hfind', if_pos hid, Option.map_some, hstored hid.symm]
  · rw [flagOf, hfind', if_neg hid, hfind, Option.map_some, hrow]

/-- What an executed call makes of the flag of an account. -/
def flagAfter (uid : UUID) (flag : Bool) : Auth.Call → Bool
  | .usersSetDisabled id disabled => if id = uid then disabled else flag
  | _ => flag

theorem flagAfter_cases (uid : UUID) (flag : Bool) (request : Auth.Call) :
    flagAfter uid flag request = flag ∨
      request = .usersSetDisabled uid (flagAfter uid flag request) := by
  cases request with
  | usersSetDisabled id disabled =>
      by_cases hid : id = uid
      · right
        rw [flagAfter, if_pos hid, hid]
      · left
        rw [flagAfter, if_neg hid]
  | _ => exact .inl rfl

theorem flagOf_effect {store : Auth.Store} (request : Auth.Call)
    (hflag : flagOf store.users uid = some flag) :
    flagOf (Auth.effect store request).users uid = some (flagAfter uid flag request) := by
  cases request with
  | usersCreate u =>
      simp only [Auth.effect, Users.create]
      split
      · exact hflag
      · cases hinsert : store.users.insertRow { u with lastLoginAt := none } with
        | error err => exact hflag
        | ok users' => exact flagOf_insertRow hflag hinsert
  | usersUpsertOIDC u =>
      simp only [Auth.effect]
      cases hupsert : store.users.upsertOIDC store.clock u with
      | error err => exact hflag
      | ok outcome => exact (flagOf_upsertOIDC hflag hupsert).1
  | usersSetPasswordHash id hash =>
      simp only [Auth.effect, Users.setPasswordHash]
      split
      · exact hflag
      · exact (flagOf_update (f := fun u => { u with passwordHash := hash }) (fun _ => rfl)
          fun _ => rfl).trans hflag
  | usersSetDisabled id disabled =>
      simp only [Auth.effect, flagOf_setDisabled, hflag, Option.map_some, flagAfter]
  | usersTouchLogin id time =>
      exact (flagOf_update (f := fun u => { u with lastLoginAt := some (pgTime time) })
        (fun _ => rfl) fun _ => rfl).trans hflag
  | _ => exact hflag

theorem flagOf_exec (hexec : Auth.exec store request choice = some (reply, next))
    (hflag : flagOf store.users uid = some flag) :
    flagOf next.users uid = some (if choice.executes then flagAfter uid flag request else flag) := by
  rw [Auth.exec_store hexec]
  split
  · exact flagOf_effect request hflag
  · exact hflag

end Flag

/-! ## Reads of a row -/

/-- The reply to a call that reads a row. -/
def rowRead : Step → Option (Except Auth.Err Auth.User)
  | ⟨.auth (.usersGetByID _), reply⟩ | ⟨.auth (.usersGetByUsername _), reply⟩
  | ⟨.auth (.usersUpsertOIDC _), reply⟩ => some reply
  | _ => none

/-- Whoever asks for the account, or is given its row, is told that it is
disabled. -/
def Denies (uid : UUID) (entry : Step) : Prop :=
  ∀ u, rowRead entry = some (.ok u) →
    u.id = uid ∨ entry.1 = .auth (.usersGetByID uid) → u.disabled = true

theorem disabled_of_find {users : Users}
    (hflag : flagOf users uid = some true) (hfind : users.find u.id = some u) (hid : u.id = uid) :
    u.disabled = true := by
  rw [flagOf, ← hid, hfind] at hflag
  exact Option.some.inj hflag

/-- A row that is handed out was read from the table. -/
theorem answer_of_rowRead (hexec : Auth.exec store request choice = some (reply, next))
    (hread : rowRead ⟨.auth request, reply⟩ = some (.ok u)) :
    Auth.answer store request = some reply := by
  cases choice with
  | ok =>
      obtain ⟨answer, hanswer, heq⟩ := Option.map_eq_some_iff.mp hexec
      cases heq
      exact hanswer
  | fail text | lost text =>
      obtain ⟨answer, hanswer, heq⟩ := Option.map_eq_some_iff.mp hexec
      cases heq
      cases request <;> cases hread <;> cases hanswer
  | _ => cases request <;> cases hread <;> cases hexec

theorem denies_of_exec (hexec : Auth.exec store request choice = some (reply, next))
    (hflag : flagOf store.users uid = some true) : Denies uid ⟨.auth request, reply⟩ := by
  intro u hread habout
  have hanswer := answer_of_rowRead hexec hread
  cases request with
  | usersGetByID id =>
      cases hread
      have hfound : store.users.getByID id = .ok u := Option.some.inj hanswer
      unfold Users.getByID at hfound
      split at hfound
      · cases hfound
      · rename_i row hrow
        cases hfound
        have hkey : u.id = id := Table.key_of_find hrow
        refine disabled_of_find hflag (by rw [hkey, hrow]) ?_
        rcases habout with hid | hcall
        · exact hid
        · cases hcall
          exact hkey
  | usersGetByUsername username =>
      cases hread
      have hfound : store.users.getByUsername username = .ok u := Option.some.inj hanswer
      unfold Users.getByUsername at hfound
      split at hfound
      · cases hfound
      · rename_i row hrow
        cases hfound
        exact disabled_of_find hflag (Table.find_of_mem (List.mem_of_find?_eq_some hrow))
          (habout.resolve_right nofun)
  | usersUpsertOIDC v =>
      cases hread
      have hfound : (store.users.upsertOIDC store.clock v).map Prod.fst = .ok u :=
        Option.some.inj hanswer
      cases hupsert : store.users.upsertOIDC store.clock v with
      | error err =>
          rw [hupsert] at hfound
          cases hfound
      | ok outcome =>
          rw [hupsert] at hfound
          cases hfound
          exact (flagOf_upsertOIDC hflag hupsert).2 (habout.resolve_right nofun)
  | _ => cases hread

/-! ## What a login was told -/

/-- The reply of a row read is a row of an account in use. -/
def Welcoming (entry : Step) : Prop :=
  ∀ reply, rowRead entry = some reply → ∃ u, reply = .ok u ∧ u.disabled = false

theorem welcoming_of_eq_none (hnone : rowRead entry = none) : Welcoming entry := by
  intro reply hread
  rw [hnone] at hread
  cases hread

theorem welcoming_of_enabled (hread : rowRead entry = some (.ok u))
    (henabled : u.disabled = false) : Welcoming entry := by
  intro reply hreply
  exact ⟨u, Option.some.inj (hreply.symm.trans hread), henabled⟩

theorem not_welcoming {reply : Except Auth.Err Auth.User}
    (hdenies : Denies uid entry) (hread : rowRead entry = some reply)
    (habout : ∀ u, reply = .ok u → u.id = uid ∨ entry.1 = .auth (.usersGetByID uid)) :
    ¬ Welcoming entry := by
  intro hwelcoming
  obtain ⟨u, rfl, henabled⟩ := hwelcoming reply hread
  rw [hdenies u hread (habout u rfl)] at henabled
  cases henabled

section Points

variable {srv : Server} {r : Request} {info : Option SessionInfo} {trace : List Step}
  {response : Response}

theorem Passed.welcoming {checks : List (Ratelimit.Scope × Bytes)} {front : List Step}
    (hpassed : Passed srv checks front) : ∀ entry ∈ front, Welcoming entry := by
  induction checks generalizing front with
  | nil =>
      rw [show front = [] from hpassed]
      exact fun _ hentry => absurd hentry List.not_mem_nil
  | cons check checks ih =>
      obtain ⟨sub, _, later, rfl, -, -, hlater⟩ := hpassed
      intro entry hentry
      rcases List.mem_append.mp hentry with hentry | hentry
      · obtain ⟨step, -, rfl⟩ := List.mem_map.mp hentry
        exact welcoming_of_eq_none rfl
      · exact ih hlater entry hentry

theorem startSession_welcoming {outcome : Except Auth.Err Auth.Session}
    (hreach : (startSession srv r u).Reaches trace (.inr outcome)) :
    ∀ entry ∈ trace, Welcoming entry := by
  rcases startSession_reaches hreach with ⟨-, -, ⟨⟩⟩ | ⟨front, sub, hreplaced, rfl, -⟩
  intro entry hentry
  rcases List.mem_append.mp hentry with hentry | hentry
  · rcases hreplaced with ⟨-, rfl⟩ | ⟨-, reply, rfl⟩
    · cases hentry
    · rw [List.mem_singleton.mp hentry]
      exact welcoming_of_eq_none rfl
  · obtain ⟨step, -, rfl⟩ := List.mem_map.mp hentry
    exact welcoming_of_eq_none rfl

theorem login_refused (hreach : (login srv r info).Reaches trace (.inr response)) :
    Refused response ∨ ∀ entry ∈ trace, Welcoming entry := by
  refine (login_result hreach).imp_right ?_
  rintro ⟨checks, username, password, front, sub, tail, u, sess, rfl, hpassed, hauth, hstart, -⟩
  obtain ⟨henabled, checked, now, touched, event, recorded, rfl⟩ := Auth.authenticate_ok hauth
  intro entry hentry
  rcases List.mem_append.mp hentry with hentry | hentry
  · rcases List.mem_append.mp hentry with hentry | hentry
    · exact hpassed.welcoming entry hentry
    · fin_cases hentry
      all_goals first
        | exact welcoming_of_eq_none rfl
        | exact welcoming_of_enabled rfl henabled
  · exact startSession_welcoming hstart entry hentry

theorem oidcCallback_refused (hreach : (oidcCallback srv r).Reaches trace (.inr response)) :
    Refused response ∨ ∀ entry ∈ trace, Welcoming entry := by
  refine (oidcCallback_result hreach).imp_right ?_
  rintro ⟨flow, sub, tail, u, sess, rfl, hcomplete, hstart, -⟩
  obtain ⟨henabled, _, _, _, _, _, _, _, _, v, _, _, rfl⟩ := Auth.complete_ok hcomplete
  intro entry hentry
  rcases List.mem_append.mp hentry with hentry | hentry
  · fin_cases hentry
    all_goals first
      | exact welcoming_of_eq_none rfl
      | exact welcoming_of_enabled rfl henabled
  · exact startSession_welcoming hstart entry hentry

/-- What a login or a callback is refused for: a row it was given. -/
theorem serve_refused (htarget : targetOf r = .api .login ∨ targetOf r = .api .oidcCallback)
    (hreach : (serve srv r).Reaches trace (.inr response)) (hentry : entry ∈ trace)
    (hother : ∀ id, entry.1 ≠ .auth (.usersGetByID id)) (hdenied : ¬ Welcoming entry) :
    Refused response := by
  rcases serve_reaches hreach with ⟨_, -, ⟨⟩⟩ | ⟨info, front, tail, rfl, hload, hrest⟩
  have htail : entry ∈ tail := by
    refine (List.mem_append.mp hentry).resolve_left fun hfront => ?_
    rcases loadSession_calls.of_mem hload hfront with ⟨call, hcall⟩ | ⟨id, hcall⟩
    · obtain ⟨request, reply⟩ := entry
      cases hcall
      exact hdenied (welcoming_of_eq_none rfl)
    · exact hother id hcall
  rcases hrest with ⟨_, -, rfl, -⟩ | ⟨-, hdispatch⟩
  · cases htail
  · have hkind : Refused response ∨ ∀ entry ∈ tail, Welcoming entry := by
      rcases htarget with htarget | htarget
      · rw [dispatch, htarget] at hdispatch
        exact login_refused hdispatch
      · rw [dispatch, htarget] at hdispatch
        exact oidcCallback_refused hdispatch
    exact hkind.resolve_right fun hall => hdenied (hall entry htail)

/-- The request is still being resolved, or has gone on without a session. -/
def GoesAnonymous (srv : Server) (r : Request) (trace : List Step) : Prop :=
  ∃ point, (serve srv r).Reaches trace point ∧
    ((∃ call, point = .inl call ∧ (loadSession srv r).Reaches trace (.inl call)) ∨
      ∃ front tail, trace = front ++ tail ∧ (loadSession srv r).Reaches front (.inr none) ∧
        (dispatch srv r none).Reaches tail point)

theorem Resolved.length {front : List Step} {sess : Auth.Session}
    (hresolved : Resolved r front sess) : front.length = 2 := by
  obtain ⟨_, _, _, -, -, -, rfl⟩ := hresolved.found
  rfl

/-- There is one lookup of the user; after one that gives none, or a disabled one,
there is no session. -/
theorem anonymous_of_denied {front back : List Step} {id : UUID}
    {reply : Except Auth.Err Auth.User} {point : Call ⊕ Response}
    (hreach : (serve srv r).Reaches trace point)
    (htrace : trace = front ++ ⟨.auth (.usersGetByID id), reply⟩ :: back)
    (hfront : (serve srv r).Reaches front (.inl (.auth (.usersGetByID id))))
    (hdenied : ¬ Welcoming ⟨.auth (.usersGetByID id), reply⟩) : GoesAnonymous srv r trace := by
  refine ⟨point, hreach, ?_⟩
  have hlength : front.length = 2 := by
    rcases serve_reaches hfront with ⟨request, hload, hpoint⟩ | ⟨info, _, _, -, -, hrest⟩
    · generalize hat : (Sum.inl request : Call ⊕ Option SessionInfo) = at' at hload
      cases loadSession_reaches hload with
      | lookup hresolved => exact hresolved.length
      | getting | dropping | touching =>
          cases hat
          cases hpoint
      | anonymous | unresolved | dropped | accepted => cases hat
    · rcases hrest with ⟨_, -, -, ⟨⟩⟩ | ⟨-, hdispatch⟩
      rcases dispatch_call hdispatch with hcall | ⟨_, -, hcall, -⟩ <;> cases hcall
  rcases serve_reaches hreach with ⟨request, hload, rfl⟩ | ⟨info, first, tail, hsplit, hload, hrest⟩
  · exact .inl ⟨request, rfl, hload⟩
  cases info with
  | none =>
      rcases hrest with ⟨_, hrefusal, -⟩ | ⟨-, hdispatch⟩
      · have hnone : csrf r none = none := by
          unfold csrf
          split_ifs <;> rfl
        rw [hnone] at hrefusal
        cases hrefusal
      · exact .inr ⟨first, tail, hsplit, hload, hdispatch⟩
  | some si =>
      exfalso
      generalize hat : (Sum.inr (some si) : Call ⊕ Option SessionInfo) = at' at hload
      cases loadSession_reaches hload with
      | @accepted early sess user later hresolved henabled =>
          rw [htrace, List.append_assoc] at hsplit
          have hsame := (List.append_inj hsplit (by rw [hlength, hresolved.length])).2
          rw [List.cons_append, List.cons.injEq] at hsame
          rw [hsame.1] at hdenied
          exact hdenied (welcoming_of_enabled rfl henabled)
      | _ => cases hat

end Points

/-! ## Who sets the flag -/

section Commands

/-- The command that sets the flag. -/
def flagCommand (username : Bytes) : Bool → Cli.Command
  | true => .disable username
  | false => .enable username

theorem setUserDisabled_reaches {username : Bytes} {flag disabled : Bool} {now : ℤ} {id : UUID}
    {sub : List Auth.Step}
    (hreach : (Cli.setUserDisabled username flag now).Reaches sub
      (.inl (.usersSetDisabled id disabled))) :
    disabled = flag ∧ ∃ u, u.id = id ∧ sub = [⟨.usersGetByUsername username, .ok u⟩] := by
  simp only [Cli.setUserDisabled, Proc.perform_bind] at hreach
  rcases hreach with ⟨-, ⟨⟩⟩ | ⟨found, tail, rfl, hreach⟩
  cases found with
  | error err => cases hreach.2
  | ok user =>
      rcases hreach with ⟨rfl, hpoint⟩ | ⟨reply, tail, -, hreach⟩
      · cases hpoint
        exact ⟨rfl, user, rfl, rfl⟩
      · cases reply with
        | error err => cases hreach.2
        | ok done =>
            cases flag with
            | false => cases hreach.2
            | true =>
                rcases hreach with ⟨-, hpoint⟩ | ⟨_, _, -, -, hpoint⟩ <;> cases hpoint

/-- The calls that leave the flag alone. -/
def keepsFlag : Auth.Call → Prop
  | .usersSetDisabled .. => False
  | _ => True

theorem hashPassword_keepsFlag (password : Except Auth.Err Bytes) :
    (Cli.hashPassword password).CallsOnly keepsFlag := by
  unfold Cli.hashPassword
  split
  · trivial
  · split
    · trivial
    · exact ⟨trivial, fun _ => trivial⟩

theorem createUser_keepsFlag (username displayName : Bytes) (admin : Bool)
    (password : Except Auth.Err Bytes) (now : ℤ) :
    (Cli.createUser username displayName admin password now).CallsOnly keepsFlag := by
  refine (hashPassword_keepsFlag password).bind fun hashed => ?_
  cases hashed with
  | error err => trivial
  | ok passwordHash =>
      refine ⟨trivial, fun id => ⟨trivial, fun created => ?_⟩⟩
      cases created with
      | error err => trivial
      | ok done => exact ⟨trivial, fun _ => trivial⟩

theorem setUserPassword_keepsFlag (username : Bytes) (password : Except Auth.Err Bytes) :
    (Cli.setUserPassword username password).CallsOnly keepsFlag := by
  refine ⟨trivial, fun found => ?_⟩
  cases found with
  | error err => trivial
  | ok user =>
      change Proc.CallsOnly _ (ite ..)
      split
      · trivial
      · refine (hashPassword_keepsFlag password).bind fun hashed => ?_
        cases hashed with
        | error err => trivial
        | ok passwordHash =>
            refine ⟨trivial, fun set => ?_⟩
            cases set <;> trivial

/-- Only two of the commands set the flag, each to its own value, of a row they
have been given. -/
theorem runUser_setDisabled {command : Cli.Command} {sub : List Auth.Step} {id : UUID}
    {disabled : Bool}
    (hreach : (Cli.runUser command).Reaches sub (.inl (.usersSetDisabled id disabled))) :
    ∃ username u, command = flagCommand username disabled ∧ u.id = id ∧
      (⟨.usersGetByUsername username, .ok u⟩ : Auth.Step) ∈ sub := by
  simp only [Cli.runUser, Proc.perform_bind] at hreach
  rcases hreach with ⟨-, ⟨⟩⟩ | ⟨now, tail, rfl, hreach⟩
  cases command with
  | create username displayName admin password =>
      exact ((createUser_keepsFlag username displayName admin password now).reaches hreach).elim
  | setPassword username password =>
      exact ((setUserPassword_keepsFlag username password).reaches hreach).elim
  | disable username =>
      obtain ⟨rfl, u, hid, rfl⟩ := setUserDisabled_reaches hreach
      exact ⟨username, u, rfl, hid, by simp⟩
  | enable username =>
      obtain ⟨rfl, u, hid, rfl⟩ := setUserDisabled_reaches hreach
      exact ⟨username, u, rfl, hid, by simp⟩

end Commands

section Runs

variable {app : Params} {store : Store} {s next : Config} {action : Action} {uid : UUID} {i : ℕ}

/-- A thread about to set the flag is one of the two commands, and was given the
row. -/
theorem setDisabled_pending {disabled : Bool} (hwf : (machine app).WellFormed s)
    (hpending : s.pending? i = some (.auth (.usersSetDisabled uid disabled))) :
    ∃ username u, s.ops[i]? = some (.command (flagCommand username disabled)) ∧ u.id = uid ∧
      s.Did i (.auth (.usersGetByUsername username)) (.ok u) := by
  obtain ⟨op, hop, hreach⟩ := hwf.reaches_pending hpending
  cases op with
  | request r =>
      rcases serve_reaches hreach.of_map with ⟨_, hload, hpoint⟩ |
        ⟨_, _, _, -, -, hrest⟩
      · cases hpoint
        rcases loadSession_calls.reaches hload with ⟨_, heq⟩ | ⟨_, heq⟩ <;> cases heq
      · rcases hrest with ⟨_, -, -, ⟨⟩⟩ | ⟨-, hdispatch⟩
        rcases dispatch_call hdispatch with hcall | ⟨_, -, hcall, -⟩ <;> cases hcall
  | command command =>
      obtain ⟨sub, request, htrace, heq, hrun⟩ := (Proc.reaches_lift_call ..).mp
        hreach.of_map
      cases heq
      obtain ⟨username, u, rfl, hid, hmem⟩ := runUser_setDisabled hrun
      refine ⟨username, u, hop, hid, (s.did_iff_mem_trace _ _ _).mpr ?_⟩
      rw [htrace]
      exact List.mem_map_of_mem (f := authCalls.entry) hmem
  | sweep =>
      obtain ⟨_, _, -, heq, -⟩ := (Proc.reaches_lift_call ..).mp
        hreach.of_map
      cases heq

/-- What a step makes of the flag. -/
theorem flagOf_act {flag : Bool} (hact : (machine app).act s action = some next)
    (hflag : flagOf s.store.users uid = some flag) :
    flagOf next.store.users uid = some flag ∨
      ∃ i choice disabled, action = .advance i (.auth choice) ∧ choice.executes = true ∧
        s.pending? i = some (.auth (.usersSetDisabled uid disabled)) ∧
        flagOf next.store.users uid = some disabled := by
  rcases Machine.act_cases hact with ⟨change, after, -, henv, rfl⟩ | ⟨op, -, rfl⟩ |
    ⟨i, choice, request, rest, reply, after, rfl, hproc, hexec, rfl⟩
  · left
    rw [(env_frame henv).2.2.1]
    exact hflag
  · exact .inl hflag
  · by_cases hauth : ∃ call, request = .auth call
    · obtain ⟨call, rfl⟩ := hauth
      obtain ⟨found, rfl, hfound, -⟩ := exec_auth hexec
      have hafter := flagOf_exec hfound hflag
      split at hafter
      · rename_i hexecutes
        rcases flagAfter_cases uid flag call with hsame | hset
        · rw [hsame] at hafter
          exact .inl hafter
        · exact .inr ⟨i, found, _, rfl, hexecutes, by rw [Config.pending?, hproc, ← hset], hafter⟩
      · exact .inl hafter
    · left
      rw [Config.store_answer, ((exec_frame hexec).2.2.2.1 fun call heq => hauth ⟨call, heq⟩).1]
      exact hflag

/-- The steps other than enabling the account. -/
def KeepsOut (uid : UUID) (s : Config) : Action → Prop
  | .advance i (.auth choice) =>
      choice.executes = true → s.pending? i ≠ some (.auth (.usersSetDisabled uid false))
  | _ => True

theorem flagOf_keepsOut (hact : (machine app).act s action = some next)
    (hkeeps : KeepsOut uid s action) (hflag : flagOf s.store.users uid = some true) :
    flagOf next.store.users uid = some true := by
  rcases flagOf_act hact hflag with hsame | ⟨i, choice, disabled, rfl, hexecutes, hpending, hset⟩
  · exact hsame
  · cases disabled with
    | true => exact hset
    | false => exact absurd hpending (hkeeps hexecutes)

/-- As long as the account is not enabled, all that is read of it says so. -/
theorem denies_of_run {mid last : Config} (hrun : (machine app).Run (KeepsOut uid) mid last)
    (hflag : flagOf mid.store.users uid = some true) :
    flagOf last.store.users uid = some true ∧
      ∀ i entry, (i, entry) ∈ last.log.drop mid.log.length → Denies uid entry := by
  induction hrun with
  | refl => exact ⟨hflag, by simp⟩
  | @tail s next action hpast hkeeps hact ih =>
      obtain ⟨hdisabled, hdenies⟩ := ih
      refine ⟨flagOf_keepsOut hact hkeeps hdisabled, ?_⟩
      rcases Machine.act_cases hact with ⟨change, after, -, -, rfl⟩ | ⟨op, -, rfl⟩ |
        ⟨i, choice, request, rest, reply, after, rfl, -, hexec, rfl⟩
      · exact hdenies
      · exact hdenies
      · intro j entry hmem
        rw [Config.log_answer, List.drop_append_of_le_length hpast.extends.log.length_le,
          List.mem_append, List.mem_singleton] at hmem
        rcases hmem with hmem | hmem
        · exact hdenies j entry hmem
        · cases hmem
          cases request with
          | auth call =>
              obtain ⟨_, -, hfound, -⟩ := exec_auth hexec
              exact denies_of_exec hfound hdisabled
          | _ => exact fun _ hread => by cases hread

/-- A row stays. -/
theorem flagOf_isSome_of_run {last : Config} (hrun : (machine app).Run anyStep s last)
    (hpresent : (flagOf s.store.users uid).isSome = true) :
    (flagOf last.store.users uid).isSome = true := by
  induction hrun with
  | refl => exact hpresent
  | tail _ _ hact ih =>
      obtain ⟨flag, hflag⟩ := Option.isSome_iff_exists.mp ih
      rcases flagOf_act hact hflag with hsame | ⟨_, _, _, -, -, -, hset⟩
      · rw [hsame]
        rfl
      · rw [hset]
        rfl

/-- A row that a thread has been given is there. -/
theorem flagOf_isSome_of_did (hrun : (machine app).Run anyStep (.initial store) s)
    {username : Bytes} (hdid : s.Did i (.auth (.usersGetByUsername username)) (.ok u)) :
    (flagOf s.store.users u.id).isSome = true := by
  obtain ⟨op, front, back, -, htrace, -⟩ :=
    (hrun.wellFormed .initial).reaches_of_did hdid
  obtain ⟨mid, choice, after, proc, -, -, -, -, hexec, hact, hrest⟩ :=
    hrun.at_entry front _ back List.nil_prefix htrace
  obtain ⟨_, -, hfound, -⟩ := exec_auth hexec
  have hanswer := answer_of_rowRead hfound rfl
  have hread : mid.store.users.getByUsername username = .ok u := Option.some.inj hanswer
  have hpresent : (flagOf mid.store.users u.id).isSome = true := by
    unfold Users.getByUsername at hread
    split at hread
    · cases hread
    · rename_i row hrow
      cases hread
      rw [flagOf, Table.find_of_mem (List.mem_of_find?_eq_some hrow)]
      rfl
  exact flagOf_isSome_of_run ((Machine.Run.tail .refl trivial hact).trans hrest) hpresent

/-- The command that disables an account sets its flag. -/
theorem flagOf_disabling (hrun : (machine app).Run anyStep (.initial store) s)
    (hpending : s.pending? i = some (.auth (.usersSetDisabled uid true)))
    (hexecutes : choice.executes = true)
    (hact : (machine app).act s (.advance i (.auth choice)) = some next) :
    flagOf next.store.users uid = some true := by
  obtain ⟨username, u, -, rfl, hdid⟩ :=
    setDisabled_pending (hrun.wellFormed .initial) hpending
  obtain ⟨flag, hflag⟩ := Option.isSome_iff_exists.mp (flagOf_isSome_of_did hrun hdid)
  obtain ⟨reply, after, proc, hexec, rfl⟩ := Machine.act_advance hact hpending
  have hexec : exec app.prims s.store (.auth (.usersSetDisabled u.id true)) (.auth choice) =
      some (reply, after) := hexec
  obtain ⟨found, heq, hfound, -⟩ := exec_auth hexec
  cases heq
  have hafter := flagOf_exec hfound hflag
  rw [if_pos hexecutes, flagAfter, if_pos rfl] at hafter
  exact hafter

/-- From the step that disables an account until a step that enables it: the flag
stays set; a request that looks the account up for its session goes on without
one; a login or a callback whose read of the row gives the account, or none, is
refused.  No step but that of the command takes the flag back, and no login through
the identity provider. -/
theorem disabled_locked_out {before mid last fin : Config} {choice : Auth.Choice}
    (hpast : (machine app).Run anyStep (.initial store) before)
    (hpending : before.pending? i = some (.auth (.usersSetDisabled uid true)))
    (hexecutes : choice.executes = true)
    (hact : (machine app).act before (.advance i (.auth choice)) = some mid)
    (hinterval : (machine app).Run (KeepsOut uid) mid last)
    (hrun : (machine app).Run anyStep last fin) :
    flagOf last.store.users uid = some true ∧
      (∀ k r reply, (k, ⟨.auth (.usersGetByID uid), reply⟩) ∈ last.log.drop mid.log.length →
        fin.ops[k]? = some (.request r) → GoesAnonymous app.server r (fin.trace k)) ∧
      (∀ k r username reply response,
        (k, ⟨.auth (.usersGetByUsername username), reply⟩) ∈ last.log.drop mid.log.length →
        (∀ u, reply = .ok u → u.id = uid) → targetOf r = .api .login →
        fin.Returned k (.request r) (.response response) → Refused response) ∧
      (∀ k r v reply response,
        (k, ⟨.auth (.usersUpsertOIDC v), reply⟩) ∈ last.log.drop mid.log.length →
        (∀ u, reply = .ok u → u.id = uid) → targetOf r = .api .oidcCallback →
        fin.Returned k (.request r) (.response response) → Refused response) ∧
      (∀ s action next, (machine app).Run anyStep (.initial store) s →
        (machine app).act s action = some next → flagOf s.store.users uid = some true →
        flagOf next.store.users uid ≠ some true →
        ∃ j choice username, action = .advance j (.auth choice) ∧
          s.ops[j]? = some (.command (.enable username)) ∧
          s.pending? j = some (.auth (.usersSetDisabled uid false))) ∧
      ∀ users users' now v stored, flagOf users uid = some true →
        users.upsertOIDC now v = .ok (stored, users') → flagOf users' uid = some true := by
  have hflag := flagOf_disabling hpast hpending hexecutes hact
  obtain ⟨hlast, hdenies⟩ := denies_of_run hinterval hflag
  have hmid := hpast.tail trivial hact
  have hall : (machine app).Run anyStep (.initial store) fin :=
    (hmid.trans (hinterval.weaken fun _ _ _ => trivial)).trans hrun
  have hwf := hall.wellFormed .initial
  have hkept : ∀ {k : ℕ} {entry : Step}, (k, entry) ∈ last.log.drop mid.log.length →
      (k, entry) ∈ fin.log := fun hmem => hrun.extends.log.subset (List.mem_of_mem_drop hmem)
  have hrefused : ∀ {k : ℕ} {r : Request} {entry : Step} {response : Response}
      {reply : Except Auth.Err Auth.User}, (k, entry) ∈ last.log.drop mid.log.length →
      rowRead entry = some reply → (∀ u, reply = .ok u → u.id = uid) →
      (∀ id, entry.1 ≠ .auth (.usersGetByID id)) →
      (targetOf r = .api .login ∨ targetOf r = .api .oidcCallback) →
      fin.Returned k (.request r) (.response response) → Refused response := by
    intro k r entry response reply hmem hread habout hother htarget hreturned
    obtain ⟨found, hserve, ⟨⟩⟩ := Proc.reaches_map_result.mp
      (hwf.reaches_returned hreturned)
    have hentry : entry ∈ fin.trace k := (fin.did_iff_mem_trace k entry.1 entry.2).mp (hkept hmem)
    exact serve_refused htarget hserve hentry hother
      (not_welcoming (hdenies k entry hmem) hread fun u hu => .inl (habout u hu))
  refine ⟨hlast, ?_, ?_, ?_, ?_, ?_⟩
  · intro k r reply hmem hop
    obtain ⟨point, hpoint⟩ := exists_point hwf hop
    obtain ⟨op, front, back, hop', htrace, hfront⟩ := hwf.reaches_of_did (hkept hmem)
    rw [hop] at hop'
    cases hop'
    exact anonymous_of_denied hpoint htrace hfront.of_map
      (not_welcoming (hdenies k _ hmem) rfl fun _ _ => .inr rfl)
  · intro k r username reply response hmem habout htarget hreturned
    exact hrefused hmem rfl habout nofun (.inl htarget) hreturned
  · intro k r v reply response hmem habout htarget hreturned
    exact hrefused hmem rfl habout nofun (.inr htarget) hreturned
  · intro s action next hs hstep hbefore hafter
    rcases flagOf_act hstep hbefore with hsame | ⟨j, found, disabled, rfl, -, hwaiting, hset⟩
    · exact absurd hsame hafter
    · cases disabled with
      | true => exact absurd hset hafter
      | false =>
          obtain ⟨username, _, hop, -, -⟩ :=
            setDisabled_pending (hs.wellFormed .initial) hwaiting
          exact ⟨j, found, username, rfl, hop, hwaiting⟩
  · intro users users' now v stored hbefore hupsert
    exact (flagOf_upsertOIDC hbefore hupsert).1

end Runs

end Accounts

namespace Sample

/-- The command that disables the user has come in. -/
def disabling : Config :=
  (Interleaving.Config.initial store).invoke (.command (.disable user.username))
    (program app (.command (.disable user.username)))

/-- The thread is about to disable the user. -/
def aboutToDisable (s : Config) : Bool :=
  match s.pending? 0 with
  | some (.auth (.usersSetDisabled id disabled)) => id = user.id && disabled
  | _ => false

variable {s : Config}

theorem pending_of_aboutToDisable (habout : aboutToDisable s = true) :
    s.pending? 0 = some (.auth (.usersSetDisabled user.id true)) := by
  unfold aboutToDisable at habout
  split at habout
  · rename_i id disabled hpending
    rw [Bool.and_eq_true, decide_eq_true_eq] at habout
    rw [hpending, habout.1, habout.2]
  · cases habout

/-- Of the user store, only lookups by identifier. -/
def lookingUp (s : Config) : Action → Bool
  | .advance i (.auth _) =>
      match s.pending? i with
      | some (.auth (.usersGetByID _)) => true
      | _ => false
  | _ => true

theorem keepsOut_of_lookingUp {action : Action} (hlooking : lookingUp s action = true) :
    KeepsOut user.id s action := by
  cases action with
  | env | invoke => trivial
  | advance i choice =>
      cases choice with
      | auth choice =>
          intro _ hpending
          simp only [lookingUp, hpending] at hlooking
          cases hlooking
      | _ => trivial

/-- The second thread has looked the user up since. -/
def lookedUp (since : ℕ) (s : Config) : Bool :=
  (s.log.drop since).any fun entry =>
    match entry with
    | (1, ⟨.auth (.usersGetByID id), _⟩) => id = user.id
    | _ => false

theorem exists_of_lookedUp {since : ℕ} (hlooked : lookedUp since s = true) :
    ∃ reply, (1, ⟨.auth (.usersGetByID user.id), reply⟩) ∈ s.log.drop since := by
  obtain ⟨entry, hmem, hentry⟩ := List.any_eq_true.mp hlooked
  split at hentry
  · rename_i id reply
    obtain rfl := of_decide_eq_true hentry
    exact ⟨reply, hmem⟩
  · cases hentry

end Sample

/-- A user with a session is disabled, and then presents it. -/
theorem disabled_locked_out_sample :
    ∃ before mid last : Config,
      (machine Sample.app).Run anyStep (.initial Sample.store) before ∧
      before.pending? 0 = some (.auth (.usersSetDisabled Sample.user.id true)) ∧
      (machine Sample.app).act before (.advance 0 (.auth .ok)) = some mid ∧
      (machine Sample.app).Run (KeepsOut Sample.user.id) mid last ∧
      (∃ reply, (1, ⟨.auth (.usersGetByID Sample.user.id), reply⟩) ∈
        last.log.drop mid.log.length) ∧
      GoesAnonymous Sample.app.server Sample.logout (last.trace 1) := by
  have hperform : ((machine Sample.app).perform (fun _ _ => true) Sample.disabling
      [.advance 0 (.auth .ok), .advance 0 (.auth .ok)]).any (fun before =>
      Sample.aboutToDisable before &&
        ((machine Sample.app).act before (.advance 0 (.auth .ok))).any fun mid =>
          mid.ops.length = 1 && ((machine Sample.app).perform Sample.lookingUp
            (mid.invoke (.request Sample.logout) (program Sample.app (.request Sample.logout)))
            [.advance 1 (.session .ok), .advance 1 (.session .ok), .advance 1 (.auth .ok),
              .advance 1 (.session .ok)]).any (Sample.lookedUp mid.log.length)) = true := by
    decide +kernel
  obtain ⟨before, hstart, hobs⟩ : ∃ s, (machine Sample.app).Run anyStep Sample.disabling s ∧ _ :=
    Machine.exists_any_run hperform
  have hinvoke : (machine Sample.app).act (.initial Sample.store)
      (.invoke (.command (.disable Sample.user.username))) = some Sample.disabling := rfl
  have hpast := (Machine.Run.tail .refl trivial hinvoke).trans hstart
  rw [Bool.and_eq_true] at hobs
  have hpending := Sample.pending_of_aboutToDisable hobs.1
  obtain ⟨mid, hact, hobs⟩ := (Option.any_eq_true _ _).mp hobs.2
  rw [Bool.and_eq_true] at hobs
  obtain ⟨last, hrest, hlooked⟩ := Machine.exists_run_of_perform
    (fun (_ : Config) (_ : Action) => Sample.keepsOut_of_lookingUp) hobs.2
  have hrequest : (machine Sample.app).act mid (.invoke (.request Sample.logout)) =
      some (mid.invoke (.request Sample.logout) (program Sample.app (.request Sample.logout))) := rfl
  have hinterval := (Machine.Run.tail .refl trivial hrequest).trans hrest
  have hop : last.ops[1]? = some (.request Sample.logout) := by
    refine hrest.extends.op ?_
    rw [Config.invoke, ← of_decide_eq_true hobs.1, List.getElem?_append_right le_rfl, Nat.sub_self]
    rfl
  obtain ⟨reply, hmem⟩ := Sample.exists_of_lookedUp hlooked
  have hlocked := disabled_locked_out hpast hpending rfl hact hinterval .refl
  exact ⟨before, mid, last, hpast, hpending, hact, hinterval, ⟨reply, hmem⟩,
    hlocked.2.1 1 Sample.logout reply hmem hop⟩

end SecurePastebin.Web
