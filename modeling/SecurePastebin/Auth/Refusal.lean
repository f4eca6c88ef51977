import SecurePastebin.Auth.Accounts
import SecurePastebin.Auth.SingleUse

/-!
# Refused logins

What a `Complete` that returns an error has done to the `users` table.  The
provisioning write comes before the last check: a person whose account is
disabled is refused after the row was written.
-/

namespace SecurePastebin.Auth.Flow

open Text Uuid Base64 Process
open Interleaving SecurePastebin.Store

variable {o : OIDC} {state code : Bytes} {err : Err}

/-! ## What `Complete` was told -/

/-- An answered upsert that has written a row of an account in use. -/
def Admitted (entry : Step) : Prop :=
  ∃ u stored, entry = ⟨.usersUpsertOIDC u, .ok stored⟩ ∧ stored.disabled = false

def isUpsert : Call → Bool
  | .usersUpsertOIDC _ => true
  | _ => false

/-- The calls that cannot be an upsert. -/
def notUpsert (request : Call) : Prop := isUpsert request = false

def upserts (trace : List Step) : ℕ := trace.countP fun entry => isUpsert entry.1

/-- At most one upsert, and none that has written a row of an account in use. -/
structure Denied (trace : List Step) : Prop where
  once : upserts trace ≤ 1
  none : ∀ entry ∈ trace, ¬ Admitted entry

section Denied

variable {front trace : List Step} {entry : Step}

theorem upserts_eq_zero (hnot : ∀ entry ∈ trace, notUpsert entry.1) : upserts trace = 0 :=
  List.countP_eq_zero.mpr fun entry hentry => (Bool.not_eq_true _).mpr (hnot entry hentry)

theorem denied_nil : Denied [] := ⟨Nat.zero_le 1, fun _ hentry => nomatch hentry⟩

/-- What comes before is of no account, as long as there is no upsert in it. -/
theorem Denied.append (hdenied : Denied trace) (hnot : ∀ entry ∈ front, notUpsert entry.1) :
    Denied (front ++ trace) := by
  constructor
  · rw [upserts, List.countP_append, ← upserts, upserts_eq_zero hnot, Nat.zero_add]
    exact hdenied.once
  · intro entry hentry
    rcases List.mem_append.mp hentry with hentry | hentry
    · rintro ⟨u, stored, rfl, -⟩
      cases hnot _ hentry
    · exact hdenied.none entry hentry

theorem denied_of_notUpsert (hnot : ∀ entry ∈ trace, notUpsert entry.1) : Denied trace :=
  List.append_nil trace ▸ denied_nil.append hnot

theorem Denied.cons (hdenied : Denied trace) (hnot : notUpsert entry.1) :
    Denied (entry :: trace) :=
  @Denied.append [entry] trace hdenied (by simpa using hnot)

/-- The upsert of a login that is refused is the only one. -/
theorem denied_upsert (hdenied : ¬ Admitted entry) (hnot : ∀ entry ∈ trace, notUpsert entry.1) :
    Denied (entry :: trace) := by
  constructor
  · rw [upserts, List.countP_cons, ← upserts, upserts_eq_zero hnot, Nat.zero_add]
    split <;> omega
  · intro other hother
    rcases List.mem_cons.mp hother with rfl | hother
    · exact hdenied
    · rintro ⟨u, stored, rfl, -⟩
      cases hnot _ hother

end Denied

theorem recordDenied_notUpsert (subject : Bytes) (reason : String) :
    (recordDenied o subject reason).CallsOnly notUpsert :=
  ⟨rfl, fun _ => ⟨rfl, fun _ => trivial⟩⟩

/-- A refusal is reported without a further write. -/
theorem recordDenied_bind_notUpsert (subject : Bytes) (reason : String) :
    (recordDenied o subject reason >>= fun _ =>
      (.ret (.error err) : Port (Except Err User))).CallsOnly notUpsert :=
  (recordDenied_notUpsert subject reason).bind fun _ => trivial

theorem provision_error {now : ℤ} {idToken : IDToken} {claims : IdentityClaims}
    {trace : List Step}
    (hreach : (provision o now idToken claims).Reaches trace (.inr (.error err))) :
    Denied trace := by
  unfold provision at hreach
  split_ifs at hreach
  · exact denied_of_notUpsert fun _ =>
      (recordDenied_bind_notUpsert idToken.subject _).of_mem hreach
  · simp only [Proc.perform_bind, Proc.reaches_call_result] at hreach
    obtain ⟨id, tail, rfl, reply, rest, rfl, hreach⟩ := hreach
    refine Denied.cons ?_ rfl
    cases reply with
    | error failed =>
        obtain ⟨rfl, -⟩ := hreach
        refine denied_upsert ?_ (List.forall_mem_nil _)
        rintro ⟨u, stored, heq, -⟩
        cases heq
    | ok stored =>
        dsimp only at hreach
        split_ifs at hreach with hdisabled
        · refine denied_upsert ?_ fun _ =>
            (recordDenied_bind_notUpsert idToken.subject _).of_mem hreach
          rintro ⟨u, found, heq, henabled⟩
          cases heq
          rw [hdisabled] at henabled
          cases henabled
        · simp only [Proc.reaches_call_result] at hreach
          obtain ⟨_, _, -, -, ⟨⟩⟩ := hreach

theorem identify_error {nonce : Bytes} {now : ℤ} {idToken : IDToken} {trace : List Step}
    (hreach : (identify o nonce now idToken).Reaches trace (.inr (.error err))) :
    Denied trace := by
  unfold identify at hreach
  split_ifs at hreach
  · exact denied_of_notUpsert fun _ =>
      (recordDenied_bind_notUpsert idToken.subject _).of_mem hreach
  · exact hreach.1 ▸ denied_nil
  · split at hreach
    · exact hreach.1 ▸ denied_nil
    · exact provision_error hreach

theorem redeem_error {value : OIDCState} {now : ℤ} {trace : List Step}
    (hreach : (redeem o value now code).Reaches trace (.inr (.error err))) : Denied trace := by
  simp only [redeem, Proc.perform_bind, Proc.reaches_call_result] at hreach
  obtain ⟨response, tail, rfl, hreach⟩ := hreach
  refine Denied.cons ?_ rfl
  cases response with
  | error failed => exact hreach.1 ▸ denied_nil
  | ok rawIDToken =>
      dsimp only at hreach
      split_ifs at hreach
      · exact hreach.1 ▸ denied_nil
      · rw [Proc.reaches_call_result] at hreach
        obtain ⟨verified, rest, rfl, hreach⟩ := hreach
        refine Denied.cons ?_ rfl
        cases verified with
        | error failed => exact hreach.1 ▸ denied_nil
        | ok idToken => exact identify_error hreach

theorem takeState_notUpsert : (takeState state).CallsOnly notUpsert := by
  refine Proc.callsOnly_of_reaches fun trace request hreach => ?_
  rcases takeState_reaches hreach with ⟨-, hpoint⟩ | ⟨_, ⟨⟩⟩ | ⟨_, -, ⟨⟩⟩
  cases hpoint
  rfl

/-- A `Complete` that returns an error has made one upsert at most, and provisioned
nobody whose account is in use. -/
theorem complete_error {trace : List Step}
    (hreach : (complete o state code).Reaches trace (.inr (.error err))) : Denied trace := by
  unfold complete at hreach
  rw [Proc.reaches_bind] at hreach
  rcases hreach with ⟨_, -, ⟨⟩⟩ | ⟨outcome, front, back, rfl, htake, hreach⟩
  refine Denied.append ?_ fun _ => takeState_notUpsert.of_mem htake
  cases outcome with
  | error failed => exact hreach.1 ▸ denied_nil
  | ok value =>
      simp only [Proc.perform_bind, Proc.reaches_call_result] at hreach
      obtain ⟨now, tail, rfl, hreach⟩ := hreach
      refine Denied.cons ?_ rfl
      split_ifs at hreach
      · exact hreach.1 ▸ denied_nil
      · exact hreach.1 ▸ denied_nil
      · exact redeem_error hreach

/-! ## What the calls of a login write -/

/-- An upsert writes nothing new exactly if the row it returns is there already. -/
theorem upsertOIDC_eq_iff {users users' : Users} {u stored : User} {now : ℤ}
    (hupsert : users.upsertOIDC now u = .ok (stored, users')) :
    users' = users ↔ stored ∈ users.rows := by
  obtain ⟨hfind, -⟩ := upsertOIDC_ok hupsert
  constructor
  · rintro rfl
    exact Table.mem_of_find ((hfind stored.id).trans (if_pos rfl))
  · intro hstored
    unfold Users.upsertOIDC at hupsert
    split at hupsert
    · cases hupsert
    split at hupsert
    · rename_i row hrow
      cases hupsert
      -- the row found, the one selected and the one stored have one key
      have hkey := Table.find_of_mem (List.mem_of_find?_eq_some hrow)
      have hsame : row = Users.refreshed u now row :=
        Option.some.inj (hkey.symm.trans (Table.find_of_mem hstored))
      refine Table.update_eq_self fun other hother hid => ?_
      have hselected := Table.find_of_mem hother
      rw [of_decide_eq_true hid] at hselected
      obtain rfl := Option.some.inj (hkey.symm.trans hselected)
      exact hsame.symm
    · cases hinsert : users.insertRow (Users.provisioned u now) with
      | error err =>
          rw [hinsert] at hupsert
          cases hupsert
      | ok found =>
          rw [hinsert] at hupsert
          cases hupsert
          have hfresh := (insertRow_ok hinsert).1
          cases hfresh.symm.trans (Table.find_of_mem hstored)

/-- An upsert that thread `i` has executed and the table has taken, although the
account is disabled or the reply is lost, writes a row that is there already. -/
def Spared (i : ℕ) (s : Config) (choice : Choice) : Prop :=
  ∀ u stored users, s.pending? i = some (.usersUpsertOIDC u) → choice.executes = true →
    s.store.users.upsertOIDC s.store.clock u = .ok (stored, users) →
    (stored.disabled = true ∨ ∃ text, choice = .lost text) → stored ∈ s.store.users.rows

section Step

variable {op : Op} {trace : List Step} {store after : Store} {request : Call} {choice : Choice}
  {reply : request.Reply}

/-- Of the calls of a login only the upsert writes to the table. -/
theorem users_of_notUpsert (hreach : (program o op).Reaches trace (.inl request))
    (hnot : notUpsert request) (hexec : exec store request choice = some (reply, after)) :
    after.users = store.users := by
  rw [exec_store hexec]
  cases op with
  | start =>
      have hof := start_calls.reaches hreach.of_map
      cases request with
      | now | randomToken | statesSet key value ttl => split <;> rfl
      | _ => cases hof
  | complete state code =>
      have hof := complete_calls.reaches hreach.of_map
      cases request with
      | usersUpsertOIDC u => cases hnot
      | now | auditRecord event | newUUID | statesGetDel key | exchange code verifier
      | verifyIDToken rawIDToken => split <;> rfl
      | _ => cases hof

theorem users_of_upsert {u : User} {reply : Except Err User}
    (hexec : exec store (.usersUpsertOIDC u) choice = some (reply, after))
    (hdenied : ¬ Admitted ⟨.usersUpsertOIDC u, reply⟩) :
    after.users = store.users ↔ ∀ stored users, choice.executes = true →
      store.users.upsertOIDC store.clock u = .ok (stored, users) →
      (stored.disabled = true ∨ ∃ text, choice = .lost text) → stored ∈ store.users.rows := by
  rw [exec_store hexec]
  cases hexecutes : choice.executes with
  | false => simp
  | true =>
      rw [if_pos rfl]
      cases hupsert : store.users.upsertOIDC store.clock u with
      | error failed => simp [effect, written, hupsert, Except.map]
      | ok outcome =>
          obtain ⟨stored, users⟩ := outcome
          have heffect : (effect store (.usersUpsertOIDC u)).users = users := by
            simp [effect, written, hupsert, Except.map]
          rw [heffect, upsertOIDC_eq_iff hupsert]
          constructor
          · rintro hstored _ _ - ⟨⟩ -
            exact hstored
          · intro hspared
            refine hspared stored users rfl rfl ?_
            by_contra hadmitted
            rw [not_or, Bool.not_eq_true] at hadmitted
            refine hdenied ⟨u, stored, ?_, hadmitted.1⟩
            cases choice with
            | ok =>
                simp only [exec, answer, hupsert, Option.map_some, Option.some.injEq,
                  Prod.mk.injEq] at hexec
                rw [← hexec.1]
                rfl
            | fail text => cases hexecutes
            | lost text => exact absurd ⟨text, rfl⟩ hadmitted.2
            | _ => simp [exec] at hexec

end Step

variable {s before mid after : Config} {i : ℕ} {choice : Choice}

/-- A call that has not admitted anybody leaves the table alone exactly if it is
spared. -/
theorem users_iff_spared {op : Op} {trace : List Step} {store : Store} {request : Call}
    {reply : request.Reply} (hpending : s.pending? i = some request)
    (hreach : (program o op).Reaches trace (.inl request))
    (hexec : exec s.store request choice = some (reply, store))
    (hdenied : ¬ Admitted ⟨request, reply⟩) :
    store.users = s.store.users ↔ Spared i s choice := by
  cases request with
  | usersUpsertOIDC u =>
      rw [users_of_upsert hexec hdenied]
      simp only [Spared, hpending, Option.some.injEq, Call.usersUpsertOIDC.injEq]
      exact ⟨fun h v => by rintro stored users rfl; exact h stored users,
        fun h stored users => h u stored users rfl⟩
  | _ =>
      refine iff_of_true (users_of_notUpsert hreach rfl hexec) ?_
      intro u _ _ hother
      cases hpending.symm.trans hother

/-- Of the threads, only `i` moves. -/
def Alone (i : ℕ) (_ : Config) (action : Action) : Prop :=
  ∀ j choice, action = .advance j choice → j = i

/-- Without an upsert, a thread that moves alone leaves the table as it is. -/
theorem users_of_alone (hwf : (machine o).WellFormed before)
    (hrun : (machine o).Run (Alone i) before s)
    (hcount : upserts (s.trace i) ≤ upserts (before.trace i)) :
    s.store.users = before.store.users := by
  induction hrun with
  | refl => rfl
  | @tail mid next action hpast halone hact ih =>
      rcases Machine.act_cases hact with ⟨change, store, -, hchange, rfl⟩ | ⟨op, -, rfl⟩ |
        ⟨j, choice, request, rest, reply, store, rfl, hproc, hexec, rfl⟩
      · have hsame : store.users = mid.store.users := by
          cases change <;> cases hchange <;> rfl
        exact hsame.trans (ih hcount)
      · exact ih hcount
      · obtain rfl := halone j choice rfl
        obtain ⟨op, -, hreach⟩ := (hpast.wellFormed hwf).reaches_waiting hproc
        have hle : upserts (before.trace j) ≤ upserts (mid.trace j) :=
          (hpast.extends.trace j).sublist.countP_le
        rw [Config.trace_answer_self, upserts, List.countP_append, ← upserts] at hcount
        have hnot : notUpsert request := by
          by_contra hupsert
          rw [notUpsert, Bool.not_eq_false] at hupsert
          rw [List.countP_singleton, if_pos hupsert] at hcount
          omega
        exact (users_of_notUpsert hreach hnot hexec).trans (ih (by omega))

/-- Around its only upsert, a thread that moves alone leaves the table as it is. -/
theorem users_around (hwf : (machine o).WellFormed before) (hfresh : before.trace i = [])
    (hone : upserts (s.trace i) ≤ 1)
    (htakes : (machine o).Takes (Alone i) before s i mid choice after) {u : User}
    (hpending : mid.pending? i = some (.usersUpsertOIDC u)) :
    mid.store.users = before.store.users ∧ s.store.users = after.store.users := by
  obtain ⟨reply, store, proc, -, hafter⟩ := Machine.act_advance htakes.act hpending
  have hmid : upserts (after.trace i) = upserts (mid.trace i) + 1 := by
    rw [hafter, Config.trace_answer_self, upserts, List.countP_append]
    rfl
  have hlater : upserts (after.trace i) ≤ upserts (s.trace i) :=
    (htakes.later.extends.trace i).sublist.countP_le
  have hnone : upserts (before.trace i) = 0 := by rw [hfresh]; rfl
  refine ⟨users_of_alone hwf htakes.before (by omega), ?_⟩
  exact users_of_alone ((htakes.before.wellFormed hwf).act htakes.act) htakes.later (by omega)

/-- Whatever runs in between, a step of a `Complete` that returns an error leaves the
`users` table alone exactly if it is spared; and if nothing else moves, the table is
the one before the call exactly if all its steps are. -/
theorem refused_login_changes_nothing {store : Store}
    (hrun : (machine o).Run anyStep (.initial store) s)
    (hreturned : s.Returned i (.complete state code) (.user (.error err))) :
    (∀ mid choice after, (machine o).Takes anyStep (.initial store) s i mid choice after →
      (after.store.users = mid.store.users ↔ Spared i mid choice)) ∧
    ∀ before, (machine o).Run anyStep (.initial store) before → before.ops.length = i →
      (machine o).Run (Alone i) before s →
      (s.store.users = before.store.users ↔ ∀ mid choice after,
        (machine o).Takes (Alone i) before s i mid choice after → Spared i mid choice) := by
  have hwf := hrun.wellFormed .initial
  obtain ⟨value, hreach, ⟨⟩⟩ := Proc.reaches_map_result.mp (hwf.reaches_returned hreturned)
  have hdenied := complete_error hreach
  have hstep : ∀ {start mid choice after allowed}, (machine o).WellFormed start →
      (machine o).Takes allowed start s i mid choice after →
      (after.store.users = mid.store.users ↔ Spared i mid choice) := by
    intro start mid choice after allowed hstart htakes
    obtain ⟨op, request, reply, store, proc, -, hpending, hreach, hdid, hexec, rfl⟩ :=
      htakes.did hstart
    exact users_iff_spared hpending hreach hexec
      (hdenied.none _ ((s.did_iff_mem_trace ..).mp hdid))
  refine ⟨fun mid choice after => hstep .initial, ?_⟩
  intro before hbefore hlength halone
  have hstart := hbefore.wellFormed .initial
  have hfresh := hstart.trace_eq_nil hlength.le
  constructor
  · intro hsame mid choice after htakes u stored users hpending
    obtain ⟨hearlier, hlater⟩ := users_around hstart hfresh hdenied.once htakes hpending
    have hkept : after.store.users = mid.store.users := by rw [← hlater, hsame, hearlier]
    exact (hstep hstart htakes).mp hkept u stored users hpending
  · intro hspared
    by_cases hupsert : ∃ entry ∈ s.trace i, isUpsert entry.1 = true
    · obtain ⟨⟨request, reply⟩, hentry, hkind⟩ := hupsert
      obtain ⟨front, back, htrace⟩ := List.append_of_mem hentry
      obtain ⟨mid, choice, store, proc, hearly, hmay, -, hpending, -, hact, hlate⟩ :=
        halone.at_entry front _ back (by rw [hfresh]; exact List.nil_prefix) htrace
      have htakes : (machine o).Takes (Alone i) before s i mid choice _ :=
        ⟨hearly, hmay, hact, hlate⟩
      cases request with
      | usersUpsertOIDC u =>
          obtain ⟨hearlier, hlater⟩ := users_around hstart hfresh hdenied.once htakes hpending
          rw [hlater, ← hearlier]
          exact (hstep hstart htakes).mpr (hspared _ _ _ htakes)
      | _ => cases hkind
    · refine users_of_alone hstart halone ?_
      rw [upserts, List.countP_eq_zero.mpr fun entry hentry hkind => hupsert ⟨entry, hentry, hkind⟩]
      exact Nat.zero_le _

namespace Sample

/-- The store before a login, with one account in it. -/
def holding (row : User) : Store :=
  ⟨1700000000000000000, 0, ⟨[row], List.nodup_singleton _⟩, fun _ => none⟩

/-- The person of the sample login, disabled. -/
def disabled : User where
  id := .filled 7
  username := ascii "ana"
  displayName := ascii "Ana"
  provider := .oidc
  oidcIssuer := ascii "https://id"
  oidcSubject := ascii "ana"
  passwordHash := []
  isAdmin := true
  disabled := true
  lastLoginAt := none

/-- The second thread was refused with this error. -/
def refusedWith (err : Err) (s : Config) : Bool :=
  s.ops = [.start, .complete Sample.state Sample.code] &&
    s.result? 1 = some (.user (.error err))

theorem returned_of_refusedWith {err : Err} {s : Config} (hrefused : refusedWith err s = true) :
    s.Returned 1 (.complete Sample.state Sample.code) (.user (.error err)) := by
  simp only [refusedWith, Bool.and_eq_true, decide_eq_true_eq] at hrefused
  exact (s.returned_iff 1 _ _).mpr ⟨by rw [hrefused.1]; rfl, hrefused.2⟩

end Sample

/-- A login under the user name of a local account. -/
theorem refused_login_changes_nothing_sample :
    ∃ s, (machine Sample.flow).Run anyStep (.initial (Sample.holding Auth.Sample.ana)) s ∧
      s.Returned 1 (.complete Sample.state Sample.code) (.user (.error .userExists)) ∧
      ∀ mid choice after, (machine Sample.flow).Takes anyStep
        (.initial (Sample.holding Auth.Sample.ana)) s 1 mid choice after →
        (after.store.users = mid.store.users ↔ Spared 1 mid choice) := by
  have hperform : ((machine Sample.flow).perform (fun _ _ => true)
      (.initial (Sample.holding Auth.Sample.ana)) (Sample.login.take 13)).any
      (Sample.refusedWith .userExists) = true := by
    decide +kernel
  obtain ⟨s, hrun, hrefused⟩ := Machine.exists_any_run hperform
  have hreturned := Sample.returned_of_refusedWith hrefused
  exact ⟨s, hrun, hreturned, (refused_login_changes_nothing hrun hreturned).1⟩

/-- A person whose account is disabled is refused, after the login has set the
time of the last login and taken the privilege away. -/
theorem disabled_login_changes_row :
    ∃ s row, (machine Sample.flow).Run anyStep (.initial (Sample.holding Sample.disabled)) s ∧
      s.Returned 1 (.complete Sample.state Sample.code) (.user (.error .notAuthorised)) ∧
      s.store.users.find Sample.disabled.id = some row ∧
      row.lastLoginAt ≠ Sample.disabled.lastLoginAt ∧ row.isAdmin ≠ Sample.disabled.isAdmin := by
  have hperform : ((machine Sample.flow).perform (fun _ _ => true)
      (.initial (Sample.holding Sample.disabled)) (Sample.login ++ [.advance 1 .ok])).any
      (fun s => Sample.refusedWith .notAuthorised s &&
        (s.store.users.find Sample.disabled.id).any fun row =>
          row.lastLoginAt.isSome && !row.isAdmin) = true := by
    decide +kernel
  obtain ⟨s, hrun, hobserved⟩ : ∃ s, (machine Sample.flow).Run anyStep
      (.initial (Sample.holding Sample.disabled)) s ∧ (Sample.refusedWith .notAuthorised s &&
        (s.store.users.find Sample.disabled.id).any fun row =>
          row.lastLoginAt.isSome && !row.isAdmin) = true :=
    Machine.exists_any_run hperform
  simp only [Bool.and_eq_true, Option.any_eq_true, Bool.not_eq_true'] at hobserved
  obtain ⟨hrefused, row, hrow, hlogin, hadmin⟩ := hobserved
  refine ⟨s, row, hrun, Sample.returned_of_refusedWith hrefused, hrow, ?_, ?_⟩
  · rw [Option.isSome_iff_exists] at hlogin
    obtain ⟨time, htime⟩ := hlogin
    rw [htime]
    exact Option.some_ne_none time
  · rw [hadmin]
    exact Bool.false_ne_true

end SecurePastebin.Auth.Flow
