import SecurePastebin.Web.Content
import SecurePastebin.Web.Throttle

/-!
# Password guesses

The envelope opens a body with a caller's password only for a request to unlock
the paste, and the hasher compares a caller's password only for a login.  Both
come after two rate limits, one on the client's address alone, so that the
guesses are bounded as the requests past those limits are.
-/

namespace SecurePastebin.Web

open Text Uuid Calendar Process Interleaving
open Ratelimit (Rule Scope bucketKey decision)

/-- What makes every occurrence the first one leaves at most one. -/
theorem countP_le_one_of_first {Item : Type} {items : List Item} {kind : Item → Bool}
    (hfirst : ∀ front item back, items = front ++ item :: back → kind item = true →
      ∀ other ∈ front, kind other = false) : items.countP kind ≤ 1 := by
  induction items with
  | nil => exact Nat.zero_le 1
  | cons first rest ih =>
      by_cases hkind : kind first = true
      · have hrest : rest.countP kind = 0 := by
          rw [List.countP_eq_zero]
          intro item hitem hother
          obtain ⟨front, back, rfl⟩ := List.append_of_mem hitem
          have := hfirst (first :: front) item back rfl hother first List.mem_cons_self
          rw [hkind] at this
          cases this
        rw [List.countP_cons, hrest, if_pos hkind]
      · rw [List.countP_cons_of_neg hkind]
        refine ih fun front item back heq hitem other hother => ?_
        exact hfirst (first :: front) item back (by rw [heq, List.cons_append]) hitem other
          (List.mem_cons_of_mem _ hother)

variable {srv : Server} {r : Request} {info : Option SessionInfo} {trace : List Step}

/-- The calls that resolve the session of a request and hold it to its rate
limits. -/
def isAdmission : Call → Prop
  | .limit _ | .session _ | .auth (.usersGetByID _) => True
  | _ => False

theorem isAdmission_of_load {point : Call ⊕ Option SessionInfo}
    (hreach : (loadSession srv r).Reaches trace point) : ∀ step ∈ trace, isAdmission step.1 := by
  intro step hstep
  rcases loadSession_calls.of_mem hreach hstep with ⟨call, hcall⟩ | ⟨id, hcall⟩
  all_goals
    rw [hcall]
    trivial

theorem isAdmission_of_passed {checks : List (Scope × Bytes)} {front : List Step}
    (hpassed : Passed srv checks front) : ∀ step ∈ front, isAdmission step.1 := by
  induction checks generalizing front with
  | nil =>
      cases hpassed
      simp
  | cons check checks ih =>
      obtain ⟨sub, found, later, rfl, -, -, hrest⟩ := hpassed
      intro step hstep
      rcases List.mem_append.mp hstep with hsub | hlater
      · obtain ⟨call, -, rfl⟩ := List.mem_map.mp hsub
        trivial
      · exact ih hrest step hlater

/-- The calls that are given a caller's password. -/
def takesPassword : Call → Prop
  | .paste (.envelopeOpen ..) | .auth (.hasherVerify ..) => True
  | _ => False

/-- They are made behind the middlewares. -/
theorem dispatch_of_takesPassword {request : Call}
    (hreach : (serve srv r).Reaches trace (.inl request)) (htakes : takesPassword request) :
    ∃ info load tail, trace = load ++ tail ∧ (∀ step ∈ load, isAdmission step.1) ∧
      (dispatch srv r info).Reaches tail (.inl request) := by
  rcases serve_reaches hreach with ⟨found, hload, hpoint⟩ |
    ⟨info, load, tail, rfl, hload, ⟨_, -, -, hpoint⟩ | ⟨-, hdispatch⟩⟩
  · cases hpoint
    rcases loadSession_calls.reaches hload with ⟨call, rfl⟩ | ⟨id, rfl⟩ <;> exact htakes.elim
  · cases hpoint
  · exact ⟨info, load, tail, rfl, isAdmission_of_load hload, hdispatch⟩

/-- Only a request makes such a call. -/
theorem request_of_takesPassword {app : Params} {s : Config} (hwf : (machine app).WellFormed s)
    {i : ℕ} {request : Call} {reply : request.Reply} {front back : List Step}
    (htrace : s.trace i = front ++ ⟨request, reply⟩ :: back) (htakes : takesPassword request) :
    ∃ r, s.ops[i]? = some (.request r) ∧ (serve app.server r).Reaches front (.inl request) := by
  obtain ⟨op, hop, hreach⟩ := hwf.reaches_of_trace htrace
  cases op with
  | request r => exact ⟨r, hop, hreach.of_map⟩
  | command command =>
      obtain ⟨sub, call, -, rfl, hcommand⟩ :=
        (Proc.reaches_lift_call ..).mp hreach.of_map
      cases call with
      | hasherVerify => exact ((Cli.runUser_calls command).reaches hcommand).elim
      | _ => exact htakes.elim
  | sweep =>
      obtain ⟨sub, call, -, rfl, hsweep⟩ :=
        (Proc.reaches_lift_call ..).mp hreach.of_map
      cases call with
      | envelopeOpen => exact (System.sweep_makes (Sweeper.runOnce_call hsweep)).elim
      | _ => exact htakes.elim

/-! ## Unlocking -/

/-- The body of some paste is opened with a password. -/
def isGuess : Step → Bool
  | ⟨.paste (.envelopeOpen _ _ _ password), _⟩ => password ≠ []
  | _ => false

theorem isGuess_of_isAdmission {step : Step} (hadmission : isAdmission step.1) :
    isGuess step = false := by
  obtain ⟨call, reply⟩ := step
  cases call with
  | paste => exact hadmission.elim
  | _ => rfl

/-- The rate limits of a request to unlock a paste. -/
def unlockChecks (srv : Server) (r : Request) (id : UUID) : List (Scope × Bytes) :=
  [(.unlockIP, ipFrom srv r), (.unlock, id.text ++ ascii ":" ++ ipFrom srv r)]

/-- The point at which a body is opened with a password: a request to unlock that
paste, under any spelling of its identifier, has passed its rate limits and made
no guess before. -/
theorem serve_guess {id : UUID} {expiresAt : ℤ} {record : Paste.EncryptedBody} {password : Bytes}
    (hreach : (serve srv r).Reaches trace
      (.inl (.paste (.envelopeOpen id expiresAt record password)))) (hpassword : password ≠ []) :
    (∃ text, targetOf r = .api (.unlockPaste text) ∧ parse text = some id) ∧
      (∃ load passed rest, trace = load ++ passed ++ rest ∧
        Passed srv (unlockChecks srv r id) passed) ∧
      ∀ step ∈ trace, isGuess step = false := by
  obtain ⟨info, load, tail, rfl, hload, hdispatch⟩ := dispatch_of_takesPassword hreach trivial
  rcases dispatch_call hdispatch with hnone | ⟨endpoint, htarget, hmay, hserve⟩
  · exact absurd hnone.1 (by simp [Endpoint.servesPastes])
  obtain ⟨text, rfl⟩ := hmay.2.resolve_left hpassword
  -- behind the gate and the identifier
  have hunlock : ∃ found, parse text = some found ∧
      (unlockPaste srv r info found).Reaches tail
        (.inl (.paste (.envelopeOpen id expiresAt record password))) := by
    simp only [serveEndpoint, viewGate, requireAuth, withPathID] at hserve
    split at hserve
    · split at hserve
      · cases hserve.2
      · split at hserve
        · cases hserve.2
        · exact ⟨_, by assumption, hserve⟩
    · split at hserve
      · cases hserve.2
      · exact ⟨_, by assumption, hserve⟩
  obtain ⟨found, hparse, hunlock⟩ := hunlock
  rcases limited_reaches hunlock with ⟨request, hpoint, hlimiting⟩ | ⟨_, ⟨⟩, -⟩ |
    ⟨passed, rest, rfl, hpassed, hnext⟩
  · cases hpoint
    exact hlimiting.elim
  split at hnext
  · cases hnext.2
  split at hnext
  · cases hnext.2
  rcases Proc.reaches_lift_bind _ hnext with ⟨sub, call, rfl, hpoint, hread⟩ |
    ⟨sub, after, outcome, rfl, -, hanswer⟩
  · cases hpoint
    obtain ⟨rfl, -, m, now, rechecked, -, -, rfl⟩ := Paste.read_open srv.pastes hread
    refine ⟨⟨text, htarget, hparse⟩, ⟨load, passed, _, (List.append_assoc ..).symm, hpassed⟩, ?_⟩
    intro step hstep
    rcases List.mem_append.mp hstep with hstep | hstep
    · exact isGuess_of_isAdmission (hload step hstep)
    rcases List.mem_append.mp hstep with hstep | hstep
    · exact isGuess_of_isAdmission (isAdmission_of_passed hpassed step hstep)
    · obtain ⟨call, hcall, rfl⟩ := List.mem_map.mp hstep
      simp only [Paste.readChecks, List.mem_cons, List.not_mem_nil, or_false] at hcall
      rcases hcall with rfl | rfl | rfl | rfl <;> rfl
  · cases outcome with
    | error err => cases hanswer.2
    | ok res =>
        dsimp only at hanswer
        split at hanswer
        · cases hanswer.2
        · split_ifs at hanswer <;> cases hanswer.2

/-- The requests from an address that have opened the body of a paste with a
password. -/
def guesses (app : Params) (s : Config) (id : UUID) (ip : Bytes) : Set ℕ :=
  {i | ∃ r expiresAt record password reply, s.ops[i]? = some (.request r) ∧
    ipFrom app.server r = ip ∧ password ≠ [] ∧
    s.Did i (.paste (.envelopeOpen id expiresAt record password)) reply}

/-- The bucket of the attempts from an address on a paste. -/
def unlockBucket (id : UUID) (ip : Bytes) : Bytes :=
  bucketKey .unlock (id.text ++ ascii ":" ++ ip)

section

variable {app : Params} {s : Config} {id : UUID} {ip : Bytes} {rule : Rule}

/-- A thread that has passed a rate limit is among those the limiter has
allowed. -/
theorem mem_admitted {i : ℕ} {checks : List (Scope × Bytes)} {passed : List Step} {scope : Scope}
    {key : Bytes} (hpassed : Passed app.server checks passed) (hcheck : (scope, key) ∈ checks)
    (hrule : app.server.limiter.rules scope = some rule) (hlimit : 0 < rule.limit)
    (hsubset : passed ⊆ s.trace i) : i ∈ admitted rule (bucketKey scope key) s := by
  obtain ⟨answer, hmem, hallowed⟩ := allowed_of_passed hpassed hcheck hrule hlimit
  exact ⟨answer, (s.did_iff_mem_trace ..).mpr (hsubset hmem), hallowed⟩

/-- What is known of a guess. -/
theorem of_mem_guesses (hwf : (machine app).WellFormed s) {i : ℕ} (hguess : i ∈ guesses app s id ip) :
    (∃ r text, s.ops[i]? = some (.request r) ∧ ipFrom app.server r = ip ∧
      targetOf r = .api (.unlockPaste text) ∧ parse text = some id) ∧
      ∃ passed, passed ⊆ s.trace i ∧ Passed app.server
        [(.unlockIP, ip), (.unlock, id.text ++ ascii ":" ++ ip)] passed := by
  obtain ⟨r, expiresAt, record, password, reply, hop, hip, hpassword, hdid⟩ := hguess
  obtain ⟨front, back, htrace⟩ := List.append_of_mem ((s.did_iff_mem_trace ..).mp hdid)
  obtain ⟨r', hop', hreach⟩ := request_of_takesPassword hwf htrace trivial
  rw [hop] at hop'
  cases hop'
  obtain ⟨⟨text, htarget, hparse⟩, ⟨load, passed, rest, rfl, hpassed⟩, -⟩ :=
    serve_guess hreach hpassword
  refine ⟨⟨r, text, hop, hip, htarget, hparse⟩, passed, ?_, ?_⟩
  · intro step hstep
    rw [htrace]
    simp [hstep]
  · rw [unlockChecks, hip] at hpassed
    exact hpassed

/-- A request opens a body with a password once at most. -/
theorem countP_isGuess_le (hwf : (machine app).WellFormed s) (i : ℕ) :
    (s.trace i).countP isGuess ≤ 1 := by
  refine countP_le_one_of_first fun front step back htrace hguess => ?_
  obtain ⟨call, reply⟩ := step
  unfold isGuess at hguess
  split at hguess
  · rename_i id expiresAt record password found heq
    cases heq
    obtain ⟨r, -, hreach⟩ := request_of_takesPassword hwf htrace trivial
    exact (serve_guess hreach (of_decide_eq_true hguess)).2.2
  · cases hguess

end

/-- However requests, commands and sweeps interleave and however the identifier of
a paste is spelled: a body is opened with a password only for a request to unlock
it, once at most, that the limiter has let past on the address and on the paste
and the address together.  Hence the guesses are capped: on one paste from one
address by the limit of the latter bucket, and from one address on all pastes by
that of the former. -/
theorem unlock_guesses_capped (app : Params) (rule ipRule : Rule)
    (hrule : app.server.limiter.rules .unlock = some rule)
    (hipRule : app.server.limiter.rules .unlockIP = some ipRule) (hlimit : 0 < rule.limit)
    (hipLimit : 0 < ipRule.limit) (hwindow : 1 ≤ rule.windowMillis)
    (hipWindow : 1 ≤ ipRule.windowMillis) (store : Store) (hempty : store.buckets = .empty)
    (mid s last : Config) (hmid : (machine app).Run anyStep (.initial store) mid)
    (hs : (machine app).Run anyStep mid s) (hlast : (machine app).Run anyStep s last) :
    (∀ i, (last.trace i).countP isGuess ≤ 1) ∧
    (∀ i id expiresAt record password reply, password ≠ [] →
      last.Did i (.paste (.envelopeOpen id expiresAt record password)) reply →
      ∃ ip, i ∈ guesses app last id ip) ∧
    (∀ id ip, ∀ i ∈ guesses app last id ip,
      (∃ r text, last.ops[i]? = some (.request r) ∧ targetOf r = .api (.unlockPaste text) ∧
        parse text = some id) ∧
      i ∈ admitted rule (unlockBucket id ip) last ∧
      i ∈ admitted ipRule (bucketKey .unlockIP ip) last) ∧
    (∀ id ip, Capped rule (unlockBucket id ip) mid s (guesses app last id ip)) ∧
    ∀ ip, Capped ipRule (bucketKey .unlockIP ip) mid s (⋃ id, guesses app last id ip) := by
  have hwf := ((hmid.trans hs).trans hlast).wellFormed .initial
  refine ⟨countP_isGuess_le hwf, ?_, ?_, fun id ip => capped_of_run hempty hrule hwindow hmid hs _,
    fun ip => capped_of_run hempty hipRule hipWindow hmid hs _⟩
  · intro i id expiresAt record password reply hpassword hdid
    obtain ⟨front, back, htrace⟩ := List.append_of_mem ((last.did_iff_mem_trace ..).mp hdid)
    obtain ⟨r, hop, -⟩ := request_of_takesPassword hwf htrace trivial
    exact ⟨_, r, expiresAt, record, password, reply, hop, rfl, hpassword, hdid⟩
  · intro id ip i hguess
    obtain ⟨⟨r, text, hop, -, htarget, hparse⟩, passed, hsubset, hpassed⟩ :=
      of_mem_guesses hwf hguess
    exact ⟨⟨r, text, hop, htarget, hparse⟩, mem_admitted hpassed (by simp) hrule hlimit hsubset,
      mem_admitted hpassed (by simp) hipRule hipLimit hsubset⟩

namespace Sample

/-- A request to unlock the paste, with a password. -/
def unlock : Request :=
  { logout with
    target := ascii "/api/v1/pastes/" ++ System.Sample.id.text ++ ascii "/unlock"
    escaped := by decide
    cookie := none
    body := .value (.object [(ascii "password", .string (ascii "pw"))]) }

/-- It is let past both rate limits and opens the body. -/
def unlocking (i : ℕ) : List Action :=
  List.replicate 2 (.advance i (.limit .ok)) ++ List.replicate 4 (.advance i (.paste .ok)) ++
    [.advance i (.paste (.opening .granted))]

end Sample

/-- A paste is created and one guess made. -/
theorem unlock_guesses_capped_sample :
    ∃ mid s, (machine Sample.app).Run anyStep (.initial Sample.store) mid ∧
      (machine Sample.app).Run anyStep mid s ∧ (s.trace 1).countP isGuess = 1 ∧
      (guesses Sample.app s System.Sample.id Sample.unlock.remoteHost ∩
        admittedSince ⟨10, 900 * Calendar.second⟩
          (unlockBucket System.Sample.id Sample.unlock.remoteHost) mid s).encard ≤ 10 := by
  have hperform : ((machine Sample.app).perform (fun _ _ => true)
      (Sample.invoked (Sample.submit (ascii "hi"))) Sample.submitting).any (fun mid =>
        (mid.store.limiterStore.find
          (unlockBucket System.Sample.id Sample.unlock.remoteHost)).isNone &&
        ((machine Sample.app).perform (fun _ _ => true) mid
          (.invoke (.request Sample.unlock) :: Sample.unlocking 1)).any fun s =>
            (s.trace 1).countP isGuess = 1 && s.store.clock = mid.store.clock) = true := by
    decide +kernel
  obtain ⟨mid, hmid, hobserved⟩ := Machine.exists_any_run hperform
  rw [Bool.and_eq_true, Option.isNone_iff_eq_none] at hobserved
  obtain ⟨s, hs, hguess⟩ := Machine.exists_any_run hobserved.2
  simp only [Bool.and_eq_true, decide_eq_true_eq] at hguess
  have hstart := (Sample.run_invoked (Sample.submit (ascii "hi"))).trans hmid
  have hcapped := unlock_guesses_capped Sample.app ⟨10, 900 * Calendar.second⟩
    ⟨10, 900 * Calendar.second⟩ rfl rfl (by decide) (by decide) (by decide) (by decide) Sample.store
    rfl mid s s hstart hs .refl
  refine ⟨mid, s, hstart, hs, hguess.1, ?_⟩
  exact (hcapped.2.2.2.1 System.Sample.id Sample.unlock.remoteHost).1 hobserved.1
    (by rw [hguess.2]; exact le_add_of_nonneg_right (by decide))

/-! ## Logging in -/

/-- A caller's password is compared with a hash. -/
def isVerify : Step → Bool
  | ⟨.auth (.hasherVerify ..), _⟩ => true
  | _ => false

theorem isVerify_of_isAdmission {step : Step} (hadmission : isAdmission step.1) :
    isVerify step = false := by
  obtain ⟨call, reply⟩ := step
  cases call with
  | auth call =>
      cases call with
      | hasherVerify => exact hadmission.elim
      | _ => rfl
  | _ => rfl

/-- The point at which a password is compared: a login has passed its rate limits
and compared none before. -/
theorem serve_verify {phc password : Bytes}
    (hreach : (serve srv r).Reaches trace (.inl (.auth (.hasherVerify phc password)))) :
    targetOf r = .api .login ∧
      (∃ input load passed rest, loginInput r.body = some input ∧ password = input.password ∧
        trace = load ++ passed ++ rest ∧
        Passed srv [(.loginIP, ipFrom srv r), (.login, input.username)] passed) ∧
      ∀ step ∈ trace, isVerify step = false := by
  have htarget : targetOf r = .api .login := serve_metered.reaches hreach
  refine ⟨htarget, ?_⟩
  obtain ⟨info, load, tail, rfl, hload, hdispatch⟩ := dispatch_of_takesPassword hreach trivial
  simp only [dispatch, htarget, serveEndpoint, login] at hdispatch
  split_ifs at hdispatch
  · cases hdispatch.2
  split at hdispatch
  · cases hdispatch.2
  rename_i input hinput
  split_ifs at hdispatch
  · cases hdispatch.2
  rcases limited_reaches hdispatch with ⟨request, hpoint, hlimiting⟩ | ⟨_, ⟨⟩, -⟩ |
    ⟨passed, rest, rfl, hpassed, hnext⟩
  · cases hpoint
    exact hlimiting.elim
  rcases Proc.reaches_lift_bind _ hnext with ⟨sub, call, rfl, hpoint, hauth⟩ |
    ⟨sub, after, outcome, rfl, -, hanswer⟩
  · cases hpoint
    obtain ⟨rfl, found, rfl⟩ := Auth.authenticate_verify hauth
    refine ⟨⟨input, load, passed, _, hinput, rfl, (List.append_assoc ..).symm, hpassed⟩, ?_⟩
    intro step hstep
    rcases List.mem_append.mp hstep with hstep | hstep
    · exact isVerify_of_isAdmission (hload step hstep)
    rcases List.mem_append.mp hstep with hstep | hstep
    · exact isVerify_of_isAdmission (isAdmission_of_passed hpassed step hstep)
    · rw [List.map_singleton, List.mem_singleton] at hstep
      rw [hstep]
      rfl
  · cases outcome with
    | error err => cases hanswer.2
    | ok u =>
        -- what is left is the session
        have hsession : (loginAs srv r u).CallsOnly (Endpoint.oidcCallback.calls srv.limiter) := by
          refine (startSession_calls (.inr rfl)).bind fun started => ?_
          cases started <;> trivial
        exact absurd (hsession.reaches hanswer).2 Endpoint.noConfusion

/-- The logins under a name from an address that have compared a password. -/
def attempts (app : Params) (s : Config) (username ip : Bytes) : Set ℕ :=
  {i | ∃ r input phc password reply, s.ops[i]? = some (.request r) ∧ ipFrom app.server r = ip ∧
    loginInput r.body = some input ∧ input.username = username ∧
    s.Did i (.auth (.hasherVerify phc password)) reply}

section

variable {app : Params} {s : Config} {username ip : Bytes}

/-- What is known of a login that has compared a password. -/
theorem of_mem_attempts (hwf : (machine app).WellFormed s) {i : ℕ}
    (hattempt : i ∈ attempts app s username ip) :
    (∃ r, s.ops[i]? = some (.request r) ∧ targetOf r = .api .login) ∧
      ∃ passed, passed ⊆ s.trace i ∧
        Passed app.server [(.loginIP, ip), (.login, username)] passed := by
  obtain ⟨r, input, phc, password, reply, hop, hip, hinput, hname, hdid⟩ := hattempt
  obtain ⟨front, back, htrace⟩ := List.append_of_mem ((s.did_iff_mem_trace ..).mp hdid)
  obtain ⟨r', hop', hreach⟩ := request_of_takesPassword hwf htrace trivial
  rw [hop] at hop'
  cases hop'
  obtain ⟨htarget, ⟨found, load, passed, rest, hfound, -, rfl, hpassed⟩, -⟩ := serve_verify hreach
  rw [hinput] at hfound
  cases hfound
  refine ⟨⟨r, hop, htarget⟩, passed, ?_, ?_⟩
  · intro step hstep
    rw [htrace]
    simp [hstep]
  · rw [hip, hname] at hpassed
    exact hpassed

/-- A login compares one password at most. -/
theorem countP_isVerify_le (hwf : (machine app).WellFormed s) (i : ℕ) :
    (s.trace i).countP isVerify ≤ 1 := by
  refine countP_le_one_of_first fun front step back htrace hverify => ?_
  obtain ⟨call, reply⟩ := step
  unfold isVerify at hverify
  split at hverify
  · rename_i phc password found heq
    cases heq
    obtain ⟨r, -, hreach⟩ := request_of_takesPassword hwf htrace trivial
    exact (serve_verify hreach).2.2
  · cases hverify

end

/-- However requests and commands interleave: a password is compared only for a
login, once at most, that the limiter has let past on the address and on the
name, whether there is such a user or not.  Hence the comparisons are capped:
under one name from all addresses by the limit of its bucket, and from one
address under all names by that of the address. -/
theorem login_attempts_capped (app : Params) (rule ipRule : Rule)
    (hrule : app.server.limiter.rules .login = some rule)
    (hipRule : app.server.limiter.rules .loginIP = some ipRule) (hlimit : 0 < rule.limit)
    (hipLimit : 0 < ipRule.limit) (hwindow : 1 ≤ rule.windowMillis)
    (hipWindow : 1 ≤ ipRule.windowMillis) (store : Store) (hempty : store.buckets = .empty)
    (mid s last : Config) (hmid : (machine app).Run anyStep (.initial store) mid)
    (hs : (machine app).Run anyStep mid s) (hlast : (machine app).Run anyStep s last) :
    (∀ i, (last.trace i).countP isVerify ≤ 1) ∧
    (∀ i phc password reply, last.Did i (.auth (.hasherVerify phc password)) reply →
      ∃ username ip, i ∈ attempts app last username ip) ∧
    (∀ username ip, ∀ i ∈ attempts app last username ip,
      (∃ r, last.ops[i]? = some (.request r) ∧ targetOf r = .api .login) ∧
      i ∈ admitted rule (bucketKey .login username) last ∧
      i ∈ admitted ipRule (bucketKey .loginIP ip) last) ∧
    (∀ username, Capped rule (bucketKey .login username) mid s
      (⋃ ip, attempts app last username ip)) ∧
    ∀ ip, Capped ipRule (bucketKey .loginIP ip) mid s (⋃ username, attempts app last username ip) := by
  have hwf := ((hmid.trans hs).trans hlast).wellFormed .initial
  refine ⟨countP_isVerify_le hwf, ?_, ?_, fun _ => capped_of_run hempty hrule hwindow hmid hs _,
    fun _ => capped_of_run hempty hipRule hipWindow hmid hs _⟩
  · intro i phc password reply hdid
    obtain ⟨front, back, htrace⟩ := List.append_of_mem ((last.did_iff_mem_trace ..).mp hdid)
    obtain ⟨r, hop, hreach⟩ := request_of_takesPassword hwf htrace trivial
    obtain ⟨-, ⟨input, -, -, -, hinput, -⟩, -⟩ := serve_verify hreach
    exact ⟨input.username, ipFrom app.server r, r, input, phc, password, reply, hop, rfl, hinput, rfl,
      hdid⟩
  · intro username ip i hattempt
    obtain ⟨hlogin, passed, hsubset, hpassed⟩ := of_mem_attempts hwf hattempt
    exact ⟨hlogin, mem_admitted hpassed (by simp) hrule hlimit hsubset,
      mem_admitted hpassed (by simp) hipRule hipLimit hsubset⟩

namespace Sample

/-- A login of the user. -/
def loggingIn : Request :=
  { logout with
    target := ascii "/api/v1/auth/login"
    escaped := by decide
    cookie := none
    body := .value (.object [(ascii "username", .string user.username),
      (ascii "password", .string (ascii "pw"))]) }

/-- It is let past both rate limits and has the password compared. -/
def comparing (i : ℕ) : List Action :=
  List.replicate 2 (.advance i (.limit .ok)) ++
    [.advance i (.auth .ok), .advance i (.auth (.checked (.ok false)))]

end Sample

/-- One login with a wrong password. -/
theorem login_attempts_capped_sample :
    ∃ s, (machine Sample.app).Run anyStep (.initial Sample.store) s ∧
      (s.trace 0).countP isVerify = 1 ∧
      ((⋃ ip, attempts Sample.app s Sample.user.username ip) ∩
        admittedSince ⟨10, 900 * Calendar.second⟩ (bucketKey .login Sample.user.username)
          (.initial Sample.store) s).encard ≤ 10 := by
  have hperform : ((machine Sample.app).perform (fun _ _ => true)
      (Sample.invoked Sample.loggingIn) (Sample.comparing 0)).any (fun s =>
        (s.trace 0).countP isVerify = 1 && s.store.clock = Sample.store.clock) = true := by
    decide +kernel
  obtain ⟨s, hs, hobserved⟩ := Machine.exists_any_run hperform
  simp only [Bool.and_eq_true, decide_eq_true_eq] at hobserved
  have hrun := (Sample.run_invoked Sample.loggingIn).trans hs
  have hcapped := login_attempts_capped Sample.app ⟨10, 900 * Calendar.second⟩
    ⟨10, 900 * Calendar.second⟩ rfl rfl (by decide) (by decide) (by decide) (by decide) Sample.store
    rfl (.initial Sample.store) s s .refl hrun .refl
  refine ⟨s, hrun, hobserved.1, ?_⟩
  exact (hcapped.2.2.2.1 Sample.user.username).1 rfl
    (by rw [hobserved.2]; exact le_add_of_nonneg_right (by decide))

end SecurePastebin.Web
