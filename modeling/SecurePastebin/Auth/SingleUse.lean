import SecurePastebin.Auth.Oidc
import SecurePastebin.Core.Interleaving

/-!
# Login states are single-use

Any number of `Start` and `Complete` calls run interleaved, with any state and
code strings, while the application's clock is set to anything and Redis lets
time pass.  `GETDEL` hands a state out once, and what it hands out is what the
`Start` that drew the state has saved.
-/

namespace SecurePastebin.Auth.Flow

open Text Calendar Base64 Utf8
open Process Interleaving SecurePastebin.Store

/-! ## The machine -/

inductive Op where
  | start
  | complete (state code : Bytes)
  deriving DecidableEq

inductive Result where
  | url (outcome : Except Err Bytes)
  | user (outcome : Except Err User)
  deriving DecidableEq

/-- The application's clock is set, or time passes in Redis. -/
inductive Env where
  | tick (time : ℤ)
  | elapse (time : ℕ)

def program (o : OIDC) : Op → Port Result
  | .start => .url <$> start o
  | .complete state code => .user <$> complete o state code

def machine (o : OIDC) : Machine Store Op Call Call.Reply Choice Env Result where
  program := program o
  exec := exec
  env store
    | .tick time => some { store with clock := time }
    | .elapse time => some { store with redisClock := store.redisClock + time }

abbrev Config := Interleaving.Config Store Op Call Call.Reply Result

abbrev Action := Interleaving.Action Op Choice Env

/-- No login is in flight. -/
def initial (clock redisClock : ℤ) (users : Users) : Config :=
  .initial ⟨clock, redisClock, users, fun _ => none⟩

/-! ## A concrete login -/

namespace Sample

def flow : OIDC where
  cfg :=
    { issuer := ascii "https://id"
      clientId := ascii "paste"
      redirectURL := []
      scopes := [ascii "openid"]
      requiredGroup := ascii "staff"
      groupClaim := ascii "groups"
      adminGroup := [] }
  authURL := ascii "https://id/auth"
  sha256 := id

/-- Some instant in 2023. -/
def start : Config := initial 1700000000000000000 0 Table.empty

def state : Bytes := encode rawURLEncoding (List.replicate 32 1)

def code : Bytes := ascii "code"

def idToken : IDToken where
  issuer := ascii "https://id"
  subject := ascii "ana"
  nonce := encode rawURLEncoding (List.replicate 32 3)
  claims := ascii "\x7b\"groups\":[\"staff\"]\x7d"

/-- One login from its `Start` to the user it returns. -/
def login : List Action :=
  [.invoke .start, .advance 0 (.token (List.replicate 32 1)),
    .advance 0 (.token (List.replicate 32 2)), .advance 0 (.token (List.replicate 32 3)),
    .advance 0 .ok, .advance 0 .ok, .invoke (.complete state code), .advance 1 .ok, .advance 1 .ok,
    .advance 1 (.exchanged (.ok (some (ascii "token")))), .advance 1 (.identified (.ok idToken)),
    .advance 1 (.uuid (.filled 1)), .advance 1 .ok, .advance 1 .ok]

def observed (s : Config) : Bool :=
  s.ops = [.start, .complete state code] &&
    match s.result? 1 with
    | some (.user (.ok _)) => true
    | _ => false

end Sample

/-! ## Who has saved and taken a state -/

/-- Thread `k` is a `Start` that has drawn `state` and the rest of `value`. -/
def Generated (s : Config) (k : ℕ) (state : Bytes) (value : OIDCState) : Prop :=
  s.ops[k]? = some .start ∧ generatedBy state value <+: s.trace k

/-- No two `Start` calls have drawn the same state. -/
def DistinctStates (s : Config) : Prop :=
  ∀ k k' state value value', Generated s k state value → Generated s k' state value' → k = k'

/-- On the way from `start` to `s`, Redis has executed the `SET` of the `Start`
call `k`. -/
def Saved (o : OIDC) (start s : Config) (k : ℕ) (state : Bytes) (value : OIDCState) : Prop :=
  ∃ mid next record choice, (machine o).Run anyStep start mid ∧ Generated mid k state value ∧
    value.marshal = some record ∧
    mid.pending? k = some (.statesSet (oidcKey state) record oidcStateTTL) ∧
    choice.executes = true ∧ (machine o).act mid (.advance k choice) = some next ∧
    (machine o).Run anyStep next s

/-- Thread `i` has been handed `record` for `state`. -/
def Taken (s : Config) (i : ℕ) (state record : Bytes) : Prop :=
  s.Did i (.statesGetDel (oidcKey state)) (.ok (some record))

variable {o : OIDC} {start s next : Config} {i k : ℕ} {state code record : Bytes} {value : OIDCState}

theorem Generated.mono (hgenerated : Generated s k state value) (hextends : s.Extends next) :
    Generated next k state value :=
  ⟨hextends.op hgenerated.1, hgenerated.2.trans (hextends.trace k)⟩

theorem DistinctStates.of_extends (hdistinct : DistinctStates next) (hextends : s.Extends next) :
    DistinctStates s := fun _ _ _ _ _ hfirst hsecond =>
  hdistinct _ _ _ _ _ (hfirst.mono hextends) (hsecond.mono hextends)

theorem Saved.tail (hsaved : Saved o start s k state value) {action : Action}
    (hact : (machine o).act s action = some next) : Saved o start next k state value := by
  obtain ⟨mid, after, record, choice, hpast, hgenerated, hmarshal, hpending, hexecutes, hstep, hrun⟩ :=
    hsaved
  exact ⟨mid, after, record, choice, hpast, hgenerated, hmarshal, hpending, hexecutes, hstep,
    hrun.tail trivial hact⟩

/-- The saving call is in the log, and so is what was drawn for it. -/
theorem Saved.did (hsaved : Saved o start s k state value) :
    Generated s k state value ∧
      ∃ record reply, s.Did k (.statesSet (oidcKey state) record oidcStateTTL) reply := by
  obtain ⟨mid, after, record, choice, -, hgenerated, -, hpending, -, hstep, hrun⟩ := hsaved
  obtain ⟨reply, store, proc, -, rfl⟩ := Machine.act_advance hstep hpending
  refine ⟨hgenerated.mono ((Config.extends_answer ..).trans hrun.extends), record, reply,
    hrun.extends.did ?_⟩
  rw [Config.did_answer]
  exact .inr ⟨rfl, rfl⟩

/-! ## Program points of the threads -/

variable {op : Op} {trace : List Step} {request : Call}

/-- Only a `Start` writes a state, once it has drawn what it writes. -/
theorem set_call {key : Bytes} {ttl : ℤ}
    (hreach : ((machine o).program op).Reaches trace (.inl (.statesSet key record ttl))) :
    op = .start ∧ ∃ state value, trace = generatedBy state value ∧ value.marshal = some record ∧
      key = oidcKey state ∧ ttl = oidcStateTTL := by
  cases op with
  | start =>
      rcases start_call hreach.of_map with
        hcall | hcall | ⟨state, value, found, htrace, hmarshal, hcall⟩
      · cases hcall
      · cases hcall
      · cases hcall
        exact ⟨rfl, state, value, htrace, hmarshal, rfl, rfl⟩
  | complete state code =>
      rcases complete_reaches hreach.of_map with
        ⟨-, ⟨⟩⟩ | hpoint | ⟨err, ⟨⟩⟩ | ⟨found, value, now, tail, -, -, hreach⟩
      · cases hpoint
      · rcases redeem_reaches hreach with ⟨-, ⟨⟩⟩ | ⟨err, ⟨⟩⟩ | ⟨raw, ⟨⟩⟩ |
          ⟨response, raw, idToken, rest, -, hreach⟩
        exact ((identify_calls ..).reaches hreach).elim

/-- An exchange comes right after the state has been accepted. -/
theorem exchange_call {code' verifier : Bytes}
    (hreach : ((machine o).program (.complete state code)).Reaches trace
      (.inl (.exchange code' verifier))) :
    ∃ record value now, Accepted state value record now ∧
      trace = [⟨.statesGetDel (oidcKey state), .ok (some record)⟩, ⟨.now, now⟩] ∧
      code' = code ∧ verifier = value.verifier := by
  rcases complete_reaches hreach.of_map with
    ⟨-, ⟨⟩⟩ | hpoint | ⟨err, ⟨⟩⟩ | ⟨record, value, now, tail, haccepted, rfl, hredeem⟩
  · cases hpoint
  · rcases redeem_reaches hredeem with ⟨rfl, hpoint⟩ | ⟨err, ⟨⟩⟩ | ⟨raw, ⟨⟩⟩ |
      ⟨response, raw, idToken, rest, -, hrest⟩
    · cases hpoint
      exact ⟨record, value, now, haccepted, rfl, rfl, rfl⟩
    · exact ((identify_calls ..).reaches hrest).elim

/-- Any exchange or access to the user store needs a state that was handed out. -/
theorem taken_before
    (hreach : ((machine o).program (.complete state code)).Reaches trace (.inl request))
    (hrequest : request.isExchange = true ∨ request.accessesUsers = true) :
    ∃ record, (⟨.statesGetDel (oidcKey state), .ok (some record)⟩ : Step) ∈ trace := by
  rcases complete_reaches hreach.of_map with
    ⟨-, hpoint⟩ | hpoint | ⟨err, ⟨⟩⟩ | ⟨record, value, now, tail, -, rfl, -⟩
  · cases hpoint
    rcases hrequest with hrequest | hrequest <;> cases hrequest
  · cases hpoint
    rcases hrequest with hrequest | hrequest <;> cases hrequest
  · exact ⟨record, List.mem_cons_self⟩

/-- Whoever is logged in has shown the nonce of the state they were given. -/
theorem user_result {u : User}
    (hreach : ((machine o).program (.complete state code)).Reaches trace (.inr (.user (.ok u)))) :
    ∃ record value now rawIDToken idToken, Accepted state value record now ∧
      (⟨.statesGetDel (oidcKey state), .ok (some record)⟩ : Step) ∈ trace ∧
      (⟨.verifyIDToken rawIDToken, .ok idToken⟩ : Step) ∈ trace ∧ idToken.nonce = value.nonce := by
  obtain ⟨outcome, hreach, ⟨⟩⟩ := Proc.reaches_map_result.mp hreach
  rcases complete_reaches hreach with
    ⟨-, ⟨⟩⟩ | hpoint | ⟨err, ⟨⟩⟩ | ⟨record, value, now, tail, haccepted, rfl, hredeem⟩
  · cases hpoint
  · rcases redeem_reaches hredeem with ⟨-, ⟨⟩⟩ | ⟨err, ⟨⟩⟩ | ⟨raw, ⟨⟩⟩ |
      ⟨response, rawIDToken, idToken, rest, rfl, hidentify⟩
    exact ⟨record, value, now, rawIDToken, idToken, haccepted, by simp, by simp,
      identify_ok hidentify⟩

/-! ## Runs -/

theorem valid_token (hrun : (machine o).Run anyStep start s) (hwf : (machine o).WellFormed start)
    (hlog : start.log = []) {token : Bytes} (hdid : s.Did k .randomToken token) :
    valid token = true := by
  refine hrun.induct (motive := fun s => ∀ k token, s.Did k .randomToken token →
    valid token = true) hwf ?_ ?_ ?_ ?_ k token hdid
  · intro k token hdid
    rw [Config.Did, hlog] at hdid
    cases hdid
  · intro s change store _ hvalid _ _
    exact hvalid
  · intro s op _ hvalid _
    exact hvalid
  · intro s i op choice request reply store proc _ hvalid _ _ _ _ hexec k token hdid
    rcases Config.did_answer.mp hdid with hdid | ⟨rfl, hentry⟩
    · exact hvalid k token hdid
    · cases hentry
      obtain ⟨raw, -, rfl⟩ := token_of_exec hexec
      exact valid_of_ascii fun _ hbyte => (plain_of_mem_encode rawURLEncoding_valid hbyte).2.2

/-- What holds of every run from an empty Redis: whatever is stored or has been
handed out was saved by a `Start`, and nothing is handed out twice. -/
structure Sound (o : OIDC) (start s : Config) : Prop where
  stored : ∀ state entry, s.store.states (oidcKey state) = some entry →
    ∃ k value, Saved o start s k state value ∧ value.marshal = some entry.value
  taken : ∀ i state record, Taken s i state record →
    ∃ k value, Saved o start s k state value ∧ value.marshal = some record
  once : DistinctStates s → ∀ i state record, Taken s i state record →
    s.store.states (oidcKey state) = none ∧ ∀ j other, Taken s j state other → j = i

theorem sound_initial (clock redisClock : ℤ) (users : Users) :
    Sound o (initial clock redisClock users) (initial clock redisClock users) where
  stored := by simp [initial, Config.initial]
  taken := by simp [initial, Config.initial, Config.Did, Taken]
  once := by simp [initial, Config.initial, Config.Did, Taken]

section

variable {action : Action} (hsound : Sound o start s) (hact : (machine o).act s action = some next)
  (hextends : s.Extends next)

include hsound hact hextends

/-- A step that hands nothing out and stores nothing. -/
theorem Sound.shrink
    (hstates : ∀ key entry, next.store.states key = some entry → s.store.states key = some entry)
    (htaken : ∀ i state record, Taken next i state record → Taken s i state record) :
    Sound o start next where
  stored state entry hentry := by
    obtain ⟨k, value, hsaved, hvalue⟩ := hsound.stored state entry (hstates _ _ hentry)
    exact ⟨k, value, hsaved.tail hact, hvalue⟩
  taken i state record htakes := by
    obtain ⟨k, value, hsaved, hvalue⟩ := hsound.taken i state record (htaken i state record htakes)
    exact ⟨k, value, hsaved.tail hact, hvalue⟩
  once hdistinct i state record htakes := by
    obtain ⟨hnone, hunique⟩ := hsound.once (hdistinct.of_extends hextends) i state record
      (htaken i state record htakes)
    refine ⟨?_, fun j other hother => hunique j other (htaken j state other hother)⟩
    rw [Option.eq_none_iff_forall_not_mem] at hnone ⊢
    exact fun entry hentry => hnone entry (hstates _ _ hentry)

/-- A step that hands a stored state out removes it. -/
theorem Sound.take {entry : Keyspace.Entry Bytes}
    (hfound : s.store.states (oidcKey state) = some entry)
    (hstates : next.store.states = s.store.states.del (oidcKey state))
    (htaken : ∀ j other found, Taken next j other found →
      Taken s j other found ∨ j = i ∧ other = state ∧ found = entry.value) :
    Sound o start next where
  stored other found hentry := by
    rw [hstates] at hentry
    obtain ⟨k, value, hsaved, hvalue⟩ := hsound.stored other found
      (Keyspace.eq_some_of_del hentry)
    exact ⟨k, value, hsaved.tail hact, hvalue⟩
  taken j other found htakes := by
    have hsaved : ∃ k value, Saved o start s k other value ∧ value.marshal = some found := by
      rcases htaken j other found htakes with hold | ⟨rfl, rfl, rfl⟩
      · exact hsound.taken j other found hold
      · exact hsound.stored other entry hfound
    obtain ⟨k, value, hsaved, hvalue⟩ := hsaved
    exact ⟨k, value, hsaved.tail hact, hvalue⟩
  once hdistinct j other found htakes := by
    -- the state was there, so nobody had been handed it before
    have hfirst : ∀ j found, ¬ Taken s j state found := by
      intro j found hold
      have hnone := (hsound.once (hdistinct.of_extends hextends) j state found hold).1
      rw [hfound] at hnone
      cases hnone
    rw [hstates]
    rcases htaken j other found htakes with hold | ⟨rfl, rfl, rfl⟩
    · obtain ⟨hnone, hunique⟩ := hsound.once (hdistinct.of_extends hextends) j other found hold
      refine ⟨Keyspace.del_eq_none_of_eq_none hnone, fun j' found' htakes' => ?_⟩
      rcases htaken j' other found' htakes' with hold' | ⟨rfl, rfl, rfl⟩
      · exact hunique j' found' hold'
      · exact absurd hold (hfirst j found)
    · refine ⟨Keyspace.del_self .., fun j' found' htakes' => ?_⟩
      rcases htaken j' other found' htakes' with hold' | ⟨rfl, -, -⟩
      · exact absurd hold' (hfirst j' found')
      · rfl

/-- A `Start` saves a state nobody has saved before. -/
theorem Sound.save (hsaved : Saved o start next k state value)
    (hmarshal : value.marshal = some record) (hgenerated : Generated s k state value)
    (htrace : s.trace k = generatedBy state value) {expireAt : ℤ}
    (hstates : next.store.states = s.store.states.set (oidcKey state) ⟨record, expireAt⟩)
    (htaken : ∀ i other found, Taken next i other found → Taken s i other found) :
    Sound o start next where
  stored other entry hentry := by
    rw [hstates] at hentry
    by_cases heq : oidcKey other = oidcKey state
    · obtain rfl := oidcKey_injective heq
      rw [Keyspace.set_self] at hentry
      cases hentry
      exact ⟨k, value, hsaved, hmarshal⟩
    · rw [Keyspace.set_of_ne _ _ heq] at hentry
      obtain ⟨k', value', hsaved', hvalue'⟩ := hsound.stored other entry hentry
      exact ⟨k', value', hsaved'.tail hact, hvalue'⟩
  taken i other found htakes := by
    obtain ⟨k', value', hsaved', hvalue'⟩ := hsound.taken i other found (htaken i other found htakes)
    exact ⟨k', value', hsaved'.tail hact, hvalue'⟩
  once hdistinct i other found htakes := by
    have hearlier := hdistinct.of_extends hextends
    have hold := htaken i other found htakes
    obtain ⟨hnone, hunique⟩ := hsound.once hearlier i other found hold
    refine ⟨?_, fun j found' hother => hunique j found' (htaken j other found' hother)⟩
    rw [hstates, Keyspace.set_of_ne _ _ ?_, hnone]
    -- the state handed out was saved by another call, which drew another state
    intro heq
    obtain rfl := oidcKey_injective heq
    obtain ⟨k', value', hsaved', -⟩ := hsound.taken i other found hold
    obtain ⟨hgenerated', record', reply', hdid⟩ := hsaved'.did
    obtain rfl := hearlier k k' other value value' hgenerated hgenerated'
    rw [Config.did_iff_mem_trace, htrace] at hdid
    simp [generatedBy] at hdid

end

theorem sound_of_run {clock redisClock : ℤ} {users : Users}
    (hrun : (machine o).Run anyStep (initial clock redisClock users) s) :
    Sound o (initial clock redisClock users) s := by
  induction hrun with
  | refl => exact sound_initial clock redisClock users
  | @tail s next action hpast hallowed hact hsound =>
      have hwf := hpast.wellFormed .initial
      have hextends : s.Extends next := (Machine.Run.refl.tail hallowed hact).extends
      rcases Machine.act_cases hact with ⟨change, store, rfl, hstore, rfl⟩ | ⟨op, rfl, rfl⟩ |
        ⟨i, choice, request, rest, reply, store, rfl, hproc, hexec, rfl⟩
      · refine hsound.shrink hact hextends (fun key entry hentry => ?_) fun _ _ _ => id
        cases change <;> cases hstore <;> exact hentry
      · exact hsound.shrink hact hextends (fun _ _ => id) fun _ _ _ => id
      · obtain ⟨op, hop, hreach⟩ := hwf.reaches_waiting hproc
        by_cases htakes : ∃ state record, (⟨request, reply⟩ : Step) =
            ⟨.statesGetDel (oidcKey state), .ok (some record)⟩
        · obtain ⟨state, record, heq⟩ := htakes
          cases heq
          obtain ⟨⟨entry, hentry, rfl⟩, hstates⟩ := taken_of_exec hexec
          refine hsound.take hact hextends (i := i) hentry hstates fun j other found htakes => ?_
          rcases Config.did_answer.mp htakes with hold | ⟨rfl, hnew⟩
          · exact .inl hold
          · simp only [Sigma.mk.injEq, Call.statesGetDel.injEq] at hnew
            obtain rfl := oidcKey_injective hnew.1
            have hfound := eq_of_heq hnew.2
            cases hfound
            exact .inr ⟨rfl, rfl, rfl⟩
        · have htaken : ∀ j other found,
              Taken (s.answer i (rest reply) ⟨request, reply⟩ store) j other found →
                Taken s j other found := by
            intro j other found hdid
            rcases Config.did_answer.mp hdid with hold | ⟨-, hnew⟩
            · exact hold
            · exact absurd ⟨other, found, hnew.symm⟩ htakes
          rcases states_of_exec hexec with hstates | ⟨hexecutes, ⟨key, record, ttl, rfl, hstates⟩ |
            ⟨key, rfl, hstates⟩⟩
          · exact hsound.shrink hact hextends (fun key entry hentry => by rwa [← hstates]) htaken
          · obtain ⟨rfl, state, value, htrace, hmarshal, rfl, rfl⟩ := set_call hreach
            have hgenerated : Generated s i state value := ⟨hop, by rw [htrace]⟩
            have hpending : s.pending? i = some (.statesSet (oidcKey state) record oidcStateTTL) := by
              rw [Config.pending?, hproc]
            exact hsound.save hact hextends ⟨s, _, record, choice, hpast, hgenerated, hmarshal,
              hpending, hexecutes, hact, .refl⟩ hmarshal hgenerated htrace hstates htaken
          · refine hsound.shrink hact hextends (fun other entry hentry => ?_) htaken
            rw [Config.store_answer, hstates] at hentry
            exact Keyspace.eq_some_of_del hentry

/-! ## Exchanges -/

/-- The state that is handed out is the one a `Start` has drawn. -/
theorem accepted_of_run {clock redisClock : ℤ} {users : Users}
    (hrun : (machine o).Run anyStep (initial clock redisClock users) s) {now : ℤ}
    (htaken : Taken s i state record) (haccepted : Accepted state value record now) :
    ∃ k, Saved o (initial clock redisClock users) s k state value := by
  obtain ⟨k, saved, hsaved, hmarshal⟩ := (sound_of_run hrun).taken i state record htaken
  have htokens : ∀ token, (⟨.randomToken, token⟩ : Step) ∈ generatedBy state saved →
      valid token = true := by
    intro token hmem
    have hdid := (s.did_iff_mem_trace k _ _).mpr (hsaved.did.1.2.subset hmem)
    exact valid_token hrun .initial rfl hdid
  have hread := OIDCState.unmarshal_marshal (htokens saved.verifier (by simp [generatedBy]))
    (htokens saved.nonce (by simp [generatedBy])) hmarshal
  have htakenState := haccepted.1
  rw [takenState, hread] at htakenState
  dsimp only at htakenState
  split_ifs at htakenState
  cases htakenState
  exact ⟨k, hsaved⟩

/-- The exchanges made for a state. -/
def exchangesOf (s : Config) (state : Bytes) : List (ℕ × Step) :=
  s.log.filter fun entry => entry.2.1.isExchange &&
    match s.ops[entry.1]? with
    | some (.complete found _) => found = state
    | _ => false

/-- The calls a thread has made before an exchange. -/
theorem before_exchange (hwf : (machine o).WellFormed s)
    (hop : s.ops[i]? = some (.complete state code)) {front back : List Step} {entry : Step}
    (htrace : s.trace i = front ++ entry :: back) (hexchange : entry.1.isExchange = true) :
    ∃ record value now reply, Accepted state value record now ∧
      front = [⟨.statesGetDel (oidcKey state), .ok (some record)⟩, ⟨.now, now⟩] ∧
      entry = ⟨.exchange code value.verifier, reply⟩ := by
  have hreach := hwf.reaches_at hop htrace
  obtain ⟨request, reply⟩ := entry
  cases request with
  | exchange code' verifier =>
      obtain ⟨record, value, now, haccepted, hfront, rfl, rfl⟩ := exchange_call hreach
      exact ⟨record, value, now, reply, haccepted, hfront, rfl⟩
  | _ => cases hexchange

theorem mem_exchangesOf {entry : ℕ × Step} :
    entry ∈ exchangesOf s state ↔ entry ∈ s.log ∧ entry.2.1.isExchange = true ∧
      ∃ code, s.ops[entry.1]? = some (.complete state code) := by
  rw [exchangesOf, List.mem_filter, Bool.and_eq_true]
  refine and_congr_right fun _ => and_congr_right fun _ => ?_
  split
  · rename_i found code hop
    simp [hop]
  · rename_i hother
    refine iff_of_false (by simp) ?_
    rintro ⟨code, hop⟩
    exact hother state code hop

/-- Whoever made an exchange for a state was handed it. -/
theorem taken_of_exchange (hwf : (machine o).WellFormed s) {entry : Step}
    (hmem : (i, entry) ∈ exchangesOf s state) : ∃ record, Taken s i state record := by
  obtain ⟨hlog, hexchange, code, hop⟩ := mem_exchangesOf.mp hmem
  obtain ⟨front, back, htrace⟩ :=
    List.append_of_mem ((s.did_iff_mem_trace i entry.1 entry.2).mp hlog)
  obtain ⟨record, value, now, reply, -, rfl, -⟩ := before_exchange hwf hop htrace hexchange
  refine ⟨record, (s.did_iff_mem_trace ..).mpr ?_⟩
  rw [htrace]
  exact List.mem_append_left _ List.mem_cons_self

theorem length_exchangesOf_le {clock redisClock : ℤ} {users : Users}
    (hrun : (machine o).Run anyStep (initial clock redisClock users) s)
    (hdistinct : DistinctStates s) (state : Bytes) : (exchangesOf s state).length ≤ 1 := by
  have hwf := hrun.wellFormed .initial
  by_cases hnone : exchangesOf s state = []
  · simp [hnone]
  · obtain ⟨⟨i, entry⟩, hmem⟩ := List.exists_mem_of_ne_nil _ hnone
    obtain ⟨record, htaken⟩ := taken_of_exchange hwf hmem
    obtain ⟨-, -, code, hop⟩ := mem_exchangesOf.mp hmem
    -- every exchange for the state is one of thread `i`
    have hsame : exchangesOf s state =
        s.log.filter fun entry => entry.2.1.isExchange && decide (entry.1 = i) := by
      rw [exchangesOf]
      refine List.filter_congr fun other hother => ?_
      rw [Bool.eq_iff_iff, Bool.and_eq_true, Bool.and_eq_true, decide_eq_true_iff]
      refine and_congr_right fun hexchange => ⟨fun hstate => ?_, fun hthread => ?_⟩
      · have hmem' : (other.1, other.2) ∈ exchangesOf s state :=
          List.mem_filter.mpr ⟨hother, by rw [hexchange, Bool.true_and]; exact hstate⟩
        obtain ⟨record', htaken'⟩ := taken_of_exchange hwf hmem'
        exact ((sound_of_run hrun).once hdistinct i state record htaken).2 _ record' htaken'
      · rw [hthread, hop]
        simp
    rw [hsame, ← s.length_filter_trace i fun entry => entry.1.isExchange,
      ← List.countP_eq_length_filter]
    refine Machine.countP_le_one 2 fun front item back htrace hexchange => ?_
    obtain ⟨_, _, _, _, -, rfl, -⟩ := before_exchange hwf hop htrace hexchange
    rfl

/-- Along every run, a state leads to one exchange at most.  It sends the
verifier of the `Start` that drew the state, within five minutes of it, nobody
is logged in by a token without that `Start`'s nonce, and a state no `Start` has
saved leads to no exchange and to no access to the user store. -/
theorem oidc_state_single_use {clock redisClock : ℤ} {users : Users}
    (hrun : (machine o).Run anyStep (initial clock redisClock users) s)
    (hdistinct : DistinctStates s) (state : Bytes) :
    (exchangesOf s state).length ≤ 1 ∧
      (∀ i code code' verifier reply, s.ops[i]? = some (.complete state code) →
        s.Did i (.exchange code' verifier) reply →
        ∃ k value record now rest, Saved o (initial clock redisClock users) s k state value ∧
          s.trace i = ⟨.statesGetDel (oidcKey state), .ok (some record)⟩ :: ⟨.now, now⟩ ::
            ⟨.exchange code' verifier, reply⟩ :: rest ∧
          code' = code ∧ verifier = value.verifier ∧
          value.createdAt ≤ now ∧ now < value.createdAt + 5 * 60 * second) ∧
      (∀ i code u, s.Returned i (.complete state code) (.user (.ok u)) →
        ∃ k value rawIDToken idToken, Saved o (initial clock redisClock users) s k state value ∧
          s.Did i (.verifyIDToken rawIDToken) (.ok idToken) ∧ idToken.nonce = value.nonce) ∧
      ((∀ k value, ¬ Saved o (initial clock redisClock users) s k state value) →
        ∀ i code request reply, s.ops[i]? = some (.complete state code) → s.Did i request reply →
          request.isExchange = false ∧ request.accessesUsers = false) := by
  have hwf := hrun.wellFormed .initial
  refine ⟨length_exchangesOf_le hrun hdistinct state, ?_, ?_, ?_⟩
  · intro i code code' verifier reply hop hdid
    obtain ⟨front, back, htrace⟩ := List.append_of_mem ((s.did_iff_mem_trace ..).mp hdid)
    obtain ⟨record, value, now, reply', haccepted, rfl, heq⟩ := before_exchange hwf hop htrace rfl
    cases heq
    have htaken : Taken s i state record := by
      rw [Taken, s.did_iff_mem_trace, htrace]
      exact List.mem_append_left _ List.mem_cons_self
    obtain ⟨k, hsaved⟩ := accepted_of_run hrun htaken haccepted
    exact ⟨k, value, record, now, back, hsaved, htrace, rfl, rfl, haccepted.2⟩
  · intro i code u hreturned
    obtain ⟨record, value, now, rawIDToken, idToken, haccepted, htaken, hverified, hnonce⟩ :=
      user_result (hwf.reaches_returned hreturned)
    obtain ⟨k, hsaved⟩ := accepted_of_run hrun ((s.did_iff_mem_trace ..).mpr htaken) haccepted
    exact ⟨k, value, rawIDToken, idToken, hsaved, (s.did_iff_mem_trace ..).mpr hverified, hnonce⟩
  · intro hnever i code request reply hop hdid
    obtain ⟨op, front, back, hop', htrace, hreach⟩ := hwf.reaches_of_did hdid
    rw [hop] at hop'
    cases hop'
    have hrefused : ¬ (request.isExchange = true ∨ request.accessesUsers = true) := by
      intro hrequest
      obtain ⟨record, hmem⟩ := taken_before hreach hrequest
      have htaken : Taken s i state record := by
        rw [Taken, s.did_iff_mem_trace, htrace]
        exact List.mem_append_left _ hmem
      obtain ⟨k, value, hsaved, -⟩ := (sound_of_run hrun).taken i state record htaken
      exact hnever k value hsaved
    simpa using hrefused

/-- One login through the provider, which returns a user. -/
theorem oidc_state_single_use_sample :
    ∃ s u, (machine Sample.flow).Run anyStep Sample.start s ∧ DistinctStates s ∧
      s.Returned 1 (.complete Sample.state Sample.code) (.user (.ok u)) ∧
      (exchangesOf s Sample.state).length ≤ 1 ∧
      ∃ k value rawIDToken idToken, Saved Sample.flow Sample.start s k Sample.state value ∧
        s.Did 1 (.verifyIDToken rawIDToken) (.ok idToken) ∧ idToken.nonce = value.nonce := by
  have hperform : ((machine Sample.flow).perform (fun _ _ => true) Sample.start Sample.login).any
      Sample.observed = true := by
    decide +kernel
  obtain ⟨s, hrun, hobserved⟩ : ∃ s, (machine Sample.flow).Run anyStep Sample.start s ∧
      Sample.observed s = true :=
    Machine.exists_any_run hperform
  simp only [Sample.observed, Bool.and_eq_true, decide_eq_true_eq] at hobserved
  obtain ⟨hops, hresult⟩ := hobserved
  obtain ⟨u, hu⟩ : ∃ u, s.result? 1 = some (.user (.ok u)) := by
    split at hresult
    · rename_i u hu
      exact ⟨u, hu⟩
    · cases hresult
  have hdistinct : DistinctStates s := by
    have hfirst : ∀ k, s.ops[k]? = some .start → k = 0 := by
      intro k hk
      rw [hops] at hk
      match k, hk with
      | 0, _ => rfl
      | 1, hk => cases hk
      | k + 2, hk => simp at hk
    intro k k' state value value' hgenerated hgenerated'
    rw [hfirst k hgenerated.1, hfirst k' hgenerated'.1]
  have hreturned := (s.returned_iff 1 (.complete Sample.state Sample.code) _).mpr ⟨by rw [hops]; rfl, hu⟩
  obtain ⟨hlength, -, huser, -⟩ := oidc_state_single_use hrun hdistinct Sample.state
  exact ⟨s, u, hrun, hdistinct, hreturned, hlength, huser 1 Sample.code u hreturned⟩

end SecurePastebin.Auth.Flow
