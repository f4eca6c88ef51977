import SecurePastebin.Web.Lockout
import SecurePastebin.Web.SessionEnd

/-!
# Why a session ends

What removes a session record that is there: its deadlines, a logout, a login
that replaces it, and the resolution of a request whose user may have no session.
The last of these takes every failure of the lookup for an absent user.
-/

namespace SecurePastebin.Web

open Text Uuid Calendar Process
open Interleaving
open Session (sessKey)

/-! ## What removes a record -/

section Records

variable {store next : Session.Store} {request : Session.Call} {choice : Session.Choice}
  {key : Bytes} {entry : Keyspace.Entry Session.Record} {sub : List Session.Step}

/-- A record that was there is removed by an executed call: one that deletes it, or a
touch after the deadline it sets. -/
theorem removed_of_exec {reply : request.Reply}
    (hexec : Session.exec store request choice = some (reply, next))
    (hlive : store.find key = some entry) (hgone : next.find key = none) :
    choice.executes = true ∧ (request = .del key ∨
      ∃ absExp milli, request = .touchSession key absExp milli ∧
        milli * millisecond ≤ store.clock) := by
  have hclock := Session.exec_clock hexec
  have hentry := Keyspace.find_eq_some_iff.mp hlive
  rw [Session.Store.find, Keyspace.find_eq_none_iff, hclock] at hgone
  rcases Session.exec_key hexec key with hkept | ⟨hexecutes, heffect⟩
  · rw [hkept] at hgone
    exact absurd hentry.2 (hgone entry hentry.1)
  · refine ⟨hexecutes, ?_⟩
    generalize next.keys key = left at heffect hgone
    cases heffect with
    | kept => exact absurd hentry.2 (hgone entry hentry.1)
    | removed => exact .inl rfl
    | createDropped record habsent hpast =>
        rw [habsent] at hlive
        cases hlive
    | created record habsent hahead =>
        rw [habsent] at hlive
        cases hlive
    | touchDropped hfound hpast => exact .inr ⟨_, _, rfl, hpast⟩
    | touched hfound hahead => exact absurd (millis_le_millis hahead.le) (hgone _ rfl)

/-- Only a creating step changes what a record holds. -/
theorem value_of_exec {reply : request.Reply}
    (hexec : Session.exec store request choice = some (reply, next))
    (hnot : ¬ Session.Creates key store request) (hlive : next.find key = some entry) :
    ∃ old, store.find key = some old ∧ old.value = entry.value := by
  obtain ⟨hentry, hahead⟩ := Keyspace.find_eq_some_iff.mp hlive
  rw [Session.exec_clock hexec] at hahead
  rcases Session.exec_key hexec key with hkept | ⟨-, heffect⟩
  · rw [hkept] at hentry
    exact ⟨entry, Keyspace.find_eq_some_iff.mpr ⟨hentry, hahead⟩, rfl⟩
  · rw [hentry] at heffect
    generalize hleft : some entry = left at heffect
    cases heffect with
    | kept => exact ⟨entry, Keyspace.find_eq_some_iff.mpr ⟨hleft.symm, hahead⟩, rfl⟩
    | created record habsent hcreated => exact absurd ⟨rfl, habsent, hcreated⟩ hnot
    | touched hfound htouched =>
        cases hleft
        exact ⟨_, hfound, rfl⟩
    | removed | createDropped | touchDropped => cases hleft

/-- The thread has just written a deadline that has passed. -/
def CleansUp (key : Bytes) (trace : List Step) : Prop :=
  ∃ front milli,
    (∃ record, trace = front ++ [⟨.session (.createSession key record milli), .ok (-1)⟩]) ∨
      ∃ time, milli * millisecond ≤ time ∧
        ((∃ record created, trace = front ++
            [⟨.session (.createSession key record milli), .ok created⟩, ⟨.session .now, time⟩]) ∨
          ∃ absExp, trace = front ++
            [⟨.session (.touchSession key absExp milli), .ok 1⟩, ⟨.session .now, time⟩])

theorem unixMilli_mul_le {deadline time : ℤ} (hlate : deadline ≤ time) :
    Session.unixMilli deadline * millisecond ≤ time := by
  have hfloor : Session.unixMilli deadline * millisecond ≤ deadline :=
    Int.ediv_mul_le _ (by decide)
  omega

theorem CleansUp.append {trace : List Step} (hclean : CleansUp key trace)
    (early : List Step) : CleansUp key (early ++ trace) := by
  obtain ⟨front, milli, hkind⟩ := hclean
  refine ⟨early ++ front, milli, hkind.imp ?_ ?_⟩
  · rintro ⟨record, rfl⟩
    exact ⟨record, (List.append_assoc ..).symm⟩
  · rintro ⟨time, hlate, ⟨record, created, rfl⟩ | ⟨absExp, rfl⟩⟩
    · exact ⟨time, hlate, .inl ⟨record, created, (List.append_assoc ..).symm⟩⟩
    · exact ⟨time, hlate, .inr ⟨absExp, (List.append_assoc ..).symm⟩⟩

theorem allocate_cleansUp {userId : UUID} {now absoluteExpiry deadline : ℤ} {n : ℕ}
    (hpoint : Session.AllocatePoint userId now absoluteExpiry deadline n sub (.inl (.del key))) :
    CleansUp key (sub.map sessionCalls.entry) := by
  generalize hrequest : (Sum.inl (.del key) : Session.Call ⊕ Except Auth.Err Auth.Session) = point
    at hpoint
  induction hpoint with
  | @dropped n sess hsess =>
      cases hrequest
      exact ⟨(Session.draws sess).map sessionCalls.entry, Session.unixMilli deadline,
        .inl ⟨Session.encodeRecord sess, rfl⟩⟩
  | @late n sess hsess created hcollision hdropped time hlate =>
      cases hrequest
      exact ⟨(Session.draws sess).map sessionCalls.entry, Session.unixMilli deadline,
        .inr ⟨time, unixMilli_mul_le hlate, .inl ⟨Session.encodeRecord sess, created, rfl⟩⟩⟩
  | @collision n sess hsess tail _ hnext ih =>
      rw [List.map_append, List.map_cons]
      exact ((ih hrequest).append [_]).append _
  | @retry n sess hsess created _ _ _ time _ tail _ hnext ih =>
      rw [List.map_append, List.map_cons, List.map_cons]
      exact ((ih hrequest).append [_, _]).append _
  | _ => cases hrequest

theorem touch_del {id key : Bytes} {idleTTL : ℤ}
    (hreach : (Session.touch id idleTTL).Reaches sub (.inl (.del key))) :
    key = sessKey id ∧ (CleansUp key (sub.map sessionCalls.entry) ∨
      ∃ record sess time, (⟨.hGetAll key, .ok (some record)⟩ : Session.Step) ∈ sub ∧
        (⟨.now, time⟩ : Session.Step) ∈ sub ∧ Session.decodeRecord id record = .ok sess ∧
        sess.absoluteExpiry ≤ time) := by
  generalize hrequest : (Sum.inl (.del key) : Session.Call ⊕ Except Auth.Err Unit) = point at hreach
  cases Session.touch_point hreach with
  | reading httl hget =>
      cases hrequest
      cases hget with
      | expired hid hdecode hexpired =>
          exact ⟨rfl, .inr ⟨_, _, _, List.mem_cons_self, by simp [Session.foundSteps], hdecode,
            hexpired⟩⟩
  | expired httl hget hexpired =>
      cases hrequest
      obtain ⟨_, _, heq, -, hdecode, -⟩ := hget.eq_foundSteps
      cases heq
      exact ⟨rfl, .inr ⟨_, _, _, by simp [Session.foundSteps], by simp, hdecode, hexpired⟩⟩
  | @late httl record sess time now deadline last hget hdeadline hlate =>
      cases hrequest
      exact ⟨rfl, .inl ⟨(Session.foundSteps id record time).map sessionCalls.entry ++
          [⟨.session .now, now⟩], Session.unixMilli deadline,
        .inr ⟨last, unixMilli_mul_le hlate, .inr ⟨record.absExp, rfl⟩⟩⟩⟩
  | _ => cases hrequest

theorem get_del {id key : Bytes} (hreach : (Session.get id).Reaches sub (.inl (.del key))) :
    key = sessKey id ∧ ∃ record sess time, (⟨.hGetAll key, .ok (some record)⟩ : Session.Step) ∈ sub ∧
      (⟨.now, time⟩ : Session.Step) ∈ sub ∧ Session.decodeRecord id record = .ok sess ∧
      sess.absoluteExpiry ≤ time := by
  cases Session.get_call hreach with
  | expired hid hdecode hexpired =>
      exact ⟨rfl, _, _, _, List.mem_cons_self, by simp [Session.foundSteps], hdecode, hexpired⟩

/-- A record read by the thread whose absolute end had come. -/
def ReadExpired (id : Bytes) (trace : List Step) : Prop :=
  ∃ record sess time, (⟨.session (.hGetAll (sessKey id)), .ok (some record)⟩ : Step) ∈ trace ∧
    (⟨.session .now, time⟩ : Step) ∈ trace ∧ Session.decodeRecord id record = .ok sess ∧
    sess.absoluteExpiry ≤ time

/-- The thread's lookup of the user has given none, or a disabled one. -/
def LookupRefused (trace : List Step) : Prop :=
  ∃ uid reply, (⟨.auth (.usersGetByID uid), reply⟩ : Step) ∈ trace ∧ Unwelcome reply

/-- Whose session a request deletes, and why. -/
theorem del_reason {srv : Server} {r : Request} {trace : List Step} {id : Bytes}
    (hcall : SessionCall srv r trace (.del (sessKey id))) :
    CleansUp (sessKey id) trace ∨ r.cookie = some id ∧
      (targetOf r = .api .logout ∨ r.startsSession ∨ LookupRefused trace ∨
        ReadExpired id trace) := by
  generalize hrequest : Session.Call.del (sessKey id) = call at hcall
  cases hcall with
  | getting hcookie hget =>
      subst hrequest
      obtain ⟨hkey, record, sess, time, hfound, hnow, hdecode, hexpired⟩ := get_del hget
      cases Session.sessKey_injective hkey
      exact .inr ⟨hcookie, .inr (.inr (.inr ⟨record, sess, time,
        List.mem_map_of_mem (f := sessionCalls.entry) hfound,
        List.mem_map_of_mem (f := sessionCalls.entry) hnow, hdecode, hexpired⟩))⟩
  | dropping hresolved hunwelcome =>
      cases Session.sessKey_injective (Session.Call.del.inj hrequest)
      exact .inr ⟨hresolved.id_eq, .inr (.inr (.inl ⟨_, _,
        List.mem_append_right _ (List.mem_singleton_self _), hunwelcome⟩))⟩
  | touching hresolved htouch =>
      subst hrequest
      obtain ⟨hkey, hkind⟩ := touch_del htouch
      cases Session.sessKey_injective hkey
      rcases hkind with hclean | ⟨record, sess, time, hfound, hnow, hdecode, hexpired⟩
      · left
        exact (hclean.append [_]).append _
      · refine .inr ⟨hresolved.id_eq, .inr (.inr (.inr ⟨record, sess, time, ?_, ?_, hdecode,
          hexpired⟩))⟩
        · exact List.mem_append_right _ (List.mem_cons_of_mem _
            (List.mem_map_of_mem (f := sessionCalls.entry) hfound))
        · exact List.mem_append_right _ (List.mem_cons_of_mem _
            (List.mem_map_of_mem (f := sessionCalls.entry) hnow))
  | leaving htarget hload =>
      cases Session.sessKey_injective (Session.Call.del.inj hrequest)
      exact .inr ⟨cookie_of_load hload, .inl htarget⟩
  | starting hstarts hstart =>
      subst hrequest
      rcases startSession_reaches hstart with ⟨hpresented, rfl, hpoint⟩ |
        ⟨early, sub, -, rfl, hkind⟩
      · simp only [Sum.inl.injEq, Call.session.injEq, Session.Call.del.injEq] at hpoint
        have hid := Session.sessKey_injective hpoint
        refine .inr ⟨?_, .inr (.inl hstarts)⟩
        cases hcookie : r.cookie with
        | none =>
            rw [Request.presented, hcookie] at hpresented
            exact absurd rfl hpresented
        | some presented =>
            rw [hid, Request.presented, hcookie, Option.getD_some]
      · rcases hkind with ⟨_, hpoint, hcreate⟩ | ⟨_, ⟨⟩, -⟩
        cases hpoint
        generalize hat : (Sum.inl (.del (sessKey id)) :
          Session.Call ⊕ Except Auth.Err Auth.Session) = point at hcreate
        cases Session.create_point hcreate with
        | attempt httl hdeadline hallocate =>
            subst hat
            left
            rw [List.map_cons]
            exact (((allocate_cleansUp hallocate).append [_]).append early).append _
        | clock | refused | noDeadline => cases hat

/-! ## Runs -/

/-- A lookup of a user is answered; a touch is executed before the deadline it sets,
and what cleans up after a late write finds no record that is still live. -/
def Answered (s : Config) : Action → Prop
  | .advance i (.auth choice) =>
      ∀ uid, s.pending? i = some (.auth (.usersGetByID uid)) → choice = .ok
  | .advance i (.session choice) => choice.executes = true →
      (∀ key absExp milli, s.pending? i = some (.session (.touchSession key absExp milli)) →
        s.store.sessionStore.find key = none ∨ s.store.clock < milli * millisecond) ∧
      ∀ key, s.pending? i = some (.session (.del key)) → CleansUp key (s.trace i) →
        s.store.sessionStore.find key = none
  | _ => True

/-- What the end of a session for a reason rests on. -/
def Justified (s : Config) (action : Action) : Prop := Unguessable s action ∧ Answered s action

section Runs

variable {app : Params} {store : Store} {s next : Config} {i : ℕ} {r : Request} {id : Bytes}
  {entry : Keyspace.Entry Session.Record}

/-- What a presented session holds does not change. -/
theorem value_of_run {mid : Config} {value : Session.Record}
    (hpast : (machine app).Run Unguessable (.initial store) mid)
    (hrun : (machine app).Run Unguessable mid s) (hop : mid.ops[i]? = some (.request r))
    (hcookie : r.cookie = some id)
    (hvalue : ∀ entry, mid.store.sessionStore.find (sessKey id) = some entry → entry.value = value) :
    ∀ entry, s.store.sessionStore.find (sessKey id) = some entry → entry.value = value := by
  refine hrun.induct (motive := fun s => ∀ entry,
    s.store.sessionStore.find (sessKey id) = some entry → entry.value = value)
    (hpast.wellFormed .initial) hvalue ?_ ?_ ?_
  · intro s change after _ hs _ henv entry hfind
    obtain ⟨hclock, hsessions, -⟩ := env_frame henv
    obtain ⟨hentry, hlive⟩ := Keyspace.find_eq_some_iff.mp hfind
    refine hs entry (Keyspace.find_eq_some_iff.mpr ⟨?_, (millis_le_millis hclock).trans hlive⟩)
    rw [← hentry]
    exact congrFun hsessions.symm _
  · intro s op _ hs _
    exact hs
  · intro s j op choice request reply after proc hmid hs _ _ hpending hreach hexec entry hfind
    by_cases hsession : ∃ call, request = .session call
    · obtain ⟨call, rfl⟩ := hsession
      obtain ⟨found, rfl, hfound, -⟩ := exec_session hexec
      have hnot : ¬ Session.Creates (sessKey id) s.store.sessionStore call := by
        intro hcreates
        cases call with
        | createSession key record deadline =>
            obtain rfl := hcreates.1
            exact not_creating (hpast.trans hmid) (hmid.extends.op hop) hcookie hpending hreach
        | _ => cases hcreates
      obtain ⟨old, hold, heq⟩ := value_of_exec hfound hnot hfind
      rw [← heq]
      exact hs old hold
    · rw [Config.store_answer, sessionStore_of_exec hexec fun call heq => hsession ⟨call, heq⟩] at hfind
      exact hs entry hfind

/-- A record the thread has read under the presented identifier is the one that is
there. -/
theorem value_of_read {record : Session.Record}
    (hrun : (machine app).Run Unguessable (.initial store) s)
    (hop : s.ops[i]? = some (.request r)) (hcookie : r.cookie = some id)
    (hread : (⟨.session (.hGetAll (sessKey id)), .ok (some record)⟩ : Step) ∈ s.trace i)
    (hlive : s.store.sessionStore.find (sessKey id) = some entry) : entry.value = record := by
  obtain ⟨front, back, htrace⟩ := List.append_of_mem hread
  obtain ⟨mid, choice, after, proc, hmid, hallowed, -, hpending, hexec, hact, hrest⟩ :=
    hrun.at_entry front _ back List.nil_prefix htrace
  obtain ⟨op, hop', -⟩ :=
    (hmid.wellFormed .initial).reaches_pending hpending
  have hall := (Machine.Run.tail .refl hallowed hact).trans hrest
  have hsame := hall.extends.op hop'
  rw [hop] at hsame
  cases hsame
  obtain ⟨_, -, hfound, -⟩ := exec_session hexec
  have hobserved := Session.exec_observed hfound _ rfl
  refine value_of_run hmid hall hop' hcookie ?_ entry hlive
  intro old hold
  rw [hold] at hobserved
  exact (Option.some.inj hobserved).symm

theorem time_le_clock {time : ℤ} (hrun : (machine app).Run Unguessable (.initial store) s)
    (hread : (⟨.session .now, time⟩ : Step) ∈ s.trace i) : time ≤ s.store.clock := by
  obtain ⟨front, back, htrace⟩ := List.append_of_mem hread
  obtain ⟨mid, choice, after, proc, hmid, hallowed, -, hpending, hexec, hact, hrest⟩ :=
    hrun.at_entry front _ back List.nil_prefix htrace
  obtain ⟨_, -, hfound, -⟩ := exec_session hexec
  calc time = mid.store.clock := Session.exec_observed hfound
    _ ≤ _ := clock_le_of_act hact
    _ ≤ s.store.clock := hrest.le_of_act (fun s => s.store.clock) clock_le_of_act

/-- An answered lookup that gives no usable user has found none, or a disabled one. -/
theorem lookup_answered (hrun : (machine app).Run Justified (.initial store) s)
    (hrefused : LookupRefused (s.trace i)) :
    ∃ uid reply, s.Did i (.auth (.usersGetByID uid)) reply ∧
      (reply = .error .userNotFound ∨ ∃ u, reply = .ok u ∧ u.disabled = true) := by
  obtain ⟨uid, reply, hmem, hunwelcome⟩ := hrefused
  refine ⟨uid, reply, (s.did_iff_mem_trace _ _ _).mpr hmem, ?_⟩
  obtain ⟨front, back, htrace⟩ := List.append_of_mem hmem
  obtain ⟨mid, choice, after, proc, -, hallowed, -, hpending, hexec, -, -⟩ :=
    hrun.at_entry front _ back List.nil_prefix htrace
  obtain ⟨found, rfl, hfound, -⟩ := exec_auth hexec
  obtain rfl := hallowed.2 uid hpending
  simp only [Auth.exec, Auth.answer, Option.map_some, Option.some.injEq, Prod.mk.injEq] at hfound
  have hanswer := hfound.1
  unfold Store.Users.getByID at hanswer
  split at hanswer
  · exact .inl hanswer.symm
  · exact .inr ⟨_, hanswer.symm, hunwelcome _ hanswer.symm⟩

/-- As long as the lookups of users are answered, nothing is written late, and nobody
guesses: a session that is there is removed by time, at a deadline of its own; or by
a request that presents it, which is a logout, starts a session, has looked up the
user and found none or a disabled one, or has found the absolute end of the session
reached.  Always, a request whose lookup fails is served without a session. -/
theorem sessions_end_for_a_reason {action : Action}
    (hrun : (machine app).Run Justified (.initial store) s) (hallowed : Justified s action)
    (hact : (machine app).act s action = some next)
    (hlive : s.store.sessionStore.find (sessKey id) = some entry)
    (hgone : next.store.sessionStore.find (sessKey id) = none) :
    ((∃ time, action = .env (.elapse time)) ∧ entry.expireAt ≤ next.store.clock ∨
      ∃ i choice r, action = .advance i (.session choice) ∧ s.ops[i]? = some (.request r) ∧
        r.cookie = some id ∧
        (targetOf r = .api .logout ∨ r.startsSession ∨
          (∃ uid reply, s.Did i (.auth (.usersGetByID uid)) reply ∧
            (reply = .error .userNotFound ∨ ∃ u, reply = .ok u ∧ u.disabled = true)) ∨
          ∃ sess, Session.decodeRecord id entry.value = .ok sess ∧
            sess.absoluteExpiry ≤ s.store.clock)) ∧
      ∀ (reached : Config) (k : ℕ) (r : Request) uid err,
        (machine app).Run anyStep (.initial store) reached → reached.ops[k]? = some (.request r) →
        reached.Did k (.auth (.usersGetByID uid)) (.error err) →
        GoesAnonymous app.server r (reached.trace k) := by
  have hwf := hrun.wellFormed .initial
  have hfree : (machine app).Run Unguessable (.initial store) s := hrun.weaken fun _ _ h => h.1
  refine ⟨?_, ?_⟩
  · rcases Machine.act_cases hact with ⟨change, after, rfl, henv, rfl⟩ | ⟨op, rfl, rfl⟩ |
      ⟨i, choice, request, rest, reply, after, rfl, hproc, hexec, rfl⟩
    · cases change with
      | elapse time =>
          obtain ⟨hclock, hsessions, -⟩ := env_frame henv
          refine .inl ⟨⟨time, rfl⟩, (Keyspace.expireAt_lt ?_ hgone).le⟩
          rw [← (Keyspace.find_eq_some_iff.mp hlive).1]
          exact congrFun hsessions _
      | restart envelope =>
          cases henv
          cases hlive.symm.trans hgone
    · cases hlive.symm.trans hgone
    · right
      by_cases hsession : ∃ call, request = .session call
      · obtain ⟨call, rfl⟩ := hsession
        obtain ⟨found, rfl, hfound, -⟩ := exec_session hexec
        have hpending : s.pending? i = some (.session call) := by rw [Config.pending?, hproc]
        obtain ⟨op, hop, hreach⟩ := hwf.reaches_pending hpending
        obtain ⟨hexecutes, hremoved⟩ := removed_of_exec hfound hlive hgone
        rcases hremoved with rfl | ⟨absExp, milli, rfl, hpast⟩
        · obtain ⟨r, rfl, hcall⟩ := session_call_request hreach
          rcases del_reason hcall with hclean | ⟨hcookie, hreason⟩
          · cases hlive.symm.trans ((hallowed.2 hexecutes).2 _ hpending hclean)
          · refine ⟨i, found, r, rfl, hop, hcookie, ?_⟩
            refine hreason.imp_right fun hreason => hreason.imp_right fun hreason =>
              hreason.imp (lookup_answered hrun) ?_
            rintro ⟨record, sess, time, hread, hnow, hdecode, hexpired⟩
            rw [value_of_read hfree hop hcookie hread hlive]
            exact ⟨sess, hdecode, hexpired.trans (time_le_clock hfree hnow)⟩
        · rcases (hallowed.2 hexecutes).1 _ _ _ hpending with hnone | hahead
          · cases hlive.symm.trans hnone
          · exact absurd hpast (not_le.mpr hahead)
      · rw [Config.store_answer,
          sessionStore_of_exec hexec fun call heq => hsession ⟨call, heq⟩] at hgone
        cases hlive.symm.trans hgone
  · intro reached k r uid err hreached hop hdid
    have hwf := hreached.wellFormed .initial
    obtain ⟨point, hpoint⟩ := exists_point hwf hop
    obtain ⟨op, front, back, hop', htrace, hfront⟩ := hwf.reaches_of_did hdid
    rw [hop] at hop'
    cases hop'
    refine anonymous_of_denied hpoint htrace hfront.of_map ?_
    intro hwelcoming
    obtain ⟨u, heq, -⟩ := hwelcoming _ rfl
    cases heq

end Runs

end Records

namespace Sample

/-- Asking who one is has come in. -/
def asking (store : Store) : Config :=
  (Interleaving.Config.initial store).invoke (.request whoami) (program app (.request whoami))

theorem run_asking (store : Store) :
    (machine app).Run Justified (.initial store) (asking store) := by
  have hact : (machine app).act (.initial store) (.invoke (.request whoami)) = some (asking store) :=
    rfl
  have hallowed : Unguessable (.initial store) (.invoke (.request whoami)) := by
    intro id j _ hdid
    cases hdid
  exact .tail .refl ⟨hallowed, trivial⟩ hact

/-- The session of the user is live. -/
def live (s : Config) : Bool :=
  (s.store.sessionStore.find (sessKey session.id)).any fun entry =>
    Session.decodeRecord session.id entry.value = .ok session

/-- The lookup of the user has failed, for want of an answer. -/
def lookupFailed (s : Config) : Bool :=
  s.log.any fun entry =>
    match entry with
    | (0, ⟨.auth (.usersGetByID id), .error err⟩) => id = user.id && err ≠ .userNotFound
    | _ => false

theorem exists_of_lookupFailed {s : Config} (hfailed : lookupFailed s = true) :
    ∃ err, s.Did 0 (.auth (.usersGetByID user.id)) (.error err) ∧ err ≠ .userNotFound := by
  obtain ⟨entry, hmem, hentry⟩ := List.any_eq_true.mp hfailed
  split at hentry
  · rename_i id err
    rw [Bool.and_eq_true, decide_eq_true_eq, decide_eq_true_eq] at hentry
    obtain ⟨rfl, hother⟩ := hentry
    exact ⟨err, hmem, hother⟩
  · cases hentry

end Sample

/-- The user is in use, and the session has hours to go; the lookup of the user times
out, and the session is deleted. -/
theorem failed_lookup_removes_session :
    ∃ s next entry row err, (machine Sample.app).Run anyStep (.initial Sample.store) s ∧
      (machine Sample.app).act s (.advance 0 (.session .ok)) = some next ∧
      s.ops[0]? = some (.request Sample.whoami) ∧ targetOf Sample.whoami = .api .me ∧
      s.store.users.find Sample.user.id = some row ∧ row.disabled = false ∧
      s.Did 0 (.auth (.usersGetByID Sample.user.id)) (.error err) ∧ err ≠ .userNotFound ∧
      s.store.sessionStore.find (sessKey Sample.session.id) = some entry ∧
      Session.decodeRecord Sample.session.id entry.value = .ok Sample.session ∧
      s.store.clock < Sample.session.absoluteExpiry ∧
      next.store.sessionStore.find (sessKey Sample.session.id) = none := by
  have hperform : ((machine Sample.app).perform (fun _ _ => true) (Sample.asking Sample.store)
      [.advance 0 (.session .ok), .advance 0 (.session .ok),
        .advance 0 (.auth (.fail "timeout"))]).any (fun s =>
      Sample.live s && Sample.lookupFailed s && s.store.clock < Sample.session.absoluteExpiry &&
        (s.store.users.find Sample.user.id).any (fun row => !row.disabled) &&
        ((machine Sample.app).act s (.advance 0 (.session .ok))).any fun next =>
          (next.store.sessionStore.find (sessKey Sample.session.id)).isNone) = true := by
    decide +kernel
  obtain ⟨s, hrest, hobs⟩ : ∃ s, (machine Sample.app).Run anyStep (Sample.asking Sample.store) s ∧ _ :=
    Machine.exists_any_run hperform
  have hrun := ((Sample.run_asking Sample.store).weaken fun _ _ _ => trivial).trans hrest
  simp only [Bool.and_eq_true, decide_eq_true_eq, Option.any_eq_true, Option.isNone_iff_eq_none,
    Bool.not_eq_true', Sample.live] at hobs
  obtain ⟨⟨⟨⟨⟨entry, hentry, hdecode⟩, hfailed⟩, hahead⟩, row, hrow, henabled⟩, next, hact, hgone⟩ :=
    hobs
  obtain ⟨err, hdid, hother⟩ := Sample.exists_of_lookupFailed hfailed
  exact ⟨s, next, entry, row, err, hrun, hact, hrest.extends.op rfl, by decide, hrow, henabled, hdid,
    hother, hentry, hdecode, hahead, hgone⟩

namespace Sample

/-- The lookups of a request are answered. -/
def answering (s : Config) : Action → Bool
  | .advance _ (.auth .ok) => true
  | .advance i (.session .ok) =>
      match s.pending? i with
      | some (.session (.hGetAll _)) | some (.session .now) => true
      | _ => false
  | _ => false

theorem justified_of_answering {s : Config} {action : Action} (hanswering : answering s action = true) :
    Justified s action := by
  unfold answering at hanswering
  split at hanswering
  · exact ⟨trivial, fun _ _ => rfl⟩
  · split at hanswering
    · rename_i hpending
      refine ⟨nofun, fun _ => ⟨fun _ _ _ heq => ?_, fun _ heq => ?_⟩⟩ <;>
        · rw [hpending] at heq
          cases heq
    · rename_i hpending
      refine ⟨nofun, fun _ => ⟨fun _ _ _ heq => ?_, fun _ heq => ?_⟩⟩ <;>
        · rw [hpending] at heq
          cases heq
    · cases hanswering
  · cases hanswering

/-- The thread is about to delete the session, right after a lookup. -/
def aboutToDrop (s : Config) : Bool :=
  (match s.pending? 0 with
    | some (.session (.del key)) => key = sessKey session.id
    | _ => false) &&
    match (s.trace 0).getLast? with
    | some ⟨.auth _, _⟩ => true
    | _ => false

theorem justified_of_aboutToDrop {s : Config} (habout : aboutToDrop s = true) :
    Justified s (.advance 0 (.session .ok)) := by
  rw [aboutToDrop, Bool.and_eq_true] at habout
  obtain ⟨hpending, hlast⟩ := habout
  split at hpending
  · rename_i key hkey
    refine ⟨nofun, fun _ => ⟨fun _ _ _ heq => ?_, fun _ _ hclean => ?_⟩⟩
    · rw [hkey] at heq
      cases heq
    · -- a clean-up comes after a session call
      obtain ⟨front, milli, ⟨record, htrace⟩ | ⟨time, -, ⟨record, created, htrace⟩ | ⟨absExp, htrace⟩⟩⟩ :=
        hclean <;>
      · rw [htrace] at hlast
        simp at hlast
  · cases hpending

end Sample

/-- A user without an account presents a session. -/
theorem sessions_end_for_a_reason_sample :
    ∃ s next entry, (machine Sample.app).Run Justified (.initial Sample.nobody) s ∧
      Justified s (.advance 0 (.session .ok)) ∧
      (machine Sample.app).act s (.advance 0 (.session .ok)) = some next ∧
      s.store.sessionStore.find (sessKey Sample.session.id) = some entry ∧
      next.store.sessionStore.find (sessKey Sample.session.id) = none ∧
      ∃ (i : ℕ) (choice : Session.Choice) (r : Request),
        (.advance 0 (.session .ok) : Action) = .advance i (.session choice) ∧
        s.ops[i]? = some (.request r) ∧ r.cookie = some Sample.session.id := by
  have hperform : ((machine Sample.app).perform Sample.answering (Sample.asking Sample.nobody)
      [.advance 0 (.session .ok), .advance 0 (.session .ok), .advance 0 (.auth .ok)]).any (fun s =>
      Sample.aboutToDrop s && Sample.live s &&
        ((machine Sample.app).act s (.advance 0 (.session .ok))).any fun next =>
          (next.store.sessionStore.find (sessKey Sample.session.id)).isNone) = true := by
    decide +kernel
  obtain ⟨s, hrest, hobs⟩ := Machine.exists_run_of_perform
    (fun (_ : Config) (_ : Action) => Sample.justified_of_answering) hperform
  have hrun := (Sample.run_asking Sample.nobody).trans hrest
  simp only [Bool.and_eq_true, decide_eq_true_eq, Option.any_eq_true, Option.isNone_iff_eq_none,
    Sample.live] at hobs
  obtain ⟨⟨habout, entry, hentry, -⟩, next, hact, hgone⟩ := hobs
  have hallowed := Sample.justified_of_aboutToDrop habout
  refine ⟨s, next, entry, hrun, hallowed, hact, hentry, hgone, ?_⟩
  rcases (sessions_end_for_a_reason hrun hallowed hact hentry hgone).1 with ⟨⟨_, ⟨⟩⟩, -⟩ |
    ⟨i, choice, r, heq, hop, hcookie, -⟩
  exact ⟨i, choice, r, heq, hop, hcookie⟩

end SecurePastebin.Web
