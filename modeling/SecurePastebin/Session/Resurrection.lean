import SecurePastebin.Session.Deadlines

/-!
# Removed sessions stay removed

Once the key of a session is gone, whether deleted or expired, only a `Create`
that draws the same identifier makes it exist again.  `Create` itself never
writes over a record; but its clean-up removes whatever is stored under the
identifier by then, which is somebody else's session when the random source has
repeated itself in the meantime.
-/

namespace SecurePastebin.Session

open Text Uuid Calendar
open Process Interleaving Auth

variable {start s mid next last : Config} {i j : ℕ} {key id : Bytes} {clock : ℤ}
variable {store after : Store} {request : Call} {reply : request.Reply} {choice : Choice}
  {entry : Keyspace.Entry Record}

/-! ## An absent key -/

/-- No step but a creating one makes an absent key exist. -/
theorem absent_after (hexec : exec store request choice = some (reply, after))
    (hnot : ¬ (choice.executes = true ∧ Creates key store request))
    (habsent : store.find key = none) : after.find key = none := by
  have hclock := exec_clock hexec
  rcases exec_key hexec key with hkept | ⟨hexecutes, heffect⟩
  · rw [Store.find, hclock, Keyspace.find, hkept]
    exact habsent
  · rw [Store.find, Keyspace.find_eq_none_iff] at habsent ⊢
    rw [hclock]
    generalize after.keys key = left at heffect
    cases heffect with
    | kept => exact habsent
    | created record hnone hahead => exact absurd ⟨hexecutes, rfl, hnone, hahead⟩ hnot
    | touched hfound hahead =>
        obtain ⟨hkey, hlive⟩ := Keyspace.find_eq_some_iff.mp hfound
        exact absurd hlive (habsent _ hkey)
    | _ =>
        intro entry hentry
        cases hentry

/-- Without a creating step an absent key stays absent, and whoever is invoked
meanwhile finds nothing under it. -/
theorem absent_of_run (hwf : machine.WellFormed s)
    (hrun : machine.Run (fun s action => ¬ Performs (Creates key) s action) s last)
    (habsent : s.store.find key = none) :
    last.store.find key = none ∧ ∀ j found, s.ops.length ≤ j →
      last.Did j (.hGetAll key) (.ok found) → found = none := by
  have hsince := hrun.since (fun s => s.store.find key = none)
    (fun step => ∀ found, step = ⟨.hGetAll key, .ok found⟩ → found = none) hwf habsent ?_ ?_ ?_
  · exact ⟨hsince.1, fun j found hj hdid => hsince.2 j _ hj hdid found rfl⟩
  · intro s elapsed store _ hnone _ henv
    cases henv
    have hforward : s.store.clock ≤ s.store.clock + (elapsed : ℤ) := by omega
    exact Keyspace.find_eq_none_of_le hforward hnone
  · intro s op _ hnone _
    exact hnone
  · intro s i op choice request reply store proc _ hnone hallowed _ hpending _ hexec
    have hnot : ¬ (choice.executes = true ∧ Creates key s.store request) := fun h =>
      hallowed ⟨h.1, request, hpending, h.2⟩
    refine ⟨absent_after hexec hnot hnone, ?_⟩
    intro found heq
    have hobserved := exec_observed hexec
    rw [heq] at hobserved
    rw [hobserved found rfl, hnone, Option.map_none]

/-- A `Create` has drawn `id` and stored a session under it between `s` and
`last`. -/
def Redrawn (s last : Config) (id : Bytes) : Prop :=
  ∃ mid k sess deadline, LastBy (Creates (sessKey id)) s last mid k (createCall sess deadline) ∧
    sess.id = id ∧ draws sess <:+ mid.trace k

theorem none_or_redrawn (hwf : machine.WellFormed s) (hrun : machine.Run anyStep s last) :
    machine.Run (fun s action => ¬ Performs (Creates (sessKey id)) s action) s last ∨
      Redrawn s last id := by
  refine (none_or_lastBy hrun (Creates (sessKey id))).imp_right ?_
  rintro ⟨mid, k, request, hlast⟩
  obtain ⟨op, -, hreach⟩ := (hlast.before.wellFormed hwf).reaches_pending hlast.pending
  have hkind := hlast.is_kind
  cases request with
  | createSession key record milli =>
      obtain rfl := hkind.1
      obtain ⟨sess, idleTTL, absoluteTTL, deadline, hstoring, hcall⟩ := createSession_point hreach
      have hkey := hcall
      simp only [createCall, Call.createSession.injEq, sessKey_injective.eq_iff] at hkey
      exact ⟨mid, k, sess, deadline, hcall ▸ hlast, hkey.1.symm, hstoring.drawn⟩
  | _ => cases hkind

/-- A lookup that saw nothing, with Redis answering, reports the session as not
found. -/
theorem get_notFound {trace : List Step} {raw : Except Err (Session × Bytes)}
    (hpoint : GetPoint id trace (.inr raw))
    (hfound : ∀ found, (⟨.hGetAll (sessKey id), .ok found⟩ : Step) ∈ trace → found = none)
    (hanswered : ∀ err, (⟨.hGetAll (sessKey id), .error err⟩ : Step) ∉ trace) :
    raw = .error .sessionNotFound := by
  cases hpoint with
  | empty => rfl
  | missing => rfl
  | failed hid err => exact absurd (List.mem_singleton_self _) (hanswered err)
  | malformed hid hdecode => cases hfound _ (List.mem_singleton_self _)
  | expiredDone hid hdecode hexpired reply => rfl
  | found hid hdecode hlive => cases hfound _ (List.mem_cons_self ..)

/-! ## Who has stored what -/

instance (store : Store) : DecidablePred (Creates key store)
  | .createSession .. => inferInstanceAs (Decidable (_ ∧ _ ∧ _))
  | .now | .randomToken | .hGetAll _ | .touchSession .. | .del _ => isFalse not_false

instance {kind : Store → Call → Prop} [∀ store, DecidablePred (kind store)] (s : Config) :
    DecidablePred (Performs kind s)
  | .env _ | .invoke _ => isFalse not_false
  | .advance i choice => decidable_of_iff (choice.executes = true ∧
      (s.pending? i).any (fun request => decide (kind s.store request)) = true)
        (by simp [Performs, Option.any_eq_true])

/-- The thread that has stored the record under a key. -/
abbrev Owners := Bytes → Option ℕ

def Owners.act (owner : Owners) (s : Config) : Action → Owners
  | .advance i choice, key =>
      if Performs (Creates key) s (.advance i choice) then some i else owner key
  | _, key => owner key

/-- Perform a schedule and note who has stored what. -/
def performOwned (owner : Owners) (s : Config) : List Action → Option (Owners × Config)
  | [] => some (owner, s)
  | action :: rest =>
      (machine.act s action).bind fun next => performOwned (owner.act s action) next rest

/-- Every record has an owner, and the owner has drawn the identifier. -/
structure Tracks (owner : Owners) (s : Config) : Prop where
  stored : ∀ key entry, s.store.keys key = some entry → ∃ k, owner key = some k
  drawn : ∀ key k, owner key = some k → ∃ id, key = sessKey id ∧ s.Did k .randomToken id

variable {owner owner' : Owners} {action : Action}

theorem drawn_of_creates (hwf : machine.WellFormed s) (hpending : s.pending? i = some request)
    (hcreates : Creates key s.store request) :
    ∃ id, key = sessKey id ∧ s.Did i .randomToken id := by
  obtain ⟨op, -, hreach⟩ := hwf.reaches_pending hpending
  cases request with
  | createSession other record milli =>
      obtain rfl := hcreates.1
      obtain ⟨sess, idleTTL, absoluteTTL, deadline, hstoring, hcall⟩ := createSession_point hreach
      simp only [createCall, Call.createSession.injEq] at hcall
      refine ⟨sess.id, hcall.1, (s.did_iff_mem_trace ..).mpr (hstoring.drawn.subset ?_)⟩
      simp [draws]
  | _ => cases hcreates

theorem Tracks.act (htracks : Tracks owner s) (hwf : machine.WellFormed s)
    (hact : machine.act s action = some next) : Tracks (owner.act s action) next := by
  rcases Machine.act_cases hact with ⟨change, store, rfl, henv, rfl⟩ | ⟨op, rfl, rfl⟩ |
    ⟨i, choice, request, rest, reply, store, rfl, hproc, hexec, rfl⟩
  · cases henv
    exact ⟨htracks.stored, htracks.drawn⟩
  · exact ⟨htracks.stored, htracks.drawn⟩
  · have hpending : s.pending? i = some request := by rw [Config.pending?, hproc]
    have hextends := Config.extends_answer (s := s) i (rest reply) ⟨request, reply⟩ store
    constructor
    · intro key entry hentry
      rw [Owners.act]
      split
      · exact ⟨i, rfl⟩
      · rename_i hnot
        obtain ⟨before, hbefore, -⟩ := value_before hexec
          (fun h => hnot ⟨h.1, request, hpending, h.2⟩) hentry
        exact htracks.stored key before hbefore
    · intro key k howner
      rw [Owners.act] at howner
      split at howner
      · rename_i hperforms
        obtain ⟨-, other, hother, hcreates⟩ := hperforms
        cases howner
        obtain ⟨id, hkey, hdid⟩ := drawn_of_creates hwf hother hcreates
        exact ⟨id, hkey, hextends.did hdid⟩
      · obtain ⟨id, hkey, hdid⟩ := htracks.drawn key k howner
        exact ⟨id, hkey, hextends.did hdid⟩

theorem tracks_of_performOwned {schedule : List Action} (hwf : machine.WellFormed s)
    (htracks : Tracks owner s) (hperform : performOwned owner s schedule = some (owner', last)) :
    machine.Run anyStep s last ∧ Tracks owner' last := by
  induction schedule generalizing owner s with
  | nil =>
      cases hperform
      exact ⟨.refl, htracks⟩
  | cons action rest ih =>
      obtain ⟨next, hact, hrest⟩ := Option.bind_eq_some_iff.mp hperform
      obtain ⟨hrun, hlast⟩ := ih (hwf.act hact) (htracks.act hwf hact) hrest
      exact ⟨(Machine.Run.tail .refl trivial hact).trans hrun, hlast⟩

/-! ## What `Create` does to the records of others -/

/-- Where thread `i` executes a `DEL`, the session another thread has stored under
the key is gone. -/
def CleansOwn (owner : Owners) (s : Config) (i : ℕ) (choice : Choice) : Prop :=
  ∀ key k, s.pending? i = some (.del key) → choice.executes = true → owner key = some k →
    k ≠ i → s.store.find key = none

/-- A live record is changed by its deletion and by a touch alone. -/
theorem entry_after (hexec : exec store request choice = some (reply, after))
    (hfound : store.find key = some entry) (hdel : choice.executes = true → request ≠ .del key)
    (htouch : ∀ absExp deadline, request ≠ .touchSession key absExp deadline) :
    after.keys key = some entry := by
  have hentry := (Keyspace.find_eq_some_iff.mp hfound).1
  rcases exec_key hexec key with hkept | ⟨hexecutes, heffect⟩
  · rw [hkept, hentry]
  · generalize after.keys key = left at heffect
    cases heffect with
    | kept => exact hentry
    | removed => exact absurd rfl (hdel hexecutes)
    | createDropped record habsent hpast =>
        rw [habsent] at hfound
        cases hfound
    | created record habsent hahead =>
        rw [habsent] at hfound
        cases hfound
    | _ => exact absurd rfl (htouch _ _)

/-- A step of a `Create` leaves the sessions of others alone exactly if it is
not a clean-up that finds one of them. -/
theorem create_step_iff (hwf : machine.WellFormed s) (htracks : Tracks owner s) {userId : UUID}
    {idleTTL absoluteTTL : ℤ} (hop : s.ops[i]? = some (.create userId idleTTL absoluteTTL))
    (hact : machine.act s (.advance i choice) = some next) :
    CleansOwn owner s i choice ↔
      ∀ id entry, s.store.find (sessKey id) = some entry → owner (sessKey id) ≠ some i →
        next.store.keys (sessKey id) = some entry := by
  obtain ⟨request, rest, reply, store, hproc, hexec, rfl⟩ := Machine.advance_cases hact
  have hpending : s.pending? i = some request := by rw [Config.pending?, hproc]
  rw [Config.store_answer]
  constructor
  · intro hclean id entry hfound hother
    refine entry_after hexec hfound ?_ ?_
    · rintro hexecutes rfl
      obtain ⟨k, hk⟩ := htracks.stored _ entry (Keyspace.find_eq_some_iff.mp hfound).1
      have hne : k ≠ i := fun heq => hother (heq ▸ hk)
      cases (hclean _ k hpending hexecutes hk hne).symm.trans hfound
    · rintro absExp deadline rfl
      obtain ⟨op, hop', hreach⟩ := hwf.reaches_pending hpending
      obtain rfl := Option.some.inj (hop.symm.trans hop')
      obtain ⟨_, _, _, _, _, _, htouching, -⟩ := touchSession_point hreach
      cases htouching.op_eq
  · intro hkept key k hdel hexecutes howner hne
    cases hpending.symm.trans hdel
    obtain ⟨id, rfl, -⟩ := htracks.drawn key k howner
    by_contra hfound
    obtain ⟨entry, hentry⟩ := Option.ne_none_iff_exists'.mp hfound
    have hstays := hkept id entry hentry fun hown => hne (Option.some.inj (howner.symm.trans hown))
    rw [exec_store hexec, if_pos hexecutes] at hstays
    simp [effect] at hstays

/-- Nobody else has stored a session under an identifier nobody else has drawn. -/
theorem cleansOwn_of_distinct (hwf : machine.WellFormed s) (htracks : Tracks owner s)
    {userId : UUID} {idleTTL absoluteTTL : ℤ}
    (hop : s.ops[i]? = some (.create userId idleTTL absoluteTTL))
    (hdistinct : ∀ k id, s.Did i .randomToken id → s.Did k .randomToken id → k = i) :
    CleansOwn owner s i choice := by
  intro key k hpending _ howner hne
  obtain ⟨op, hop', hreach⟩ := hwf.reaches_pending hpending
  obtain rfl := Option.some.inj (hop.symm.trans hop')
  obtain ⟨id, hkey, hdrawn⟩ := htracks.drawn key k howner
  have hmine : s.Did i .randomToken id := by
    have hpoint := create_reaches hreach
    generalize htrace : s.trace i = trace at hpoint
    cases hpoint with
    | attempt _ _ hallocate =>
        obtain ⟨found, hfound, hmem⟩ := hallocate.del_inv
        obtain rfl := sessKey_injective (hkey.symm.trans hfound)
        exact Config.did_of_trace htrace (List.mem_cons_of_mem _ hmem)
  exact absurd (hdistinct k id hmine hdrawn) hne

/-- When all four attempts collide, `Create` fails and none of its steps has
changed anything. -/
theorem create_collides (hwf : machine.WellFormed s) {userId : UUID} {idleTTL absoluteTTL : ℤ}
    {outcome : Except Err Session}
    (hreturned : s.Returned i (.create userId idleTTL absoluteTTL) (.session outcome))
    (hcollisions : collisions (s.trace i) = 4) :
    outcome = notAllocated ∧ ∀ step ∈ s.trace i, Harmless step := by
  have hpoint := create_returns (hwf.reaches_returned hreturned)
  generalize htrace : s.trace i = trace at hpoint hcollisions
  cases hpoint with
  | refused | noDeadline => simp [collisions] at hcollisions
  | @attempt now deadline httl hdeadline tail _ hallocate =>
      have htail : collisions tail = 4 := by simpa [collisions] using hcollisions
      obtain ⟨hout, hall⟩ := hallocate.exhausted_inv.2 htail
      refine ⟨hout, ?_⟩
      rw [List.forall_mem_cons]
      exact ⟨trivial, hall⟩

theorem harmless_effect (hexec : exec store request choice = some (reply, after))
    (hharmless : Harmless ⟨request, reply⟩) : after.keys = store.keys := by
  rw [exec_store hexec]
  split
  · cases request with
    | createSession key record deadline =>
        have hzero := exec_observed hexec 0 hharmless
        simp only [effect, createSessionScript] at hzero ⊢
        split_ifs at hzero ⊢ with hfound
        · rfl
        · cases hzero
        · cases hzero
    | now => rfl
    | randomToken => rfl
    | _ => cases hharmless
  · rfl

/-- Along every schedule: a key that is gone stays gone, also for every later lookup,
unless a `Create` draws its identifier and stores a session under it; every session
has an owner, and a step of a `Create` leaves those of others alone exactly if it is
not a clean-up that meets one, as it never is while no token is drawn twice; and a
`Create` that collides four times fails and has changed nothing. -/
theorem sessions_stay_removed {schedule : List Action}
    (hperform : performOwned (fun _ => none) (.initial (.empty clock)) schedule =
      some (owner, s)) :
    (∀ id last, machine.Run anyStep s last → s.store.find (sessKey id) = none →
      (last.store.find (sessKey id) = none ∧
        ∀ j outcome, s.ops.length ≤ j → last.Returned j (.get id) (.session outcome) →
          (∀ err, ¬ last.Did j (.hGetAll (sessKey id)) (.error err)) →
          outcome = .error .sessionNotFound) ∨
        Redrawn s last id) ∧
    (∀ id entry, s.store.find (sessKey id) = some entry → ∃ k, owner (sessKey id) = some k) ∧
    (∀ i userId idleTTL absoluteTTL choice next,
      s.ops[i]? = some (.create userId idleTTL absoluteTTL) →
      machine.act s (.advance i choice) = some next →
      (CleansOwn owner s i choice ↔
        ∀ id entry, s.store.find (sessKey id) = some entry → owner (sessKey id) ≠ some i →
          next.store.keys (sessKey id) = some entry) ∧
      ((∀ k id, s.Did i .randomToken id → s.Did k .randomToken id → k = i) →
        CleansOwn owner s i choice)) ∧
    (∀ i userId idleTTL absoluteTTL outcome,
      s.Returned i (.create userId idleTTL absoluteTTL) (.session outcome) →
      collisions (s.trace i) = 4 → outcome = notAllocated ∧
        ∀ mid choice next, machine.Run anyStep (.initial (.empty clock)) mid →
          machine.act mid (.advance i choice) = some next → machine.Run anyStep next s →
          next.store.keys = mid.store.keys) := by
  obtain ⟨hrun, htracks⟩ := tracks_of_performOwned .initial
    ⟨by rintro key entry ⟨⟩, by rintro key k ⟨⟩⟩ hperform
  have hwf := hrun.wellFormed .initial
  refine ⟨?_, ?_, ?_, ?_⟩
  · intro id last hlater habsent
    refine (none_or_redrawn hwf hlater).imp_left ?_
    intro hnone
    obtain ⟨hgone, hfound⟩ := absent_of_run hwf hnone habsent
    refine ⟨hgone, ?_⟩
    intro j outcome hj hreturned hanswered
    have hlast := hlater.wellFormed hwf
    obtain ⟨raw, hpoint, rfl⟩ := get_returns (hlast.reaches_returned hreturned)
    rw [get_notFound hpoint]
    · rfl
    · intro found hmem
      exact hfound j found hj ((last.did_iff_mem_trace ..).mpr hmem)
    · intro err hmem
      exact hanswered err ((last.did_iff_mem_trace ..).mpr hmem)
  · intro id entry hfound
    exact htracks.stored _ entry (Keyspace.find_eq_some_iff.mp hfound).1
  · intro i userId idleTTL absoluteTTL choice next hop hact
    exact ⟨create_step_iff hwf htracks hop hact, cleansOwn_of_distinct hwf htracks hop⟩
  · intro i userId idleTTL absoluteTTL outcome hreturned hcollisions
    obtain ⟨hout, hall⟩ := create_collides hwf hreturned hcollisions
    refine ⟨hout, ?_⟩
    intro mid choice next hbefore hact hafter
    obtain ⟨request, rest, reply, store, -, hexec, rfl⟩ := Machine.advance_cases hact
    refine harmless_effect hexec (hall _ ((hafter.extends.trace i).subset ?_))
    simp

/-- The random source gives two `Create` calls one identifier.  The first is
slow: its session has expired and the second has stored its own when it reads
the clock again.  Its clean-up removes the session the second has returned. -/
theorem create_removes_other_session :
    ∃ schedule owner s next sess entry,
      performOwned (fun _ => none) Sample.start schedule = some (owner, s) ∧
      s.Returned 1 (.create Sample.user (1800 * second) (12 * hour)) (.session (.ok sess)) ∧
      s.store.find (sessKey sess.id) = some entry ∧ entry.value = encodeRecord sess ∧
      s.ops[0]? = some (.create Sample.user second (12 * hour)) ∧
      owner (sessKey sess.id) = some 1 ∧
      machine.act s (.advance 0 .ok) = some next ∧ next.store.find (sessKey sess.id) = none := by
  have hperform : (performOwned (fun _ => none) Sample.start
      (Sample.storing 0 second (12 * hour) ++ .env 2000000000 ::
        Sample.storing 1 (1800 * second) (12 * hour) ++ Sample.calls 1 1 ++
        Sample.calls 0 1)).any (fun out =>
      out.2.ops[0]? = some (.create Sample.user second (12 * hour)) &&
      out.2.ops[1]? = some (.create Sample.user (1800 * second) (12 * hour)) &&
      ((out.2.result? 1).bind Result.sessionOk?).any fun sess =>
        decide (out.1 (sessKey sess.id) = some 1) &&
        (out.2.store.find (sessKey sess.id)).any
          (fun entry => decide (entry.value = encodeRecord sess)) &&
        (machine.act out.2 (.advance 0 .ok)).any fun next =>
          (next.store.find (sessKey sess.id)).isNone) = true := by decide +kernel
  obtain ⟨⟨owner, s⟩, hrun, hs⟩ := (Option.any_eq_true _ _).mp hperform
  simp only [Bool.and_eq_true, decide_eq_true_eq, Option.any_eq_true, Result.bind_sessionOk?] at hs
  obtain ⟨⟨hfirst, hsecond⟩, sess, hsess, ⟨howner, entry, hfound, hentry⟩, next, hact, hgone⟩ := hs
  exact ⟨_, owner, s, next, sess, entry, hrun, (s.returned_iff 1 _ _).mpr ⟨hsecond, hsess⟩,
    hfound, hentry, hfirst, howner, hact, Option.isNone_iff_eq_none.mp hgone⟩

/-- A second `Create` is given the identifier of a stored session four times. -/
theorem sessions_stay_removed_sample :
    ∃ schedule owner s outcome,
      performOwned (fun _ => none) Sample.start schedule = some (owner, s) ∧
      s.Returned 1 (.create Sample.user (1800 * second) (12 * hour)) (.session outcome) ∧
      collisions (s.trace 1) = 4 ∧ outcome = notAllocated ∧
      (s.store.find (sessKey Sample.id)).isSome = true := by
  have hperform : (performOwned (fun _ => none) Sample.start
      (Sample.storing 0 (1800 * second) (12 * hour) ++ Sample.calls 0 1 ++
        Sample.storing 1 (1800 * second) (12 * hour) ++
        (List.replicate 3 [.advance 1 (.token Sample.raw), .advance 1 (.token Sample.raw),
          .advance 1 .ok]).flatten)).any (fun out =>
      out.2.ops[1]? = some (.create Sample.user (1800 * second) (12 * hour)) &&
      collisions (out.2.trace 1) = 4 && (out.2.store.find (sessKey Sample.id)).isSome &&
      ((out.2.result? 1).bind Result.session?).isSome) = true := by decide +kernel
  obtain ⟨⟨owner, s⟩, hrun, hs⟩ := (Option.any_eq_true _ _).mp hperform
  simp only [Bool.and_eq_true, decide_eq_true_eq] at hs
  obtain ⟨⟨⟨hop, hcollisions⟩, hfound⟩, hs⟩ := hs
  obtain ⟨outcome, hresult⟩ := Option.isSome_iff_exists.mp hs
  have hreturned := (s.returned_iff 1 _ _).mpr ⟨hop, Result.bind_session?.mp hresult⟩
  obtain ⟨-, -, -, hcollides⟩ := sessions_stay_removed hrun
  exact ⟨_, owner, s, outcome, hrun, hreturned, hcollisions,
    (hcollides 1 _ _ _ outcome hreturned hcollisions).1, hfound⟩

end SecurePastebin.Session
