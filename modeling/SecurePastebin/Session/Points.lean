import SecurePastebin.Session.Store

/-!
# The program points of the session store

For each method: every point an execution can reach, with the calls answered
before it and what the replies were.
-/

namespace SecurePastebin.Session

open Text Uuid Calendar
open Process Auth

/-! ## Create -/

/-- The call that stores a session. -/
def createCall (sess : Session) (deadline : ℤ) : Call :=
  .createSession (sessKey sess.id) (encodeRecord sess) (unixMilli deadline)

/-- The draws of one attempt. -/
def draws (sess : Session) : List Step :=
  [⟨.randomToken, sess.id⟩, ⟨.randomToken, sess.csrfToken⟩]

def expiredDuringWrite : Except Err Session :=
  .error (.message "redis: create session: expired during write")

def notAllocated : Except Err Session :=
  .error (.message "redis: create session: could not allocate unique id")

variable {trace : List Step} {point : Call ⊕ Except Err Session} {sess : Session} {id : Bytes}

section Allocate

variable (userId : UUID) (now absoluteExpiry deadline : ℤ)

/-- A session one attempt tries to store. -/
def candidate (id csrfToken : Bytes) : Session := ⟨id, userId, now, absoluteExpiry, csrfToken⟩

abbrev Candidate (sess : Session) : Prop :=
  sess = candidate userId now absoluteExpiry sess.id sess.csrfToken

inductive AllocatePoint : ℕ → List Step → Call ⊕ Except Err Session → Prop
  | exhausted : AllocatePoint 0 [] (.inr notAllocated)
  | drawId (n : ℕ) : AllocatePoint (n + 1) [] (.inl .randomToken)
  | drawToken (n : ℕ) (id : Bytes) :
      AllocatePoint (n + 1) [⟨.randomToken, id⟩] (.inl .randomToken)
  | script (n : ℕ) {sess : Session} (hsess : Candidate userId now absoluteExpiry sess) :
      AllocatePoint (n + 1) (draws sess) (.inl (createCall sess deadline))
  | scriptFailed (n : ℕ) {sess : Session} (hsess : Candidate userId now absoluteExpiry sess)
      (err : Err) :
      AllocatePoint (n + 1) (draws sess ++ [⟨createCall sess deadline, .error err⟩])
        (.inr (.error (.wrap "redis: create session" err)))
  | collision {n : ℕ} {sess : Session} (hsess : Candidate userId now absoluteExpiry sess)
      {tail : List Step} {point : Call ⊕ Except Err Session} (hnext : AllocatePoint n tail point) :
      AllocatePoint (n + 1) (draws sess ++ ⟨createCall sess deadline, .ok 0⟩ :: tail) point
  | dropped (n : ℕ) {sess : Session} (hsess : Candidate userId now absoluteExpiry sess) :
      AllocatePoint (n + 1) (draws sess ++ [⟨createCall sess deadline, .ok (-1)⟩])
        (.inl (.del (sessKey sess.id)))
  | droppedDone (n : ℕ) {sess : Session} (hsess : Candidate userId now absoluteExpiry sess)
      (reply : Except Err Unit) :
      AllocatePoint (n + 1) (draws sess ++ [⟨createCall sess deadline, .ok (-1)⟩,
        ⟨.del (sessKey sess.id), reply⟩]) (.inr expiredDuringWrite)
  | check (n : ℕ) {sess : Session} (hsess : Candidate userId now absoluteExpiry sess)
      {created : ℤ} (hcollision : created ≠ 0) (hdropped : created ≠ -1) :
      AllocatePoint (n + 1) (draws sess ++ [⟨createCall sess deadline, .ok created⟩]) (.inl .now)
  | late (n : ℕ) {sess : Session} (hsess : Candidate userId now absoluteExpiry sess)
      {created : ℤ} (hcollision : created ≠ 0) (hdropped : created ≠ -1)
      {time : ℤ} (hlate : deadline ≤ time) :
      AllocatePoint (n + 1) (draws sess ++ [⟨createCall sess deadline, .ok created⟩, ⟨.now, time⟩])
        (.inl (.del (sessKey sess.id)))
  | lateDone (n : ℕ) {sess : Session} (hsess : Candidate userId now absoluteExpiry sess)
      {created : ℤ} (hcollision : created ≠ 0) (hdropped : created ≠ -1)
      {time : ℤ} (hlate : deadline ≤ time) (reply : Except Err Unit) :
      AllocatePoint (n + 1) (draws sess ++ [⟨createCall sess deadline, .ok created⟩, ⟨.now, time⟩,
        ⟨.del (sessKey sess.id), reply⟩]) (.inr expiredDuringWrite)
  | retry {n : ℕ} {sess : Session} (hsess : Candidate userId now absoluteExpiry sess)
      {created : ℤ} (hcollision : created ≠ 0) (hdropped : created ≠ -1) (hodd : created ≠ 1)
      {time : ℤ} (hearly : time < deadline)
      {tail : List Step} {point : Call ⊕ Except Err Session} (hnext : AllocatePoint n tail point) :
      AllocatePoint (n + 1) (draws sess ++ ⟨createCall sess deadline, .ok created⟩ ::
        ⟨.now, time⟩ :: tail) point
  | done (n : ℕ) {sess : Session} (hsess : Candidate userId now absoluteExpiry sess)
      {time : ℤ} (hearly : time < deadline) :
      AllocatePoint (n + 1) (draws sess ++ [⟨createCall sess deadline, .ok 1⟩, ⟨.now, time⟩])
        (.inr (.ok sess))

variable {userId now absoluteExpiry deadline}

variable {n : ℕ} {key : Bytes}

theorem allocate_point
    (hreach : (allocate userId now absoluteExpiry deadline n).Reaches trace point) :
    AllocatePoint userId now absoluteExpiry deadline n trace point := by
  induction n generalizing trace with
  | zero =>
      obtain ⟨rfl, rfl⟩ := hreach
      exact .exhausted
  | succ n ih =>
      simp only [allocate, Proc.perform_bind, Proc.reaches_call] at hreach
      rcases hreach with ⟨rfl, rfl⟩ | ⟨id, tail, rfl, hreach⟩
      · exact .drawId n
      rcases hreach with ⟨rfl, rfl⟩ | ⟨csrfToken, tail, rfl, hreach⟩
      · exact .drawToken n id
      have hsess : candidate userId now absoluteExpiry id csrfToken =
          candidate userId now absoluteExpiry id csrfToken := rfl
      rcases hreach with ⟨rfl, rfl⟩ | ⟨reply, tail, rfl, hreach⟩
      · exact .script n hsess
      cases reply with
      | error err =>
          obtain ⟨rfl, rfl⟩ := hreach
          exact .scriptFailed n hsess err
      | ok created =>
          by_cases hcollision : created = 0
          · subst hcollision
            exact .collision hsess (ih hreach)
          by_cases hdropped : created = -1
          · subst hdropped
            rcases hreach with ⟨rfl, rfl⟩ | ⟨reply, tail, rfl, rfl, rfl⟩
            · exact .dropped n hsess
            · exact .droppedDone n hsess reply
          simp only [if_neg hcollision, if_neg hdropped, Proc.reaches_call] at hreach
          rcases hreach with ⟨rfl, rfl⟩ | ⟨time, tail, rfl, hreach⟩
          · exact .check n hsess hcollision hdropped
          split_ifs at hreach with hlate hone
          · rcases hreach with ⟨rfl, rfl⟩ | ⟨reply, tail, rfl, rfl, rfl⟩
            · exact .late n hsess hcollision hdropped hlate
            · exact .lateDone n hsess hcollision hdropped hlate reply
          · subst hone
            obtain ⟨rfl, rfl⟩ := hreach
            exact .done n hsess (not_le.mp hlate)
          · exact .retry hsess hcollision hdropped hone (not_le.mp hlate) (ih hreach)

/-- `Create` neither looks up nor touches a session. -/
theorem AllocatePoint.call_cases {request : Call}
    (hpoint : AllocatePoint userId now absoluteExpiry deadline n trace (.inl request)) :
    request = .randomToken ∨ request = .now ∨ (∃ sess, request = createCall sess deadline) ∨
      ∃ key, request = .del key := by
  generalize hrequest : (Sum.inl request : Call ⊕ Except Err Session) = point at hpoint
  induction hpoint with
  | collision _ _ ih | retry _ _ _ _ _ _ ih => exact ih hrequest
  | script n hsess =>
      cases hrequest
      exact .inr (.inr (.inl ⟨_, rfl⟩))
  | _ => cases hrequest <;> simp

/-- What a waiting attempt is about to store, and the draws it stems from. -/
theorem AllocatePoint.script_inv {record : Record}
    {milli : ℤ} (hpoint : AllocatePoint userId now absoluteExpiry deadline n trace
      (.inl (.createSession key record milli))) :
    ∃ sess, sess = candidate userId now absoluteExpiry sess.id sess.csrfToken ∧
      draws sess <:+ trace ∧ Call.createSession key record milli = createCall sess deadline := by
  generalize hrequest : (Sum.inl (Call.createSession key record milli) :
    Call ⊕ Except Err Session) = point at hpoint
  induction hpoint with
  | script n hsess =>
      cases hrequest
      exact ⟨_, hsess, List.suffix_rfl, rfl⟩
  | collision hsess hnext ih =>
      obtain ⟨sess, hcandidate, hdraws, hcall⟩ := ih hrequest
      refine ⟨sess, hcandidate, hdraws.trans ?_, hcall⟩
      exact (List.suffix_cons _ _).trans (List.suffix_append _ _)
  | retry hsess hcollision hdropped hodd hearly hnext ih =>
      obtain ⟨sess, hcandidate, hdraws, hcall⟩ := ih hrequest
      refine ⟨sess, hcandidate, hdraws.trans ?_, hcall⟩
      exact ((List.suffix_cons _ _).trans (List.suffix_cons _ _)).trans (List.suffix_append _ _)
  | _ => cases hrequest

/-- `Create` only removes what is stored under an identifier it has drawn. -/
theorem AllocatePoint.del_inv
    (hpoint : AllocatePoint userId now absoluteExpiry deadline n trace (.inl (.del key))) :
    ∃ id, key = sessKey id ∧ (⟨.randomToken, id⟩ : Step) ∈ trace := by
  generalize hrequest : (Sum.inl (Call.del key) : Call ⊕ Except Err Session) = point at hpoint
  induction hpoint with
  | @dropped n sess hsess | @late n sess hsess =>
      cases hrequest
      exact ⟨sess.id, rfl, by simp [draws]⟩
  | collision _ _ ih | retry _ _ _ _ _ _ ih =>
      obtain ⟨id, hkey, hmem⟩ := ih hrequest
      exact ⟨id, hkey, by simp [hmem]⟩
  | _ => cases hrequest

/-- A session that was returned is the one the last script call stored; every
earlier script call replied something else. -/
theorem AllocatePoint.ok_inv
    (hpoint : AllocatePoint userId now absoluteExpiry deadline n trace (.inr (.ok sess)))
    {record : Record} {milli : ℤ} {reply : Except Err ℤ}
    (hmem : (⟨.createSession key record milli, reply⟩ : Step) ∈ trace) :
    (∃ created, reply = .ok created ∧ created ≠ 1) ∨
      Call.createSession key record milli = createCall sess deadline := by
  generalize hresult : (Sum.inr (Except.ok sess) : Call ⊕ Except Err Session) = point at hpoint
  induction hpoint with
  | @done n found hsess time hearly =>
      cases hresult
      right
      simp only [draws, createCall, List.cons_append, List.nil_append, List.mem_cons,
        Sigma.mk.injEq, reduceCtorEq, false_and, false_or, List.not_mem_nil, or_false] at hmem
      exact hmem.1
  | @collision n found hsess tail point hnext ih =>
      simp only [draws, createCall, List.cons_append, List.nil_append, List.mem_cons,
        Sigma.mk.injEq, reduceCtorEq, false_and, false_or] at hmem
      rcases hmem with ⟨hcall, hreply⟩ | hmem
      · cases hcall
        exact .inl ⟨0, eq_of_heq hreply, by decide⟩
      · exact ih hmem hresult
  | @retry n found hsess created hcollision hdropped hodd time hearly tail point hnext ih =>
      simp only [draws, createCall, List.cons_append, List.nil_append, List.mem_cons,
        Sigma.mk.injEq, reduceCtorEq, false_and, false_or] at hmem
      rcases hmem with ⟨hcall, hreply⟩ | hmem
      · cases hcall
        exact .inl ⟨created, eq_of_heq hreply, hodd⟩
      · exact ih hmem hresult
  | _ => cases hresult

/-- How often the script found the identifier taken. -/
def collisions (trace : List Step) : ℕ :=
  trace.countP fun
    | ⟨.createSession .., .ok 0⟩ => true
    | _ => false

/-- A draw, a reading, or a script call that found the identifier taken. -/
def Harmless : Step → Prop
  | ⟨.now, _⟩ => True
  | ⟨.randomToken, _⟩ => True
  | ⟨.createSession .., reply⟩ => reply = .ok 0
  | _ => False

/-- When every attempt collides nothing else has happened, and `Create` gives
up. -/
theorem AllocatePoint.exhausted_inv {outcome : Except Err Session}
    (hpoint : AllocatePoint userId now absoluteExpiry deadline n trace (.inr outcome)) :
    collisions trace ≤ n ∧ (collisions trace = n → outcome = notAllocated ∧
      ∀ step ∈ trace, Harmless step) := by
  generalize hresult : (Sum.inr outcome : Call ⊕ Except Err Session) = point at hpoint
  induction hpoint with
  | exhausted =>
      cases hresult
      simp [collisions]
  | @collision n sess hsess tail point hnext ih =>
      obtain ⟨hle, hall⟩ := ih hresult
      have hcount : collisions (draws sess ++ ⟨createCall sess deadline, .ok 0⟩ :: tail) =
          collisions tail + 1 := by
        simp [collisions, draws, createCall]
      rw [hcount]
      refine ⟨by omega, fun heq => ?_⟩
      obtain ⟨hout, htail⟩ := hall (by omega)
      refine ⟨hout, ?_⟩
      simp only [draws, createCall, List.cons_append, List.nil_append, List.mem_cons,
        forall_eq_or_imp]
      exact ⟨trivial, trivial, rfl, htail⟩
  | @retry n sess hsess created hcollision hdropped hodd time hearly tail point hnext ih =>
      obtain ⟨hle, -⟩ := ih hresult
      have hcount : collisions (draws sess ++ ⟨createCall sess deadline, .ok created⟩ ::
          ⟨.now, time⟩ :: tail) = collisions tail := by
        simp [collisions, draws, createCall, hcollision]
      rw [hcount]
      exact ⟨by omega, fun heq => absurd heq (by omega)⟩
  | scriptFailed | droppedDone | done =>
      cases hresult
      simp [collisions, draws, createCall]
  | lateDone n hsess hcollision hdropped hlate reply =>
      cases hresult
      simp [collisions, draws, createCall, hcollision]
  | _ => cases hresult

theorem AllocatePoint.ok_candidate
    (hpoint : AllocatePoint userId now absoluteExpiry deadline n trace (.inr (.ok sess))) :
    sess = candidate userId now absoluteExpiry sess.id sess.csrfToken := by
  generalize hresult : (Sum.inr (Except.ok sess) : Call ⊕ Except Err Session) = point at hpoint
  induction hpoint with
  | done n hsess hearly =>
      cases hresult
      exact hsess
  | collision _ _ ih | retry _ _ _ _ _ _ ih => exact ih hresult
  | _ => cases hresult

end Allocate

/-- The points of `Create`: a clock reading, then the attempts. -/
inductive CreatePoint (userId : UUID) (idleTTL absoluteTTL : ℤ) :
    List Step → Call ⊕ Except Err Session → Prop
  | clock : CreatePoint userId idleTTL absoluteTTL [] (.inl .now)
  | refused (now : ℤ) (httl : absoluteTTL ≤ 0) :
      CreatePoint userId idleTTL absoluteTTL [⟨.now, now⟩]
        (.inr (.error (.message "redis: session absolute ttl must be positive")))
  | noDeadline {now : ℤ} {err : Err} (httl : 0 < absoluteTTL)
      (hdeadline : sessionDeadline idleTTL (now + absoluteTTL) now = .error err) :
      CreatePoint userId idleTTL absoluteTTL [⟨.now, now⟩] (.inr (.error err))
  | attempt {now deadline : ℤ} (httl : 0 < absoluteTTL)
      (hdeadline : sessionDeadline idleTTL (now + absoluteTTL) now = .ok deadline)
      {tail : List Step} {point : Call ⊕ Except Err Session}
      (hpoint : AllocatePoint userId now (now + absoluteTTL) deadline 4 tail point) :
      CreatePoint userId idleTTL absoluteTTL (⟨.now, now⟩ :: tail) point

theorem create_point {userId : UUID} {idleTTL absoluteTTL : ℤ}
    (hreach : (create userId idleTTL absoluteTTL).Reaches trace point) :
    CreatePoint userId idleTTL absoluteTTL trace point := by
  simp only [create, Proc.perform_bind, Proc.reaches_call] at hreach
  rcases hreach with ⟨rfl, rfl⟩ | ⟨now, tail, rfl, hreach⟩
  · exact .clock
  split at hreach
  · rename_i httl
    obtain ⟨rfl, rfl⟩ := hreach
    exact .refused now httl
  · rename_i httl
    split at hreach
    · rename_i err hdeadline
      obtain ⟨rfl, rfl⟩ := hreach
      exact .noDeadline (not_le.mp httl) hdeadline
    · rename_i deadline hdeadline
      exact .attempt (not_le.mp httl) hdeadline (allocate_point hreach)

/-! ## Get -/

/-- The answered calls of a lookup that finds a record before the record's
absolute expiry. -/
def foundSteps (id : Bytes) (record : Record) (time : ℤ) : List Step :=
  [⟨.hGetAll (sessKey id), .ok (some record)⟩, ⟨.now, time⟩]

inductive GetPoint (id : Bytes) : List Step → Call ⊕ Except Err (Session × Bytes) → Prop
  | empty (hid : id = []) : GetPoint id [] (.inr (.error .sessionNotFound))
  | lookup (hid : id ≠ []) : GetPoint id [] (.inl (.hGetAll (sessKey id)))
  | failed (hid : id ≠ []) (err : Err) :
      GetPoint id [⟨.hGetAll (sessKey id), .error err⟩]
        (.inr (.error (.wrap "redis: get session" err)))
  | missing (hid : id ≠ []) :
      GetPoint id [⟨.hGetAll (sessKey id), .ok none⟩] (.inr (.error .sessionNotFound))
  | malformed (hid : id ≠ []) {record : Record} {err : Err}
      (hdecode : decodeRecord id record = .error err) :
      GetPoint id [⟨.hGetAll (sessKey id), .ok (some record)⟩] (.inr (.error err))
  | clock (hid : id ≠ []) {record : Record} {sess : Session}
      (hdecode : decodeRecord id record = .ok sess) :
      GetPoint id [⟨.hGetAll (sessKey id), .ok (some record)⟩] (.inl .now)
  | expired (hid : id ≠ []) {record : Record} {sess : Session} {time : ℤ}
      (hdecode : decodeRecord id record = .ok sess) (hexpired : sess.absoluteExpiry ≤ time) :
      GetPoint id (foundSteps id record time) (.inl (.del (sessKey id)))
  | expiredDone (hid : id ≠ []) {record : Record} {sess : Session} {time : ℤ}
      (hdecode : decodeRecord id record = .ok sess) (hexpired : sess.absoluteExpiry ≤ time)
      (reply : Except Err Unit) :
      GetPoint id (foundSteps id record time ++ [⟨.del (sessKey id), reply⟩])
        (.inr (.error .sessionNotFound))
  | found (hid : id ≠ []) {record : Record} {sess : Session} {time : ℤ}
      (hdecode : decodeRecord id record = .ok sess) (hlive : time < sess.absoluteExpiry) :
      GetPoint id (foundSteps id record time) (.inr (.ok (sess, record.absExp)))

theorem getWithRaw_point
    {point : Call ⊕ Except Err (Session × Bytes)} (hreach : (getWithRaw id).Reaches trace point) :
    GetPoint id trace point := by
  unfold getWithRaw at hreach
  split at hreach
  · rename_i hid
    obtain ⟨rfl, rfl⟩ := hreach
    exact .empty hid
  · rename_i hid
    simp only [Proc.perform_bind, Proc.reaches_call] at hreach
    rcases hreach with ⟨rfl, rfl⟩ | ⟨reply, tail, rfl, hreach⟩
    · exact .lookup hid
    rcases reply with err | _ | record
    · obtain ⟨rfl, rfl⟩ := hreach
      exact .failed hid err
    · obtain ⟨rfl, rfl⟩ := hreach
      exact .missing hid
    · dsimp only at hreach
      split at hreach
      · rename_i err hdecode
        obtain ⟨rfl, rfl⟩ := hreach
        exact .malformed hid hdecode
      · rename_i sess hdecode
        rcases hreach with ⟨rfl, rfl⟩ | ⟨time, tail, rfl, hreach⟩
        · exact .clock hid hdecode
        dsimp only at hreach
        split at hreach
        · rename_i hexpired
          rcases hreach with ⟨rfl, rfl⟩ | ⟨reply, tail, rfl, rfl, rfl⟩
          · exact .expired hid hdecode hexpired
          · exact .expiredDone hid hdecode hexpired reply
        · rename_i hlive
          obtain ⟨rfl, rfl⟩ := hreach
          exact .found hid hdecode (not_le.mp hlive)

theorem get_call {request : Call}
    (hreach : (get id).Reaches trace (.inl request)) : GetPoint id trace (.inl request) :=
  getWithRaw_point hreach.of_map

theorem get_result {result : Except Err Session} (hreach : (get id).Reaches trace (.inr result)) :
    ∃ outcome, GetPoint id trace (.inr outcome) ∧ result = outcome.map Prod.fst := by
  obtain ⟨outcome, hraw, rfl⟩ := Proc.reaches_map_result.mp hreach
  exact ⟨outcome, getWithRaw_point hraw, rfl⟩

/-! ## Touch -/

/-- The call that moves the deadline of a session. -/
def touchCall (id : Bytes) (record : Record) (deadline : ℤ) : Call :=
  .touchSession (sessKey id) record.absExp (unixMilli deadline)

/-- A lookup has found the record of `sess`. -/
abbrev Fetched (id : Bytes) (record : Record) (time : ℤ) (sess : Session) : Prop :=
  GetPoint id (foundSteps id record time) (.inr (.ok (sess, record.absExp)))

inductive TouchPoint (id : Bytes) (idleTTL : ℤ) : List Step → Call ⊕ Except Err Unit → Prop
  | refused (httl : idleTTL ≤ 0) :
      TouchPoint id idleTTL []
        (.inr (.error (.message "redis: session idle ttl must be positive")))
  | reading (httl : 0 < idleTTL) {trace : List Step} {request : Call}
      (hget : GetPoint id trace (.inl request)) : TouchPoint id idleTTL trace (.inl request)
  | unread (httl : 0 < idleTTL) {trace : List Step} {err : Err}
      (hget : GetPoint id trace (.inr (.error err))) :
      TouchPoint id idleTTL trace (.inr (.error err))
  | clock (httl : 0 < idleTTL) {record : Record} {sess : Session} {time : ℤ}
      (hget : Fetched id record time sess) :
      TouchPoint id idleTTL (foundSteps id record time) (.inl .now)
  | noDeadline (httl : 0 < idleTTL) {record : Record} {sess : Session} {time now : ℤ} {err : Err}
      (hget : Fetched id record time sess)
      (hdeadline : sessionDeadline idleTTL sess.absoluteExpiry now = .error err)
      (hlive : now < sess.absoluteExpiry) :
      TouchPoint id idleTTL (foundSteps id record time ++ [⟨.now, now⟩]) (.inr (.error err))
  | expired (httl : 0 < idleTTL) {record : Record} {sess : Session} {time now : ℤ}
      (hget : Fetched id record time sess)
      (hexpired : sess.absoluteExpiry ≤ now) :
      TouchPoint id idleTTL (foundSteps id record time ++ [⟨.now, now⟩])
        (.inl (.del (sessKey id)))
  | expiredDone (httl : 0 < idleTTL) {record : Record} {sess : Session} {time now : ℤ}
      (hget : Fetched id record time sess)
      (hexpired : sess.absoluteExpiry ≤ now) (reply : Except Err Unit) :
      TouchPoint id idleTTL (foundSteps id record time ++ [⟨.now, now⟩,
        ⟨.del (sessKey id), reply⟩]) (.inr (.error .sessionNotFound))
  | script (httl : 0 < idleTTL) {record : Record} {sess : Session} {time now deadline : ℤ}
      (hget : Fetched id record time sess)
      (hdeadline : sessionDeadline idleTTL sess.absoluteExpiry now = .ok deadline) :
      TouchPoint id idleTTL (foundSteps id record time ++ [⟨.now, now⟩])
        (.inl (touchCall id record deadline))
  | scriptFailed (httl : 0 < idleTTL) {record : Record} {sess : Session}
      {time now deadline : ℤ} (err : Err)
      (hget : Fetched id record time sess)
      (hdeadline : sessionDeadline idleTTL sess.absoluteExpiry now = .ok deadline) :
      TouchPoint id idleTTL (foundSteps id record time ++ [⟨.now, now⟩,
        ⟨touchCall id record deadline, .error err⟩])
        (.inr (.error (.wrap "redis: touch session" err)))
  | gone (httl : 0 < idleTTL) {record : Record} {sess : Session} {time now deadline touched : ℤ}
      (hget : Fetched id record time sess)
      (hdeadline : sessionDeadline idleTTL sess.absoluteExpiry now = .ok deadline)
      (htouched : touched ≠ 1) :
      TouchPoint id idleTTL (foundSteps id record time ++ [⟨.now, now⟩,
        ⟨touchCall id record deadline, .ok touched⟩]) (.inr (.error .sessionNotFound))
  | check (httl : 0 < idleTTL) {record : Record} {sess : Session} {time now deadline : ℤ}
      (hget : Fetched id record time sess)
      (hdeadline : sessionDeadline idleTTL sess.absoluteExpiry now = .ok deadline) :
      TouchPoint id idleTTL (foundSteps id record time ++ [⟨.now, now⟩,
        ⟨touchCall id record deadline, .ok 1⟩]) (.inl .now)
  | late (httl : 0 < idleTTL) {record : Record} {sess : Session} {time now deadline last : ℤ}
      (hget : Fetched id record time sess)
      (hdeadline : sessionDeadline idleTTL sess.absoluteExpiry now = .ok deadline)
      (hlate : deadline ≤ last) :
      TouchPoint id idleTTL (foundSteps id record time ++ [⟨.now, now⟩,
        ⟨touchCall id record deadline, .ok 1⟩, ⟨.now, last⟩]) (.inl (.del (sessKey id)))
  | lateDone (httl : 0 < idleTTL) {record : Record} {sess : Session}
      {time now deadline last : ℤ}
      (hget : Fetched id record time sess)
      (hdeadline : sessionDeadline idleTTL sess.absoluteExpiry now = .ok deadline)
      (hlate : deadline ≤ last) (reply : Except Err Unit) :
      TouchPoint id idleTTL (foundSteps id record time ++ [⟨.now, now⟩,
        ⟨touchCall id record deadline, .ok 1⟩, ⟨.now, last⟩, ⟨.del (sessKey id), reply⟩])
        (.inr (.error .sessionNotFound))
  | done (httl : 0 < idleTTL) {record : Record} {sess : Session} {time now deadline last : ℤ}
      (hget : Fetched id record time sess)
      (hdeadline : sessionDeadline idleTTL sess.absoluteExpiry now = .ok deadline)
      (hearly : last < deadline) :
      TouchPoint id idleTTL (foundSteps id record time ++ [⟨.now, now⟩,
        ⟨touchCall id record deadline, .ok 1⟩, ⟨.now, last⟩]) (.inr (.ok ()))

/-- A successful lookup ends in a found record. -/
theorem GetPoint.eq_foundSteps {raw : Bytes} (hget : GetPoint id trace (.inr (.ok (sess, raw)))) :
    ∃ record time, trace = foundSteps id record time ∧ raw = record.absExp ∧
      decodeRecord id record = .ok sess ∧ time < sess.absoluteExpiry := by
  cases hget with
  | found hid hdecode hlive => exact ⟨_, _, rfl, rfl, hdecode, hlive⟩

theorem touch_point {idleTTL : ℤ}
    {point : Call ⊕ Except Err Unit} (hreach : (touch id idleTTL).Reaches trace point) :
    TouchPoint id idleTTL trace point := by
  unfold touch at hreach
  split at hreach
  · rename_i httl
    obtain ⟨rfl, rfl⟩ := hreach
    exact .refused httl
  rename_i httl
  rw [not_le] at httl
  rw [Proc.reaches_bind] at hreach
  rcases hreach with ⟨request, hreach, rfl⟩ | ⟨outcome, front, tail, rfl, hfront, hreach⟩
  · exact .reading httl (getWithRaw_point hreach)
  have hget := getWithRaw_point hfront
  rcases outcome with err | ⟨sess, raw⟩
  · obtain ⟨rfl, rfl⟩ := hreach
    rw [List.append_nil]
    exact .unread httl hget
  obtain ⟨record, time, rfl, rfl, -, -⟩ := hget.eq_foundSteps
  simp only [Proc.perform_bind] at hreach
  rcases hreach with ⟨rfl, rfl⟩ | ⟨now, tail, rfl, hreach⟩
  · exact .clock httl hget
  dsimp only at hreach
  split at hreach
  · rename_i err hdeadline
    split at hreach
    · rename_i hexpired
      rcases hreach with ⟨rfl, rfl⟩ | ⟨reply, tail, rfl, rfl, rfl⟩
      · exact .expired httl hget hexpired
      · exact .expiredDone httl hget hexpired reply
    · rename_i hlive
      obtain ⟨rfl, rfl⟩ := hreach
      exact .noDeadline httl hget hdeadline (not_le.mp hlive)
  · rename_i deadline hdeadline
    rcases hreach with ⟨rfl, rfl⟩ | ⟨reply, tail, rfl, hreach⟩
    · exact .script httl hget hdeadline
    rcases reply with err | touched
    · obtain ⟨rfl, rfl⟩ := hreach
      exact .scriptFailed httl err hget hdeadline
    dsimp only at hreach
    split at hreach
    · rename_i htouched
      obtain ⟨rfl, rfl⟩ := hreach
      exact .gone httl hget hdeadline htouched
    rename_i htouched
    obtain rfl : touched = 1 := not_not.mp htouched
    rcases hreach with ⟨rfl, rfl⟩ | ⟨last, tail, rfl, hreach⟩
    · exact .check httl hget hdeadline
    dsimp only at hreach
    split at hreach
    · rename_i hlate
      rcases hreach with ⟨rfl, rfl⟩ | ⟨reply, tail, rfl, rfl, rfl⟩
      · exact .late httl hget hdeadline hlate
      · exact .lateDone httl hget hdeadline hlate reply
    · rename_i hlate
      obtain ⟨rfl, rfl⟩ := hreach
      exact .done httl hget hdeadline (not_le.mp hlate)

/-! ## Delete -/

inductive DeletePoint (id : Bytes) : List Step → Call ⊕ Except Err Unit → Prop
  | remove : DeletePoint id [] (.inl (.del (sessKey id)))
  | failed (err : Err) : DeletePoint id [⟨.del (sessKey id), .error err⟩]
      (.inr (.error (.wrap "redis: delete session" err)))
  | done : DeletePoint id [⟨.del (sessKey id), .ok ()⟩] (.inr (.ok ()))

theorem delete_point {point : Call ⊕ Except Err Unit}
    (hreach : (delete id).Reaches trace point) : DeletePoint id trace point := by
  simp only [delete, Proc.perform_bind, Proc.reaches_call] at hreach
  rcases hreach with ⟨rfl, rfl⟩ | ⟨reply, tail, rfl, hreach⟩
  · exact .remove
  rcases reply with err | _
  · obtain ⟨rfl, rfl⟩ := hreach
    exact .failed err
  · obtain ⟨rfl, rfl⟩ := hreach
    exact .done

end SecurePastebin.Session
