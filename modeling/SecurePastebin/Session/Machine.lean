import SecurePastebin.Core.Interleaving
import SecurePastebin.Session.Points

/-!
# Interleaved session calls

Any number of `Create`, `Get`, `Touch` and `Delete` calls run interleaved, one
clock reading, random draw or Redis command at a time, against one keyspace.
Time passes between the steps, never backwards.  A command may fail without
having been executed, or be executed and have its reply lost; a random draw may
give any token, also one drawn before.
-/

namespace SecurePastebin.Session

open Text Uuid Calendar Base64
open Process Interleaving Auth

/-! ## The store -/

structure Store where
  clock : ℤ
  keys : Keyspace Record

def Store.empty (clock : ℤ) : Store := ⟨clock, fun _ => none⟩

/-- The record under `key`, unless it has expired. -/
def Store.find (store : Store) (key : Bytes) : Option (Keyspace.Entry Record) :=
  store.keys.find store.clock key

/-- How a call turns out. -/
inductive Choice where
  | ok
  | fail (text : String)
  | lost (text : String)
  | token (raw : Bytes)
  deriving DecidableEq

/-- Whether the call is executed at all. -/
def Choice.executes : Choice → Bool
  | .fail _ => false
  | _ => true

/-- What an executed call leaves in the keyspace. -/
def effect (store : Store) : Call → Keyspace Record
  | .createSession key record deadline =>
      (createSessionScript store.keys store.clock key record deadline).2
  | .touchSession key absExp deadline =>
      (touchSessionScript store.keys store.clock key absExp deadline).2
  | .del key => store.keys.del key
  | _ => store.keys

/-- What an executed call replies; the draws are made elsewhere. -/
def answer (store : Store) : (request : Call) → Option request.Reply
  | .now => some store.clock
  | .randomToken => none
  | .createSession key record deadline =>
      some (.ok (createSessionScript store.keys store.clock key record deadline).1)
  | .hGetAll key => some (.ok ((store.find key).map (·.value)))
  | .touchSession key absExp deadline =>
      some (.ok (touchSessionScript store.keys store.clock key absExp deadline).1)
  | .del _ => some (.ok ())

/-- The reply of a command that failed or whose reply was lost. -/
def failure (text : String) : (request : Call) → Option request.Reply
  | .now => none
  | .randomToken => none
  | .createSession .. => some (.error (.message text))
  | .hGetAll .. => some (.error (.message text))
  | .touchSession .. => some (.error (.message text))
  | .del .. => some (.error (.message text))

def exec (store : Store) (request : Call) (choice : Choice) : Option (request.Reply × Store) :=
  match choice, request with
  | .ok, request => (answer store request).map (·, { store with keys := effect store request })
  | .fail text, request => (failure text request).map (·, store)
  | .lost text, request =>
      (failure text request).map (·, { store with keys := effect store request })
  | .token raw, .randomToken =>
      if raw.length = sessionTokenBytes then some (encode rawURLEncoding raw, store) else none
  | .token _, _ => none

/-! ## The calls -/

inductive Op where
  | create (userId : UUID) (idleTTL absoluteTTL : ℤ)
  | get (id : Bytes)
  | touch (id : Bytes) (idleTTL : ℤ)
  | delete (id : Bytes)
  deriving DecidableEq

inductive Result where
  | session (outcome : Except Err Session)
  | done (outcome : Except Err Unit)
  deriving DecidableEq

section Points

variable {outcome : Except Err Session} {idleTTL absoluteTTL : ℤ} {trace : List Step}
  {request : Call} {id : Bytes}

namespace Result

def session? : Result → Option (Except Err Session)
  | .session outcome => some outcome
  | .done _ => none

/-- The session of a `Create` or `Get` that went through. -/
def sessionOk? (result : Result) : Option Session := result.session?.bind Except.toOption

theorem bind_session? {found : Option Result} :
    found.bind session? = some outcome ↔ found = some (.session outcome) := by
  rcases found with _ | ⟨_ | _⟩ <;> simp [session?]

theorem bind_sessionOk? {found : Option Result} {sess : Session} :
    found.bind sessionOk? = some sess ↔ found = some (.session (.ok sess)) := by
  rcases found with _ | ⟨⟨_ | _⟩ | _⟩ <;> simp [sessionOk?, session?, Except.toOption]

end Result

def program : Op → Port Result
  | .create userId idleTTL absoluteTTL => .session <$> create userId idleTTL absoluteTTL
  | .get id => .session <$> get id
  | .touch id idleTTL => .done <$> touch id idleTTL
  | .delete id => .done <$> delete id

/-- Time passes. -/
abbrev Env := ℕ

def machine : Machine Store Op Call Call.Reply Choice Env Result where
  program := program
  exec := exec
  env store elapsed := some { store with clock := store.clock + elapsed }

abbrev Config := Interleaving.Config Store Op Call Call.Reply Result

abbrev Action := Interleaving.Action Op Choice Env

/-! ## Program points of the threads -/

theorem create_reaches {userId : UUID}
    (hreach : (machine.program (.create userId idleTTL absoluteTTL)).Reaches trace (.inl request)) :
    CreatePoint userId idleTTL absoluteTTL trace (.inl request) :=
  create_point hreach.of_map

theorem get_reaches (hreach : (machine.program (.get id)).Reaches trace (.inl request)) :
    GetPoint id trace (.inl request) :=
  get_call hreach.of_map

theorem touch_reaches {idleTTL : ℤ}
    (hreach : (machine.program (.touch id idleTTL)).Reaches trace (.inl request)) :
    TouchPoint id idleTTL trace (.inl request) :=
  touch_point hreach.of_map

theorem delete_reaches (hreach : (machine.program (.delete id)).Reaches trace (.inl request)) :
    DeletePoint id trace (.inl request) :=
  delete_point hreach.of_map

theorem create_returns {userId : UUID}
    (hreach : (machine.program (.create userId idleTTL absoluteTTL)).Reaches trace
      (.inr (.session outcome))) :
    CreatePoint userId idleTTL absoluteTTL trace (.inr outcome) := by
  obtain ⟨found, hfound, ⟨⟩⟩ := Proc.reaches_map_result.mp hreach
  exact create_point hfound

theorem get_returns (hreach : (machine.program (.get id)).Reaches trace (.inr (.session outcome))) :
    ∃ raw, GetPoint id trace (.inr raw) ∧ outcome = raw.map Prod.fst := by
  obtain ⟨found, hfound, ⟨⟩⟩ := Proc.reaches_map_result.mp hreach
  exact get_result hfound

theorem touch_returns {idleTTL : ℤ} {outcome : Except Err Unit}
    (hreach : (machine.program (.touch id idleTTL)).Reaches trace (.inr (.done outcome))) :
    TouchPoint id idleTTL trace (.inr outcome) := by
  obtain ⟨found, hfound, ⟨⟩⟩ := Proc.reaches_map_result.mp hreach
  exact touch_point hfound

end Points

/-! ## Effects -/

variable {store next : Store} {request : Call} {reply : request.Reply} {choice : Choice}

theorem exec_store (hexec : exec store request choice = some (reply, next)) :
    next = if choice.executes then { store with keys := effect store request } else store := by
  cases choice with
  | ok | fail text | lost text =>
      obtain ⟨_, -, heq⟩ := Option.map_eq_some_iff.mp hexec
      exact (Prod.ext_iff.mp heq).2.symm
  | token raw =>
      cases request <;> simp only [exec, reduceCtorEq] at hexec
      split at hexec
      · cases hexec
        rfl
      · cases hexec

theorem exec_clock (hexec : exec store request choice = some (reply, next)) :
    next.clock = store.clock := by
  rw [exec_store hexec]
  split <;> rfl

/-- What a reply that is no error says about the store. -/
def Observed (store : Store) : Step → Prop
  | ⟨.now, time⟩ => time = store.clock
  | ⟨.randomToken, token⟩ => validSessionToken token = true
  | ⟨.createSession key record deadline, reply⟩ => ∀ created, reply = .ok created →
      created = (createSessionScript store.keys store.clock key record deadline).1
  | ⟨.hGetAll key, reply⟩ => ∀ found, reply = .ok found → found = (store.find key).map (·.value)
  | ⟨.touchSession key absExp deadline, reply⟩ => ∀ touched, reply = .ok touched →
      touched = (touchSessionScript store.keys store.clock key absExp deadline).1
  | ⟨.del _, _⟩ => True

theorem answer_observed (hanswer : answer store request = some reply) :
    Observed store ⟨request, reply⟩ := by
  cases request <;> cases hanswer
  · rfl
  · rintro created ⟨⟩
    rfl
  · rintro found ⟨⟩
    rfl
  · rintro touched ⟨⟩
    rfl
  · trivial

theorem failure_observed {text : String} (hfailure : failure text request = some reply) :
    Observed store ⟨request, reply⟩ := by
  cases request <;> cases hfailure
  · rintro created ⟨⟩
  · rintro found ⟨⟩
  · rintro touched ⟨⟩
  · trivial

theorem exec_observed (hexec : exec store request choice = some (reply, next)) :
    Observed store ⟨request, reply⟩ := by
  cases choice with
  | ok =>
      obtain ⟨found, hanswer, heq⟩ := Option.map_eq_some_iff.mp hexec
      cases heq
      exact answer_observed hanswer
  | fail text | lost text =>
      obtain ⟨found, hfailure, heq⟩ := Option.map_eq_some_iff.mp hexec
      cases heq
      exact failure_observed hfailure
  | token raw =>
      cases request <;> simp only [exec, reduceCtorEq] at hexec
      split at hexec
      · rename_i hraw
        cases hexec
        exact validSessionToken_encode hraw
      · cases hexec

theorem executes_of_touched {key absExp : Bytes} {deadline touched : ℤ}
    (hexec : exec store (.touchSession key absExp deadline) choice = some (.ok touched, next)) :
    choice.executes = true := by
  cases choice with
  | fail text => simp [exec, failure] at hexec
  | _ => rfl

/-- The touch script replies 1 only for a record with the expected expiry. -/
theorem found_of_touched {keys : Keyspace Record} {now : ℤ} {key absExp : Bytes} {deadline : ℤ}
    (htouched : 1 = (touchSessionScript keys now key absExp deadline).1) :
    ∃ entry, keys.find now key = some entry ∧ entry.value.absExp = absExp := by
  unfold touchSessionScript at htouched
  split at htouched
  · cases htouched
  · rename_i entry hfound
    split_ifs at htouched with habs
    · cases htouched
    · exact ⟨entry, hfound, not_not.mp habs⟩
    · exact ⟨entry, hfound, not_not.mp habs⟩

/-! ## One key -/

/-- What an executed call does to one key. -/
inductive KeyEffect (store : Store) (key : Bytes) : Call → Option (Keyspace.Entry Record) → Prop
  | kept (request : Call) : KeyEffect store key request (store.keys key)
  | removed : KeyEffect store key (.del key) none
  | createDropped (record : Record) {deadline : ℤ} (habsent : store.find key = none)
      (hpast : deadline * millisecond ≤ store.clock) :
      KeyEffect store key (.createSession key record deadline) none
  | created (record : Record) {deadline : ℤ} (habsent : store.find key = none)
      (hahead : store.clock < deadline * millisecond) :
      KeyEffect store key (.createSession key record deadline)
        (some ⟨record, deadline * millisecond⟩)
  | touchDropped {entry : Keyspace.Entry Record} {deadline : ℤ}
      (hfound : store.find key = some entry) (hpast : deadline * millisecond ≤ store.clock) :
      KeyEffect store key (.touchSession key entry.value.absExp deadline) none
  | touched {entry : Keyspace.Entry Record} {deadline : ℤ}
      (hfound : store.find key = some entry) (hahead : store.clock < deadline * millisecond) :
      KeyEffect store key (.touchSession key entry.value.absExp deadline)
        (some ⟨entry.value, deadline * millisecond⟩)

/-- A call on another key leaves a key alone. -/
theorem createSessionScript_of_ne (keys : Keyspace Record) (now : ℤ) {key other : Bytes}
    (hne : key ≠ other) (record : Record) (deadline : ℤ) :
    (createSessionScript keys now other record deadline).2 key = keys key := by
  unfold createSessionScript
  split_ifs
  · rfl
  · exact Keyspace.del_of_ne keys hne
  · exact Keyspace.set_of_ne keys _ hne

theorem touchSessionScript_of_ne (keys : Keyspace Record) (now : ℤ) {key other : Bytes}
    (hne : key ≠ other) (absExp : Bytes) (deadline : ℤ) :
    (touchSessionScript keys now other absExp deadline).2 key = keys key := by
  unfold touchSessionScript
  split
  · rfl
  · split_ifs
    · rfl
    · exact Keyspace.del_of_ne keys hne
    · exact Keyspace.set_of_ne keys _ hne

theorem effect_key (store : Store) (key : Bytes) (request : Call) :
    KeyEffect store key request (effect store request key) := by
  cases request with
  | now | randomToken | hGetAll => exact .kept _
  | del other =>
      by_cases hkey : key = other
      · subst hkey
        rw [effect, Keyspace.del_self]
        exact .removed
      · rw [effect, Keyspace.del_of_ne _ hkey]
        exact .kept _
  | createSession other record deadline =>
      by_cases hkey : key = other
      · subst hkey
        simp only [effect, createSessionScript]
        split_ifs with hfound hpast
        · exact .kept _
        · dsimp only
          rw [Keyspace.del_self]
          exact .createDropped record (Option.not_isSome_iff_eq_none.mp hfound) hpast
        · dsimp only
          rw [Keyspace.set_self]
          exact .created record (Option.not_isSome_iff_eq_none.mp hfound) (not_le.mp hpast)
      · rw [effect, createSessionScript_of_ne _ _ hkey]
        exact .kept _
  | touchSession other absExp deadline =>
      by_cases hkey : key = other
      · subst hkey
        simp only [effect, touchSessionScript]
        split
        · exact .kept _
        · rename_i entry hfound
          split_ifs with habs hpast
          · exact .kept _
          · obtain rfl := not_not.mp habs
            dsimp only
            rw [Keyspace.del_self]
            exact .touchDropped hfound hpast
          · obtain rfl := not_not.mp habs
            dsimp only
            rw [Keyspace.set_self]
            exact .touched hfound (not_le.mp hpast)
      · rw [effect, touchSessionScript_of_ne _ _ hkey]
        exact .kept _

/-- A step leaves a key alone or does to it what its call does. -/
theorem exec_key (hexec : exec store request choice = some (reply, next)) (key : Bytes) :
    next.keys key = store.keys key ∨
      choice.executes = true ∧ KeyEffect store key request (next.keys key) := by
  rw [exec_store hexec]
  split
  · rename_i hexecutes
    exact .inr ⟨hexecutes, effect_key store key request⟩
  · exact .inl rfl

/-! ## A concrete session -/

namespace Sample

/-- Some instant in 2023. -/
def clock : ℤ := 1700000000000000000

def start : Config := .initial (.empty clock)

def user : UUID := .filled 1

def raw : Bytes := List.replicate 32 7

def id : Bytes := encode rawURLEncoding raw

/-- Thread `i` makes that many calls, none of which fails. -/
def calls (i count : ℕ) : List Action := List.replicate count (.advance i .ok)

/-- One `Create` from its invocation as thread `i` to its script, which draws
the sample identifier. -/
def storing (i : ℕ) (idleTTL absoluteTTL : ℤ) : List Action :=
  .invoke (.create user idleTTL absoluteTTL) :: calls i 1 ++
    [.advance i (.token raw), .advance i (.token raw)] ++ calls i 1

end Sample

end SecurePastebin.Session
