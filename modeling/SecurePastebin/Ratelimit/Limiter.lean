import SecurePastebin.Core.Calendar
import SecurePastebin.Core.FixedWindow
import SecurePastebin.Core.Process

/-!
# The rate limiter

`internal/ratelimit`: one Redis counter for each scope and key, incremented and
given its expiry by one script.  Redis tells time in whole milliseconds, and a
key is there up to and including its expiry instant.  What is logged is left
out.
-/

namespace SecurePastebin.Ratelimit

open Text Calendar Process FixedWindow

/-! ## Rules and decisions -/

inductive Scope where
  | login
  | loginIP
  | pasteCreate
  | challengeIssue
  | unlock
  | unlockIP
  | verify
  | verifyGlobal
  | delete
  deriving DecidableEq

def Scope.text : Scope → Bytes
  | .login => ascii "login"
  | .loginIP => ascii "login_ip"
  | .pasteCreate => ascii "paste_create"
  | .challengeIssue => ascii "challenge_issue"
  | .unlock => ascii "unlock"
  | .unlockIP => ascii "unlock_ip"
  | .verify => ascii "verify"
  | .verifyGlobal => ascii "verify_global"
  | .delete => ascii "delete"

structure Rule where
  limit : ℤ
  window : ℤ
  deriving DecidableEq

/-- `rule.Window.Milliseconds()`. -/
def Rule.windowMillis (rule : Rule) : ℤ := rule.window.tdiv millisecond

structure Decision where
  allowed : Bool
  retryAfter : ℤ
  deriving DecidableEq

/-- The limits of `config.RateConfig`. -/
structure RateConfig where
  loginPerMin : ℤ
  loginIPPerMin : ℤ
  pastePerMin : ℤ
  challengePerMin : ℤ
  unlockPer15Min : ℤ
  unlockIPPer15Min : ℤ
  verifyPerMin : ℤ
  verifyGlobalPerMin : ℤ
  deletePerMin : ℤ

def rulesFromConfig (c : RateConfig) : Scope → Option Rule
  | .login => some ⟨c.loginPerMin, 60 * second⟩
  | .loginIP => some ⟨c.loginIPPerMin, 60 * second⟩
  | .pasteCreate => some ⟨c.pastePerMin, 60 * second⟩
  | .challengeIssue => some ⟨c.challengePerMin, 60 * second⟩
  | .unlock => some ⟨c.unlockPer15Min, 15 * 60 * second⟩
  | .unlockIP => some ⟨c.unlockIPPer15Min, 15 * 60 * second⟩
  | .verify => some ⟨c.verifyPerMin, 60 * second⟩
  | .verifyGlobal => some ⟨c.verifyGlobalPerMin, 60 * second⟩
  | .delete => some ⟨c.deletePerMin, 60 * second⟩

/-- The configured rules, and whether there is a client to ask. -/
structure Limiter where
  rules : Scope → Option Rule
  connected : Bool

def failClosedRetry : ℤ := 5 * second

def failClosedDecision : Decision := ⟨false, failClosedRetry⟩

/-! ## Allow -/

/-- An element of a script's reply: an integer, or anything else. -/
inductive Value where
  | int (value : ℤ)
  | other
  deriving DecidableEq

def parseWindowResult : List Value → Option (ℤ × ℤ)
  | [.int count, .int ttlMillis] =>
      if count ≤ 0 ∨ ttlMillis ≤ 0 then none else some (count, ttlMillis)
  | _ => none

inductive Call where
  | fixedWindow (key : Bytes) (windowMillis : ℤ)
  deriving DecidableEq

abbrev Call.Reply : Call → Type
  | .fixedWindow .. => Except String (List Value)

abbrev Port := Proc Call Call.Reply

abbrev Step := Process.Entry Call Call.Reply

def bucketKey (scope : Scope) (key : Bytes) : Bytes :=
  ascii "rl:" ++ scope.text ++ ascii ":" ++ key

/-- What the reply of the script comes to.  The duration is computed in 64
bits. -/
def decision (rule : Rule) : Except String (List Value) → Decision
  | .error _ => failClosedDecision
  | .ok result =>
    match parseWindowResult result with
    | none => failClosedDecision
    | some (count, ttlMillis) =>
      if rule.limit < count then ⟨false, (ttlMillis * millisecond).bmod (2 ^ 64)⟩ else ⟨true, 0⟩

def allow (limiter : Limiter) (scope : Scope) (key : Bytes) : Port Decision :=
  match limiter.rules scope with
  | none => .ret ⟨true, 0⟩
  | some rule =>
    if rule.limit ≤ 0 then .ret ⟨true, 0⟩
    else if rule.windowMillis ≤ 0 then .ret failClosedDecision
    else if !limiter.connected then .ret failClosedDecision
    else decision rule <$> Proc.perform (.fixedWindow (bucketKey scope key) rule.windowMillis)

theorem parseWindowResult_eq_some (values : List Value) (count ttl : ℤ) :
    parseWindowResult values = some (count, ttl) ↔
      values = [.int count, .int ttl] ∧ 1 ≤ count ∧ 0 < ttl := by
  unfold parseWindowResult
  split
  · rename_i found left
    split_ifs with hbad
    · simp only [List.cons.injEq, Value.int.injEq, and_true, false_iff]
      omega
    · simp only [Option.some.injEq, Prod.mk.injEq, List.cons.injEq, Value.int.injEq, and_true]
      omega
  · rename_i hother
    simp only [reduceCtorEq, false_iff]
    rintro ⟨rfl, -⟩
    exact hother _ _ rfl

/-- Only a well-formed reply with a count within the limit is allowed. -/
theorem allowed_iff (rule : Rule) (answer : Except String (List Value)) :
    (decision rule answer).allowed = true ↔
      ∃ count ttl, answer = .ok [.int count, .int ttl] ∧ 1 ≤ count ∧ count ≤ rule.limit ∧
        0 < ttl := by
  rcases answer with text | values
  · simp [decision, failClosedDecision]
  · simp only [decision, Except.ok.injEq]
    rcases hparse : parseWindowResult values with _ | ⟨count, ttl⟩
    · simp only [failClosedDecision, Bool.false_eq_true, false_iff]
      rintro ⟨count, ttl, hvalues, hcount, -, httl⟩
      rw [(parseWindowResult_eq_some values count ttl).mpr ⟨hvalues, hcount, httl⟩] at hparse
      cases hparse
    · obtain ⟨rfl, hcount, httl⟩ := (parseWindowResult_eq_some values count ttl).mp hparse
      dsimp only
      split_ifs with hlimit
      · simp only [List.cons.injEq, Value.int.injEq, and_true, false_iff]
        rintro ⟨_, _, ⟨rfl, rfl⟩, -, hle, -⟩
        omega
      · simp only [true_iff]
        exact ⟨count, ttl, rfl, hcount, not_lt.mp hlimit, httl⟩

/-! ## The script -/

/-- The counters, and for each key the hits so far, newest first, which nothing
reads. -/
structure Buckets where
  counters : Bytes → Option Counter
  hits : Bytes → List Hit

def Buckets.empty : Buckets := ⟨fun _ => none, fun _ => []⟩

def Buckets.record (buckets : Buckets) (now : ℤ) (key : Bytes) (after : Counter) : Buckets where
  counters := Function.update buckets.counters key (some after)
  hits := Function.update buckets.hits key (⟨now, after⟩ :: buckets.hits key)

/-- `fixedWindowScript`: the count and the remaining milliseconds.  `INCR`
refuses to count past the largest 64-bit integer. -/
def fixedWindowScript (buckets : Buckets) (now : ℤ) (key : Bytes) (windowMillis : ℤ) :
    Except String (ℤ × ℤ) × Buckets :=
  let after := hit windowMillis (buckets.counters key) now
  if 2 ^ 63 ≤ after.count then (.error "ERR increment or decrement would overflow", buckets)
  else (.ok (after.count, after.expireAt - now), buckets.record now key after)

/-- How a script call turns out: its reply arrives; it fails, executed or not;
or its reply is malformed, again executed or not. -/
inductive Choice where
  | ok
  | fail (executed : Bool) (text : String)
  | garbled (executed : Bool) (values : List Value)
  deriving DecidableEq

def Choice.executes : Choice → Bool
  | .ok => true
  | .fail executed _ => executed
  | .garbled executed _ => executed

def reply (buckets : Buckets) (clock : ℤ) (choice : Choice) :
    (request : Call) → Option request.Reply
  | .fixedWindow key windowMillis =>
    match choice with
    | .ok => some ((fixedWindowScript buckets (millis clock) key windowMillis).1.map
        fun (count, ttl) => [.int count, .int ttl])
    | .fail _ text => some (.error text)
    | .garbled _ values => if parseWindowResult values = none then some (.ok values) else none

def effect (buckets : Buckets) (clock : ℤ) : Call → Buckets
  | .fixedWindow key windowMillis => (fixedWindowScript buckets (millis clock) key windowMillis).2

def exec (buckets : Buckets) (clock : ℤ) (request : Call) (choice : Choice) :
    Option (request.Reply × Buckets) :=
  (reply buckets clock choice request).map
    (·, if choice.executes then effect buckets clock request else buckets)

/-! ## One key -/

section

variable {buckets next : Buckets} {clock : ℤ} {key : Bytes} {window : ℤ} {choice : Choice}
  {answer : Except String (List Value)}

/-- What a script call does to a key: nothing, or a hit. -/
inductive KeyEffect (buckets next : Buckets) (now : ℤ) (key : Bytes) : Call → Prop
  | kept (request : Call) (hcounter : next.counters key = buckets.counters key)
      (hhits : next.hits key = buckets.hits key) : KeyEffect buckets next now key request
  | hit (window : ℤ)
      (hcounter : next.counters key = some (FixedWindow.hit window (buckets.counters key) now))
      (hhits : next.hits key =
        ⟨now, FixedWindow.hit window (buckets.counters key) now⟩ :: buckets.hits key) :
      KeyEffect buckets next now key (.fixedWindow key window)

theorem script_key (buckets : Buckets) (now : ℤ) (key other : Bytes) (window : ℤ) :
    KeyEffect buckets (fixedWindowScript buckets now other window).2 now key
      (.fixedWindow other window) := by
  unfold fixedWindowScript
  dsimp only
  split_ifs
  · exact .kept _ rfl rfl
  · by_cases hkey : key = other
    · subst hkey
      exact .hit window (Function.update_self ..) (Function.update_self ..)
    · exact .kept _ (Function.update_of_ne hkey ..) (Function.update_of_ne hkey ..)

theorem exec_key {request : Call} {answer : request.Reply}
    (hexec : exec buckets clock request choice = some (answer, next)) (key : Bytes) :
    KeyEffect buckets next (millis clock) key request := by
  obtain ⟨found, -, heq⟩ := Option.map_eq_some_iff.mp hexec
  cases heq
  split
  · cases request
    exact script_key ..
  · exact .kept _ rfl rfl

/-- An allowed call has hit the counter, with a count within the limit and before
the expiry. -/
theorem exec_allowed {rule : Rule}
    (hexec : exec buckets clock (.fixedWindow key window) choice = some (answer, next))
    (hallowed : (decision rule answer).allowed = true) :
    choice = .ok ∧ ∃ after, after = FixedWindow.hit window (buckets.counters key) (millis clock) ∧
      next.hits key = ⟨millis clock, after⟩ :: buckets.hits key ∧
      (after.count : ℤ) ≤ rule.limit ∧ millis clock < after.expireAt := by
  obtain ⟨count, ttl, rfl, hcount, hlimit, httl⟩ := (allowed_iff rule answer).mp hallowed
  obtain ⟨found, hreply, heq⟩ := Option.map_eq_some_iff.mp hexec
  cases heq
  cases choice with
  | ok =>
      refine ⟨rfl, _, rfl, ?_⟩
      simp only [reply, fixedWindowScript, Option.some.injEq] at hreply
      simp only [Choice.executes, if_true, effect, fixedWindowScript]
      split_ifs at hreply ⊢ with hoverflow
      · cases hreply
      · simp only [Except.map, Except.ok.injEq, List.cons.injEq, Value.int.injEq, and_true] at hreply
        obtain ⟨rfl, rfl⟩ := hreply
        refine ⟨Function.update_self .., hlimit, by omega⟩
  | fail executed text => cases hreply
  | garbled executed values =>
      simp only [reply] at hreply
      split_ifs at hreply with hmalformed
      cases hreply
      rw [(parseWindowResult_eq_some _ count ttl).mpr ⟨rfl, hcount, httl⟩] at hmalformed
      cases hmalformed

end

/-- The hits on a key are a history under the window, up to now. -/
structure Tracked (window : ℤ) (buckets : Buckets) (now : ℤ) (key : Bytes) : Prop where
  history : History window (buckets.counters key) (buckets.hits key)
  past : ∀ found ∈ buckets.hits key, found.time ≤ now

theorem tracked_empty (window now : ℤ) (key : Bytes) : Tracked window .empty now key :=
  ⟨.nil, by simp [Buckets.empty]⟩

section

variable {buckets next : Buckets} {clock : ℤ} {key : Bytes} {window : ℤ} {choice : Choice}

theorem Tracked.later (htracked : Tracked window buckets (millis clock) key) {later : ℤ}
    (hlater : clock ≤ later) : Tracked window buckets (millis later) key where
  history := htracked.history
  past found hfound := (htracked.past found hfound).trans (millis_le_millis hlater)

/-- A script call keeps the history, if calls on the key use its window. -/
theorem Tracked.exec (htracked : Tracked window buckets (millis clock) key) {request : Call}
    {answer : request.Reply}
    (hwindow : ∀ other, request = .fixedWindow key other → other = window)
    (hexec : exec buckets clock request choice = some (answer, next)) :
    Tracked window next (millis clock) key := by
  have hkey := exec_key hexec key
  cases hkey with
  | kept _ hcounter hhits => exact ⟨by rw [hcounter, hhits]; exact htracked.history,
      by rw [hhits]; exact htracked.past⟩
  | hit other hcounter hhits =>
      obtain rfl := hwindow other rfl
      refine ⟨by rw [hcounter, hhits]; exact .cons htracked.history htracked.past, ?_⟩
      rw [hhits]
      intro found hfound
      rcases List.mem_cons.mp hfound with rfl | hfound
      · exact le_rfl
      · exact htracked.past found hfound

end

end SecurePastebin.Ratelimit
