import SecurePastebin.Config.Numbers
import SecurePastebin.Session.Machine

/-!
# Configured sessions

Whether the life times of an accepted configuration give sessions that can be
used: `Create` with them succeeds, and `Get` finds what it has made.  The two
run by themselves, on a store that answers every command, and no time passes.
-/

namespace SecurePastebin.Session

open Text Uuid Calendar Base64
open Process Auth
open SecurePastebin.Configuration (Environment load load_eq_ok)

/-! ## A method by itself -/

/-- A random draw takes the next of the given tokens; every other call succeeds. -/
def healthy (draws : List Bytes) : Call → Option (Choice × List Bytes)
  | .randomToken => draws.head?.map fun raw => (.token raw, draws.tail)
  | _ => some (.ok, draws)

/-- A program by itself, with no time passing. -/
def alone {Value : Type} (store : Store) (draws : List Bytes) : Port Value → Option (Value × Store)
  | .ret value => some (value, store)
  | .call request next => do
      let (choice, rest) ← healthy draws request
      let (reply, after) ← exec store request choice
      alone after rest (next reply)

/-- `Create`, and `Get` of the session it returns. -/
def createThenGet (store : Store) (draws : List Bytes) (userId : UUID) (idleTTL absoluteTTL : ℤ) :
    Option (Except Err Session × Option (Except Err Session)) := do
  match ← alone store draws (create userId idleTTL absoluteTTL) with
  | (.error err, _) => return (.error err, none)
  | (.ok sess, after) =>
      let (found, _) ← alone after [] (get sess.id)
      return (.ok sess, some found)

section Alone

variable {Value : Type} (store : Store) (draws : List Bytes)

theorem alone_now (next : ℤ → Port Value) :
    alone store draws (.call .now next) = alone store draws (next store.clock) := rfl

theorem alone_draw {raw : Bytes} (hraw : raw.length = sessionTokenBytes)
    (next : Bytes → Port Value) :
    alone store (raw :: draws) (.call .randomToken next) =
      alone store draws (next (encode rawURLEncoding raw)) := by
  have hexec : exec store .randomToken (.token raw) = some (encode rawURLEncoding raw, store) :=
    if_pos hraw
  simp [alone, healthy, hexec]

theorem alone_createSession (key : Bytes) (record : Record) (deadline : ℤ)
    (next : Except Err ℤ → Port Value) :
    alone store draws (.call (.createSession key record deadline) next) =
      alone ⟨store.clock, (createSessionScript store.keys store.clock key record deadline).2⟩ draws
        (next (.ok (createSessionScript store.keys store.clock key record deadline).1)) := rfl

theorem alone_hGetAll (key : Bytes) (next : Except Err (Option Record) → Port Value) :
    alone store draws (.call (.hGetAll key) next) =
      alone store draws (next (.ok ((store.find key).map (·.value)))) := rfl

end Alone

/-! ## Create -/

/-- One of the identifiers drawn in so many attempts is not in use. -/
def Fresh (store : Store) (draws : List Bytes) (attempts : ℕ) : Prop :=
  ∃ attempt < attempts, ∃ raw, draws[2 * attempt]? = some raw ∧
    store.find (sessKey (encode rawURLEncoding raw)) = none

variable {store : Store} {draws : List Bytes} {userId : UUID}

theorem Fresh.of_taken {id csrf : Bytes} {rest : List Bytes} {attempts : ℕ}
    (hfresh : Fresh store (id :: csrf :: rest) (attempts + 1))
    (htaken : store.find (sessKey (encode rawURLEncoding id)) ≠ none) :
    Fresh store rest attempts := by
  obtain ⟨attempt, hlt, raw, hraw, hnone⟩ := hfresh
  cases attempt with
  | zero =>
      cases hraw
      exact absurd hnone htaken
  | succ attempt => exact ⟨attempt, by omega, raw, by simpa [Nat.mul_add] using hraw, hnone⟩

/-- What `Create` leaves: the session it returns is stored until the deadline. -/
def Stored (clock absoluteExpiry deadline : ℤ) (userId : UUID) (sess : Session) (after : Store) :
    Prop :=
  sess.userId = userId ∧ sess.createdAt = clock ∧ sess.absoluteExpiry = absoluteExpiry ∧
    sess.id ≠ [] ∧ validSessionToken sess.csrfToken = true ∧ after.clock = clock ∧
    after.keys (sessKey sess.id) = some ⟨encodeRecord sess, deadline⟩

theorem createSessionScript_fresh {key : Bytes} {record : Record} {deadline : ℤ}
    (hfree : store.find key = none) (hdeadline : store.clock < deadline * millisecond) :
    createSessionScript store.keys store.clock key record deadline =
      (1, store.keys.set key ⟨record, deadline * millisecond⟩) := by
  have hnone : store.keys.find store.clock key = none := hfree
  rw [createSessionScript, if_neg (by simp [hnone]), if_neg (not_le.mpr hdeadline)]

theorem createSessionScript_taken {key : Bytes} {record : Record} {deadline : ℤ}
    (htaken : store.find key ≠ none) :
    createSessionScript store.keys store.clock key record deadline = (0, store.keys) := by
  have hsome : (store.keys.find store.clock key).isSome = true :=
    Option.isSome_iff_ne_none.mpr htaken
  rw [createSessionScript, if_pos hsome]

theorem encode_ne_nil {raw : Bytes} (hraw : raw.length = sessionTokenBytes) :
    encode rawURLEncoding raw ≠ [] := by
  intro hnil
  have hvalid := validSessionToken_encode hraw
  rw [hnil] at hvalid
  exact absurd hvalid (by decide)

/-- An identifier in use costs an attempt, the first one that is not is taken. -/
theorem alone_allocate (userId : UUID) (absoluteExpiry : ℤ) {deadline : ℤ}
    (hlate : store.clock < deadline) (hwhole : unixMilli deadline * millisecond = deadline) {attempts : ℕ}
    (hlength : ∀ raw ∈ draws, raw.length = sessionTokenBytes) (hdraws : 2 * attempts ≤ draws.length)
    (hfresh : Fresh store draws attempts) :
    ∃ sess after, alone store draws (allocate userId store.clock absoluteExpiry deadline attempts) =
        some (.ok sess, after) ∧
      Stored store.clock absoluteExpiry deadline userId sess after := by
  induction attempts generalizing draws with
  | zero =>
      obtain ⟨attempt, hlt, -⟩ := hfresh
      omega
  | succ attempts ih =>
      match draws, hdraws with
      | id :: csrf :: rest, hdraws =>
          have hid := hlength id (by simp)
          have hcsrf := hlength csrf (by simp)
          simp only [allocate, Proc.perform_bind]
          rw [alone_draw _ _ hid, alone_draw _ _ hcsrf, alone_createSession]
          by_cases htaken : store.find (sessKey (encode rawURLEncoding id)) = none
          · rw [createSessionScript_fresh htaken (hwhole.symm ▸ hlate)]
            let sess : Session := ⟨encode rawURLEncoding id, userId, store.clock, absoluteExpiry,
              encode rawURLEncoding csrf⟩
            let keys := store.keys.set (sessKey sess.id)
              ⟨encodeRecord sess, unixMilli deadline * millisecond⟩
            refine ⟨sess, ⟨store.clock, keys⟩, ?_, rfl, rfl, rfl, encode_ne_nil hid,
              validSessionToken_encode hcsrf, rfl, ?_⟩
            · simp [alone_now, not_le.mpr hlate, alone, sess, keys]
            · rw [← hwhole]
              exact Keyspace.set_self ..
          · rw [createSessionScript_taken htaken]
            simp only [if_true]
            exact ih (fun raw hraw => hlength raw (by simp [hraw]))
              (by simp only [List.length_cons] at hdraws; omega) (hfresh.of_taken htaken)

/-- `Create` once it has a deadline. -/
theorem alone_create (userId : UUID) {idleTTL absoluteTTL deadline : ℤ}
    (hlength : ∀ raw ∈ draws, raw.length = sessionTokenBytes) (hdraws : 8 ≤ draws.length)
    (hfresh : Fresh store draws 4) (hpositive : 0 < absoluteTTL)
    (hdeadline : sessionDeadline idleTTL (store.clock + absoluteTTL) store.clock = .ok deadline) :
    ∃ sess after, alone store draws (create userId idleTTL absoluteTTL) = some (.ok sess, after) ∧
      Stored store.clock (store.clock + absoluteTTL) deadline userId sess after := by
  simp only [create, Proc.perform_bind, alone_now, if_neg (not_le.mpr hpositive), hdeadline]
  exact alone_allocate userId _ (sessionDeadline_eq_ok.mp hdeadline).2.2.1
    (sessionDeadline_bounds hdeadline).1 hlength hdraws hfresh

/-! ## Get -/

variable {now absoluteExpiry deadline : ℤ} {sess : Session} {after : Store}

theorem Stored.find (hstored : Stored now absoluteExpiry deadline userId sess after)
    (hlate : now < deadline) :
    after.find (sessKey sess.id) = some ⟨encodeRecord sess, deadline⟩ := by
  obtain ⟨-, -, -, -, -, hclock, hkey⟩ := hstored
  exact Keyspace.find_of_le hkey (by rw [hclock]; exact hlate.le)

/-- A stored session is found as it is. -/
theorem alone_get (draws : List Bytes)
    (hstored : Stored now absoluteExpiry deadline userId sess after) (hlate : now < deadline)
    (hcreated : Representable now) (habs : Representable absoluteExpiry)
    (horder : now < absoluteExpiry) :
    alone after draws (get sess.id) = some (.ok sess, after) := by
  have hfind := hstored.find hlate
  obtain ⟨-, hcreatedAt, habsoluteExpiry, hid, hcsrf, hclock, -⟩ := hstored
  have hdecode := decodeRecord_encodeRecord (hcreatedAt ▸ hcreated) (habsoluteExpiry ▸ habs)
    (by rwa [hcreatedAt, habsoluteExpiry]) hcsrf
  have hlive : ¬ sess.absoluteExpiry ≤ after.clock := by
    rw [habsoluteExpiry, hclock]
    exact not_le.mpr horder
  simp only [get, Proc.map_eq_bind, getWithRaw, if_neg hid, Proc.perform_bind, Proc.call_bind,
    alone_hGetAll, hfind, Option.map_some, hdecode, alone_now, if_neg hlive]
  rfl

/-! ## Accepted settings -/

/-- The instant at which the year 2000 begins. -/
def year2000 : ℤ := 946684800 * second

theorem order_of_load {env : Environment} {c : Configuration.Config} (hload : load env = .ok c) :
    c.sessionIdleTTL ≤ c.sessionAbsoluteTTL := by
  obtain ⟨hnone, rfl⟩ := load_eq_ok env hload
  rw [Environment.problems, List.flatten_eq_nil_iff] at hnone
  have hsection : env.sessionTTLs.errs = [] := hnone _ (by simp)
  have horder := (List.append_eq_nil_iff.mp hsection).2
  simp only [Configuration.problem, ite_eq_right_iff, reduceCtorEq, imp_false,
    decide_eq_true_eq, not_lt] at horder
  exact horder

/-- A small number is no reduction of a thousand million times itself. -/
theorem eq_zero_of_dvd {n : ℤ} (hsmall : |n| < 2 ^ 64) (hdvd : 2 ^ 64 ∣ n * 1000000000 - n) :
    n = 0 := by
  have hcoprime : IsCoprime (2 ^ 64 : ℤ) 999999999 := by
    rw [Int.isCoprime_iff_gcd_eq_one]
    rfl
  rw [show n * 1000000000 - n = n * 999999999 by ring] at hdvd
  exact Int.eq_zero_of_abs_lt_dvd (hcoprime.dvd_of_dvd_mul_right hdvd) hsmall

/-- An instant is read back as it was written only if it has an int64 in
nanoseconds. -/
theorem lt_of_decodeSessionTime_encode {t : ℤ}
    (hread : decodeSessionTime (encodeSessionTime t) = some t) : t < 2 ^ 63 := by
  rw [decodeSessionTime, encodeSessionTime, parseInt64_formatInt (fits_wrap64 t), Option.map_some,
    Option.some.injEq] at hread
  have hdvd := dvd_sub_wrap64 t
  have hfits := (fits_wrap64 t).2
  generalize wrap64 t = n at hread hdvd hfits
  split_ifs at hread with hsmall
  · -- read as seconds
    subst hread
    rw [eq_zero_of_dvd (abs_lt.mpr ⟨by omega, by omega⟩) hdvd]
    decide
  · exact hread ▸ hfits

/-- What `Get` returns of a stored session is read off its record. -/
theorem decodeRecord_of_get {found : Session} {last : Store}
    (hstored : Stored now absoluteExpiry deadline userId sess after)
    (hlate : now < deadline) (hget : alone after draws (get sess.id) = some (.ok found, last)) :
    decodeRecord sess.id (encodeRecord sess) = .ok found := by
  have hfind := hstored.find hlate
  obtain ⟨-, -, -, hid, -⟩ := hstored
  simp only [get, Proc.map_eq_bind, getWithRaw, if_neg hid, Proc.perform_bind, Proc.call_bind,
    alone_hGetAll, hfind, Option.map_some] at hget
  cases hdecode : decodeRecord sess.id (encodeRecord sess) with
  | error err => simp [hdecode, alone, Except.map] at hget
  | ok read =>
      simp only [hdecode, Proc.call_bind, alone_now] at hget
      split_ifs at hget with hover
      · simp [alone, healthy, exec, answer, Except.map] at hget
      · simp only [Proc.pure_eq, Proc.ret_bind, alone, Except.map, Option.some.injEq,
          Prod.mk.injEq, Except.ok.injEq] at hget
        exact congrArg _ hget.1

/-- `Create` with accepted settings succeeds, unless none of the four identifiers
it draws is free, and `Get` returns the same session, if and only if the idle
deadline, rounded down to a millisecond, is after the clock reading and the
absolute expiry has an int64 in nanoseconds. -/
theorem accepted_settings_usable (store : Store) (draws : List Bytes) (userId : UUID)
    {env : Environment} {c : Configuration.Config} (hload : load env = .ok c)
    (hearly : year2000 ≤ store.clock) (hlength : ∀ raw ∈ draws, raw.length = sessionTokenBytes)
    (hdraws : 8 ≤ draws.length) (hfresh : Fresh store draws 4) :
    (∃ sess, createThenGet store draws userId c.sessionIdleTTL c.sessionAbsoluteTTL =
        some (.ok sess, some (.ok sess)) ∧ sess.userId = userId) ↔
      store.clock < truncate (store.clock + c.sessionIdleTTL) millisecond ∧
        store.clock + c.sessionAbsoluteTTL < 2 ^ 63 := by
  have horder := order_of_load hload
  have hmin : min (store.clock + c.sessionIdleTTL) (store.clock + c.sessionAbsoluteTTL) =
      store.clock + c.sessionIdleTTL := min_eq_left (by omega)
  constructor
  · rintro ⟨sess, hboth, -⟩
    by_cases hpositive : 0 < c.sessionAbsoluteTTL
    · cases hdeadline : sessionDeadline c.sessionIdleTTL
          (store.clock + c.sessionAbsoluteTTL) store.clock with
      | error err =>
          simp [createThenGet, create, Proc.perform_bind, alone_now, not_le.mpr hpositive,
            hdeadline, alone] at hboth
      | ok deadline =>
          obtain ⟨made, after, hfirst, hstored⟩ :=
            alone_create userId hlength hdraws hfresh hpositive hdeadline
          obtain ⟨-, -, hlate, htruncate⟩ := sessionDeadline_eq_ok.mp hdeadline
          simp only [createThenGet, hfirst, Option.bind_eq_bind, Option.bind_some,
            Option.bind_eq_some_iff, Prod.exists] at hboth
          obtain ⟨found, last, hget, hsame⟩ := hboth
          cases hsame
          have hread := (decodeRecord_eq_ok (decodeRecord_of_get hstored hlate hget)).2
          refine ⟨?_, ?_⟩
          · rwa [htruncate, hmin] at hlate
          · have hfits := lt_of_decodeSessionTime_encode hread
            rwa [hstored.2.2.1] at hfits
    · simp [createThenGet, create, Proc.perform_bind, alone_now, not_lt.mp hpositive, alone]
        at hboth
  · rintro ⟨hlate, habs⟩
    have hle : truncate (store.clock + c.sessionIdleTTL) millisecond ≤
        store.clock + c.sessionIdleTTL := truncate_le (by decide)
    have hepoch : 1000000000000 ≤ year2000 := by decide
    have hdeadline : sessionDeadline c.sessionIdleTTL (store.clock + c.sessionAbsoluteTTL)
        store.clock = .ok (truncate (store.clock + c.sessionIdleTTL) millisecond) :=
      sessionDeadline_eq_ok.mpr ⟨by omega, by omega, hlate, by rw [hmin]⟩
    obtain ⟨sess, after, hfirst, hstored⟩ :=
      alone_create userId hlength hdraws hfresh (by omega) hdeadline
    have hget := alone_get [] hstored hlate ⟨by omega, by omega⟩ ⟨by omega, habs⟩ (by omega)
    refine ⟨sess, ?_, hstored.1⟩
    simp only [createThenGet, hfirst, Option.bind_eq_bind, Option.bind_some, hget]
    rfl

namespace Sample

/-- The sample environment with these life times of a session; the two texts are
all `time.ParseDuration` is asked to read. -/
def settings (idle absolute : String × ℤ) : Environment :=
  { Configuration.Sample.environmentWith
      [("SESSION_IDLE_TTL", idle.1), ("SESSION_ABSOLUTE_TTL", absolute.1)] with
    parseDuration := fun text =>
      if text = ascii idle.1 then some idle.2
      else if text = ascii absolute.1 then some absolute.2 else none }

/-- An idle time of one millisecond. -/
def shortest : Environment := settings ("1ms", millisecond) ("12h", 12 * Configuration.hour)

def idleZero : Environment := settings ("0s", 0) ("12h", 12 * Configuration.hour)

/-- The absolute time is the longest that is read. -/
def longest : Environment :=
  settings ("8h", 8 * Configuration.hour) ("2562047h", 2562047 * Configuration.hour)

def tokens : List Bytes := (List.range 8).map fun i => List.replicate 32 i.toUInt8

/-- `Create` and `Get` under a configuration. -/
def usable (c : Configuration.Config) : Option (Except Err Session × Option (Except Err Session)) :=
  createThenGet (.empty clock) tokens user c.sessionIdleTTL c.sessionAbsoluteTTL

end Sample

theorem accepted_settings_usable_sample :
    ∃ c sess, load Sample.shortest = .ok c ∧
      Sample.usable c = some (.ok sess, some (.ok sess)) := by
  have hload : load Sample.shortest = .ok Sample.shortest.config := if_pos (by decide +kernel)
  obtain ⟨sess, hsess, -⟩ := (accepted_settings_usable (.empty Sample.clock)
    Sample.tokens Sample.user hload (by decide +kernel) (by decide +kernel) (by decide +kernel)
    ⟨0, by decide, _, rfl, Keyspace.find_eq_none rfl _⟩).mpr (by decide +kernel)
  exact ⟨_, sess, hload, hsess⟩

/-- With an idle time of zero no session is ever created, and with the longest
absolute time every session is malformed when it is first used; both settings
are accepted. -/
theorem accepted_settings_unusable :
    (∃ c, load Sample.idleZero = .ok c ∧
        Sample.usable c =
          some (.error (.message "redis: session idle ttl must be positive"), none)) ∧
      ∃ c, load Sample.longest = .ok c ∧
        (Sample.usable c).map Prod.snd =
          some (some (.error (.message "redis: malformed session: invalid expiry ordering"))) :=
  ⟨⟨_, if_pos (by decide +kernel), by decide +kernel⟩,
    _, if_pos (by decide +kernel), by decide +kernel⟩

end SecurePastebin.Session
