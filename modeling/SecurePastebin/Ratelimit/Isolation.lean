import SecurePastebin.Auth.OidcState
import SecurePastebin.Core.Restriction
import SecurePastebin.Ratelimit.Window
import SecurePastebin.Session.Store
import SecurePastebin.Store.Bodies

/-!
# Buckets do not interfere

The decisions on one scope and key are those of the run in which nobody else
asks.  A bucket key determines its scope and key, and is none of the other keys
in the same Redis.
-/

namespace SecurePastebin.Ratelimit

open Text Uuid Calendar Process Interleaving
open FixedWindow

/-! ## Keys -/

/-- A paste and a client determine their unlock bucket. -/
theorem unlockKey_injective {id id' : UUID} {ip ip' : Bytes}
    (heq : bucketKey .unlock (id.text ++ ascii ":" ++ ip) =
      bucketKey .unlock (id'.text ++ ascii ":" ++ ip')) : id = id' ∧ ip = ip' := by
  have hlength : id.text.length = id'.text.length := by
    rw [UUID.length_text, UUID.length_text]
  have hkey := (bucketKey_injective heq).2
  rw [List.append_assoc, List.append_assoc] at hkey
  obtain ⟨htext, hrest⟩ := List.append_inj hkey hlength
  exact ⟨Uuid.text_injective htext, List.append_cancel_left hrest⟩

/-- Bucket keys start differently from the keys of bodies, sessions and login
states. -/
theorem bucketKey_ne_append {scope : Scope} {key rest : Bytes} {first : UInt8} {head : Bytes}
    (hfirst : first ≠ 114) : bucketKey scope key ≠ (first :: head) ++ rest := by
  intro heq
  have hhead : (bucketKey scope key).head? = some 114 := rfl
  rw [heq] at hhead
  exact hfirst (Option.some.inj hhead)

/-! ## One bucket of many -/

variable {limiter : Limiter} {scope : Scope} {key : Bytes}

/-- The stores show the same time and the same counter. -/
def SameBucket (scope : Scope) (key : Bytes) (store store' : Store) : Prop :=
  store.clock = store'.clock ∧
    store.buckets.counters (bucketKey scope key) = store'.buckets.counters (bucketKey scope key)

/-- The script on a key depends on nothing but the counter and the time. -/
theorem script_congr {buckets buckets' : Buckets} {now window : ℤ} {bucket : Bytes}
    (hcounter : buckets.counters bucket = buckets'.counters bucket) :
    (fixedWindowScript buckets now bucket window).1 =
        (fixedWindowScript buckets' now bucket window).1 ∧
      (fixedWindowScript buckets now bucket window).2.counters bucket =
        (fixedWindowScript buckets' now bucket window).2.counters bucket := by
  simp only [fixedWindowScript, hcounter]
  split
  · exact ⟨rfl, hcounter⟩
  · simp [Buckets.record]

theorem script_other {buckets : Buckets} {now window : ℤ} {bucket other : Bytes}
    (hne : bucket ≠ other) :
    (fixedWindowScript buckets now other window).2.counters bucket = buckets.counters bucket := by
  simp only [fixedWindowScript]
  split
  · rfl
  · exact Function.update_of_ne hne ..

theorem exec_congr {store store' : Store} (hsame : SameBucket scope key store store') {window : ℤ}
    {choice : Choice} {answer : Except String (List Value)} {after : Store}
    (hexec : (machine limiter).exec store (.fixedWindow (bucketKey scope key) window) choice =
      some (answer, after)) :
    ∃ after', (machine limiter).exec store' (.fixedWindow (bucketKey scope key) window) choice =
        some (answer, after') ∧ SameBucket scope key after after' := by
  obtain ⟨hclock, hcounter⟩ := hsame
  obtain ⟨⟨found, buckets⟩, hfound, heq⟩ := Option.map_eq_some_iff.mp hexec
  cases heq
  obtain ⟨value, hreply, heq⟩ := Option.map_eq_some_iff.mp hfound
  cases heq
  obtain ⟨hscript, hafter⟩ : (fixedWindowScript store.buckets (millis store.clock)
        (bucketKey scope key) window).1 = (fixedWindowScript store'.buckets (millis store.clock)
        (bucketKey scope key) window).1 ∧ _ := script_congr hcounter
  have hreply' : reply store'.buckets store'.clock choice
      (.fixedWindow (bucketKey scope key) window) = some found := by
    rw [← hreply, ← hclock]
    cases choice with
    | ok => simp only [reply, hscript]
    | fail executed text => rfl
    | garbled executed values => rfl
  refine ⟨⟨store'.clock, if choice.executes then effect store'.buckets store'.clock
      (.fixedWindow (bucketKey scope key) window) else store'.buckets⟩,
    by simp only [machine, exec, hreply', Option.map_some], hclock, ?_⟩
  dsimp only
  split
  · rw [← hclock]
    exact hafter
  · exact hcounter

/-- The calls on a bucket depend on its counter only, and the calls on others
leave it alone. -/
theorem separated (limiter : Limiter) (scope : Scope) (key : Bytes) :
    Separated (machine limiter) (fun op => decide (op = .allow scope key))
      (SameBucket scope key) where
  env store store' elapsed after hsame henv := by
    cases henv
    exact ⟨_, rfl, by rw [SameBucket, hsame.1]; exact ⟨rfl, hsame.2⟩⟩
  call op trace request hwanted hreach store store' choice reply after hsame hexec := by
    rw [decide_eq_true_iff] at hwanted
    subst hwanted
    obtain ⟨-, rule, -, rfl⟩ := allow_call hreach
    exact exec_congr hsame hexec
  other op trace request hwanted hreach store store' choice reply after hsame hexec := by
    rw [decide_eq_false_iff_not] at hwanted
    obtain ⟨scope', key'⟩ := op
    obtain ⟨-, rule, -, rfl⟩ := allow_call hreach
    obtain ⟨⟨found, buckets⟩, hfound, heq⟩ := Option.map_eq_some_iff.mp hexec
    cases heq
    obtain ⟨value, -, heq⟩ := Option.map_eq_some_iff.mp hfound
    cases heq
    refine ⟨hsame.1, ?_⟩
    rw [← hsame.2]
    dsimp only
    split
    · refine script_other fun heq => hwanted ?_
      obtain ⟨rfl, rfl⟩ := bucketKey_injective heq
      rfl
    · rfl

/-- In any run of `Allow` calls, a call on a scope and key returns what it
returns in the run restricted to the calls on these; and no two scopes and keys,
and no two pastes and clients, share a bucket key, nor does one coincide with the
key of a body, of a lost body's mark, of a session or of a login state. -/
theorem bucket_isolation (limiter : Limiter) (store : Store) (scope : Scope) (key : Bytes)
    {schedule : List Action} {s : Config}
    (hperform : (machine limiter).perform (fun _ _ => true) (.initial store) schedule = some s) :
    (∃ s', (machine limiter).perform (fun _ _ => true) (.initial store)
          (restrict (fun op => decide (op = .allow scope key)) [] schedule) = some s' ∧
        s'.ops = s.ops.filter (fun op => decide (op = .allow scope key)) ∧
        ∀ i, s.ops[i]? = some (.allow scope key) →
          s'.result? (rank (fun op => decide (op = .allow scope key)) s.ops i) = s.result? i) ∧
      (∀ scope' key', bucketKey scope' key' = bucketKey scope key → scope' = scope ∧ key' = key) ∧
      (∀ (id : UUID) ip (id' : UUID) ip', bucketKey .unlock (id.text ++ ascii ":" ++ ip) =
        bucketKey .unlock (id'.text ++ ascii ":" ++ ip') → id = id' ∧ ip = ip') ∧
      (∀ id, bucketKey scope key ≠ Store.Bodies.bodyKey id) ∧
      (∀ id, bucketKey scope key ≠ Store.Bodies.unavailableKey id) ∧
      (∀ cookie, bucketKey scope key ≠ Session.sessKey cookie) ∧
      ∀ state, bucketKey scope key ≠ Auth.oidcKey state := by
  refine ⟨?_, fun _ _ => bucketKey_injective, fun _ _ _ _ => unlockKey_injective,
    fun _ => bucketKey_ne_append (by decide), fun _ => bucketKey_ne_append (by decide),
    fun _ => bucketKey_ne_append (by decide), fun _ => bucketKey_ne_append (by decide)⟩
  have hstart : Restricts (fun op => decide (op = .allow scope key)) (SameBucket scope key)
      (.initial store : Config) (.initial store) :=
    ⟨⟨rfl, rfl⟩, rfl, rfl, fun i op hop => by simp [Config.initial] at hop⟩
  obtain ⟨s', hs', hrestricts⟩ := perform_restrict (separated limiter scope key)
    .initial hstart hperform
  exact ⟨s', hs', hrestricts.ops, fun i hop => hrestricts.result hop (decide_eq_true rfl)⟩

/-- Two clients, one attempt a second each: the second client's call does not
count against the first. -/
theorem bucket_isolation_sample :
    ∃ s s', (machine Sample.limiter).perform (fun _ _ => true) (start 0)
        [.invoke (.allow .unlockIP (ascii "a")), .invoke (.allow .unlockIP (ascii "b")),
          .advance 1 .ok, .advance 0 .ok] = some s ∧
      (machine Sample.limiter).perform (fun _ _ => true) (start 0)
        [.invoke (.allow .unlockIP (ascii "a")), .advance 0 .ok] = some s' ∧
      s'.result? 0 = s.result? 0 := by
  have hperform : ((machine Sample.limiter).perform (fun _ _ => true) (start 0)
      [.invoke (.allow .unlockIP (ascii "a")), .invoke (.allow .unlockIP (ascii "b")),
        .advance 1 .ok, .advance 0 .ok]).any (fun s => s.ops =
          [.allow .unlockIP (ascii "a"), .allow .unlockIP (ascii "b")]) = true := by
    decide +kernel
  obtain ⟨s, hs, hops⟩ := (Option.any_eq_true ..).mp hperform
  rw [decide_eq_true_iff] at hops
  obtain ⟨⟨s', hs', -, hresult⟩, -⟩ :=
    bucket_isolation Sample.limiter ⟨0, .empty⟩ .unlockIP (ascii "a") hs
  exact ⟨s, s', hs, hs', hresult 0 (by rw [hops]; rfl)⟩

end SecurePastebin.Ratelimit
