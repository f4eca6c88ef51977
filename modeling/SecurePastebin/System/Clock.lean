import SecurePastebin.Paste.Release
import SecurePastebin.System.Effects

/-!
# The clock along a run

With a clock that does not run backwards, no reading is ahead of the clock, and
what is invoked later reads no earlier time.
-/

namespace SecurePastebin.System

open Paste Crypto Process Interleaving

variable {sys : Params} {s mid last : Config} {i j : ℕ} {clock : ℤ} {E : Envelope}
  {allowed : Config → Action → Prop}

/-- All readings of the clock so far. -/
def readings (s : Config) : List ℤ := repliesTo .now (s.log.map Prod.snd)

theorem mem_readings {time : ℤ} : time ∈ readings s ↔ ∃ i, s.Did i .now time := by
  simp [readings, mem_repliesTo, Config.Did]

theorem env_clock (hforward : ∀ s action, allowed s action → ClockForward s action)
    {change : Env} {store : Store} (hallowed : allowed s (.env change))
    (henv : (machine sys).env s.store change = some store) : s.store.clock ≤ store.clock := by
  have hclock := hforward s _ hallowed
  cases change <;> cases henv
  · exact hclock
  · exact le_rfl

/-- No reading is ahead of the clock. -/
theorem now_le_clock (hforward : ∀ s action, allowed s action → ClockForward s action)
    (hrun : (machine sys).Run allowed (.initial (.empty clock E)) s) {time : ℤ}
    (hdid : s.Did i .now time) : time ≤ s.store.clock := by
  revert i time
  refine hrun.induct (motive := fun s => ∀ {i : ℕ} {time : ℤ}, s.Did i .now time →
    time ≤ s.store.clock) .initial ?_ ?_ ?_ ?_
  · intro i time hdid
    simp [Config.Did, Config.initial] at hdid
  · intro s change store _ hle hallowed henv i time hdid
    exact (hle hdid).trans (env_clock hforward hallowed henv)
  · intro s op _ hle _ i time hdid
    exact hle hdid
  · intro s i op choice request reply store proc _ hle _ _ _ _ hexec j time hdid
    rw [Config.store_answer, (exec_clock_envelope hexec).1]
    rcases Config.did_answer.mp hdid with hdid | ⟨-, heq⟩
    · exact hle hdid
    · have hobserved := exec_observed hexec
      rw [← heq] at hobserved
      exact le_of_eq hobserved

/-- A thread's readings are in order. -/
theorem clockReadings_sorted (hforward : ∀ s action, allowed s action → ClockForward s action)
    (hrun : (machine sys).Run allowed (.initial (.empty clock E)) s) (i : ℕ) :
    (repliesTo .now (s.trace i)).Pairwise (· ≤ ·) := by
  refine hrun.induct (motive := fun s => (repliesTo .now (s.trace i)).Pairwise (· ≤ ·))
    .initial List.Pairwise.nil ?_ ?_ ?_
  · intro s change store _ hsorted _ _
    exact hsorted
  · intro s op _ hsorted _
    exact hsorted
  · intro s j op choice request reply store proc hpast hsorted _ _ _ _ hexec
    by_cases hij : i = j
    · subst hij
      rw [Config.trace_answer_self, repliesTo_append, List.pairwise_append]
      refine ⟨hsorted, ?_, ?_⟩
      · simp only [repliesTo, List.filterMap_cons, List.filterMap_nil]
        split <;> simp
      · intro earlier hearlier time htime
        rw [mem_repliesTo, List.mem_singleton] at htime
        rw [mem_repliesTo, ← Config.did_iff_mem_trace] at hearlier
        have hobserved := exec_observed hexec
        rw [← htime] at hobserved
        exact hobserved ▸ now_le_clock hforward hpast hearlier
    · rw [Config.trace_answer_of_ne s hij]
      exact hsorted

/-- Threads invoked from `mid` on read the clock as it was then, or later. -/
theorem clock_le_now (hforward : ∀ s action, allowed s action → ClockForward s action)
    (hwf : (machine sys).WellFormed mid) (hlater : (machine sys).Run allowed mid last)
    (hj : mid.ops.length ≤ j) {time : ℤ} (hdid : last.Did j .now time) :
    mid.store.clock ≤ time := by
  have hsince := hlater.since (fun s => mid.store.clock ≤ s.store.clock)
    (fun entry => ∀ time, entry = ⟨.now, time⟩ → mid.store.clock ≤ time) hwf le_rfl ?_ ?_ ?_
  · exact hsince.2 j _ hj hdid time rfl
  · intro s change store _ hle hallowed henv
    exact hle.trans (env_clock hforward hallowed henv)
  · intro s op _ hle _
    exact hle
  · intro s i op choice request reply store proc _ hle _ _ _ _ hexec
    refine ⟨(exec_clock_envelope hexec).1 ▸ hle, ?_⟩
    intro time heq
    have hobserved := exec_observed hexec
    rw [heq] at hobserved
    exact hobserved ▸ hle

end SecurePastebin.System
