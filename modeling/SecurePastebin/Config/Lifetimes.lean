import SecurePastebin.Config.Load
import SecurePastebin.Store.Pastes

/-!
# Configured life times

What an accepted configuration says about the life times of pastes, and whether
the service, with these limits, asks the table for more than it takes.
-/

namespace SecurePastebin.Configuration

open Text Uuid Calendar Process
open Paste (Deps Principal CreateInput PasteMeta effectiveTTL newMeta)

variable {env : Environment} {c : Config}

theorem lifetimes_of_problems {ttl : Lifetimes} (hnone : ttl.problems = []) :
    1 ≤ ttl.least ∧ ttl.least ≤ ttl.default ∧ ttl.default ≤ ttl.most ∧ ttl.most ≤ ttl.hardMax := by
  unfold Lifetimes.problems at hnone
  split_ifs at hnone
  omega

/-- An accepted configuration has passed the checks on the life times. -/
theorem lifetimes_of_load (hload : load env = .ok c) :
    1 ≤ c.pasteTTL.least ∧ c.pasteTTL.least ≤ c.pasteTTL.default ∧
      c.pasteTTL.default ≤ c.pasteTTL.most ∧ c.pasteTTL.most ≤ c.pasteTTL.hardMax := by
  obtain ⟨hnone, rfl⟩ := load_eq_ok env hload
  have hsection : env.pasteTTL.errs = [] := by
    rw [Environment.problems, List.flatten_eq_nil_iff] at hnone
    exact hnone _ (by simp)
  exact lifetimes_of_problems (List.append_eq_nil_iff.mp hsection).2

/-- `Create` refuses a life time exactly when it is not within the limits. -/
theorem refuses_ttl_iff (d : Deps) (p : Principal) (input : CreateInput) :
    (Paste.create d p input).Reaches [] (.inr (.error .invalidTTL)) ↔
      effectiveTTL d input < d.limits.ttlMin ∨ effectiveTTL d input > d.limits.ttlMax := by
  constructor
  · intro hreach
    by_contra hwithin
    rw [Paste.create, if_neg hwithin] at hreach
    split_ifs at hreach
    · cases hreach.2
    · split at hreach
      · rename_i err herr
        cases hreach.2
        simp only [Paste.canonicalize] at herr
        split_ifs at herr <;> cases herr
      · rcases hreach with ⟨-, hpoint⟩ | ⟨_, _, htrace, -⟩
        · cases hpoint
        · cases htrace
  · intro hout
    rw [Paste.create, if_pos hout]
    exact ⟨rfl, rfl⟩

/-- The life time satisfies the constraint of the table and is added without
overflow. -/
structure Storable (d : Deps) (p : Principal) (input : CreateInput) : Prop where
  positive : 1 ≤ effectiveTTL d input
  withinDay : effectiveTTL d input ≤ 86400
  fits : FitsInt64 (effectiveTTL d input * second)
  added : ∀ (canonical : Bytes) (now : ℤ) (id : UUID),
    (newMeta d p input canonical now id).ttlSeconds = effectiveTTL d input ∧
      (newMeta d p input canonical now id).expiresAt = now + effectiveTTL d input * second

theorem storable_of_bounds {d : Deps} {p : Principal} {input : CreateInput}
    (hone : 1 ≤ effectiveTTL d input) (htop : effectiveTTL d input ≤ 86400) :
    Storable d p input := by
  have hfits : FitsInt64 (effectiveTTL d input * second) := by
    have hsecond : second = 1000000000 := rfl
    rw [FitsInt64, hsecond]
    omega
  refine ⟨hone, htop, hfits, fun canonical now id => ⟨rfl, ?_⟩⟩
  rw [newMeta, wrap64_of_fits hfits]

/-- Under an accepted configuration a life time that `Create` does not refuse is
storable exactly when it is at most a day, and all of them are exactly when the
configured maximum is. -/
theorem accepted_ttl_storable (hload : load env = .ok c) :
    (∀ (d : Deps) (p : Principal) (input : CreateInput), d.limits = c.limits →
        ¬ (Paste.create d p input).Reaches [] (.inr (.error .invalidTTL)) →
        (Storable d p input ↔ effectiveTTL d input ≤ 86400)) ∧
      ((∀ (d : Deps) (p : Principal) (input : CreateInput), d.limits = c.limits →
          ¬ (Paste.create d p input).Reaches [] (.inr (.error .invalidTTL)) →
          Storable d p input) ↔ c.pasteTTL.most ≤ 86400) := by
  obtain ⟨hmin, hdefault, hmost, -⟩ := lifetimes_of_load hload
  have hbounds : ∀ (d : Deps) (p : Principal) (input : CreateInput), d.limits = c.limits →
      ¬ (Paste.create d p input).Reaches [] (.inr (.error .invalidTTL)) →
      1 ≤ effectiveTTL d input ∧ effectiveTTL d input ≤ c.pasteTTL.most := by
    intro d p input hlimits hrefused
    rw [refuses_ttl_iff, hlimits] at hrefused
    simp only [Config.limits] at hrefused
    omega
  refine ⟨fun d p input hlimits hrefused => ⟨Storable.withinDay, ?_⟩, ?_, ?_⟩
  · exact storable_of_bounds (hbounds d p input hlimits hrefused).1
  · -- the configured maximum is itself not refused
    intro hall
    let d : Deps := ⟨id, true, [], c.limits⟩
    let input : CreateInput := ⟨[], [], c.pasteTTL.most⟩
    have httl : effectiveTTL d input = c.pasteTTL.most := if_neg (by dsimp only [input]; omega)
    refine httl ▸ (hall d ⟨.filled 0, [], false⟩ input rfl ?_).withinDay
    rw [refuses_ttl_iff, httl]
    simp only [d, Config.limits]
    omega
  · intro hmax d p input hlimits hrefused
    obtain ⟨hone, htop⟩ := hbounds d p input hlimits hrefused
    exact storable_of_bounds hone (htop.trans hmax)

namespace Sample

/-- An environment with everything required, and the given maximum for the life
time of a paste. -/
def environment (ttlMax : String) : Environment where
  getenv key :=
    ascii (match key with
    | "APP_BASE_URL" => "https://paste.example"
    | "DATABASE_URL" => "postgres://db"
    | "REDIS_URL" => "redis://cache"
    | "MASTER_KEYS" => "k1:AAAAAAAAAAAAAAAAAAAAAAAAAAAAAAAAAAAAAAAAAAA="
    | "PASTE_TTL_HARD_MAX" | "PASTE_TTL_MAX" => ttlMax
    | _ => "")
  readFile _ := .error (ascii "no such file")
  toLower text := text.map lower
  parseDuration _ := none
  isPrefix _ := false

/-- The service under that configuration. -/
def service (c : Config) : Deps where
  hasAudit := true
  baseURL := c.appBaseURL
  limits := c.limits
  sha256 := id

def owner : Principal := ⟨.filled 1, ascii "ana", false⟩

def input (ttlSeconds : ℤ) : CreateInput := ⟨ascii "text", [], ttlSeconds⟩

end Sample

/-- A paste for a whole day. -/
theorem accepted_ttl_storable_sample :
    ∃ c, load (Sample.environment "86400") = .ok c ∧
      effectiveTTL (Sample.service c) (Sample.input 86400) = 86400 ∧
      ∀ (canonical : Bytes) (now : ℤ) (id : UUID),
        (newMeta (Sample.service c) Sample.owner (Sample.input 86400) canonical now id).expiresAt =
          now + 86400 * second := by
  have hload : load (Sample.environment "86400") = .ok (Sample.environment "86400").config :=
    if_pos (by decide +kernel)
  have hmost : (Sample.environment "86400").config.pasteTTL.most = 86400 := by decide +kernel
  have hleast : (Sample.environment "86400").config.pasteTTL.least = 30 := by decide +kernel
  generalize (Sample.environment "86400").config = c at hload hmost hleast
  have httl : effectiveTTL (Sample.service c) (Sample.input 86400) = 86400 := by
    simp [effectiveTTL, Sample.input]
  refine ⟨c, hload, httl, fun canonical now id => ?_⟩
  have hrefused : ¬ (Paste.create (Sample.service c) Sample.owner (Sample.input 86400)).Reaches []
      (.inr (.error .invalidTTL)) := by
    rw [refuses_ttl_iff, httl]
    simp [Sample.service, Config.limits, hleast, hmost]
  have hstorable := ((accepted_ttl_storable hload).1 _ _ _ rfl hrefused).mpr httl.le
  exact httl ▸ (hstorable.added canonical now id).2

/-- An operator raises the ceiling: a life time the service accepts is refused by
the table, and another one wraps around to before the creation. -/
theorem raised_ttl_not_storable :
    (∃ c, load (Sample.environment "100000") = .ok c ∧
        ¬ (Paste.create (Sample.service c) Sample.owner (Sample.input 100000)).Reaches []
          (.inr (.error .invalidTTL)) ∧
        effectiveTTL (Sample.service c) (Sample.input 100000) > 86400) ∧
      ∃ c, load (Sample.environment "9223372037") = .ok c ∧
        ¬ (Paste.create (Sample.service c) Sample.owner (Sample.input 9223372037)).Reaches []
          (.inr (.error .invalidTTL)) ∧
        ∀ (canonical : Bytes) (now : ℤ) (id : UUID),
          (newMeta (Sample.service c) Sample.owner (Sample.input 9223372037) canonical now
            id).expiresAt < now := by
  refine ⟨⟨(Sample.environment "100000").config, if_pos (by decide +kernel), ?_, by decide⟩,
    (Sample.environment "9223372037").config, if_pos (by decide +kernel), ?_, ?_⟩
  · have hmost : (Sample.environment "100000").config.pasteTTL.most = 100000 := by decide +kernel
    have hleast : (Sample.environment "100000").config.pasteTTL.least = 30 := by decide +kernel
    rw [refuses_ttl_iff]
    simp [Sample.service, Config.limits, hleast, hmost, effectiveTTL, Sample.input]
  · have hmost : (Sample.environment "9223372037").config.pasteTTL.most = 9223372037 := by
      decide +kernel
    have hleast : (Sample.environment "9223372037").config.pasteTTL.least = 30 := by decide +kernel
    rw [refuses_ttl_iff]
    simp [Sample.service, Config.limits, hleast, hmost, effectiveTTL, Sample.input]
  · intro canonical now id
    have hwrap : wrap64 (9223372037 * second) < 0 := by decide
    simp only [newMeta, effectiveTTL, Sample.input, OfNat.ofNat_ne_zero, if_false]
    omega

end SecurePastebin.Configuration
