import SecurePastebin.Crypto.Panics

/-!
# Password hashes

`HashPassword` and `VerifyPassword` end to end.  What hashing writes,
verification reads back and compares.  On strings of other origin verification
takes the cost parameters as they are, and `argon2id` panics where they ask for
no rounds or no threads.
-/

namespace SecurePastebin.Crypto.Gate

open Text Paste Process

/-- The cost parameters of a string, if it has any, are such as `argon2id`
accepts. -/
def Affordable (phc : Bytes) : Prop :=
  ∀ stored, parsePHC phc = .ok stored → stored.params.time ≠ 0 ∧ stored.params.threads ≠ 0

variable {P : Primitives}

/-- What verification comes to: the error of the string or of the gate, or the
comparison. -/
theorem eval_verifyPassword {phc : Bytes} (hcost : Affordable phc) (password : Bytes)
    (gate : GateOutcome) :
    (verifyPassword phc password).eval (replies P gate) = .returned (do
      let stored ← parsePHC phc
      Crypto.acquire gate
      return P.argon2id password stored.salt stored.params == stored.key) := by
  unfold verifyPassword
  cases hparse : parsePHC phc with
  | error err => rfl
  | ok stored =>
      obtain ⟨htime, hthreads⟩ := hcost stored hparse
      dsimp only
      rw [Proc.eval_map, eval_deriveKey gate password stored.salt htime hthreads]
      cases gate <;> rfl

/-- Without a slot the parameters do not matter. -/
theorem eval_verifyPassword_refused (phc password : Bytes) {gate : GateOutcome} {err : Err}
    (hgate : Crypto.acquire gate = .error err) :
    ∃ result, (verifyPassword phc password).eval (replies P gate) = .returned result := by
  unfold verifyPassword
  cases parsePHC phc with
  | error err => exact ⟨_, rfl⟩
  | ok stored => exact ⟨.error err, by simp [deriveKey, replies, hgate, Outcome.map, Except.map]⟩

/-- With a slot and without rounds or threads the derivation panics. -/
theorem eval_verifyPassword_granted {phc : Bytes} {stored : PHC} (hparse : parsePHC phc = .ok stored)
    (hcost : stored.params.time = 0 ∨ stored.params.threads = 0) (password : Bytes) :
    (verifyPassword phc password).eval (replies P .granted) = .panicked := by
  simp [verifyPassword, hparse, deriveKey, replies, Crypto.acquire, hcost, Outcome.ofKey, Outcome.map]

/-- Whatever the string, the password and the outcome of the wait for a slot:
verification returns true, false or an error if and only if it gets no slot, or
the string's cost parameters ask for rounds and threads. -/
theorem verifyPassword_total (P : Primitives) (phc password : Bytes) (gate : GateOutcome) :
    (∃ result, (verifyPassword phc password).eval (replies P gate) = .returned result) ↔
      (gate = .granted → Affordable phc) := by
  constructor
  · rintro ⟨result, hresult⟩ rfl stored hparse
    by_contra hcost
    rw [eval_verifyPassword_granted hparse (by tauto)] at hresult
    cases hresult
  · intro hcost
    cases hgate : Crypto.acquire gate with
    | error err => exact eval_verifyPassword_refused phc password hgate
    | ok =>
        have hgranted : gate = .granted := by cases gate <;> first | rfl | cases hgate
        exact ⟨_, eval_verifyPassword (hcost hgranted) password gate⟩

namespace Sample

/-- A string with empty salt and key and the given rounds and threads. -/
def phcOf (cost : String) : Bytes := ascii "$argon2id$v=19$" ++ ascii cost ++ ascii "$$"

end Sample

/-- No rounds: the string passes every step of the parse and the derivation
panics. -/
theorem verifyPassword_panics :
    (verifyPassword (Sample.phcOf "m=8,t=0,p=1") []).eval
      (replies Crypto.Sample.primitives .granted) = .panicked := by
  decide +kernel

/-- For every cost with rounds and threads, every salt and every two passwords
with distinct derived keys if they are distinct: hashing the one returns a string
from which the parse recovers cost, salt and key, and verifying the other against
it tells whether they are the same. -/
theorem verify_hash_roundtrip (P : Primitives) (params : Argon2Params) (htime : params.time ≠ 0)
    (hthreads : params.threads ≠ 0) (salt password given : Bytes)
    (hinjective : P.argon2id given salt params = P.argon2id password salt params →
      given = password) :
    ∃ phc, (hashWith params salt password).eval (replies P .granted) = .returned (.ok phc) ∧
      parsePHC phc = .ok ⟨params, salt, P.argon2id password salt params⟩ ∧
      (verifyPassword phc given).eval (replies P .granted) =
        .returned (.ok (decide (password = given))) := by
  refine ⟨formatPHC ⟨params, salt, P.argon2id password salt params⟩, ?_, parsePHC_formatPHC _, ?_⟩
  · rw [hashWith, Proc.eval_map, eval_deriveKey .granted password salt htime hthreads]
    rfl
  · have hcost : Affordable (formatPHC ⟨params, salt, P.argon2id password salt params⟩) := by
      intro stored hstored
      rw [parsePHC_formatPHC] at hstored
      cases hstored
      exact ⟨htime, hthreads⟩
    rw [eval_verifyPassword hcost, parsePHC_formatPHC]
    have hsame : (P.argon2id given salt params == P.argon2id password salt params) =
        decide (password = given) := by
      rw [Bool.eq_iff_iff, beq_iff_eq, decide_eq_true_eq]
      exact ⟨fun heq => (hinjective heq).symm, fun heq => by rw [heq]⟩
    exact congrArg (Outcome.returned ∘ Except.ok) hsame

/-- The right and a wrong password, at the largest memory there is. -/
theorem verify_hash_roundtrip_sample :
    ∃ phc, (verifyPassword phc (ascii "hunter3")).eval
        (replies Crypto.Sample.primitives .granted) = .returned (.ok false) ∧
      parsePHC phc = .ok ⟨⟨1, 4294967295, 255⟩, Crypto.Sample.draws.salt, List.replicate 32 9⟩ := by
  obtain ⟨phc, -, hparse, hverify⟩ := verify_hash_roundtrip Crypto.Sample.primitives
    ⟨1, 4294967295, 255⟩ (by decide) (by decide) Crypto.Sample.draws.salt Crypto.Sample.password
    (ascii "hunter3") (by decide)
  exact ⟨phc, hverify, hparse⟩

end SecurePastebin.Crypto.Gate
