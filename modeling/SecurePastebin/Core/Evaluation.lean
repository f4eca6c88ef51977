import SecurePastebin.Core.Process

/-!
# Programs under fixed answers

Where every reply is a function of its call, a program has a value and makes a
fixed list of calls.  Any run whose replies are those of the function ends in
that value.
-/

namespace SecurePastebin.Process.Proc

variable {Call : Type} {Reply : Call → Type} {Value Result : Type}
variable (answer : (request : Call) → Reply request)

/-- The result of a program whose calls are answered by `answer`. -/
def eval : Proc Call Reply Value → Value
  | .ret value => value
  | .call request next => (next (answer request)).eval

/-- The calls it makes on the way, with their replies. -/
def answered : Proc Call Reply Value → List (Entry Call Reply)
  | .ret _ => []
  | .call request next => ⟨request, answer request⟩ :: (next (answer request)).answered

@[simp]
theorem eval_ret (value : Value) : (ret value : Proc Call Reply Value).eval answer = value := rfl

@[simp]
theorem eval_call (request : Call) (next : Reply request → Proc Call Reply Value) :
    (call request next).eval answer = (next (answer request)).eval answer := rfl

@[simp]
theorem eval_bind (program : Proc Call Reply Value) (next : Value → Proc Call Reply Result) :
    (program >>= next).eval answer = (next (program.eval answer)).eval answer := by
  induction program with
  | ret value => rfl
  | call request rest ih => exact ih (answer request)

@[simp]
theorem eval_map (f : Value → Result) (program : Proc Call Reply Value) :
    (f <$> program).eval answer = f (program.eval answer) := by
  rw [map_eq_bind, eval_bind]
  rfl

@[simp]
theorem answered_call (request : Call) (next : Reply request → Proc Call Reply Value) :
    (call request next).answered answer =
      ⟨request, answer request⟩ :: (next (answer request)).answered answer := rfl

variable {answer}

/-- A run in which every reply is the function's is the program's own. -/
theorem eq_eval_of_reaches {program : Proc Call Reply Value} {trace : List (Entry Call Reply)}
    {value : Value} (hreach : program.Reaches trace (.inr value))
    (htrace : ∀ step ∈ trace, step.2 = answer step.1) :
    value = program.eval answer ∧ trace = program.answered answer := by
  induction program generalizing trace with
  | ret found =>
      obtain ⟨rfl, hvalue⟩ := hreach
      exact ⟨Sum.inr.inj hvalue, rfl⟩
  | call request next ih =>
      rw [reaches_call_result] at hreach
      obtain ⟨reply, tail, rfl, hreach⟩ := hreach
      obtain rfl : reply = answer request := htrace _ List.mem_cons_self
      obtain ⟨hvalue, htail⟩ :=
        ih _ hreach fun step hstep => htrace step (List.mem_cons_of_mem _ hstep)
      exact ⟨hvalue, congrArg _ htail⟩

end SecurePastebin.Process.Proc
