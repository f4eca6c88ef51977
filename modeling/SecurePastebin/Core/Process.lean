import Mathlib

/-!
# Programs that talk to ports

A service routine is a finite tree: it either has returned, or it waits for the
reply to one port call and continues with whatever that reply is.  Splitting a
routine at its port calls is what lets one definition serve two purposes: all
replies can be quantified over (a port may fail, block or lie), and several
routines can be interleaved call by call against shared stores.
-/

namespace SecurePastebin.Process

/-- A program over the port calls `Call`; the reply type depends on the call. -/
inductive Proc (Call : Type) (Reply : Call → Type) (Value : Type) where
  | ret (value : Value)
  | call (request : Call) (next : Reply request → Proc Call Reply Value)

/-- One answered port call. -/
abbrev Entry (Call : Type) (Reply : Call → Type) := Σ request : Call, Reply request

variable {Call : Type} {Reply : Call → Type} {Value Result : Type}

/-- The replies to one call among the answered calls, in order. -/
def repliesTo [DecidableEq Call] (request : Call) (trace : List (Entry Call Reply)) :
    List (Reply request) :=
  trace.filterMap fun entry => if heq : entry.1 = request then some (heq ▸ entry.2) else none

section RepliesTo

variable [DecidableEq Call] {request : Call}

@[simp]
theorem repliesTo_nil : repliesTo request ([] : List (Entry Call Reply)) = [] := rfl

@[simp]
theorem repliesTo_cons_self (reply : Reply request) (trace : List (Entry Call Reply)) :
    repliesTo request (⟨request, reply⟩ :: trace) = reply :: repliesTo request trace := by
  simp [repliesTo]

@[simp]
theorem repliesTo_cons_of_ne {entry : Entry Call Reply} (hne : entry.1 ≠ request)
    (trace : List (Entry Call Reply)) :
    repliesTo request (entry :: trace) = repliesTo request trace := by
  simp [repliesTo, hne]

@[simp]
theorem repliesTo_append (front back : List (Entry Call Reply)) :
    repliesTo request (front ++ back) = repliesTo request front ++ repliesTo request back :=
  List.filterMap_append

variable {reply : Reply request}

theorem mem_repliesTo {trace : List (Entry Call Reply)} :
    reply ∈ repliesTo request trace ↔ (⟨request, reply⟩ : Entry Call Reply) ∈ trace := by
  rw [repliesTo, List.mem_filterMap]
  constructor
  · rintro ⟨⟨found, other⟩, hmem, hreply⟩
    split at hreply
    · rename_i heq
      subst heq
      cases hreply
      exact hmem
    · cases hreply
  · intro hmem
    exact ⟨_, hmem, by simp⟩

theorem head?_repliesTo_of_isPrefix {trace whole : List (Entry Call Reply)}
    (hwhole : trace <+: whole) (hhead : (repliesTo request trace).head? = some reply) :
    (repliesTo request whole).head? = some reply := by
  obtain ⟨rest, rfl⟩ := hwhole
  rw [repliesTo_append, List.head?_append, hhead, Option.some_or]

end RepliesTo

namespace Proc

def bind : Proc Call Reply Value → (Value → Proc Call Reply Result) →
    Proc Call Reply Result
  | .ret value, next => next value
  | .call request rest, next => .call request fun reply => (rest reply).bind next

instance : Monad (Proc Call Reply) where
  pure := .ret
  bind := bind

/-- Issue one port call and return its reply. -/
def perform (request : Call) : Proc Call Reply (Reply request) :=
  .call request .ret

@[simp]
theorem pure_eq (value : Value) : (pure value : Proc Call Reply Value) = .ret value := rfl

@[simp]
theorem ret_bind (value : Value) (next : Value → Proc Call Reply Result) :
    (Proc.ret value >>= next) = next value := rfl

@[simp]
theorem call_bind (request : Call) (rest : Reply request → Proc Call Reply Value)
    (next : Value → Proc Call Reply Result) :
    (Proc.call request rest >>= next) =
      .call request fun reply => rest reply >>= next := rfl

@[simp]
theorem perform_bind (request : Call)
    (next : Reply request → Proc Call Reply Result) :
    (perform request >>= next) = .call request next := rfl

/-- What the outside sees of a program: the call it waits for, or its result. -/
def head : Proc Call Reply Value → Call ⊕ Value
  | .ret value => .inr value
  | .call request _ => .inl request

/-- After the answered calls `trace`, the program has become `rest`. -/
inductive Follows : Proc Call Reply Value → List (Entry Call Reply) →
    Proc Call Reply Value → Prop
  | nil (program : Proc Call Reply Value) : Follows program [] program
  | cons {request : Call} {next : Reply request → Proc Call Reply Value}
      {reply : Reply request} {trace : List (Entry Call Reply)}
      {rest : Proc Call Reply Value} (htail : Follows (next reply) trace rest) :
      Follows (.call request next) (⟨request, reply⟩ :: trace) rest

variable {program : Proc Call Reply Value} {trace : List (Entry Call Reply)} {request : Call}
  {next : Value → Proc Call Reply Result} {f : Value → Result} {allowed : Call → Prop}
  {entry : Entry Call Reply}

/-- A program that waits for a call has that call answered. -/
theorem Follows.snoc {next : Reply request → Proc Call Reply Value}
    (hfollows : Follows program trace (.call request next)) (reply : Reply request) :
    Follows program (trace ++ [⟨request, reply⟩]) (next reply) := by
  generalize hrest : Proc.call request next = rest at hfollows
  induction hfollows with
  | nil program =>
      subst hrest
      exact .cons (.nil _)
  | cons htail ih => exact .cons (ih hrest)

/-- Some execution of the program answers exactly `trace` and then shows
`point`: a pending call or a result. -/
def Reaches : Proc Call Reply Value → List (Entry Call Reply) → Call ⊕ Value → Prop
  | .ret value, trace, point => trace = [] ∧ point = .inr value
  | .call request next, trace, point =>
      (trace = [] ∧ point = .inl request) ∨
        ∃ reply tail, trace = ⟨request, reply⟩ :: tail ∧ (next reply).Reaches tail point

@[simp]
theorem reaches_ret (value : Value) (trace : List (Entry Call Reply))
    (point : Call ⊕ Value) :
    (Proc.ret value).Reaches trace point ↔ trace = [] ∧ point = .inr value := Iff.rfl

@[simp]
theorem reaches_call (request : Call) (next : Reply request → Proc Call Reply Value)
    (trace : List (Entry Call Reply)) (point : Call ⊕ Value) :
    (Proc.call request next).Reaches trace point ↔
      (trace = [] ∧ point = .inl request) ∨
        ∃ reply tail, trace = ⟨request, reply⟩ :: tail ∧
          (next reply).Reaches tail point := Iff.rfl

theorem Follows.reaches {program rest : Proc Call Reply Value}
    (hfollows : Follows program trace rest) :
    program.Reaches trace rest.head := by
  induction hfollows with
  | nil program =>
      cases program with
      | ret value => exact ⟨rfl, rfl⟩
      | call request next => exact Or.inl ⟨rfl, rfl⟩
  | cons htail ih => exact Or.inr ⟨_, _, rfl, ih⟩

/-- Reaching a point through a sequential composition happens either inside
the first program or, once that one has returned, inside the second. -/
theorem reaches_bind {point : Call ⊕ Result} :
    (program >>= next).Reaches trace point ↔
      (∃ request, program.Reaches trace (.inl request) ∧ point = .inl request) ∨
        ∃ value front tail, trace = front ++ tail ∧
          program.Reaches front (.inr value) ∧ (next value).Reaches tail point := by
  induction program generalizing trace with
  | ret value =>
      constructor
      · intro hreach
        exact Or.inr ⟨value, [], trace, rfl, ⟨rfl, rfl⟩, hreach⟩
      · rintro (⟨request, ⟨-, hpoint⟩, -⟩ | ⟨found, front, tail, rfl, ⟨rfl, hfound⟩, hreach⟩)
        · cases hpoint
        · cases hfound
          exact hreach
  | call request rest ih =>
      rw [call_bind, reaches_call]
      constructor
      · rintro (⟨rfl, rfl⟩ | ⟨reply, tail, rfl, hreach⟩)
        · exact Or.inl ⟨request, Or.inl ⟨rfl, rfl⟩, rfl⟩
        · rcases (ih reply).mp hreach with
            ⟨pending, hpending, rfl⟩ | ⟨value, front, back, rfl, hfront, hback⟩
          · exact Or.inl ⟨pending, Or.inr ⟨reply, tail, rfl, hpending⟩, rfl⟩
          · exact Or.inr ⟨value, ⟨request, reply⟩ :: front, back, rfl,
              Or.inr ⟨reply, front, rfl, hfront⟩, hback⟩
      · rintro (⟨pending, ⟨rfl, hpending⟩ | ⟨reply, tail, rfl, hpending⟩, rfl⟩ |
          ⟨value, front, back, rfl, ⟨-, hnone⟩ | ⟨reply, tail, rfl, hfront⟩, hback⟩)
        · cases hpending
          exact Or.inl ⟨rfl, rfl⟩
        · exact Or.inr ⟨reply, tail, rfl, (ih reply).mpr (Or.inl ⟨pending, hpending, rfl⟩)⟩
        · cases hnone
        · exact Or.inr ⟨reply, tail ++ back, rfl,
            (ih reply).mpr (Or.inr ⟨value, tail, back, rfl, hfront, hback⟩)⟩

@[simp]
theorem reaches_call_result (request : Call) (next : Reply request → Proc Call Reply Value)
    (trace : List (Entry Call Reply)) (value : Value) :
    (Proc.call request next).Reaches trace (.inr value) ↔
      ∃ reply tail, trace = ⟨request, reply⟩ :: tail ∧
        (next reply).Reaches tail (.inr value) := by
  simp

theorem map_eq_bind (f : Value → Result) (program : Proc Call Reply Value) :
    f <$> program = program >>= fun value => .ret (f value) := rfl

theorem map_map {Final : Type} (g : Result → Final) (f : Value → Result)
    (program : Proc Call Reply Value) :
    g <$> f <$> program = (fun value => g (f value)) <$> program := by
  induction program with
  | ret value => rfl
  | call request rest ih =>
      simp only [map_eq_bind, call_bind] at ih ⊢
      exact congrArg _ (funext ih)

/-- Post-processing the result leaves the pending calls alone. -/
theorem reaches_map_call :
    (f <$> program).Reaches trace (.inl request) ↔ program.Reaches trace (.inl request) := by
  rw [map_eq_bind, reaches_bind]
  constructor
  · rintro (⟨pending, hreach, hpending⟩ | ⟨value, front, tail, -, -, -, hpoint⟩)
    · cases hpending
      exact hreach
    · cases hpoint
  · intro hreach
    exact .inl ⟨request, hreach, rfl⟩

theorem Reaches.of_map (hreach : (f <$> program).Reaches trace (.inl request)) :
    program.Reaches trace (.inl request) :=
  reaches_map_call.mp hreach

theorem reaches_map_result {result : Result} :
    (f <$> program).Reaches trace (.inr result) ↔
      ∃ value, program.Reaches trace (.inr value) ∧ result = f value := by
  rw [map_eq_bind, reaches_bind]
  constructor
  · rintro (⟨pending, -, hpending⟩ | ⟨value, front, tail, rfl, hreach, rfl, hpoint⟩)
    · cases hpending
    · cases hpoint
      rw [List.append_nil]
      exact ⟨value, hreach, rfl⟩
  · rintro ⟨value, hreach, rfl⟩
    exact .inr ⟨value, trace, [], by simp, hreach, rfl, rfl⟩

/-- Every call the program can make satisfies `allowed`. -/
def CallsOnly (allowed : Call → Prop) : Proc Call Reply Value → Prop
  | .ret _ => True
  | .call request next => allowed request ∧ ∀ reply, (next reply).CallsOnly allowed

@[simp]
theorem callsOnly_ret (allowed : Call → Prop) (value : Value) :
    (Proc.ret value : Proc Call Reply Value).CallsOnly allowed ↔ True := Iff.rfl

@[simp]
theorem callsOnly_call (allowed : Call → Prop) (request : Call)
    (next : Reply request → Proc Call Reply Value) :
    (Proc.call request next).CallsOnly allowed ↔
      allowed request ∧ ∀ reply, (next reply).CallsOnly allowed := Iff.rfl

theorem CallsOnly.bind (hfirst : program.CallsOnly allowed)
    (hnext : ∀ value, (next value).CallsOnly allowed) :
    (program >>= next).CallsOnly allowed := by
  induction program with
  | ret value => exact hnext value
  | call request rest ih => exact ⟨hfirst.1, fun reply => ih reply (hfirst.2 reply)⟩

theorem CallsOnly.reaches (hcalls : program.CallsOnly allowed)
    (hreach : program.Reaches trace (.inl request)) : allowed request := by
  induction program generalizing trace with
  | ret value => exact absurd hreach.2 (by simp)
  | call first rest ih =>
      rcases hreach with ⟨-, hpending⟩ | ⟨reply, tail, -, htail⟩
      · cases hpending
        exact hcalls.1
      · exact ih reply (hcalls.2 reply) htail

/-- Every call a program has had answered is one of those. -/
theorem CallsOnly.of_mem (hcalls : program.CallsOnly allowed) {point : Call ⊕ Value}
    (hreach : program.Reaches trace point) (hmem : entry ∈ trace) :
    allowed entry.1 := by
  induction program generalizing trace with
  | ret value =>
      rw [hreach.1] at hmem
      cases hmem
  | call first rest ih =>
      rcases hreach with ⟨rfl, -⟩ | ⟨reply, tail, rfl, htail⟩
      · cases hmem
      · rcases List.mem_cons.mp hmem with rfl | hmem
        · exact hcalls.1
        · exact ih reply (hcalls.2 reply) htail hmem

theorem callsOnly_of_reaches
    (hall : ∀ trace request, program.Reaches trace (.inl request) → allowed request) :
    program.CallsOnly allowed := by
  induction program with
  | ret value => trivial
  | call first rest ih =>
      refine ⟨hall [] first (.inl ⟨rfl, rfl⟩), fun reply => ih reply fun trace request hreach => ?_⟩
      exact hall (⟨first, reply⟩ :: trace) request (.inr ⟨reply, trace, rfl, hreach⟩)

theorem CallsOnly.mono {allowed wider : Call → Prop}
    (hcalls : program.CallsOnly allowed) (hwider : ∀ request, allowed request → wider request) :
    program.CallsOnly wider :=
  callsOnly_of_reaches fun _ request hreach => hwider request (hcalls.reaches hreach)

/-- A trace of the program, cut before one of its calls, leads to that call. -/
theorem Follows.reaches_call {program rest : Proc Call Reply Value}
    {front back : List (Entry Call Reply)}
    (hfollows : Follows program (front ++ entry :: back) rest) :
    program.Reaches front (.inl entry.1) := by
  induction front generalizing program with
  | nil =>
      cases hfollows
      exact .inl ⟨rfl, rfl⟩
  | cons first front ih =>
      cases hfollows with
      | cons htail => exact .inr ⟨_, _, rfl, ih htail⟩

end Proc

/-! ## Programs over some of the ports -/

/-- The calls of one group of ports as calls among others, with the same
replies. -/
structure Embedding (Sub : Type) (SubReply : Sub → Type) (Call : Type) (Reply : Call → Type) where
  wrap : Sub → Call
  reply : ∀ request, Reply (wrap request) ≃ SubReply request

section Lift

variable {Sub : Type} {SubReply : Sub → Type} (e : Embedding Sub SubReply Call Reply)

def Embedding.entry (step : Entry Sub SubReply) : Entry Call Reply :=
  ⟨e.wrap step.1, (e.reply step.1).symm step.2⟩

namespace Proc

def lift : Proc Sub SubReply Value → Proc Call Reply Value
  | .ret value => .ret value
  | .call request next => .call (e.wrap request) fun reply => (next (e.reply request reply)).lift

theorem reaches_lift_call (program : Proc Sub SubReply Value) (trace : List (Entry Call Reply))
    (request : Call) :
    (program.lift e).Reaches trace (.inl request) ↔
      ∃ sub found, trace = sub.map e.entry ∧ request = e.wrap found ∧
        program.Reaches sub (.inl found) := by
  induction program generalizing trace with
  | ret value => simp [lift]
  | call first rest ih =>
      constructor
      · rintro (⟨rfl, hpoint⟩ | ⟨reply, tail, rfl, hreach⟩)
        · cases hpoint
          exact ⟨[], first, rfl, rfl, .inl ⟨rfl, rfl⟩⟩
        · obtain ⟨sub, found, rfl, rfl, hsub⟩ := (ih _ tail).mp hreach
          exact ⟨⟨first, e.reply first reply⟩ :: sub, found, by simp [Embedding.entry], rfl,
            .inr ⟨_, sub, rfl, hsub⟩⟩
      · rintro ⟨sub, found, rfl, rfl, ⟨rfl, hpoint⟩ | ⟨reply, tail, rfl, hreach⟩⟩
        · cases hpoint
          exact .inl ⟨rfl, rfl⟩
        · refine .inr ⟨(e.reply first).symm reply, tail.map e.entry, rfl, (ih _ _).mpr ?_⟩
          rw [Equiv.apply_symm_apply]
          exact ⟨tail, found, rfl, rfl, hreach⟩

theorem reaches_lift_result (program : Proc Sub SubReply Value) (trace : List (Entry Call Reply))
    (value : Value) :
    (program.lift e).Reaches trace (.inr value) ↔
      ∃ sub, trace = sub.map e.entry ∧ program.Reaches sub (.inr value) := by
  induction program generalizing trace with
  | ret found => simp [lift]
  | call first rest ih =>
      rw [lift, reaches_call_result]
      constructor
      · rintro ⟨reply, tail, rfl, hreach⟩
        obtain ⟨sub, rfl, hsub⟩ := (ih _ tail).mp hreach
        exact ⟨⟨first, e.reply first reply⟩ :: sub, by simp [Embedding.entry],
          .inr ⟨_, sub, rfl, hsub⟩⟩
      · rintro ⟨sub, rfl, ⟨-, hpoint⟩ | ⟨reply, tail, rfl, hreach⟩⟩
        · cases hpoint
        · refine ⟨(e.reply first).symm reply, tail.map e.entry, rfl, (ih _ _).mpr ?_⟩
          rw [Equiv.apply_symm_apply]
          exact ⟨tail, rfl, hreach⟩

/-- A lifted program followed by another one. -/
theorem reaches_lift_bind {program : Proc Sub SubReply Value} {next : Value → Proc Call Reply Result}
    {trace : List (Entry Call Reply)} {point : Call ⊕ Result}
    (hreach : (program.lift e >>= next).Reaches trace point) :
    (∃ sub call, trace = sub.map e.entry ∧ point = .inl (e.wrap call) ∧
        program.Reaches sub (.inl call)) ∨
      ∃ sub tail value, trace = sub.map e.entry ++ tail ∧ program.Reaches sub (.inr value) ∧
        (next value).Reaches tail point := by
  rw [reaches_bind] at hreach
  rcases hreach with ⟨request, hfirst, rfl⟩ | ⟨value, front, tail, rfl, hfirst, hrest⟩
  · obtain ⟨sub, call, rfl, rfl, hsub⟩ := (reaches_lift_call ..).mp hfirst
    exact .inl ⟨sub, call, rfl, rfl, hsub⟩
  · obtain ⟨sub, rfl, hsub⟩ := (reaches_lift_result ..).mp hfirst
    exact .inr ⟨sub, tail, value, rfl, hsub, hrest⟩

theorem callsOnly_lift {allowed : Call → Prop} {program : Proc Sub SubReply Value}
    (hcalls : program.CallsOnly fun request => allowed (e.wrap request)) :
    (program.lift e).CallsOnly allowed := by
  induction program with
  | ret value => trivial
  | call request rest ih => exact ⟨hcalls.1, fun reply => ih _ (hcalls.2 _)⟩

end Proc

end Lift

end SecurePastebin.Process
