import SecurePastebin.Core.Process

/-!
# Interleaved runs over a shared store

Any number of invoked programs advance one port call at a time against one
store.  A call is atomic; between two calls of one program any other program
may run, and the environment may change the store on its own (the clock moves,
a process restarts).  How a call turns out is a `Choice`, so that failures and
random draws are part of the schedule and the whole run is executable.
-/

namespace SecurePastebin.Interleaving

open Process

/-- The programs, the meaning of their port calls, and the environment. -/
structure Machine (Store Op Call : Type) (Reply : Call → Type)
    (Choice Env Result : Type) where
  program : Op → Proc Call Reply Result
  exec : Store → (request : Call) → Choice → Option (Reply request × Store)
  env : Store → Env → Option Store

variable {Store Op Call : Type} {Reply : Call → Type} {Choice Env Result : Type}

/-- The store, every invocation so far with what is left of its program, and
every answered call so far in order of execution. -/
structure Config (Store Op Call : Type) (Reply : Call → Type) (Result : Type) where
  store : Store
  ops : List Op
  procs : List (Proc Call Reply Result)
  log : List (ℕ × Entry Call Reply)

inductive Action (Op Choice Env : Type) where
  | env (change : Env)
  | invoke (op : Op)
  | advance (thread : ℕ) (choice : Choice)

/-- Every step is allowed. -/
abbrev anyStep (_ : Config Store Op Call Reply Result) (_ : Action Op Choice Env) : Prop := True

namespace Config

def initial (store : Store) : Config Store Op Call Reply Result := ⟨store, [], [], []⟩

/-- The answered calls of one thread. -/
def trace (s : Config Store Op Call Reply Result) (i : ℕ) : List (Entry Call Reply) :=
  s.log.filterMap fun entry => if entry.1 = i then some entry.2 else none

/-- Thread `i` was invoked with `op` and has returned `result`. -/
def Returned (s : Config Store Op Call Reply Result) (i : ℕ) (op : Op)
    (result : Result) : Prop :=
  s.ops[i]? = some op ∧ s.procs[i]? = some (.ret result)

/-- The call thread `i` waits for, if any. -/
def pending? (s : Config Store Op Call Reply Result) (i : ℕ) : Option Call :=
  match s.procs[i]? with
  | some (.call request _) => some request
  | _ => none

/-- The result of thread `i`, once it has one. -/
def result? (s : Config Store Op Call Reply Result) (i : ℕ) : Option Result :=
  match s.procs[i]? with
  | some (.ret result) => some result
  | _ => none

/-- Thread `i` has had `request` answered by `reply`. -/
def Did (s : Config Store Op Call Reply Result) (i : ℕ) (request : Call)
    (reply : Reply request) : Prop :=
  (i, (⟨request, reply⟩ : Entry Call Reply)) ∈ s.log

/-- Thread `i` has had one call answered and goes on with `proc`. -/
def answer (s : Config Store Op Call Reply Result) (i : ℕ)
    (proc : Proc Call Reply Result) (entry : Entry Call Reply) (store : Store) :
    Config Store Op Call Reply Result :=
  { s with store := store, procs := s.procs.set i proc, log := s.log ++ [(i, entry)] }

def invoke (s : Config Store Op Call Reply Result) (op : Op)
    (proc : Proc Call Reply Result) : Config Store Op Call Reply Result :=
  { s with ops := s.ops ++ [op], procs := s.procs ++ [proc] }

variable (s : Config Store Op Call Reply Result)

theorem returned_iff (i : ℕ) (op : Op) (result : Result) :
    s.Returned i op result ↔ s.ops[i]? = some op ∧ s.result? i = some result := by
  refine and_congr_right fun _ => ?_
  unfold result?
  split
  · rename_i found hproc
    simp [hproc]
  · rename_i hother
    exact iff_of_false (hother result) (by simp)

theorem did_iff_mem_trace (i : ℕ) (request : Call) (reply : Reply request) :
    s.Did i request reply ↔ (⟨request, reply⟩ : Entry Call Reply) ∈ s.trace i := by
  simp only [Did, trace, List.mem_filterMap, Prod.exists]
  constructor
  · intro hmem
    exact ⟨i, _, hmem, if_pos rfl⟩
  · rintro ⟨j, entry, hmem, hentry⟩
    split at hentry
    · rename_i hij
      cases hentry
      simpa [hij] using hmem
    · cases hentry

variable {s} in
theorem did_of_trace {i : ℕ} {request : Call} {reply : Reply request}
    {trace : List (Entry Call Reply)} (htrace : s.trace i = trace)
    (hmem : (⟨request, reply⟩ : Entry Call Reply) ∈ trace) : s.Did i request reply :=
  (s.did_iff_mem_trace i request reply).mpr (htrace ▸ hmem)

@[simp]
theorem trace_answer_self (i : ℕ) (proc : Proc Call Reply Result)
    (entry : Entry Call Reply) (store : Store) :
    (s.answer i proc entry store).trace i = s.trace i ++ [entry] := by
  simp [trace, answer]

theorem trace_answer_of_ne {i j : ℕ} (hne : j ≠ i) (proc : Proc Call Reply Result)
    (entry : Entry Call Reply) (store : Store) :
    (s.answer i proc entry store).trace j = s.trace j := by
  simp [trace, answer, Ne.symm hne]

variable {proc : Proc Call Reply Result}

variable {s} in
@[simp]
theorem did_answer {i j : ℕ} {entry : Entry Call Reply}
    {store : Store} {request : Call} {reply : Reply request} :
    (s.answer i proc entry store).Did j request reply ↔
      s.Did j request reply ∨ (j = i ∧ (⟨request, reply⟩ : Entry Call Reply) = entry) := by
  simp [Did, answer]

@[simp]
theorem store_answer (i : ℕ) (proc : Proc Call Reply Result) (entry : Entry Call Reply)
    (store : Store) : (s.answer i proc entry store).store = store := rfl

@[simp]
theorem ops_answer (i : ℕ) (proc : Proc Call Reply Result) (entry : Entry Call Reply)
    (store : Store) : (s.answer i proc entry store).ops = s.ops := rfl

@[simp]
theorem log_answer (i : ℕ) (proc : Proc Call Reply Result) (entry : Entry Call Reply)
    (store : Store) :
    (s.answer i proc entry store).log = s.log ++ [(i, entry)] := rfl

theorem result?_answer_of_ne {i j : ℕ} (hne : j ≠ i) (proc : Proc Call Reply Result)
    (entry : Entry Call Reply) (store : Store) :
    (s.answer i proc entry store).result? j = s.result? j := by
  simp only [result?, answer, List.getElem?_set_ne (Ne.symm hne)]

theorem result?_invoke_of_lt {j : ℕ} (hlt : j < s.procs.length) (op : Op)
    (proc : Proc Call Reply Result) : (s.invoke op proc).result? j = s.result? j := by
  simp only [result?, invoke, List.getElem?_append_left hlt]

theorem result?_of_pending {i : ℕ} {request : Call} (hpending : s.pending? i = some request) :
    s.result? i = none := by
  unfold pending? at hpending
  unfold result?
  split at hpending
  · rename_i hproc
    rw [hproc]
  · cases hpending

theorem ops_invoke {op op' : Op} {k : ℕ} (hop : (s.invoke op proc).ops[k]? = some op') :
    s.ops[k]? = some op' ∨ k = s.ops.length ∧ op' = op := by
  rw [invoke, List.getElem?_append] at hop
  split at hop
  · exact .inl hop
  · rename_i hge
    rw [List.getElem?_singleton] at hop
    split at hop
    · cases hop
      exact .inr ⟨by omega, rfl⟩
    · cases hop

/-- The calls of one kind of one thread, in its trace and in the log. -/
theorem length_filter_trace (i : ℕ) (kind : Entry Call Reply → Bool) :
    ((s.trace i).filter kind).length =
      (s.log.filter fun entry => kind entry.2 && decide (entry.1 = i)).length := by
  rw [trace]
  induction s.log with
  | nil => rfl
  | cons entry log ih =>
      by_cases hi : entry.1 = i
      · by_cases hkind : kind entry.2 = true <;> simp [hi, hkind, ih]
      · simpa [List.filter_cons, hi] using ih

/-- The other configuration has the invocations and answered calls of this one,
in their order, and perhaps further ones. -/
structure Extends (next : Config Store Op Call Reply Result) : Prop where
  ops : s.ops <+: next.ops
  log : s.log <+: next.log

variable {s} {next last : Config Store Op Call Reply Result}

theorem Extends.refl : s.Extends s := ⟨List.prefix_rfl, List.prefix_rfl⟩

theorem Extends.trans (hfirst : s.Extends next) (hsecond : next.Extends last) : s.Extends last :=
  ⟨hfirst.ops.trans hsecond.ops, hfirst.log.trans hsecond.log⟩

theorem extends_answer (i : ℕ) (proc : Proc Call Reply Result) (entry : Entry Call Reply)
    (store : Store) : s.Extends (s.answer i proc entry store) :=
  ⟨List.prefix_rfl, List.prefix_append _ _⟩

theorem extends_invoke (op : Op) (proc : Proc Call Reply Result) : s.Extends (s.invoke op proc) :=
  ⟨List.prefix_append _ _, List.prefix_rfl⟩

theorem extends_store (store : Store) : s.Extends { s with store := store } :=
  ⟨List.prefix_rfl, List.prefix_rfl⟩

theorem Extends.op (hextends : s.Extends next) {i : ℕ} {op : Op} (hop : s.ops[i]? = some op) :
    next.ops[i]? = some op := by
  obtain ⟨rest, hrest⟩ := hextends.ops
  have hlt : i < s.ops.length := (List.getElem?_eq_some_iff.mp hop).1
  rw [← hrest, List.getElem?_append_left hlt, hop]

theorem Extends.trace (hextends : s.Extends next) (i : ℕ) : s.trace i <+: next.trace i :=
  hextends.log.filterMap _

theorem Extends.did (hextends : s.Extends next) {i : ℕ} {request : Call} {reply : Reply request}
    (hdid : s.Did i request reply) : next.Did i request reply :=
  hextends.log.subset hdid

end Config

namespace Machine

variable (M : Machine Store Op Call Reply Choice Env Result)

def act (s : Config Store Op Call Reply Result) :
    Action Op Choice Env → Option (Config Store Op Call Reply Result)
  | .env change => (M.env s.store change).map fun store => { s with store := store }
  | .invoke op => some (s.invoke op (M.program op))
  | .advance i choice =>
      match s.procs[i]? with
      | some (.call request next) =>
          (M.exec s.store request choice).map fun outcome =>
            s.answer i (next outcome.1) ⟨request, outcome.1⟩ outcome.2
      | _ => none

/-- Perform a schedule; `none` when one of its actions is refused or not
enabled. -/
def perform (guard : Config Store Op Call Reply Result → Action Op Choice Env → Bool)
    (s : Config Store Op Call Reply Result) :
    List (Action Op Choice Env) → Option (Config Store Op Call Reply Result)
  | [] => some s
  | action :: rest =>
      if guard s action then (M.act s action).bind fun next => perform guard next rest else none

/-- A run from `s`, every action of which is allowed in the state it starts
from. -/
inductive Run (allowed : Config Store Op Call Reply Result → Action Op Choice Env → Prop)
    (s : Config Store Op Call Reply Result) :
    Config Store Op Call Reply Result → Prop
  | refl : Run allowed s s
  | tail {mid next : Config Store Op Call Reply Result} {action : Action Op Choice Env}
      (hrun : Run allowed s mid) (hallowed : allowed mid action)
      (hact : M.act mid action = some next) : Run allowed s next

/-- Every thread stands where its program is after the thread's own answered
calls, and only invoked threads have answered calls. -/
structure WellFormed (s : Config Store Op Call Reply Result) : Prop where
  length_procs : s.procs.length = s.ops.length
  follows : ∀ i op proc, s.ops[i]? = some op → s.procs[i]? = some proc →
    (M.program op).Follows (s.trace i) proc
  bound : ∀ entry ∈ s.log, entry.1 < s.ops.length

variable {M} {s mid next start last : Config Store Op Call Reply Result} {action : Action Op Choice Env}

variable {i : ℕ} {request : Call}
  {guard : Config Store Op Call Reply Result → Action Op Choice Env → Bool}
  {schedule : List (Action Op Choice Env)} {observe : Config Store Op Call Reply Result → Bool}
  {front back : List (Entry Call Reply)} {entry : Entry Call Reply}

/-- A thread that has not been invoked has made no call. -/
theorem WellFormed.trace_eq_nil (hwf : M.WellFormed s)
    (hi : s.ops.length ≤ i) : s.trace i = [] := by
  rw [Config.trace, List.filterMap_eq_nil_iff]
  intro entry hentry
  have := hwf.bound entry hentry
  rw [if_neg (by omega)]

theorem WellFormed.initial {store : Store} : M.WellFormed (.initial store) where
  length_procs := rfl
  follows i op proc hop := by simp [Config.initial] at hop
  bound entry hentry := by simp [Config.initial] at hentry

/-- What one action does: the three kinds of step, the program point of the
advancing thread included. -/
theorem act_cases (hact : M.act s action = some next) :
    (∃ change store, action = .env change ∧ M.env s.store change = some store ∧
        next = { s with store := store }) ∨
      (∃ op, action = .invoke op ∧ next = s.invoke op (M.program op)) ∨
      ∃ i choice request rest reply store, action = .advance i choice ∧
        s.procs[i]? = some (.call request rest) ∧
        M.exec s.store request choice = some (reply, store) ∧
        next = s.answer i (rest reply) ⟨request, reply⟩ store := by
  cases action with
  | env change =>
      simp only [act, Option.map_eq_some_iff] at hact
      obtain ⟨store, hstore, rfl⟩ := hact
      exact Or.inl ⟨change, store, rfl, hstore, rfl⟩
  | invoke op =>
      simp only [act, Option.some.injEq] at hact
      exact Or.inr (Or.inl ⟨op, rfl, hact.symm⟩)
  | advance i choice =>
      simp only [act] at hact
      split at hact
      · rename_i request rest hproc
        simp only [Option.map_eq_some_iff, Prod.exists] at hact
        obtain ⟨reply, store, hexec, rfl⟩ := hact
        exact Or.inr (Or.inr ⟨i, choice, request, rest, reply, store, rfl, hproc, hexec, rfl⟩)
      · cases hact

theorem advance_cases {choice : Choice} (hact : M.act s (.advance i choice) = some next) :
    ∃ request rest reply store, s.procs[i]? = some (.call request rest) ∧
      M.exec s.store request choice = some (reply, store) ∧
      next = s.answer i (rest reply) ⟨request, reply⟩ store := by
  rcases act_cases hact with ⟨_, _, ⟨⟩, -⟩ | ⟨_, ⟨⟩, -⟩ |
    ⟨j, _, request, rest, reply, store, hkind, hproc, hexec, hnext⟩
  cases hkind
  exact ⟨request, rest, reply, store, hproc, hexec, hnext⟩

/-- The advance of a thread that waits for `request`. -/
theorem act_advance {choice : Choice} (hact : M.act s (.advance i choice) = some next)
    (hpending : s.pending? i = some request) :
    ∃ reply store proc, M.exec s.store request choice = some (reply, store) ∧
      next = s.answer i proc ⟨request, reply⟩ store := by
  obtain ⟨other, rest, reply, store, hproc, hexec, rfl⟩ := advance_cases hact
  rw [Config.pending?, hproc] at hpending
  cases hpending
  exact ⟨reply, store, rest reply, hexec, rfl⟩

theorem WellFormed.act (hwf : M.WellFormed s)
    (hact : M.act s action = some next) : M.WellFormed next := by
  rcases act_cases hact with ⟨change, store, rfl, henv, rfl⟩ | ⟨op, rfl, rfl⟩ |
    ⟨i, choice, request, rest, reply, store, rfl, hproc, hexec, rfl⟩
  · exact ⟨hwf.length_procs, hwf.follows, hwf.bound⟩
  · have hlength := hwf.length_procs
    refine ⟨by simp [Config.invoke, hlength], ?_, ?_⟩
    · intro j found proc hop hproc
      simp only [Config.invoke, List.getElem?_append] at hop hproc
      rw [hlength] at hproc
      split at hop
      · rename_i hlt
        rw [if_pos hlt] at hproc
        exact hwf.follows j found proc hop hproc
      · rename_i hge
        rw [if_neg hge] at hproc
        -- the new thread: no logged call carries its index yet
        obtain ⟨hj, rfl⟩ : j - s.ops.length = 0 ∧ op = found := by
          simpa [List.getElem?_singleton] using hop
        have hprogram : M.program op = proc := by simpa [hj] using hproc
        have htrace : (s.invoke op (M.program op)).trace j = [] :=
          hwf.trace_eq_nil (by omega)
        rw [htrace, hprogram]
        exact .nil _
    · intro entry hentry
      have := hwf.bound entry hentry
      simp only [Config.invoke, List.length_append]
      omega
  · have hlt : i < s.procs.length := (List.getElem?_eq_some_iff.mp hproc).1
    refine ⟨by simp [Config.answer, hwf.length_procs], ?_, ?_⟩
    · intro j op proc hop hnext
      simp only [Config.ops_answer] at hop
      by_cases hij : j = i
      · subst hij
        have hprocs : rest reply = proc := by
          simpa [Config.answer, List.getElem?_set_self hlt] using hnext
        rw [Config.trace_answer_self, ← hprocs]
        exact (hwf.follows j op _ hop hproc).snoc reply
      · rw [Config.trace_answer_of_ne s hij]
        refine hwf.follows j op proc hop ?_
        simpa [Config.answer, List.getElem?_set_ne (Ne.symm hij)] using hnext
    · intro entry hentry
      simp only [Config.log_answer, List.mem_append, List.mem_singleton] at hentry
      rcases hentry with hentry | rfl
      · exact hwf.bound entry hentry
      · simpa [hwf.length_procs] using hlt

/-- A waiting thread stands where its own answered calls lead its program. -/
theorem WellFormed.reaches_waiting (hwf : M.WellFormed s)
    {rest : Reply request → Proc Call Reply Result}
    (hproc : s.procs[i]? = some (.call request rest)) :
    ∃ op, s.ops[i]? = some op ∧ (M.program op).Reaches (s.trace i) (.inl request) := by
  have hlt : i < s.ops.length := by
    rw [← hwf.length_procs]
    exact (List.getElem?_eq_some_iff.mp hproc).1
  have hop : s.ops[i]? = some s.ops[i] := List.getElem?_eq_getElem hlt
  exact ⟨_, hop, (hwf.follows i _ _ hop hproc).reaches⟩

/-- A thread that waits for `request` stands where its own answered calls lead
its program. -/
theorem WellFormed.reaches_pending (hwf : M.WellFormed s)
    (hpending : s.pending? i = some request) :
    ∃ op, s.ops[i]? = some op ∧ (M.program op).Reaches (s.trace i) (.inl request) := by
  unfold Config.pending? at hpending
  split at hpending
  · rename_i hproc
    cases hpending
    exact hwf.reaches_waiting hproc
  · cases hpending

variable {allowed : Config Store Op Call Reply Result → Action Op Choice Env → Prop}

theorem Run.trans (hfirst : M.Run allowed s mid) (hsecond : M.Run allowed mid last) :
    M.Run allowed s last := by
  induction hsecond with
  | refl => exact hfirst
  | tail _ hallowed hact ih => exact .tail ih hallowed hact

theorem Run.wellFormed (hrun : M.Run allowed s last) (hwf : M.WellFormed s) : M.WellFormed last := by
  induction hrun with
  | refl => exact hwf
  | tail _ _ hact ih => exact ih.act hact

theorem Run.extends (hrun : M.Run allowed s last) : s.Extends last := by
  induction hrun with
  | refl => exact .refl
  | tail _ _ hact ih =>
      rcases act_cases hact with ⟨change, store, -, -, rfl⟩ | ⟨op, -, rfl⟩ |
        ⟨i, choice, request, rest, reply, store, -, -, -, rfl⟩
      · exact ih.trans (Config.extends_store store)
      · exact ih.trans (Config.extends_invoke op _)
      · exact ih.trans (Config.extends_answer i _ _ store)

/-- An executable schedule is a run. -/
theorem run_of_perform (hguard : ∀ s action, guard s action = true → allowed s action)
    (hperform : M.perform guard s schedule = some last) : M.Run allowed s last := by
  induction schedule generalizing s with
  | nil =>
      cases hperform
      exact .refl
  | cons action rest ih =>
      unfold perform at hperform
      split at hperform
      · rename_i hallowed
        obtain ⟨next, hact, hrest⟩ := Option.bind_eq_some_iff.mp hperform
        exact Run.trans (.tail .refl (hguard s action hallowed) hact) (ih hrest)
      · cases hperform

/-- A run whose end can be observed, found by performing a schedule. -/
theorem exists_run_of_perform (hguard : ∀ s action, guard s action = true → allowed s action)
    (hperform : (M.perform guard s schedule).any observe = true) :
    ∃ last, M.Run allowed s last ∧ observe last = true := by
  rw [Option.any_eq_true] at hperform
  obtain ⟨last, hlast, hobserve⟩ := hperform
  exact ⟨last, run_of_perform hguard hlast, hobserve⟩

theorem exists_any_run (hperform : (M.perform (fun _ _ => true) s schedule).any observe = true) :
    ∃ last, M.Run anyStep s last ∧ observe last = true :=
  exists_run_of_perform (fun _ _ _ => trivial) hperform

theorem exists_decided_run [∀ s action, Decidable (allowed s action)]
    (hperform : (M.perform (fun s action => decide (allowed s action)) s schedule).any observe =
      true) : ∃ last, M.Run allowed s last ∧ observe last = true :=
  exists_run_of_perform (fun _ _ => of_decide_eq_true) hperform

/-- The induction rule for properties of the store, the invocations and the
log.  Each step comes with the run that leads to it, so that what is known of
every run can be used, and a call step with the program point of the thread that
makes it: the thread's own answered calls lead its program to that call. -/
theorem Run.induct {motive : Config Store Op Call Reply Result → Prop}
    (hrun : M.Run allowed start last) (hwf : M.WellFormed start) (hstart : motive start)
    (henv : ∀ s change store, M.Run allowed start s → motive s → allowed s (.env change) →
      M.env s.store change = some store → motive { s with store := store })
    (hinvoke : ∀ s op, M.Run allowed start s → motive s → allowed s (.invoke op) →
      motive (s.invoke op (M.program op)))
    (hcall : ∀ s i op choice request reply store proc, M.Run allowed start s → motive s →
      allowed s (.advance i choice) → s.ops[i]? = some op → s.pending? i = some request →
      (M.program op).Reaches (s.trace i) (.inl request) →
      M.exec s.store request choice = some (reply, store) →
      motive (s.answer i proc ⟨request, reply⟩ store)) :
    motive last := by
  induction hrun with
  | refl => exact hstart
  | @tail mid next action hpast hallowed hact ih =>
      have hmid := hpast.wellFormed hwf
      rcases act_cases hact with ⟨change, store, rfl, hstep, rfl⟩ | ⟨op, rfl, rfl⟩ |
        ⟨i, choice, request, rest, reply, store, rfl, hproc, hexec, rfl⟩
      · exact henv mid change store hpast ih hallowed hstep
      · exact hinvoke mid op hpast ih hallowed
      · obtain ⟨op, hop, hreach⟩ := hmid.reaches_waiting hproc
        exact hcall mid i op choice request reply store (rest reply) hpast ih hallowed hop
          (by rw [Config.pending?, hproc]) hreach hexec

/-- An invariant that every call answered under it respects `fact`: the threads
invoked from `start` on only ever see such replies. -/
theorem Run.since (hrun : M.Run allowed start last) (inv : Config Store Op Call Reply Result → Prop)
    (fact : Entry Call Reply → Prop) (hwf : M.WellFormed start) (hstart : inv start)
    (henv : ∀ s change store, M.Run allowed start s → inv s → allowed s (.env change) →
      M.env s.store change = some store → inv { s with store := store })
    (hinvoke : ∀ s op, M.Run allowed start s → inv s → allowed s (.invoke op) →
      inv (s.invoke op (M.program op)))
    (hcall : ∀ s i op choice request reply store proc, M.Run allowed start s → inv s →
      allowed s (.advance i choice) → s.ops[i]? = some op → s.pending? i = some request →
      (M.program op).Reaches (s.trace i) (.inl request) →
      M.exec s.store request choice = some (reply, store) →
      inv (s.answer i proc ⟨request, reply⟩ store) ∧ fact ⟨request, reply⟩) :
    inv last ∧ ∀ i entry, start.ops.length ≤ i → (i, entry) ∈ last.log → fact entry := by
  refine hrun.induct (motive := fun s => inv s ∧
    ∀ i entry, start.ops.length ≤ i → (i, entry) ∈ s.log → fact entry) hwf ⟨hstart, ?_⟩ ?_ ?_ ?_
  · intro i entry hi hmem
    have := hwf.bound _ hmem
    omega
  · rintro s change store hpast ⟨hinv, hfacts⟩ hallowed hstep
    exact ⟨henv s change store hpast hinv hallowed hstep, hfacts⟩
  · rintro s op hpast ⟨hinv, hfacts⟩ hallowed
    exact ⟨hinvoke s op hpast hinv hallowed, hfacts⟩
  · rintro s i op choice request reply store proc hpast ⟨hinv, hfacts⟩ hallowed hop hpending
      hreach hexec
    obtain ⟨hnext, hfact⟩ :=
      hcall s i op choice request reply store proc hpast hinv hallowed hop hpending hreach hexec
    refine ⟨hnext, ?_⟩
    intro j entry hj hmem
    rw [Config.log_answer, List.mem_append, List.mem_singleton] at hmem
    rcases hmem with hmem | hmem
    · exact hfacts j entry hj hmem
    · cases hmem
      exact hfact

/-- A returned thread has followed its program to that result. -/
theorem WellFormed.reaches_returned (hwf : M.WellFormed s) {op : Op} {result : Result}
    (hreturned : s.Returned i op result) :
    (M.program op).Reaches (s.trace i) (.inr result) :=
  (hwf.follows i op _ hreturned.1 hreturned.2).reaches

/-- An answered call was made where the thread's own earlier calls lead its
program. -/
theorem WellFormed.reaches_at (hwf : M.WellFormed s)
    {op : Op} (hop : s.ops[i]? = some op) (htrace : s.trace i = front ++ entry :: back) :
    (M.program op).Reaches front (.inl entry.1) := by
  obtain ⟨proc, hproc⟩ : ∃ proc, s.procs[i]? = some proc :=
    ⟨_, List.getElem?_eq_getElem (hwf.length_procs ▸ (List.getElem?_eq_some_iff.mp hop).1)⟩
  have hfollows := hwf.follows i op proc hop hproc
  rw [htrace] at hfollows
  exact hfollows.reaches_call

/-- So it is for whatever stands in the trace of some thread. -/
theorem WellFormed.reaches_of_trace (hwf : M.WellFormed s)
    (htrace : s.trace i = front ++ entry :: back) :
    ∃ op, s.ops[i]? = some op ∧ (M.program op).Reaches front (.inl entry.1) := by
  have hlt : i < s.ops.length := by
    by_contra hge
    rw [hwf.trace_eq_nil (not_lt.mp hge)] at htrace
    simp at htrace
  have hop : s.ops[i]? = some s.ops[i] := List.getElem?_eq_getElem hlt
  exact ⟨_, hop, hwf.reaches_at hop htrace⟩

/-- Every answered call was made where the thread's own earlier calls lead its
program. -/
theorem WellFormed.reaches_of_did (hwf : M.WellFormed s)
    {reply : Reply request} (hdid : s.Did i request reply) :
    ∃ op front back, s.ops[i]? = some op ∧ s.trace i = front ++ ⟨request, reply⟩ :: back ∧
      (M.program op).Reaches front (.inl request) := by
  obtain ⟨front, back, htrace⟩ :=
    List.append_of_mem ((s.did_iff_mem_trace i request reply).mp hdid)
  obtain ⟨op, hop, hreach⟩ := hwf.reaches_of_trace htrace
  exact ⟨op, front, back, hop, htrace, hreach⟩

/-- Where elements of one kind only stand at one place, there is at most one. -/
theorem countP_le_one {Item : Type} {items : List Item} {kind : Item → Bool} (place : ℕ)
    (hplace : ∀ front item back, items = front ++ item :: back → kind item = true →
      front.length = place) : items.countP kind ≤ 1 := by
  by_cases hsome : ∃ item ∈ items, kind item = true
  · obtain ⟨item, hmem, hkind⟩ := hsome
    obtain ⟨front, back, rfl⟩ := List.append_of_mem hmem
    have hlength := hplace front item back rfl hkind
    have hfront : front.countP kind = 0 := by
      rw [List.countP_eq_zero]
      intro other hother hkind'
      obtain ⟨first, second, rfl⟩ := List.append_of_mem hother
      have := hplace first other (second ++ item :: back) (by simp) hkind'
      simp only [List.length_append, List.length_cons] at hlength
      omega
    have hback : back.countP kind = 0 := by
      rw [List.countP_eq_zero]
      intro other hother hkind'
      obtain ⟨first, second, rfl⟩ := List.append_of_mem hother
      have := hplace (front ++ item :: first) other second (by simp) hkind'
      simp only [List.length_append, List.length_cons] at this
      omega
    rw [List.countP_append, List.countP_cons, hfront, hback, if_pos hkind]
  · rw [List.countP_eq_zero.mpr fun item hmem hkind => hsome ⟨item, hmem, hkind⟩]
    exact Nat.zero_le 1

/-- What stands in a list once at most is there as often as what comes with it. -/
theorem countP_le_of_mem {Item : Type} {items : List Item} {kind other : Item → Bool}
    (hone : items.countP kind ≤ 1)
    (hother : (∃ item ∈ items, kind item = true) → ∃ item ∈ items, other item = true) :
    items.countP kind ≤ items.countP other := by
  by_cases hnone : items.countP kind = 0
  · omega
  · have hsome := List.countP_pos_iff.mpr
      (hother (List.countP_pos_iff.mp (Nat.pos_of_ne_zero hnone)))
    omega

/-- The calls of one kind are those of all threads together. -/
theorem WellFormed.countP_log (hwf : M.WellFormed s) (kind : Entry Call Reply → Bool) :
    s.log.countP (fun entry => kind entry.2) =
      ∑ i ∈ Finset.range s.ops.length, (s.trace i).countP kind := by
  have hbound := hwf.bound
  simp only [Config.trace]
  generalize s.log = log at hbound
  induction log with
  | nil => simp
  | cons entry log ih =>
      have hlt := hbound entry (by simp)
      have hhead : ∀ i, ((entry :: log).filterMap fun item =>
          if item.1 = i then some item.2 else none).countP kind =
          (log.filterMap fun item => if item.1 = i then some item.2 else none).countP kind +
            if entry.1 = i then (if kind entry.2 then 1 else 0) else 0 := by
        intro i
        rw [List.filterMap_cons]
        by_cases hi : entry.1 = i
        · simp [hi, List.countP_cons]
        · simp [hi]
      rw [List.countP_cons, ih fun item hitem => hbound item (by simp [hitem])]
      simp only [hhead, Finset.sum_add_distrib, Finset.sum_ite_eq, Finset.mem_range, hlt, if_true]

/-- Where only one thread makes calls of a kind, and only one, there is only
one. -/
theorem WellFormed.countP_log_le_one (hwf : M.WellFormed s) {kind : Entry Call Reply → Bool}
    (hone : ∀ i, (s.trace i).countP kind ≤ 1)
    (hsame : ∀ i j, (∃ entry ∈ s.trace i, kind entry = true) →
      (∃ entry ∈ s.trace j, kind entry = true) → i = j) :
    s.log.countP (fun entry => kind entry.2) ≤ 1 := by
  rw [hwf.countP_log]
  by_cases hsome : ∃ i, ∃ entry ∈ s.trace i, kind entry = true
  · obtain ⟨i, hi⟩ := hsome
    have hothers : ∀ j ∈ Finset.range s.ops.length, j ≠ i → (s.trace j).countP kind = 0 := by
      intro j _ hne
      rw [List.countP_eq_zero]
      intro entry hmem hkind
      exact hne (hsame j i ⟨entry, hmem, hkind⟩ hi)
    exact (Finset.sum_le_sum_of_ne_zero fun j hj hnonzero =>
      Finset.mem_singleton.mpr (by_contra fun hne => hnonzero (hothers j hj hne))).trans
        (by simpa using hone i)
  · refine (Finset.sum_eq_zero fun i _ => ?_).le.trans (Nat.zero_le 1)
    rw [List.countP_eq_zero]
    intro entry hmem hkind
    exact hsome ⟨i, entry, hmem, hkind⟩

/-- On the way from `start` to `last` there is a moment at which thread `i`,
having had `front` answered, has `entry` answered. -/
def Moment (allowed : Config Store Op Call Reply Result → Action Op Choice Env → Prop)
    (start last : Config Store Op Call Reply Result) (i : ℕ) (front : List (Entry Call Reply))
    (entry : Entry Call Reply) : Prop :=
  ∃ mid choice store proc, M.Run allowed start mid ∧ allowed mid (.advance i choice) ∧
    mid.trace i = front ∧ mid.pending? i = some entry.1 ∧
    M.exec mid.store entry.1 choice = some (entry.2, store) ∧
    M.act mid (.advance i choice) = some (mid.answer i proc entry store) ∧
    M.Run allowed (mid.answer i proc entry store) last

theorem Run.at_entry (hrun : M.Run allowed start last) (front : List (Entry Call Reply))
    (entry : Entry Call Reply) (back : List (Entry Call Reply)) (hstart : start.trace i <+: front)
    (htrace : last.trace i = front ++ entry :: back) :
    M.Moment allowed start last i front entry := by
  induction hrun generalizing back with
  | refl =>
      have hle := hstart.length_le
      rw [htrace, List.length_append, List.length_cons] at hle
      omega
  | @tail mid next action hpast hallowed hact ih =>
      have hearlier : M.Moment allowed start mid i front entry →
          M.Moment allowed start next i front entry := by
        rintro ⟨found, choice, store, proc, hfound, hchoice, hfront, hpending, hexec, hstep, hrest⟩
        exact ⟨found, choice, store, proc, hfound, hchoice, hfront, hpending, hexec, hstep,
          hrest.tail hallowed hact⟩
      rcases act_cases hact with ⟨change, store, rfl, -, rfl⟩ | ⟨op, rfl, rfl⟩ |
        ⟨j, choice, request, rest, reply, store, rfl, hproc, hexec, rfl⟩
      · exact hearlier (ih back htrace)
      · exact hearlier (ih back htrace)
      · by_cases hij : i = j
        · subst hij
          rw [Config.trace_answer_self] at htrace
          rcases List.eq_nil_or_concat back with rfl | ⟨init, final, rfl⟩
          · obtain ⟨hfront, hentry⟩ := List.append_inj' htrace rfl
            cases hentry
            exact ⟨mid, choice, store, rest reply, hpast, hallowed, hfront,
              by rw [Config.pending?, hproc], hexec, hact, .refl⟩
          · have hsplit : mid.trace i ++ [⟨request, reply⟩] = (front ++ entry :: init) ++ [final] := by
              simpa using htrace
            exact hearlier (ih init (List.append_inj' hsplit rfl).1)
        · rw [Config.trace_answer_of_ne mid hij] at htrace
          exact hearlier (ih back htrace)

/-- On the way from `start` to `last`, thread `i` takes the step from `mid` to
`after`. -/
structure Takes (M : Machine Store Op Call Reply Choice Env Result)
    (allowed : Config Store Op Call Reply Result → Action Op Choice Env → Prop)
    (start last : Config Store Op Call Reply Result) (i : ℕ)
    (mid : Config Store Op Call Reply Result) (choice : Choice)
    (after : Config Store Op Call Reply Result) : Prop where
  before : M.Run allowed start mid
  may : allowed mid (.advance i choice)
  act : M.act mid (.advance i choice) = some after
  later : M.Run allowed after last

section Takes

variable {i : ℕ} {choice : Choice} {after : Config Store Op Call Reply Result}

theorem Takes.rest (htakes : M.Takes allowed start last i mid choice after) :
    M.Run allowed mid last :=
  (Run.tail .refl htakes.may htakes.act).trans htakes.later

/-- The step shows in the trace of the thread. -/
theorem Takes.did (htakes : M.Takes allowed start last i mid choice after)
    (hwf : M.WellFormed start) :
    ∃ op request reply store proc, mid.ops[i]? = some op ∧ mid.pending? i = some request ∧
      (M.program op).Reaches (mid.trace i) (.inl request) ∧ last.Did i request reply ∧
      M.exec mid.store request choice = some (reply, store) ∧
      after = mid.answer i proc ⟨request, reply⟩ store := by
  have hmid := htakes.before.wellFormed hwf
  obtain ⟨request, rest, reply, store, hproc, hexec, rfl⟩ := advance_cases htakes.act
  obtain ⟨op, hop, hreach⟩ := hmid.reaches_waiting hproc
  exact ⟨op, request, reply, store, rest reply, hop, by rw [Config.pending?, hproc], hreach,
    htakes.later.extends.did (Config.did_answer.mpr (.inr ⟨rfl, rfl⟩)), hexec, rfl⟩

end Takes

/-- Either no step of the run is one of the given kind, or there is a last one. -/
theorem Run.last_step (hrun : M.Run allowed start last)
    (kind : Config Store Op Call Reply Result → Action Op Choice Env → Prop) :
    M.Run (fun s action => allowed s action ∧ ¬ kind s action) start last ∨
      ∃ mid action next, M.Run allowed start mid ∧ allowed mid action ∧ kind mid action ∧
        M.act mid action = some next ∧
        M.Run (fun s action => allowed s action ∧ ¬ kind s action) next last := by
  induction hrun with
  | refl => exact .inl .refl
  | @tail mid next action hpast hallowed hact ih =>
      by_cases hkind : kind mid action
      · exact .inr ⟨mid, action, next, hpast, hallowed, hkind, hact, .refl⟩
      · rcases ih with hnone | ⟨earlier, found, after, hearlier, hfound, his, hstep, hrest⟩
        · exact .inl (hnone.tail ⟨hallowed, hkind⟩ hact)
        · exact .inr ⟨earlier, found, after, hearlier, hfound, his, hstep,
            hrest.tail ⟨hallowed, hkind⟩ hact⟩

/-- What no action lowers, no run lowers. -/
theorem Run.le_of_act {Value : Type} [Preorder Value]
    (hrun : M.Run allowed start last) (measure : Config Store Op Call Reply Result → Value)
    (hle : ∀ {mid next action}, M.act mid action = some next → measure mid ≤ measure next) :
    measure start ≤ measure last := by
  induction hrun with
  | refl => exact le_rfl
  | tail _ _ hact ih => exact ih.trans (hle hact)

/-- A run is also a run under any weaker restriction. -/
theorem Run.weaken {wider : Config Store Op Call Reply Result → Action Op Choice Env → Prop}
    (hrun : M.Run allowed start last) (hwider : ∀ s action, allowed s action → wider s action) :
    M.Run wider start last := by
  induction hrun with
  | refl => exact .refl
  | tail _ hallowed hact ih => exact ih.tail (hwider _ _ hallowed) hact

/-- What holds at the end of a run, and before every step after which it holds,
held all along. -/
theorem Run.restrict (hrun : M.Run allowed start last) (early : Config Store Op Call Reply Result → Prop)
    (hback : ∀ s action next, M.act s action = some next → early next → early s)
    (hlast : early last) : M.Run (fun s action => allowed s action ∧ early s) start last := by
  induction hrun with
  | refl => exact .refl
  | tail _ hallowed hact ih =>
      have hbefore := hback _ _ _ hact hlast
      exact (ih hbefore).tail ⟨hallowed, hbefore⟩ hact

/-- A program by itself: every call is answered at once, as `choose` has it.  The
result, the store at the end and the answered calls. -/
def alone {Value : Type} (M : Machine Store Op Call Reply Choice Env Result)
    (choose : Call → Choice) (store : Store) :
    Proc Call Reply Value → Option (Value × Store × List (Entry Call Reply))
  | .ret value => some (value, store, [])
  | .call request next =>
      (M.exec store request (choose request)).bind fun (reply, after) =>
        (M.alone choose after (next reply)).map fun (value, last, trace) =>
          (value, last, ⟨request, reply⟩ :: trace)

section Alone

variable {Value Final : Type} {choose : Call → Choice} {store mid last : Store}

variable {trace : List (Entry Call Reply)}

theorem alone_call {next : Reply request → Proc Call Reply Value}
    {reply : Reply request} {value : Value}
    (hexec : M.exec store request (choose request) = some (reply, mid))
    (hrest : M.alone choose mid (next reply) = some (value, last, trace)) :
    M.alone choose store (.call request next) = some (value, last, ⟨request, reply⟩ :: trace) := by
  simp [alone, hexec, hrest]

theorem alone_bind {program : Proc Call Reply Value} {next : Value → Proc Call Reply Final}
    {value : Value} {final : Final}
    (hfirst : M.alone choose store program = some (value, mid, front))
    (hsecond : M.alone choose mid (next value) = some (final, last, back)) :
    M.alone choose store (program >>= next) = some (final, last, front ++ back) := by
  induction program generalizing store front with
  | ret found =>
      cases hfirst
      exact hsecond
  | call request rest ih =>
      simp only [alone, Option.bind_eq_some_iff, Option.map_eq_some_iff, Prod.exists,
        Prod.mk.injEq] at hfirst
      obtain ⟨reply, after, hexec, found, found', trace, hrest, rfl, rfl, rfl⟩ := hfirst
      exact alone_call hexec (ih reply hrest)

/-- What a program does by itself is a run in which the other threads rest. -/
theorem run_of_alone {program : Proc Call Reply Result} {result : Result}
    (halone : M.alone choose s.store program = some (result, last, trace))
    (hproc : s.procs[i]? = some program) :
    ∃ final, M.Run anyStep s final ∧ final.store = last ∧
      final.procs[i]? = some (.ret result) ∧ final.ops = s.ops ∧
      final.trace i = s.trace i ++ trace := by
  induction program generalizing s trace with
  | ret found =>
      cases halone
      exact ⟨s, .refl, rfl, hproc, rfl, (List.append_nil _).symm⟩
  | call request rest ih =>
      simp only [alone, Option.bind_eq_some_iff, Option.map_eq_some_iff, Prod.exists,
        Prod.mk.injEq] at halone
      obtain ⟨reply, after, hexec, found, found', tail, hrest, rfl, rfl, rfl⟩ := halone
      have hact : M.act s (.advance i (choose request)) =
          some (s.answer i (rest reply) ⟨request, reply⟩ after) := by
        simp only [act, hproc, hexec, Option.map_some]
      have hlt : i < s.procs.length := (List.getElem?_eq_some_iff.mp hproc).1
      obtain ⟨final, hrun, hstore, hreturned, hops, htrace⟩ :=
        ih reply (s := s.answer i (rest reply) ⟨request, reply⟩ after) hrest
          (by simp [Config.answer, List.getElem?_set_self hlt])
      refine ⟨final, (Run.tail .refl trivial hact).trans hrun, hstore, hreturned, hops, ?_⟩
      rw [htrace, Config.trace_answer_self, List.append_assoc, List.singleton_append]

end Alone

/-- A thread all of whose calls can be answered can be run to its end, without
the others moving. -/
theorem exists_completion {possible : Call → Prop} (good : Store → Prop)
    (hanswer : ∀ s request, good s.store → possible request → ∃ choice reply store,
      allowed s (.advance i choice) ∧ M.exec s.store request choice = some (reply, store) ∧
        good store)
    {proc : Proc Call Reply Result} (hcalls : proc.CallsOnly possible)
    (hgood : good s.store) (hproc : s.procs[i]? = some proc) :
    ∃ last result, M.Run allowed s last ∧ good last.store ∧ last.ops = s.ops ∧
      last.procs[i]? = some (.ret result) := by
  induction proc generalizing s with
  | ret result => exact ⟨s, result, .refl, hgood, rfl, hproc⟩
  | call request rest ih =>
      obtain ⟨choice, reply, store, hallowed, hexec, hnext⟩ := hanswer s request hgood hcalls.1
      have hact : M.act s (.advance i choice) =
          some (s.answer i (rest reply) ⟨request, reply⟩ store) := by
        simp only [act, hproc, hexec, Option.map_some]
      have hlt : i < s.procs.length := (List.getElem?_eq_some_iff.mp hproc).1
      have hproc' : (s.answer i (rest reply) ⟨request, reply⟩ store).procs[i]? =
          some (rest reply) := by
        simp [Config.answer, List.getElem?_set_self hlt]
      obtain ⟨last, result, hrun, hlast, hops, hreturned⟩ := ih reply (hcalls.2 reply) hnext hproc'
      exact ⟨last, result, (Run.tail .refl hallowed hact).trans hrun, hlast, hops, hreturned⟩

end Machine

end SecurePastebin.Interleaving
