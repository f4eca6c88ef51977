import SecurePastebin.Core.Interleaving

/-!
# Components

The programs of a machine may, between calls of other kinds, run whole programs
of a component.  Seen through the component's calls, a run of the machine is
then a run of the component's own machine: every program it was asked to run is
a thread there, started no earlier and finished no later than within the thread
that asked for it.  What is known of all runs of the component is thereby known
of the machine.
-/

namespace SecurePastebin.Process

variable {Call : Type} {Reply : Call → Type} {Sub : Type} {SubReply : Sub → Type}
  {Value Result SubOp SubResult : Type}

theorem Proc.bind_assoc {Final : Type} (program : Proc Call Reply Value)
    (next : Value → Proc Call Reply Result) (last : Result → Proc Call Reply Final) :
    program >>= next >>= last = program >>= fun value => next value >>= last := by
  induction program with
  | ret value => rfl
  | call request rest ih =>
      rw [call_bind, call_bind, call_bind]
      exact congrArg _ (funext ih)

/-- A program that makes calls of other kinds and runs programs of a component
from beginning to end; `done` are those it has run so far, and what they
returned. -/
inductive Hosts (e : Embedding Sub SubReply Call Reply)
    (component : SubOp → Proc Sub SubReply SubResult) (may : SubOp → Prop)
    (post : List (SubOp × SubResult) → Value → Prop) :
    List (SubOp × SubResult) → Proc Call Reply Value → Prop
  | ret {done : List (SubOp × SubResult)} {value : Value} (hpost : post done value) :
      Hosts e component may post done (.ret value)
  | call {done : List (SubOp × SubResult)} {request : Call}
      {next : Reply request → Proc Call Reply Value} (hother : ∀ sub, request ≠ e.wrap sub)
      (hnext : ∀ reply, Hosts e component may post done (next reply)) :
      Hosts e component may post done (.call request next)
  | runs {done : List (SubOp × SubResult)} {op : SubOp} {Inner : Type}
      {inner : Proc Sub SubReply Inner} {result : Inner → SubResult}
      {next : Inner → Proc Call Reply Value} (hmay : may op)
      (hprogram : component op = result <$> inner)
      (hnext : ∀ value, Hosts e component may post (done ++ [(op, result value)]) (next value)) :
      Hosts e component may post done (inner.lift e >>= next)

namespace Hosts

variable {e : Embedding Sub SubReply Call Reply} {component : SubOp → Proc Sub SubReply SubResult}
  {may : SubOp → Prop} {mid : List (SubOp × SubResult) → Value → Prop}
  {post : List (SubOp × SubResult) → Result → Prop} {done : List (SubOp × SubResult)}

theorem bind {program : Proc Call Reply Value} {next : Value → Proc Call Reply Result}
    (hprogram : Hosts e component may mid done program)
    (hnext : ∀ done value, mid done value → Hosts e component may post done (next value)) :
    Hosts e component may post done (program >>= next) := by
  induction hprogram with
  | ret hpost => exact hnext _ _ hpost
  | call hother _ ih => exact .call hother ih
  | runs hmay hprogram _ ih =>
      rw [Proc.bind_assoc]
      exact .runs hmay hprogram ih

/-- A program of other calls only. -/
theorem of_callsOnly {program : Proc Call Reply Result} {allowed : Call → Prop}
    (hcalls : program.CallsOnly allowed) (hother : ∀ sub, ¬ allowed (e.wrap sub))
    (hpost : ∀ value, post done value) : Hosts e component may post done program := by
  induction program with
  | ret value => exact .ret (hpost value)
  | call request next ih =>
      refine .call ?_ fun reply => ih reply (hcalls.2 reply)
      rintro sub rfl
      exact hother sub hcalls.1

end Hosts

end SecurePastebin.Process

namespace SecurePastebin.Interleaving

open Process

variable {Store Op Call : Type} {Reply : Call → Type} {Choice Env Result : Type}
  {SubStore SubOp Sub : Type} {SubReply : Sub → Type} {SubChoice SubEnv SubResult : Type}

/-- What has to be known of a machine and its component: its programs host the
component's, and its calls act on the component's part of the store as the
component's own do, or not at all. -/
structure Composes (M : Machine Store Op Call Reply Choice Env Result)
    (C : Machine SubStore SubOp Sub SubReply SubChoice SubEnv SubResult)
    (e : Embedding Sub SubReply Call Reply) (part : Store → SubStore)
    (allowed : Config Store Op Call Reply Result → Action Op Choice Env → Prop)
    (permits : SubStore → Action SubOp SubChoice SubEnv → Prop)
    (may : Op → SubOp → Prop) (post : Op → List (SubOp × SubResult) → Result → Prop) : Prop where
  program : ∀ op, Hosts e C.program (may op) (post op) [] (M.program op)
  invoke : ∀ store op, permits store (.invoke op)
  exec : ∀ s i sub choice reply after, allowed s (.advance i choice) →
    M.exec s.store (e.wrap sub) choice = some (reply, after) →
    ∃ choice', C.exec (part s.store) sub choice' = some (e.reply sub reply, part after) ∧
      ∀ k, permits (part s.store) (.advance k choice')
  other : ∀ store request choice reply after, (∀ sub, request ≠ e.wrap sub) →
    M.exec store request choice = some (reply, after) → part after = part store
  env : ∀ s change after, allowed s (.env change) → M.env s.store change = some after →
    part after = part s.store ∨
      ∃ change', C.env (part s.store) change' = some (part after) ∧
        permits (part s.store) (.env change')

section

variable (e : Embedding Sub SubReply Call Reply)
  (component : SubOp → Proc Sub SubReply SubResult)

/-- Thread `i` is about to make a call of another kind, or is within a program
of the component that has begun, or has returned; `owner` says which thread has
asked for which program. -/
inductive Stands (may : SubOp → Prop) (post : List (SubOp × SubResult) → Result → Prop)
    (t : Config SubStore SubOp Sub SubReply SubResult) (owner : List ℕ) (i : ℕ) :
    List (SubOp × SubResult) → Proc Call Reply Result → Prop
  | returned {done : List (SubOp × SubResult)} {value : Result} (hpost : post done value) :
      Stands may post t owner i done (.ret value)
  | other {done : List (SubOp × SubResult)} {request : Call}
      {next : Reply request → Proc Call Reply Result} (hother : ∀ sub, request ≠ e.wrap sub)
      (hnext : ∀ reply, Hosts e component may post done (next reply)) :
      Stands may post t owner i done (.call request next)
  | within {done : List (SubOp × SubResult)} {k : ℕ} {op : SubOp} {Inner : Type} {sub : Sub}
      {inner : SubReply sub → Proc Sub SubReply Inner} {result : Inner → SubResult}
      {next : Inner → Proc Call Reply Result} (hop : t.ops[k]? = some op)
      (hproc : t.procs[k]? = some (result <$> Proc.call sub inner)) (howner : owner[k]? = some i)
      (hnext : ∀ value, Hosts e component may post (done ++ [(op, result value)]) (next value)) :
      Stands may post t owner i done ((Proc.call sub inner).lift e >>= next)

/-- Programs of the component that thread `i` has run. -/
def Finished (t : Config SubStore SubOp Sub SubReply SubResult) (owner : List ℕ) (i : ℕ)
    (done : List (SubOp × SubResult)) : Prop :=
  ∀ run ∈ done, ∃ k, owner[k]? = some i ∧ t.Returned k run.1 run.2

/-- The calls of the component among all answered calls, in their order, under
the threads they are made by there. -/
inductive Sublog (owner : List ℕ) :
    List (ℕ × Entry Call Reply) → List (ℕ × Entry Sub SubReply) → Prop
  | nil : Sublog owner [] []
  | other {log : List (ℕ × Entry Call Reply)} {sublog : List (ℕ × Entry Sub SubReply)} {i : ℕ}
      {entry : Entry Call Reply} (hlog : Sublog owner log sublog)
      (hother : ∀ sub, entry.1 ≠ e.wrap sub) : Sublog owner (log ++ [(i, entry)]) sublog
  | call {log : List (ℕ × Entry Call Reply)} {sublog : List (ℕ × Entry Sub SubReply)} {i k : ℕ}
      {entry : Entry Sub SubReply} (hlog : Sublog owner log sublog) (howner : owner[k]? = some i) :
      Sublog owner (log ++ [(i, e.entry entry)]) (sublog ++ [(k, entry)])

/-- The configuration of a machine, and that of its component. -/
structure Simulates (part : Store → SubStore) (may : Op → SubOp → Prop)
    (post : Op → List (SubOp × SubResult) → Result → Prop)
    (s : Config Store Op Call Reply Result) (t : Config SubStore SubOp Sub SubReply SubResult)
    (owner : List ℕ) : Prop where
  store : t.store = part s.store
  length : owner.length = t.ops.length
  log : Sublog e owner s.log t.log
  asked : ∀ (k i : ℕ) sub, owner[k]? = some i → t.ops[k]? = some sub →
    ∃ op, s.ops[i]? = some op ∧ may op sub
  threads : ∀ (i : ℕ) op proc, s.ops[i]? = some op → s.procs[i]? = some proc →
    ∃ done, Finished t owner i done ∧
      Stands e component (may op) (post op) t owner i done proc

end

/-! ## One thread -/

section Thread

variable {e : Embedding Sub SubReply Call Reply} {component : SubOp → Proc Sub SubReply SubResult}
  {may : SubOp → Prop} {post : List (SubOp × SubResult) → Result → Prop}
  {t t' : Config SubStore SubOp Sub SubReply SubResult} {owner owner' : List ℕ} {i : ℕ}
  {done : List (SubOp × SubResult)} {proc : Proc Call Reply Result}

/-- The threads of the component that belong to `i` have been left alone. -/
def Keeps (t t' : Config SubStore SubOp Sub SubReply SubResult) (owner owner' : List ℕ) (i : ℕ) :
    Prop :=
  ∀ k : ℕ, owner[k]? = some i →
    owner'[k]? = some i ∧ t'.ops[k]? = t.ops[k]? ∧ t'.procs[k]? = t.procs[k]?

theorem Finished.keep (hfinished : Finished t owner i done) (hkeeps : Keeps t t' owner owner' i) :
    Finished t' owner' i done := by
  intro run hrun
  obtain ⟨k, howner, hop, hproc⟩ := hfinished run hrun
  obtain ⟨howner', hops, hprocs⟩ := hkeeps k howner
  exact ⟨k, howner', hops.trans hop, hprocs.trans hproc⟩

theorem Stands.keep (hstands : Stands e component may post t owner i done proc)
    (hkeeps : Keeps t t' owner owner' i) :
    Stands e component may post t' owner' i done proc := by
  cases hstands with
  | returned hpost => exact .returned hpost
  | other hother hnext => exact .other hother hnext
  | within hop hproc howner hnext =>
      obtain ⟨howner', hops, hprocs⟩ := hkeeps _ howner
      exact .within (hops.trans hop) (hprocs.trans hproc) howner' hnext

/-- Further programs of the component have been asked for by thread `i`. -/
structure Grown (may : SubOp → Prop) (i : ℕ)
    (t t' : Config SubStore SubOp Sub SubReply SubResult) (owner owner' : List ℕ) : Prop where
  store : t'.store = t.store
  log : t'.log = t.log
  ops : t.ops <+: t'.ops
  procs : t.procs <+: t'.procs
  owners : owner <+: owner'
  length : owner'.length = t'.ops.length
  new : ∀ (k : ℕ) sub, owner.length ≤ k → t'.ops[k]? = some sub → owner'[k]? = some i ∧ may sub

theorem Grown.refl (hlength : owner.length = t.ops.length) : Grown may i t t owner owner where
  store := rfl
  log := rfl
  ops := List.prefix_rfl
  procs := List.prefix_rfl
  owners := List.prefix_rfl
  length := hlength
  new k sub hk hop := by
    have := (List.getElem?_eq_some_iff.mp hop).1
    omega

private theorem getElem?_of_front {α : Type} {front list : List α} (hfront : front <+: list)
    {k : ℕ} (hk : k < front.length) : list[k]? = front[k]? := by
  obtain ⟨back, rfl⟩ := hfront
  exact List.getElem?_append_left hk

theorem Grown.keeps (hgrown : Grown may i t t' owner owner')
    (hlength : owner.length = t.ops.length) (hprocs : t.procs.length = t.ops.length) (j : ℕ) :
    Keeps t t' owner owner' j := by
  intro k howner
  have hk : k < owner.length := (List.getElem?_eq_some_iff.mp howner).1
  exact ⟨(getElem?_of_front hgrown.owners hk).trans howner,
    getElem?_of_front hgrown.ops (by omega), getElem?_of_front hgrown.procs (by omega)⟩

variable {C : Machine SubStore SubOp Sub SubReply SubChoice SubEnv SubResult}
  {permits : SubStore → Action SubOp SubChoice SubEnv → Prop}

/-- A program that begins with programs of the component starts them, up to the
first of them that has to wait. -/
theorem exists_stands (hinvoke : ∀ store op, permits store (.invoke op))
    (hhosts : Hosts e C.program may post done proc) (hfinished : Finished t owner i done)
    (hlength : owner.length = t.ops.length) (hprocs : t.procs.length = t.ops.length) :
    ∃ t' owner' done', C.Run (fun t action => permits t.store action) t t' ∧
      Grown may i t t' owner owner' ∧ Finished t' owner' i done' ∧
      Stands e C.program may post t' owner' i done' proc := by
  induction hhosts generalizing t owner with
  | @ret done value hpost =>
      exact ⟨t, owner, done, .refl, .refl hlength, hfinished, .returned hpost⟩
  | @call done request next hother hnext _ =>
      exact ⟨t, owner, done, .refl, .refl hlength, hfinished, .other hother hnext⟩
  | @runs done op Inner inner result next hmay hprogram hnext ih =>
      have hstep : C.Run (fun t action => permits t.store action) t
          (t.invoke op (result <$> inner)) := by
        rw [← hprogram]
        exact .tail .refl (hinvoke t.store op) rfl
      have hgrown : Grown may i t (t.invoke op (result <$> inner)) owner (owner ++ [i]) := by
        refine ⟨rfl, rfl, List.prefix_append _ _, List.prefix_append _ _, List.prefix_append _ _,
          by simp [Config.invoke, hlength], ?_⟩
        intro k sub hk hop
        rw [Config.invoke] at hop
        have hlast : k = t.ops.length := by
          have := (List.getElem?_eq_some_iff.mp hop).1
          rw [List.length_append, List.length_singleton] at this
          omega
        subst hlast
        rw [List.getElem?_concat_length] at hop
        cases hop
        exact ⟨by rw [← hlength, List.getElem?_concat_length], hmay⟩
      have hkept := hfinished.keep (hgrown.keeps hlength hprocs i)
      have howner : (owner ++ [i])[t.ops.length]? = some i := by
        rw [← hlength, List.getElem?_concat_length]
      have hop : (t.invoke op (result <$> inner)).ops[t.ops.length]? = some op := by
        rw [Config.invoke, List.getElem?_concat_length]
      have hproc : (t.invoke op (result <$> inner)).procs[t.ops.length]? =
          some (result <$> inner) := by
        rw [Config.invoke, ← hprocs, List.getElem?_concat_length]
      cases inner with
      | call sub rest =>
          exact ⟨_, _, done, hstep, hgrown, hkept, .within hop hproc howner hnext⟩
      | ret value =>
          -- it has returned without a call
          have hdone : Finished (t.invoke op (result <$> Proc.ret value)) (owner ++ [i]) i
              (done ++ [(op, result value)]) := by
            intro run hrun
            rcases List.mem_append.mp hrun with hrun | hrun
            · exact hkept run hrun
            · rw [List.mem_singleton.mp hrun]
              exact ⟨_, howner, hop, hproc⟩
          obtain ⟨t', owner', done', hrun, hmore, hdone', hstands⟩ := ih value hdone
            (by simp [Config.invoke, hlength]) (by simp [Config.invoke, hprocs])
          refine ⟨t', owner', done', hstep.trans hrun, ?_, hdone', hstands⟩
          refine ⟨hmore.store, hmore.log, hgrown.ops.trans hmore.ops, hgrown.procs.trans hmore.procs,
            hgrown.owners.trans hmore.owners, hmore.length, ?_⟩
          intro k sub hk hsub
          by_cases hnew : (owner ++ [i]).length ≤ k
          · exact hmore.new k sub hnew hsub
          · have hkeep := hmore.keeps (by simp [Config.invoke, hlength])
              (by simp [Config.invoke, hprocs]) i k (by
                have hlast : k = owner.length := by
                  rw [List.length_append, List.length_singleton] at hnew
                  omega
                rw [hlast, List.getElem?_concat_length])
            refine ⟨hkeep.1, (hgrown.new k sub hk ?_).2⟩
            rw [← hkeep.2.1]
            exact hsub

end Thread

/-! ## Runs -/

section Run

variable {M : Machine Store Op Call Reply Choice Env Result}
  {C : Machine SubStore SubOp Sub SubReply SubChoice SubEnv SubResult}
  {e : Embedding Sub SubReply Call Reply} {part : Store → SubStore}
  {allowed : Config Store Op Call Reply Result → Action Op Choice Env → Prop}
  {permits : SubStore → Action SubOp SubChoice SubEnv → Prop} {may : Op → SubOp → Prop}
  {post : Op → List (SubOp × SubResult) → Result → Prop}
  {s next last : Config Store Op Call Reply Result}
  {t : Config SubStore SubOp Sub SubReply SubResult} {owner owner' : List ℕ}

variable {log : List (ℕ × Entry Call Reply)} {sublog : List (ℕ × Entry Sub SubReply)} {i : ℕ}
  {op : Op} {done : List (SubOp × SubResult)} {choice : Choice} {after : Store} {sub : Sub}
  {reply : Reply (e.wrap sub)}

theorem Sublog.grow (hlog : Sublog e owner log sublog) (howners : owner <+: owner') :
    Sublog e owner' log sublog := by
  induction hlog with
  | nil => exact .nil
  | other _ hother ih => exact ih.other hother
  | call _ howner ih =>
      have hk := (List.getElem?_eq_some_iff.mp howner).1
      exact ih.call ((getElem?_of_front howners hk).trans howner)

theorem simulates_initial (store : Store) :
    Simulates e C.program part may post (.initial store) (.initial (part store)) [] where
  store := rfl
  length := rfl
  log := .nil
  asked k i sub howner := by simp at howner
  threads i op proc hop := by simp [Config.initial] at hop

/-- A thread has come to a program that hosts the component's; the others stand
where they stood. -/
theorem exists_simulates {proc : Proc Call Reply Result}
    (hinvoke : ∀ store op, permits store (.invoke op))
    (hstore : t.store = part s.store) (hlength : owner.length = t.ops.length)
    (hprocs : t.procs.length = t.ops.length) (hlog : Sublog e owner s.log t.log)
    (hasked : ∀ (k i : ℕ) sub, owner[k]? = some i → t.ops[k]? = some sub →
      ∃ op, s.ops[i]? = some op ∧ may op sub)
    (hop : s.ops[i]? = some op) (hproc : s.procs[i]? = some proc)
    (hhosts : Hosts e C.program (may op) (post op) done proc) (hfinished : Finished t owner i done)
    (hothers : ∀ (j : ℕ) op proc, j ≠ i → s.ops[j]? = some op → s.procs[j]? = some proc →
      ∃ done, Finished t owner j done ∧
        Stands e C.program (may op) (post op) t owner j done proc) :
    ∃ t' owner', C.Run (fun t action => permits t.store action) t t' ∧ owner <+: owner' ∧
      Simulates e C.program part may post s t' owner' := by
  obtain ⟨t', owner', done', hrun, hgrown, hdone, hstands⟩ :=
    exists_stands hinvoke hhosts hfinished hlength hprocs
  have hkeeps := hgrown.keeps hlength hprocs
  refine ⟨t', owner', hrun, hgrown.owners, hgrown.store.trans hstore, hgrown.length, ?_, ?_, ?_⟩
  · rw [hgrown.log]
    exact hlog.grow hgrown.owners
  · intro k j sub howner hsub
    by_cases hold : k < owner.length
    · rw [getElem?_of_front hgrown.owners hold] at howner
      rw [(hkeeps j k howner).2.1] at hsub
      exact hasked k j sub howner hsub
    · obtain ⟨hnew, hmay⟩ := hgrown.new k sub (not_lt.mp hold) hsub
      rw [hnew] at howner
      cases howner
      exact ⟨op, hop, hmay⟩
  · intro j other now hother hnow
    by_cases hij : j = i
    · subst hij
      rw [hop] at hother
      rw [hproc] at hnow
      cases hother
      cases hnow
      exact ⟨done', hdone, hstands⟩
    · obtain ⟨found, hfound, hthere⟩ := hothers j other now hij hother hnow
      exact ⟨found, hfound.keep (hkeeps j), hthere.keep (hkeeps j)⟩

/-- A call of another kind. -/
theorem Simulates.other (hcomposes : Composes M C e part allowed permits may post)
    (hsim : Simulates e C.program part may post s t owner) (hwf : C.WellFormed t)
    {request : Call} {rest : Reply request → Proc Call Reply Result} {reply : Reply request}
    (hop : s.ops[i]? = some op) (hproc : s.procs[i]? = some (.call request rest))
    (hother : ∀ sub, request ≠ e.wrap sub)
    (hexec : M.exec s.store request choice = some (reply, after))
    (hnext : ∀ reply, Hosts e C.program (may op) (post op) done (rest reply))
    (hfinished : Finished t owner i done) :
    ∃ t' owner', C.Run (fun t action => permits t.store action) t t' ∧ owner <+: owner' ∧
      Simulates e C.program part may post (s.answer i (rest reply) ⟨request, reply⟩ after) t'
        owner' := by
  have hlt : i < s.procs.length := (List.getElem?_eq_some_iff.mp hproc).1
  refine exists_simulates (i := i) hcomposes.invoke ?_ hsim.length hwf.length_procs
    (hsim.log.other hother) hsim.asked hop (List.getElem?_set_self hlt) (hnext reply) hfinished ?_
  · rw [hsim.store, Config.store_answer, hcomposes.other _ _ _ _ _ hother hexec]
  · intro j other now hij hop' hnow
    rw [Config.answer, List.getElem?_set_ne (Ne.symm hij)] at hnow
    exact hsim.threads j other now hop' hnow

/-- The component makes the step that the machine makes with one of its calls. -/
theorem exists_advance (hcomposes : Composes M C e part allowed permits may post)
    (hstore : t.store = part s.store) (hwf : C.WellFormed t) {i k : ℕ} {Inner : Type}
    {inner : SubReply sub → Proc Sub SubReply Inner} {result : Inner → SubResult}
    (hallowed : allowed s (.advance i choice))
    (hexec : M.exec s.store (e.wrap sub) choice = some (reply, after))
    (hproc : t.procs[k]? = some (result <$> Proc.call sub inner)) :
    ∃ u, C.Run (fun t action => permits t.store action) t u ∧ u.store = part after ∧
      u.ops = t.ops ∧ u.procs.length = u.ops.length ∧
      u.log = t.log ++ [(k, ⟨sub, e.reply sub reply⟩)] ∧
      u.procs[k]? = some (result <$> inner (e.reply sub reply)) ∧
      ∀ k', k ≠ k' → u.procs[k']? = t.procs[k']? := by
  obtain ⟨choice', hsubexec, hpermits⟩ := hcomposes.exec s i sub choice reply after hallowed hexec
  rw [← hstore] at hsubexec hpermits
  have hact : C.act t (.advance k choice') = some (t.answer k
      (result <$> inner (e.reply sub reply)) ⟨sub, e.reply sub reply⟩ (part after)) := by
    simp only [Machine.act, hproc, Proc.map_eq_bind, Proc.call_bind, hsubexec, Option.map_some]
  have hlt : k < t.procs.length := (List.getElem?_eq_some_iff.mp hproc).1
  exact ⟨_, .tail .refl (hpermits k) hact, rfl, rfl, by simp [Config.answer, hwf.length_procs], rfl,
    List.getElem?_set_self hlt, fun k' hne => List.getElem?_set_ne hne⟩

/-- A call of the component, by the program of it that is under way. -/
theorem Simulates.within (hcomposes : Composes M C e part allowed permits may post)
    (hsim : Simulates e C.program part may post s t owner) (hwf : C.WellFormed t) {i k : ℕ}
    {subop : SubOp} {Inner : Type} {inner : SubReply sub → Proc Sub SubReply Inner}
    {result : Inner → SubResult} {rest : Inner → Proc Call Reply Result}
    (hallowed : allowed s (.advance i choice))
    (hop : s.ops[i]? = some op) (hlt : i < s.procs.length)
    (hexec : M.exec s.store (e.wrap sub) choice = some (reply, after))
    (hsubop : t.ops[k]? = some subop)
    (hsubproc : t.procs[k]? = some (result <$> Proc.call sub inner)) (howner : owner[k]? = some i)
    (hnext : ∀ value, Hosts e C.program (may op) (post op) (done ++ [(subop, result value)])
      (rest value)) (hfinished : Finished t owner i done) :
    ∃ t' owner', C.Run (fun t action => permits t.store action) t t' ∧ owner <+: owner' ∧
      Simulates e C.program part may post
        (s.answer i ((inner (e.reply sub reply)).lift e >>= rest) ⟨e.wrap sub, reply⟩ after) t'
        owner' := by
  obtain ⟨u, hstep, hstore, hops, hprocs, hlog, hsame, hrest⟩ :=
    exists_advance hcomposes hsim.store hwf hallowed hexec hsubproc
  rw [← hops] at hsubop
  have hlength : owner.length = u.ops.length := by rw [hops, hsim.length]
  have hentry : (⟨e.wrap sub, reply⟩ : Entry Call Reply) = e.entry ⟨sub, e.reply sub reply⟩ := by
    simp [Embedding.entry]
  have hsublog : Sublog e owner (s.log ++ [(i, ⟨e.wrap sub, reply⟩)]) u.log := by
    rw [hentry, hlog]
    exact hsim.log.call howner
  have hasked : ∀ (k i : ℕ) sub, owner[k]? = some i → u.ops[k]? = some sub →
      ∃ op, s.ops[i]? = some op ∧ may op sub := by
    rw [hops]
    exact hsim.asked
  have hkept : Finished u owner i done := by
    intro run hrun
    obtain ⟨k', howner', hop', hproc'⟩ := hfinished run hrun
    refine ⟨k', howner', by rw [hops, hop'], (hrest k' ?_).trans hproc'⟩
    rintro rfl
    rw [hsubproc] at hproc'
    cases hproc'
  -- the threads of the component that belong to others are left alone
  have hothers : ∀ (j : ℕ) other now, j ≠ i → s.ops[j]? = some other →
      (s.procs.set i ((inner (e.reply sub reply)).lift e >>= rest))[j]? = some now →
      ∃ done, Finished u owner j done ∧
        Stands e C.program (may other) (post other) u owner j done now := by
    intro j other now hij hop' hnow
    rw [List.getElem?_set_ne (Ne.symm hij)] at hnow
    obtain ⟨found, hfound, hthere⟩ := hsim.threads j other now hop' hnow
    have hkeeps : Keeps t u owner owner j := by
      intro k' howner'
      refine ⟨howner', by rw [hops], hrest k' ?_⟩
      rintro rfl
      rw [howner] at howner'
      exact hij (Option.some.inj howner').symm
    exact ⟨found, hfound.keep hkeeps, hthere.keep hkeeps⟩
  cases hinner : inner (e.reply sub reply) with
  | call sub' inner' =>
      rw [hinner] at hsame hothers
      refine ⟨u, owner, hstep, List.prefix_rfl, hstore, hlength, hsublog, hasked, ?_⟩
      intro j other now hop' hnow
      by_cases hij : j = i
      · subst hij
        rw [Config.answer, List.getElem?_set_self hlt] at hnow
        cases hnow
        obtain rfl := Option.some.inj (hop.symm.trans hop')
        exact ⟨done, hkept, .within hsubop hsame howner hnext⟩
      · exact hothers j other now hij hop' hnow
  | ret value =>
      rw [hinner] at hsame hothers
      have hdone : Finished u owner i (done ++ [(subop, result value)]) := by
        intro run hrun
        rcases List.mem_append.mp hrun with hrun | hrun
        · exact hkept run hrun
        · rw [List.mem_singleton.mp hrun]
          exact ⟨k, howner, hsubop, hsame⟩
      obtain ⟨t', owner', hrun, howners, hnew⟩ := exists_simulates (i := i) (t := u)
        (s := s.answer i ((Proc.ret value).lift e >>= rest) ⟨e.wrap sub, reply⟩ after)
        hcomposes.invoke hstore hlength hprocs hsublog hasked hop (List.getElem?_set_self hlt)
        (hnext value) hdone hothers
      exact ⟨t', owner', hstep.trans hrun, howners, hnew⟩

/-- A step of the machine is some steps of its component, or none. -/
theorem Simulates.act {action : Action Op Choice Env}
    (hcomposes : Composes M C e part allowed permits may post)
    (hsim : Simulates e C.program part may post s t owner) (hwf : M.WellFormed s)
    (hwf' : C.WellFormed t) (hallowed : allowed s action) (hact : M.act s action = some next) :
    ∃ t' owner', C.Run (fun t action => permits t.store action) t t' ∧ owner <+: owner' ∧
      Simulates e C.program part may post next t' owner' := by
  rcases Machine.act_cases hact with ⟨change, after, rfl, henv, rfl⟩ | ⟨op, rfl, rfl⟩ |
    ⟨i, choice, request, rest, reply, after, rfl, hproc, hexec, rfl⟩
  · rcases hcomposes.env s change after hallowed henv with hsame | ⟨change', hsubenv, hpermits⟩
    · exact ⟨t, owner, .refl, List.prefix_rfl, by rw [hsim.store, hsame], hsim.length, hsim.log,
        hsim.asked, hsim.threads⟩
    · rw [← hsim.store] at hsubenv hpermits
      have hstep : C.act t (.env change') = some { t with store := part after } := by
        simp only [Machine.act, hsubenv, Option.map_some]
      refine ⟨_, owner, .tail .refl hpermits hstep, List.prefix_rfl, rfl, hsim.length, hsim.log,
        hsim.asked, ?_⟩
      intro i op proc hop hproc
      obtain ⟨done, hfinished, hstands⟩ := hsim.threads i op proc hop hproc
      have hkeeps : Keeps t { t with store := part after } owner owner i := fun k howner =>
        ⟨howner, rfl, rfl⟩
      exact ⟨done, hfinished.keep hkeeps, hstands.keep hkeeps⟩
  · have hlength := hwf.length_procs
    have hnone : Finished t owner s.ops.length [] := by simp [Finished]
    refine exists_simulates (i := s.ops.length) hcomposes.invoke hsim.store hsim.length
      hwf'.length_procs hsim.log ?_ List.getElem?_concat_length
      (by rw [← hlength, Config.invoke, List.getElem?_concat_length]) (hcomposes.program op) hnone ?_
    · intro k i sub howner hsub
      obtain ⟨found, hfound, hmay⟩ := hsim.asked k i sub howner hsub
      exact ⟨found, (Config.extends_invoke op _).op hfound, hmay⟩
    · intro j other now hij hother hnow
      have hold : s.ops[j]? = some other := (s.ops_invoke hother).resolve_right fun hnew =>
        hij hnew.1
      have hlt : j < s.procs.length := by
        rw [hlength]
        exact (List.getElem?_eq_some_iff.mp hold).1
      rw [Config.invoke, List.getElem?_append_left hlt] at hnow
      exact hsim.threads j other now hold hnow
  · have hlt : i < s.procs.length := (List.getElem?_eq_some_iff.mp hproc).1
    obtain ⟨op, hop, -⟩ := hwf.reaches_waiting hproc
    obtain ⟨done, hfinished, hstands⟩ := hsim.threads i _ _ hop hproc
    generalize hcall : Proc.call request rest = proc at hstands
    cases hstands with
    | returned _ => cases hcall
    | other hother hnext =>
        cases hcall
        exact hsim.other hcomposes hwf' hop hproc hother hexec hnext hfinished
    | within hsubop hsubproc howner hnext =>
        cases hcall
        exact hsim.within hcomposes hwf' hallowed hop hlt hexec hsubop hsubproc howner hnext hfinished

/-- A run of the machine is a run of its component. -/
theorem Simulates.run (hcomposes : Composes M C e part allowed permits may post)
    (hsim : Simulates e C.program part may post s t owner) (hwf : M.WellFormed s)
    (hwf' : C.WellFormed t) (hrun : M.Run allowed s last) :
    ∃ t' owner', C.Run (fun t action => permits t.store action) t t' ∧ owner <+: owner' ∧
      Simulates e C.program part may post last t' owner' := by
  induction hrun with
  | refl => exact ⟨t, owner, .refl, List.prefix_rfl, hsim⟩
  | tail hpast hallowed hact ih =>
      obtain ⟨u, mid, hrun, howners, hmid⟩ := ih
      obtain ⟨u', mid', hrest, howners', hlast⟩ := hmid.act hcomposes (hpast.wellFormed hwf)
        (hrun.wellFormed hwf') hallowed hact
      exact ⟨u', mid', hrun.trans hrest, howners.trans howners', hlast⟩

/-! ## What carries over -/

theorem Sublog.did (hlog : Sublog e owner log sublog) {k : ℕ} {entry : Entry Sub SubReply}
    (hmem : (k, entry) ∈ sublog) : ∃ i, owner[k]? = some i ∧ (i, e.entry entry) ∈ log := by
  induction hlog with
  | nil => cases hmem
  | other _ _ ih =>
      obtain ⟨i, howner, hfound⟩ := ih hmem
      exact ⟨i, howner, List.mem_append_left _ hfound⟩
  | call _ howner ih =>
      rcases List.mem_append.mp hmem with hmem | hmem
      · obtain ⟨i, hi, hfound⟩ := ih hmem
        exact ⟨i, hi, List.mem_append_left _ hfound⟩
      · cases List.mem_singleton.mp hmem
        exact ⟨_, howner, List.mem_append_right _ (List.mem_singleton.mpr rfl)⟩

theorem Sublog.called (hlog : Sublog e owner log sublog) (hinjective : Function.Injective e.wrap)
    (hmem : (i, ⟨e.wrap sub, reply⟩) ∈ log) :
    ∃ k, owner[k]? = some i ∧ (k, ⟨sub, e.reply sub reply⟩) ∈ sublog := by
  induction hlog with
  | nil => cases hmem
  | other _ hother ih =>
      rcases List.mem_append.mp hmem with hmem | hmem
      · exact ih hmem
      · cases List.mem_singleton.mp hmem
        exact absurd rfl (hother sub)
  | @call log sublog j k entry _ howner ih =>
      rcases List.mem_append.mp hmem with hmem | hmem
      · obtain ⟨k, hk, hfound⟩ := ih hmem
        exact ⟨k, hk, List.mem_append_left _ hfound⟩
      · obtain ⟨rfl, hentry⟩ := Prod.mk.inj (List.mem_singleton.mp hmem)
        obtain ⟨found, answer⟩ := entry
        obtain ⟨hwrap, hreply⟩ := Sigma.mk.inj hentry
        obtain rfl := hinjective hwrap
        rw [eq_of_heq hreply, Equiv.apply_symm_apply]
        exact ⟨k, howner, List.mem_append_right _ (List.mem_singleton.mpr rfl)⟩

/-- A call of the component was made by one of its programs. -/
theorem Simulates.called (hsim : Simulates e C.program part may post s t owner)
    (hinjective : Function.Injective e.wrap) (hdid : s.Did i (e.wrap sub) reply) :
    ∃ k, owner[k]? = some i ∧ t.Did k sub (e.reply sub reply) :=
  hsim.log.called hinjective hdid

/-- What a thread returns is what it makes of the results of the component's
programs it has run. -/
theorem Simulates.returned (hsim : Simulates e C.program part may post s t owner)
    {result : Result} (hreturned : s.Returned i op result) :
    ∃ done, Finished t owner i done ∧ post op done result := by
  obtain ⟨done, hfinished, hstands⟩ := hsim.threads i op _ hreturned.1 hreturned.2
  generalize hproc : Proc.ret result = proc at hstands
  cases hstands with
  | returned hpost =>
      cases hproc
      exact ⟨done, hfinished, hpost⟩
  | _ => cases hproc

/-- The component's programs for a later thread are later threads. -/
theorem Simulates.later (hsim : Simulates e C.program part may post s t owner)
    (howners : owner <+: owner') {k i : ℕ} (howner : owner'[k]? = some i)
    (hi : s.ops.length ≤ i) : t.ops.length ≤ k := by
  by_contra hlt
  have hk : k < owner.length := by
    rw [hsim.length]
    exact not_le.mp hlt
  rw [getElem?_of_front howners hk] at howner
  obtain ⟨op, hop, -⟩ := hsim.asked k i _ howner (List.getElem?_eq_getElem (not_le.mp hlt))
  have := (List.getElem?_eq_some_iff.mp hop).1
  omega

end Run

end SecurePastebin.Interleaving
