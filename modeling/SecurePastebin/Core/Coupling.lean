import SecurePastebin.Core.Interleaving

/-!
# Two runs side by side

Two programs are coupled if corresponding calls are linked and, as long as
corresponding replies are alike, the programs stay coupled.  Two runs of one
machine that perform corresponding actions then keep corresponding stores and
logs, and where one of them can go on so can the other.
-/

namespace SecurePastebin.Process

variable {Call : Type} {Reply : Call → Type} {Left Right Left' Right' : Type}

inductive Coupled (linked : Call → Call → Prop)
    (alike : Entry Call Reply → Entry Call Reply → Prop) (same : Left → Right → Prop) :
    Proc Call Reply Left → Proc Call Reply Right → Prop
  | ret {left : Left} {right : Right} (hsame : same left right) :
      Coupled linked alike same (.ret left) (.ret right)
  | call {request request' : Call} {next : Reply request → Proc Call Reply Left}
      {next' : Reply request' → Proc Call Reply Right} (hlinked : linked request request')
      (hnext : ∀ reply reply', alike ⟨request, reply⟩ ⟨request', reply'⟩ →
        Coupled linked alike same (next reply) (next' reply')) :
      Coupled linked alike same (.call request next) (.call request' next')

namespace Coupled

variable {linked : Call → Call → Prop} {alike : Entry Call Reply → Entry Call Reply → Prop}
  {same : Left → Right → Prop} {same' : Left' → Right' → Prop}

theorem bind {left : Proc Call Reply Left} {right : Proc Call Reply Right}
    {next : Left → Proc Call Reply Left'} {next' : Right → Proc Call Reply Right'}
    (hcoupled : Coupled linked alike same left right)
    (hnext : ∀ value value', same value value' →
      Coupled linked alike same' (next value) (next' value')) :
    Coupled linked alike same' (left >>= next) (right >>= next') := by
  induction hcoupled with
  | ret hsame => exact hnext _ _ hsame
  | call hlinked _ ih => exact .call hlinked ih

/-- Branches taken alike. -/
theorem ite {condition condition' : Prop} [Decidable condition] [Decidable condition']
    {left other : Proc Call Reply Left} {right other' : Proc Call Reply Right}
    (hiff : condition ↔ condition') (hthen : Coupled linked alike same left right)
    (helse : ¬ condition → Coupled linked alike same other other') :
    Coupled linked alike same (if condition then left else other)
      (if condition' then right else other') := by
  by_cases hcondition : condition
  · rw [if_pos hcondition, if_pos (hiff.mp hcondition)]
    exact hthen
  · rw [if_neg hcondition, if_neg fun hother => hcondition (hiff.mpr hother)]
    exact helse hcondition

end Coupled

end SecurePastebin.Process

namespace SecurePastebin.Interleaving

open Process

variable {Store Op Call : Type} {Reply : Call → Type} {Choice Env Result : Type}

theorem Config.Extends.entry {s next : Config Store Op Call Reply Result}
    (hextends : s.Extends next) {k : ℕ} {entry : ℕ × Entry Call Reply}
    (hentry : s.log[k]? = some entry) : next.log[k]? = some entry := by
  obtain ⟨rest, hrest⟩ := hextends.log
  have hlt : k < s.log.length := (List.getElem?_eq_some_iff.mp hentry).1
  rw [← hrest, List.getElem?_append_left hlt, hentry]

/-- What corresponds to what in two runs; which replies are alike may depend on
the operations of the thread. -/
structure Link (Store Op Call : Type) (Reply : Call → Type) (Choice Env : Type) where
  store : Store → Store → Prop
  op : Op → Op → Prop
  call : Call → Call → Prop
  entry : Op → Op → Entry Call Reply → Entry Call Reply → Prop
  choice : Choice → Choice → Prop
  env : Env → Env → Prop

variable (L : Link Store Op Call Reply Choice Env)

/-- Corresponding actions: the same kind, and the same thread advances. -/
inductive Link.Paired : Action Op Choice Env → Action Op Choice Env → Prop
  | env {change change' : Env} (hlink : L.env change change') : Paired (.env change) (.env change')
  | invoke {op op' : Op} (hlink : L.op op op') : Paired (.invoke op) (.invoke op')
  | advance (i : ℕ) {choice choice' : Choice} (hlink : L.choice choice choice') :
      Paired (.advance i choice) (.advance i choice')

/-- Corresponding configurations. -/
structure Link.Matched (s t : Config Store Op Call Reply Result) : Prop where
  store : L.store s.store t.store
  ops : List.Forall₂ L.op s.ops t.ops
  procs : s.procs.length = t.procs.length
  coupled : ∀ (i : ℕ) op op' proc proc', s.ops[i]? = some op → t.ops[i]? = some op' →
    s.procs[i]? = some proc → t.procs[i]? = some proc' →
      Coupled L.call (L.entry op op') (fun _ _ => True) proc proc'
  log : List.Forall₂ (fun entry entry' => entry.1 = entry'.1 ∧
    ∃ op op', L.op op op' ∧ L.entry op op' entry.2 entry'.2) s.log t.log

namespace Machine

variable (M : Machine Store Op Call Reply Choice Env Result)

/-- Two runs that perform corresponding actions and are alike after each of
them. -/
inductive DoubleRun (alike : Config Store Op Call Reply Result →
    Config Store Op Call Reply Result → Prop) (s₀ t₀ : Config Store Op Call Reply Result) :
    Config Store Op Call Reply Result → Config Store Op Call Reply Result → Prop
  | refl : DoubleRun alike s₀ t₀ s₀ t₀
  | tail {s t s' t' : Config Store Op Call Reply Result} {action action' : Action Op Choice Env}
      (hruns : DoubleRun alike s₀ t₀ s t) (hpaired : L.Paired action action')
      (hact : M.act s action = some s') (hact' : M.act t action' = some t')
      (halike : alike s' t') : DoubleRun alike s₀ t₀ s' t'

/-- What has to be known of one step of two runs. -/
structure Couples (alike : Config Store Op Call Reply Result →
    Config Store Op Call Reply Result → Prop) (s₀ t₀ : Config Store Op Call Reply Result) :
    Prop where
  program : ∀ op op', L.op op op' →
    Coupled L.call (L.entry op op') (fun _ _ => True) (M.program op) (M.program op')
  env : ∀ σ τ change change' σ' τ', L.store σ τ → L.env change change' →
    M.env σ change = some σ' → M.env τ change' = some τ' → L.store σ' τ'
  exec : ∀ s t, M.DoubleRun L alike s₀ t₀ s t → L.Matched s t →
    ∀ (i : ℕ) op op' request request', s.ops[i]? = some op → t.ops[i]? = some op' →
    L.op op op' → s.pending? i = some request → t.pending? i = some request' →
    L.call request request' → ∀ choice choice', L.choice choice choice' →
    ∀ reply reply' σ τ, M.exec s.store request choice = some (reply, σ) →
    M.exec t.store request' choice' = some (reply', τ) →
    ∀ proc proc', alike (s.answer i proc ⟨request, reply⟩ σ) (t.answer i proc' ⟨request', reply'⟩ τ) →
      L.store σ τ ∧ L.entry op op' ⟨request, reply⟩ ⟨request', reply'⟩

variable {M L} {alike : Config Store Op Call Reply Result →
  Config Store Op Call Reply Result → Prop} {s₀ t₀ s t : Config Store Op Call Reply Result}

theorem DoubleRun.left (hruns : M.DoubleRun L alike s₀ t₀ s t) :
    M.Run (fun _ _ => True) s₀ s := by
  induction hruns with
  | refl => exact .refl
  | tail _ _ hact _ _ ih => exact ih.tail trivial hact

theorem DoubleRun.right (hruns : M.DoubleRun L alike s₀ t₀ s t) :
    M.Run (fun _ _ => True) t₀ t := by
  induction hruns with
  | refl => exact .refl
  | tail _ _ _ hact' _ ih => exact ih.tail trivial hact'

/-- If being alike goes back in time, it is enough to know it at the end. -/
theorem DoubleRun.strengthen
    (hback : ∀ s t s' t' : Config Store Op Call Reply Result, s.Extends s' → t.Extends t' →
      alike s' t' → alike s t)
    (hruns : M.DoubleRun L (fun _ _ => True) s₀ t₀ s t) (halike : alike s t) :
    M.DoubleRun L alike s₀ t₀ s t := by
  induction hruns with
  | refl => exact .refl
  | tail _ hpaired hact hact' _ ih =>
      have hstep : M.Run (fun _ _ => True) _ _ := .tail .refl trivial hact
      have hstep' : M.Run (fun _ _ => True) _ _ := .tail .refl trivial hact'
      exact .tail (ih (hback _ _ _ _ hstep.extends hstep'.extends halike)) hpaired hact hact' halike

/-- Corresponding schedules that can be performed make two runs. -/
theorem DoubleRun.of_perform {schedule schedule' : List (Action Op Choice Env)}
    {s' t' : Config Store Op Call Reply Result}
    (hruns : M.DoubleRun L (fun _ _ => True) s₀ t₀ s t)
    (hpaired : List.Forall₂ L.Paired schedule schedule')
    (hleft : M.perform (fun _ _ => true) s schedule = some s')
    (hright : M.perform (fun _ _ => true) t schedule' = some t') :
    M.DoubleRun L (fun _ _ => True) s₀ t₀ s' t' := by
  induction hpaired generalizing s t with
  | nil =>
      cases hleft
      cases hright
      exact hruns
  | cons hfirst _ ih =>
      simp only [perform, if_true] at hleft hright
      obtain ⟨mid, hact, hleft⟩ := Option.bind_eq_some_iff.mp hleft
      obtain ⟨mid', hact', hright⟩ := Option.bind_eq_some_iff.mp hright
      exact ih (hruns.tail hfirst hact hact' trivial) hleft hright

/-- Two empty configurations over corresponding stores match. -/
theorem matched_initial {σ τ : Store} (hstore : L.store σ τ) :
    L.Matched (Config.initial σ : Config Store Op Call Reply Result) (Config.initial τ) where
  store := hstore
  ops := .nil
  procs := rfl
  coupled i op op' proc proc' hop := by simp [Config.initial] at hop
  log := .nil

/-- A thread has a counterpart. -/
theorem thread_of_matched (hmatched : L.Matched s t) (hwf : M.WellFormed s) {i : ℕ}
    {proc : Proc Call Reply Result} (hproc : s.procs[i]? = some proc) :
    ∃ op op' proc', s.ops[i]? = some op ∧ t.ops[i]? = some op' ∧ t.procs[i]? = some proc' ∧
      L.op op op' ∧ Coupled L.call (L.entry op op') (fun _ _ => True) proc proc' := by
  have hlt : i < s.procs.length := (List.getElem?_eq_some_iff.mp hproc).1
  have hops : i < s.ops.length := hwf.length_procs ▸ hlt
  have hops' : i < t.ops.length := hmatched.ops.length_eq ▸ hops
  have hprocs : i < t.procs.length := hmatched.procs ▸ hlt
  have hop := List.getElem?_eq_getElem hops
  have hop' := List.getElem?_eq_getElem hops'
  have hproc' := List.getElem?_eq_getElem hprocs
  exact ⟨_, _, _, hop, hop', hproc', hmatched.ops.get hops hops',
    hmatched.coupled i _ _ _ _ hop hop' hproc hproc'⟩

private theorem getElem?_snoc {α : Type} {list : List α} {new found : α} {i : ℕ}
    (hfound : (list ++ [new])[i]? = some found) :
    list[i]? = some found ∨ i = list.length ∧ found = new := by
  rw [List.getElem?_append] at hfound
  split at hfound
  · exact .inl hfound
  · rename_i hge
    rw [List.getElem?_singleton] at hfound
    split at hfound
    · exact .inr ⟨by omega, (Option.some.inj hfound).symm⟩
    · cases hfound

private theorem getElem?_set_of_some {α : Type} {list : List α} {new found : α} {i : ℕ}
    (hfound : (list.set i new)[i]? = some found) : found = new := by
  have hlt := (List.getElem?_eq_some_iff.mp hfound).1
  rw [List.length_set] at hlt
  rw [List.getElem?_set_self hlt] at hfound
  exact (Option.some.inj hfound).symm

theorem matched_invoke (hmatched : L.Matched s t) (hwf : M.WellFormed s) (hwf' : M.WellFormed t)
    {op op' : Op} {proc proc' : Proc Call Reply Result} (hop : L.op op op')
    (hcoupled : Coupled L.call (L.entry op op') (fun _ _ => True) proc proc') :
    L.Matched (s.invoke op proc) (t.invoke op' proc') where
  store := hmatched.store
  ops := List.rel_append hmatched.ops (.cons hop .nil)
  procs := by simp [Config.invoke, hmatched.procs]
  coupled i first first' now now' hfirst hfirst' hnow hnow' := by
    have hlength := hmatched.ops.length_eq
    have hprocs := hwf.length_procs
    have hprocs' := hwf'.length_procs
    rcases getElem?_snoc hfirst with hold | ⟨hi, rfl⟩
    · have hlt := (List.getElem?_eq_some_iff.mp hold).1
      refine hmatched.coupled i _ _ _ _ hold ?_ ?_ ?_
      · exact (getElem?_snoc hfirst').resolve_right (by omega)
      · exact (getElem?_snoc hnow).resolve_right (by omega)
      · exact (getElem?_snoc hnow').resolve_right (by omega)
    · have hnew' := (getElem?_snoc hfirst').resolve_left fun hold => by
        have := (List.getElem?_eq_some_iff.mp hold).1
        omega
      have hproc := (getElem?_snoc hnow).resolve_left fun hold => by
        have := (List.getElem?_eq_some_iff.mp hold).1
        omega
      have hproc' := (getElem?_snoc hnow').resolve_left fun hold => by
        have := (List.getElem?_eq_some_iff.mp hold).1
        omega
      rw [hnew'.2, hproc.2, hproc'.2]
      exact hcoupled
  log := hmatched.log

theorem matched_answer (hmatched : L.Matched s t) {i : ℕ} {op op' : Op}
    {entry entry' : Entry Call Reply} {proc proc' : Proc Call Reply Result} {σ τ : Store}
    (hop : s.ops[i]? = some op) (hop' : t.ops[i]? = some op') (hlink : L.op op op')
    (hstore : L.store σ τ) (hentry : L.entry op op' entry entry')
    (hcoupled : Coupled L.call (L.entry op op') (fun _ _ => True) proc proc') :
    L.Matched (s.answer i proc entry σ) (t.answer i proc' entry' τ) where
  store := hstore
  ops := hmatched.ops
  procs := by simp [Config.answer, hmatched.procs]
  coupled j first first' now now' hfirst hfirst' hnow hnow' := by
    by_cases hij : i = j
    · subst hij
      obtain rfl := Option.some.inj (hop.symm.trans hfirst)
      obtain rfl := Option.some.inj (hop'.symm.trans hfirst')
      rw [getElem?_set_of_some hnow, getElem?_set_of_some hnow']
      exact hcoupled
    · simp only [Config.answer, List.getElem?_set_ne hij] at hnow hnow'
      exact hmatched.coupled j _ _ _ _ hfirst hfirst' hnow hnow'
  log := List.rel_append hmatched.log (.cons ⟨rfl, op, op', hlink, hentry⟩ .nil)

/-- Matching is kept by every pair of steps, hence along two runs. -/
theorem DoubleRun.matched (hcouples : M.Couples L alike s₀ t₀) (hwf : M.WellFormed s₀)
    (hwf' : M.WellFormed t₀) (hstart : L.Matched s₀ t₀) (hruns : M.DoubleRun L alike s₀ t₀ s t) :
    L.Matched s t := by
  induction hruns with
  | refl => exact hstart
  | tail hruns hpaired hact hact' halike ih =>
      have hmid := hruns.left.wellFormed hwf
      have hmid' := hruns.right.wellFormed hwf'
      cases hpaired with
      | env hlink =>
          simp only [act, Option.map_eq_some_iff] at hact hact'
          obtain ⟨σ, hσ, rfl⟩ := hact
          obtain ⟨τ, hτ, rfl⟩ := hact'
          exact ⟨hcouples.env _ _ _ _ _ _ ih.store hlink hσ hτ, ih.ops, ih.procs, ih.coupled, ih.log⟩
      | invoke hlink =>
          simp only [act, Option.some.injEq] at hact hact'
          rw [← hact, ← hact']
          exact matched_invoke ih hmid hmid' hlink (hcouples.program _ _ hlink)
      | advance i hlink =>
          obtain ⟨request, next, reply, σ, hproc, hexec, rfl⟩ := advance_cases hact
          obtain ⟨op, op', proc', hop, hop', hproc', hops, hcoupled⟩ :=
            thread_of_matched ih hmid hproc
          obtain ⟨request', next', reply', τ, hcall, hexec', rfl⟩ := advance_cases hact'
          obtain rfl := Option.some.inj (hproc'.symm.trans hcall)
          cases hcoupled with
          | call hlinked hnext =>
              obtain ⟨hstore, hentry⟩ := hcouples.exec _ _ hruns ih i op op' request request'
                hop hop' hops (by rw [Config.pending?, hproc]) (by rw [Config.pending?, hproc']) hlinked _ _ hlink
                reply reply' σ τ hexec hexec' _ _ halike
              exact matched_answer ih hop hop' hops hstore hentry (hnext _ _ hentry)

/-- Where calls, choices and changes are answered alike, one of two matching
configurations can go on if the other can. -/
theorem enabled_of_matched (hmatched : L.Matched s t) (hwf : M.WellFormed s)
    (hexec : ∀ σ τ request request' choice choice', L.store σ τ → L.call request request' →
      L.choice choice choice' →
        ((M.exec σ request choice).isSome ↔ (M.exec τ request' choice').isSome))
    (henv : ∀ σ τ change change', L.env change change' →
      ((M.env σ change).isSome ↔ (M.env τ change').isSome))
    {action action' : Action Op Choice Env} (hpaired : L.Paired action action') :
    (M.act s action).isSome ↔ (M.act t action').isSome := by
  cases hpaired with
  | env hlink => simpa [act] using henv _ _ _ _ hlink
  | invoke hlink => simp [act]
  | advance i hlink =>
      cases hproc : s.procs[i]? with
      | none =>
          have hnone : t.procs[i]? = none := by
            rw [List.getElem?_eq_none_iff, ← hmatched.procs, ← List.getElem?_eq_none_iff, hproc]
          simp [act, hproc, hnone]
      | some proc =>
          obtain ⟨op, op', proc', -, -, hproc', -, hcoupled⟩ := thread_of_matched hmatched hwf hproc
          cases hcoupled with
          | ret _ => simp [act, hproc, hproc']
          | call hlinked _ =>
              simpa [act, hproc, hproc'] using hexec _ _ _ _ _ _ hmatched.store hlinked hlink

end Machine

end SecurePastebin.Interleaving
