import SecurePastebin.Core.Interleaving

/-!
# Restricting a run to some of its programs

A schedule is cut down to the programs one is interested in, with their calls
at the same places between the changes of the environment.  If the other
programs touch only what these do not depend on, each of these sees the same
replies and returns the same result.
-/

namespace SecurePastebin.Interleaving

open Process

variable {Store Op Call : Type} {Reply : Call → Type} {Choice Env Result : Type}

/-! ## The restricted schedule -/

section Schedule

variable (wanted : Op → Bool)

/-- The number a thread has among the wanted ones. -/
def rank (ops : List Op) (i : ℕ) : ℕ := (ops.take i).countP wanted

/-- The schedule without the threads that are not wanted; `ops` are the
invocations so far. -/
def restrict : List Op → List (Action Op Choice Env) → List (Action Op Choice Env)
  | _, [] => []
  | ops, .env change :: rest => .env change :: restrict ops rest
  | ops, .invoke op :: rest =>
      if wanted op then .invoke op :: restrict (ops ++ [op]) rest else restrict (ops ++ [op]) rest
  | ops, .advance i choice :: rest =>
      if ops[i]?.any wanted then .advance (rank wanted ops i) choice :: restrict ops rest
      else restrict ops rest

variable {wanted} {ops : List Op} {i j : ℕ} {op : Op}

theorem rank_append (hle : i ≤ ops.length) : rank wanted (ops ++ [op]) i = rank wanted ops i := by
  rw [rank, List.take_append_of_le_length hle, rank]

theorem rank_length : rank wanted ops ops.length = ops.countP wanted := by
  rw [rank, List.take_length]

theorem rank_succ (hop : ops[i]? = some op) (hwanted : wanted op = true) :
    rank wanted ops (i + 1) = rank wanted ops i + 1 := by
  rw [rank, List.take_add_one, hop, List.countP_append, rank]
  simp [hwanted]

theorem rank_mono (hle : i ≤ j) : rank wanted ops i ≤ rank wanted ops j :=
  (List.take_sublist_take_left hle).countP_le

/-- Wanted threads keep their order. -/
theorem rank_lt (hop : ops[i]? = some op) (hwanted : wanted op = true) (hlt : i < j) :
    rank wanted ops i < rank wanted ops j := by
  have hsucc := rank_succ hop hwanted
  have hmono : rank wanted ops (i + 1) ≤ rank wanted ops j := rank_mono hlt
  omega

theorem rank_injective {other : Op} (hop : ops[i]? = some op) (hwanted : wanted op = true)
    (hother : ops[j]? = some other) (hwanted' : wanted other = true)
    (heq : rank wanted ops i = rank wanted ops j) : i = j := by
  rcases lt_trichotomy i j with hlt | hsame | hlt
  · have := rank_lt hop hwanted hlt
    omega
  · exact hsame
  · have := rank_lt hother hwanted' hlt
    omega

theorem rank_lt_countP (hop : ops[i]? = some op) (hwanted : wanted op = true) :
    rank wanted ops i < ops.countP wanted := by
  rw [← rank_length]
  exact rank_lt hop hwanted (List.getElem?_eq_some_iff.mp hop).1

end Schedule

/-! ## The restricted run -/

/-- The second configuration is the first one without the threads that are not
wanted. -/
structure Restricts (wanted : Op → Bool) (agree : Store → Store → Prop)
    (s s' : Config Store Op Call Reply Result) : Prop where
  agree : agree s.store s'.store
  length : s'.procs.length = s.ops.countP wanted
  ops : s'.ops = s.ops.filter wanted
  procs : ∀ i op, s.ops[i]? = some op → wanted op = true →
    s'.procs[rank wanted s.ops i]? = s.procs[i]?

variable {M : Machine Store Op Call Reply Choice Env Result} {wanted : Op → Bool}
  {agree : Store → Store → Prop} {s s' next last : Config Store Op Call Reply Result}

theorem Restricts.result (hrestricts : Restricts wanted agree s s') {i : ℕ} {op : Op}
    (hop : s.ops[i]? = some op) (hwanted : wanted op = true) :
    s'.result? (rank wanted s.ops i) = s.result? i := by
  rw [Config.result?, Config.result?, hrestricts.procs i op hop hwanted]

theorem Restricts.invoke (hrestricts : Restricts wanted agree s s')
    (hlength : s.procs.length = s.ops.length) {op : Op} (hwanted : wanted op = true) :
    Restricts wanted agree (s.invoke op (M.program op)) (s'.invoke op (M.program op)) where
  agree := hrestricts.agree
  length := by simp [Config.invoke, hrestricts.length, hwanted]
  ops := by simp [Config.invoke, hrestricts.ops, hwanted]
  procs i found hop hfound := by
    rcases s.ops_invoke hop with hold | ⟨rfl, rfl⟩
    · have hlt : i < s.ops.length := (List.getElem?_eq_some_iff.mp hold).1
      have hrank := rank_lt_countP hold hfound
      simp only [Config.invoke]
      rw [rank_append hlt.le, List.getElem?_append_left (by rw [hrestricts.length]; exact hrank),
        List.getElem?_append_left (by omega), hrestricts.procs i found hold hfound]
    · simp only [Config.invoke]
      rw [rank_append le_rfl, rank_length, ← hrestricts.length, ← hlength,
        List.getElem?_concat_length, List.getElem?_concat_length]

theorem Restricts.invoke_other (hrestricts : Restricts wanted agree s s')
    (hlength : s.procs.length = s.ops.length) {op : Op} (hwanted : wanted op = false) :
    Restricts wanted agree (s.invoke op (M.program op)) s' where
  agree := hrestricts.agree
  length := by simp [Config.invoke, hrestricts.length, hwanted]
  ops := by simp [Config.invoke, hrestricts.ops, hwanted]
  procs i found hop hfound := by
    rcases s.ops_invoke hop with hold | ⟨rfl, rfl⟩
    · have hlt : i < s.ops.length := (List.getElem?_eq_some_iff.mp hold).1
      simp only [Config.invoke]
      rw [rank_append hlt.le, List.getElem?_append_left (by omega),
        hrestricts.procs i found hold hfound]
    · rw [hwanted] at hfound
      cases hfound

theorem Restricts.answer (hrestricts : Restricts wanted agree s s') {i : ℕ} {op : Op}
    (hop : s.ops[i]? = some op) (hwanted : wanted op = true) {proc : Proc Call Reply Result}
    {entry : Entry Call Reply} {store store' : Store} (hagree : agree store store')
    (hlt : i < s.procs.length) :
    Restricts wanted agree (s.answer i proc entry store)
      (s'.answer (rank wanted s.ops i) proc entry store') where
  agree := hagree
  length := by simp [Config.answer, hrestricts.length]
  ops := hrestricts.ops
  procs j other hother hwanted' := by
    have hrank : rank wanted s.ops i < s'.procs.length := by
      rw [hrestricts.length]
      exact rank_lt_countP hop hwanted
    simp only [Config.answer] at hother ⊢
    by_cases hij : j = i
    · subst hij
      rw [List.getElem?_set_self hrank, List.getElem?_set_self hlt]
    · have hne : rank wanted s.ops i ≠ rank wanted s.ops j := fun heq =>
        hij (rank_injective hop hwanted hother hwanted' heq).symm
      rw [List.getElem?_set_ne hne, List.getElem?_set_ne (Ne.symm hij),
        hrestricts.procs j other hother hwanted']

theorem Restricts.answer_other (hrestricts : Restricts wanted agree s s') {i : ℕ} {op : Op}
    (hop : s.ops[i]? = some op) (hwanted : wanted op = false) {proc : Proc Call Reply Result}
    {entry : Entry Call Reply} {store : Store} (hagree : agree store s'.store) :
    Restricts wanted agree (s.answer i proc entry store) s' where
  agree := hagree
  length := hrestricts.length
  ops := hrestricts.ops
  procs j other hother hwanted' := by
    have hij : i ≠ j := by
      rintro rfl
      rw [Config.ops_answer, hop] at hother
      cases hother
      rw [hwanted] at hwanted'
      cases hwanted'
    simp only [Config.answer]
    rw [List.getElem?_set_ne hij]
    exact hrestricts.procs j other hother hwanted'

/-- What the wanted programs depend on is agreed upon, and the other programs
leave it alone. -/
structure Separated (M : Machine Store Op Call Reply Choice Env Result) (wanted : Op → Bool)
    (agree : Store → Store → Prop) : Prop where
  env : ∀ store store' change after, agree store store' → M.env store change = some after →
    ∃ after', M.env store' change = some after' ∧ agree after after'
  call : ∀ op trace request, wanted op = true → (M.program op).Reaches trace (.inl request) →
    ∀ store store' choice reply after, agree store store' →
    M.exec store request choice = some (reply, after) →
    ∃ after', M.exec store' request choice = some (reply, after') ∧ agree after after'
  other : ∀ op trace request, wanted op = false → (M.program op).Reaches trace (.inl request) →
    ∀ store store' choice reply after, agree store store' →
    M.exec store request choice = some (reply, after) → agree after store'

/-- Performing the restricted schedule is possible, and gives the restricted
configuration. -/
theorem perform_restrict (hseparated : Separated M wanted agree)
    {schedule : List (Action Op Choice Env)} (hwf : M.WellFormed s)
    (hrestricts : Restricts wanted agree s s')
    (hperform : M.perform (fun _ _ => true) s schedule = some last) :
    ∃ last', M.perform (fun _ _ => true) s' (restrict wanted s.ops schedule) = some last' ∧
      Restricts wanted agree last last' := by
  induction schedule generalizing s s' with
  | nil =>
      cases hperform
      exact ⟨s', rfl, hrestricts⟩
  | cons action schedule ih =>
      simp only [Machine.perform, if_true] at hperform
      obtain ⟨next, hact, hrest⟩ := Option.bind_eq_some_iff.mp hperform
      have hnext := hwf.act hact
      rcases Machine.act_cases hact with ⟨change, store, rfl, henv, rfl⟩ | ⟨op, rfl, rfl⟩ |
        ⟨i, choice, request, rest, reply, store, rfl, hproc, hexec, rfl⟩
      · obtain ⟨store', henv', hagree⟩ := hseparated.env _ _ _ _ hrestricts.agree henv
        have hmoved : Restricts wanted agree { s with store := store } { s' with store := store' } :=
          ⟨hagree, hrestricts.length, hrestricts.ops, hrestricts.procs⟩
        obtain ⟨last', hlast, hfinal⟩ := ih hnext hmoved hrest
        refine ⟨last', ?_, hfinal⟩
        simpa [restrict, Machine.perform, Machine.act, henv'] using hlast
      · have hops : (s.invoke op (M.program op)).ops = s.ops ++ [op] := rfl
        cases hwanted : wanted op with
        | true =>
            obtain ⟨last', hlast, hfinal⟩ := ih hnext (hrestricts.invoke hwf.length_procs hwanted) hrest
            rw [hops] at hlast
            refine ⟨last', ?_, hfinal⟩
            simpa [restrict, hwanted, Machine.perform, Machine.act] using hlast
        | false =>
            obtain ⟨last', hlast, hfinal⟩ :=
              ih hnext (hrestricts.invoke_other hwf.length_procs hwanted) hrest
            rw [hops] at hlast
            refine ⟨last', ?_, hfinal⟩
            simpa [restrict, hwanted] using hlast
      · obtain ⟨op, hop, hreach⟩ := hwf.reaches_waiting hproc
        have hlt : i < s.procs.length := (List.getElem?_eq_some_iff.mp hproc).1
        cases hwanted : wanted op with
        | true =>
            obtain ⟨store', hexec', hagree⟩ :=
              hseparated.call op _ _ hwanted hreach _ _ _ _ _ hrestricts.agree hexec
            obtain ⟨last', hlast, hfinal⟩ :=
              ih hnext (hrestricts.answer hop hwanted hagree hlt) hrest
            refine ⟨last', ?_, hfinal⟩
            have hproc' : s'.procs[rank wanted s.ops i]? = some (.call request rest) :=
              (hrestricts.procs i op hop hwanted).trans hproc
            simpa [restrict, hop, hwanted, Machine.perform, Machine.act, hproc', hexec'] using hlast
        | false =>
            have hagree := hseparated.other op _ _ hwanted hreach _ _ _ _ _ hrestricts.agree hexec
            obtain ⟨last', hlast, hfinal⟩ := ih hnext (hrestricts.answer_other hop hwanted hagree) hrest
            refine ⟨last', ?_, hfinal⟩
            simpa [restrict, hop, hwanted] using hlast

end SecurePastebin.Interleaving
