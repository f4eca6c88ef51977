import SecurePastebin.Crypto.Gate

/-!
# Who holds a slot

The channel counts the callers between a granted `Acquire` and its release, in
every interleaving.  From this follow the bound on the callers, that no slot is
lost, and a bound on the memory of the running derivations.
-/

namespace SecurePastebin.Crypto.Gate

open Text Uuid Paste
open Process Interleaving

variable {P : Primitives} {E : Envelope} {maxConcurrent : ℤ}

/-! ## Which derivation a call makes -/

variable (E) in
/-- Password, salt and cost of the derivation a call makes, if it makes one. -/
def derives : Op → Option (Bytes × Bytes × Argon2Params)
  | .deriveKey password salt params => some (password, salt, params)
  | .sealBody draws _ _ _ password =>
      if password = [] then none else some (password, draws.salt, E.params)
  | .openBody _ _ record password =>
      match E.validateRecord record, record.wrapMode, record.kdf with
      | .ok (), .password, some kdf =>
          if password = [] then none else some (password, kdf.salt, Envelope.paramsOf kdf)
      | _, _, _ => none
  | .hashPassword salt password => some (password, salt, E.params)
  | .verifyPassword phc password =>
      match parsePHC phc with
      | .ok stored => some (password, stored.salt, stored.params)
      | .error _ => none

/-- A call makes one derivation and works on its outcome, or none at all. -/
inductive Shape (P : Primitives) (E : Envelope) (op : Op) : Prop
  | pure (result : Result) (hderives : derives E op = none) (hprogram : program P E op = .ret result)
  | derivation {password salt : Bytes} {params : Argon2Params}
      (hderives : derives E op = some (password, salt, params))
      (hprogram : ∃ finish, program P E op = finish <$> deriveKey password salt params)

theorem openBody_shape (id : UUID) (expiresAt : ℤ) (record : EncryptedBody) (password : Bytes) :
    Shape P E (.openBody id expiresAt record password) := by
  cases hvalid : E.validateRecord record with
  | error err =>
      exact .pure (.opened (.returned (.error err))) (by simp only [derives, hvalid])
        (by simp only [program, openBody, hvalid]; rfl)
  | ok =>
      rcases hmode : record.wrapMode with _ | _ | other
      · exact .pure (.opened (.returned (E.openBody P .granted id expiresAt record password)))
          (by simp only [derives, hvalid, hmode]) (by simp only [program, openBody, hvalid, hmode]; rfl)
      · rcases hkdf : record.kdf with _ | kdf
        · exact .pure (.opened (.returned (E.openBody P .granted id expiresAt record password)))
            (by simp only [derives, hvalid, hmode, hkdf])
            (by simp only [program, openBody, hvalid, hmode, hkdf]; rfl)
        · by_cases hpassword : password = []
          · exact .pure (.opened (.returned (.error .passwordRequired)))
              (by simp only [derives, hvalid, hmode, hkdf, if_pos hpassword])
              (by simp only [program, openBody, hvalid, hmode, hkdf, if_pos hpassword]; rfl)
          · refine .derivation (by simp only [derives, hvalid, hmode, hkdf, if_neg hpassword]; rfl) ?_
            simp only [program, openBody, hvalid, hmode, hkdf, if_neg hpassword, Proc.map_map]
            exact ⟨_, rfl⟩
      · exact .pure (.opened (.returned (E.openBody P .granted id expiresAt record password)))
          (by simp only [derives, hvalid, hmode]) (by simp only [program, openBody, hvalid, hmode]; rfl)

theorem program_shape (op : Op) : Shape P E op := by
  cases op with
  | deriveKey password salt params => exact .derivation rfl ⟨_, rfl⟩
  | sealBody draws id expiresAt plain password =>
      by_cases hpassword : password = []
      · exact .pure (.sealed (.returned (E.sealBody P .granted draws id expiresAt plain password)))
          (if_pos hpassword) (by rw [program, sealBody, if_pos hpassword]; rfl)
      · refine .derivation (if_neg hpassword) ?_
        rw [program, sealBody, if_neg hpassword, Proc.map_map]
        exact ⟨_, rfl⟩
  | openBody id expiresAt record password => exact openBody_shape id expiresAt record password
  | hashPassword salt password =>
      refine .derivation rfl ?_
      rw [program, hashPassword, hashWith, Proc.map_map]
      exact ⟨_, rfl⟩
  | verifyPassword phc password =>
      cases hparse : parsePHC phc with
      | error err =>
          exact .pure (.verified (.returned (.error err))) (by simp only [derives, hparse])
            (by simp only [program, verifyPassword, hparse]; rfl)
      | ok stored =>
          refine .derivation (by simp only [derives, hparse]; rfl) ?_
          simp only [program, verifyPassword, hparse, Proc.map_map]
          exact ⟨_, rfl⟩

theorem program_call {op : Op} {trace : List Step} {request : Call}
    (hreach : (program P E op).Reaches trace (.inl request)) :
    ∃ password salt params, derives E op = some (password, salt, params) ∧
      DerivePoint password salt params trace (.inl request) := by
  rcases program_shape (P := P) (E := E) op with
    ⟨result, -, hprogram⟩ | ⟨hderives, finish, hprogram⟩
  · rw [hprogram] at hreach
    cases hreach.2
  · rw [hprogram, Proc.reaches_map_call] at hreach
    exact ⟨_, _, _, hderives, deriveKey_point hreach⟩

theorem program_result {op : Op} {trace : List Step} {result : Result}
    (hreach : (program P E op).Reaches trace (.inr result)) :
    trace = [] ∨ ∃ password salt params outcome,
      DerivePoint password salt params trace (.inr outcome) := by
  rcases program_shape (P := P) (E := E) op with
    ⟨result, -, hprogram⟩ | ⟨hderives, finish, hprogram⟩
  · rw [hprogram] at hreach
    exact .inl hreach.1
  · rw [hprogram, Proc.reaches_map_result] at hreach
    obtain ⟨outcome, hreach, -⟩ := hreach
    exact .inr ⟨_, _, _, outcome, deriveKey_point hreach⟩

/-! ## The holders -/

/-- Thread `i` is between a granted `Acquire` and its release. -/
def Holding (s : Config) (i : ℕ) : Prop :=
  s.Did i .acquire .granted ∧ ¬ s.Did i .release ()

open Classical in
noncomputable def holders (s : Config) : Finset ℕ :=
  (s.log.map Prod.fst).toFinset.filter (Holding s)

variable {s next : Config} {i : ℕ} {proc : Port Result} {store : Store}

@[simp]
theorem mem_holders : i ∈ holders s ↔ Holding s i := by
  classical
  rw [holders, Finset.mem_filter, List.mem_toFinset, and_iff_right_iff_imp]
  exact fun hholding => List.mem_map.mpr ⟨_, hholding.1, rfl⟩

theorem holders_granted (hnew : ¬ s.Did i .release ()) :
    holders (s.answer i proc ⟨.acquire, .granted⟩ store) = insert i (holders s) := by
  ext j
  by_cases hj : j = i
  · subst hj
    simp [Holding, hnew]
  · simp [Holding, hj]

theorem holders_released :
    holders (s.answer i proc ⟨.release, ()⟩ store) = (holders s).erase i := by
  ext j
  by_cases hj : j = i
  · subst hj
    simp [Holding]
  · simp [Holding, hj]

theorem holders_other {entry : Step} (hgranted : entry ≠ ⟨.acquire, .granted⟩)
    (hreleased : entry ≠ ⟨.release, ()⟩) :
    holders (s.answer i proc entry store) = holders s := by
  ext j
  simp [Holding, hgranted.symm, hreleased.symm]

/-! ## Steps -/

/-- What an answered call does to the channel. -/
inductive Effect (maxConcurrent : ℤ) (slots : ℕ) : Step → ℕ → Prop
  | granted (hfree : slots < capacity maxConcurrent) :
      Effect maxConcurrent slots ⟨.acquire, .granted⟩ (slots + 1)
  | refused {outcome : GateOutcome} (houtcome : outcome ≠ .granted) :
      Effect maxConcurrent slots ⟨.acquire, outcome⟩ slots
  | derived (password salt : Bytes) (params : Argon2Params) (key : Option Bytes) :
      Effect maxConcurrent slots ⟨.idKey password salt params, key⟩ slots
  | released (hheld : 0 < slots) : Effect maxConcurrent slots ⟨.release, ()⟩ (slots - 1)

theorem exec_effect {request : Call} {reply : request.Reply} {choice : Choice} {before : Store}
    (hexec : exec P maxConcurrent before request choice = some (reply, store)) :
    Effect maxConcurrent before.slots ⟨request, reply⟩ store.slots := by
  cases request with
  | acquire =>
      cases choice with
      | select outcome =>
          cases outcome with
          | granted =>
              simp only [exec] at hexec
              split_ifs at hexec with hfree
              cases hexec
              exact .granted hfree
          | busy | canceled | deadlineExceeded =>
              cases hexec
              exact .refused (by decide)
      | done | panics => cases hexec
  | idKey password salt params =>
      cases choice with
      | select outcome => cases hexec
      | done =>
          simp only [exec] at hexec
          split_ifs at hexec <;>
            · cases hexec
              exact .derived ..
      | panics =>
          cases hexec
          exact .derived ..
  | release =>
      cases choice with
      | done =>
          simp only [exec] at hexec
          split_ifs at hexec with hheld
          cases hexec
          exact .released hheld
      | select outcome | panics => cases hexec

/-! ## Runs -/

/-- The buffer holds one value for each holder, and never more than fit. -/
structure Counted (maxConcurrent : ℤ) (s : Config) : Prop where
  slots : s.store.slots = (holders s).card
  bound : s.store.slots ≤ capacity maxConcurrent

theorem counted_start : Counted maxConcurrent start where
  slots := by
    have hempty : holders start = ∅ := by
      ext i
      simp [Holding, start, Interleaving.Config.initial, Config.Did]
    rw [hempty]
    rfl
  bound := Nat.zero_le _

variable {allowed : Config → Action → Prop}

theorem Counted.answer (hcounted : Counted maxConcurrent s) {password salt : Bytes}
    {params : Argon2Params} {request : Call} {reply : request.Reply}
    (hpoint : DerivePoint password salt params (s.trace i) (.inl request))
    (heffect : Effect maxConcurrent s.store.slots ⟨request, reply⟩ store.slots) :
    Counted maxConcurrent (s.answer i proc ⟨request, reply⟩ store) := by
  have hdid : ∀ request reply, s.Did i request reply ↔
      (⟨request, reply⟩ : Step) ∈ s.trace i := fun request reply =>
    s.did_iff_mem_trace i request reply
  have hslots := hcounted.slots
  have hbound := hcounted.bound
  generalize s.trace i = trace at hpoint hdid
  generalize hentry : (⟨request, reply⟩ : Step) = entry at heffect
  generalize hafter : store.slots = after at heffect
  cases heffect with
  | granted hfree =>
      cases hentry
      have hnew : i ∉ holders s ∧ ¬ s.Did i .release () := by
        cases hpoint
        simp [Holding, hdid]
      refine ⟨?_, by rw [Config.store_answer, hafter]; exact hfree⟩
      rw [holders_granted hnew.2, Finset.card_insert_of_notMem hnew.1, Config.store_answer, hafter,
        hslots]
  | refused houtcome =>
      cases hentry
      refine ⟨?_, by rw [Config.store_answer, hafter]; exact hbound⟩
      rw [holders_other (by simpa using houtcome) (by simp), Config.store_answer, hafter, hslots]
  | derived password salt params key =>
      cases hentry
      refine ⟨?_, by rw [Config.store_answer, hafter]; exact hbound⟩
      rw [holders_other (by simp) (by simp), Config.store_answer, hafter, hslots]
  | released hheld =>
      cases hentry
      have hholds : i ∈ holders s := by
        cases hpoint
        simp [Holding, hdid]
      refine ⟨?_, by rw [Config.store_answer, hafter]; omega⟩
      rw [holders_released, Finset.card_erase_of_mem hholds, Config.store_answer, hafter, hslots]

theorem counted_of_run (hrun : (machine P E maxConcurrent).Run allowed start s) :
    Counted maxConcurrent s := by
  refine hrun.induct .initial counted_start ?_ ?_ ?_
  · intro s change
    exact nomatch change
  · intro s op _ hcounted _
    exact ⟨hcounted.slots, hcounted.bound⟩
  · intro s i op choice request reply store proc _ hcounted _ _ _ hreach hexec
    obtain ⟨password, salt, params, -, hpoint⟩ := program_call hreach
    exact hcounted.answer hpoint (exec_effect hexec)

/-- A thread that has ended holds no slot. -/
theorem not_holding_of_returned (hrun : (machine P E maxConcurrent).Run allowed start s) {op : Op}
    {result : Result} (hreturned : s.Returned i op result) : ¬ Holding s i := by
  rintro ⟨hgranted, hreleased⟩
  have hreach := (hrun.wellFormed .initial).reaches_returned hreturned
  rw [Config.did_iff_mem_trace] at hgranted hreleased
  generalize s.trace i = trace at hreach hgranted hreleased
  rcases program_result hreach with rfl | ⟨password, salt, params, outcome, hpoint⟩
  · cases hgranted
  · cases hpoint with
    | refused herr =>
        simp only [List.mem_singleton, Sigma.mk.injEq, heq_eq_eq, true_and] at hgranted
        subst hgranted
        cases herr
    | left key => simp at hreleased

theorem pending_of_holding (hrun : (machine P E maxConcurrent).Run allowed start s)
    (hholding : Holding s i) : ∃ request, s.pending? i = some request := by
  have hwf := hrun.wellFormed .initial
  have hlt : i < s.ops.length := hwf.bound _ hholding.1
  have hop : s.ops[i]? = some s.ops[i] := List.getElem?_eq_getElem hlt
  obtain ⟨proc, hproc⟩ : ∃ proc, s.procs[i]? = some proc :=
    ⟨_, List.getElem?_eq_getElem (hwf.length_procs ▸ hlt)⟩
  cases proc with
  | ret result => exact absurd hholding (not_holding_of_returned hrun ⟨hop, hproc⟩)
  | call request rest => exact ⟨request, by rw [Config.pending?, hproc]⟩

/-- A thread that waits for the end of its derivation or for its release holds a
slot. -/
theorem holding_of_pending (hrun : (machine P E maxConcurrent).Run allowed start s) {request : Call}
    (hpending : s.pending? i = some request) (hinside : request ≠ .acquire) : Holding s i := by
  obtain ⟨op, -, hreach⟩ :=
    (hrun.wellFormed .initial).reaches_pending hpending
  obtain ⟨password, salt, params, -, hpoint⟩ := program_call hreach
  simp only [Holding, Config.did_iff_mem_trace]
  generalize s.trace i = trace at hpoint
  cases hpoint with
  | waiting => exact absurd rfl hinside
  | _ => simp

/-- A derivation that was refused made no other call than the refused one. -/
theorem trace_of_refused (hrun : (machine P E maxConcurrent).Run allowed start s)
    {password salt : Bytes} {params : Argon2Params} {err : Err}
    (hreturned : s.Returned i (.deriveKey password salt params) (.key (.returned (.error err)))) :
    ∃ outcome, outcome ≠ .granted ∧ s.trace i = [⟨.acquire, outcome⟩] := by
  have hreach := (hrun.wellFormed .initial).reaches_returned hreturned
  obtain ⟨outcome, hreach, heq⟩ := Proc.reaches_map_result.mp hreach
  have hpoint := deriveKey_point hreach
  cases heq
  generalize s.trace i = trace at hpoint
  generalize hpast : (Outcome.returned (.error err) : Outcome Bytes) = result at hpoint
  cases hpoint with
  | @refused outcome found herr =>
      refine ⟨outcome, ?_, rfl⟩
      rintro rfl
      cases herr
  | left key =>
      cases key <;> cases hpast

/-- The only step of a thread whose one call is refused leaves the channel alone. -/
theorem store_of_refused {outcome : GateOutcome} (houtcome : outcome ≠ .granted)
    (htrace : s.trace i = [⟨.acquire, outcome⟩]) {mid : Config} {choice : Choice}
    (hact : (machine P E maxConcurrent).act mid (.advance i choice) = some next)
    (hextends : next.Extends s) : next.store.slots = mid.store.slots := by
  obtain ⟨request, rest, reply, store, hproc, hexec, rfl⟩ := Machine.advance_cases hact
  have hsub := hextends.trace i
  rw [Config.trace_answer_self, htrace] at hsub
  have hentry : (⟨request, reply⟩ : Step) = ⟨.acquire, outcome⟩ :=
    List.mem_singleton.mp (hsub.subset (List.mem_append_right _ (List.mem_singleton_self _)))
  have heffect := exec_effect hexec
  rw [hentry] at heffect
  generalize hafter : store.slots = after at heffect
  cases heffect with
  | granted => exact absurd rfl houtcome
  | refused => exact hafter

/-- In every reachable state, for any number of calls of which each may be
refused, cancelled or panic: no more callers stand between a granted `Acquire`
and its release than the channel has room for; no step of a refused call
changes the channel; a deferred release never blocks; and once no call is in
progress the channel is empty. -/
theorem gate_admits_and_frees (P : Primitives) (E : Envelope) (maxConcurrent : ℤ) (s : Config)
    (hrun : (machine P E maxConcurrent).Run anyStep start s) :
    (holders s).card ≤ capacity maxConcurrent ∧
      (∀ i password salt params err,
        s.Returned i (.deriveKey password salt params) (.key (.returned (.error err))) →
        ¬ s.Did i .acquire .granted ∧
        ∀ mid choice next, (machine P E maxConcurrent).Run anyStep start mid →
          (machine P E maxConcurrent).act mid (.advance i choice) = some next →
          (machine P E maxConcurrent).Run anyStep next s →
          next.store.slots = mid.store.slots) ∧
      (∀ i, s.pending? i = some .release → 0 < s.store.slots) ∧
      ((∀ i, s.pending? i = none) → s.store.slots = 0) := by
  have hcounted := counted_of_run hrun
  refine ⟨hcounted.slots ▸ hcounted.bound, ?_, ?_, ?_⟩
  · intro i password salt params err hreturned
    obtain ⟨outcome, houtcome, htrace⟩ := trace_of_refused hrun hreturned
    refine ⟨?_, ?_⟩
    · rw [Config.did_iff_mem_trace, htrace]
      simpa using houtcome.symm
    · intro mid choice next _ hact hrest
      exact store_of_refused houtcome htrace hact hrest.extends
  · intro i hpending
    have hmem : i ∈ holders s := mem_holders.mpr (holding_of_pending hrun hpending (by decide))
    rw [hcounted.slots]
    exact Finset.card_pos.mpr ⟨i, hmem⟩
  · intro hidle
    rw [hcounted.slots, Finset.card_eq_zero, Finset.eq_empty_iff_forall_notMem]
    intro i hmem
    obtain ⟨request, hpending⟩ := pending_of_holding hrun (mem_holders.mp hmem)
    rw [hidle i] at hpending
    cases hpending

/-- Two threads derive; the first has panicked, the second was turned away. -/
def Sample.turnedAway (s : Config) : Bool :=
  match s.ops, s.procs with
  | [.deriveKey [] [] params, .deriveKey [] [] other],
    [.ret (.key .panicked), .ret (.key (.returned (.error err)))] =>
      decide (params = Sample.params ∧ other = Sample.params ∧ err = errBusy)
  | _, _ => false

/-- With one slot: a second caller times out while the first derives, and the
first panics and frees its slot. -/
theorem gate_admits_and_frees_sample :
    ∃ s, (machine Sample.primitives Sample.envelope 1).Run anyStep start s ∧
      s.Returned 0 (.deriveKey [] [] Sample.params) (.key .panicked) ∧
      s.Returned 1 (.deriveKey [] [] Sample.params) (.key (.returned (.error errBusy))) ∧
      ¬ s.Did 1 .acquire .granted ∧ s.store.slots = 0 := by
  have hperform : ((machine Sample.primitives Sample.envelope 1).perform (fun _ _ => true) start
      [.invoke (.deriveKey [] [] Sample.params), .invoke (.deriveKey [] [] Sample.params),
        .advance 0 (.select .granted), .advance 1 (.select .busy), .advance 0 .panics,
        .advance 0 .done]).any Sample.turnedAway = true := by decide +kernel
  obtain ⟨s, hrun, hs⟩ := Machine.exists_any_run hperform
  unfold Sample.turnedAway at hs
  split at hs
  · rename_i params other err hops hprocs
    obtain ⟨rfl, rfl, rfl⟩ := decide_eq_true_eq.mp hs
    have hpanicked : s.Returned 0 (.deriveKey [] [] Sample.params) (.key .panicked) := by
      simp [Config.Returned, hops, hprocs]
    have hbusy : s.Returned 1 (.deriveKey [] [] Sample.params)
        (.key (.returned (.error errBusy))) := by
      simp [Config.Returned, hops, hprocs]
    obtain ⟨-, hrefused, -, hidle⟩ :=
      gate_admits_and_frees Sample.primitives Sample.envelope 1 s hrun
    refine ⟨s, hrun, hpanicked, hbusy, (hrefused 1 _ _ _ _ hbusy).1, hidle ?_⟩
    intro i
    rcases i with _ | _ | i <;> simp [Config.pending?, hprocs]
  · cases hs

/-! ## Memory -/

/-- Memory cost of the derivation thread `i` is running, in KiB. -/
def memoryOf (s : Config) (i : ℕ) : ℕ :=
  match s.pending? i with
  | some (.idKey _ _ params) => params.memoryKiB.toNat
  | _ => 0

/-- Memory cost of all running derivations, in KiB. -/
def memoryInUse (s : Config) : ℕ := ∑ i ∈ Finset.range s.ops.length, memoryOf s i

/-- If every derivation is within a budget, together they are within the budget
of all slots. -/
theorem memoryInUse_le (hrun : (machine P E maxConcurrent).Run allowed start s) {budget : ℕ}
    (hbudget : ∀ op ∈ s.ops, ∀ password salt params,
      derives E op = some (password, salt, params) → params.memoryKiB.toNat ≤ budget) :
    memoryInUse s ≤ capacity maxConcurrent * budget := by
  classical
  have hthread : ∀ i, memoryOf s i ≤ if i ∈ holders s then budget else 0 := by
    intro i
    unfold memoryOf
    split
    · rename_i password salt params hpending
      rw [if_pos (mem_holders.mpr (holding_of_pending hrun hpending (by simp)))]
      obtain ⟨op, hop, hreach⟩ :=
        (hrun.wellFormed .initial).reaches_pending hpending
      obtain ⟨_, _, _, hderives, hpoint⟩ := program_call hreach
      generalize s.trace i = trace at hpoint
      cases hpoint
      exact hbudget op (List.mem_of_getElem? hop) _ _ _ hderives
    · exact Nat.zero_le _
  have hcounted := counted_of_run hrun
  calc memoryInUse s
      ≤ ∑ i ∈ Finset.range s.ops.length, if i ∈ holders s then budget else 0 :=
        Finset.sum_le_sum fun i _ => hthread i
    _ = (Finset.range s.ops.length ∩ holders s).card * budget := by
        rw [Finset.sum_ite_mem, Finset.sum_const, smul_eq_mul]
    _ ≤ (holders s).card * budget := by
        gcongr
        exact Finset.inter_subset_right
    _ ≤ capacity maxConcurrent * budget := by
        rw [← hcounted.slots]
        exact Nat.mul_le_mul_right _ hcounted.bound

variable (E) in
/-- The cost a stored hash asks for is within the configured memory. -/
def withinMemory (phc : Bytes) : Bool :=
  match parsePHC phc with
  | .ok stored => stored.params.memoryKiB ≤ E.params.memoryKiB
  | .error _ => true

/-- The calls the service makes: bodies are sealed and opened, passwords hashed
and verified. -/
def isServiceCall : Action → Bool
  | .invoke (.deriveKey ..) => false
  | _ => true

variable (E) in
/-- No verified hash asks for more memory than is configured. -/
def fitsMemory : Action → Bool
  | .invoke (.verifyPassword phc _) => withinMemory E phc
  | _ => true

variable (E) in
abbrev frugal (_ : Config) (action : Action) : Prop :=
  isServiceCall action = true ∧ fitsMemory E action = true

theorem memory_of_validateRecord {record : EncryptedBody} {kdf : KDFParams}
    (hvalid : E.validateRecord record = .ok ()) (hmode : record.wrapMode = .password)
    (hkdf : record.kdf = some kdf) : kdf.memoryKiB ≤ E.params.memoryKiB := by
  by_cases hbudget : E.withinBudget (Envelope.paramsOf kdf) = true
  · simp only [Envelope.withinBudget, Envelope.paramsOf, Bool.and_eq_true] at hbudget
    exact of_decide_eq_true hbudget.1.2
  · simp only [Envelope.validateRecord, Envelope.validateWrap, hmode, hkdf, if_neg hbudget] at hvalid
    split_ifs at hvalid
    split at hvalid <;> cases hvalid

/-- Sealing and hashing use the configured cost, opening checks it; verifying
takes the cost from the stored hash. -/
theorem memory_of_derives {op : Op} (hservice : isServiceCall (.invoke op) = true)
    (hfits : fitsMemory E (.invoke op) = true) {password salt : Bytes} {params : Argon2Params}
    (hderives : derives E op = some (password, salt, params)) :
    params.memoryKiB ≤ E.params.memoryKiB := by
  cases op with
  | deriveKey => cases hservice
  | sealBody draws id expiresAt plain given =>
      simp only [derives] at hderives
      split_ifs at hderives
      cases hderives
      exact UInt32.le_refl _
  | openBody id expiresAt record given =>
      simp only [derives] at hderives
      split at hderives
      · rename_i hvalid hmode hkdf
        split_ifs at hderives
        cases hderives
        exact memory_of_validateRecord hvalid hmode hkdf
      · cases hderives
  | hashPassword =>
      cases hderives
      exact UInt32.le_refl _
  | verifyPassword phc given =>
      simp only [derives] at hderives
      split at hderives
      · rename_i stored hparse
        cases hderives
        simpa [fitsMemory, withinMemory, hparse] using hfits
      · cases hderives

theorem frugal_ops (hrun : (machine P E maxConcurrent).Run (frugal E) start s) {op : Op}
    (hop : op ∈ s.ops) : frugal E s (.invoke op) := by
  revert op
  refine hrun.induct (motive := fun s => ∀ {op}, op ∈ s.ops → frugal E s (.invoke op))
    .initial ?_ ?_ ?_ ?_
  · intro op hop
    cases hop
  · intro s change
    exact nomatch change
  · intro s op _ hops hallowed other hother
    rcases List.mem_append.mp hother with hother | hother
    · exact hops hother
    · cases List.mem_singleton.mp hother
      exact hallowed
  · intro s i op choice request reply store proc _ hops _ _ _ _ _ other hother
    exact hops hother

/-- As long as no verified hash asks for more memory than is configured, the
running derivations together stay within the configured product. -/
theorem kdf_memory_bounded (P : Primitives) (E : Envelope) (maxConcurrent : ℤ)
    (hconcurrent : 1 ≤ maxConcurrent) (s : Config)
    (hrun : (machine P E maxConcurrent).Run (frugal E) start s) :
    (memoryInUse s : ℤ) ≤ maxConcurrent * E.params.memoryKiB.toNat := by
  have hcapacity : (capacity maxConcurrent : ℤ) = maxConcurrent := by
    rw [capacity, max_eq_right hconcurrent, Int.toNat_of_nonneg (by omega)]
  have hbound : memoryInUse s ≤ capacity maxConcurrent * E.params.memoryKiB.toNat :=
    memoryInUse_le hrun fun op hop password salt params hderives =>
      memory_of_derives (frugal_ops hrun hop).1 (frugal_ops hrun hop).2 hderives
  calc (memoryInUse s : ℤ)
      ≤ ((capacity maxConcurrent * E.params.memoryKiB.toNat : ℕ) : ℤ) := by exact_mod_cast hbound
    _ = maxConcurrent * E.params.memoryKiB.toNat := by rw [Nat.cast_mul, hcapacity]

/-- The default configuration. -/
def Sample.defaults : Envelope :=
  { Sample.envelope with params := ⟨3, 32768, 2⟩, params_valid := by decide }

/-- What `HashPassword` wrote with the given memory cost. -/
def Sample.phc (memoryKiB : UInt32) : Bytes :=
  formatPHC ⟨⟨3, memoryKiB, 2⟩, List.replicate 16 4, List.replicate 32 9⟩

/-- Two slots, both in use: a hash of the configured cost is verified while a
body is sealed. -/
theorem kdf_memory_bounded_sample :
    ∃ s, (machine Sample.primitives Sample.defaults 2).Run (frugal Sample.defaults) start s ∧
      memoryInUse s = 65536 ∧ (memoryInUse s : ℤ) ≤ 2 * 32768 := by
  have hperform : ((machine Sample.primitives Sample.defaults 2).perform
      (fun _ action => isServiceCall action && fitsMemory Sample.defaults action) start
      [.invoke (.verifyPassword (Sample.phc 32768) Sample.password),
        .invoke (.sealBody Sample.draws Sample.id 0 [] Sample.password),
        .advance 0 (.select .granted), .advance 1 (.select .granted)]).any
      (fun s => memoryInUse s = 65536) = true := by decide +kernel
  obtain ⟨s, hrun, hs⟩ := Machine.exists_run_of_perform
    (fun (_ : Config) (_ : Action) h => Bool.and_eq_true _ _ ▸ h) hperform
  exact ⟨s, hrun, of_decide_eq_true hs,
    kdf_memory_bounded Sample.primitives Sample.defaults 2 (by decide) s hrun⟩

/-- One thread, and it verifies. -/
def Sample.verifiesOne (s : Config) : Bool :=
  match s.ops with
  | [.verifyPassword phc password] => decide (phc = Sample.phc 65536 ∧ password = Sample.password)
  | _ => false

/-- With one slot and 32 MiB configured, verifying a hash written when 64 MiB
were configured runs a derivation of 64 MiB. -/
theorem kdf_memory_exceeded :
    ∃ s, (machine Sample.primitives Sample.defaults 1).Run (fun _ action => isServiceCall action)
        start s ∧
      s.ops = [.verifyPassword (Sample.phc 65536) Sample.password] ∧
      parsePHC (Sample.phc 65536) =
        .ok ⟨⟨3, 65536, 2⟩, List.replicate 16 4, List.replicate 32 9⟩ ∧
      memoryInUse s = 65536 ∧
      ¬ (memoryInUse s : ℤ) ≤ 1 * Sample.defaults.params.memoryKiB.toNat := by
  have hperform : ((machine Sample.primitives Sample.defaults 1).perform
      (fun _ action => isServiceCall action) start
      [.invoke (.verifyPassword (Sample.phc 65536) Sample.password),
        .advance 0 (.select .granted)]).any (fun s => decide (memoryInUse s = 65536) &&
      Sample.verifiesOne s) = true := by decide +kernel
  obtain ⟨s, hrun, hs⟩ := Machine.exists_run_of_perform
    (fun (_ : Config) (_ : Action) h => h) hperform
  rw [Bool.and_eq_true, decide_eq_true_eq] at hs
  obtain ⟨hmemory, hs⟩ := hs
  unfold Sample.verifiesOne at hs
  split at hs
  · rename_i phc password hops
    obtain ⟨rfl, rfl⟩ := decide_eq_true_eq.mp hs
    refine ⟨s, hrun, hops, parsePHC_formatPHC _, hmemory, ?_⟩
    rw [hmemory]
    decide
  · cases hs

end SecurePastebin.Crypto.Gate
