import SecurePastebin.Store.Migrate

/-!
# Migrations apply once and in order

A process of `Migrate` is always at one of a few stages, and the stage says what
it relies on: the loop runs under the lock as long as its session lives, the
names behind it are committed, and the transaction it has open holds exactly the
script and the row of the current name.  A session that has ended can only fail,
so nothing is claimed about it.
-/

namespace SecurePastebin.Migrate

open Text Process Interleaving

/-! ## The stages of a process -/

/-- The loop at one name: what was applied, what is behind, what is ahead. -/
structure Loop where
  applied : List Bytes
  done : List Bytes
  name : Bytes
  rest : List Bytes

/-- The call of the loop's body that is next. -/
inductive Phase where
  | looking
  | beginning
  | scripting
  | inserting
  | committing
  deriving DecidableEq

inductive Stage where
  | idle
  | locking (conn : ℕ)
  | bootstrapping (conn : ℕ)
  | applying (conn : ℕ) (loop : Loop) (phase : Phase)
  | rollingBack (conn : ℕ) (outcome : Outcome)
  | unlocking (conn : ℕ) (outcome : Outcome)
  | releasing (conn : ℕ) (outcome : Outcome)
  | returned (outcome : Outcome)

namespace Stage

/-- The connection a process has taken from its pool. -/
def conn? : Stage → Option ℕ
  | .idle | .returned _ => none
  | .locking conn | .bootstrapping conn | .applying conn .. | .rollingBack conn _
  | .unlocking conn _ | .releasing conn _ => some conn

/-- The loop with `rest` ahead. -/
def loop (conn : ℕ) (applied done : List Bytes) : List Bytes → Stage
  | [] => .unlocking conn ⟨applied, none⟩
  | name :: rest => .applying conn ⟨applied, done, name, rest⟩ .looking

/-- The call a process waits for; a returned one waits for none. -/
def request : Stage → Call
  | .idle | .returned _ => .acquire
  | .locking conn => .lock conn
  | .bootstrapping conn => .bootstrap conn
  | .applying conn loop .looking => .isApplied conn loop.name
  | .applying conn _ .beginning => .beginTx conn
  | .applying conn loop .scripting => .execScript conn loop.name
  | .applying conn loop .inserting => .insertName conn loop.name
  | .applying conn _ .committing => .commit conn
  | .rollingBack conn _ => .rollback conn
  | .unlocking conn _ => .unlock conn
  | .releasing conn _ => .release conn

/-- Where the reply to that call leads. -/
def resume (names : List Bytes) : (stage : Stage) → stage.request.Reply → Stage
  | .idle, .ok conn => .locking conn
  | .idle, .error err => .returned ⟨[], some err⟩
  | .locking conn, .ok _ => .bootstrapping conn
  | .locking conn, .error err =>
      .releasing conn ⟨[], some (wrapped (ascii "migrate: lock") err)⟩
  | .bootstrapping conn, .ok _ => .loop conn [] [] (sortNames names)
  | .bootstrapping conn, .error err =>
      .unlocking conn ⟨[], some (wrapped (ascii "migrate: bootstrap") err)⟩
  | .applying conn loop .looking, .ok true =>
      .loop conn loop.applied (loop.done ++ [loop.name]) loop.rest
  | .applying conn loop .looking, .ok false => .applying conn loop .beginning
  | .applying conn loop .looking, .error err => .unlocking conn ⟨loop.applied, some err⟩
  | .applying conn loop .beginning, .ok _ => .applying conn loop .scripting
  | .applying conn loop .beginning, .error err => .unlocking conn ⟨loop.applied, some err⟩
  | .applying conn loop .scripting, .ok _ => .applying conn loop .inserting
  | .applying conn loop .scripting, .error err =>
      .rollingBack conn ⟨loop.applied, some (wrapped (ascii "migrate: " ++ loop.name) err)⟩
  | .applying conn loop .inserting, .ok _ => .applying conn loop .committing
  | .applying conn loop .inserting, .error err => .rollingBack conn ⟨loop.applied, some err⟩
  | .applying conn loop .committing, .ok _ =>
      .loop conn (loop.applied ++ [loop.name]) (loop.done ++ [loop.name]) loop.rest
  | .applying conn loop .committing, .error err => .unlocking conn ⟨loop.applied, some err⟩
  | .rollingBack conn outcome, _ => .unlocking conn outcome
  | .unlocking conn outcome, _ => .releasing conn outcome
  | .releasing _ outcome, _ => .returned outcome
  | .returned outcome, _ => .returned outcome

/-- What follows the application of one migration in the loop. -/
def continueWith (conn : ℕ) (loop : Loop) : Except Bytes Unit → Port Outcome
  | .error err => return ⟨loop.applied, some err⟩
  | .ok _ => applyAll conn loop.rest (loop.applied ++ [loop.name])

/-- What is left of `Migrate` at a stage. -/
def program (names : List Bytes) : Stage → Port Outcome
  | .idle => migrate names
  | .locking conn => migrateOn conn names
  | .bootstrapping conn => applyLocked conn names >>= close conn
  | .applying conn loop .looking => applyAll conn (loop.name :: loop.rest) loop.applied >>= close conn
  | .applying conn loop .beginning => apply conn loop.name >>= continueWith conn loop >>= close conn
  | .applying conn loop .scripting => runScript conn loop.name >>= continueWith conn loop >>= close conn
  | .applying conn loop .inserting => recordName conn loop.name >>= continueWith conn loop >>= close conn
  | .applying conn loop .committing =>
      Proc.perform (Call.commit conn) >>= continueWith conn loop >>= close conn
  | .rollingBack conn outcome => Proc.perform (Call.rollback conn) >>= fun _ => close conn outcome
  | .unlocking conn outcome => close conn outcome
  | .releasing conn outcome => Proc.perform (Call.release conn) >>= fun _ => .ret outcome
  | .returned outcome => .ret outcome

theorem program_loop (names : List Bytes) (conn : ℕ) (applied done rest : List Bytes) :
    (loop conn applied done rest).program names = applyAll conn rest applied >>= close conn := by
  cases rest <;> rfl

/-- A process that has not returned waits for the call of its stage, and the reply
leads it to the next stage. -/
theorem program_eq (names : List Bytes) {stage : Stage}
    (hrunning : ∀ outcome, stage ≠ .returned outcome) :
    stage.program names =
      .call stage.request fun reply => (stage.resume names reply).program names := by
  cases stage with
  | idle | locking =>
      refine congrArg (Proc.call _) (funext fun reply => ?_)
      cases reply <;> rfl
  | rollingBack | unlocking | releasing => rfl
  | bootstrapping conn =>
      refine congrArg (Proc.call _) (funext fun reply => ?_)
      cases reply with
      | error err => rfl
      | ok _ => exact (program_loop ..).symm
  | applying conn loop phase =>
      cases phase with
      | looking =>
          refine congrArg (Proc.call _) (funext fun reply => ?_)
          rcases reply with err | found
          · rfl
          · cases found with
            | true => exact (program_loop ..).symm
            | false => rfl
      | beginning | scripting | inserting =>
          refine congrArg (Proc.call _) (funext fun reply => ?_)
          cases reply <;> rfl
      | committing =>
          refine congrArg (Proc.call _) (funext fun reply => ?_)
          cases reply with
          | error err => rfl
          | ok _ => exact (program_loop ..).symm
  | returned outcome => exact absurd rfl (hrunning outcome)

end Stage

/-! ## What a call does to the database -/

def Database.Holds (db : Database) (conn : ℕ) : Prop := ∃ again, db.holder = some (conn, again)

/-- What is done on one session leaves the other ones alone. -/
structure Frame (conn : ℕ) (db next : Database) : Prop where
  connected : ∀ other, other ≠ conn → next.connected other = db.connected other
  busy : ∀ other, other ≠ conn → next.busy other = db.busy other
  txs : ∀ other, other ≠ conn → next.txs other = db.txs other
  holds : ∀ other, other ≠ conn → db.Holds other → next.Holds other
  table : db.table.isSome = true → next.table.isSome = true

variable {db next : Database} {conn : ℕ} {choice : Choice}

theorem Frame.refl (conn : ℕ) (db : Database) : Frame conn db db :=
  ⟨fun _ _ => rfl, fun _ _ => rfl, fun _ _ => rfl, fun _ _ h => h, id⟩

theorem frame_acquire (db : Database) (conn : ℕ) : Frame conn db (db.acquire conn) where
  connected _ hne := Function.update_of_ne hne ..
  busy _ hne := Function.update_of_ne hne ..
  txs _ _ := rfl
  holds _ _ h := h
  table := id

theorem frame_setTx (db : Database) (conn : ℕ) (tx : Option Tx) : Frame conn db (db.setTx conn tx) where
  connected _ _ := rfl
  busy _ _ := rfl
  txs _ hne := Function.update_of_ne hne ..
  holds _ _ h := h
  table := id

theorem frame_endSession (db : Database) (conn : ℕ) : Frame conn db (db.endSession conn) where
  connected _ hne := Function.update_of_ne hne ..
  busy _ _ := rfl
  txs _ hne := Function.update_of_ne hne ..
  holds other hne := by
    rintro ⟨again, hheld⟩
    exact ⟨again, by simp [Database.endSession, hheld, hne]⟩
  table := id

theorem frame_release (db : Database) (conn : ℕ) : Frame conn db (db.release conn) := by
  unfold Database.release
  dsimp only
  split
  · have hended := frame_endSession db conn
    exact ⟨hended.connected, fun _ hne => Function.update_of_ne hne .., hended.txs, hended.holds,
      hended.table⟩
  · exact ⟨fun _ _ => rfl, fun _ hne => Function.update_of_ne hne .., fun _ _ => rfl,
      fun _ _ h => h, id⟩

theorem lock_eq (hlock : db.lock conn = some next) :
    ∃ again, next = { db with holder := some (conn, again) } ∧
      ∀ other, db.Holds other → other = conn := by
  unfold Database.lock at hlock
  split at hlock
  · rename_i hnone
    cases hlock
    refine ⟨0, rfl, ?_⟩
    rintro other ⟨again, hheld⟩
    rw [hnone] at hheld
    cases hheld
  · rename_i owner again hheld
    split at hlock
    · rename_i howner
      cases hlock
      refine ⟨again + 1, rfl, ?_⟩
      rintro other ⟨count, hother⟩
      rw [hheld] at hother
      cases hother
      exact howner
    · cases hlock

theorem frame_lock (hlock : db.lock conn = some next) : Frame conn db next := by
  obtain ⟨again, rfl, hexclusive⟩ := lock_eq hlock
  exact ⟨fun _ _ => rfl, fun _ _ => rfl, fun _ _ => rfl,
    fun other hne hheld => absurd (hexclusive other hheld) hne, id⟩

theorem unlock_eq (db : Database) (conn : ℕ) :
    ∃ holder, db.unlock conn = { db with holder } ∧
      ∀ other, other ≠ conn → db.Holds other → holder = db.holder := by
  unfold Database.unlock
  split
  · exact ⟨db.holder, rfl, fun _ _ _ => rfl⟩
  · rename_i owner again hheld
    split
    · rename_i howner
      refine ⟨_, rfl, ?_⟩
      rintro other hne ⟨count, hother⟩
      rw [hheld] at hother
      cases hother
      exact absurd howner hne
    · exact ⟨db.holder, rfl, fun _ _ _ => rfl⟩

theorem frame_unlock (db : Database) (conn : ℕ) : Frame conn db (db.unlock conn) := by
  obtain ⟨holder, heq, hother⟩ := unlock_eq db conn
  rw [heq]
  refine ⟨fun _ _ => rfl, fun _ _ => rfl, fun _ _ => rfl, fun other hne hheld => ?_, id⟩
  obtain ⟨again, hagain⟩ := id hheld
  exact ⟨again, (hother other hne hheld).trans hagain⟩

variable {request : Call} {i : ℕ}

/-- A call on a session is executed there, or refused there. -/
theorem exec_on {reply : request.Reply} (hconn : request.conn? = some conn)
    (hexec : exec db request choice = some (reply, next)) :
    (db.accepts request = true ∧ ∃ answer, db.statement request = some (answer, next) ∧
        (reply = answer ∨ ∃ text, request.refusal text = some reply)) ∨
      ∃ text, request.refusal text = some reply ∧ next = db.abort conn := by
  cases choice with
  | connection found => cases request <;> cases hconn <;> cases hexec
  | ok =>
      simp only [exec] at hexec
      split at hexec
      · rename_i haccepts
        exact .inl ⟨haccepts, reply, hexec, .inl rfl⟩
      · cases hexec
  | fail text =>
      simp only [exec, hconn, Option.map_some, Option.getD_some] at hexec
      obtain ⟨found, hfound, heq⟩ := Option.map_eq_some_iff.mp hexec
      cases heq
      exact .inr ⟨text, hfound, rfl⟩
  | lost text =>
      simp only [exec] at hexec
      split at hexec
      · rename_i haccepts
        obtain ⟨⟨answer, after⟩, hanswer, hexec⟩ := Option.bind_eq_some_iff.mp hexec
        obtain ⟨found, hfound, heq⟩ := Option.map_eq_some_iff.mp hexec
        cases heq
        exact .inl ⟨haccepts, answer, hanswer, .inr ⟨text, hfound⟩⟩
      · cases hexec

theorem exec_acquire {reply : Except Bytes ℕ} (hexec : exec db .acquire choice = some (reply, next)) :
    (∃ conn, db.busy conn = false ∧ reply = .ok conn ∧ next = db.acquire conn) ∨
      ∃ text, reply = .error text ∧ next = db := by
  cases choice with
  | connection conn =>
      simp only [exec] at hexec
      split at hexec
      · cases hexec
      · rename_i hbusy
        cases hexec
        exact .inl ⟨conn, by simpa using hbusy, rfl, rfl⟩
  | ok => cases hexec
  | fail text =>
      cases hexec
      exact .inr ⟨text, rfl, rfl⟩
  | lost text => cases hexec

/-- Outside a commit, what is committed stays as it is. -/
def Database.Kept (db next : Database) : Prop :=
  next.history = db.history ∧ next.table.getD [] = db.table.getD []

theorem insertName_frame (db : Database) (conn : ℕ) (name : Bytes) :
    ∃ tx, (db.insertName conn name).2 = db.setTx conn tx := by
  unfold Database.insertName Database.abort
  split
  · split <;> exact ⟨_, rfl⟩
  · exact ⟨_, rfl⟩

theorem execScript_frame (db : Database) (conn : ℕ) (name : Bytes) :
    ∃ tx, (db.execScript conn name).2 = db.setTx conn tx := by
  unfold Database.execScript
  split
  · rename_i hnone
    exact ⟨none, by simp [Database.setTx, ← hnone]⟩
  · exact ⟨_, rfl⟩

theorem commit_cases (db : Database) (conn : ℕ) :
    (∃ tx, (db.commit conn).2 = db.setTx conn tx) ∨
      ∃ tx, db.txs conn = some tx ∧ (db.commit conn).2 =
        { db.setTx conn none with
          history := db.history ++ tx.scripts
          table := db.table.map (· ++ tx.names) } := by
  unfold Database.commit
  split
  · rename_i hnone
    exact .inl ⟨none, by simp [Database.setTx, ← hnone]⟩
  · rename_i tx htx
    split
    · exact .inl ⟨none, rfl⟩
    · exact .inr ⟨tx, htx, rfl⟩

/-- What a call on a session does: it touches no other session, a connection is
given back without a transaction on it, and what is committed changes only by a
commit. -/
structure Touches (request : Call) (conn : ℕ) (db next : Database) : Prop where
  frame : Frame conn db next
  busy : next.busy conn = db.busy conn ∨ request = .release conn ∧ next.txs conn = none
  committed : db.Kept next ∨ ∃ tx, request = .commit conn ∧ db.txs conn = some tx ∧
    next.history = db.history ++ tx.scripts ∧ next.table = db.table.map (· ++ tx.names)

theorem touches_setTx (request : Call) (db : Database) (conn : ℕ) (tx : Option Tx) :
    Touches request conn db (db.setTx conn tx) :=
  ⟨frame_setTx .., .inl rfl, .inl ⟨rfl, rfl⟩⟩

theorem touches_release (db : Database) (conn : ℕ) :
    Touches (.release conn) conn db (db.release conn) := by
  refine ⟨frame_release db conn, .inr ⟨rfl, ?_⟩, .inl ?_⟩
  all_goals
    unfold Database.release
    dsimp only
    split
  · exact Function.update_self ..
  · rename_i hnone
    exact Option.not_isSome_iff_eq_none.mp hnone
  · exact ⟨rfl, rfl⟩
  · exact ⟨rfl, rfl⟩

theorem touches_commit (db : Database) (conn : ℕ) :
    Touches (.commit conn) conn db (db.commit conn).2 := by
  rcases commit_cases db conn with ⟨tx, htx⟩ | ⟨tx, htx, hafter⟩
  · rw [htx]
    exact touches_setTx ..
  · rw [hafter]
    have hframe := frame_setTx db conn none
    refine ⟨⟨hframe.connected, hframe.busy, hframe.txs, hframe.holds, ?_⟩, .inl rfl,
      .inr ⟨tx, rfl, htx, rfl, rfl⟩⟩
    intro htable
    rwa [Option.isSome_map]

theorem touches_statement {answer : request.Reply}
    (hconn : request.conn? = some conn) (hanswer : db.statement request = some (answer, next)) :
    Touches request conn db next := by
  cases request <;> cases hconn
  case release =>
      cases hanswer
      exact touches_release db conn
  case lock =>
      obtain ⟨after, hafter, heq⟩ := Option.map_eq_some_iff.mp hanswer
      cases heq
      refine ⟨frame_lock hafter, ?_, ?_⟩
      all_goals
        obtain ⟨again, rfl, -⟩ := lock_eq hafter
      · exact .inl rfl
      · exact .inl ⟨rfl, rfl⟩
  case unlock =>
      cases hanswer
      refine ⟨frame_unlock db conn, ?_, ?_⟩
      all_goals
        obtain ⟨holder, heq, -⟩ := unlock_eq db conn
        rw [heq]
      · exact .inl rfl
      · exact .inl ⟨rfl, rfl⟩
  case bootstrap =>
      cases hanswer
      exact ⟨⟨fun _ _ => rfl, fun _ _ => rfl, fun _ _ => rfl, fun _ _ h => h, fun _ => rfl⟩,
        .inl rfl, .inl ⟨rfl, rfl⟩⟩
  case isApplied name =>
      simp only [Database.statement] at hanswer
      split at hanswer <;> cases hanswer <;> exact ⟨.refl conn db, .inl rfl, .inl ⟨rfl, rfl⟩⟩
  case beginTx | rollback =>
      cases hanswer
      exact touches_setTx ..
  case execScript name =>
      obtain ⟨tx, htx⟩ := execScript_frame db conn name
      have heq : next = (db.execScript conn name).2 :=
        (congrArg Prod.snd (Option.some.inj hanswer)).symm
      rw [heq, htx]
      exact touches_setTx ..
  case insertName name =>
      obtain ⟨tx, htx⟩ := insertName_frame db conn name
      have heq : next = (db.insertName conn name).2 :=
        (congrArg Prod.snd (Option.some.inj hanswer)).symm
      rw [heq, htx]
      exact touches_setTx ..
  case commit =>
      have heq : next = (db.commit conn).2 :=
        (congrArg Prod.snd (Option.some.inj hanswer)).symm
      rw [heq]
      exact touches_commit db conn

theorem touches_exec {reply : request.Reply} (hconn : request.conn? = some conn)
    (hexec : exec db request choice = some (reply, next)) : Touches request conn db next := by
  rcases exec_on hconn hexec with ⟨-, answer, hanswer, -⟩ | ⟨text, -, rfl⟩
  · exact touches_statement hconn hanswer
  · exact touches_setTx ..

/-! ## What a stage relies on -/

/-- The transaction that is open at a phase. -/
def Phase.tx (name : Bytes) : Phase → Option Tx
  | .looking | .beginning => none
  | .scripting => some ⟨[], [], false⟩
  | .inserting => some ⟨[name], [], false⟩
  | .committing => some ⟨[name], [name], false⟩

/-- What the loop's body relies on while its session lives. -/
structure Guarded (db : Database) (conn : ℕ) (loop : Loop) (phase : Phase) : Prop where
  holds : db.Holds conn
  tx : db.txs conn = phase.tx loop.name
  unapplied : phase ≠ .looking → loop.name ∉ db.history

def Stage.Sound (names : List Bytes) (db : Database) : Stage → Prop
  | .idle => True
  | .locking conn => db.connected conn = true → db.txs conn = none
  | .bootstrapping conn => db.connected conn = true → db.Holds conn ∧ db.txs conn = none
  | .applying conn loop phase =>
      sortNames names = loop.done ++ loop.name :: loop.rest ∧ db.table.isSome = true ∧
        (∀ name ∈ loop.done, name ∈ db.history) ∧
        (db.connected conn = true → Guarded db conn loop phase)
  | .rollingBack _ outcome | .unlocking _ outcome | .releasing _ outcome | .returned outcome =>
      outcome.err = none → ∀ name ∈ names, name ∈ db.history

variable {names : List Bytes} {stage : Stage} {reply : stage.request.Reply}

theorem sound_loop {applied done rest : List Bytes} (hsorted : sortNames names = done ++ rest)
    (htable : db.table.isSome = true) (hdone : ∀ name ∈ done, name ∈ db.history)
    (halive : db.connected conn = true → db.Holds conn ∧ db.txs conn = none) :
    (Stage.loop conn applied done rest).Sound names db := by
  cases rest with
  | nil =>
      intro _ name hname
      apply hdone
      have hmem : name ∈ sortNames names := (List.mem_insertionSort _).mpr hname
      rwa [hsorted, List.append_nil] at hmem
  | cons name rest =>
      exact ⟨hsorted, htable, hdone, fun hconnected =>
        ⟨(halive hconnected).1, (halive hconnected).2, fun hne => absurd rfl hne⟩⟩

/-- What happens on another session leaves a stage sound; a commit there means
that this session does not hold the lock. -/
theorem Stage.Sound.frame (hsound : stage.Sound names db) (hframe : Frame conn db next)
    (hother : stage.conn? ≠ some conn)
    (hhistory : next.history = db.history ∨
      db.Holds conn ∧ ∃ more, next.history = db.history ++ more) :
    stage.Sound names next := by
  have hgrows : ∀ name ∈ db.history, name ∈ next.history := by
    rcases hhistory with heq | ⟨-, more, heq⟩
    · rw [heq]
      exact fun _ h => h
    · rw [heq]
      exact fun _ h => List.mem_append_left _ h
  cases stage with
  | idle => trivial
  | locking own =>
      have hne : own ≠ conn := fun heq => hother (by rw [Stage.conn?, heq])
      intro hconnected
      rw [hframe.connected own hne] at hconnected
      rw [hframe.txs own hne]
      exact hsound hconnected
  | bootstrapping own =>
      have hne : own ≠ conn := fun heq => hother (by rw [Stage.conn?, heq])
      intro hconnected
      rw [hframe.connected own hne] at hconnected
      rw [hframe.txs own hne]
      exact ⟨hframe.holds own hne (hsound hconnected).1, (hsound hconnected).2⟩
  | applying own loop phase =>
      have hne : own ≠ conn := fun heq => hother (by rw [Stage.conn?, heq])
      obtain ⟨hsorted, htable, hdone, halive⟩ := hsound
      refine ⟨hsorted, hframe.table htable, fun name hname => hgrows name (hdone name hname),
        fun hconnected => ?_⟩
      rw [hframe.connected own hne] at hconnected
      have hguarded := halive hconnected
      refine ⟨hframe.holds own hne hguarded.holds, ?_, fun hphase => ?_⟩
      · rw [hframe.txs own hne]
        exact hguarded.tx
      · rcases hhistory with heq | ⟨⟨again, hheld⟩, -⟩
        · rw [heq]
          exact hguarded.unapplied hphase
        · obtain ⟨count, hown⟩ := hguarded.holds
          rw [hheld] at hown
          cases hown
          exact absurd rfl hne
  | rollingBack own outcome | unlocking own outcome | releasing own outcome | returned outcome =>
      exact fun herr name hname => hgrows name (hsound herr name hname)

/-- What is true of the database in between. -/
structure Database.Settled (db : Database) : Prop where
  nodup : db.history.Nodup
  table : db.table.getD [] = db.history
  idle : ∀ conn, db.busy conn = false → db.txs conn = none

/-! ## One step of a process -/

/-- A call that is not answered with an error has been executed. -/
theorem exec_ok {reply : request.Reply} (hconn : request.conn? = some conn)
    (hexec : exec db request choice = some (reply, next))
    (hok : ∀ text, request.refusal text ≠ some reply) :
    db.accepts request = true ∧ db.statement request = some (reply, next) := by
  rcases exec_on hconn hexec with ⟨haccepts, answer, hanswer, rfl | ⟨text, htext⟩⟩ | ⟨text, htext, -⟩
  · exact ⟨haccepts, hanswer⟩
  · exact absurd htext (hok text)
  · exact absurd htext (hok text)

theorem connected_of_accepts (hconn : request.conn? = some conn)
    (hrelease : request ≠ .release conn) (haccepts : db.accepts request = true) :
    db.connected conn = true := by
  cases request <;> cases hconn <;> simp_all [Database.accepts]

variable {loop : Loop}

theorem sound_looking {reply : Except Bytes Bool} (hsettled : db.Settled)
    (hsound : (Stage.applying conn loop .looking).Sound names db)
    (hexec : exec db (.isApplied conn loop.name) choice = some (reply, next)) :
    ((Stage.applying conn loop .looking).resume names reply).Sound names next := by
  obtain ⟨hsorted, hexists, hdone, halive⟩ := hsound
  cases reply with
  | error err => exact fun herr => nomatch herr
  | ok found =>
      obtain ⟨-, hanswer⟩ := exec_ok rfl hexec (fun text h => nomatch h)
      have htable := hsettled.table
      simp only [Database.statement] at hanswer
      split at hanswer
      · cases hanswer
      · rename_i rows hrows
        rw [hrows, Option.getD_some] at htable
        cases hanswer
        cases hfound : decide (loop.name ∈ rows) with
        | true =>
            refine sound_loop (by simpa using hsorted) hexists ?_ fun hconnected =>
              ⟨(halive hconnected).holds, (halive hconnected).tx⟩
            intro name hname
            rcases List.mem_append.mp hname with hname | hname
            · exact hdone name hname
            · rw [List.mem_singleton.mp hname, ← htable]
              exact of_decide_eq_true hfound
        | false =>
            refine ⟨hsorted, hexists, hdone, fun hconnected =>
              ⟨(halive hconnected).holds, (halive hconnected).tx, fun _ => ?_⟩⟩
            rw [← htable]
            exact of_decide_eq_false hfound

theorem sound_beginning {reply : Except Bytes Unit}
    (hsound : (Stage.applying conn loop .beginning).Sound names db)
    (hexec : exec db (.beginTx conn) choice = some (reply, next)) :
    ((Stage.applying conn loop .beginning).resume names reply).Sound names next := by
  obtain ⟨hsorted, hexists, hdone, halive⟩ := hsound
  cases reply with
  | error err => exact fun herr => nomatch herr
  | ok _ =>
      obtain ⟨-, hanswer⟩ := exec_ok rfl hexec (fun text h => nomatch h)
      cases hanswer
      refine ⟨hsorted, hexists, hdone, fun hconnected => ?_⟩
      have hguarded := halive hconnected
      refine ⟨hguarded.holds, ?_, fun _ => hguarded.unapplied (by simp)⟩
      simp [Database.setTx, hguarded.tx, Phase.tx]

theorem sound_scripting {reply : Except Bytes Unit}
    (hsound : (Stage.applying conn loop .scripting).Sound names db)
    (hexec : exec db (.execScript conn loop.name) choice = some (reply, next)) :
    ((Stage.applying conn loop .scripting).resume names reply).Sound names next := by
  obtain ⟨hsorted, hexists, hdone, halive⟩ := hsound
  cases reply with
  | error err => exact fun herr => nomatch herr
  | ok _ =>
      obtain ⟨haccepts, hanswer⟩ := exec_ok rfl hexec (fun text h => nomatch h)
      have hguarded := halive (connected_of_accepts rfl (by simp) haccepts)
      have heq : next = (db.execScript conn loop.name).2 :=
        (congrArg Prod.snd (Option.some.inj hanswer)).symm
      simp only [Database.execScript, hguarded.tx, Phase.tx] at heq
      subst heq
      refine ⟨hsorted, hexists, hdone, fun _ =>
        ⟨hguarded.holds, ?_, fun _ => hguarded.unapplied (by simp)⟩⟩
      simp [Database.setTx, Phase.tx]

theorem sound_inserting {reply : Except Bytes Unit}
    (hsound : (Stage.applying conn loop .inserting).Sound names db)
    (hexec : exec db (.insertName conn loop.name) choice = some (reply, next)) :
    ((Stage.applying conn loop .inserting).resume names reply).Sound names next := by
  obtain ⟨hsorted, hexists, hdone, halive⟩ := hsound
  cases reply with
  | error err => exact fun herr => nomatch herr
  | ok _ =>
      obtain ⟨haccepts, hanswer⟩ := exec_ok rfl hexec (fun text h => nomatch h)
      have hguarded := halive (connected_of_accepts rfl (by simp) haccepts)
      have hanswer := Option.some.inj hanswer
      simp only [Database.insertName, hguarded.tx, Phase.tx] at hanswer
      split at hanswer
      · rename_i tx rows htx hrows
        split at hanswer
        · cases hanswer
        · cases htx
          cases hanswer
          refine ⟨hsorted, hexists, hdone, fun _ =>
            ⟨hguarded.holds, ?_, fun _ => hguarded.unapplied (by simp)⟩⟩
          simp [Database.setTx, Phase.tx]
      · cases hanswer

theorem sound_committing {reply : Except Bytes Unit}
    (hsound : (Stage.applying conn loop .committing).Sound names db)
    (hexec : exec db (.commit conn) choice = some (reply, next)) :
    ((Stage.applying conn loop .committing).resume names reply).Sound names next := by
  obtain ⟨hsorted, hexists, hdone, halive⟩ := hsound
  cases reply with
  | error err => exact fun herr => nomatch herr
  | ok _ =>
      obtain ⟨haccepts, hanswer⟩ := exec_ok rfl hexec (fun text h => nomatch h)
      have hguarded := halive haccepts
      have heq : next = (db.commit conn).2 :=
        (congrArg Prod.snd (Option.some.inj hanswer)).symm
      simp only [Database.commit, hguarded.tx, Phase.tx, Bool.false_eq_true, ↓reduceIte] at heq
      subst heq
      refine sound_loop (by simpa using hsorted) (by rwa [Option.isSome_map]) ?_
        fun _ => ⟨hguarded.holds, ?_⟩
      · intro name hname
        rcases List.mem_append.mp hname with hname | hname
        · exact List.mem_append_left _ (hdone name hname)
        · exact List.mem_append_right _ hname
      · simp [Database.setTx]

/-- The reply to the call of a stage leads to a stage that is sound again. -/
theorem Stage.Sound.step (hsound : stage.Sound names db)
    (hsettled : db.Settled) (hexec : exec db stage.request choice = some (reply, next)) :
    (stage.resume names reply).Sound names next := by
  cases stage with
  | idle =>
      rcases exec_acquire hexec with ⟨conn, hbusy, rfl, rfl⟩ | ⟨text, rfl, rfl⟩
      · exact fun _ => hsettled.idle conn hbusy
      · exact fun herr => nomatch herr
  | locking conn =>
      cases reply with
      | error err => exact fun herr => nomatch herr
      | ok _ =>
          obtain ⟨-, hanswer⟩ := exec_ok rfl hexec (fun text h => nomatch h)
          obtain ⟨after, hafter, heq⟩ := Option.map_eq_some_iff.mp hanswer
          cases heq
          obtain ⟨again, rfl, -⟩ := lock_eq hafter
          exact fun hconnected => ⟨⟨again, rfl⟩, hsound hconnected⟩
  | bootstrapping conn =>
      cases reply with
      | error err => exact fun herr => nomatch herr
      | ok _ =>
          obtain ⟨-, hanswer⟩ := exec_ok rfl hexec (fun text h => nomatch h)
          cases hanswer
          exact sound_loop rfl rfl nofun hsound
  | applying conn loop phase =>
      cases phase with
      | looking => exact sound_looking hsettled hsound hexec
      | beginning => exact sound_beginning hsound hexec
      | scripting => exact sound_scripting hsound hexec
      | inserting => exact sound_inserting hsound hexec
      | committing => exact sound_committing hsound hexec
  | rollingBack conn outcome | unlocking conn outcome | releasing conn outcome =>
      rcases (touches_exec rfl hexec).committed with hkept | ⟨_, ⟨⟩, -⟩
      intro herr name hname
      rw [hkept.1]
      exact hsound herr name hname
  | returned outcome =>
      intro herr name hname
      have hbefore := hsound herr name hname
      rcases exec_acquire hexec with ⟨conn, -, -, rfl⟩ | ⟨text, -, rfl⟩ <;> exact hbefore

theorem kept_of_acquire {reply : request.Reply} (hrequest : request = .acquire)
    (hexec : exec db request choice = some (reply, next)) : db.Kept next := by
  subst hrequest
  rcases exec_acquire hexec with ⟨conn, -, -, rfl⟩ | ⟨text, -, rfl⟩ <;> exact ⟨rfl, rfl⟩

/-- Only a process in its loop commits, and it commits the current name. -/
theorem history_of_step (hsound : stage.Sound names db)
    (hexec : exec db stage.request choice = some (reply, next)) :
    db.Kept next ∨ ∃ conn loop, stage = .applying conn loop .committing ∧ db.Holds conn ∧
      sortNames names = loop.done ++ loop.name :: loop.rest ∧
      (∀ name ∈ loop.done, name ∈ db.history) ∧ loop.name ∉ db.history ∧
      next.history = db.history ++ [loop.name] ∧
      next.table.getD [] = db.table.getD [] ++ [loop.name] := by
  by_cases hacquire : stage.request = .acquire
  · exact .inl (kept_of_acquire hacquire hexec)
  · obtain ⟨conn, hconn⟩ : ∃ conn, stage.request.conn? = some conn := by
      cases hrequest : stage.request <;> first | exact absurd hrequest hacquire | exact ⟨_, rfl⟩
    rcases (touches_exec hconn hexec).committed with hkept | ⟨tx, hcommit, htx, hhistory, htable⟩
    · exact .inl hkept
    · obtain ⟨loop, rfl⟩ : ∃ loop, stage = .applying conn loop .committing := by
        cases stage with
        | applying own loop phase =>
            cases phase <;> cases hcommit
            exact ⟨loop, rfl⟩
        | idle | locking | bootstrapping | rollingBack | unlocking | releasing | returned =>
            cases hcommit
      rcases exec_on rfl hexec with ⟨haccepts, -⟩ | ⟨text, -, rfl⟩
      · obtain ⟨hsorted, hexists, hdone, halive⟩ := hsound
        have hguarded := halive haccepts
        rw [hguarded.tx] at htx
        cases htx
        refine .inr ⟨conn, loop, rfl, hguarded.holds, hsorted, hdone,
          hguarded.unapplied (by simp), hhistory, ?_⟩
        obtain ⟨rows, hrows⟩ := Option.isSome_iff_exists.mp hexists
        rw [htable, hrows]
        rfl
      · exact .inl ⟨rfl, rfl⟩

/-- A process that has taken a connection makes its calls on it. -/
theorem Stage.conn_cases (hrunning : ∀ outcome, stage ≠ .returned outcome) :
    stage = .idle ∨ ∃ conn, stage.conn? = some conn ∧ stage.request.conn? = some conn := by
  cases stage with
  | idle => exact .inl rfl
  | returned outcome => exact absurd rfl (hrunning outcome)
  | applying conn loop phase => exact .inr ⟨conn, rfl, by cases phase <;> rfl⟩
  | locking conn | bootstrapping conn | rollingBack conn | unlocking conn | releasing conn =>
      exact .inr ⟨conn, rfl, rfl⟩

theorem Stage.conn_loop (conn : ℕ) (applied done rest : List Bytes) :
    (Stage.loop conn applied done rest).conn? = some conn := by
  cases rest <;> rfl

/-- A connection is kept until it is given back. -/
theorem Stage.conn_resume (hidle : stage ≠ .idle)
    (hconn : (stage.resume names reply).conn? = some conn) :
    stage.conn? = some conn ∧ stage.request ≠ .release conn := by
  cases stage with
  | idle => exact absurd rfl hidle
  | locking own =>
      cases reply <;> cases hconn <;> exact ⟨rfl, nofun⟩
  | bootstrapping own =>
      rcases reply with err | _
      · cases hconn
        exact ⟨rfl, nofun⟩
      · exact ⟨(conn_loop ..).symm.trans hconn, nofun⟩
  | applying own loop phase =>
      refine ⟨?_, by cases phase <;> exact nofun⟩
      cases phase with
      | looking =>
          rcases reply with err | _ | _
          · exact hconn
          · exact hconn
          · exact (conn_loop ..).symm.trans hconn
      | beginning | scripting | inserting => cases reply <;> exact hconn
      | committing =>
          rcases reply with err | _
          · exact hconn
          · exact (conn_loop ..).symm.trans hconn
  | rollingBack own outcome | unlocking own outcome =>
      cases hconn
      exact ⟨rfl, nofun⟩
  | releasing own outcome | returned outcome => cases hconn

theorem idle_of_step (hsettled : db.Settled)
    (hbusy : ∀ conn, stage.conn? = some conn → db.busy conn = true)
    (hrunning : ∀ outcome, stage ≠ .returned outcome)
    (hexec : exec db stage.request choice = some (reply, next)) (conn : ℕ)
    (hconn : next.busy conn = false) : next.txs conn = none := by
  rcases Stage.conn_cases hrunning with rfl | ⟨own, hown, hrequest⟩
  · rcases exec_acquire hexec with ⟨taken, -, -, rfl⟩ | ⟨text, -, rfl⟩
    · refine hsettled.idle conn ?_
      by_cases hne : conn = taken
      · simp [Database.acquire, hne] at hconn
      · rwa [(frame_acquire db taken).busy conn hne] at hconn
    · exact hsettled.idle conn hconn
  · have htouches := touches_exec hrequest hexec
    by_cases hne : conn = own
    · subst hne
      rcases htouches.busy with hsame | ⟨-, hclean⟩
      · rw [hsame, hbusy conn hown] at hconn
        cases hconn
      · exact hclean
    · rw [htouches.frame.busy conn hne] at hconn
      rw [htouches.frame.txs conn hne]
      exact hsettled.idle conn hconn

/-- What a step leaves is settled again. -/
theorem Database.Settled.step (hsettled : db.Settled)
    (hsound : stage.Sound names db) (hbusy : ∀ conn, stage.conn? = some conn → db.busy conn = true)
    (hrunning : ∀ outcome, stage ≠ .returned outcome)
    (hexec : exec db stage.request choice = some (reply, next)) : next.Settled := by
  have hidle := idle_of_step hsettled hbusy hrunning hexec
  rcases history_of_step hsound hexec with ⟨hhistory, htable⟩ |
    ⟨conn, loop, -, -, -, -, hunapplied, hhistory, htable⟩
  · exact ⟨hhistory ▸ hsettled.nodup, by rw [htable, hhistory, hsettled.table], hidle⟩
  · refine ⟨?_, by rw [htable, hhistory, hsettled.table], hidle⟩
    rw [hhistory]
    refine List.nodup_append.mpr ⟨hsettled.nodup, List.nodup_singleton _, ?_⟩
    intro name hname found hfound heq
    rw [List.mem_singleton.mp hfound] at heq
    exact hunapplied (heq ▸ hname)

/-- The processes on other connections are left where they are. -/
theorem others_of_step (hsound : stage.Sound names db)
    (hrunning : ∀ outcome, stage ≠ .returned outcome)
    (hexec : exec db stage.request choice = some (reply, next)) {other : Stage}
    {list : List Bytes} (hother : other.Sound list db)
    (hbusy : ∀ conn, other.conn? = some conn → db.busy conn = true)
    (hapart : ∀ conn, stage.conn? = some conn → other.conn? ≠ some conn) :
    other.Sound list next ∧ ∀ conn, other.conn? = some conn → next.busy conn = true := by
  rcases Stage.conn_cases hrunning with rfl | ⟨own, hown, hrequest⟩
  · rcases exec_acquire hexec with ⟨taken, hfree, -, rfl⟩ | ⟨text, -, rfl⟩
    · have hne : other.conn? ≠ some taken := by
        intro heq
        rw [hbusy taken heq] at hfree
        cases hfree
      refine ⟨hother.frame (frame_acquire db taken) hne (.inl rfl), fun conn hconn => ?_⟩
      rw [(frame_acquire db taken).busy conn fun heq => hne (heq ▸ hconn)]
      exact hbusy conn hconn
    · exact ⟨hother, hbusy⟩
  · have hframe := (touches_exec hrequest hexec).frame
    refine ⟨hother.frame hframe (hapart own hown) ?_, fun conn hconn => ?_⟩
    · rcases history_of_step hsound hexec with ⟨hhistory, -⟩ |
        ⟨conn, loop, rfl, hholds, -, -, -, hhistory, -⟩
      · exact .inl hhistory
      · cases hown
        exact .inr ⟨hholds, _, hhistory⟩
    · rw [hframe.busy conn fun heq => hapart own hown (heq ▸ hconn)]
      exact hbusy conn hconn

/-- The connection of the next stage is that of this one, or one that was free. -/
theorem conn_of_step (hbusy : ∀ conn, stage.conn? = some conn → db.busy conn = true)
    (hrunning : ∀ outcome, stage ≠ .returned outcome)
    (hexec : exec db stage.request choice = some (reply, next)) {conn : ℕ}
    (hconn : (stage.resume names reply).conn? = some conn) :
    next.busy conn = true ∧ (stage.conn? = some conn ∨ db.busy conn = false) := by
  rcases Stage.conn_cases hrunning with rfl | ⟨own, hown, hrequest⟩
  · rcases exec_acquire hexec with ⟨taken, hfree, rfl, rfl⟩ | ⟨text, rfl, rfl⟩
    · cases hconn
      exact ⟨Function.update_self .., .inr hfree⟩
    · cases hconn
  · have hidle : stage ≠ .idle := by
      rintro rfl
      cases hown
    obtain ⟨hsame, hkept⟩ := Stage.conn_resume hidle hconn
    obtain rfl : own = conn := Option.some.inj (hown.symm.trans hsame)
    refine ⟨?_, .inl hown⟩
    rcases (touches_exec hrequest hexec).busy with hbusy' | ⟨hrelease, -⟩
    · exact hbusy'.trans (hbusy own hown)
    · exact absurd hrelease hkept

/-! ## Whole runs -/

/-- Every process is at a stage that is sound, and no two share a connection. -/
structure Invariant (s : Config) (stages : List Stage) : Prop where
  settled : s.store.Settled
  lengths : stages.length = s.ops.length ∧ s.procs.length = s.ops.length
  program : ∀ (i : ℕ) (names : List Bytes) (stage : Stage), s.ops[i]? = some names → stages[i]? = some stage →
    s.procs[i]? = some (stage.program names)
  sound : ∀ (i : ℕ) (names : List Bytes) (stage : Stage), s.ops[i]? = some names → stages[i]? = some stage →
    stage.Sound names s.store
  busy : ∀ (i : ℕ) (stage : Stage) (conn : ℕ), stages[i]? = some stage → stage.conn? = some conn →
    s.store.busy conn = true
  apart : ∀ (i j : ℕ) (left right : Stage) (conn : ℕ), stages[i]? = some left → stages[j]? = some right →
    left.conn? = some conn → right.conn? = some conn → i = j

variable {s after : Config} {stages : List Stage}

theorem invariant_initial : Invariant (.initial .fresh) [] where
  settled := ⟨List.nodup_nil, rfl, fun _ _ => rfl⟩
  lengths := ⟨rfl, rfl⟩
  program _ _ _ hop := by simp [Config.initial] at hop
  sound _ _ _ hop := by simp [Config.initial] at hop
  busy _ _ _ hstage := by simp at hstage
  apart _ _ _ _ _ hstage := by simp at hstage

/-- The end of a session. -/
theorem Invariant.endSession (hinv : Invariant s stages) (conn : ℕ) :
    Invariant { s with store := s.store.endSession conn } stages := by
  have hframe := frame_endSession s.store conn
  refine ⟨⟨hinv.settled.nodup, hinv.settled.table, fun other hother => ?_⟩, hinv.lengths,
    hinv.program, fun i names stage hop hstage => ?_, hinv.busy, hinv.apart⟩
  · by_cases hne : other = conn
    · rw [hne]
      exact Function.update_self ..
    · rw [hframe.txs other hne]
      exact hinv.settled.idle other hother
  · have hsound := hinv.sound i names stage hop hstage
    by_cases hown : stage.conn? = some conn
    · have hended : (s.store.endSession conn).connected conn ≠ true := by
        simp [Database.endSession]
      cases stage with
      | idle => trivial
      | locking own | bootstrapping own =>
          cases hown
          exact fun hconnected => absurd hconnected hended
      | applying own loop phase =>
          cases hown
          exact ⟨hsound.1, hsound.2.1, hsound.2.2.1, fun hconnected => absurd hconnected hended⟩
      | rollingBack own outcome | unlocking own outcome | releasing own outcome
      | returned outcome => exact hsound
    · exact hsound.frame hframe hown (.inl rfl)

private theorem stage_concat {fresh found : Stage} (hfound : (stages ++ [fresh])[i]? = some found) :
    stages[i]? = some found ∨ i = stages.length ∧ found = fresh := by
  rw [List.getElem?_append] at hfound
  split at hfound
  · exact .inl hfound
  · rw [List.getElem?_singleton] at hfound
    split at hfound
    · cases hfound
      exact .inr ⟨by omega, rfl⟩
    · cases hfound

/-- A new process has done nothing yet. -/
theorem Invariant.invoke (hinv : Invariant s stages) (names : List Bytes) :
    Invariant (s.invoke names (migrate names)) (stages ++ [.idle]) := by
  obtain ⟨hstages, hprocs⟩ := hinv.lengths
  refine ⟨hinv.settled, by simp [Config.invoke, hstages, hprocs], ?_, ?_, ?_, ?_⟩
  · intro i found stage hop hstage
    rcases s.ops_invoke hop with hop | ⟨hi, rfl⟩ <;> rcases stage_concat hstage with hstage | ⟨hi', rfl⟩
    · have hproc := hinv.program i found stage hop hstage
      have hlt : i < s.procs.length := (List.getElem?_eq_some_iff.mp hproc).1
      rw [Config.invoke, List.getElem?_append_left hlt, hproc]
    · have hlt := (List.getElem?_eq_some_iff.mp hop).1
      omega
    · have hlt := (List.getElem?_eq_some_iff.mp hstage).1
      omega
    · have heq : i = s.procs.length := by omega
      rw [heq, Config.invoke, List.getElem?_append_right le_rfl]
      simp [Stage.program]
  · intro i found stage hop hstage
    rcases stage_concat hstage with hstage | ⟨-, rfl⟩
    · rcases s.ops_invoke hop with hop | ⟨hi, -⟩
      · exact hinv.sound i found stage hop hstage
      · have hlt := (List.getElem?_eq_some_iff.mp hstage).1
        omega
    · trivial
  · intro i stage conn hstage hconn
    rcases stage_concat hstage with hstage | ⟨-, rfl⟩
    · exact hinv.busy i stage conn hstage hconn
    · cases hconn
  · intro i j left right conn hleft hright hconn hconn'
    rcases stage_concat hleft with hleft | ⟨-, rfl⟩
    · rcases stage_concat hright with hright | ⟨-, rfl⟩
      · exact hinv.apart i j left right conn hleft hright hconn hconn'
      · cases hconn'
    · cases hconn

/-- The stage of a process that is about to make a call. -/
theorem Invariant.waiting (hinv : Invariant s stages)
    {rest : request.Reply → Port Outcome} (hproc : s.procs[i]? = some (.call request rest)) :
    ∃ names stage, s.ops[i]? = some names ∧ stages[i]? = some stage ∧
      (∀ outcome, stage ≠ .returned outcome) ∧
      (Proc.call request rest : Port Outcome) =
        .call stage.request fun reply => (stage.resume names reply).program names := by
  obtain ⟨hstages, hprocs⟩ := hinv.lengths
  have hlt : i < s.ops.length := hprocs ▸ (List.getElem?_eq_some_iff.mp hproc).1
  have hop : s.ops[i]? = some s.ops[i] := List.getElem?_eq_getElem hlt
  obtain ⟨stage, hstage⟩ : ∃ stage, stages[i]? = some stage :=
    ⟨_, List.getElem?_eq_getElem (hstages ▸ hlt)⟩
  have hprogram := hinv.program i _ _ hop hstage
  rw [hproc] at hprogram
  have hprogram := Option.some.inj hprogram
  have hrunning : ∀ outcome, stage ≠ .returned outcome := by
    rintro outcome rfl
    cases hprogram
  exact ⟨_, stage, hop, hstage, hrunning, hprogram.trans (Stage.program_eq _ hrunning)⟩

private theorem stage_set {fresh found : Stage} {i j : ℕ}
    (hfound : (stages.set i fresh)[j]? = some found) :
    j = i ∧ found = fresh ∨ j ≠ i ∧ stages[j]? = some found := by
  by_cases hij : j = i
  · subst hij
    rw [List.getElem?_set_self'] at hfound
    obtain ⟨_, -, rfl⟩ := Option.map_eq_some_iff.mp hfound
    exact .inl ⟨rfl, rfl⟩
  · rw [List.getElem?_set_ne (Ne.symm hij)] at hfound
    exact .inr ⟨hij, hfound⟩

/-- One process has its call answered. -/
theorem Invariant.advance (hinv : Invariant s stages)
    (hop : s.ops[i]? = some names) (hstage : stages[i]? = some stage)
    (hrunning : ∀ outcome, stage ≠ .returned outcome)
    (hexec : exec s.store stage.request choice = some (reply, db)) :
    Invariant (s.answer i ((stage.resume names reply).program names) ⟨stage.request, reply⟩ db)
      (stages.set i (stage.resume names reply)) := by
  have hsound := hinv.sound i names stage hop hstage
  have hbusy : ∀ conn, stage.conn? = some conn → s.store.busy conn = true :=
    fun conn => hinv.busy i stage conn hstage
  have hothers : ∀ j list other, j ≠ i → s.ops[j]? = some list → stages[j]? = some other →
      other.Sound list db ∧ ∀ conn, other.conn? = some conn → db.busy conn = true := by
    intro j list other hne hlist hother
    refine others_of_step hsound hrunning hexec (hinv.sound j list other hlist hother)
      (fun conn => hinv.busy j other conn hother) fun conn hown hshared => ?_
    exact hne (hinv.apart j i other stage conn hother hstage hshared hown)
  have hlist : ∀ (j : ℕ) (other : Stage), stages[j]? = some other → ∃ list, s.ops[j]? = some list := by
    intro j other hother
    have hlt : j < stages.length := (List.getElem?_eq_some_iff.mp hother).1
    exact ⟨_, List.getElem?_eq_getElem (hinv.lengths.1 ▸ hlt)⟩
  have hsplit : ∀ j other conn, (stages.set i (stage.resume names reply))[j]? = some other →
      other.conn? = some conn → j ≠ i → (stage.resume names reply).conn? ≠ some conn := by
    intro j other conn hother hconn hne hshared
    rcases stage_set hother with ⟨heq, -⟩ | ⟨-, hother⟩
    · exact hne heq
    · rcases (conn_of_step hbusy hrunning hexec hshared).2 with hown | hfree
      · exact hne (hinv.apart j i other stage conn hother hstage hconn hown)
      · rw [hinv.busy j other conn hother hconn] at hfree
        cases hfree
  refine ⟨hinv.settled.step hsound hbusy hrunning hexec, ?_, ?_, ?_, ?_, ?_⟩
  · simpa [Config.answer] using hinv.lengths
  · intro j list other hlist hother
    rw [Config.ops_answer] at hlist
    rcases stage_set hother with ⟨rfl, rfl⟩ | ⟨hne, hother⟩
    · obtain rfl : names = list := Option.some.inj (hop.symm.trans hlist)
      have hlt : j < s.procs.length := by
        rw [hinv.lengths.2]
        exact (List.getElem?_eq_some_iff.mp hop).1
      exact List.getElem?_set_self hlt
    · rw [Config.answer, List.getElem?_set_ne (Ne.symm hne)]
      exact hinv.program j list other hlist hother
  · intro j list other hlist hother
    rw [Config.ops_answer] at hlist
    rcases stage_set hother with ⟨rfl, rfl⟩ | ⟨hne, hother⟩
    · obtain rfl : names = list := Option.some.inj (hop.symm.trans hlist)
      exact hsound.step hinv.settled hexec
    · exact (hothers j list other hne hlist hother).1
  · intro j other conn hother hconn
    rcases stage_set hother with ⟨rfl, rfl⟩ | ⟨hne, hother⟩
    · exact (conn_of_step hbusy hrunning hexec hconn).1
    · obtain ⟨list, hlist⟩ := hlist j other hother
      exact (hothers j list other hne hlist hother).2 conn hconn
  · intro j k left right conn hleft hright hconn hconn'
    by_contra hne
    rcases stage_set hleft with ⟨rfl, rfl⟩ | ⟨hj, hleft'⟩
    · exact hsplit k right conn hright hconn' (Ne.symm hne) hconn
    · rcases stage_set hright with ⟨rfl, rfl⟩ | ⟨hk, hright'⟩
      · exact hsplit j left conn hleft hconn hne hconn'
      · exact hne (hinv.apart j k left right conn hleft' hright' hconn hconn')

theorem exists_invariant (hrun : machine.Run anyStep (.initial .fresh) s) :
    ∃ stages, Invariant s stages := by
  induction hrun with
  | refl => exact ⟨[], invariant_initial⟩
  | tail _ _ hact ih =>
      obtain ⟨stages, hinv⟩ := ih
      rcases Machine.act_cases hact with ⟨⟨conn⟩, db, -, hdb, rfl⟩ | ⟨names, -, rfl⟩ |
        ⟨i, choice, request, rest, reply, db, -, hproc, hexec, rfl⟩
      · cases hdb
        exact ⟨stages, hinv.endSession conn⟩
      · exact ⟨_, hinv.invoke names⟩
      · obtain ⟨names, stage, hop, hstage, hrunning, heq⟩ := hinv.waiting hproc
        cases heq
        exact ⟨_, hinv.advance hop hstage hrunning hexec⟩

instance : Std.Total notAfter := ⟨fun _ _ => le_total _ _⟩

instance : IsTrans Bytes notAfter := ⟨fun _ _ _ => le_trans⟩

/-- The names before the current one in sorting order are those behind the loop. -/
theorem mem_done_of_before {done rest : List Bytes} {name smaller : Bytes}
    (hsorted : sortNames names = done ++ name :: rest) (hsmaller : smaller ∈ names)
    (hbefore : before smaller name) : smaller ∈ done := by
  have hpairwise : (sortNames names).Pairwise notAfter := List.pairwise_insertionSort notAfter names
  have hmem : smaller ∈ sortNames names := (List.mem_insertionSort _).mpr hsmaller
  rw [hsorted] at hmem hpairwise
  rcases List.mem_append.mp hmem with hmem | hmem
  · exact hmem
  · have hafter : notAfter name smaller := by
      rcases List.mem_cons.mp hmem with rfl | hmem
      · exact le_rfl
      · exact (List.pairwise_cons.mp (List.pairwise_append.mp hpairwise).2.1).1 smaller hmem
    exact absurd hbefore (not_lt.mpr hafter)

/-- A process runs the script of a name only once all smaller names are committed. -/
theorem Invariant.script_in_order (hinv : Invariant s stages)
    {conn : ℕ} {name : Bytes} (hop : s.ops[i]? = some names)
    (hpending : s.pending? i = some (.execScript conn name)) :
    name ∈ names ∧ ∀ smaller ∈ names, before smaller name → smaller ∈ s.store.history := by
  unfold Config.pending? at hpending
  split at hpending
  · rename_i hproc
    cases hpending
    obtain ⟨list, stage, hlist, hstage, -, heq⟩ := hinv.waiting hproc
    obtain rfl : names = list := Option.some.inj (hop.symm.trans hlist)
    have hsound := hinv.sound i names stage hop hstage
    injection heq with hrequest
    cases stage with
    | applying own loop phase =>
        cases phase <;> cases hrequest
        obtain ⟨hsorted, -, hdone, -⟩ := hsound
        refine ⟨(List.mem_insertionSort notAfter).mp ?_, fun smaller hsmaller hbefore => ?_⟩
        · change loop.name ∈ sortNames names
          simp [hsorted]
        · exact hdone smaller (mem_done_of_before hsorted hsmaller hbefore)
    | idle | locking | bootstrapping | rollingBack | unlocking | releasing | returned =>
        cases hrequest
  · cases hpending

/-- A step commits nothing, or one name, after all smaller ones. -/
theorem Invariant.commit_in_order (hinv : Invariant s stages) {action : Action}
    (hact : machine.act s action = some after) :
    after.store.history = s.store.history ∨
      ∃ i choice names name, action = .advance i choice ∧ s.ops[i]? = some names ∧ name ∈ names ∧
        after.store.history = s.store.history ++ [name] ∧
        ∀ smaller ∈ names, before smaller name → smaller ∈ s.store.history := by
  rcases Machine.act_cases hact with ⟨⟨conn⟩, db, -, hdb, rfl⟩ | ⟨names, -, rfl⟩ |
    ⟨i, choice, request, rest, reply, db, rfl, hproc, hexec, rfl⟩
  · cases hdb
    exact .inl rfl
  · exact .inl rfl
  · obtain ⟨names, stage, hop, hstage, -, heq⟩ := hinv.waiting hproc
    cases heq
    rcases history_of_step (hinv.sound i names stage hop hstage) hexec with ⟨hhistory, -⟩ |
      ⟨conn, loop, -, -, hsorted, hdone, -, hhistory, -⟩
    · exact .inl hhistory
    · refine .inr ⟨i, choice, names, loop.name, rfl, hop, ?_, hhistory, fun smaller hsmaller hbefore =>
        hdone smaller (mem_done_of_before hsorted hsmaller hbefore)⟩
      refine (List.mem_insertionSort notAfter).mp ?_
      change loop.name ∈ sortNames names
      simp [hsorted]

/-- A process that has returned without an error leaves everything committed. -/
theorem Invariant.complete (hinv : Invariant s stages)
    {outcome : Outcome} (hreturned : s.Returned i names outcome) (herr : outcome.err = none) :
    ∀ name ∈ names, name ∈ s.store.history := by
  have hlt : i < stages.length := by
    rw [hinv.lengths.1]
    exact (List.getElem?_eq_some_iff.mp hreturned.1).1
  have hstage : stages[i]? = some stages[i] := List.getElem?_eq_getElem hlt
  have hprogram := hinv.program i names _ hreturned.1 hstage
  have hsound := hinv.sound i names _ hreturned.1 hstage
  generalize stages[i] = stage at hprogram hsound
  rw [hreturned.2] at hprogram
  have hprogram := Option.some.inj hprogram
  by_cases hrunning : ∀ found, stage ≠ .returned found
  · rw [Stage.program_eq names hrunning] at hprogram
    cases hprogram
  · push Not at hrunning
    obtain ⟨found, rfl⟩ := hrunning
    cases hprogram
    exact hsound herr

/-- However many processes migrate at once, and whichever of their sessions end:
nothing is committed twice, the table lists exactly what is committed, every
script is run and committed after all those before it, and a process that ends
without an error leaves everything committed. -/
theorem migrations_once_in_order (hrun : machine.Run anyStep (.initial .fresh) s) :
    s.store.history.Nodup ∧ s.store.table.getD [] = s.store.history ∧
      (∀ i names conn name, s.ops[i]? = some names →
        s.pending? i = some (.execScript conn name) →
        name ∈ names ∧ ∀ smaller ∈ names, before smaller name → smaller ∈ s.store.history) ∧
      (∀ action after, machine.act s action = some after →
        after.store.history = s.store.history ∨
          ∃ i choice names name, action = .advance i choice ∧ s.ops[i]? = some names ∧
            name ∈ names ∧ after.store.history = s.store.history ++ [name] ∧
            ∀ smaller ∈ names, before smaller name → smaller ∈ s.store.history) ∧
      ∀ i names outcome, s.Returned i names outcome → outcome.err = none →
        ∀ name ∈ names, name ∈ s.store.history := by
  obtain ⟨stages, hinv⟩ := exists_invariant hrun
  refine ⟨hinv.settled.nodup, hinv.settled.table, ?_, ?_, ?_⟩
  · intro i names conn name hop hpending
    exact hinv.script_in_order hop hpending
  · intro action after hact
    exact hinv.commit_in_order hact
  · intro i names outcome hreturned herr
    exact hinv.complete hreturned herr

namespace Sample

/-- Two files, as a directory may list them. -/
def files : List Bytes := [ascii "0002.sql", ascii "0001.sql"]

/-- The first of two processes loses its session inside a transaction. -/
def schedule : List Action :=
  [.invoke files, .invoke files, .advance 0 (.connection 0), .advance 1 (.connection 1),
    .advance 0 .ok, .advance 0 .ok, .advance 0 .ok, .advance 0 .ok, .advance 0 .ok,
    .env (.crash 0), .advance 0 (.fail (ascii "closed"))] ++
    List.replicate 14 (.advance 1 .ok)

end Sample

theorem migrations_once_in_order_sample :
    ∃ s : Config, machine.Run anyStep (.initial .fresh) s ∧
      s.Returned 1 Sample.files ⟨[ascii "0001.sql", ascii "0002.sql"], none⟩ ∧
      s.store.history.Nodup ∧ ∀ name ∈ Sample.files, name ∈ s.store.history := by
  have hperform : (machine.perform (fun _ _ => true) (.initial .fresh) Sample.schedule).any
      (fun s => s.ops[1]? = some Sample.files &&
        s.result? 1 = some ⟨[ascii "0001.sql", ascii "0002.sql"], none⟩) = true := by
    decide +kernel
  obtain ⟨s, hrun, hobs⟩ : ∃ s, machine.Run anyStep (.initial .fresh) s ∧ _ :=
    Machine.exists_any_run hperform
  simp only [Bool.and_eq_true, decide_eq_true_eq] at hobs
  have hreturned : s.Returned 1 Sample.files ⟨[ascii "0001.sql", ascii "0002.sql"], none⟩ :=
    (s.returned_iff ..).mpr hobs
  obtain ⟨hnodup, -, -, -, hcomplete⟩ := migrations_once_in_order hrun
  exact ⟨s, hrun, hreturned, hnodup, hcomplete 1 _ _ hreturned rfl⟩

end SecurePastebin.Migrate
