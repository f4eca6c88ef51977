import SecurePastebin.Core.Interleaving
import SecurePastebin.Core.Text

/-!
# Migrations

`Migrate` and the database it runs against.  The program takes one connection
from its pool and issues one statement at a time on it; several processes do so
at once.  A statement may fail without having been executed, or be executed and
have its reply lost, and a session may end at any moment, by which its lock is
released and its open transaction is rolled back.

The scripts are embedded in the program, so that a listed one can always be read.
Of the schema only the scripts that have been committed are kept, in the order
of their commits.
-/

namespace SecurePastebin.Migrate

open Text Process Interleaving

/-! ## The program -/

/-- What `Migrate` asks of its pool and, with the number of the session, of the
database. -/
inductive Call where
  | acquire
  | release (conn : ℕ)
  | lock (conn : ℕ)
  | unlock (conn : ℕ)
  | bootstrap (conn : ℕ)
  | isApplied (conn : ℕ) (name : Bytes)
  | beginTx (conn : ℕ)
  | execScript (conn : ℕ) (name : Bytes)
  | insertName (conn : ℕ) (name : Bytes)
  | rollback (conn : ℕ)
  | commit (conn : ℕ)

def Call.Reply : Call → Type
  | .acquire => Except Bytes ℕ
  | .release _ => Unit
  | .isApplied .. => Except Bytes Bool
  | _ => Except Bytes Unit

abbrev Port := Proc Call Call.Reply

/-- The names applied by this run, and the error it ended with. -/
structure Outcome where
  applied : List Bytes
  err : Option Bytes
  deriving DecidableEq

def wrapped (context : Bytes) (err : Bytes) : Bytes := context ++ ascii ": " ++ err

/-- The order of Go strings. -/
def before (left right : Bytes) : Prop := left.map UInt8.toNat < right.map UInt8.toNat

instance (left right : Bytes) : Decidable (before left right) :=
  inferInstanceAs (Decidable (left.map UInt8.toNat < right.map UInt8.toNat))

def notAfter (left right : Bytes) : Prop := left.map UInt8.toNat ≤ right.map UInt8.toNat

instance : DecidableRel notAfter := fun left right =>
  inferInstanceAs (Decidable (left.map UInt8.toNat ≤ right.map UInt8.toNat))

def sortNames (names : List Bytes) : List Bytes := names.insertionSort notAfter

/-- The end of the loop's body, once the script has been run. -/
def recordName (conn : ℕ) (name : Bytes) : Port (Except Bytes Unit) := do
  match ← Proc.perform (Call.insertName conn name) with
  | .error err =>
      let _ ← Proc.perform (Call.rollback conn)
      return .error err
  | .ok _ => Proc.perform (Call.commit conn)

/-- The loop's body inside the transaction. -/
def runScript (conn : ℕ) (name : Bytes) : Port (Except Bytes Unit) := do
  match ← Proc.perform (Call.execScript conn name) with
  | .error err =>
      let _ ← Proc.perform (Call.rollback conn)
      return .error (wrapped (ascii "migrate: " ++ name) err)
  | .ok _ => recordName conn name

/-- Apply one migration. -/
def apply (conn : ℕ) (name : Bytes) : Port (Except Bytes Unit) := do
  match ← Proc.perform (Call.beginTx conn) with
  | .error err => return .error err
  | .ok _ => runScript conn name

/-- The loop over the names. -/
def applyAll (conn : ℕ) : List Bytes → List Bytes → Port Outcome
  | [], applied => return ⟨applied, none⟩
  | name :: rest, applied => do
      match ← Proc.perform (Call.isApplied conn name) with
      | .error err => return ⟨applied, some err⟩
      | .ok true => applyAll conn rest applied
      | .ok false =>
          match ← apply conn name with
          | .error err => return ⟨applied, some err⟩
          | .ok _ => applyAll conn rest (applied ++ [name])

/-- What runs under the lock. -/
def applyLocked (conn : ℕ) (names : List Bytes) : Port Outcome := do
  match ← Proc.perform (Call.bootstrap conn) with
  | .error err => return ⟨[], some (wrapped (ascii "migrate: bootstrap") err)⟩
  | .ok _ => applyAll conn (sortNames names) []

/-- The deferred calls; the error of the unlock is ignored. -/
def close (conn : ℕ) (outcome : Outcome) : Port Outcome := do
  let _ ← Proc.perform (Call.unlock conn)
  let _ ← Proc.perform (Call.release conn)
  return outcome

def migrateOn (conn : ℕ) (names : List Bytes) : Port Outcome := do
  match ← Proc.perform (Call.lock conn) with
  | .error err =>
      let _ ← Proc.perform (Call.release conn)
      return ⟨[], some (wrapped (ascii "migrate: lock") err)⟩
  | .ok _ =>
      let outcome ← applyLocked conn names
      close conn outcome

/-- `Migrate`, with the names `fs.Glob` lists. -/
def migrate (names : List Bytes) : Port Outcome := do
  match ← Proc.perform Call.acquire with
  | .error err => return ⟨[], some err⟩
  | .ok conn => migrateOn conn names

/-! ## The database -/

/-- An open transaction: the scripts it has run and the names it has inserted. -/
structure Tx where
  scripts : List Bytes
  names : List Bytes
  aborted : Bool
  deriving DecidableEq

structure Database where
  /-- The scripts whose effects are committed, in the order of the commits. -/
  history : List Bytes
  /-- The rows of `schema_migrations`, once it exists. -/
  table : Option (List Bytes)
  /-- The session that holds the advisory lock, and how often beyond once. -/
  holder : Option (ℕ × ℕ)
  txs : ℕ → Option Tx
  connected : ℕ → Bool
  /-- The connections that a process has taken from its pool. -/
  busy : ℕ → Bool

namespace Database

def fresh : Database := ⟨[], none, none, fun _ => none, fun _ => false, fun _ => false⟩

variable (db : Database)

def acquire (conn : ℕ) : Database :=
  { db with
    connected := Function.update db.connected conn true
    busy := Function.update db.busy conn true }

def endSession (conn : ℕ) : Database :=
  { db with
    holder := db.holder.filter fun held => held.1 ≠ conn
    txs := Function.update db.txs conn none
    connected := Function.update db.connected conn false }

/-- A connection goes back to its pool; one with an open transaction is closed. -/
def release (conn : ℕ) : Database :=
  let left := if (db.txs conn).isSome then db.endSession conn else db
  { left with busy := Function.update left.busy conn false }

def setTx (conn : ℕ) (tx : Option Tx) : Database :=
  { db with txs := Function.update db.txs conn tx }

/-- A failed statement aborts the transaction it belongs to. -/
def abort (conn : ℕ) : Database :=
  db.setTx conn ((db.txs conn).map fun tx => { tx with aborted := true })

def lock (conn : ℕ) : Option Database :=
  match db.holder with
  | none => some { db with holder := some (conn, 0) }
  | some (owner, again) =>
      if owner = conn then some { db with holder := some (conn, again + 1) } else none

/-- Unlocking what is not held only raises a warning. -/
def unlock (conn : ℕ) : Database :=
  match db.holder with
  | none => db
  | some (owner, again) =>
      if owner = conn then
        { db with holder := if again = 0 then none else some (conn, again - 1) }
      else db

def insertName (conn : ℕ) (name : Bytes) : Except Bytes Unit × Database :=
  match db.txs conn, db.table with
  | some tx, some names =>
      if name ∈ names ∨ name ∈ tx.names then (.error (ascii "duplicate key"), db.abort conn)
      else (.ok (), db.setTx conn (some { tx with names := tx.names ++ [name] }))
  | _, _ => (.error (ascii "relation does not exist"), db.abort conn)

def execScript (conn : ℕ) (name : Bytes) : Except Bytes Unit × Database :=
  match db.txs conn with
  | none => (.error (ascii "tx is closed"), db)
  | some tx => (.ok (), db.setTx conn (some { tx with scripts := tx.scripts ++ [name] }))

/-- A commit makes everything of its transaction visible at once; that of an
aborted transaction rolls it back. -/
def commit (conn : ℕ) : Except Bytes Unit × Database :=
  match db.txs conn with
  | none => (.error (ascii "tx is closed"), db)
  | some tx =>
      if tx.aborted then (.error (ascii "commit unexpectedly resulted in rollback"), db.setTx conn none)
      else
        (.ok (),
          { db.setTx conn none with
            history := db.history ++ tx.scripts
            table := db.table.map (· ++ tx.names) })

/-- What an executed call answers and leaves; `none` while it has to wait. -/
def statement : (request : Call) → Option (request.Reply × Database)
  | .acquire => none
  | .release conn => some ((), db.release conn)
  | .lock conn => (db.lock conn).map fun next => (.ok (), next)
  | .unlock conn => some (.ok (), db.unlock conn)
  | .bootstrap _ => some (.ok (), { db with table := some (db.table.getD []) })
  | .isApplied _ name =>
      match db.table with
      | none => some (.error (ascii "relation does not exist"), db)
      | some names => some (.ok (decide (name ∈ names)), db)
  | .beginTx conn => some (.ok (), db.setTx conn (some ((db.txs conn).getD ⟨[], [], false⟩)))
  | .execScript conn name => some (db.execScript conn name)
  | .insertName conn name => some (db.insertName conn name)
  | .rollback conn => some (.ok (), db.setTx conn none)
  | .commit conn => some (db.commit conn)

end Database

/-- The session a call is made on. -/
def Call.conn? : Call → Option ℕ
  | .acquire => none
  | .release conn | .lock conn | .unlock conn | .bootstrap conn | .isApplied conn _
  | .beginTx conn | .execScript conn _ | .insertName conn _ | .rollback conn | .commit conn =>
      some conn

/-- How a call turns out. -/
inductive Choice where
  | connection (conn : ℕ)
  | ok
  | fail (text : Bytes)
  | lost (text : Bytes)

/-- The error a call can be answered with. -/
def Call.refusal (text : Bytes) : (request : Call) → Option request.Reply
  | .release _ => none
  | .acquire | .lock _ | .unlock _ | .bootstrap _ | .isApplied .. | .beginTx _ | .execScript ..
  | .insertName .. | .rollback _ | .commit _ => some (.error text)

/-- A statement is executed on a live session; in an aborted transaction only its
end is.  A connection can always be given back. -/
def Database.accepts (db : Database) : Call → Bool
  | .acquire => false
  | .release _ => true
  | .rollback conn | .commit conn => db.connected conn
  | .lock conn | .unlock conn | .bootstrap conn | .isApplied conn _ | .beginTx conn
  | .execScript conn _ | .insertName conn _ =>
      db.connected conn && !(db.txs conn).any (·.aborted)

def exec (db : Database) (request : Call) (choice : Choice) : Option (request.Reply × Database) :=
  match choice with
  | .connection conn =>
      match request with
      | .acquire => if db.busy conn then none else some (.ok conn, db.acquire conn)
      | _ => none
  | .ok => if db.accepts request then db.statement request else none
  | .fail text =>
      (request.refusal text).map fun reply => (reply, (request.conn?.map db.abort).getD db)
  | .lost text =>
      if db.accepts request then
        (db.statement request).bind fun outcome =>
          (request.refusal text).map fun reply => (reply, outcome.2)
      else none

/-- What happens outside the processes: a session ends. -/
inductive Env where
  | crash (conn : ℕ)

def machine : Machine Database (List Bytes) Call Call.Reply Choice Env Outcome where
  program := migrate
  exec := exec
  env db
    | .crash conn => some (db.endSession conn)

abbrev Config := Interleaving.Config Database (List Bytes) Call Call.Reply Outcome

abbrev Action := Interleaving.Action (List Bytes) Choice Env

end SecurePastebin.Migrate
