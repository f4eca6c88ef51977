import SecurePastebin.Core.Interleaving
import SecurePastebin.Crypto.Envelope
import SecurePastebin.Store.Bodies
import SecurePastebin.Store.Pastes
import SecurePastebin.Sweeper.Pass

/-!
# The paste system

Any number of service calls and sweeper passes run interleaved, one port call
at a time, against one Redis keyspace, one `pastes` table, one audit table, one
keyring and one clock.  A fallible call may fail at any time, without effect.
Between calls the clock may be set and the process may be restarted with
another keyring; which of that is allowed is up to each result.
-/

namespace SecurePastebin.System

open Text Uuid Paste Crypto
open SecurePastebin.Store Process Interleaving

/-! ## State -/

structure Store where
  clock : ℤ
  envelope : Envelope
  /-- The identifiers handed out so far. -/
  drawn : List UUID
  redis : Keyspace Bytes
  pastes : Pastes
  audit : List Event

/-- Nothing has been stored yet. -/
def Store.empty (clock : ℤ) (envelope : Envelope) : Store :=
  ⟨clock, envelope, [], fun _ => none, Table.empty, []⟩

/-- How a call turns out. -/
inductive Choice where
  | ok
  | fail (text : String)
  | uuid (id : UUID)
  | sealing (gate : GateOutcome) (draws : Draws)
  | opening (gate : GateOutcome)

/-! ## Port calls -/

/-- The error a failing call returns; a failing audit write is dropped. -/
def failure (text : String) : (request : Call) → Option request.Reply
  | .now => none
  | .newUUID => none
  | .envelopeSeal .. => some (.error (.message text))
  | .envelopeOpen .. => none
  | .bodiesPut .. => some (.error (.wrap "redis: put body" (.message text)))
  | .bodiesGet .. => some (.error (.wrap "redis: get body" (.message text)))
  | .bodiesDelete .. => some (.error (.wrap "redis: delete body" (.message text)))
  | .bodiesMarkUnavailableOnce .. => some (.error (.wrap "redis: mark unavailable" (.message text)))
  | .metasCreate .. => some (.error (.message text))
  | .metasGet .. => some (.error (.message text))
  | .metasIncrementViews .. => some (.error (.message text))
  | .metasMarkDeleted .. => some (.error (.message text))
  | .metasListByOwner .. => some (.error (.message text))
  | .metasListAll .. => some (.error (.message text))
  | .metasListExpiredUnaudited .. => some (.error (.message text))
  | .metasMarkExpiredAudited .. => some (.error (.message text))
  | .metasPurgeOlderThan .. => some (.error (.message text))
  | .metasPurgeCompletedOlderThan .. => some (.error (.message text))
  | .metasCountActive .. => some (.error (.message text))
  | .auditRecord .. => some ()
  | .auditPurgeOlderThan .. => some (.error (.message text))

namespace Store

variable (store : Store)

/-- A write to Redis that may be refused. -/
def writeRedis {Value : Type} (outcome : Except Err (Value × Keyspace Bytes)) :
    Except Err Value × Store :=
  match outcome with
  | .error err => (.error err, store)
  | .ok (value, redis) => (.ok value, { store with redis })

/-- A write to the `pastes` table that may be refused. -/
def writePastes {Value : Type} (outcome : Except Err (Value × Pastes)) :
    Except Err Value × Store :=
  match outcome with
  | .error err => (.error err, store)
  | .ok (value, pastes) => (.ok value, { store with pastes })

end Store

/-- A call the stores answer themselves. -/
def answer (store : Store) : (request : Call) → Option (request.Reply × Store)
  | .now => some (store.clock, store)
  | .newUUID => none
  | .envelopeSeal .. => none
  | .envelopeOpen .. => none
  | .bodiesPut id record ttl =>
      some (store.writeRedis ((Bodies.put store.redis store.clock id record ttl).map ((), ·)))
  | .bodiesGet id => some (Bodies.get store.redis store.clock id, store)
  | .bodiesDelete id => some (store.writeRedis (.ok ((), Bodies.delete store.redis id)))
  | .bodiesMarkUnavailableOnce id ttl =>
      some (store.writeRedis (Bodies.markUnavailableOnce store.redis store.clock id ttl))
  | .metasCreate m => some (store.writePastes ((store.pastes.create m).map ((), ·)))
  | .metasGet id => some (store.pastes.get id, store)
  | .metasIncrementViews id =>
      some (store.writePastes ((store.pastes.incrementViews id).map ((), ·)))
  | .metasMarkDeleted id byUser time =>
      some (store.writePastes (.ok ((), store.pastes.markDeleted id byUser time)))
  | .metasListByOwner ownerId page => some (.ok (store.pastes.listByOwner ownerId page), store)
  | .metasListAll ownerFilter page => some (.ok (store.pastes.listAll ownerFilter page), store)
  | .metasListExpiredUnaudited time limit =>
      some (.ok (store.pastes.listExpiredUnaudited time limit), store)
  | .metasMarkExpiredAudited ids time =>
      some (store.writePastes (.ok ((), store.pastes.markExpiredAudited ids time)))
  | .metasPurgeOlderThan cutoff =>
      some (store.writePastes (.ok (store.pastes.purgeOlderThan cutoff)))
  | .metasPurgeCompletedOlderThan cutoff =>
      some (store.writePastes (.ok (store.pastes.purgeCompletedOlderThan cutoff)))
  | .metasCountActive time => some (.ok (store.pastes.countActive time), store)
  | .auditRecord event =>
      some ((), { store with
        audit := store.audit ++ [{ event with atTime := pgTime event.atTime }] })
  | .auditPurgeOlderThan cutoff =>
      let isOld := fun event : Event => decide (event.atTime < pgTime cutoff)
      some (.ok (store.audit.countP isOld),
        { store with audit := store.audit.filter fun event => !isOld event })

variable (P : Primitives)

/-- Fresh identifiers and the envelope take their random input from the choice. -/
def exec (store : Store) (request : Call) (choice : Choice) : Option (request.Reply × Store) :=
  match choice, request with
  | .ok, request => answer store request
  | .fail text, request => (failure text request).map (·, store)
  | .uuid id, .newUUID =>
      if id ∈ store.drawn then none else some (id, { store with drawn := id :: store.drawn })
  | .sealing gate draws, .envelopeSeal id expiresAt plain password =>
      some (store.envelope.sealBody P gate draws id expiresAt plain password, store)
  | .opening gate, .envelopeOpen id expiresAt record password =>
      some (store.envelope.openBody P gate id expiresAt record password, store)
  | _, _ => none

/-! ## The machine -/

inductive Op where
  | create (p : Principal) (input : CreateInput)
  | read (p : Option Principal) (id : UUID) (password : Bytes)
  | verify (id : UUID) (sha256hex : Bytes)
  | delete (p : Principal) (id : UUID)
  | listMine (p : Principal) (page : Page)
  | listAll (p : Principal) (ownerFilter : Option UUID) (page : Page)
  | sweep
  deriving DecidableEq

inductive Result where
  | create (result : Except Err CreateResult)
  | read (result : Except Err ReadResult)
  | verify (result : Except Err VerifyResult)
  | delete (result : Except Err Unit)
  | list (result : Except Err (List PasteMeta))
  | sweep (result : Sweeper.Stats × Option Err)
  deriving DecidableEq

namespace Result

/-- What a `Create` that went through returned. -/
def createOk? : Result → Option CreateResult
  | .create (.ok r) => some r
  | _ => none

def createError? : Result → Option Err
  | .create (.error err) => some err
  | _ => none

def read? : Result → Option (Except Err ReadResult)
  | .read outcome => some outcome
  | _ => none

def readOk? (result : Result) : Option ReadResult := result.read?.bind Except.toOption

def verifyOk? : Result → Option VerifyResult
  | .verify (.ok res) => some res
  | _ => none

variable {found : Option Result}

theorem bind_createOk? {r : CreateResult} :
    found.bind createOk? = some r ↔ found = some (.create (.ok r)) := by
  rcases found with _ | ⟨⟨_ | _⟩ | _ | _ | _ | _ | _⟩ <;> simp [createOk?]

theorem bind_createError? {err : Err} :
    found.bind createError? = some err ↔ found = some (.create (.error err)) := by
  rcases found with _ | ⟨⟨_ | _⟩ | _ | _ | _ | _ | _⟩ <;> simp [createError?]

theorem bind_read? {outcome : Except Err ReadResult} :
    found.bind read? = some outcome ↔ found = some (.read outcome) := by
  rcases found with _ | ⟨_ | _ | _ | _ | _ | _⟩ <;> simp [read?]

theorem bind_readOk? {res : ReadResult} :
    found.bind readOk? = some res ↔ found = some (.read (.ok res)) := by
  rcases found with _ | ⟨_ | ⟨_ | _⟩ | _ | _ | _ | _⟩ <;> simp [readOk?, read?, Except.toOption]

theorem bind_verifyOk? {res : VerifyResult} :
    found.bind verifyOk? = some res ↔ found = some (.verify (.ok res)) := by
  rcases found with _ | ⟨_ | _ | ⟨_ | _⟩ | _ | _ | _⟩ <;> simp [verifyOk?]

end Result

/-- What happens outside the modelled programs. -/
inductive Env where
  | tick (time : ℤ)
  | restart (envelope : Envelope)

structure Params where
  prims : Primitives
  hasAudit : Bool
  baseURL : Bytes
  limits : Limits
  sweeper : Sweeper.Config

def Params.deps (sys : Params) : Deps := ⟨sys.prims.sha256, sys.hasAudit, sys.baseURL, sys.limits⟩

def program (sys : Params) : Op → Port Result
  | .create p input => Result.create <$> Paste.create sys.deps p input
  | .read p id password => Result.read <$> Paste.read sys.deps p id password
  | .verify id sha256hex => Result.verify <$> Paste.verify sys.deps id sha256hex
  | .delete p id => Result.delete <$> Paste.delete sys.deps p id
  | .listMine p page => Result.list <$> Paste.listMine p page
  | .listAll p ownerFilter page => Result.list <$> Paste.listAll p ownerFilter page
  | .sweep => Result.sweep <$> Sweeper.runOnce sys.sweeper

def machine (sys : Params) : Machine Store Op Call Call.Reply Choice Env Result where
  program := program sys
  exec := exec sys.prims
  env store
    | .tick time => some { store with clock := time }
    | .restart envelope => some { store with envelope }

abbrev Config := Interleaving.Config Store Op Call Call.Reply Result

abbrev Action := Interleaving.Action Op Choice Env

/-- The clock does not run backwards. -/
def ClockForward (s : Config) : Action → Prop
  | .env (.tick time) => s.store.clock ≤ time
  | _ => True

instance (s : Config) : (action : Action) → Decidable (ClockForward s action)
  | .env (.tick time) => inferInstanceAs (Decidable (s.store.clock ≤ time))
  | .env (.restart _) => .isTrue trivial
  | .invoke _ => .isTrue trivial
  | .advance .. => .isTrue trivial

/-- No call fails by itself; a store may still refuse what it is given. -/
def NoFailure : Action → Prop
  | .advance _ (.fail _) => False
  | _ => True

instance : (action : Action) → Decidable (NoFailure action)
  | .advance _ (.fail _) => .isFalse id
  | .advance _ .ok | .advance _ (.uuid _) | .advance _ (.sealing ..) | .advance _ (.opening _) =>
      .isTrue trivial
  | .env _ => .isTrue trivial
  | .invoke _ => .isTrue trivial

/-! ## A concrete system -/

namespace Sample

def params : Params where
  prims := Crypto.Sample.primitives
  hasAudit := true
  baseURL := ascii "https://paste"
  limits := ⟨1000, 3600, 60, 86400⟩
  sweeper := ⟨30, 90, 500, true, true⟩

def start : Config := .initial (.empty 0 Crypto.Sample.envelope)

def owner : Principal := ⟨.filled 1, ascii "ana", false⟩

def id : UUID := .filled 9

def input : CreateInput := ⟨ascii "hi", [], 60⟩

/-- Thread `i` makes that many calls, none of which fails. -/
def calls (i count : ℕ) : List Action := List.replicate count (.advance i .ok)

/-- One `Create` from start to end, as the first thread. -/
def creating : List Action :=
  [.invoke (.create owner input)] ++ calls 0 1 ++
    [.advance 0 (.uuid id), .advance 0 (.sealing .granted Crypto.Sample.draws)] ++ calls 0 5

end Sample

end SecurePastebin.System
