import RelayPoint.Concurrency.Pool
import RelayPoint.Journal.Broker
import RelayPoint.Signaling.Admission

/-!
# Machine — the shared world of a fleet of routers

Any number of routers share one `LogStore`.  Each router has a cache `inter` of interaction states
and a singleflight group `load` that collapses concurrent rebuilds of one key.  A cached state is an
object with a mutex of its own; calls keep a pointer to it after it left the cache, so objects live
in a heap.

The operations below are the atomic steps of a call.  `lock` hands the state to the caller and
`unlock` writes it back: nobody reads the guarded fields without the mutex, so the updates in between
are invisible.  `ReplaySite` and `LockSite` name the program point and its locals; the machine
ignores them, conditions on runs refer to them.
-/

namespace RelayPoint.Signaling

open Concurrency Journal

/-! ## Program points -/

inductive ReplaySite where
  | load
  | refold (max : Nat) (st : InteractionState) (c : Ordinary)
  | refoldFact (max : Nat) (st : InteractionState) (p : Privileged) (f : PlannedFact)
  | lostAck (max : Nat) (st : InteractionState) (c : Ordinary)
  | duplicate (max : Nat) (st : InteractionState) (c : Ordinary)

inductive LockSite where
  | command (c : Ordinary)
  | parents (p : Privileged)
  | fact (p : Privileged) (f : PlannedFact)
  | bind (p : Privileged)

/-- On whose behalf a fact is appended: the identity, and the payload of a privileged command.  The
log does not record it; statements about the log do. -/
structure Author where
  ctx : Identity
  payload : Option Payload
  deriving DecidableEq, Repr

structure Fact where
  author : Author
  event : Event
  deriving DecidableEq, Repr

/-! ## Operations -/

inductive AppendError where
  | occConflict
  | other
  deriving DecidableEq, Repr

/-- The caller that finds no rebuild in flight runs it, the others wait for its result. -/
inductive Flight where
  | lead (f : Nat)
  | join (f : Nat)
  deriving DecidableEq, Repr

inductive Op where
  | append (author : Author) (subject : String) (ev : Event) (dedupID : String) (expected : Nat)
  | replay (site : ReplaySite) (subject : String)
  | now
  | newID
  | interGet (r : Nat) (key : String)
  | interPut (r : Nat) (key : String) (st : InteractionState)
  | interDelete (r : Nat) (key : String)
  | loadJoin (r : Nat) (key : String)
  | loadWait (f : Nat)
  | loadDone (r : Nat) (key : String) (f : Nat) (res : Option Nat)
  | lock (site : LockSite) (o : Nat)
  | unlock (o : Nat) (st : InteractionState)

def Ans : Op → Type
  | .append .. => Except AppendError (Bool × Nat)
  | .replay .. => Option (List Event × Nat)
  | .now => Nat
  | .newID => String
  | .interGet .. => Option Nat
  | .interPut .. => Nat
  | .interDelete .. => Unit
  | .loadJoin .. => Flight
  | .loadWait _ => Option Nat
  | .loadDone .. => Unit
  | .lock .. => InteractionState
  | .unlock .. => Unit

/-! ## The world -/

structure Cell where
  key : String
  st : InteractionState
  locked : Bool

abbrev LogStore :=
  Broker String String Fact

def factsOf (b : LogStore) (subject : String) : List Fact :=
  (log subject b.stream).map Msg.payload

structure World where
  broker : LogStore
  heap : List Cell
  inter : Nat → String → Option Nat
  load : Nat → String → Option Nat
  flights : List (String × Option (Option Nat))

def World.start : World where
  broker := Broker.empty
  heap := []
  inter := fun _ _ => none
  load := fun _ _ => none
  flights := []

def setAt {β : Type} (f : Nat → String → Option β) (r : Nat) (key : String) (v : Option β) :
    Nat → String → Option β :=
  fun r' key' => if r' = r ∧ key' = key then v else f r' key'

def World.alloc (w : World) (r : Nat) (key : String) (st : InteractionState) : World :=
  { w with
    heap := w.heap ++ [⟨key, st, false⟩]
    inter := setAt w.inter r key (some w.heap.length) }

def World.takeOff (w : World) (r : Nat) (key : String) : World :=
  { w with
    load := setAt w.load r key (some w.flights.length)
    flights := w.flights ++ [(key, none)] }

def World.land (w : World) (r : Nat) (key : String) (f : Nat) (res : Option Nat) : World :=
  { w with
    load := if w.load r key = some f then setAt w.load r key none else w.load
    flights := w.flights.set f (key, some res) }

def World.joinFlight (w : World) (r : Nat) (key : String) : Flight × World :=
  match w.load r key with
  | some f => (.join f, w)
  | none => (.lead w.flights.length, w.takeOff r key)

def World.awaitFlight (w : World) (f : Nat) : Option (Option Nat × World) :=
  match w.flights[f]? with
  | some (_, some res) => some (res, w)
  | _ => none

def World.lockCell (w : World) (o : Nat) : Option (InteractionState × World) :=
  match w.heap[o]? with
  | some cell =>
    if cell.locked then none
    else some (cell.st, { w with heap := w.heap.set o { cell with locked := true } })
  | none => none

def World.unlockCell (w : World) (o : Nat) (st : InteractionState) : Option (Unit × World) :=
  match w.heap[o]? with
  | some cell => some ((), { w with heap := w.heap.set o { cell with st := st, locked := false } })
  | none => none

inductive Choice where
  | go
  | dedupFirst
  | lost
  | fail
  | time (t : Nat)
  | name (s : String)
  deriving DecidableEq, Repr

inductive Tick where
  | evict (r : Nat) (key : String)
  | restart (r : Nat)
  | forget (id : String)
  deriving DecidableEq, Repr

def answer : Ack → Except AppendError (Bool × Nat)
  | .ok duplicate seq => .ok (duplicate, seq)
  | .conflict => .error .occConflict

/-- `Append`: `go` checks the expectation first, `dedupFirst` the message id, `lost` is an append
whose outcome the caller does not learn, `fail` one that never reached the broker. -/
def performAppend (w : World) (m : Msg String String Fact) (expected : Nat) :
    Choice → Option (Except AppendError (Bool × Nat) × World)
  | .go =>
    let r := w.broker.offer false m expected
    some (answer r.1, { w with broker := r.2 })
  | .dedupFirst =>
    let r := w.broker.offer true m expected
    some (answer r.1, { w with broker := r.2 })
  | .lost =>
    let r := w.broker.offer false m expected
    some (.error .other, { w with broker := r.2 })
  | .fail => some (.error .other, w)
  | _ => none

def duplicateOf (w : World) (subject dedupID : String) (expected : Nat) : Choice → Option Nat
  | .dedupFirst => w.broker.window.lookup dedupID
  | .go => if lastSeq subject w.broker.stream = expected then w.broker.window.lookup dedupID else none
  | _ => none

def perform (w : World) : (op : Op) → Choice → Option (Ans op × World)
  | .append author subject ev dedupID expected, ch =>
    performAppend w ⟨subject, dedupID, ⟨author, ev⟩⟩ expected ch
  | .replay _ subject, .go =>
    some (some ((factsOf w.broker subject).map Fact.event, lastSeq subject w.broker.stream), w)
  | .replay _ _, .fail => some (none, w)
  | .now, .time t => some (t, w)
  | .newID, .name s => some (s, w)
  | .interGet r key, .go => some (w.inter r key, w)
  | .interPut r key st, .go =>
    some (w.heap.length, w.alloc r key st)
  | .interDelete r key, .go => some ((), { w with inter := setAt w.inter r key none })
  | .loadJoin r key, .go => some (w.joinFlight r key)
  | .loadWait f, .go => w.awaitFlight f
  | .loadDone r key f res, .go => some ((), w.land r key f res)
  | .lock _ o, .go => w.lockCell o
  | .unlock o st, .go => w.unlockCell o st
  | _, _ => none

def tick (w : World) : Tick → Option World
  | .evict r key => some { w with inter := setAt w.inter r key none }
  | .restart r =>
    some { w with
      inter := fun r' key => if r' = r then none else w.inter r' key
      load := fun r' key => if r' = r then none else w.load r' key }
  | .forget id => some { w with broker := w.broker.forget id }

def machine : Machine Ans World Choice Tick where
  perform := perform
  tick := tick

end RelayPoint.Signaling
