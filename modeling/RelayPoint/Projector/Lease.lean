import RelayPoint.Concurrency.Trace
import RelayPoint.Projector.Fence
import Mathlib.Logic.Function.Basic

/-!
# Lease — the leader key and the loops of `Run`, on a clock

Any number of projectors compete for one key of a bucket whose entries expire.  The bucket is the
stream of the messages that were put under the key; the revision of an entry is its place in the
stream.  A request to the bucket is carried out at some moment after it was sent, or never; the caller
may give up on it first, and the request is then still under way.
-/

namespace RelayPoint.Projector
namespace Lease

/-! ## The bucket -/

structure Message where
  holder : String
  deleted : Bool
  time : Int
  deriving DecidableEq

structure Bucket where
  messages : List Message
  deriving DecidableEq

inductive Request where
  | create
  | get
  | update (rev : Nat)
  | delete
  deriving DecidableEq

inductive Answer where
  | revision (rev : Nat)
  | entry (holder : String) (rev : Nat)
  | deleted
  | refused
  deriving DecidableEq

namespace Bucket

def message? (b : Bucket) : Nat → Option Message
  | 0 => none
  | i + 1 => b.messages[i]?

/-- The entry under the key and its revision: the last message, unless it has expired. -/
def entry (b : Bucket) (ttl now : Int) : Option (String × Nat) :=
  match b.messages.getLast? with
  | none => none
  | some m =>
    if m.deleted = true ∨ m.time + ttl ≤ now then none
    else some (m.holder, b.messages.length)

def write (b : Bucket) (m : Message) : Answer × Bucket :=
  (.revision (b.messages.length + 1), ⟨b.messages ++ [m]⟩)

def serve (b : Bucket) (ttl now : Int) (holder : String) : Request → Answer × Bucket
  | .create =>
    match b.entry ttl now with
    | none => b.write ⟨holder, false, now⟩
    | some _ => (.refused, b)
  | .get =>
    match b.entry ttl now with
    | none => (.refused, b)
    | some (value, rev) => (.entry value rev, b)
  | .update expected =>
    match b.entry ttl now with
    | none => (.refused, b)
    | some (_, rev) => if rev = expected then b.write ⟨holder, false, now⟩ else (.refused, b)
  | .delete => (.deleted, (b.write ⟨holder, true, now⟩).2)

end Bucket

/-! ## Workers -/

inductive Call where
  | sent
  | answered (answer : Answer)

inductive RenewError where
  | refused
  | unanswered
  deriving DecidableEq

structure Ticker where
  next : Int
  buffered : Bool

inductive Renewal where
  | waiting
  | attempting (attempt : Nat) (start : Int) (call : Call)
  | backingOff (attempt : Nat) (wake : Int)
  | ended

inductive DataLoop where
  | entering
  | blocked (wake : Nat)
  | working (context : Nat)

structure Active where
  rev : Nat
  fence : Fence RenewError
  ticker : Ticker
  renewal : Renewal
  loop : DataLoop

inductive Phase where
  | idle
  -- `Acquire`
  | creating (call : Call)
  | looking (call : Call)
  | sleeping (wake : Int)
  -- `Hydrate`
  | hydrating (rev : Nat)
  | active (a : Active)
  -- `Release`
  | checking (call : Call)
  | deleting (call : Call)
  | stopped

structure Worker where
  done : Bool
  phase : Phase

namespace Active

def new (c : Timing) (now : Int) (rev : Nat) (done : Bool) : Active where
  rev := rev
  fence := .new done
  ticker := ⟨now + c.leaseRenew.toInt, false⟩
  renewal := .waiting
  loop := .entering

/-- `renewWithRetry` after a failed attempt, and `renewLoop` after the last one. -/
def renewFailed (c : Timing) (now : Int) (done : Bool) (attempt : Nat) (err : RenewError)
    (a : Active) : Active :=
  let budget := renewBudget c.leaseTTL c.leaseRenew
  if attempt + 1 < budget.attempts then
    { a with
      fence := a.fence.pause
      renewal := .backingOff (attempt + 1) (now + budget.backoff.toInt) }
  else if done then { a with fence := a.fence.pause, renewal := .ended }
  else { a with fence := a.fence.pause.fail err, renewal := .ended }

def renewed (rev : Nat) (a : Active) : Active :=
  { a with rev := rev, fence := a.fence.resume, renewal := .waiting }

def permits (c : Timing) (now : Int) (a : Active) : Bool :=
  match a.renewal with
  | .waiting => !a.ticker.buffered && now ≤ a.ticker.next
  | .attempting _ start _ => now ≤ start + c.attemptLimit && now ≤ a.ticker.next
  | .backingOff _ wake => now ≤ wake && now ≤ a.ticker.next
  | .ended => true

end Active

namespace Phase

def call : Phase → Option (Request × Call)
  | .creating c => some (.create, c)
  | .looking c => some (.get, c)
  | .active a =>
    match a.renewal with
    | .attempting _ _ c => some (.update a.rev, c)
    | _ => none
  | .checking c => some (.get, c)
  | .deleting c => some (.delete, c)
  | _ => none

def answered (answer : Answer) : Phase → Phase
  | .creating _ => .creating (.answered answer)
  | .looking _ => .looking (.answered answer)
  | .active a =>
    match a.renewal with
    | .attempting attempt start _ =>
      .active { a with renewal := .attempting attempt start (.answered answer) }
    | _ => .active a
  | .checking _ => .checking (.answered answer)
  | .deleting _ => .deleting (.answered answer)
  | p => p

/-- What the caller does when its request returns, with the answer or with another error. -/
def resume (c : Timing) (now : Int) (holder : String) (done : Bool) (answer : Option Answer) :
    Phase → Phase
  | .creating _ =>
    match answer with
    | some (.revision rev) => .hydrating rev
    | _ => .looking .sent
  | .looking _ =>
    match answer with
    | some (.entry value rev) =>
      if value = holder then .hydrating rev else .sleeping (now + second.toInt)
    | _ => .sleeping (now + second.toInt)
  | .active a =>
    match a.renewal with
    | .attempting attempt _ _ =>
      match answer with
      | some (.revision rev) => .active (a.renewed rev)
      | some _ => .active (a.renewFailed c now done attempt .refused)
      | none => .active (a.renewFailed c now done attempt .unanswered)
    | _ => .active a
  | .checking _ =>
    match answer with
    | some (.entry value _) => if value = holder then .deleting .sent else .stopped
    | _ => .stopped
  | .deleting _ => .stopped
  | p => p

def outstanding (p : Phase) : List Request :=
  match p.call with
  | some (request, .sent) => [request]
  | _ => []

def cancelParent : Phase → Phase
  | .active a => .active { a with fence := a.fence.cancelParent }
  | p => p

end Phase

/-! ## What a worker does -/

inductive RenewAction where
  | tick
  | start
  | retry
  | stop

inductive DataAction where
  | begin
  | wake
  | next
  | fail

inductive Action where
  | run
  | answer
  | fault
  | retry
  | hydrated
  | hydrateFailed
  | renew (r : RenewAction)
  | data (d : DataAction)
  | cancel
  | crash

namespace Active

def renew (c : Timing) (now : Int) (done : Bool) (a : Active) : RenewAction → Option Active
  | .tick =>
    match a.renewal with
    | .ended => none
    | _ =>
      if a.ticker.next ≤ now then
        some { a with ticker := ⟨a.ticker.next + c.leaseRenew.toInt, true⟩ }
      else none
  | .start =>
    match a.renewal with
    | .waiting =>
      if a.ticker.buffered then
        some { a with
          ticker := ⟨a.ticker.next, false⟩
          renewal := .attempting 0 now .sent }
      else none
    | _ => none
  | .retry =>
    match a.renewal with
    | .backingOff attempt wake =>
      if wake ≤ now then some { a with renewal := .attempting attempt now .sent } else none
    | _ => none
  | .stop =>
    match a.renewal with
    | .waiting => if done then some { a with renewal := .ended } else none
    | .backingOff _ _ => if done then some { a with renewal := .ended } else none
    | _ => none

/-- The next state of the active worker, or `Release`, with which `Run` returns. -/
def data (a : Active) : DataAction → Option Phase
  | .begin =>
    match a.loop with
    | .entering =>
      match a.fence.begin with
      | (.refused, _) => some (.checking .sent)
      | (.issued context, f) => some (.active { a with fence := f, loop := .working context })
      | (.blocked wake, f) => some (.active { a with fence := f, loop := .blocked wake })
    | _ => none
  | .wake =>
    match a.loop with
    | .blocked wake =>
      if a.fence.channels[wake]? = some true ∨ a.fence.parentDone = true then
        some (.active { a with loop := .entering })
      else none
    | _ => none
  | .next =>
    match a.loop with
    | .working _ => some (.active { a with loop := .entering })
    | _ => none
  | .fail =>
    match a.loop with
    | .working context =>
      if a.fence.contexts[context]? = some false ∧ a.fence.parentDone = false then
        some (.checking .sent)
      else none
    | _ => none

end Active

namespace Phase

def leftover (a : Active) : Phase → List Request
  | .active _ => []
  | _ => (Phase.active a).outstanding

end Phase

def Worker.act (c : Timing) (now : Int) (holder : String) (w : Worker) :
    Action → Option (Worker × List Request)
  | .run =>
    match w.phase with
    | .idle => some ({ w with phase := if w.done then .stopped else .creating .sent }, [])
    | _ => none
  | .answer =>
    match w.phase.call with
    | some (_, .answered answer) =>
      some ({ w with phase := w.phase.resume c now holder w.done (some answer) }, [])
    | _ => none
  | .fault =>
    match w.phase.call with
    | some _ =>
      some ({ w with phase := w.phase.resume c now holder w.done none }, w.phase.outstanding)
    | none => none
  | .retry =>
    match w.phase with
    | .sleeping wake =>
      if w.done then some ({ w with phase := .stopped }, [])
      else if wake ≤ now then some ({ w with phase := .creating .sent }, [])
      else none
    | _ => none
  | .hydrated =>
    match w.phase with
    | .hydrating rev =>
      -- a ticker with no interval panics
      if c.leaseRenew.toInt ≤ 0 then some ({ w with phase := .stopped }, [])
      else some ({ w with phase := .active (.new c now rev w.done) }, [])
    | _ => none
  | .hydrateFailed =>
    match w.phase with
    | .hydrating _ => some ({ w with phase := .checking .sent }, [])
    | _ => none
  | .renew r =>
    match w.phase with
    | .active a => (a.renew c now w.done r).map fun a' => ({ w with phase := .active a' }, [])
    | _ => none
  | .data d =>
    match w.phase with
    | .active a => (a.data d).map fun p => ({ w with phase := p }, p.leftover a)
    | _ => none
  | .cancel => some (⟨true, w.phase.cancelParent⟩, [])
  | .crash => some ({ w with phase := .stopped }, w.phase.outstanding)

/-! ## Runs -/

structure State where
  now : Int
  bucket : Bucket
  strays : List (String × Request)
  worker : String → Worker

inductive Event where
  | pass (d : Nat)
  | land (holder : String)
  | stray (i : Nat)
  | act (holder : String) (action : Action)

def State.initial : State where
  now := 0
  bucket := ⟨[]⟩
  strays := []
  worker := fun _ => ⟨false, .idle⟩

def Worker.permits (c : Timing) (now : Int) (w : Worker) : Bool :=
  match w.phase with
  | .active a => a.permits c now
  | _ => true

def step (c : Timing) (fleet : List String) (s : State) : Event → Option State
  | .pass d =>
    if fleet.all fun holder => (s.worker holder).permits c (s.now + d) then
      some { s with now := s.now + d }
    else none
  | .land holder =>
    match (s.worker holder).phase.call with
    | some (request, .sent) =>
      let served := s.bucket.serve c.leaseTTL.toInt s.now holder request
      let w := s.worker holder
      some { s with
        bucket := served.2
        worker := Function.update s.worker holder
          { w with phase := w.phase.answered served.1 } }
    | _ => none
  | .stray i =>
    match s.strays[i]? with
    | some (holder, request) =>
      some { s with
        bucket := (s.bucket.serve c.leaseTTL.toInt s.now holder request).2
        strays := s.strays.eraseIdx i }
    | none => none
  | .act holder action =>
    if holder ∈ fleet then
      match (s.worker holder).act c s.now holder action with
      | some (w, requests) =>
        some { s with
          strays := s.strays ++ requests.map (holder, ·)
          worker := Function.update s.worker holder w }
      | none => none
    else none

def State.holds (s : State) (holder : String) : Bool :=
  match (s.worker holder).phase with
  | .active a => a.fence.live
  | _ => false

end Lease
end RelayPoint.Projector
