import Mathlib.Data.Finmap
import RelayPoint.Concurrency.Trace
import RelayPoint.Sdk.Mailbox
import RelayPoint.Sdk.Types

/-!
# Delivery — the ordered log of an interaction, in the SDK

`Delivery` puts the facts of a log in the order of their sequence: live facts that arrive early wait
in `pending`, and a gap starts `recover`, a loop of replay passes.  The loop is asynchronous: between
two of its steps live facts, `prime`, `close` and the consumer's calls go on.

An `Event` is one turn of the event loop: a call from outside, or a suspended `recover` loop going on
from the `await` it stands at.  The listeners are called inside a turn; a `Listener` says what they
do with the delivery before they return (`Reaction`): close it, prime it, read from its events.
-/

namespace RelayPoint.Sdk
namespace Delivery

def defaultBackoff : List Nat :=
  [100, 250, 500, 1000, 2000]

/-- What a suspended `recover` loop waits for: the next item of a pass, the end of a pass it breaks
off, or the end of a backoff. -/
inductive Await where
  | item (fromSequence : Int)
  | leaving (fromSequence : Int)
  | backoff
deriving DecidableEq

structure Recovery where
  attempt : Nat
  needPass : Bool
  awaits : Await
deriving DecidableEq

/-- What a listener does before it returns.  `prime` carries the reaction to the state it announces. -/
inductive Reaction where
  | quiet
  | close (k : Reaction)
  | prime (onReplaying k : Reaction)
  | consume (call : ConsumerCall) (k : Reaction)

structure Listener where
  onState : DeliveryState → Reaction
  onApplied : LogEvent → Reaction

def Listener.quiet : Listener :=
  ⟨fun _ => .quiet, fun _ => .quiet⟩

variable {ε : Type}

structure State (ε : Type) where
  out : Mailbox LogEvent (DeliveryFailedError ε) := {}
  pending : Finmap (fun _ : Int => LogEvent) := ∅
  applied : Int := 0
  state : DeliveryState := .live
  recovering : Bool := false
  closed : Bool := false
  loops : List Recovery := []
  tapped : List LogEvent := []

namespace State

def size (s : State ε) : Nat :=
  s.pending.keys.card

def idle (s : State ε) : Bool :=
  !s.recovering && !s.closed && s.state != .failed

def suspend (s : State ε) (r : Recovery) : State ε :=
  { s with loops := s.loops ++ [r] }

def put (s : State ε) (ev : LogEvent) : State ε :=
  { s with pending := s.pending.insert ev.sequence ev }

def apply (s : State ε) (next : LogEvent) : State ε :=
  { s with
    pending := s.pending.erase next.sequence
    applied := next.sequence
    tapped := s.tapped ++ [next] }

def close (s : State ε) : State ε :=
  if s.closed then s else { s with closed := true, out := s.out.close }

def consume (s : State ε) (c : ConsumerCall) : State ε :=
  { s with out := (s.out.call c).getD s.out }

def announce (s : State ε) (st : DeliveryState) (k : State ε → State ε) : State ε :=
  if s.state = st then s else k { s with state := st }

/-- The first test of the loop of `recover`.  A pass is owed or facts are pending when `recover` is
called, so the loop is entered unless the listeners have closed the delivery meanwhile. -/
def enterLoop (s : State ε) (initial : Bool) : State ε :=
  if s.closed then { s with recovering := false }
  else s.suspend ⟨0, initial, .item (s.applied + 1)⟩

def begin (s : State ε) (initial : Bool) (k : State ε → State ε) : State ε :=
  ({ s with recovering := true }.announce .replaying k).enterLoop initial

end State

open State

def react : Reaction → State ε → State ε
  | .quiet, s => s
  | .close k, s => react k s.close
  | .prime r k, s => react k (if s.idle then s.begin true (react r) else s)
  | .consume c k, s => react k (s.consume c)

section Code

variable (backoff : List Nat) (l : Listener)

def setState (st : DeliveryState) (s : State ε) : State ε :=
  s.announce st (react (l.onState st))

def recover (initial : Bool) (s : State ε) : State ε :=
  s.begin initial (react (l.onState .replaying))

def drain : Nat → State ε → State ε
  | 0, s => s
  | n + 1, s =>
    match s.pending.lookup (s.applied + 1) with
    | none => s
    | some next =>
      let s := react (l.onApplied next) (s.apply next)
      drain n { s with out := s.out.push next }

/-- Each round takes a fact out of `pending`, so there are no more rounds than facts. -/
def drainContiguous (s : State ε) : State ε :=
  drain l s.size s

def offer (ev : LogEvent) (s : State ε) : State ε :=
  if s.closed || s.state == .failed then s
  else if ev.sequence ≤ s.applied then s
  else
    let s := drainContiguous l (s.put ev)
    if 0 < s.size ∧ s.recovering = false then recover l false s else s

def prime (s : State ε) : State ε :=
  if s.idle then recover l true s else s

def afterLoop (s : State ε) : State ε :=
  let s := { s with recovering := false }
  if s.closed || s.state == .failed then s
  else
    let s := drainContiguous l s
    if 0 < s.size then recover l false s else setState l .live s

def nextPass (attempt : Nat) (needPass : Bool) (s : State ε) : State ε :=
  if (needPass || 0 < s.size) && !s.closed then s.suspend ⟨attempt, needPass, .item (s.applied + 1)⟩
  else afterLoop l s

def fail (err : DeliveryFailedError ε) (s : State ε) : State ε :=
  let s := setState l .failed { s with recovering := false }
  { s with out := s.out.error err }

def passEnd (attempt : Nat) (s : State ε) : State ε :=
  if s.size = 0 then afterLoop l s
  else if backoff.length ≤ attempt + 1 then fail l ⟨s.applied + 1, none⟩ s
  else (setState l .degraded s).suspend ⟨attempt, false, .backoff⟩

def passThrow (attempt : Nat) (needPass : Bool) (fromSequence : Int) (err : ε) (s : State ε) : State ε :=
  let s := setState l .degraded s
  if backoff.length ≤ attempt + 1 then fail l ⟨fromSequence, some err⟩ s
  else s.suspend ⟨attempt, needPass, .backoff⟩

def passItem (attempt : Nat) (needPass : Bool) (fromSequence : Int) (ev : LogEvent) (s : State ε) :
    State ε :=
  if s.closed then s.suspend ⟨attempt, needPass, .leaving fromSequence⟩
  else
    let s := if ev.sequence ≤ s.applied then s else drainContiguous l (s.put ev)
    s.suspend ⟨attempt, needPass, .item fromSequence⟩

end Code

/-! ## Turns of the event loop -/

inductive Event (ε : Type) where
  | offer (l : Listener) (ev : LogEvent)
  | prime (l : Listener)
  | close
  | item (l : Listener) (i : Nat) (ev : LogEvent)
  | ended (l : Listener) (i : Nat)
  | thrown (l : Listener) (i : Nat) (err : ε)
  | waited (l : Listener) (i : Nat)
  | consume (c : ConsumerCall)
  | resume (g : Nat)

def State.wake (s : State ε) (i : Nat) : Option (Recovery × State ε) :=
  s.loops[i]?.map fun r => (r, { s with loops := s.loops.eraseIdx i })

def onItem (l : Listener) (ev : LogEvent) : Recovery × State ε → Option (State ε)
  | (⟨attempt, needPass, .item fromSequence⟩, s) => some (passItem l attempt needPass fromSequence ev s)
  | (⟨_, _, .leaving _⟩, _) | (⟨_, _, .backoff⟩, _) => none

def onEnd (backoff : List Nat) (l : Listener) : Recovery × State ε → Option (State ε)
  | (⟨attempt, _, .item _⟩, s) | (⟨attempt, _, .leaving _⟩, s) => some (passEnd backoff l attempt s)
  | (⟨_, _, .backoff⟩, _) => none

def onThrow (backoff : List Nat) (l : Listener) (err : ε) : Recovery × State ε → Option (State ε)
  | (⟨attempt, needPass, .item fromSequence⟩, s) | (⟨attempt, needPass, .leaving fromSequence⟩, s) =>
    some (passThrow backoff l attempt needPass fromSequence err s)
  | (⟨_, _, .backoff⟩, _) => none

def onWaited (l : Listener) : Recovery × State ε → Option (State ε)
  | (⟨attempt, needPass, .backoff⟩, s) => some (nextPass l (attempt + 1) needPass s)
  | (⟨_, _, .item _⟩, _) | (⟨_, _, .leaving _⟩, _) => none

def step (backoff : List Nat) (s : State ε) : Event ε → Option (State ε)
  | .offer l ev => some (offer l ev s)
  | .prime l => some (prime l s)
  | .close => some s.close
  | .item l i ev => (s.wake i).bind (onItem l ev)
  | .ended l i => (s.wake i).bind (onEnd backoff l)
  | .thrown l i err => (s.wake i).bind (onThrow backoff l err)
  | .waited l i => (s.wake i).bind (onWaited l)
  | .consume c => (s.out.call c).map fun out => { s with out }
  | .resume g => (s.out.resume g).map fun out => { s with out }

end Delivery
end RelayPoint.Sdk
