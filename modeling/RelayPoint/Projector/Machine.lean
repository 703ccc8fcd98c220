import RelayPoint.Concurrency.Takeover
import RelayPoint.Projector.State

/-!
# Machine — the log consumer, the feed sink and the snapshot store behind the projector's ports

The world holds what survives a worker: the log, what became of each fact at the consumer, the feeds,
the dead-letter queue and the saved snapshots.  Everything the ports leave open is a `Choice`: a call
may fail without effect, take effect and still return an error, or leave a request on the wire that
takes effect later, possibly when the worker is long gone.

The consumer is serial: one fact is in flight, and the next one is delivered when it is acked.  With a
bound on deliveries the consumer gives a fact up when its last permitted delivery ends without an ack.
`machine none` is the consumer that never gives up.
-/

namespace RelayPoint.Projector

open Concurrency Signaling

/-! ## The world -/

/-- What became of a fact.  An ack records the view that the fan-out used, or that there was none
because the fact went to the dead-letter queue; the consumer itself only sees an ack. -/
inductive Fate where
  | acked (view : Option ParticipationView)
  | dropped
  deriving DecidableEq

/-- A dead-letter record; `source` is the position of the fact it is about, which is not sent. -/
structure DlqRecord where
  source : Nat
  tenant : String
  reason : String
  eventId : String
  seq : Int
  deriving DecidableEq

inductive Request where
  | publish (m : FeedMsg)
  | dlq (r : DlqRecord)
  | save (seq : Nat) (snap : Snapshot)

structure World where
  log : List Fact
  fates : List Fate
  delivered : Nat
  feed : List FeedMsg
  dlq : List DlqRecord
  snaps : List (Nat × Snapshot)
  sent : List Request

namespace World

def start (log : List Fact) : World where
  log := log
  fates := []
  delivered := 0
  feed := []
  dlq := []
  snaps := []
  sent := []

def cursor (w : World) : Nat :=
  w.fates.length

def ackedPrefix (w : World) : Nat :=
  (w.fates.takeWhile fun fate => fate ≠ .dropped).length

def ackFloor (w : World) : Nat :=
  ((w.log.take w.ackedPrefix).getLast?.map Fact.streamSeq).getD 0

def serve (w : World) : Request → World
  | .publish m =>
    if m.dedup ∈ w.feed.map FeedMsg.dedup then w else { w with feed := w.feed ++ [m] }
  | .dlq r => { w with dlq := w.dlq ++ [r] }
  | .save seq snap => { w with snaps := w.snaps ++ [(seq, snap)] }

def send (w : World) (r : Request) : World :=
  { w with sent := w.sent ++ [r] }

def settle (w : World) (k : Nat) (fate : Fate) : World :=
  if k = w.cursor then { w with fates := w.fates ++ [fate], delivered := 0 } else w

def giveBack (max : Option Nat) (w : World) (k : Nat) : World :=
  if max = some w.delivered then w.settle k .dropped else w

end World

/-! ## Operations -/

structure Delivery where
  index : Nat
  fact : Fact
  delivered : Nat

inductive CtxSite where
  | failed
  | done
  | loop
  deriving DecidableEq

inductive Op where
  | ackFloor
  | load (maxSeq : Nat)
  | foldRange (lo hi : Nat)
  | deliver
  | agents (v : ParticipationView)
  | marshal (b : Body)
  | request (r : Request)
  /-- The wait before another publish; it fails if the context of the fan-out ends first. -/
  | backoff
  | ctxErr (site : CtxSite)
  | ack (k : Nat) (view : Option ParticipationView)
  | nak (k : Nat)

def Ans : Op → Type
  | .ackFloor => Except String Nat
  | .load _ => Except String (Option Snapshot × Nat)
  | .foldRange .. => Except String (List Fact)
  | .deliver => Except String Delivery
  | .agents _ => List String
  | .marshal _ | .request _ | .backoff | .ctxErr _ | .ack .. | .nak _ => Option String

inductive Choice where
  | go
  | fail (err : String)
  | lost (err : String)
  | late (err : String)
  | listed (agents : List String)
  | found (i : Option Nat)

inductive Tick where
  | arrive (i : Nat)
  | expire

def performRequest (w : World) (r : Request) : Choice → Option (Option String × World)
  | .go => some (none, w.serve r)
  | .fail err => some (some err, w)
  | .lost err => some (some err, w.serve r)
  | .late err => some (some err, w.send r)
  | .listed _ | .found _ => none

def performAnswer (w w' : World) : Choice → Option (Option String × World)
  | .go => some (none, w')
  | .fail err => some (some err, w)
  | .lost err => some (some err, w')
  | .late _ | .listed _ | .found _ => none

def performCheck (w : World) : Choice → Option (Option String × World)
  | .go => some (none, w)
  | .fail err => some (some err, w)
  | .lost _ | .late _ | .listed _ | .found _ => none

def performDeliver (max : Option Nat) (w : World) :
    Choice → Option (Except String Delivery × World)
  | .go =>
    match w.log[w.cursor]? with
    | none => none
    | some f =>
      if max = some w.delivered then none
      else some (.ok ⟨w.cursor, f, w.delivered + 1⟩, { w with delivered := w.delivered + 1 })
  | .fail err => some (.error err, w)
  | .lost _ | .late _ | .listed _ | .found _ => none

def performLoad (w : World) (maxSeq : Nat) :
    Choice → Option (Except String (Option Snapshot × Nat) × World)
  | .found none => some (.ok (none, 0), w)
  | .found (some i) =>
    match w.snaps[i]? with
    | none => none
    | some (seq, snap) => if seq ≤ maxSeq then some (.ok (some snap, seq), w) else none
  | .fail err => some (.error err, w)
  | .go | .lost _ | .late _ | .listed _ => none

def World.range (w : World) (lo hi : Nat) : List Fact :=
  w.log.filter fun f => lo < f.streamSeq && f.streamSeq ≤ hi && f.event.isSome

def perform (max : Option Nat) (w : World) :
    (op : Op) → Choice → Option (Ans op × World)
  | .ackFloor, ch =>
    match ch with
    | .go => some (.ok w.ackFloor, w)
    | .fail err => some (.error err, w)
    | _ => none
  | .load maxSeq, ch => performLoad w maxSeq ch
  | .foldRange lo hi, ch =>
    match ch with
    | .go => some (.ok (w.range lo hi), w)
    | .fail err => some (.error err, w)
    | _ => none
  | .deliver, ch => performDeliver max w ch
  | .agents v, ch =>
    match ch with
    | .listed l => if l.Nodup ∧ l.toFinset = v.agents then some (l, w) else none
    | _ => none
  | .marshal _, ch => performCheck w ch
  | .backoff, ch => performCheck w ch
  | .ctxErr _, ch => performCheck w ch
  | .request r, ch => performRequest w r ch
  | .ack k view, ch => performAnswer w (w.settle k (.acked view)) ch
  | .nak k, ch => performAnswer w (w.giveBack max k) ch

def tick (max : Option Nat) (w : World) : Tick → Option World
  | .arrive i =>
    match w.sent[i]? with
    | none => none
    | some r => some (w.serve r)
  | .expire => some (w.giveBack max w.cursor)

def machine (max : Option Nat) : Machine Ans World Choice Tick where
  perform := perform max
  tick := tick max

end RelayPoint.Projector
