import RelayPoint.Projector.Machine

/-!
# Worker — `Projector.Run` as a program over the ports

The worker hydrates its state from a snapshot and the log up to the ack floor, and then processes one
delivery after the other.  A fact is applied to the worker's state before the recipients are chosen;
it is acked when every recipient's publish, and the tombstone of a leave, have succeeded.

The recipients of a fact are published to concurrently.  Here they are visited one after the other,
each visit with its own outcome: an error elsewhere that cancels a publish is a publish that fails.
-/

namespace RelayPoint.Projector

open Concurrency Signaling

/-! ## Configuration -/

/-- The bounds that steer the worker; durations, addresses and the fan-out concurrency are left
out. -/
structure Config where
  maxDeliver : Int
  snapshotEvery : Int
  publishRetry : Int

def Config.withDefaults (c : Config) : Config where
  maxDeliver := if c.maxDeliver ≤ 0 then 5 else c.maxDeliver
  snapshotEvery := if c.snapshotEvery ≤ 0 then 50 else c.snapshotEvery
  publishRetry := if c.publishRetry ≤ 0 then 4 else c.publishRetry

theorem Config.publishRetry_pos (c : Config) : 0 < c.withDefaults.publishRetry := by
  simp only [withDefaults]
  split
  · decide
  · omega

/-! ## The ports -/

abbrev Program (α : Type) := Prog Ans α

def ackFloor : Program (Except String Nat) := Prog.perform Op.ackFloor
def load (maxSeq : Nat) : Program (Except String (Option Snapshot × Nat)) :=
  Prog.perform (Op.load maxSeq)
def foldRange (lo hi : Nat) : Program (Except String (List Fact)) :=
  Prog.perform (Op.foldRange lo hi)
def deliver : Program (Except String Delivery) := Prog.perform Op.deliver
def agents (v : ParticipationView) : Program (List String) := Prog.perform (Op.agents v)
def marshal (b : Body) : Program (Option String) := Prog.perform (Op.marshal b)
def request (r : Request) : Program (Option String) := Prog.perform (Op.request r)
def backoff : Program (Option String) := Prog.perform Op.backoff
def ctxErr (site : CtxSite) : Program (Option String) := Prog.perform (Op.ctxErr site)
def ack (d : Delivery) (view : Option ParticipationView) : Program (Option String) :=
  Prog.perform (Op.ack d.index view)
def nak (d : Delivery) : Program (Option String) := Prog.perform (Op.nak d.index)

/-! ## Publishing -/

/-- The attempts after a failed one: wait, unless the context ends first, and publish again. -/
def retryPublish (m : FeedMsg) (err : String) : Nat → Program (Option String)
  | 0 => return some err
  | n + 1 => do
    match ← backoff with
    | some cerr => return some cerr
    | none =>
      match ← request (.publish m) with
      | none => return none
      | some err => retryPublish m err n

def publishWithRetry (m : FeedMsg) : Nat → Program (Option String)
  | 0 => return none
  | n + 1 => do
    match ← request (.publish m) with
    | none => return none
    | some err => retryPublish m err n

def fanout (e : Event) (iid : String) (attempts : Nat) : List String → Program (Option String)
  | [] => return none
  | agent :: rest => do
    let err ← publishWithRetry (eventMsg e iid agent) attempts
    let err' ← fanout e iid attempts rest
    return err.or err'

def tombstone (e : Event) (iid : String) (attempts : Nat) : Program (Option String) := do
  match ← marshal (tombstoneMsg e iid).payload with
  | some err => return some err
  | none => publishWithRetry (tombstoneMsg e iid) attempts

def coveredBy (v : ParticipationView) (s : Int) : Program (List String) := do
  let out ← agents v
  return out.filter fun a => covered (v.intervalsOf a) s

/-- The fan-out and, for a leave, the tombstone; the reason of the failure if there is one. -/
def publishAll (cfg : Config) (e : Event) (iid : String) (recipients : List String) :
    Program (Option String) := do
  match ← fanout e iid cfg.publishRetry.toNat recipients with
  | some perr => return some ("feed publish failed: " ++ perr)
  | none =>
    if e.eventType = "participant.left" then
      match ← tombstone e iid cfg.publishRetry.toNat with
      | some terr => return some ("revoked tombstone failed: " ++ terr)
      | none => return none
    else return none

/-! ## Processing a delivery -/

/-- The fields of the worker that `process` reads and writes; `lastAckSeq` is never read. -/
structure Memory where
  st : State
  sinceSnap : Nat

def Delivery.record (d : Delivery) (reason : String) : DlqRecord where
  source := d.index
  tenant := (d.fact.event.map Event.tenantId).getD ""
  reason := reason
  eventId := (d.fact.event.map Event.eventId).getD ""
  seq := (d.fact.event.map Event.sequence).getD 0

def dlqOrNak (cfg : Config) (d : Delivery) (reason : String) : Program (Option String) := do
  if (d.delivered : Int) < cfg.maxDeliver then nak d
  else
    match ← request (.dlq (d.record reason)) with
    -- the dead-letter queue is unavailable: keep the source un-acked
    | some _ => nak d
    | none =>
      match ← ack d none with
      | some err => return some ("ack dlq: " ++ err)
      | none => return none

/-- After a failed publish: a worker whose context has ended only gives the fact back. -/
def abandon (cfg : Config) (d : Delivery) (reason : String) : Program (Option String) := do
  match ← ctxErr .failed with
  | some _ => nak d
  | none => dlqOrNak cfg d reason

def maybeSnapshot (cfg : Config) (p : Memory) (seq : Nat) : Program Memory := do
  if (p.sinceSnap : Int) + 1 < cfg.snapshotEvery then
    return { p with sinceSnap := p.sinceSnap + 1 }
  else
    match ← request (.save seq p.st.snapshot) with
    | some _ => return { p with sinceSnap := p.sinceSnap + 1 }
    | none => return { p with sinceSnap := 0 }

def finish (cfg : Config) (p : Memory) (d : Delivery) (view : ParticipationView) :
    Program (Option String × Memory) := do
  match ← ctxErr .done with
  | some _ => return (← nak d, p)
  | none =>
    match ← ack d (some view) with
    | some err => return (some ("ack: " ++ err), p)
    | none => return (none, ← maybeSnapshot cfg p d.fact.streamSeq)

def project (cfg : Config) (p : Memory) (d : Delivery) (e : Event) :
    Program (Option String × Memory) := do
  let view := p.st.view (viewKey e d.fact.iid)
  let recipients ← coveredBy view e.sequence
  match ← marshal (.event e) with
  | some _ => return (← dlqOrNak cfg d "marshal event", p)
  | none =>
    match ← publishAll cfg e d.fact.iid recipients with
    | some reason => return (← abandon cfg d reason, p)
    | none => finish cfg p d view

def process (cfg : Config) (p : Memory) (d : Delivery) : Program (Option String × Memory) := do
  match d.fact.event with
  | none => return (← dlqOrNak cfg d "malformed envelope", p)
  | some e =>
    if e.tenantId = "" ∨ e.eventType = "" then
      return (← dlqOrNak cfg d "malformed envelope", p)
    else if d.fact.iid = "" then
      return (← dlqOrNak cfg d "unresolved interaction id", p)
    else
      project cfg { p with st := p.st.applyEvent e d.fact.iid } d e

/-! ## The worker -/

def hydrate : Program (Option State) := do
  match ← ackFloor with
  | .error _ => return none
  | .ok floor =>
    match ← load floor with
    | .error _ => return none
    | .ok (snap, snapSeq) =>
      let st := State.new.restore snap
      if snapSeq < floor then
        match ← foldRange snapSeq floor with
        | .error _ => return none
        | .ok tail => return some (tail.foldl State.applyFact st)
      else return some st

/-- The loop of `Run`, for a worker that lives through `turns` rounds.  An error ends the worker
unless its context has ended, in which case the fence decides whether it goes on. -/
def serveLoop (cfg : Config) : Nat → Memory → Program Unit
  | 0, _ => return ()
  | turns + 1, p => do
    match ← deliver with
    | .error _ =>
      match ← ctxErr .loop with
      | some _ => serveLoop cfg turns p
      | none => return ()
    | .ok d =>
      let (err, p) ← process cfg p d
      match err with
      | none => serveLoop cfg turns p
      | some _ =>
        match ← ctxErr .loop with
        | some _ => serveLoop cfg turns p
        | none => return ()

structure Worker where
  cfg : Config
  turns : Nat

def run (worker : Worker) : Program Unit := do
  match ← hydrate with
  | none => return ()
  | some st => serveLoop worker.cfg.withDefaults worker.turns ⟨st, 0⟩

end RelayPoint.Projector
