import RelayPoint.Signaling.Provenance

/-!
# Outline — one proof outline for `HandleCommand`

Every safety result about a fleet of routers has the same shape: assertions at the program points of
the two append loops, each kept by the steps of the others, and one obligation for each branch.  An
`Outline` is such a set of assertions with its obligations; `Outline.sound` executes the programs of
`Router` symbolically once and derives that the invariant holds in every run and that every reply
satisfies its assertion.
-/

namespace RelayPoint.Signaling

open Concurrency Journal

def built (b : LogStore) (subject : String) (max : Nat) : InteractionState :=
  InteractionState.rebuildFrom ((factsOf b subject).map Fact.event) (lastSeq subject b.stream) max

def retryReasons : List String :=
  [unavailableReason, poisonedReason, "lost concurrent append — retry", "log append failed — retry"]

/-! ## Assertions and obligations -/

/-- Assertions for the program points of `HandleCommand`.  The first store of `ok`, `Ready`,
`Replied`, `Cleared`, `FactReady` and `Settled` is the one in which the call started. -/
structure Assertions where
  okOrdinary : Ordinary → Prop
  okPrivileged : Privileged → Prop
  ok : LogStore → World → Op → Choice → Prop
  mayForget : Prop
  Inv : LogStore → Prop
  Obj : LogStore → String → InteractionState → Prop
  Ready : LogStore → LogStore → Ordinary → InteractionState → Prop
  Replied : LogStore → LogStore → Ordinary → CommandResult → Prop
  Cleared : LogStore → LogStore → Privileged → List PlannedFact → Prop
  FactReady : LogStore → LogStore → Privileged → List PlannedFact → PlannedFact →
    InteractionState → Prop
  Settled : LogStore → LogStore → Privileged → CommandResult → Prop

structure Assertions.Monotone (A : Assertions) : Prop where
  obj : ∀ {b b' key st}, Extends b b' → A.Obj b key st → A.Obj b' key st
  ready : ∀ {b₀ b b' c st}, Extends b b' → A.Ready b₀ b c st → A.Ready b₀ b' c st
  replied : ∀ {b₀ b b' c res}, Extends b b' → A.Replied b₀ b c res → A.Replied b₀ b' c res
  cleared : ∀ {b₀ b b' p landed}, Extends b b' → A.Cleared b₀ b p landed → A.Cleared b₀ b' p landed
  factReady : ∀ {b₀ b b' p landed f st}, Extends b b' →
    A.FactReady b₀ b p landed f st → A.FactReady b₀ b' p landed f st
  settled : ∀ {b₀ b b' p res}, Extends b b' → A.Settled b₀ b p res → A.Settled b₀ b' p res

def Holds (w : World) (o : Nat) (key : String) (st : InteractionState) : Prop :=
  ∃ cell, w.heap[o]? = some cell ∧ cell.key = key ∧ cell.st = st

structure Outline extends Assertions where
  mono : toAssertions.Monotone
  inv_empty : Inv Broker.empty
  inv_forget : ∀ {b} id, mayForget → Inv b → Inv (b.forget id)
  obj_built : ∀ {b t i max}, DotFree t → DotFree i → Sound b → Inv b →
    Obj b (stateKey t i) (built b (logSubjectFor t i) max)
  obj_poison : ∀ {b key st}, Obj b key st → Obj b key st.poison
  -- ordinary commands
  ready : ∀ {w b₀ c o st}, okOrdinary c → Extends b₀ w.broker → Sound w.broker → Inv w.broker →
    Holds w o c.key st → st.poisoned = false → Obj w.broker c.key st →
    ok b₀ w (.lock (.command c) o) .go → Ready b₀ w.broker c st
  obj_of_ready : ∀ {b₀ b c st}, Ready b₀ b c st → Obj b c.key st
  precheck : ∀ {b₀ b c st max out}, Sound b → Inv b → Ready b₀ b c st →
    c.precheck max st = some out → Replied b₀ b c out.1 ∧ Obj b c.key out.2
  commit : ∀ {b₀ b c st max} eventId at_, Sound b → Inv b → Ready b₀ b c st →
    c.precheck max st = none → b.window.lookup c.dedupID = none →
    lastSeq c.subject b.stream = st.streamSeq →
    Inv (b.commit (c.message st eventId at_)) ∧
      Obj (b.commit (c.message st eventId at_)) c.key (c.onCommit max st (b.stream.length + 1)) ∧
      Replied b₀ (b.commit (c.message st eventId at_)) c (accepted c.cmd.commandId)
  refold : ∀ {w b₀ c st max}, Sound w.broker → Inv w.broker → Ready b₀ w.broker c st →
    c.precheck max st = none → ok b₀ w (.replay (.refold max st c) c.subject) .go →
    Ready b₀ w.broker c (st.refold (built w.broker c.subject max) max)
  retried : ∀ {b₀ b c reason}, reason ∈ retryReasons →
    Replied b₀ b c (rejected c.cmd.commandId reason)
  lostAck : ∀ {w b₀ c st max prev}, Sound w.broker → Inv w.broker → Ready b₀ w.broker c st →
    ok b₀ w (.replay (.lostAck max st c) c.subject) .go →
    (built w.broker c.subject max).results.lookup c.cmd.commandId = some prev →
    Replied b₀ w.broker c prev.result ∧
      Obj w.broker c.key (st.onLostAck (built w.broker c.subject max))
  duplicate : ∀ {w b₀ c st max}, Sound w.broker → Inv w.broker → Ready b₀ w.broker c st →
    c.precheck max st = none → (∃ m ∈ w.broker.stream, m.id = c.dedupID) →
    ok b₀ w (.replay (.duplicate max st c) c.subject) .go →
    Replied b₀ w.broker c (c.onDuplicate max st (built w.broker c.subject max)).1 ∧
      Obj w.broker c.key (c.onDuplicate max st (built w.broker c.subject max)).2
  unreadable : ∀ {w b₀ c st max}, Sound w.broker → Inv w.broker → Ready b₀ w.broker c st →
    (∃ m ∈ w.broker.stream, m.id = c.dedupID) →
    ok b₀ w (.replay (.duplicate max st c) c.subject) .fail →
    Replied b₀ w.broker c (accepted c.cmd.commandId)
  -- privileged commands
  refused : ∀ {b₀ b p res}, res.status = .rejected → Settled b₀ b p res
  cleared : ∀ {w b₀ p o st}, okPrivileged p → Extends b₀ w.broker → Sound w.broker →
    Inv w.broker → Holds w o p.key st → Obj w.broker p.key st →
    ok b₀ w (.lock (.parents p) o) .go → p.diverges st = false → Cleared b₀ w.broker p []
  factReady : ∀ {w b₀ p o st landed f rest}, Cleared b₀ w.broker p landed →
    p.facts = landed ++ f :: rest → Sound w.broker → Inv w.broker → Holds w o p.key st →
    Obj w.broker p.key st → ok b₀ w (.lock (.fact p f) o) .go → FactReady b₀ w.broker p landed f st
  obj_of_factReady : ∀ {b₀ b p landed f st}, FactReady b₀ b p landed f st → Obj b p.key st
  replayed : ∀ {b₀ b p landed f st res}, Sound b → Inv b → FactReady b₀ b p landed f st →
    p.checkFact f st = some res → res.status = .accepted → Cleared b₀ b p (landed ++ [f])
  commitFact : ∀ {w b₀ p landed f st max} eventId at_ ch, ch ≠ .fail → Sound w.broker →
    Inv w.broker →
    FactReady b₀ w.broker p landed f st → p.checkFact f st = none →
    w.broker.window.lookup (p.dedupID f) = none → lastSeq p.subject w.broker.stream = st.streamSeq →
    ok b₀ w (.append ⟨p.ctx, p.payload⟩ p.subject (p.factEvent f st eventId at_) (p.dedupID f)
      st.streamSeq) ch →
    Inv (w.broker.commit (p.message f st eventId at_)) ∧
      Obj (w.broker.commit (p.message f st eventId at_)) p.key
        (p.onAck max f st (p.factEvent f st eventId at_) (w.broker.stream.length + 1)) ∧
      Cleared b₀ (w.broker.commit (p.message f st eventId at_)) p (landed ++ [f])
  duplicateFact : ∀ {w b₀ p landed f st max n} eventId at_ ch, Sound w.broker → Inv w.broker →
    FactReady b₀ w.broker p landed f st → p.checkFact f st = none →
    duplicateOf w p.subject (p.dedupID f) st.streamSeq ch = some n →
    ok b₀ w (.append ⟨p.ctx, p.payload⟩ p.subject (p.factEvent f st eventId at_) (p.dedupID f)
      st.streamSeq) ch →
    Obj w.broker p.key (p.onAck max f st (p.factEvent f st eventId at_) n) ∧
      Cleared b₀ w.broker p (landed ++ [f])
  refoldFact : ∀ {w b₀ p landed f st max}, Sound w.broker → Inv w.broker →
    FactReady b₀ w.broker p landed f st →
    ok b₀ w (.replay (.refoldFact max st p f) p.subject) .go →
    FactReady b₀ w.broker p landed f (st.refold (built w.broker p.subject max) max)
  bound : ∀ {b₀ b p st}, Sound b → Inv b → Cleared b₀ b p p.facts → Obj b p.key st →
    Obj b p.key (p.bindSubs st)
  settled : ∀ {b₀ b p}, Sound b → Inv b → Cleared b₀ b p p.facts →
    Settled b₀ b p (accepted p.cmd.commandId)

end RelayPoint.Signaling
