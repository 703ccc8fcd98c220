import Mathlib.Data.Finmap
import RelayPoint.Signaling.Envelope

/-!
# Participation — membership folded from an interaction's facts

`ParticipationView` is the one membership source of the write plane (the router's gate) and the read
plane (the projector's fan-out).  It keeps, for each agent, the list of membership intervals; a
`participant.joined` fact opens one unless the last one is open, a `participant.left` fact closes
the open one.
-/

namespace RelayPoint.Signaling

structure Interval where
  joinSeq : Int
  leftSeq : Int
  leftOpen : Bool
  deriving DecidableEq, Repr

structure ParticipationView where
  intervals : Finmap fun _ : String => List Interval
  deriving DecidableEq

namespace ParticipationView

def new : ParticipationView :=
  ⟨∅⟩

def intervalsOf (v : ParticipationView) (agent : String) : List Interval :=
  (v.intervals.lookup agent).getD []

def agents (v : ParticipationView) : Finset String :=
  v.intervals.keys

def setIntervals (v : ParticipationView) (agent : String) (ins : List Interval) :
    ParticipationView :=
  if ins.isEmpty then v else ⟨v.intervals.insert agent ins⟩

def lastOpen (cur : List Interval) : Bool :=
  match cur.getLast? with
  | some i => i.leftOpen
  | none => false

def closeFirst (seq : Int) : List Interval → List Interval
  | [] => []
  | i :: is =>
    if i.leftOpen then { i with leftSeq := seq, leftOpen := false } :: is
    else i :: closeFirst seq is

def openAt (v : ParticipationView) (agent : String) (seq : Int) : ParticipationView :=
  if lastOpen (v.intervalsOf agent) then v
  else ⟨v.intervals.insert agent
    (v.intervalsOf agent ++ [{ joinSeq := seq, leftSeq := 0, leftOpen := true }])⟩

def closeAt (v : ParticipationView) (agent : String) (seq : Int) : ParticipationView :=
  match v.intervals.lookup agent with
  | none => v
  | some cur => ⟨v.intervals.insert agent (closeFirst seq cur.reverse).reverse⟩

def applyFact (v : ParticipationView) (e : Event) : ParticipationView :=
  if e.eventType = "participant.joined" then v.openAt e.actorId e.sequence
  else if e.eventType = "participant.left" then v.closeAt e.actorId e.sequence
  else v

def isParticipantNow (v : ParticipationView) (agent : String) : Bool :=
  lastOpen (v.intervalsOf agent)

def fold (facts : List Event) : ParticipationView :=
  facts.foldl applyFact new

@[simp] theorem fold_nil : fold [] = new :=
  rfl

theorem fold_concat (facts : List Event) (e : Event) :
    fold (facts ++ [e]) = (fold facts).applyFact e := by
  simp [fold]

/-! ## One agent's intervals -/

def opened (seq : Int) (cur : List Interval) : List Interval :=
  if lastOpen cur then cur else cur ++ [{ joinSeq := seq, leftSeq := 0, leftOpen := true }]

def closed (seq : Int) (cur : List Interval) : List Interval :=
  (closeFirst seq cur.reverse).reverse

@[simp] theorem closed_nil (seq : Int) : closed seq [] = [] :=
  rfl

theorem intervalsOf_openAt (v : ParticipationView) (agent a : String) (seq : Int) :
    (v.openAt agent seq).intervalsOf a =
      if a = agent then opened seq (v.intervalsOf agent) else v.intervalsOf a := by
  by_cases hopen : lastOpen (v.intervalsOf agent) = true
  · by_cases ha : a = agent
    · simp [openAt, opened, hopen, ha]
    · simp [openAt, hopen, ha]
  · by_cases ha : a = agent
    · subst ha
      rw [openAt, if_neg hopen, opened, if_neg hopen]
      simp [intervalsOf]
    · rw [openAt, if_neg hopen]
      simp [intervalsOf, ha]

theorem intervalsOf_closeAt (v : ParticipationView) (agent a : String) (seq : Int) :
    (v.closeAt agent seq).intervalsOf a =
      if a = agent then closed seq (v.intervalsOf agent) else v.intervalsOf a := by
  cases hl : v.intervals.lookup agent with
  | none =>
    by_cases ha : a = agent
    · subst ha
      simp [closeAt, intervalsOf, hl]
    · simp [closeAt, hl, ha]
  | some cur =>
    by_cases ha : a = agent
    · subst ha
      simp [closeAt, intervalsOf, hl, closed]
    · simp [closeAt, intervalsOf, hl, ha]

def stepIntervals (e : Event) (a : String) (cur : List Interval) : List Interval :=
  if e.eventType = "participant.joined" then if a = e.actorId then opened e.sequence cur else cur
  else if e.eventType = "participant.left" then if a = e.actorId then closed e.sequence cur else cur
  else cur

theorem intervalsOf_applyFact (v : ParticipationView) (e : Event) (a : String) :
    (v.applyFact e).intervalsOf a = stepIntervals e a (v.intervalsOf a) := by
  by_cases hj : e.eventType = "participant.joined"
  · by_cases ha : a = e.actorId
    all_goals simp [applyFact, stepIntervals, hj, ha, intervalsOf_openAt]
  · by_cases hl : e.eventType = "participant.left"
    · by_cases ha : a = e.actorId
      all_goals simp [applyFact, stepIntervals, hl, ha, intervalsOf_closeAt]
    · simp [applyFact, stepIntervals, hj, hl]

/-! ## The answer of the write plane -/

theorem lastOpen_opened (seq : Int) (cur : List Interval) : lastOpen (opened seq cur) = true := by
  by_cases hopen : lastOpen cur = true
  · simp [opened, hopen]
  · simp [opened, hopen]
    simp [lastOpen]

theorem lastOpen_closed (seq : Int) (cur : List Interval) : lastOpen (closed seq cur) = false := by
  cases hrev : cur.reverse with
  | nil => simp [closed, hrev, closeFirst, lastOpen]
  | cons i is =>
    cases hopen : i.leftOpen with
    | true | false => simp [closed, hrev, closeFirst, hopen, lastOpen]

/-- What a fact does to the set of current participants, whatever the intervals were. -/
def nowAfter (e : Event) (a : String) (before : Bool) : Bool :=
  if e.eventType = "participant.joined" then if a = e.actorId then true else before
  else if e.eventType = "participant.left" then if a = e.actorId then false else before
  else before

theorem isParticipantNow_applyFact (v : ParticipationView) (e : Event) (a : String) :
    (v.applyFact e).isParticipantNow a = nowAfter e a (v.isParticipantNow a) := by
  simp only [isParticipantNow, intervalsOf_applyFact, stepIntervals, nowAfter]
  split
  · split
    · exact lastOpen_opened _ _
    · rfl
  · split
    · split
      · exact lastOpen_closed _ _
      · rfl
    · rfl

theorem nowAfter_of_not_participation {e : Event} (h : isParticipationFact e.eventType = false)
    (a : String) (before : Bool) : nowAfter e a before = before := by
  have hj : e.eventType ≠ "participant.joined" := by
    intro hj
    simp [isParticipationFact, hj] at h
  have hl : e.eventType ≠ "participant.left" := by
    intro hl
    simp [isParticipationFact, hl] at h
  simp [nowAfter, hj, hl]

theorem applyFact_of_not_participation {e : Event} (h : isParticipationFact e.eventType = false)
    (v : ParticipationView) : v.applyFact e = v := by
  have hj : e.eventType ≠ "participant.joined" := by
    intro hj
    simp [isParticipationFact, hj] at h
  have hl : e.eventType ≠ "participant.left" := by
    intro hl
    simp [isParticipationFact, hl] at h
  simp [applyFact, hj, hl]

end ParticipationView

end RelayPoint.Signaling
