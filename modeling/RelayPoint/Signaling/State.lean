import RelayPoint.Data.FifoCache
import RelayPoint.Signaling.Participation

/-!
# State — what a router caches about one interaction

An `InteractionState` is a cache of the interaction's log: the last dense sequence, the token for
the next compare-and-append, the lifecycle status, the folded membership, the dedup entries and the
bindings of privileged commands.  `rebuildFrom` computes it from a replayed log; the branches of the
append loops refresh different subsets of its fields.
-/

namespace RelayPoint.Signaling

inductive Lifecycle where
  | none
  | started
  | ended
  deriving DecidableEq, Repr

def Lifecycle.text : Lifecycle → String
  | .none => ""
  | .started => "started"
  | .ended => "ended"

structure StoredResult where
  payloadHash : String
  result : CommandResult
  deriving DecidableEq, Repr

structure InteractionState where
  seq : Int
  streamSeq : Nat
  status : Lifecycle
  results : FifoCache String StoredResult
  part : ParticipationView
  parents : Finmap fun _ : String => Finset String
  poisoned : Bool

structure Core where
  seq : Int
  status : Lifecycle
  part : ParticipationView

def InteractionState.core (st : InteractionState) : Core :=
  ⟨st.seq, st.status, st.part⟩

/-! ## Lifecycle -/

def legalTransition (status : Lifecycle) (cmdType : String) : Bool :=
  if cmdType = "interaction.started" then status = .none
  else if cmdType = "interaction.ended" then status = .started
  else status = .started

def transition (status : Lifecycle) (cmdType : String) : Lifecycle :=
  if cmdType = "interaction.started" then .started
  else if cmdType = "interaction.ended" then .ended
  else status

theorem transition_of_participation {cmdType : String} (h : isParticipationFact cmdType = true)
    (status : Lifecycle) : transition status cmdType = status := by
  have hcases : cmdType = "participant.joined" ∨ cmdType = "participant.left" := by
    simpa [isParticipationFact] using h
  rcases hcases with rfl | rfl
  · rfl
  · rfl

namespace InteractionState

def applyTransition (st : InteractionState) (cmdType : String) : InteractionState :=
  { st with status := transition st.status cmdType }

def putResult (st : InteractionState) (id : String) (sr : StoredResult) (max : Nat) :
    InteractionState :=
  { st with results := st.results.put id sr max }

def copyMissingResults (st fresh : InteractionState) (max : Nat) : InteractionState :=
  { st with results := st.results.copyMissing fresh.results max }

/-! ## Rebuilding from the log -/

def recordSub (parents : Finmap fun _ : String => Finset String) (parentID subID : String) :
    Finmap fun _ : String => Finset String :=
  parents.insert parentID (insert subID ((parents.lookup parentID).getD ∅))

def rebuildStep (max : Nat) (st : InteractionState) (e : Event) : InteractionState :=
  { st with
    seq := if e.sequence > st.seq then e.sequence else st.seq
    status := transition st.status e.eventType
    results :=
      if e.commandId ≠ "" then st.results.put e.commandId ⟨e.payloadHash, accepted e.commandId⟩ max
      else st.results
    parents :=
      if isParticipationFact e.eventType ∧ e.causedBy ≠ "" then
        recordSub st.parents e.causedBy e.commandId
      else st.parents }

def rebuildFrom (facts : List Event) (last max : Nat) : InteractionState :=
  facts.foldl (rebuildStep max)
    { seq := 0
      streamSeq := last
      status := .none
      results := FifoCache.empty
      part := ParticipationView.fold facts
      parents := ∅
      poisoned := false }

/-- A loser of the append race takes over everything a fresh fold knows, and of the dedup entries
those it lacks. -/
def refold (st fresh : InteractionState) (max : Nat) : InteractionState :=
  { st with
    seq := fresh.seq
    streamSeq := fresh.streamSeq
    status := fresh.status
    part := fresh.part
    parents := fresh.parents
    results := st.results.copyMissing fresh.results max }

/-! ## What a rebuilt state knows -/

theorem rebuildFrom_induction {facts : List Event} {last max : Nat}
    {P : List Event → InteractionState → Prop}
    (hnil : ∀ part, P [] ⟨0, last, .none, FifoCache.empty, part, ∅, false⟩)
    (hstep : ∀ seen e st, P seen st → P (seen ++ [e]) (rebuildStep max st e)) :
    P facts (rebuildFrom facts last max) := by
  have key : ∀ (rest seen : List Event) (st : InteractionState), P seen st →
      P (seen ++ rest) (rest.foldl (rebuildStep max) st) := by
    intro rest
    induction rest with
    | nil => simp
    | cons e rest ih =>
      intro seen st h
      have := ih (seen ++ [e]) (rebuildStep max st e) (hstep seen e st h)
      simpa using this
  simpa [rebuildFrom] using key facts [] _ (hnil (ParticipationView.fold facts))

def statusOf (facts : List Event) : Lifecycle :=
  facts.foldl (fun s e => transition s e.eventType) .none

theorem statusOf_concat (facts : List Event) (e : Event) :
    statusOf (facts ++ [e]) = transition (statusOf facts) e.eventType := by
  simp [statusOf]

def lastSequence (facts : List Event) : Int :=
  facts.foldl (fun s e => if e.sequence > s then e.sequence else s) 0

theorem lastSequence_concat (facts : List Event) (e : Event) :
    lastSequence (facts ++ [e]) =
      if e.sequence > lastSequence facts then e.sequence else lastSequence facts := by
  simp [lastSequence]

variable {facts : List Event} {last max : Nat}

theorem rebuildFrom_streamSeq : (rebuildFrom facts last max).streamSeq = last := by
  apply rebuildFrom_induction (P := fun _ st => st.streamSeq = last)
  · intro _
    rfl
  · intro _ _ _ h
    exact h

theorem rebuildFrom_poisoned : (rebuildFrom facts last max).poisoned = false := by
  apply rebuildFrom_induction (P := fun _ st => st.poisoned = false)
  · intro _
    rfl
  · intro _ _ _ h
    exact h

theorem rebuildFrom_part : (rebuildFrom facts last max).part = ParticipationView.fold facts := by
  have key : ∀ (rest : List Event) (st : InteractionState),
      (rest.foldl (rebuildStep max) st).part = st.part := by
    intro rest
    induction rest with
    | nil =>
      intro st
      rfl
    | cons e rest ih =>
      intro st
      exact ih (rebuildStep max st e)
  exact key facts _

theorem rebuildFrom_seq : (rebuildFrom facts last max).seq = lastSequence facts := by
  apply rebuildFrom_induction (P := fun seen st => st.seq = lastSequence seen)
  · intro _
    rfl
  · intro seen e st h
    simp [lastSequence_concat, rebuildStep, h]

theorem rebuildFrom_status : (rebuildFrom facts last max).status = statusOf facts := by
  apply rebuildFrom_induction (P := fun seen st => st.status = statusOf seen)
  · intro _
    rfl
  · intro seen e st h
    simp [statusOf_concat, rebuildStep, h]

def coreOf (facts : List Event) : Core :=
  ⟨lastSequence facts, statusOf facts, ParticipationView.fold facts⟩

theorem rebuildFrom_core : (rebuildFrom facts last max).core = coreOf facts := by
  simp [core, coreOf, rebuildFrom_seq, rebuildFrom_status, rebuildFrom_part]

theorem coreOf_concat {e : Event} (hseq : e.sequence = (coreOf facts).seq + 1) :
    coreOf (facts ++ [e]) = ⟨(coreOf facts).seq + 1, transition (coreOf facts).status e.eventType,
      (coreOf facts).part.applyFact e⟩ := by
  have hlast : lastSequence (facts ++ [e]) = lastSequence facts + 1 := by
    rw [lastSequence_concat, hseq]
    exact if_pos (Int.lt_succ _)
  simp only [coreOf, hlast, statusOf_concat, ParticipationView.fold_concat]

theorem rebuildFrom_results_concat {e : Event} (hid : e.commandId ≠ "") :
    (rebuildFrom (facts ++ [e]) last max).results =
      (rebuildFrom facts last max).results.put e.commandId ⟨e.payloadHash, accepted e.commandId⟩ max := by
  -- the membership is folded beforehand, and no step looks at it
  have key : ∀ (rest : List Event) (st : InteractionState) (part : ParticipationView),
      (rest.foldl (rebuildStep max) { st with part := part }).results =
        (rest.foldl (rebuildStep max) st).results := by
    intro rest
    induction rest with
    | nil => exact fun _ _ => rfl
    | cons e rest ih => exact fun st part => ih (rebuildStep max st e) part
  rw [rebuildFrom, List.foldl_concat, rebuildStep]
  simp only [ne_eq, hid, not_false_eq_true, if_true]
  rw [rebuildFrom, key facts ⟨0, last, .none, FifoCache.empty, ParticipationView.fold facts, ∅, false⟩]

theorem rebuildFrom_results {id : String} {sr : StoredResult}
    (h : (rebuildFrom facts last max).results.lookup id = some sr) :
    ∃ e ∈ facts, e.commandId = id ∧ sr = ⟨e.payloadHash, accepted id⟩ := by
  have key : ∀ id sr, (rebuildFrom facts last max).results.lookup id = some sr →
      ∃ e ∈ facts, e.commandId = id ∧ sr = ⟨e.payloadHash, accepted id⟩ := by
    apply rebuildFrom_induction (P := fun seen st => ∀ id sr, st.results.lookup id = some sr →
      ∃ e ∈ seen, e.commandId = id ∧ sr = ⟨e.payloadHash, accepted id⟩)
    · intro _ id sr h
      simp [FifoCache.lookup, FifoCache.empty] at h
    · intro seen e st ih id sr h
      have old : st.results.lookup id = some sr →
          ∃ e' ∈ seen ++ [e], e'.commandId = id ∧ sr = ⟨e'.payloadHash, accepted id⟩ := by
        intro hst
        rcases ih id sr hst with ⟨e', hmem, hid, hsr⟩
        exact ⟨e', List.mem_append_left _ hmem, hid, hsr⟩
      by_cases hc : e.commandId = ""
      · exact old (by simpa [rebuildStep, hc] using h)
      · have hput : (st.results.put e.commandId ⟨e.payloadHash, accepted e.commandId⟩ max).lookup id =
            some sr := by simpa [rebuildStep, hc] using h
        rcases FifoCache.lookup_put hput with ⟨hid, hsr⟩ | ⟨_, hst⟩
        · refine ⟨e, by simp, hid.symm, ?_⟩
          simpa [hid] using hsr
        · exact old hst
  exact key id sr h

end InteractionState

end RelayPoint.Signaling
