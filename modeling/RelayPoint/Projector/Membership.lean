import RelayPoint.Concurrency.Serial
import RelayPoint.Projector.Worker

/-!
# Membership — one fold, read in three ways

The router asks whether an agent is a participant now, the projector whose interval covers the fact
it is processing, and a reader of the whole log whose interval covers that fact in the end.  On a log
with increasing sequences the three agree, up to the one agent who leaves by the fact itself: it is
no participant afterwards, but the fact still goes to its feed.
-/

namespace RelayPoint.Projector

open Concurrency Signaling ParticipationView

def Iterates (v : ParticipationView) (_ : World) (_ : Op) (ch : Choice) : Prop :=
  ∃ l : List String, ch = .listed l ∧ l.Nodup ∧ l.toFinset = v.agents

theorem serves_coveredBy (max : Option Nat) (v : ParticipationView) (s : Int) (w : World) :
    Serves (machine max) (Iterates v)
      (fun out w' => w' = w ∧ out.Nodup ∧ ∀ a, a ∈ out ↔ covered (v.intervalsOf a) s = true)
      (coveredBy v s) w := by
  refine serves_perform ?_
  rintro ch ⟨l, rfl, hnodup, hkeys⟩
  have hp : perform max w (.agents v) (.listed l) = some (l, w) := if_pos ⟨hnodup, hkeys⟩
  refine ⟨l, w, hp, serves_pure ⟨rfl, hnodup.filter _, ?_⟩⟩
  intro a
  refine ⟨fun ha => (List.mem_filter.1 ha).2, fun ha => List.mem_filter.2 ⟨?_, ha⟩⟩
  rw [← List.mem_toFinset, hkeys]
  exact mem_agents_of_covered ha

section Agreement

variable {facts before after : List Event} {e : Event}

theorem intervals_wellFormed (hinc : facts.Pairwise fun e f => e.sequence < f.sequence) (a : String) :
    (bounds ((fold facts).intervalsOf a)).Pairwise (· < ·) := by
  rcases List.eq_nil_or_concat' facts with rfl | ⟨before, last, rfl⟩
  · simp [intervalsOf, new, bounds]
  · have hbelow : ∀ e ∈ before ++ [last], e.sequence < last.sequence + 1 := by
      intro e he
      rcases List.mem_append.1 he with he | he
      · exact ((List.pairwise_append.1 hinc).2.2 e he last (by simp)).trans (lt_add_one _)
      · rw [List.mem_singleton.1 he]
        exact lt_add_one _
    exact (increasing_fold hinc a hbelow).bounds

theorem increasing_before (hinc : (before ++ e :: after).Pairwise fun e f => e.sequence < f.sequence)
    (a : String) : Increasing ((fold before).intervalsOf a) e.sequence := by
  rcases List.pairwise_append.1 hinc with ⟨hbefore, _, hlt⟩
  exact increasing_fold hbefore a fun f hf => hlt f hf e (by simp)

theorem covered_whole (hinc : (before ++ e :: after).Pairwise fun e f => e.sequence < f.sequence)
    (a : String) :
    covered ((fold (before ++ e :: after)).intervalsOf a) e.sequence =
      covered ((fold (before ++ [e])).intervalsOf a) e.sequence := by
  rcases List.pairwise_append.1 hinc with ⟨_, htail, _⟩
  have hlater := (List.pairwise_cons.1 htail).1
  rw [← covered_fold_append (before ++ [e]) after hlater a, List.append_assoc]
  rfl

end Agreement

/-- On a log with increasing sequences each agent's intervals are well formed, and for every fact the
agents that `coveredBy` returns when the fact is processed are the participants after it together
with the agent whom it made leave; the same agents are covered in the fold of the whole log; and
applying the fact again changes nothing. -/
theorem membership_agreement {facts : List Event}
    (hinc : facts.Pairwise fun e f => e.sequence < f.sequence) :
    (∀ a, (bounds ((fold facts).intervalsOf a)).Pairwise (· < ·) ∧
      (∀ i ∈ (fold facts).intervalsOf a, i.leftOpen = false → i.joinSeq < i.leftSeq) ∧
      ∀ i ∈ ((fold facts).intervalsOf a).dropLast, i.leftOpen = false) ∧
    ∀ before e after, facts = before ++ e :: after →
      (∀ max w, Serves (machine max) (Iterates (fold (before ++ [e])))
        (fun out w' => w' = w ∧ out.Nodup ∧
          ∀ a, (a ∈ out ↔ (fold (before ++ [e])).isParticipantNow a = true ∨
              Closes (fold before) e a) ∧
            (a ∈ out ↔ ∃ i ∈ (fold facts).intervalsOf a, i.joinSeq ≤ e.sequence ∧
              (i.leftOpen = true ∨ e.sequence ≤ i.leftSeq)))
        (coveredBy (fold (before ++ [e])) e.sequence) w) ∧
      ∀ n, (fun v : ParticipationView => v.applyFact e)^[n] (fold (before ++ [e])) =
        fold (before ++ [e]) := by
  refine ⟨?_, ?_⟩
  · intro a
    have hbounds := intervals_wellFormed hinc a
    exact ⟨hbounds, fun i hi => lt_of_increasing hbounds hi, lastOnly_fold facts a⟩
  · rintro before e after rfl
    refine ⟨?_, ?_⟩
    · intro max w
      refine (serves_coveredBy max _ _ w).mono ?_
      rintro out w' ⟨hw, hnodup, hmem⟩
      refine ⟨hw, hnodup, fun a => ⟨?_, ?_⟩⟩
      · rw [hmem, fold_concat]
        exact covered_latest (increasing_before hinc a)
      · rw [hmem, ← covered_whole hinc]
        simp [covered, Interval.covers]
    · refine iterate_applyFact ?_
      rw [fold_concat]
      exact applyFact_idem (lastOnly_fold before) e

namespace Scenario

def note (n : Int) (eventType actorId : String) : Event where
  schema := schemaV1
  eventType := eventType
  eventId := ""
  sequence := n
  occurredAt := 0
  tenantId := "t"
  actorId := actorId
  medium := ""
  commandId := ""
  payloadHash := ""
  causedBy := ""
  refId := ""
  data := []
  commandedBy := ""
  reason := ""
  requestId := ""

def rejoined : List Event :=
  [note 1 "participant.joined" "alice", note 2 "participant.joined" "alice", note 4 "message" "bob",
    note 5 "participant.left" "alice", note 6 "participant.left" "alice",
    note 9 "participant.joined" "alice"]

end Scenario

open Scenario in
theorem membership_agreement_rejoined :
    (fold rejoined).intervalsOf "alice" = [⟨1, 5, false⟩, ⟨9, 0, true⟩] ∧
    ∀ max w, Serves (machine max) (Iterates (fold (rejoined.take 4)))
      (fun out w' => w' = w ∧ out.Nodup ∧
        ∀ a, (a ∈ out ↔ (fold (rejoined.take 4)).isParticipantNow a = true ∨
            Closes (fold (rejoined.take 3)) (note 5 "participant.left" "alice") a) ∧
          (a ∈ out ↔ ∃ i ∈ (fold rejoined).intervalsOf a, i.joinSeq ≤ 5 ∧
            (i.leftOpen = true ∨ 5 ≤ i.leftSeq)))
      (coveredBy (fold (rejoined.take 4)) 5) w := by
  refine ⟨by decide, ?_⟩
  have hinc : rejoined.Pairwise fun e f => e.sequence < f.sequence := by decide
  exact ((membership_agreement hinc).2 (rejoined.take 3) (note 5 "participant.left" "alice")
    (rejoined.drop 4) rfl).1

end RelayPoint.Projector
