import RelayPoint.Projector.Tenure

/-!
# SingleActive — the workers on the clock have at most one live context

The invariant of a run puts together the tenure of the bucket and what every worker knows.  It is kept
by all events, on two conditions: a worker goes live while its lease is young enough for the first
renewal to be decided in time, and the delete of a `Release` takes effect while the key is its own.
Neither is enforced by the code: the hydration has no time limit, and `Release` deletes without naming
a revision.
-/

namespace RelayPoint.Projector
namespace Lease

open Concurrency

/-! ## Runs -/

def Bucket.Own (b : Bucket) (ttl now : Int) (holder : String) : Prop :=
  match b.entry ttl now with
  | some (value, _) => value = holder
  | none => True

/-- A worker goes live while its lease is young enough for the first renewal, and the delete of a
`Release` takes effect while the key is still its own. -/
def Timely (c : Timing) (s : State) : Event → Prop
  | .act holder .hydrated => Prompt c s.bucket s.now (s.worker holder).phase
  | .land holder =>
    match (s.worker holder).phase with
    | .deleting _ => s.bucket.Own c.leaseTTL.toInt s.now holder
    | _ => True
  | .stray i =>
    match s.strays[i]? with
    | some (holder, .delete) => s.bucket.Own c.leaseTTL.toInt s.now holder
    | _ => True
  | _ => True

structure Inv (c : Timing) (fleet : List String) (s : State) : Prop where
  tenure : Tenure s.bucket c.leaseTTL.toInt s.now fun holder => (s.worker holder).phase.Released
  workers : ∀ holder,
    (s.worker holder).phase.Sound c s.bucket s.now holder (s.worker holder).done
  strays : ∀ q ∈ s.strays, q.2.Sound s.bucket q.1 (s.worker q.1).phase
  outside : ∀ holder, holder ∉ fleet → (s.worker holder).phase = .idle

section Runs

variable {c : Timing} {fleet : List String} {s s' : State}

theorem inv_initial : Inv c fleet .initial where
  tenure := ⟨by simp [State.initial], by simp [State.initial]⟩
  workers := fun _ => trivial
  strays := by simp [State.initial]
  outside := fun _ _ => rfl

variable {b : Bucket} {holder : String} {p : Phase}

theorem Bucket.Own.eq {ttl now : Int} {value : String} {rev : Nat} (h : b.Own ttl now holder)
    (hentry : b.entry ttl now = some (value, rev)) : value = holder := by
  simpa [Bucket.Own, hentry] using h

theorem Request.Sound.mono {b' : Bucket} (hext : b.Extends b') {request : Request}
    (h : request.Sound b holder p) : request.Sound b' holder p :=
  ⟨fun rev hrev => (h.1 rev hrev).imp fun _ hm => hm.mono hext, h.2⟩

theorem Phase.Sound.pass {now : Int} {done : Bool} {d : Nat} (h : p.Sound c b now holder done)
    (hpermits : ∀ a, p = .active a → a.permits c (now + d) = true) :
    p.Sound c b (now + d) holder done := by
  cases p with
  | creating call | looking call | hydrating rev => exact h
  | active a => exact Active.Sound.pass h (hpermits a rfl)
  | _ => trivial

theorem Phase.released_answered {answer : Answer} : (p.answered answer).Released ↔ p.Released := by
  cases p with
  | active a =>
    simp only [Phase.answered]
    split <;> exact Iff.rfl
  | _ => exact Iff.rfl

theorem Inv.pass (h : Inv c fleet s) {d : Nat} (hstep : step c fleet s (.pass d) = some s') :
    Inv c fleet s' := by
  simp only [step] at hstep
  split at hstep
  · next hpermits =>
      cases hstep
      refine ⟨h.tenure.pass d, ?_, h.strays, h.outside⟩
      intro holder
      refine (h.workers holder).pass ?_
      intro a hp
      have hfleet : holder ∈ fleet := by
        by_contra hout
        simp [h.outside holder hout] at hp
      have hworker := List.all_eq_true.1 hpermits holder hfleet
      simpa only [Worker.permits, hp] using hworker
  · cases hstep

theorem Inv.serve (h : Inv c fleet s) {request : Request} {answer : Answer} {b' : Bucket}
    (hrequest : request.Sound s.bucket holder (s.worker holder).phase)
    (hown : request = .delete → s.bucket.Own c.leaseTTL.toInt s.now holder)
    (hserved : Bucket.Served s.bucket c.leaseTTL.toInt s.now holder request answer b') :
    Inv c fleet { s with bucket := b' } where
  tenure := h.tenure.serve hrequest.1
    (fun hdelete => ⟨hrequest.2 hdelete, fun _ _ => (hown hdelete).eq⟩) hserved
  workers := fun other => (h.workers other).mono hserved.extends
  strays := fun q hq => (h.strays q hq).mono hserved.extends
  outside := h.outside

theorem Inv.update (h : Inv c fleet s) {w : Worker}
    (hworker : w.phase.Sound c s.bucket s.now holder w.done)
    (hreleased : (s.worker holder).phase.Released → w.phase.Released)
    (houtside : holder ∉ fleet → w.phase = .idle) :
    Inv c fleet { s with worker := Function.update s.worker holder w } := by
  have hrel : ∀ other, (s.worker other).phase.Released →
      (Function.update s.worker holder w other).phase.Released := by
    intro other hother
    by_cases heq : other = holder
    · subst heq
      simpa using hreleased hother
    · simpa [heq] using hother
  refine ⟨h.tenure.release hrel, ?_, ?_, ?_⟩
  · intro other
    by_cases heq : other = holder
    · subst heq
      simpa using hworker
    · simpa [heq] using h.workers other
  · intro q hq
    exact ⟨(h.strays q hq).1, fun hdelete => hrel _ ((h.strays q hq).2 hdelete)⟩
  · intro other hother
    by_cases heq : other = holder
    · subst heq
      simpa using houtside hother
    · simpa [heq] using h.outside other hother

theorem Inv.land (h : Inv c fleet s) (htimely : Timely c s (.land holder))
    (hstep : step c fleet s (.land holder) = some s') : Inv c fleet s' := by
  simp only [step] at hstep
  split at hstep
  · next request hcall =>
      cases hstep
      have hserved := s.bucket.served c.leaseTTL.toInt s.now holder request
      have hown : request = .delete → s.bucket.Own c.leaseTTL.toInt s.now holder := by
        rintro rfl
        cases hp : (s.worker holder).phase with
        | deleting call => simpa [Timely, hp] using htimely
        | active a =>
          simp only [hp, Phase.call] at hcall
          split at hcall <;> cases hcall
        | _ => simp [hp, Phase.call] at hcall
      have hlater := h.serve ((h.workers holder).call hcall) hown hserved
      refine hlater.update ?_ ?_ ?_
      · exact (h.workers holder).answered hcall hserved
      · exact Phase.released_answered.2
      · intro hout
        simp [h.outside holder hout, Phase.call] at hcall
  · cases hstep

theorem Inv.stray (h : Inv c fleet s) {i : Nat} (htimely : Timely c s (.stray i))
    (hstep : step c fleet s (.stray i) = some s') : Inv c fleet s' := by
  simp only [step] at hstep
  split at hstep
  · next holder request hi =>
      cases hstep
      have hserved := s.bucket.served c.leaseTTL.toInt s.now holder request
      have hown : request = .delete → s.bucket.Own c.leaseTTL.toInt s.now holder := by
        rintro rfl
        simpa [Timely, hi] using htimely
      have hlater := h.serve (h.strays _ (List.mem_of_getElem? hi)) hown hserved
      exact ⟨hlater.tenure, hlater.workers,
        fun q hq => hlater.strays q (List.mem_of_mem_eraseIdx hq), hlater.outside⟩
  · cases hstep

theorem Inv.act (hroom : Roomy c) (h : Inv c fleet s) {action : Action}
    (htimely : Timely c s (.act holder action))
    (hstep : step c fleet s (.act holder action) = some s') : Inv c fleet s' := by
  simp only [step] at hstep
  split at hstep
  · next hfleet =>
      split at hstep
      · next w requests hact =>
          cases hstep
          have hprompt : action = .hydrated →
              Prompt c s.bucket s.now (s.worker holder).phase := by
            rintro rfl
            exact htimely
          rcases Worker.act_sound hroom (h.workers holder) hprompt hact with
            ⟨hsound, hreleased, hrequests⟩
          have hlater := h.update hsound hreleased fun hout => absurd hfleet hout
          refine ⟨hlater.tenure, hlater.workers, ?_, hlater.outside⟩
          intro q hq
          rcases List.mem_append.1 hq with hq | hq
          · exact hlater.strays q hq
          · rcases List.mem_map.1 hq with ⟨request, hrequest, rfl⟩
            simpa using hrequests request hrequest
      · cases hstep
  · cases hstep

theorem Inv.step (hroom : Roomy c) {e : Event} (h : Inv c fleet s) (htimely : Timely c s e)
    (hstep : Lease.step c fleet s e = some s') : Inv c fleet s' := by
  cases e with
  | pass d => exact h.pass hstep
  | land holder => exact h.land htimely hstep
  | stray i => exact h.stray htimely hstep
  | act holder action => exact h.act hroom htimely hstep

theorem Inv.entry (h : Inv c fleet s) (hholds : s.holds holder = true) :
    ∃ rev, s.bucket.entry c.leaseTTL.toInt s.now = some (holder, rev) := by
  have hsound := h.workers holder
  have hheld : ∃ a, (s.worker holder).phase = .active a ∧ a.fence.live = true := by
    unfold State.holds at hholds
    split at hholds
    · next a ha => exact ⟨a, ha, hholds⟩
    · cases hholds
  rcases hheld with ⟨a, ha, hlive⟩
  rw [ha] at hsound
  rcases Active.Sound.leased hsound (Fence.open_of_live hlive) with ⟨m, hm, rfl, hput, hfresh⟩
  exact ⟨_, h.tenure.entry hm hput hfresh (by simp [ha, Phase.Released])⟩

end Runs

theorem roomy_withDefaults {c : Timing}
    (h : 2 * c.withDefaults.attemptLimit < c.withDefaults.leaseTTL.toInt) : Roomy c.withDefaults :=
  ⟨c.withDefaults_bounds.1, c.attempt_fits, h⟩

/-- In every timely run of any number of workers, a worker with a live context has the key, and so no
two workers have one. -/
theorem live_worker_holds_key (c : Timing) (fleet : List String)
    (hattempts : 2 * c.withDefaults.attemptLimit < c.withDefaults.leaseTTL.toInt) {s : State}
    (h : Trace.Reaches (step c.withDefaults fleet) (Timely c.withDefaults) .initial s)
    {holder : String} (hholds : s.holds holder = true) :
    (∃ rev, s.bucket.entry c.withDefaults.leaseTTL.toInt s.now = some (holder, rev)) ∧
      ∀ other, s.holds other = true → other = holder := by
  have hroom := roomy_withDefaults hattempts
  have hinv : Inv c.withDefaults fleet s := h.invariant inv_initial fun hs => hs.step hroom
  rcases hinv.entry hholds with ⟨rev, hentry⟩
  refine ⟨⟨rev, hentry⟩, ?_⟩
  intro other hother
  rcases hinv.entry hother with ⟨rev', hentry'⟩
  exact (Prod.mk.inj (Option.some.inj (hentry'.symm.trans hentry))).1

/-! ## Two schedules -/

instance (c : Timing) (b : Bucket) (now : Int) : (p : Phase) → Decidable (Prompt c b now p)
  | .hydrating rev =>
    match h : b.message? rev with
    | some m =>
      decidable_of_iff (now + c.leaseRenew.toInt + c.attemptLimit < m.time + c.leaseTTL.toInt)
        (by simp [Prompt, h])
    | none => .isFalse (by simp [Prompt, h])
  | .idle | .creating _ | .looking _ | .sleeping _ | .active _ | .checking _ | .deleting _
  | .stopped => .isTrue trivial

instance (b : Bucket) (ttl now : Int) (holder : String) : Decidable (b.Own ttl now holder) :=
  match h : b.entry ttl now with
  | some (value, _) => decidable_of_iff (value = holder) (by simp [Bucket.Own, h])
  | none => .isTrue (by simp [Bucket.Own, h])

instance (c : Timing) (s : State) (e : Event) : Decidable (Timely c s e) :=
  match e with
  | .pass _ => .isTrue trivial
  | .land holder =>
    match h : (s.worker holder).phase with
    | .deleting _ =>
      decidable_of_iff (s.bucket.Own c.leaseTTL.toInt s.now holder) (by simp [Timely, h])
    | .idle | .creating _ | .looking _ | .sleeping _ | .hydrating _ | .active _ | .checking _
    | .stopped => .isTrue (by simp [Timely, h])
  | .stray i =>
    match h : s.strays[i]? with
    | some (holder, .delete) =>
      decidable_of_iff (s.bucket.Own c.leaseTTL.toInt s.now holder) (by simp [Timely, h])
    | some (_, .create) | some (_, .get) | some (_, .update _) | none =>
      .isTrue (by simp [Timely, h])
  | .act holder .hydrated =>
    inferInstanceAs (Decidable (Prompt c s.bucket s.now (s.worker holder).phase))
  | .act _ .run | .act _ .answer | .act _ .fault | .act _ .retry | .act _ .hydrateFailed
  | .act _ (.renew _) | .act _ (.data _) | .act _ .cancel | .act _ .crash => .isTrue trivial

namespace Scenario

def defaults : Timing := ⟨0, 0⟩

def acquire (holder : String) : List Event :=
  [.act holder .run, .land holder, .act holder .answer]

def goLive (holder : String) : List Event :=
  [.act holder .hydrated, .act holder (.data .begin)]

def retried (holder : String) : List Event :=
  [.pass 300000000, .act holder (.renew .retry), .land holder, .act holder .answer]

def replyLost : List Event :=
  acquire "a" ++ [.pass 1000000000] ++ goLive "a" ++
  [.pass 2000000000, .act "a" (.renew .tick), .act "a" (.renew .start), .land "a", .act "a" .fault] ++
  retried "a" ++ retried "a" ++
  [.act "a" (.data .next), .act "a" (.data .begin), .land "a", .act "a" .answer, .land "a",
    .act "a" .answer] ++
  acquire "b" ++ goLive "b"

def slowHydration : List Event :=
  acquire "a" ++ [.pass 5000000000] ++ acquire "b" ++ goLive "b" ++ goLive "a"

def view (s : State) : Bool × Bool × Option (String × Nat) :=
  (s.holds "a", s.holds "b", s.bucket.entry (5 * second).toInt s.now)

end Scenario

open Scenario in
theorem live_worker_holds_key_replyLost :
    ∃ s, Trace.Reaches (step defaults.withDefaults ["a", "b"]) (Timely defaults.withDefaults)
        .initial s ∧ s.holds "b" = true ∧
      (∃ rev, s.bucket.entry defaults.withDefaults.leaseTTL.toInt s.now = some ("b", rev)) ∧
      ∀ other, s.holds other = true → other = "b" := by
  have hrun : (Trace.execute (step defaults.withDefaults ["a", "b"]) (Timely defaults.withDefaults)
      replyLost .initial).map view = some (false, true, some ("b", 4)) := by
    decide +kernel
  rcases Trace.exists_of_execute hrun with ⟨s, hs, hview⟩
  have hholds : s.holds "b" = true := (Prod.mk.inj (Prod.mk.inj hview).2).1
  exact ⟨s, hs, hholds, live_worker_holds_key defaults ["a", "b"] (by decide) hs hholds⟩

open Scenario in
/-- Without the condition two workers can be live at once, only one of them with the key. -/
theorem live_worker_without_key :
    ¬ ∀ (c : Timing) (fleet : List String) (s : State),
      Trace.Reaches (step c.withDefaults fleet) (fun _ _ => True) .initial s →
      ∀ holder, s.holds holder = true →
        (∃ rev, s.bucket.entry c.withDefaults.leaseTTL.toInt s.now = some (holder, rev)) ∧
          ∀ other, s.holds other = true → other = holder := by
  intro hclaim
  have hrun : (Trace.execute (step defaults.withDefaults ["a", "b"]) (fun _ _ => True)
      slowHydration .initial).map view = some (true, true, some ("b", 2)) := by
    decide +kernel
  rcases Trace.exists_of_execute hrun with ⟨s, hs, hview⟩
  have ha : s.holds "a" = true := (Prod.mk.inj hview).1
  have hentry : s.bucket.entry defaults.withDefaults.leaseTTL.toInt s.now = some ("b", 2) :=
    (Prod.mk.inj (Prod.mk.inj hview).2).2
  rcases (hclaim defaults ["a", "b"] s hs "a" ha).1 with ⟨rev, hrev⟩
  rw [hentry] at hrev
  exact absurd (Prod.mk.inj (Option.some.inj hrev)).1 (by decide)

end Lease
end RelayPoint.Projector
