import RelayPoint.Participation.Consistency

/-!
# Loss — what the consumer takes off the queue

A message that passes the envelope checks is acked, terminated or handed back.  Off the queue, its
command should be reflected in the head or be audited.  A reconcile intent that outlives the head it
was made for breaks this: the next delivery of the command finds the intent, takes it for a divergent
history and is terminated.  With careful steps only, nothing is lost.
-/

namespace RelayPoint.Participation

open Concurrency

section Handle

variable (unmarshal : Wire.Bytes → Option (ParticipationCommand × Wire.Bytes))

def handleCall (call : Consumer × Msg) : Program Disposition :=
  handle unmarshal call.1 call.2

abbrev carefulPolicy : Policy Op (Consumer × Msg) World Choice Empty where
  spawn := fun _ => True
  op := fun _ w op ch => careful w op ch = true
  tick := fun _ _ => True

def Removed (call : Consumer × Msg) (_ : World) (d : Disposition) (w : World) : Prop :=
  ∀ record, envelope unmarshal call.2 = some record → d ≠ .nak → Kept w record

variable {unmarshal}

theorem canonical_of_envelope {m : Msg} {record : Record} (h : envelope unmarshal m = some record) :
    canonical record.command = .ok record := by
  unfold envelope at h
  split at h
  · cases h
  · split at h
    · cases h
    · next r hr =>
        split at h
        · cases h
        · split at h
          · cases h
          · cases h
            rw [canonical_ok hr]
            exact hr

theorem apply_consumer (consumer : Consumer) {record : Record}
    (h : canonical record.command = .ok record) :
    apply ⟨record.command.tenantId, consumer.grant⟩ record.command = applyRecord record := by
  unfold apply
  simp [h, consumer.valid.2]

theorem ens_handle {w₀ w : World} (call : Consumer × Msg) :
    Ensures machine (carefulPolicy.op w₀) discipline (Removed unmarshal call w₀)
      (handleCall unmarshal call) w := by
  unfold handleCall handle Removed
  cases henv : envelope unmarshal call.2 with
  | none => exact ensures_pure (fun _ h => nomatch h)
  | some record =>
    dsimp only
    rw [apply_consumer call.1 (canonical_of_envelope henv)]
    refine ensures_bind (Ensures.mono ?_ (ens_applyRecord (E := False) ?_))
    · intro o w₁ hsettled
      refine ensures_pure ?_
      rintro record' hrecord hd
      cases hrecord
      exact (hsettled hd).resolve_right id
    · intro _ _ _ hcareful
      exact .inr hcareful

/-- In a run with careful steps only, a message that passed the envelope checks and was acked or
terminated has left its command in the head or in the dead-letter queue. -/
theorem removed_kept {c : Config Ans (Consumer × Msg) World Disposition}
    (hreach : Reachable machine (handleCall unmarshal) carefulPolicy World.empty c)
    {th : Thread Ans (Consumer × Msg) World Disposition} (hth : th ∈ c.pool) {record : Record}
    (henv : envelope unmarshal th.call.2 = some record) {d : Disposition} (hret : th.prog = .ret d)
    (hd : d ≠ .nak) :
    record.version ≤ c.world.headVersion record.key ∨
      ∃ row ∈ c.world.dlq.rows, row.key = record.key ∧ row.eventId = record.identity.eventId := by
  have hstable : ∀ call w₀ d w₁ w₂, Removed unmarshal call w₀ d w₁ → Grows w₁ w₂ →
      Removed unmarshal call w₀ d w₂ :=
    fun _ _ _ _ _ hkept hgrows record henv hd => (hkept record henv hd).mono hgrows
  have hholds := hreach.holds (D := discipline) (Q := Removed unmarshal) id
    (fun call _ _ _ => ens_handle call) (fun _ t => nomatch t) coherent_empty hstable
  exact (hholds.2 th hth).2 d hret record henv hd

end Handle

/-! ## Runs of one consumer -/

namespace Scenario

def corex : Consumer :=
  ⟨writeGrant, by decide⟩

def unmarshal (data : Wire.Bytes) : Option (ParticipationCommand × Wire.Bytes) :=
  ([first, second, third].find? fun c => marshal c = data).map fun c => (c, [])

def message (c : ParticipationCommand) : Msg :=
  ⟨"corex.participation.commands.v1." ++ tenant ++ "." ++ interaction, marshal c, c.eventId, trace⟩

def deliver (c : ParticipationCommand) : Label (Consumer × Msg) Choice Empty :=
  .spawn (corex, message c)

def replayOfSecond : Choice :=
  .replayed (.ok (some ⟨[second, third], 4, "", [], 1, "history"⟩))

def thirdReplayed : List (Label (Consumer × Msg) Choice Empty) :=
  [deliver first] ++ acts 0 [.go, .go, .go] ++ [deliver third] ++
    acts 1 [.go, .go, .go, .id token, .go, replayOfSecond, .go]

/-- The third command comes first, and the replay of what is missing fails once.  After the first
command has been installed the third is delivered again. -/
def thirdRetried : List (Label (Consumer × Msg) Choice Empty) :=
  [deliver third] ++ acts 0 [.go, .go, .id token, .go, .replayed (.error []), .go] ++
    [deliver first] ++ acts 1 [.go, .go, .go, .go] ++ [deliver third] ++
    acts 2 [.go, .go, .go, .id token, .go]

def thirdRecord : Record :=
  ⟨third, by decide +kernel⟩

theorem envelope_third : envelope unmarshal (message third) = some thirdRecord := by
  decide +kernel

end Scenario

open Scenario in
theorem removed_kept_thirdReplayed :
    ∃ c : Config Ans (Consumer × Msg) World Disposition,
      Reachable machine (handleCall unmarshal) carefulPolicy World.empty c ∧
        ∃ th ∈ c.pool, envelope unmarshal th.call.2 = some thirdRecord ∧ th.prog = .ret .ack ∧
          (thirdRecord.version ≤ c.world.headVersion thirdRecord.key ∨
            ∃ row ∈ c.world.dlq.rows, row.key = thirdRecord.key ∧
              row.eventId = thirdRecord.identity.eventId) := by
  have hrun : (run machine (handleCall unmarshal) carefulPolicy thirdReplayed
      ⟨World.empty, []⟩).map (fun c => (c.result 1).map fun p => (p.1.2, p.2)) =
        some (some (message third, .ack)) := by
    decide +kernel
  rcases exists_of_run hrun with ⟨c, hc, hresult⟩
  rcases Option.map_eq_some_iff.1 hresult with ⟨⟨⟨consumer, m⟩, d⟩, hresult, heq⟩
  simp only [Prod.mk.injEq] at heq
  rcases Config.result_some hresult with ⟨th, hth, hcall, hret⟩
  have henv : envelope unmarshal th.call.2 = some thirdRecord := by
    rw [hcall, heq.1]
    exact envelope_third
  rw [heq.2] at hret
  exact ⟨c, hc, th, hth, henv, hret, removed_kept hc hth henv hret (by decide)⟩

open Scenario in
/-- One transient error of the authority, and a command is terminated although nothing holds it. -/
theorem removed_lost :
    ∃ c : Config Ans (Consumer × Msg) World Disposition,
      Reachable machine (handleCall unmarshal) Policy.free World.empty c ∧
        ∃ th ∈ c.pool, envelope unmarshal th.call.2 = some thirdRecord ∧ th.prog = .ret .term ∧
          ¬ (thirdRecord.version ≤ c.world.headVersion thirdRecord.key ∨
            ∃ row ∈ c.world.dlq.rows, row.key = thirdRecord.key ∧
              row.eventId = thirdRecord.identity.eventId) := by
  have hrun : (run machine (handleCall unmarshal) Policy.free thirdRetried
      ⟨World.empty, []⟩).map (fun c => ((c.result 2).map fun p => (p.1.2, p.2),
        c.world.headVersion key, c.world.dlq.rows)) =
        some (some (message third, .term), 1, []) := by
    decide +kernel
  rcases exists_of_run hrun with ⟨c, hc, hvalue⟩
  simp only [Prod.mk.injEq] at hvalue
  rcases hvalue with ⟨hresult, hhead, hdlq⟩
  rcases Option.map_eq_some_iff.1 hresult with ⟨⟨⟨consumer, m⟩, d⟩, hresult, heq⟩
  simp only [Prod.mk.injEq] at heq
  rcases Config.result_some hresult with ⟨th, hth, hcall, hret⟩
  have henv : envelope unmarshal th.call.2 = some thirdRecord := by
    rw [hcall, heq.1]
    exact envelope_third
  rw [heq.2] at hret
  refine ⟨c, hc, th, hth, henv, hret, ?_⟩
  have hkey : thirdRecord.key = key := rfl
  have hversion : thirdRecord.version = 3 := rfl
  rw [hkey, hversion, hhead, hdlq]
  simp

end RelayPoint.Participation
