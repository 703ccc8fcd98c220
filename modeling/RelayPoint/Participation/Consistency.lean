import RelayPoint.Participation.Execution

/-!
# Consistency — the participation store under concurrent calls of `Apply`

Any number of calls of `Apply`, on any commands, with any answers of the authority and any failing
or half-reported transactions, are interleaved operation by operation.  In every state that is
reached the store stands for one history per interaction, and from there on it only moves forward.
-/

namespace RelayPoint.Participation

open Concurrency Journal

def applyCall (call : Principal × ParticipationCommand) : Program Outcome :=
  apply call.1 call.2

theorem ens_applyCall {ok : World → Op → Choice → Prop} {w : World}
    (call : Principal × ParticipationCommand) :
    Ensures machine ok discipline (fun _ _ => True) (applyCall call) w := by
  unfold applyCall apply
  split
  · exact ensures_pure trivial
  · split
    · exact ensures_pure trivial
    · refine Ensures.mono (fun _ _ _ => trivial) (ens_applyRecord (E := True) ?_)
      intro _ _ _ _
      exact .inl trivial

theorem EventRow.clash_symm {r s : EventRow} (h : EventRow.Clash r s) : EventRow.Clash s r := by
  rcases h with ⟨htenant, hevent⟩ | ⟨hkey, hversion⟩
  · exact .inl ⟨htenant.symm, hevent.symm⟩
  · exact .inr ⟨hkey.symm, hversion.symm⟩

abbrev anything : Policy Op (Principal × ParticipationCommand) World Choice Empty :=
  Policy.free

section Runs

variable {c c' : Config Ans (Principal × ParticipationCommand) World Outcome}
variable {ls : List (Label (Principal × ParticipationCommand) Choice Empty)}

/-- From a reachable state `c` any further schedule leads to a `c'` with heads at least as high and
the same ledger rows.  In `c`, with `b` the version of the last installed snapshot, every version in
`(b, head]` is in the ledger; the participants are the fold of exactly those commands onto the
snapshot's participants; and every install so far stored what `foldRecords` had computed. -/
theorem store_consistent (hreach : Reachable machine applyCall anything World.empty c)
    (hrun : run machine applyCall anything ls c = some c') :
    (∀ key, c.world.headVersion key ≤ c'.world.headVersion key) ∧
    (∀ row ∈ c.world.versions.rows, row ∈ c'.world.versions.rows ∧
      ∀ row' ∈ c'.world.versions.rows, row'.key = row.key → row'.version = row.version →
        row' = row) ∧
    (∀ row ∈ c.world.events.rows, row ∈ c'.world.events.rows ∧
      ∀ row' ∈ c'.world.events.rows, row'.key.tenantId = row.key.tenantId →
        row'.eventId = row.eventId → row' = row) ∧
    (∀ key v, (c.world.checkpoint key).version < v → v ≤ c.world.headVersion key →
      ∃ row ∈ c.world.versions.rows, row.key = key ∧ row.version = v) ∧
    (∀ key, ∃! h : CommandHistory, h.base = c.world.checkpoint key ∧
      c.world.headVersion key = h.head ∧
      (∀ r ∈ h.tail, r.key = key ∧ VersionRow.of r ∈ c.world.versions.rows) ∧
      c.world.participants key = h.state Record.apply) ∧
    ∀ i ∈ c.world.installs, i.1.participants = i.2 := by
  have hens : ∀ call w, anything.spawn call → discipline.Inv w →
      Ensures machine (anything.op w) discipline (fun _ _ => True) (applyCall call) w :=
    fun call _ _ _ => ens_applyCall call
  have htick : ∀ w t w', anything.tick w t → discipline.Inv w → machine.tick w t = some w' →
      discipline.Rely w w' ∧ discipline.Inv w' := fun _ t => nomatch t
  have hsound : Sound machine anything discipline (fun _ _ _ _ => True) c :=
    hreach.sound id hens htick coherent_empty
  have hcoh : Coherent c.world := hsound.1
  have hgrows : Grows c.world c'.world := hsound.run id hens htick hrun
  refine ⟨hgrows.head, ?_, ?_, ?_, ?_, hcoh.installs⟩
  · intro row hrow
    have hmem := hgrows.versions.subset hrow
    refine ⟨hmem, fun row' hrow' hkey hversion => ?_⟩
    exact c'.world.versions.mem_eq_of_clash VersionRow.clash_symm hrow' hmem ⟨hkey, hversion⟩
  · intro row hrow
    have hmem := hgrows.events.subset hrow
    refine ⟨hmem, fun row' hrow' htenant hevent => ?_⟩
    exact c'.world.events.mem_eq_of_clash EventRow.clash_symm hrow' hmem (.inl ⟨htenant, hevent⟩)
  · intro key v hb hv
    rcases hcoh.represents key with ⟨h, hh⟩
    exact hh.exists_row (hh.base ▸ hb) hv
  · intro key
    rcases hcoh.represents key with ⟨h, hh⟩
    refine ⟨h, ⟨hh.base, hh.head, hh.rows, hh.state⟩, ?_⟩
    rintro h' ⟨hbase, hhead, hrows, hstate⟩
    exact Represents.unique ⟨hbase, hhead, hrows, hstate, hh.anchor⟩ hh

end Runs

/-! ## A run with a torn read, a lost compare-and-set and a replayed gap -/

namespace Scenario

abbrev Schedule := List (Label (Principal × ParticipationCommand) Choice Empty)

def tenant : String := "018f4000-0000-7000-8000-000000000001"
def interaction : String := "018f4000-0000-7000-8000-000000000002"
def alice : String := "018f4000-0000-7000-8000-000000000003"
def bob : String := "018f4000-0000-7000-8000-000000000004"
def carol : String := "018f4000-0000-7000-8000-000000000005"
def token : String := "018f4000-0000-7000-8000-000000000006"
def trace : String := "00-4bf92f3577b34da6a3ce929d0e0e4736-00f067aa0ba902b7-01"

def key : Key := ⟨tenant, interaction⟩

def command (eventId : String) (version : Nat) (participant : String) (state : DesiredState) :
    ParticipationCommand :=
  ⟨eventId, version, tenant, interaction, participant, state, some ⟨1760000000, 0⟩, trace⟩

def first : ParticipationCommand :=
  command "018f4000-0000-7000-8000-000000000011" 1 alice .assigned
def second : ParticipationCommand :=
  command "018f4000-0000-7000-8000-000000000012" 2 bob .assigned
def third : ParticipationCommand :=
  command "018f4000-0000-7000-8000-000000000013" 3 carol .assigned
def fourth : ParticipationCommand :=
  command "018f4000-0000-7000-8000-000000000014" 4 alice .unassigned

def writeGrant : TransportGrant := ⟨"corex", capabilityWrite, ""⟩

def apply (c : ParticipationCommand) : Label (Principal × ParticipationCommand) Choice Empty :=
  .spawn (⟨tenant, writeGrant⟩, c)

def acts {Call : Type} (i : Nat) (chs : List Choice) : List (Label Call Choice Empty) :=
  chs.map (.act i)

/-- The authority's answer to a request for the versions 3 and 4; its head is further on. -/
def replayOfGap : Choice :=
  .replayed (.ok (some ⟨[third, fourth], 5, "", [], 1, "history"⟩))

def firstInstalled : Schedule :=
  [apply first] ++ acts 0 [.go, .go, .go]

/-- The fourth command reads the head at 1 and the participants at 2, and is beaten; delivered again,
it has the gap replayed. -/
def gapReplayed : Schedule :=
  [apply second, apply fourth, .act 2 .go] ++ acts 1 [.go, .go, .go, .go] ++
    acts 2 [.go, .go, .id token, .go] ++ [apply fourth] ++
    acts 3 [.go, .go, .go, .id token, .go, replayOfGap, .go]

end Scenario

open Scenario in
theorem store_consistent_gapReplayed :
    ∃ c c' : Config Ans (Principal × ParticipationCommand) World Outcome,
      Reachable machine applyCall anything World.empty c ∧
        run machine applyCall anything gapReplayed c = some c' ∧
        c.world.headVersion key = 1 ∧ c'.world.headVersion key = 4 ∧
        c'.world.participants key = {bob, carol} ∧
        ∀ k, c.world.headVersion k ≤ c'.world.headVersion k := by
  have hrun : ((run machine applyCall anything firstInstalled ⟨World.empty, []⟩).bind fun c =>
      (run machine applyCall anything gapReplayed c).map fun c' =>
        (c.world.headVersion key, c'.world.headVersion key, c'.world.participants key)) =
      some (1, 4, {bob, carol}) := by
    decide +kernel
  rcases Option.bind_eq_some_iff.1 hrun with ⟨c, hc, hrun⟩
  rcases Option.map_eq_some_iff.1 hrun with ⟨c', hc', hvalue⟩
  simp only [Prod.mk.injEq] at hvalue
  have hreach := Reachable.start.run hc
  exact ⟨c, c', hreach, hc', hvalue.1, hvalue.2.1, hvalue.2.2, (store_consistent hreach hc').1⟩

end RelayPoint.Participation
