import RelayPoint.Sdk.Ordering

/-!
# GivingUp — when a delivery fails

A `recover` loop counts its passes and gives up at the last one that its list of backoffs allows.
`Observed` is a delivery with the passes that have been completed: whether a pass was in vain, because
it threw or left a gap open, and whether the applied sequence has advanced during it.
-/

namespace RelayPoint.Sdk
namespace Delivery

open Concurrency

variable {ε : Type}

structure Pass where
  inVain : Bool
  advanced : Bool
deriving DecidableEq

structure Observed (ε : Type) where
  delivery : State ε := {}
  passes : List Pass := []

def Await.advanced (applied : Int) : Await → Bool
  | .item fromSequence | .leaving fromSequence => fromSequence ≤ applied
  | .backoff => false

def passOf (s : State ε) : Event ε → List Pass
  | .ended _ i => (s.loops[i]?.map fun r => ⟨0 < s.size, r.awaits.advanced s.applied⟩).toList
  | .thrown _ i _ => (s.loops[i]?.map fun r => ⟨true, r.awaits.advanced s.applied⟩).toList
  | .offer .. | .prime .. | .close | .item .. | .waited .. | .consume .. | .resume .. => []

def Observed.step (backoff : List Nat) (o : Observed ε) (e : Event ε) : Option (Observed ε) :=
  (Delivery.step backoff o.delivery e).map fun d => ⟨d, o.passes ++ passOf o.delivery e⟩

def VainFor (n : Nat) (passes : List Pass) : Prop :=
  List.replicate n true <:+ passes.map Pass.inVain

variable {passes : List Pass}

theorem VainFor.mono {m n : Nat} (h : VainFor n passes) (hmn : m ≤ n) : VainFor m passes := by
  refine List.IsSuffix.trans ?_ h
  rw [← Nat.sub_add_cancel hmn, List.replicate_add]
  exact List.suffix_append _ _

theorem VainFor.concat {n : Nat} (h : VainFor n passes) {p : Pass} (hp : p.inVain = true) :
    VainFor (n + 1) (passes ++ [p]) := by
  unfold VainFor
  rw [List.replicate_succ', List.map_append, List.map_singleton, hp]
  exact List.suffix_append_self_iff.2 h

theorem vainFor_zero (passes : List Pass) : VainFor 0 passes :=
  List.nil_suffix

def Recovery.vain : Recovery → Nat
  | ⟨attempt, _, .item _⟩ | ⟨attempt, _, .leaving _⟩ => attempt
  | ⟨attempt, _, .backoff⟩ => attempt + 1

structure Counted (backoff : List Nat) (passes : List Pass) (m : Option Recovery) (s : State ε) : Prop where
  loops : ∀ r ∈ m.toList ++ s.loops, VainFor r.vain passes
  failed : s.state = .failed → s.recovering = false ∧ VainFor (max 1 backoff.length) passes

section Counted

variable {backoff : List Nat} {passes : List Pass} {s : State ε}

theorem outline_counted (backoff : List Nat) (passes : List Pass) :
    Outline (fun _ => True) (@Counted ε backoff passes) where
  close := by
    intro m s h
    unfold State.close
    split
    · exact h
    · exact ⟨h.loops, h.failed⟩
  out := fun h _ => ⟨h.loops, h.failed⟩
  put := fun h _ _ _ => ⟨h.loops, h.failed⟩
  apply := fun h _ _ => ⟨h.loops, h.failed⟩
  start := by
    intro s initial _ _ hloops _
    refine ⟨?_, by simp⟩
    simpa [hloops, Recovery.vain] using vainFor_zero passes
  suspend := by
    intro r s h hloops
    refine ⟨?_, h.failed⟩
    simpa [State.suspend, hloops] using h.loops
  wake := by
    intro r s h hloops
    refine ⟨?_, h.failed⟩
    simpa [hloops] using h.loops
  dropped := by
    intro r s h _
    exact ⟨fun r hr => h.loops r (List.mem_append_right _ hr), fun hf => ⟨rfl, (h.failed hf).2⟩⟩
  degraded := fun h => ⟨h.loops, by simp⟩
  live := fun h _ _ _ _ _ => ⟨h.loops, by simp⟩
  leave := by
    intro attempt needPass fromSequence s h _
    refine ⟨?_, h.failed⟩
    have hloops := h.loops
    simp only [Option.toList_some, List.singleton_append, List.forall_mem_cons] at hloops ⊢
    exact hloops

theorem Counted.vain {r : Recovery} {p : Pass} (h : Holds (Counted backoff passes) (some r) s)
    (hp : p.inVain = true) (needPass : Bool) (hr : r.vain = r.attempt) :
    Holds (Counted backoff (passes ++ [p])) (some ⟨r.attempt, needPass, .backoff⟩) s := by
  rcases h.regular.running with ⟨hrec, hnone⟩
  have hone : VainFor r.attempt passes := hr ▸ h.prop.loops r List.mem_cons_self
  refine ⟨⟨h.regular.keyed, h.regular.loops⟩, ?_, ?_⟩
  · simpa [hnone, Recovery.vain] using hone.concat hp
  · intro hf
    exact absurd ((h.prop.failed hf).1.symm.trans hrec) (by simp)

theorem Counted.fails {r : Recovery} (h : Holds (Counted backoff passes) (some r) s)
    (hlimit : backoff.length ≤ r.vain) (hpos : 0 < r.vain) :
    Holds (Counted backoff passes) none { s with recovering := false, state := .failed } := by
  rcases h.regular.running with ⟨-, hnone⟩
  refine ⟨⟨h.regular.keyed, by simp [hnone]⟩, by simp [hnone], fun _ => ⟨rfl, ?_⟩⟩
  exact (h.prop.loops r List.mem_cons_self).mono (by omega)

end Counted

/-! ## Runs -/

def Observed.Inv (backoff : List Nat) (o : Observed ε) : Prop :=
  Settled (Counted backoff o.passes) o.delivery

section Runs

variable {backoff : List Nat} {o o' : Observed ε}

theorem Observed.step_eq_some {e : Event ε} (h : o.step backoff e = some o') :
    ∃ d, Delivery.step backoff o.delivery e = some d ∧ o' = ⟨d, o.passes ++ passOf o.delivery e⟩ := by
  rcases Option.map_eq_some_iff.1 h with ⟨d, hd, rfl⟩
  exact ⟨d, hd, rfl⟩

theorem Recovery.vain_eq {r : Recovery} (h : r.awaits ≠ .backoff) : r.vain = r.attempt := by
  rcases r with ⟨attempt, needPass, awaits⟩
  cases awaits with
  | item | leaving => rfl
  | backoff => exact absurd rfl h

theorem Counted.returns {passes passes' : List Pass} {s t : State ε} {r : Recovery}
    (h : Wakes (Counted backoff passes) s r t) :
    Holds (Counted backoff passes') none ({ t with recovering := false } : State ε) := by
  rcases h.holds.regular.running with ⟨hrec, hnone⟩
  refine ⟨h.regular, by simp [hnone], fun hf => ?_⟩
  exact absurd ((h.holds.prop.failed hf).1.symm.trans hrec) (by simp)

variable {l : Listener} {i : Nat}

theorem Observed.Inv.ended (h : o.Inv backoff) (hstep : o.step backoff (.ended l i) = some o') :
    o'.Inv backoff := by
  rcases Observed.step_eq_some hstep with ⟨d, hd, rfl⟩
  rcases Settled.ended (outline_counted _ _) h hd with ⟨r, t, hr, hwakes, hawaits, rfl⟩
  have hpass : passOf o.delivery (.ended l i) =
      [⟨decide (0 < o.delivery.size), r.awaits.advanced o.delivery.applied⟩] := by
    simp [passOf, hr]
  have hsize : t.size = o.delivery.size := by
    rw [hwakes.state]
    rfl
  have hagain : t.size ≠ 0 → Holds (Counted backoff (o.passes ++ passOf o.delivery (.ended l i)))
      (some ⟨r.attempt, false, .backoff⟩) t := by
    intro hgap
    rw [hpass]
    exact Counted.vain hwakes.holds (by simp; omega) false (Recovery.vain_eq hawaits)
  refine ⟨?_, hwakes.drained.of_keeps (keeps_passEnd l hwakes.drained backoff _)⟩
  refine Holds.passEnd (outline_counted _ _) ?_ ?_ ?_ hwakes.drained l
  · exact fun _ => Counted.returns hwakes
  · exact fun hgap hlimit => Counted.fails (hagain hgap) hlimit (Nat.succ_pos _)
  · exact fun hgap _ => hagain hgap

theorem Observed.Inv.thrown (h : o.Inv backoff) {err : ε}
    (hstep : o.step backoff (.thrown l i err) = some o') : o'.Inv backoff := by
  rcases Observed.step_eq_some hstep with ⟨d, hd, rfl⟩
  rcases Settled.thrown (outline_counted _ _) h hd with ⟨r, t, fromSequence, hr, hwakes, hawaits, rfl⟩
  have hpass : passOf o.delivery (.thrown l i err) = [⟨true, r.awaits.advanced o.delivery.applied⟩] := by
    simp [passOf, hr]
  have hagain : Holds (Counted backoff (o.passes ++ passOf o.delivery (.thrown l i err)))
      (some ⟨r.attempt, r.needPass, .backoff⟩) t := by
    rw [hpass]
    exact Counted.vain hwakes.holds rfl r.needPass (Recovery.vain_eq hawaits)
  refine ⟨?_, hwakes.drained.of_keeps (keeps_passThrow l backoff _ _ _ _)⟩
  exact hagain.passThrow (outline_counted _ _) (fun hlimit _ ht => Counted.fails ht hlimit (Nat.succ_pos _)) l

theorem Observed.Inv.waited (h : o.Inv backoff) (hstep : o.step backoff (.waited l i) = some o') :
    o'.Inv backoff := by
  rcases Observed.step_eq_some hstep with ⟨d, hd, rfl⟩
  rcases Settled.waited (outline_counted _ _) h hd with ⟨⟨attempt, needPass, awaits⟩, t, hwakes, hawaits, rfl⟩
  obtain rfl : awaits = .backoff := hawaits
  have hone : VainFor (attempt + 1) o.passes := hwakes.holds.prop.loops _ List.mem_cons_self
  have hnone := hwakes.holds.regular.running.2
  have hmore : o.passes ++ passOf o.delivery (.waited l i) = o.passes := List.append_nil _
  refine ⟨?_, hwakes.drained.of_keeps (keeps_nextPass l hwakes.drained _ _)⟩
  rw [hmore]
  refine Holds.nextPass (outline_counted _ _) ?_ (Counted.returns hwakes) hwakes.drained l
  intro _
  exact ⟨⟨hwakes.holds.regular.keyed, hwakes.holds.regular.loops⟩, by simpa [hnone, Recovery.vain] using hone,
    hwakes.holds.prop.failed⟩

theorem Observed.Inv.step (h : o.Inv backoff) {e : Event ε} (hstep : o.step backoff e = some o') :
    o'.Inv backoff := by
  -- the other turns complete no pass
  have hminor : e.Minor (fun _ => True) → passOf o.delivery e = [] → o'.Inv backoff := by
    intro he hnone
    rcases Observed.step_eq_some hstep with ⟨d, hd, rfl⟩
    rw [hnone, List.append_nil]
    exact Settled.minor (outline_counted _ _) h hd he
  cases e with
  | ended l i => exact h.ended hstep
  | thrown l i err => exact h.thrown hstep
  | waited l i => exact h.waited hstep
  | item | offer | prime | close | consume | resume => exact hminor trivial rfl

theorem Observed.Inv.start (backoff : List Nat) : ({} : Observed ε).Inv backoff :=
  ⟨⟨⟨by simp [State.Keyed], rfl⟩, by simp, by simp⟩, Finmap.lookup_empty _⟩

/-- Whatever is offered and replayed, in any order: a delivery has failed only after as many passes in
a row that threw or left a gap open as there are backoffs, and at least one. -/
theorem failed_after_passes (backoff : List Nat)
    (h : Trace.Reaches (Observed.step backoff) (fun _ _ => True) {} o) (hfailed : o.delivery.state = .failed) :
    VainFor (max 1 backoff.length) o.passes := by
  have hinv : o.Inv backoff := h.invariant (Observed.Inv.start backoff) fun hinv _ hs => hinv.step hs
  exact (hinv.holds.prop.failed hfailed).2

end Runs

namespace Scenario

def onward (k : Nat) : List (Event Unit) :=
  [.item .quiet 0 (bareLog.fact k), .thrown .quiet 0 ()]

def progressing : List (Event Unit) :=
  .prime .quiet :: ([1, 2, 3, 4].flatMap fun k => onward k ++ [.waited .quiet 0]) ++ onward 5

instance (log : TrueLog) (o : Observed ε) (e : Event ε) : Decidable (Allowed log o.delivery e) :=
  instDecidableAllowed log o.delivery e

end Scenario

/-- A delivery fails though the applied sequence has advanced during every pass. -/
theorem failed_despite_progress : ∃ o : Observed Unit,
    Trace.Reaches (Observed.step defaultBackoff) (fun o e => Allowed Scenario.bareLog o.delivery e) {} o ∧
      o.delivery.state = .failed ∧ o.delivery.applied = 5 ∧ o.passes.length = defaultBackoff.length ∧
        ∀ p ∈ o.passes, p.advanced = true := by
  have hrun : (Trace.execute (Observed.step defaultBackoff)
      (fun o e => Allowed Scenario.bareLog o.delivery e) Scenario.progressing {}).map
        (fun o => (o.delivery.state, o.delivery.applied, o.passes)) =
          some (.failed, 5, List.replicate 5 ⟨true, true⟩) := by
    decide +kernel
  rcases Trace.exists_of_execute hrun with ⟨o, ho, hview⟩
  simp only [Prod.mk.injEq] at hview
  rcases hview with ⟨hfailed, happlied, hpasses⟩
  refine ⟨o, ho, hfailed, happlied, by rw [hpasses]; rfl, fun p hp => ?_⟩
  rw [hpasses] at hp
  rw [List.eq_of_mem_replicate hp]

theorem failed_after_passes_progressing : ∃ o : Observed Unit, o.delivery.state = .failed ∧
    VainFor 5 o.passes := by
  have hrun : (Trace.execute (Observed.step defaultBackoff) (fun _ _ => True) Scenario.progressing {}).map
      (fun o => o.delivery.state) = some .failed := by
    decide +kernel
  rcases Trace.exists_of_execute hrun with ⟨o, ho, hfailed⟩
  exact ⟨o, hfailed, failed_after_passes defaultBackoff ho hfailed⟩

end Delivery
end RelayPoint.Sdk
