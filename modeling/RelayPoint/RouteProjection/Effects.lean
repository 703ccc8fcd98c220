import RelayPoint.RouteProjection.Store

/-!
# Effects — what a committed transaction did to the heads

Two things can happen to the heads of the route projection:

* `Keeps` — at most, an interaction gets its initial row;
* `Replaced` — a batch of facts or a snapshot became the state of one head.
-/

namespace RelayPoint.RouteProjection

open Participation (Key IntentRow IntentStatus)

/-! ## Effects -/

structure Keeps (w w' : World) : Prop where
  delivery : w'.delivery = w.delivery
  now : w'.now = w.now
  installed : w'.installed = w.installed
  heads : ∀ k, w'.heads k = w.heads k ∨ w.heads k = none ∧ w'.heads k = some HeadRow.initial

theorem Keeps.refl (w : World) : Keeps w w :=
  ⟨rfl, rfl, rfl, fun _ => .inl rfl⟩

structure Replaced (w w' : World) (key : Key) (row : HeadRow) (items : List Installed) : Prop where
  delivery : w'.delivery = w.delivery
  now : w'.now = w.now
  heads : w'.heads = Function.update w.heads key (some row)
  installed : w'.installed = Function.update w.installed key (w.installed key ++ items)

/-! ## Statements -/

section Statements

variable {w w' : World} {key : Key}

theorem ensureProjectionHead_eq (w : World) (key : Key) :
    ∃ heads, w.ensureProjectionHead key = { w with heads := heads } ∧
      (∀ k, heads k = w.heads k ∨ w.heads k = none ∧ heads k = some HeadRow.initial) ∧
      ∀ row, Function.update heads key row = Function.update w.heads key row := by
  unfold World.ensureProjectionHead
  cases hrow : w.heads key with
  | some row => exact ⟨w.heads, rfl, fun _ => .inl rfl, fun _ => rfl⟩
  | none =>
    refine ⟨_, rfl, ?_, fun row => by simp⟩
    intro k
    by_cases hk : k = key
    · subst hk
      exact .inr ⟨hrow, by simp⟩
    · exact .inl (by simp [Function.update_of_ne hk])

theorem keeps_ensureProjectionHead (w : World) (key : Key) :
    Keeps w (w.ensureProjectionHead key) := by
  rcases ensureProjectionHead_eq w key with ⟨heads, heq, hheads, _⟩
  rw [heq]
  exact ⟨rfl, rfl, rfl, hheads⟩

variable {s : FoldedState} {row : HeadRow}

theorem headRow_some (h : headRow s = some row) :
    row.version = s.version ∧ row.visible = decide (s.visibility = .visible) ∧
      uuidColumn s.deliveryAuthorizationId = some row.deliveryAuthorizationId ∧
      uuidColumn s.receiptId = some row.receiptId ∧
      row.visibilityGeneration = s.visibilityGeneration ∧
      row.leaseUntil = nullableTime s.leaseUntil := by
  unfold headRow at h
  split at h
  · split at h
    · next hauthorization hreceipt =>
        cases h
        exact ⟨rfl, rfl, hauthorization, hreceipt, rfl, rfl⟩
    · cases h
  · cases h

theorem headRow_identity (h : headRow s = some row) :
    row.eventId = some s.eventId ∧ row.hash = some s.hash := by
  unfold headRow at h
  split at h
  · split at h
    · cases h
      exact ⟨rfl, rfl⟩
    · cases h
  · cases h

theorem insertLedgerRows_eq {row : VersionRow} (h : insertLedgerRows w row = .ok w') :
    ∃ versions events, w' = { w with versions := versions, events := events } := by
  unfold insertLedgerRows at h
  split at h
  · cases h
  · split at h
    · cases h
    · split at h
      · cases h
      · cases h
        exact ⟨_, _, rfl⟩

theorem insertFactLedgers_eq {f : RouteFact} (h : insertFactLedgers w f = .ok w') :
    ∃ versions events, w' = { w with versions := versions, events := events } := by
  unfold insertFactLedgers at h
  split at h
  · cases h
  · exact insertLedgerRows_eq h

theorem insertFacts_eq {facts : List RouteFact} : ∀ {w : World}, insertFacts w facts = .ok w' →
    ∃ versions events, w' = { w with versions := versions, events := events } := by
  induction facts with
  | nil =>
    intro w h
    cases h
    exact ⟨w'.versions, w'.events, rfl⟩
  | cons f fs ih =>
    intro w h
    cases hf : insertFactLedgers w f with
    | error e => simp [insertFacts, hf] at h
    | ok w₁ =>
      rcases insertFactLedgers_eq hf with ⟨versions, events, rfl⟩
      rcases ih (by simpa [insertFacts, hf] using h) with ⟨versions', events', rfl⟩
      exact ⟨versions', events', rfl⟩

theorem mem_pendingIntent {row : IntentRow} (h : w.pendingIntent key = some row) :
    row ∈ w.intents.rows ∧ row.key = key ∧ row.status = .pending := by
  have hrow := List.find?_some h
  exact ⟨List.mem_of_find?_eq_some h, by simpa using hrow⟩

end Statements

/-! ## The methods of the store -/

namespace Store

variable {w w' : World} {intent : ReconcileIntent} {facts : List RouteFact} {final : FoldedState}
  {b : Bool}

theorem installFacts_ok {key : Key} (h : installFacts w key facts final = .ok w') :
    ∃ row, headRow final = some row ∧ Replaced w w' key row (facts.map .fact) := by
  unfold installFacts at h
  rcases ensureProjectionHead_eq w key with ⟨heads, heq, _, hset⟩
  rw [heq] at h
  split at h
  · cases h
  · next w₁ hfacts =>
      rcases insertFacts_eq hfacts with ⟨versions, events, rfl⟩
      split at h
      · cases h
      · next row hrow =>
          cases h
          exact ⟨row, hrow, rfl, rfl, hset (some row), rfl⟩

theorem installBatch_ok {expected : Nat} (h : installBatch w expected facts final = .ok (b, w')) :
    Keeps w w' ∨ ∃ f fs row, facts = f :: fs ∧ headRow final = some row ∧
      Replaced w w' f.key row (facts.map .fact) := by
  unfold installBatch at h
  split at h
  · cases h
  · next f fs =>
      split at h
      · cases h
        exact .inl (keeps_ensureProjectionHead w f.key)
      · split at h
        · cases h
        · next w₁ hinstall =>
            cases h
            rcases installFacts_ok hinstall with ⟨row, hrow, hset⟩
            exact .inr ⟨f, fs, row, rfl, hrow, hset⟩

theorem installReconcileBatch_ok (h : installReconcileBatch w intent facts final = .ok (b, w')) :
    Keeps w w' ∨ ∃ row, facts ≠ [] ∧ headRow final = some row ∧
      Replaced w w' intent.key row (facts.map .fact) := by
  unfold installReconcileBatch at h
  split at h
  · cases h
  · next hne =>
      split at h
      · cases h
        exact .inl (keeps_ensureProjectionHead w intent.key)
      · split at h
        · cases h
        · next w₁ hinstall =>
            cases h
            rcases installFacts_ok hinstall with ⟨row, hrow, hset⟩
            exact .inr ⟨row, hne, hrow, hset.delivery, hset.now, hset.heads, hset.installed⟩

variable {proposed : ReconcileIntent} {f held : RouteFact}

theorem beginReconcile_ok (h : beginReconcile w proposed = .ok ((intent, b), w')) :
    Keeps w w' ∧ intent.key = proposed.key := by
  have hkeeps := keeps_ensureProjectionHead w proposed.key
  unfold beginReconcile at h
  split at h
  · cases h
    exact ⟨hkeeps, rfl⟩
  · split at h
    · next row hrow =>
        cases h
        exact ⟨hkeeps, (mem_pendingIntent hrow).2.1⟩
    · split at h
      · cases h
      · split at h
        · cases h
        · cases h
          exact ⟨⟨hkeeps.delivery, hkeeps.now, hkeeps.installed, hkeeps.heads⟩, rfl⟩

theorem beginReconcile_heads {answer : ReconcileIntent × Bool}
    (h : beginReconcile w proposed = .ok (answer, w')) (row : Option HeadRow) :
    Function.update w'.heads proposed.key row = Function.update w.heads proposed.key row := by
  rcases ensureProjectionHead_eq w proposed.key with ⟨heads, heq, _, hset⟩
  unfold beginReconcile at h
  rw [heq] at h
  split at h
  · cases h
    exact hset row
  · split at h
    · cases h
      exact hset row
    · split at h
      · cases h
      · split at h
        · cases h
        · cases h
          exact hset row

theorem installHistoricalIdentity_ok (h : installHistoricalIdentity w intent f = .ok (b, w')) :
    Keeps w w' := by
  have hkeeps := keeps_ensureProjectionHead w intent.key
  unfold installHistoricalIdentity at h
  split at h
  · cases h
    exact hkeeps
  · split at h
    · cases h
    · next w₁ hledgers =>
        cases h
        rcases insertFactLedgers_eq hledgers with ⟨versions, events, rfl⟩
        exact ⟨hkeeps.delivery, hkeeps.now, hkeeps.installed, hkeeps.heads⟩

theorem insertAudit_eq {s : Snapshot} (h : insertAudit w intent s held = .ok w') :
    ∃ dlq alerts, w' = { w with dlq := dlq, alerts := alerts } := by
  unfold insertAudit at h
  split at h
  · cases h
  · cases h
    exact ⟨_, _, rfl⟩

theorem installSnapshotAndAudit_ok {s : Snapshot}
    (h : installSnapshotAndAudit w intent s held = .ok (b, w')) :
    Keeps w w' ∨ ∃ row, headRow s.projection.state = some row ∧
      Replaced w w' intent.key row [.snapshot s] := by
  unfold installSnapshotAndAudit at h
  split at h
  · cases h
    exact .inl (keeps_ensureProjectionHead w intent.key)
  · split at h
    · cases h
    · next row hrow =>
        split at h
        · cases h
        · rcases ensureProjectionHead_eq w intent.key with ⟨heads, heq, _, hset⟩
          rw [heq] at h
          split at h
          · cases h
          · next w₁ hledgers =>
              rcases insertLedgerRows_eq hledgers with ⟨versions, events, rfl⟩
              split at h
              · cases h
              · next w₂ haudit =>
                  cases h
                  rcases insertAudit_eq haudit with ⟨dlq, alerts, rfl⟩
                  exact .inr ⟨row, hrow, rfl, rfl, hset (some row), rfl⟩

theorem recordPoison_ok {u : Unit} (h : recordPoison w f = .ok (u, w')) : Keeps w w' := by
  unfold recordPoison at h
  split at h
  · cases h
  · cases h
    exact ⟨rfl, rfl, rfl, fun _ => .inl rfl⟩

end Store

end RelayPoint.RouteProjection
