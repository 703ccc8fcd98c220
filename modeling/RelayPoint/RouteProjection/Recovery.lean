import RelayPoint.Concurrency.Serial
import RelayPoint.Journal.Checkpoint
import RelayPoint.RouteProjection.Visibility

/-!
# Recovery — a gap in the route facts and a router that replays it

`RouteHistory` is what the router holds for one interaction, and `honest` the environment in which a
call of `Apply` should close a gap: the store works, tokens are new, and a replay is answered with the
requested range of the history.  Under these conditions every transaction on the way commits,
provided that the tables hold nothing that stands in its way.
-/

namespace RelayPoint.RouteProjection

open Concurrency Journal
open Participation (Key EventRow IntentRow fitsBigint isUuidv7)

/-! ## The router -/

structure RouteHistory where
  key : Key
  facts : List RouteFact
  keys : ∀ f ∈ facts, f.key = key
  valid : ∀ f ∈ facts, validateFact f = true
  versions : Consecutive RouteFact.version 0 facts
  distinct : (facts.map RouteFact.eventId).Nodup

namespace RouteHistory

variable (h : RouteHistory)

def answers (request : ReplayRequest) : Choice → Bool
  | .replayed (.ok replay) =>
    replay.facts = window h.facts (request.fromVersion - 1) request.toVersion &&
      request.toVersion ≤ replay.routerHead
  | _ => false

def honest (w : World) : Op → Choice → Bool
  | .ids, .id token => isUuidv7 token &&
      w.intents.rows.all fun row => ! (row.key.tenantId = h.key.tenantId && row.token = token)
  | .ids, _ => false
  | .replayRouteFacts _ request, ch => h.answers request ch
  | .getRouteSnapshot _ _, _ => true
  | .append _, _ => true
  | _, ch => ch = .go

abbrev Honest (w : World) (op : Op) (ch : Choice) : Prop :=
  h.honest w op ch = true

end RouteHistory

/-! ## Folding -/

structure Storable (s : FoldedState) : Prop where
  version : fitsBigint s.version = true
  generation : fitsBigint s.visibilityGeneration = true
  authorization : ∃ v, uuidColumn s.deliveryAuthorizationId = some v
  receipt : ∃ v, uuidColumn s.receiptId = some v

theorem Storable.headRow {s : FoldedState} (h : Storable s) : ∃ row, headRow s = some row := by
  rcases h.authorization with ⟨authorization, hauthorization⟩
  rcases h.receipt with ⟨receipt, hreceipt⟩
  simp [RouteProjection.headRow, h.version, h.generation, hauthorization, hreceipt]

theorem storable_state (row : HeadRow) : Storable row.state :=
  ⟨row.bounds.1, row.bounds.2, ⟨_, uuidColumn_uuidText _⟩, ⟨_, uuidColumn_uuidText _⟩⟩

theorem storable_apply {s : FoldedState} {f : RouteFact} (hs : Storable s)
    (hvalid : validateFact f = true) (hfits : fitsBigint f.version = true) : Storable (s.apply f) := by
  cases hkind : f.kind with
  | ringing =>
    simp only [validateFact, validKind, hkind, Bool.and_eq_true, decide_eq_true_eq] at hvalid
    obtain ⟨_, ⟨⟨hid, hreceipt⟩, hgeneration⟩, _⟩ := hvalid
    rcases uuidColumn_of_isUuidv7 hid with ⟨v, hv, _⟩
    rcases uuidColumn_of_isUuidv7 hreceipt with ⟨v', hv', _⟩
    refine ⟨?_, ?_, ⟨some v, ?_⟩, ⟨some v', ?_⟩⟩
    · simpa [FoldedState.apply, hkind] using hfits
    · simpa [FoldedState.apply, hkind, hgeneration] using hfits
    · simpa [FoldedState.apply, hkind] using hv
    · simpa [FoldedState.apply, hkind] using hv'
  | _ =>
    simp only [FoldedState.apply, hkind]
    exact ⟨hfits, hs.generation, hs.authorization, hs.receipt⟩

variable {facts : List RouteFact}

theorem storable_foldl : ∀ {s : FoldedState}, Storable s →
    (∀ f ∈ facts, validateFact f = true) → (∀ f ∈ facts, fitsBigint f.version = true) →
    Storable (facts.foldl FoldedState.apply s) := by
  induction facts with
  | nil =>
    intro s hs _ _
    exact hs
  | cons f fs ih =>
    intro s hs hvalid hfits
    exact ih (storable_apply hs (hvalid f (by simp)) (hfits f (by simp)))
      (fun g hg => hvalid g (by simp [hg])) (fun g hg => hfits g (by simp [hg]))

theorem foldFacts_eq (key : Key) : ∀ {s : FoldedState},
    (∀ f ∈ facts, validateFact f = true) → (∀ f ∈ facts, f.key = key) →
    Consecutive RouteFact.version s.version facts →
    foldFacts key s facts = .ok (facts.foldl FoldedState.apply s) := by
  induction facts with
  | nil =>
    intro s _ _ _
    rfl
  | cons f fs ih =>
    intro s hvalid hkeys hcons
    rcases consecutive_cons.1 hcons with ⟨hversion, hrest⟩
    have happly : (s.apply f).version = s.version + 1 := (version_apply s f).trans hversion
    have hrest := ih (fun g hg => hvalid g (by simp [hg]))
      (fun g hg => hkeys g (by simp [hg])) (happly ▸ hrest)
    simp [foldFacts, hvalid f (by simp), hversion, hkeys f (by simp), hrest]

theorem foldBatch_eq {p : Projection} (hne : facts ≠ [])
    (hvalid : ∀ f ∈ facts, validateFact f = true) (hkeys : ∀ f ∈ facts, f.key = p.key)
    (hcons : Consecutive RouteFact.version p.version facts) :
    foldBatch p facts = .ok (facts.foldl FoldedState.apply p.state) := by
  cases facts with
  | nil => exact absurd rfl hne
  | cons f fs =>
    have hkey : (if p.tenantId = "" then f.key else p.key) = p.key := by
      rw [hkeys f (by simp), ite_self]
    simp only [foldBatch, hkey]
    exact foldFacts_eq p.key hvalid hkeys hcons

/-! ## Transactions that commit -/

def eventRow (f : RouteFact) : EventRow :=
  ⟨f.key, f.eventId, f.version, hashRouteFact f⟩

structure World.Fresh (w : World) (f : RouteFact) : Prop where
  version : ∀ row ∈ w.versions.rows, ¬ VersionRow.Clash row (.of f)
  event : ∀ row ∈ w.events.rows, ¬ EventRow.Clash row (eventRow f)

instance (w : World) (f : RouteFact) : Decidable (w.Fresh f) :=
  decidable_of_iff ((∀ row ∈ w.versions.rows, ¬ VersionRow.Clash row (.of f)) ∧
    ∀ row ∈ w.events.rows, ¬ EventRow.Clash row (eventRow f))
    ⟨fun h => ⟨h.1, h.2⟩, fun h => ⟨h.version, h.event⟩⟩

def Separate (f g : RouteFact) : Prop :=
  f.version ≠ g.version ∧ f.eventId ≠ g.eventId

def storableFact (f : RouteFact) : Bool :=
  f.version ≠ 0 && fitsBigint f.version && jsonTime f.leaseUntil

section Commit

variable {w : World} {f : RouteFact}

theorem insertLedgerRows_total (row : VersionRow) (hpos : row.version ≠ 0)
    (hfits : fitsBigint row.version = true) (hversion : ∀ r ∈ w.versions.rows, ¬ VersionRow.Clash r row)
    (hevent : ∀ r ∈ w.events.rows,
      ¬ EventRow.Clash r ⟨row.key, row.eventId, row.version, row.hash⟩) :
    ∃ versions events,
      insertLedgerRows w row = .ok { w with versions := versions, events := events } ∧
      versions.rows = w.versions.rows ++ [row] ∧
      events.rows = w.events.rows ++ [⟨row.key, row.eventId, row.version, row.hash⟩] := by
  rcases Table.insert_of_free hversion with ⟨versions, hversions, hvrows⟩
  rcases Table.insert_of_free hevent with ⟨events, hevents, herows⟩
  refine ⟨versions, events, ?_, hvrows, herows⟩
  simp [insertLedgerRows, hpos, hfits, hversions, hevents]

theorem insertFactLedgers_total (hf : storableFact f = true) (hfresh : w.Fresh f) :
    ∃ versions events,
      insertFactLedgers w f = .ok { w with versions := versions, events := events } ∧
      versions.rows = w.versions.rows ++ [.of f] ∧ events.rows = w.events.rows ++ [eventRow f] := by
  simp only [storableFact, Bool.and_eq_true, decide_eq_true_eq] at hf
  obtain ⟨⟨hpos, hfits⟩, hjson⟩ := hf
  unfold insertFactLedgers
  rw [if_neg (by simpa using hjson)]
  exact insertLedgerRows_total (.of f) hpos hfits hfresh.version hfresh.event

theorem World.Fresh.of_insert {w' : World} {g : RouteFact} (hg : w.Fresh g) (hsep : Separate f g)
    (hversions : w'.versions.rows = w.versions.rows ++ [.of f])
    (hevents : w'.events.rows = w.events.rows ++ [eventRow f]) : w'.Fresh g where
  version := by
    intro row hrow
    rw [hversions] at hrow
    rcases List.mem_append.1 hrow with hrow | hrow
    · exact hg.version row hrow
    · obtain rfl : row = .of f := by simpa using hrow
      rintro ⟨_, hv⟩
      exact hsep.1 hv
  event := by
    intro row hrow
    rw [hevents] at hrow
    rcases List.mem_append.1 hrow with hrow | hrow
    · exact hg.event row hrow
    · obtain rfl : row = eventRow f := by simpa using hrow
      rintro (⟨_, hid⟩ | ⟨_, hv⟩)
      · exact hsep.2 hid
      · exact hsep.1 hv

variable {facts : List RouteFact}

theorem insertFacts_total : ∀ {w : World},
    (∀ f ∈ facts, storableFact f = true) → (∀ f ∈ facts, w.Fresh f) → facts.Pairwise Separate →
    ∃ versions events,
      insertFacts w facts = .ok { w with versions := versions, events := events } ∧
      versions.rows = w.versions.rows ++ facts.map .of ∧
      events.rows = w.events.rows ++ facts.map eventRow := by
  induction facts with
  | nil =>
    intro w _ _ _
    exact ⟨w.versions, w.events, rfl, by simp, by simp⟩
  | cons f fs ih =>
    intro w hst hfresh hsep
    rcases List.pairwise_cons.1 hsep with ⟨hsep, hseps⟩
    rcases insertFactLedgers_total (hst f (by simp)) (hfresh f (by simp)) with
      ⟨versions, events, hinsert, hversions, hevents⟩
    rcases ih (w := { w with versions := versions, events := events })
      (fun g hg => hst g (by simp [hg]))
      (fun g hg => (hfresh g (by simp [hg])).of_insert (hsep g hg) hversions hevents) hseps with
      ⟨versions', events', hrest, hversions', hevents'⟩
    refine ⟨versions', events', by simp [insertFacts, hinsert, hrest], ?_, ?_⟩
    · simp [hversions', hversions]
    · simp [hevents', hevents]

/-- The facts became the state of the head, and each has its rows in the ledgers. -/
structure Extended (w w' : World) (key : Key) (row : HeadRow) (facts : List RouteFact) : Prop
    extends Replaced w w' key row (facts.map .fact) where
  versions : w'.versions.rows = w.versions.rows ++ facts.map .of
  events : w'.events.rows = w.events.rows ++ facts.map eventRow

theorem Extended.headVersion {w' : World} {key : Key} {row : HeadRow}
    (h : Extended w w' key row facts) : w'.headVersion key = row.version := by
  simp [World.headVersion, h.heads]

theorem Store.installFacts_total (key : Key) {final : FoldedState}
    (hst : ∀ f ∈ facts, storableFact f = true) (hfresh : ∀ f ∈ facts, w.Fresh f)
    (hsep : facts.Pairwise Separate) (hfinal : Storable final) :
    ∃ row w', headRow final = some row ∧ Store.installFacts w key facts final = .ok w' ∧
      Extended w w' key row facts := by
  rcases ensureProjectionHead_eq w key with ⟨heads, heq, _, hset⟩
  have hfresh' : ∀ f ∈ facts, World.Fresh { w with heads } f :=
    fun f hf => ⟨(hfresh f hf).version, (hfresh f hf).event⟩
  rcases insertFacts_total hst hfresh' hsep with ⟨versions, events, hinsert, hversions, hevents⟩
  rcases hfinal.headRow with ⟨row, hrow⟩
  have hinstall : Store.installFacts w key facts final =
      .ok (World.setHead { w with heads, versions, events } key row (facts.map .fact)) := by
    simp only [Store.installFacts, heq, hinsert, hrow]
  exact ⟨row, _, hrow, hinstall, ⟨⟨rfl, rfl, hset (some row), rfl⟩, hversions, hevents⟩⟩

theorem Store.installBatch_total {final : FoldedState} (hf : f ∈ facts)
    (hkeys : ∀ g ∈ facts, g.key = f.key) (hst : ∀ f ∈ facts, storableFact f = true)
    (hfresh : ∀ f ∈ facts, w.Fresh f) (hsep : facts.Pairwise Separate) (hfinal : Storable final) :
    ∃ row w', headRow final = some row ∧
      Store.installBatch w (w.headVersion f.key) facts final = .ok (true, w') ∧
      Extended w w' f.key row facts := by
  rcases Store.installFacts_total f.key hst hfresh hsep hfinal with ⟨row, w', hrow, hinstall, hext⟩
  refine ⟨row, w', hrow, ?_, hext⟩
  cases facts with
  | nil => cases hf
  | cons g gs => simp [Store.installBatch, hkeys g (by simp), hinstall]

end Commit

/-! ## Reconciling -/

/-- No leftover of an earlier attempt blocks a reconcile at the present head: the interaction has no
pending intent, or one for just this request. -/
def World.unblocked (w : World) (held : RouteFact) : Bool :=
  (w.pendingIntent held.key).all fun row =>
    row.observedVersion = w.headVersion held.key &&
      row.requestedFrom = w.headVersion held.key + 1 && row.requestedTo = held.version &&
      row.heldEventId = held.eventId && row.heldHash = hashRouteFact held

structure Begun (w w' : World) (intent : ReconcileIntent) (held : RouteFact) : Prop where
  key : intent.key = held.key
  keeps : Keeps w w'
  versions : w'.versions = w.versions
  events : w'.events = w.events
  locked : w'.lockIntent intent = true

theorem headVersion_keeps {w w' : World} (h : Keeps w w') (key : Key) :
    w'.headVersion key = w.headVersion key := by
  unfold World.headVersion
  rcases h.heads key with hsame | ⟨hnone, hinitial⟩
  · rw [hsame]
  · rw [hnone, hinitial]
    rfl

section Reconcile

variable {w : World} {held : RouteFact} {token : String} {p : Projection}

theorem Store.beginReconcile_new (hversion : p.version = w.headVersion held.key)
    (hgap : p.version < held.version) (hfits : fitsBigint held.version = true)
    (hnone : w.pendingIntent held.key = none)
    (htoken : ∀ row ∈ w.intents.rows, ¬ (row.key.tenantId = held.key.tenantId ∧ row.token = token)) :
    ∃ w', Store.beginReconcile w (newIntent token p held false) =
        .ok ((newIntent token p held false, true), w') ∧
      Begun w w' (newIntent token p held false) held := by
  have hkey : (newIntent token p held false).key = held.key := rfl
  have hfree : ∀ row ∈ w.intents.rows, ¬ IntentRow.Clash row (newIntent token p held false).row := by
    rintro row hrow (hclash | ⟨hk, hstatus, _⟩)
    · exact htoken row hrow hclash
    · have := List.find?_eq_none.1 hnone row hrow
      exact this (decide_eq_true ⟨hk, hstatus⟩)
  rcases Table.insert_of_free hfree with ⟨intents, hintents, hrows⟩
  have hrange : ¬ ((newIntent token p held false).requestedFrom = 0 ∨
      (newIntent token p held false).requestedTo < (newIntent token p held false).requestedFrom ∨
      ¬ fitsBigint (newIntent token p held false).requestedTo) := by
    simp only [newIntent, Bool.false_eq_true, if_false]
    rintro (hzero | hlt | hbig)
    · omega
    · omega
    · exact hbig hfits
  have hbegin : Store.beginReconcile w (newIntent token p held false) =
      .ok ((newIntent token p held false, true),
        { w.ensureProjectionHead held.key with intents := intents }) := by
    unfold Store.beginReconcile
    rw [if_neg (by simpa [newIntent] using hversion.symm), hkey, hnone]
    simp only [hrange, if_false, hintents]
  have hkeeps := (Store.beginReconcile_ok hbegin).1
  rcases ensureProjectionHead_eq w held.key with ⟨heads, heq, _⟩
  refine ⟨_, hbegin, rfl, hkeeps, by simp [heq], by simp [heq], ?_⟩
  have hhead := headVersion_keeps hkeeps held.key
  simp only [World.lockIntent, hkey, hhead, Bool.and_eq_true, decide_eq_true_eq]
  refine ⟨hversion.symm, List.any_eq_true.2 ⟨(newIntent token p held false).row, ?_, ?_⟩⟩
  · simp [hrows]
  · simp [ReconcileIntent.row, hkey]

theorem Store.beginReconcile_resume (hversion : p.version = w.headVersion held.key)
    {row : IntentRow} (hrow : w.pendingIntent held.key = some row)
    (hobs : row.observedVersion = w.headVersion held.key)
    (hfrom : row.requestedFrom = w.headVersion held.key + 1) (hto : row.requestedTo = held.version)
    (hid : row.heldEventId = held.eventId) (hhash : row.heldHash = hashRouteFact held) :
    ∃ w', Store.beginReconcile w (newIntent token p held false) =
        .ok ((retainedIntent row, true), w') ∧ Begun w w' (retainedIntent row) held := by
  have hkey : (newIntent token p held false).key = held.key := rfl
  have hbegin : Store.beginReconcile w (newIntent token p held false) =
      .ok ((retainedIntent row, true), w.ensureProjectionHead held.key) := by
    unfold Store.beginReconcile
    rw [hkey, hrow]
    simp [newIntent, hobs, hfrom, hto, hid, hhash, hversion]
  have hkeeps := (Store.beginReconcile_ok hbegin).1
  rcases mem_pendingIntent hrow with ⟨hmem, hrkey, hstatus⟩
  rcases ensureProjectionHead_eq w held.key with ⟨heads, heq, _⟩
  refine ⟨_, hbegin, hrkey, hkeeps, by simp [heq], by simp [heq], ?_⟩
  have hhead := headVersion_keeps hkeeps held.key
  have hintents : (w.ensureProjectionHead held.key).intents = w.intents := by simp [heq]
  simp only [World.lockIntent, World.pendingIntentMatches, retainedIntent, hrkey, hhead, hintents,
    Bool.and_eq_true, decide_eq_true_eq]
  exact ⟨hobs.symm, List.any_eq_true.2 ⟨row, hmem, by simp [hrkey, hstatus]⟩⟩

theorem Store.beginReconcile_total (hversion : p.version = w.headVersion held.key)
    (hgap : p.version < held.version) (hfits : fitsBigint held.version = true)
    (hclear : w.unblocked held = true)
    (htoken : ∀ row ∈ w.intents.rows, ¬ (row.key.tenantId = held.key.tenantId ∧ row.token = token)) :
    ∃ intent w', Store.beginReconcile w (newIntent token p held false) = .ok ((intent, true), w') ∧
      Begun w w' intent held := by
  unfold World.unblocked at hclear
  cases hrow : w.pendingIntent held.key with
  | none => exact ⟨_, Store.beginReconcile_new hversion hgap hfits hrow htoken⟩
  | some row =>
    rw [hrow] at hclear
    simp only [Option.all_some, Bool.and_eq_true, decide_eq_true_eq] at hclear
    obtain ⟨⟨⟨⟨hobs, hfrom⟩, hto⟩, hid⟩, hhash⟩ := hclear
    exact ⟨_, Store.beginReconcile_resume hversion hrow hobs hfrom hto hid hhash⟩

theorem Store.installReconcileBatch_total {w₁ : World} {intent : ReconcileIntent}
    {final : FoldedState} (hb : Begun w w₁ intent held)
    (hheads : ∀ row, Function.update w₁.heads held.key row = Function.update w.heads held.key row)
    (hne : facts ≠ []) (hst : ∀ f ∈ facts, storableFact f = true) (hfresh : ∀ f ∈ facts, w.Fresh f)
    (hsep : facts.Pairwise Separate) (hfinal : Storable final) :
    ∃ row w', headRow final = some row ∧
      Store.installReconcileBatch w₁ intent facts final = .ok (true, w') ∧
      Extended w w' held.key row facts := by
  have hfresh₁ : ∀ f ∈ facts, w₁.Fresh f := by
    intro f hf
    refine ⟨?_, ?_⟩
    · rw [hb.versions]
      exact (hfresh f hf).version
    · rw [hb.events]
      exact (hfresh f hf).event
  rcases Store.installFacts_total intent.key hst hfresh₁ hsep hfinal with
    ⟨row, w₂, hrow, hinstall, hext⟩
  refine ⟨row, w₂.completeIntent intent.key.tenantId intent.token .installed, hrow, ?_, ?_⟩
  · simp [Store.installReconcileBatch, hne, hb.locked, hinstall]
  · rw [hb.key] at hext
    exact
      { delivery := hext.delivery.trans hb.keeps.delivery
        now := hext.now.trans hb.keeps.now
        heads := hext.heads.trans (hheads (some row))
        installed := by
          have := hext.installed
          rwa [hb.keeps.installed] at this
        versions := by
          have := hext.versions
          rwa [hb.versions] at this
        events := by
          have := hext.events
          rwa [hb.events] at this }

end Reconcile

/-! ## Closing the gap -/

def World.state (w : World) (key : Key) : FoldedState :=
  ((w.heads key).getD HeadRow.initial).state

theorem version_state (w : World) (key : Key) : (w.state key).version = w.headVersion key := by
  unfold World.state World.headVersion
  cases w.heads key <;> rfl

/-- Facts that continue the head of an interaction, with nothing in the way: they fit the columns, the
ledgers have no rows for them, and deliveries were accepted for the ringing ones. -/
structure Missing (w : World) (key : Key) (facts : List RouteFact) : Prop where
  keys : ∀ f ∈ facts, f.key = key
  valid : ∀ f ∈ facts, validateFact f = true
  versions : Consecutive RouteFact.version (w.headVersion key) facts
  separate : facts.Pairwise Separate
  storable : ∀ f ∈ facts, storableFact f = true
  fresh : ∀ f ∈ facts, w.Fresh f
  bound : ∀ f ∈ facts, f.kind = .ringing → w.bound f

def Op.stored : Op → Bool
  | .append _ => false
  | .ids => false
  | .replayRouteFacts _ _ => false
  | .getRouteSnapshot _ _ => false
  | _ => true

def Working (ok : World → Op → Choice → Prop) : Prop :=
  ∀ {w : World} {op : Op} {ch : Choice}, op.stored = true → ok w op ch → ch = .go

/-- Besides, tokens are new, and the router replays these facts when the range up to the held one is
asked for. -/
structure Supplies (ok : World → Op → Choice → Prop) (fromVersion : Nat) (held : RouteFact)
    (facts : List RouteFact) : Prop where
  store : Working ok
  ids : ∀ {w : World} {ch : Choice}, ok w .ids ch → ∃ token, ch = .id token ∧ isUuidv7 token = true ∧
    ∀ row ∈ w.intents.rows, ¬ (row.key.tenantId = held.key.tenantId ∧ row.token = token)
  replay : ∀ {w : World} {principal : ProjectionPrincipal} {ch : Choice},
    ok w (.replayRouteFacts principal ⟨held.key, fromVersion, held.version⟩) ch →
      ∃ replay : ReplayResult, ch = .replayed (.ok replay) ∧ replay.facts = facts ∧
        held.version ≤ replay.routerHead

def Recovered (w : World) (key : Key) (facts : List RouteFact) (o : Outcome) (w' : World) : Prop :=
  o = ⟨some .applied, none⟩ ∧ ∃ row, headRow (facts.foldl FoldedState.apply (w.state key)) = some row ∧
    Extended w w' key row facts

section Close

variable {ok : World → Op → Choice → Prop} {P : World → Prop} {w : World} {held : RouteFact}
  {facts : List RouteFact} {p : Projection} {intent : ReconcileIntent}

theorem Missing.fits (hm : Missing w held.key facts) :
    ∀ f ∈ facts, fitsBigint f.version = true := by
  intro f hf
  have := hm.storable f hf
  simp only [storableFact, Bool.and_eq_true] at this
  exact this.1.2

theorem Missing.storable_final (hm : Missing w held.key facts) :
    Storable (facts.foldl FoldedState.apply (w.state held.key)) :=
  storable_foldl (storable_state _) hm.valid hm.fits

theorem Missing.fold (hm : Missing w held.key facts) (hne : facts ≠ []) (hp : p.key = held.key)
    (hstate : p.state = w.state held.key) :
    foldBatch p facts = .ok (facts.foldl FoldedState.apply (w.state held.key)) := by
  rw [← hstate]
  refine foldBatch_eq hne hm.valid (fun f hf => (hm.keys f hf).trans hp.symm) ?_
  rw [Projection.version, hstate, version_state]
  exact hm.versions

theorem Recovered.headVersion {o : Outcome} {w' : World} (h : Recovered w held.key facts o w')
    (hlast : facts.getLast? = some held) : w'.headVersion held.key = held.version := by
  rcases h with ⟨_, row, hrow, hext⟩
  rcases List.getLast?_eq_some_iff.1 hlast with ⟨init, rfl⟩
  rw [hext.headVersion, (headRow_some hrow).1, List.foldl_append]
  exact version_apply _ held

theorem transact_go {α : Type} {w' : World} {tx : Except Err (α × World)} {a : α}
    (h : tx = .ok (a, w')) : transact w tx .go = some (.ok a, w') := by
  rw [h]
  rfl

theorem through_validateAuthorizationBindings (hok : Working ok) (hP : P w)
    (hbound : ∀ f ∈ facts, f.kind = .ringing → w.bound f) :
    ServesThrough machine ok P (fun res w' => res = .ok () ∧ w' = w)
      (validateAuthorizationBindings facts) w := by
  induction facts with
  | nil => exact servesThrough_pure ⟨rfl, rfl⟩
  | cons f fs ih =>
    have hrest := ih fun g hg => hbound g (by simp [hg])
    unfold validateAuthorizationBindings
    by_cases hring : f.kind = .ringing
    · simp only [hring]
      rcases hbound f (by simp) hring with ⟨t, a, ht, ha, row, hrow, hkey, hinteraction, hreceipt⟩
      have hauth : Store.authorization w f.tenantId f.deliveryAuthorizationId =
          .ok (some (f.interactionId, f.receiptId)) := by
        have hfound := Delivery.authorization_of_mem hrow
        rw [hkey] at hfound
        simp [Store.authorization, ht, ha, hfound, hinteraction, hreceipt]
      refine servesThrough_perform hP ?_
      intro ch hch
      obtain rfl := hok rfl hch
      refine ⟨.ok (some (f.interactionId, f.receiptId)), w, ?_, ?_⟩
      · change readAnswer w (Store.authorization w f.tenantId f.deliveryAuthorizationId) .go = _
        rw [hauth]
        rfl
      · simpa using hrest
    · simpa only [hring, ne_eq, not_false_eq_true, if_true] using hrest

theorem through_load (hok : Working ok) (hP : P w) (key : Key) {version : Nat}
    (htenant : isUuidv7 key.tenantId = true) (hinteraction : isUuidv7 key.interactionId = true)
    (hv : version ≠ 0) (hfits : fitsBigint version = true)
    {Q : Except Err (Projection × Option Identity) → World → Prop}
    (hQ : ∀ p : Projection, p.key = key → p.state = w.state key →
      Q (.ok (p, w.retained key version)) w) :
    ServesThrough machine ok P Q (load key.tenantId key.interactionId version) w := by
  have hkey : uuidKey key.tenantId key.interactionId = some key := by
    simp [uuidKey, (uuidIn_of_isUuidv7 htenant).1, (uuidIn_of_isUuidv7 hinteraction).1]
  refine servesThrough_perform hP ?_
  intro ch hch
  obtain rfl := hok rfl hch
  refine ⟨.ok w.now, w, rfl, servesThrough_perform hP ?_⟩
  intro ch hch
  obtain rfl := hok rfl hch
  refine ⟨.ok (w.heads key), w, ?_, ?_⟩
  · simp only [machine, perform, hkey]
    rfl
  · dsimp only
    unfold loadLedger
    rw [if_neg hv]
    refine servesThrough_perform hP ?_
    intro ch hch
    obtain rfl := hok rfl hch
    refine ⟨.ok (w.retained key version), w, ?_, servesThrough_pure (hQ _ rfl rfl)⟩
    simp only [machine, perform, hkey, hfits]
    rfl

theorem coversHeld_of_last {replay : ReplayResult} (hlast : replay.facts.getLast? = some held)
    (hhead : held.version ≤ replay.routerHead) : coversHeld held replay = true := by
  have hany : replay.facts.any (fun f => f.version = held.version && f.eventId = held.eventId &&
      hashRouteFact f = hashRouteFact held) = true :=
    List.any_eq_true.2 ⟨held, List.mem_of_getLast? hlast, by simp⟩
  simp [coversHeld, hlast, hhead, hany]

theorem through_replayGap {w₁ : World} {replay : ReplayResult} (hok : Working ok)
    (hm : Missing w held.key facts) (hlast : facts.getLast? = some held) (hp : p.key = held.key)
    (hstate : p.state = w.state held.key) (hb : Begun w w₁ intent held)
    (hheads : ∀ row, Function.update w₁.heads held.key row = Function.update w.heads held.key row)
    (hfacts : replay.facts = facts) (hhead : held.version ≤ replay.routerHead) :
    ServesThrough machine ok (Keeps w) (Recovered w held.key facts) (replayGap p intent held replay)
      w₁ := by
  have hne : facts ≠ [] := List.ne_nil_of_mem (List.mem_of_getLast? hlast)
  have hcovers := coversHeld_of_last (hfacts ▸ hlast) hhead
  have hbound : ∀ f ∈ facts, f.kind = .ringing → w₁.bound f :=
    fun f hf hring => bound_mono (hm.bound f hf hring) hb.keeps.grows
  have hcheck : ¬ facts.any (fun f => f.key ≠ held.key) = true := by
    rw [List.any_eq_true]
    rintro ⟨f, hf, hne⟩
    exact (of_decide_eq_true hne) (hm.keys f hf)
  unfold replayGap
  rw [hfacts, if_neg hcheck]
  refine servesThrough_bind (ServesThrough.mono (fun _ h => h) ?_
    (through_validateAuthorizationBindings hok hb.keeps hbound))
  rintro res w' ⟨rfl, rfl⟩
  simp only [hm.fold hne hp hstate, hcovers]
  rcases Store.installReconcileBatch_total hb hheads hne hm.storable hm.fresh hm.separate
    hm.storable_final with ⟨row, w₂, hrow, hinstall, hext⟩
  refine servesThrough_perform hb.keeps ?_
  intro ch hch
  obtain rfl := hok rfl hch
  exact ⟨.ok true, w₂, transact_go hinstall, servesThrough_pure ⟨rfl, row, hrow, hext⟩⟩

theorem through_reconcile (hs : Supplies ok (w.headVersion held.key + 1) held facts)
    (hm : Missing w held.key facts) (hlast : facts.getLast? = some held) (hp : p.key = held.key)
    (hstate : p.state = w.state held.key) (hgap : w.headVersion held.key < held.version)
    (hclear : w.unblocked held = true) :
    ServesThrough machine ok (Keeps w) (Recovered w held.key facts) (reconcile p held false) w := by
  have hversion : p.version = w.headVersion held.key := by
    rw [Projection.version, hstate, version_state]
  have hfits := hm.fits held (List.mem_of_getLast? hlast)
  refine servesThrough_perform (Keeps.refl w) ?_
  intro ch hch
  rcases hs.ids hch with ⟨token, rfl, huuid, htoken⟩
  refine ⟨token, w, by simp [machine, perform, huuid], ?_⟩
  simp only [huuid]
  rcases Store.beginReconcile_total hversion (hversion ▸ hgap) hfits hclear htoken with
    ⟨intent, w₁, hbegin, hb⟩
  refine servesThrough_perform (Keeps.refl w) ?_
  intro ch hch
  obtain rfl := hs.store rfl hch
  refine ⟨.ok (intent, true), w₁, transact_go hbegin, ?_⟩
  -- The router answers the request with the gap.
  refine servesThrough_perform hb.keeps ?_
  intro ch hch
  simp only [newIntent, hversion] at hch
  rcases hs.replay hch with ⟨replay, rfl, hfacts, hhead⟩
  exact ⟨.ok replay, w₁, rfl, through_replayGap hs.store hm hlast hp hstate hb
    (Store.beginReconcile_heads hbegin) hfacts hhead⟩

theorem through_apply (hok : Working ok) (hP : P w) (hvalid : validateFact held = true)
    (hfits : fitsBigint held.version = true) {Q : Outcome → World → Prop}
    (h : ∀ p : Projection, p.key = held.key → p.state = w.state held.key →
      ServesThrough machine ok P Q (applyLoaded held p (w.retained held.key held.version)) w) :
    ServesThrough machine ok P Q (apply held) w := by
  have hids := hvalid
  simp only [validateFact, Bool.and_eq_true, decide_eq_true_eq] at hids
  obtain ⟨⟨⟨⟨htenant, hinteraction⟩, _⟩, hpos⟩, _⟩ := hids
  unfold apply
  simp only [hvalid]
  exact servesThrough_bind (through_load hok hP held.key htenant hinteraction hpos hfits h)

theorem through_apply_gap (hs : Supplies ok (w.headVersion held.key + 1) held facts)
    (hm : Missing w held.key facts) (hlast : facts.getLast? = some held)
    (hgap : w.headVersion held.key + 1 < held.version) (hclear : w.unblocked held = true) :
    ServesThrough machine ok (Keeps w) (Recovered w held.key facts) (apply held) w := by
  have hmem := List.mem_of_getLast? hlast
  refine through_apply hs.store (Keeps.refl w) (hm.valid held hmem) (hm.fits held hmem) ?_
  intro p hp hstate
  have hversion : p.version = w.headVersion held.key := by
    rw [Projection.version, hstate, version_state]
  have hnot : ¬ held.version ≤ p.version := by omega
  have habove : p.version + 1 < held.version := by omega
  simp only [applyLoaded, hnot, habove]
  exact through_reconcile hs hm hlast hp hstate (by omega) hclear

end Close

/-! ## An honest router -/

section Honest

variable {h : RouteHistory} {w : World} {held : RouteFact}

def RouteHistory.gap (h : RouteHistory) (w : World) (held : RouteFact) : List RouteFact :=
  window h.facts (w.headVersion h.key) held.version

theorem RouteHistory.separate (h : RouteHistory) : h.facts.Pairwise Separate :=
  List.pairwise_and_iff.2 ⟨h.versions.pairwise_ne, List.pairwise_map.1 h.distinct⟩

/-- Nothing stands in the way of the missing facts: they fit the columns, the ledgers have no rows
for them, and deliveries were accepted for the ringing ones. -/
structure RouteHistory.Room (h : RouteHistory) (w : World) (held : RouteFact) : Prop where
  storable : ∀ f ∈ h.gap w held, storableFact f = true
  fresh : ∀ f ∈ h.gap w held, w.Fresh f
  bound : ∀ f ∈ h.gap w held, f.kind = .ringing → w.bound f

theorem RouteHistory.missing (hroom : h.Room w held) : Missing w h.key (h.gap w held) where
  keys := fun f hf => h.keys f (window_subset f hf)
  valid := fun f hf => h.valid f (window_subset f hf)
  versions := h.versions.window
  separate := pairwise_window h.separate
  storable := hroom.storable
  fresh := hroom.fresh
  bound := hroom.bound

theorem RouteHistory.getLast_gap (hheld : held ∈ h.facts) (hgap : w.headVersion h.key < held.version) :
    (h.gap w held).getLast? = some held := by
  have hlen := h.versions.length_window (m := w.headVersion h.key) hheld
  exact h.versions.window.getLast_eq (h.versions.mem_window hheld hgap) (by omega)

theorem RouteHistory.working : Working h.Honest := by
  intro w op ch hop hok
  cases op with
  | append _ | ids | replayRouteFacts _ _ | getRouteSnapshot _ _ => cases hop
  | _ => simpa [RouteHistory.Honest, RouteHistory.honest] using hok

theorem RouteHistory.supplies (hheld : held ∈ h.facts) :
    Supplies h.Honest (w.headVersion h.key + 1) held (h.gap w held) where
  store := RouteHistory.working
  ids := by
    intro w' ch hok
    cases ch with
    | id token =>
      simp only [RouteHistory.Honest, RouteHistory.honest, Bool.and_eq_true, List.all_eq_true,
        Bool.not_eq_true', Bool.and_eq_false_iff, decide_eq_false_iff_not] at hok
      refine ⟨token, rfl, hok.1, ?_⟩
      rintro row hrow ⟨htenant, htoken⟩
      have hkey := h.keys held hheld
      exact (hok.2 row hrow).elim (· (htenant.trans (congrArg Key.tenantId hkey))) (· htoken)
    | _ => simp [RouteHistory.Honest, RouteHistory.honest] at hok
  replay := by
    intro w' principal ch hok
    have hans : h.answers ⟨held.key, w.headVersion h.key + 1, held.version⟩ ch = true := hok
    unfold RouteHistory.answers at hans
    split at hans
    · next replay =>
        simp only [Bool.and_eq_true, decide_eq_true_eq] at hans
        exact ⟨replay, rfl, hans.1, hans.2⟩
    · cases hans

/-- With an honest router and a working store a gap is closed, from any state of the tables in which
no leftover of an earlier attempt stands in the way and there is room for the missing facts. -/
theorem route_gap_closed (hheld : held ∈ h.facts) (hgap : w.headVersion h.key + 1 < held.version)
    (hclear : w.unblocked held = true) (hroom : h.Room w held) :
    Serves machine h.Honest
      (fun o w' => o = ⟨some .applied, none⟩ ∧ w'.headVersion h.key = held.version)
      (apply held) w := by
  have hkey := h.keys held hheld
  have hmissing := RouteHistory.missing hroom
  have hlast := RouteHistory.getLast_gap hheld (Nat.lt_of_succ_lt hgap)
  have hsupplies := RouteHistory.supplies (w := w) hheld
  rw [← hkey] at hgap hmissing hsupplies ⊢
  refine Serves.mono ?_ (through_apply_gap hsupplies hmissing hlast hgap hclear).serves
  intro o w' hrec
  exact ⟨hrec.1, hrec.headVersion hlast⟩

end Honest

/-! ## An intent that outlives its head -/

namespace Scenario

open Delivery.Scenario (request receiptId corex)

def first : RouteFact :=
  { ringing with
    eventId := "018f4000-0000-7000-8000-000000000042", version := 1, kind := .reserved
    visibilityGeneration := 0, leaseUntil := 0 }

def second : RouteFact :=
  { first with eventId := "018f4000-0000-7000-8000-000000000043", version := 2 }

def third : RouteFact :=
  { ringing with version := 3, visibilityGeneration := 3 }

def token : String := "018f4000-0000-7000-8000-000000000051"
def token₂ : String := "018f4000-0000-7000-8000-000000000052"

def history : RouteHistory where
  key := key
  facts := [first, second, third]
  keys := by decide
  valid := by decide +kernel
  versions := consecutive_cons.2 ⟨rfl, consecutive_cons.2 ⟨rfl, consecutive_cons.2
    ⟨rfl, consecutive_nil⟩⟩⟩
  distinct := by decide

def accepted : Schedule :=
  [.spawn (.acceptDelivery corex ⟨request, [], []⟩)] ++ acts 0 [.id receiptId, .sequence 1 false]

def replayFailed : Schedule :=
  accepted ++ [.spawn (.apply first)] ++ acts 1 [.go, .go, .go, .go] ++ [.spawn (.apply third)] ++
    acts 2 [.go, .go, .go, .id token, .go, .replayed (.error [])]

def headMoved : Schedule :=
  accepted ++ [.spawn (.apply third)] ++ acts 1 [.go, .go, .go, .id token, .go, .replayed (.error [])] ++
    [.spawn (.apply first)] ++ acts 2 [.go, .go, .go, .go]

def idle (c : Config Ans Call World Res) : Bool :=
  c.pool.all fun th =>
    match th.prog with
    | .ret _ => true
    | .call _ _ => false

def hasRoom (w : World) : Bool :=
  (history.gap w third).all fun f => storableFact f && decide (w.Fresh f) &&
    (f.kind ≠ .ringing || Store.authorization w f.tenantId f.deliveryAuthorizationId =
      .ok (some (f.interactionId, f.receiptId)))

theorem room_of_hasRoom {w : World} (h : hasRoom w = true) : history.Room w third := by
  have hall : ∀ f ∈ history.gap w third, (storableFact f = true ∧ w.Fresh f) ∧
      (f.kind ≠ .ringing ∨ Store.authorization w f.tenantId f.deliveryAuthorizationId =
        .ok (some (f.interactionId, f.receiptId))) := by
    simpa only [hasRoom, List.all_eq_true, Bool.and_eq_true, Bool.or_eq_true, decide_eq_true_eq]
      using h
  refine ⟨fun f hf => (hall f hf).1.1, fun f hf => (hall f hf).1.2, fun f hf hring => ?_⟩
  exact bound_of_authorization ((hall f hf).2.resolve_left (not_not.2 hring))

end Scenario

open Scenario in
theorem route_gap_closed_replayFailed :
    ∃ c : Config Ans Call World Res, Reachable machine serve anything (World.empty start) c ∧
      idle c = true ∧ c.world.headVersion key + 1 < third.version ∧
      Serves machine history.Honest
        (fun o w => o = ⟨some .applied, none⟩ ∧ w.headVersion key = third.version)
        (apply third) c.world := by
  have hrun : (run machine serve anything replayFailed ⟨World.empty start, []⟩).map
      (fun c => (idle c, c.world.headVersion key, c.world.unblocked third, hasRoom c.world)) =
        some (true, 1, true, true) := by
    decide +kernel
  rcases exists_of_run hrun with ⟨c, hc, hvalue⟩
  simp only [Prod.mk.injEq] at hvalue
  rcases hvalue with ⟨hidle, hhead, hclear, hroom⟩
  have hgap : c.world.headVersion key + 1 < third.version := by
    rw [hhead]
    decide
  exact ⟨c, hc, hidle, hgap,
    route_gap_closed (h := history) (by simp [history]) hgap hclear (room_of_hasRoom hroom)⟩

open Scenario in
/-- The intent observed version 0.  At head 1 it makes every later attempt a lost compare-and-set. -/
theorem route_gap_wedged :
    ∃ c : Config Ans Call World Res, Reachable machine serve anything (World.empty start) c ∧
      idle c = true ∧ c.world.headVersion key + 1 < third.version ∧ third ∈ history.facts ∧
      history.Room c.world third ∧
      ¬ Serves machine history.Honest
        (fun o w => o = ⟨some .applied, none⟩ ∧ w.headVersion key = third.version)
        (apply third) c.world := by
  have hrun : (run machine serve anything headMoved ⟨World.empty start, []⟩).map
      (fun c => (idle c, c.world.headVersion key, hasRoom c.world,
        (exec machine history.Honest [.go, .go, .go, .id token₂, .go] (apply third) c.world).map
          fun p => (p.1, p.2.headVersion key))) =
        some (true, 1, true, some (⟨some .compareAndSetLost, none⟩, 1)) := by
    decide +kernel
  rcases exists_of_run hrun with ⟨c, hc, hvalue⟩
  simp only [Prod.mk.injEq] at hvalue
  rcases hvalue with ⟨hidle, hhead, hroom, hexec⟩
  rcases Option.map_eq_some_iff.1 hexec with ⟨⟨o, w⟩, hexec, heq⟩
  refine ⟨c, hc, hidle, by rw [hhead]; decide, by simp [history], room_of_hasRoom hroom,
    fun hserves => ?_⟩
  have ho := (hserves.exec hexec).1
  simp only [Prod.mk.injEq] at heq
  rw [heq.1] at ho
  cases ho

end RelayPoint.RouteProjection
