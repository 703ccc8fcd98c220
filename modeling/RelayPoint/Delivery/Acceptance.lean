import RelayPoint.RouteProjection.Machine

/-!
# Acceptance — the delivery service under concurrent and repeated requests

`acceptDelivery` is the service's `AcceptDelivery`.  An authorization is sent again whenever its
sender is not sure that it got through, and several requests for one authorization may be on their way
at the same time.  The tables then hold one row for it each, every request that succeeds gets the same
receipt, and the receipt is the one that waits in the outbox.
-/

namespace RelayPoint.Delivery

open Concurrency RouteProjection
open Participation (isUuidv7)

/-! ## The service -/

structure Principal where
  serviceId : String
  tenantId : String
  capabilities : List String
  deriving DecidableEq, Repr

def capabilityDeliveryWrite : String := "corex-delivery-write"
def issuerServiceId : String := "relaypoint"

def appendInput (normalized : DeliveryAuthorization) (receiptId : String) : AppendInput where
  authorization := normalized.content
  receiptId := receiptId
  issuerService := issuerServiceId
  requestHash := authorizationHash normalized.content
  requestBody := normalized.marshal

def acceptedReceipt (normalized : DeliveryAuthorization) (result : AppendResult) :
    DeliveryReceipt where
  receiptId := result.receiptId
  deliveryAuthorizationId := normalized.content.deliveryAuthorizationId
  eventId := normalized.content.eventId
  tenantId := normalized.content.tenantId
  reservationId := normalized.content.reservationId
  interactionId := normalized.content.interactionId
  targetSubscriberId := normalized.content.targetSubscriberId
  acceptedAt := timestampNew result.acceptedAt
  deliveryDeadline := normalized.content.deliveryDeadline
  logSequence := result.logSequence
  issuerServiceId := issuerServiceId
  visibility := .pendingNotVisible

def acceptNormalized (normalized : DeliveryAuthorization) :
    Program (Except Err DeliveryReceipt) := do
  let receiptId ← Prog.perform Op.ids
  match requireUuidv7 "receipt_id" receiptId with
  | some detail => return .error (.invalidAuthorization detail)
  | none =>
    match ← Prog.perform (Op.append (appendInput normalized receiptId)) with
    | .error e => return .error e
    | .ok result => return .ok (acceptedReceipt normalized result)

def checkRequest (principal : Principal) (authorization : DeliveryAuthorization) : Except Err Unit :=
  if principal.serviceId ≠ "corex" then .error .unauthenticated
  else if capabilityDeliveryWrite ∉ principal.capabilities then .error .permissionDenied
  else if principal.tenantId = "" ∨ principal.tenantId ≠ authorization.content.tenantId then
    .error .permissionDenied
  else validateAuthorization authorization.content

def acceptDelivery (principal : Principal) (authorization : DeliveryAuthorization) :
    Program (Except Err DeliveryReceipt) :=
  match checkRequest principal authorization with
  | .error e => return .error e
  | .ok () => acceptNormalized (normalizeAuthorization authorization)

theorem valid_of_checkRequest {p : Principal} {a : DeliveryAuthorization}
    (h : checkRequest p a = .ok ()) : validateAuthorization a.content = .ok () := by
  unfold checkRequest at h
  split_ifs at h
  exact h

/-! ## Entries -/

structure Entry where
  content : Content
  valid : validateAuthorization content = .ok ()
  result : AppendResult

namespace Entry

def input (e : Entry) : AppendInput :=
  appendInput ⟨e.content, [], []⟩ e.result.receiptId

def receipt (e : Entry) : DeliveryReceipt :=
  receiptFromAppend e.input e.result

end Entry

theorem acceptedReceipt_eq (a : DeliveryAuthorization) (e : Entry) (h : a.content = e.content) :
    acceptedReceipt (normalizeAuthorization a) e.result = e.receipt := by
  simp [acceptedReceipt, Entry.receipt, receiptFromAppend, Entry.input, appendInput,
    normalizeAuthorization, h]

structure Recorded (t : Tables) (entries : List Entry) : Prop where
  log : t.log.rows = entries.map fun e => .of e.input e.result
  authorizations : t.authorizations.rows = entries.map fun e => .of e.input e.result
  outbox : t.outbox.rows = entries.map fun e => .of e.input e.result

section Recorded

variable {t t' : Tables} {entries : List Entry}

theorem Recorded.count (h : Recorded t entries) (key : Key) :
    ∃ n ≤ 1, t.log.rows.countP (fun r => r.key = key) = n ∧
      t.authorizations.rows.countP (fun r => r.key = key) = n ∧
      t.outbox.rows.countP (fun r => r.key = key) = n := by
  refine ⟨entries.countP fun e => e.content.key = key, ?_, ?_, ?_, ?_⟩
  · have hle := t.authorizations.countP_le_one AuthorizationRow.key (fun h => .inl h) key
    rw [h.authorizations, List.countP_map] at hle
    exact hle
  · rw [h.log, List.countP_map]
    rfl
  · rw [h.authorizations, List.countP_map]
    rfl
  · rw [h.outbox, List.countP_map]
    rfl

theorem Recorded.append (h : Recorded t entries) (e : Entry) (hacc : Accepted t t' e.input e.result) :
    Recorded t' (entries ++ [e]) where
  log := by simp [hacc.log, h.log]
  authorizations := by simp [hacc.authorizations, h.authorizations]
  outbox := by simp [hacc.outbox, h.outbox]

end Recorded

/-! ## Discipline -/

structure Grows (w w' : World) : Prop where
  log : w.delivery.log.rows <+: w'.delivery.log.rows
  authorizations : w.delivery.authorizations.rows <+: w'.delivery.authorizations.rows
  outbox : w.delivery.outbox.rows <+: w'.delivery.outbox.rows

theorem Grows.refl (w : World) : Grows w w :=
  ⟨List.prefix_rfl, List.prefix_rfl, List.prefix_rfl⟩

theorem Grows.trans {w₁ w₂ w₃ : World} (h : Grows w₁ w₂) (h' : Grows w₂ w₃) : Grows w₁ w₃ :=
  ⟨h.log.trans h'.log, h.authorizations.trans h'.authorizations, h.outbox.trans h'.outbox⟩

theorem Accepted.grows {w w' : World} {input : AppendInput} {result : AppendResult}
    (h : Accepted w.delivery w'.delivery input result) : Grows w w' :=
  ⟨by simp [h.log], by simp [h.authorizations], by simp [h.outbox]⟩

def discipline (Sent : Content → Prop) : Discipline World where
  Inv := fun w => ∃ entries, Recorded w.delivery entries ∧ ∀ e ∈ entries, Sent e.content
  Rely := Grows
  Guar := Grows
  refl := Grows.refl
  trans := Grows.trans

def CollisionFree (Sent : Content → Prop) : Prop :=
  ∀ c d, Sent c → Sent d → authorizationHash c = authorizationHash d →
    c.requestBytes = d.requestBytes

/-- What a finished call says about the tables.  `w₀` is the world in which it started. -/
def Answered (call : Principal × DeliveryAuthorization) (w₀ : World)
    (res : Except Err DeliveryReceipt) (w : World) : Prop :=
  match res with
  | .ok receipt => ∃ e : Entry, e.content = call.2.content ∧ receipt = e.receipt ∧
      AuthorizationRow.of e.input e.result ∈ w.delivery.authorizations.rows ∧
      OutboxRow.of e.input e.result ∈ w.delivery.outbox.rows
  | .error e => checkRequest call.1 call.2 = .ok () →
      e = .unavailable ∨ e = .idempotencyConflict ∨
        e = .violation ∧ ∀ row ∈ w₀.delivery.authorizations.rows, row.key ≠ call.2.content.key

theorem Answered.mono {call : Principal × DeliveryAuthorization} {w₀ w w' : World}
    {res : Except Err DeliveryReceipt} (h : Answered call w₀ res w) (hg : Grows w w') :
    Answered call w₀ res w' := by
  cases res with
  | error e => exact h
  | ok receipt =>
    rcases h with ⟨e, hcontent, hreceipt, hauth, houtbox⟩
    exact ⟨e, hcontent, hreceipt, hg.authorizations.subset hauth, hg.outbox.subset houtbox⟩

section Walk

variable {Sent : Content → Prop} {ok : World → Op → Choice → Prop} {w₀ w : World}

theorem append_answered (hfree : CollisionFree Sent) {a : DeliveryAuthorization}
    (hvalid : validateAuthorization a.content = .ok ()) (hsent : Sent a.content)
    {receiptId : String} {n : Nat} {result : AppendResult} {tables : Tables}
    (hinv : (discipline Sent).Inv w)
    (h : append w.delivery w.now n (appendInput (normalizeAuthorization a) receiptId) =
      .ok (result, tables)) :
    Grows w { w with delivery := tables } ∧ (discipline Sent).Inv { w with delivery := tables } ∧
      ∃ e : Entry, e.content = a.content ∧
        acceptedReceipt (normalizeAuthorization a) result = e.receipt ∧
        AuthorizationRow.of e.input e.result ∈ tables.authorizations.rows ∧
        OutboxRow.of e.input e.result ∈ tables.outbox.rows := by
  rcases hinv with ⟨entries, hrec, hsents⟩
  rcases append_ok h with ⟨rfl, row, hrow, hkey, hhash, hresult⟩ | ⟨hresult, hacc⟩
  · refine ⟨Grows.refl _, ⟨entries, hrec, hsents⟩, ?_⟩
    rw [hrec.authorizations] at hrow
    rcases List.mem_map.1 hrow with ⟨e, he, rfl⟩
    -- The hash of the row is the one of the request, so the contents are the same.
    have htenant : e.content.tenantId = a.content.tenantId := congrArg Key.tenantId hkey
    have hbytes := hfree e.content a.content (hsents e he) hsent hhash
    have hcontent : e.content = a.content := e.content.requestBytes_inj e.valid hvalid htenant hbytes
    refine ⟨e, hcontent, ?_, ?_, ?_⟩
    · rw [hresult]
      exact acceptedReceipt_eq a e hcontent.symm
    · rw [hrec.authorizations]
      exact List.mem_map_of_mem he
    · rw [hrec.outbox]
      exact List.mem_map_of_mem he
  · have hinput : appendInput (normalizeAuthorization a) receiptId =
        Entry.input ⟨a.content, hvalid, result⟩ := by
      simp only [Entry.input, hresult, appendInput, normalizeAuthorization]
    rw [hinput] at hacc
    have hgrows : Grows w { w with delivery := tables } := Accepted.grows hacc
    refine ⟨hgrows, ⟨_, hrec.append _ hacc, ?_⟩,
      ⟨a.content, hvalid, result⟩, rfl, acceptedReceipt_eq a ⟨a.content, hvalid, result⟩ rfl, ?_, ?_⟩
    · intro e he
      rcases List.mem_append.1 he with he | he
      · exact hsents e he
      · rw [List.mem_singleton.1 he]
        exact hsent
    · simp [hacc.authorizations]
    · simp [hacc.outbox]

theorem ens_acceptDelivery (hfree : CollisionFree Sent) {call : Principal × DeliveryAuthorization}
    (hsent : Sent call.2.content) :
    Ensures machine ok (discipline Sent) (Answered call w₀) (acceptDelivery call.1 call.2) w₀ := by
  unfold acceptDelivery
  cases hcheck : checkRequest call.1 call.2 with
  | error e =>
    refine ensures_pure ?_
    intro hok
    rw [hcheck] at hok
    cases hok
  | ok u =>
    refine ensures_perform ?_
    intro w₁ hg₁ hinv₁ ch receiptId w₂ _ hp
    cases ch with
    | id s =>
      change (if isUuidv7 s then some (s, w₁) else none) = some (receiptId, w₂) at hp
      split at hp
      · next huuid =>
          obtain ⟨rfl, rfl⟩ := Prod.mk.inj (Option.some.inj hp)
          refine ⟨Grows.refl _, hinv₁, ?_⟩
          simp only [requireUuidv7, huuid]
          refine ensures_perform ?_
          intro w₃ hg₃ hinv₃ ch a w₄ _ hp
          have hborn : Grows w₀ w₃ := hg₁.trans hg₃
          rcases performAppend_cases hp with ⟨rfl, e, rfl, he⟩ | ⟨n, lost, result, tables, _, happ, rfl, ha⟩
          · refine ⟨Grows.refl _, hinv₃, ensures_pure ?_⟩
            intro _
            rcases he with rfl | ⟨n, he⟩
            · exact .inl rfl
            · rcases append_error he with ⟨rfl, _⟩ | ⟨rfl, hnone⟩
              · exact .inr (.inl rfl)
              · -- Without a row now, there was none when the call started.
                exact .inr (.inr ⟨rfl, fun row hrow =>
                  hnone row (hborn.authorizations.subset hrow)⟩)
          · rcases append_answered hfree (valid_of_checkRequest hcheck) hsent hinv₃ happ with
              ⟨hgrow, hinv, e, hcontent, hreceipt, hauth, houtbox⟩
            refine ⟨hgrow, hinv, ?_⟩
            cases lost with
            | true =>
              subst ha
              exact ensures_pure fun _ => .inl rfl
            | false =>
              subst ha
              exact ensures_pure ⟨e, hcontent, hreceipt, hauth, houtbox⟩
      · cases hp
    | _ => cases hp

end Walk

/-! ## Runs -/

def acceptCall (call : Principal × DeliveryAuthorization) : Program (Except Err DeliveryReceipt) :=
  acceptDelivery call.1 call.2

def reported : Choice → Bool
  | .sequence _ lost => ! lost
  | _ => true

/-- The contents of the requests are among those that may be sent, and an append that reports an
error has been rolled back. -/
abbrev atomically (Sent : Content → Prop) :
    Policy Op (Principal × DeliveryAuthorization) World Choice Nat where
  spawn := fun call => Sent call.2.content
  op := fun _ _ _ ch => reported ch = true
  tick := fun _ _ => True

/-- A call of the service asks for an id and then appends; a result of the append is returned. -/
def Appends (op : Op) (next : Ans op → Program (Except Err DeliveryReceipt)) : Prop :=
  match op, next with
  | .ids, _ => True
  | .append _, next => ∀ result, ∃ receipt, next (.ok result) = .ret (.ok receipt)
  | _, _ => False

theorem always_acceptCall (call : Principal × DeliveryAuthorization) :
    Prog.Always Appends (acceptCall call) := by
  unfold acceptCall acceptDelivery
  cases checkRequest call.1 call.2 with
  | error e => exact trivial
  | ok u =>
    refine Prog.always_perform trivial fun receiptId => ?_
    cases requireUuidv7 "receipt_id" receiptId with
    | some detail => exact trivial
    | none =>
      refine Prog.always_perform (fun result => ⟨_, rfl⟩) fun answer => ?_
      cases answer <;> exact trivial

theorem step_changes {Sent : Content → Prop} {w₀ : World}
    {c c' : Config Ans (Principal × DeliveryAuthorization) World (Except Err DeliveryReceipt)}
    (h : Reachable machine acceptCall (atomically Sent) w₀ c) {i : Nat} {ch : Choice}
    (hall : Allowed (atomically Sent) c (.act i ch))
    (hstep : step machine acceptCall c (.act i ch) = some c') :
    c'.world.delivery = c.world.delivery ∨ ∃ call receipt, c'.result i = some (call, .ok receipt) := by
  rcases step_act hstep with ⟨th, op, next, a, w, hi, hp, hperf, rfl⟩
  have halways := h.always always_acceptCall th (List.mem_of_getElem? hi)
  rw [hp] at halways
  have hlost := hall.op hi hp
  cases op with
  | ids =>
    cases ch with
    | id s =>
      change (if isUuidv7 s then some (s, c.world) else none) = some (a, w) at hperf
      split at hperf
      · obtain ⟨_, rfl⟩ := Prod.mk.inj (Option.some.inj hperf)
        exact .inl rfl
      · cases hperf
    | _ => cases hperf
  | append input =>
    rcases performAppend_cases hperf with
      ⟨rfl, _⟩ | ⟨n, lost, result, tables, rfl, _, rfl, ha⟩
    · exact .inl rfl
    · cases lost with
      | true => cases hlost
      | false =>
        rcases halways.1 result with ⟨receipt, hnext⟩
        subst ha
        have hlt := (List.getElem?_eq_some_iff.1 hi).1
        simp [Config.result, hlt, hnext]
  | _ => exact halways.1.elim

section Runs

variable {Sent : Content → Prop} {now : Int}
variable {c : Config Ans (Principal × DeliveryAuthorization) World (Except Err DeliveryReceipt)}

end Runs

/-! ## A repeated request and a changed one -/

namespace Scenario

def tenant : String := "018f4000-0000-7000-8000-000000000001"
def authorizationId : String := "018f4000-0000-7000-8000-000000000021"
def receiptId : String := "018f4000-0000-7000-8000-000000000031"
def receiptId₂ : String := "018f4000-0000-7000-8000-000000000032"
def receiptId₃ : String := "018f4000-0000-7000-8000-000000000033"

def request : Content where
  deliveryAuthorizationId := authorizationId
  eventId := "018f4000-0000-7000-8000-000000000022"
  tenantId := tenant
  reservationId := "018f4000-0000-7000-8000-000000000023"
  interactionId := "018f4000-0000-7000-8000-000000000002"
  targetSubscriberId := "018f4000-0000-7000-8000-000000000024"
  fencingToken := "018f4000-0000-7000-8000-000000000025"
  routeVersion := 4
  deliveryDeadline := some ⟨1760000000, 0⟩
  traceparent := "00-4bf92f3577b34da6a3ce929d0e0e4736-00f067aa0ba902b7-01"

def changed : Content :=
  { request with routeVersion := 5 }

def Sent (c : Content) : Prop :=
  c = request ∨ c = changed
  deriving Decidable

theorem collisionFree_sent : CollisionFree Sent := by
  have hne : authorizationHash request ≠ authorizationHash changed := by decide +kernel
  rintro c d (rfl | rfl) (rfl | rfl) h
  · rfl
  · exact absurd h hne
  · exact absurd h.symm hne
  · rfl

def corex : Principal :=
  ⟨"corex", tenant, [capabilityDeliveryWrite]⟩

def send (c : Content) (unknown : Wire.Bytes) :
    Label (Principal × DeliveryAuthorization) Choice Nat :=
  .spawn (corex, ⟨c, unknown, []⟩)

/-- Two requests with the same known fields race, time passes, and a third has a changed field. -/
def retried : List (Label (Principal × DeliveryAuthorization) Choice Nat) :=
  [send request [], send request [184, 1, 7], .act 0 (.id receiptId), .act 1 (.id receiptId₂),
    .act 1 (.sequence 11 false), .tick 5, .act 0 (.sequence 12 false), send changed [],
    .act 2 (.id receiptId₃), .act 2 (.sequence 13 false)]

def answers (c : Config Ans (Principal × DeliveryAuthorization) World (Except Err DeliveryReceipt)) :
    List (Option (Except Err String)) :=
  (List.range 3).map fun i => (c.result i).map fun r => r.2.map DeliveryReceipt.receiptId

end Scenario

end RelayPoint.Delivery
