import RelayPoint.Data.UuidText
import RelayPoint.Delivery.Message

/-!
# Fact — route facts, the state they fold to and the checks on them

The router numbers the facts about the route of an interaction.  This file holds what the route
projector computes without its store: which facts are well formed (`validateFact`), how a batch of
them changes the projection (`foldBatch`), and which snapshots are accepted (`validateSnapshot`).

Times of facts are nanoseconds since the zero time of Go.  Versions are natural numbers, as for
participation commands: whatever the code adds one to is bounded by a `bigint` column and the length
of a slice.
-/

namespace RelayPoint.RouteProjection

open Wire
open Participation (Key Digest isUuidv7 isHex matchAll)
open Signaling (utf8 putField)

/-! ## Facts -/

inductive Sentinel where
  | divergentHistory
  | unknownHistory
  | invalidFact
  | invalidReplay
  | authorizationPending
  deriving DecidableEq, Repr

abbrev Err := List Sentinel

inductive FactKind where
  | reserved
  | ringing
  | terminal
  | unrecognized (byte : UInt8)
  deriving DecidableEq, Repr

def FactKind.byte : FactKind → UInt8
  | .reserved => 1
  | .ringing => 2
  | .terminal => 3
  | .unrecognized byte => byte

inductive Visibility where
  | hidden
  | visible
  | unrecognized (byte : UInt8)
  deriving DecidableEq, Repr

structure RouteFact where
  tenantId : String
  interactionId : String
  eventId : String
  version : Nat
  kind : FactKind
  deliveryAuthorizationId : String
  receiptId : String
  visibilityGeneration : Nat
  leaseUntil : Int
  deriving DecidableEq, Repr

def RouteFact.key (f : RouteFact) : Key :=
  ⟨f.tenantId, f.interactionId⟩

structure Identity where
  eventId : String
  hash : Digest
  deriving DecidableEq

def unixNano (t : Int) : Nat :=
  twosComplement (t - 62135596800 * 1000000000)

def hashRouteFact (f : RouteFact) : Digest :=
  Delivery.sha256 (putField (utf8 f.tenantId) ++ putField (utf8 f.interactionId) ++
    putField (utf8 f.eventId) ++ putField (Sha256.bigEndian 8 f.version) ++
    putField [f.kind.byte] ++ putField (utf8 f.deliveryAuthorizationId) ++
    putField (utf8 f.receiptId) ++ putField (Sha256.bigEndian 8 f.visibilityGeneration) ++
    putField (Sha256.bigEndian 8 (unixNano f.leaseUntil)))

def validKind (f : RouteFact) : Bool :=
  match f.kind with
  | .reserved => true
  | .ringing => isUuidv7 f.deliveryAuthorizationId && isUuidv7 f.receiptId &&
      f.visibilityGeneration = f.version && f.leaseUntil ≠ 0
  | .terminal => f.visibilityGeneration ≠ 0 && f.visibilityGeneration < f.version
  | .unrecognized _ => false

def validateFact (f : RouteFact) : Bool :=
  isUuidv7 f.tenantId && isUuidv7 f.interactionId && isUuidv7 f.eventId && f.version ≠ 0 &&
    validKind f

/-! ## Folding -/

structure FoldedState where
  version : Nat
  eventId : String
  hash : Digest
  visibility : Visibility
  deliveryAuthorizationId : String
  receiptId : String
  visibilityGeneration : Nat
  leaseUntil : Int
  deriving DecidableEq

structure Projection where
  tenantId : String
  interactionId : String
  state : FoldedState
  databaseNow : Int
  deriving DecidableEq

def Projection.version (p : Projection) : Nat :=
  p.state.version

def Projection.key (p : Projection) : Key :=
  ⟨p.tenantId, p.interactionId⟩

def FoldedState.apply (s : FoldedState) (f : RouteFact) : FoldedState :=
  let s := { s with version := f.version, eventId := f.eventId, hash := hashRouteFact f }
  match f.kind with
  | .ringing =>
    { s with
      visibility := .visible
      deliveryAuthorizationId := f.deliveryAuthorizationId
      receiptId := f.receiptId
      visibilityGeneration := f.visibilityGeneration
      leaseUntil := f.leaseUntil }
  | .reserved => { s with visibility := .hidden }
  | .terminal => { s with visibility := .hidden, leaseUntil := 0 }
  | .unrecognized _ => s

def foldFacts (key : Key) : FoldedState → List RouteFact → Except Err FoldedState
  | s, [] => .ok s
  | s, f :: fs =>
    if ¬ validateFact f ∨ f.version ≠ s.version + 1 then .error [.invalidReplay]
    else if f.key ≠ key then .error [.invalidReplay]
    else foldFacts key (s.apply f) fs

def foldBatch (p : Projection) (facts : List RouteFact) : Except Err FoldedState :=
  let key :=
    match facts with
    | f :: _ => if p.tenantId = "" then f.key else p.key
    | [] => p.key
  foldFacts key p.state facts

section Fold

variable {key : Key} {s final : FoldedState} {p : Projection} {facts : List RouteFact}

theorem version_apply (s : FoldedState) (f : RouteFact) : (s.apply f).version = f.version := by
  unfold FoldedState.apply
  cases f.kind <;> rfl

variable {f : RouteFact}

theorem foldFacts_cons {fs : List RouteFact} (h : foldFacts key s (f :: fs) = .ok final) :
    validateFact f = true ∧ f.version = s.version + 1 ∧ f.key = key ∧
      foldFacts key (s.apply f) fs = .ok final := by
  unfold foldFacts at h
  split at h
  · cases h
  · next hvalid =>
      split at h
      · cases h
      · next hkey =>
          simp only [not_or, not_not] at hvalid hkey
          exact ⟨hvalid.1, hvalid.2, hkey, h⟩

theorem foldFacts_visible : ∀ {s : FoldedState}, foldFacts key s facts = .ok final →
    (facts = [] ∧ final = s) ∨ ∃ f, facts.getLast? = some f ∧ validateFact f = true ∧ f.key = key ∧
      ∃ s' : FoldedState, final = s'.apply f := by
  induction facts with
  | nil =>
    intro s h
    cases h
    exact .inl ⟨rfl, rfl⟩
  | cons f fs ih =>
    intro s h
    rcases foldFacts_cons h with ⟨hvalid, _, hkey, hrest⟩
    rcases ih hrest with ⟨rfl, rfl⟩ | ⟨g, hlast, hg⟩
    · exact .inr ⟨f, rfl, hvalid, hkey, s, rfl⟩
    · exact .inr ⟨g, by simp [List.getLast?_cons, hlast], hg⟩

theorem visible_apply (h : (s.apply f).visibility = .visible) (hvalid : validateFact f = true) :
    f.kind = .ringing := by
  cases hkind : f.kind with
  | ringing => rfl
  | reserved | terminal => simp [FoldedState.apply, hkind] at h
  | unrecognized byte => simp [validateFact, validKind, hkind] at hvalid

end Fold

/-! ## Answers of the router -/

structure ReplayResult where
  facts : List RouteFact
  routerHead : Nat
  deriving DecidableEq

structure Snapshot where
  projection : Projection
  historyFloor : Nat
  provenance : String
  deriving DecidableEq

structure ReconcileIntent where
  token : String
  key : Key
  observedVersion : Nat
  requestedFrom : Nat
  requestedTo : Nat
  heldEventId : String
  heldHash : Digest
  deriving DecidableEq

theorem length_zeroHash : (List.replicate 32 (0 : UInt8)).length = 32 := by
  simp

def zeroHash : Digest :=
  ⟨List.replicate 32 0, length_zeroHash⟩

def validVisible (s : FoldedState) : Bool :=
  isUuidv7 s.deliveryAuthorizationId && isUuidv7 s.receiptId &&
    s.visibilityGeneration = s.version && s.leaseUntil ≠ 0

def validateSnapshot (snapshot : Snapshot) (intent : ReconcileIntent) (held : RouteFact) : Bool :=
  snapshot.projection.key = held.key && snapshot.projection.version ≠ 0 &&
    intent.observedVersion ≤ snapshot.projection.version &&
    snapshot.historyFloor ≠ 0 && snapshot.historyFloor ≤ snapshot.projection.version &&
    snapshot.provenance ≠ "" &&
    isUuidv7 snapshot.projection.state.eventId && snapshot.projection.state.hash ≠ zeroHash &&
    (snapshot.projection.state.visibility = .hidden ||
      snapshot.projection.state.visibility = .visible && validVisible snapshot.projection.state)

/-! ## Canonical ids as database text -/

variable {p : Char → Bool} {ps : List (Char → Bool)} {cs : List Char}

theorem matchAll_cons (h : matchAll (p :: ps) cs = true) : ∃ c cs', cs = c :: cs' ∧ p c = true ∧
      matchAll ps cs' = true := by
  cases cs with
  | nil => cases h
  | cons c cs =>
    simp only [matchAll, Bool.and_eq_true] at h
    exact ⟨c, cs, rfl, h⟩

theorem matchAll_nil (h : matchAll [] cs = true) : cs = [] := by
  cases cs with
  | nil => rfl
  | cons c cs => cases h

theorem matchAll_append {qs : List (Char → Bool)} : ∀ {cs : List Char},
    matchAll (ps ++ qs) cs = true →
      ∃ a b, cs = a ++ b ∧ matchAll ps a = true ∧ matchAll qs b = true := by
  induction ps with
  | nil =>
    intro cs h
    exact ⟨[], cs, rfl, rfl, h⟩
  | cons p ps ih =>
    intro cs h
    rcases matchAll_cons h with ⟨c, cs, rfl, hc, h⟩
    rcases ih h with ⟨a, b, rfl, ha, hb⟩
    exact ⟨c :: a, b, rfl, by simp [matchAll, hc, ha], hb⟩

theorem matchAll_replicate {n : Nat} : ∀ {cs : List Char},
    matchAll (List.replicate n p) cs = true → cs.length = n ∧ ∀ c ∈ cs, p c = true := by
  induction n with
  | zero =>
    intro cs h
    simp [matchAll_nil h]
  | succ n ih =>
    intro cs h
    rcases matchAll_cons h with ⟨c, cs, rfl, hc, h⟩
    rcases ih h with ⟨hlen, hall⟩
    exact ⟨by simp [hlen], by simpa [hc] using hall⟩

theorem uuidIn_of_isUuidv7 {s : String} (h : isUuidv7 s = true) :
    UuidText.uuidIn s = some s ∧ s.toList[14]? = some '7' := by
  unfold isUuidv7 Participation.uuidv7Pattern at h
  -- The pattern, cut into its pieces from the right.
  rcases matchAll_append h with ⟨l, e, h0, h, he⟩
  rcases matchAll_append h with ⟨l, x4, rfl, h, hx4⟩
  rcases matchAll_append h with ⟨l, d, rfl, h, hd⟩
  rcases matchAll_append h with ⟨l, x3, rfl, h, hx3⟩
  rcases matchAll_append h with ⟨l, c, rfl, h, hc⟩
  rcases matchAll_append h with ⟨l, x2, rfl, h, hx2⟩
  rcases matchAll_append h with ⟨l, b, rfl, h, hb⟩
  rcases matchAll_append h with ⟨a, x1, rfl, ha, hx1⟩
  rcases matchAll_replicate ha with ⟨hla, ha⟩
  rcases matchAll_replicate hb with ⟨hlb, hb⟩
  rcases matchAll_replicate hc with ⟨hlc, hc⟩
  rcases matchAll_replicate hd with ⟨hld, hd⟩
  rcases matchAll_replicate he with ⟨hle, he⟩
  rcases matchAll_cons hx1 with ⟨x, _, rfl, hx, hx1⟩
  rcases matchAll_cons hx2 with ⟨y, _, rfl, hy, hx2⟩
  rcases matchAll_cons hx2 with ⟨v, _, rfl, hv, hx2⟩
  rcases matchAll_cons hx3 with ⟨z, _, rfl, hz, hx3⟩
  rcases matchAll_cons hx3 with ⟨r, _, rfl, hr, hx3⟩
  rcases matchAll_cons hx4 with ⟨u, _, rfl, hu, hx4⟩
  obtain rfl := matchAll_nil hx1
  obtain rfl := matchAll_nil hx2
  obtain rfl := matchAll_nil hx3
  obtain rfl := matchAll_nil hx4
  simp only [beq_iff_eq] at hx hy hv hz hu
  subst hx hy hv hz hu
  have hrhex : isHex r = true := by
    have hr : r = '8' ∨ r = '9' ∨ r = 'a' ∨ r = 'b' := by simpa using hr
    rcases hr with rfl | rfl | rfl | rfl <;> decide
  refine ⟨UuidText.uuidIn_groups (c := '7' :: c) (d := r :: d) hla hlb
    (by simp [hlc]) (by simp [hld]) hle ?_ (by simp [h0]), ?_⟩
  · intro ch hch
    simp only [List.mem_append, List.mem_cons] at hch
    rcases hch with hch | hch | (rfl | hch) | (rfl | hch) | hch
    · exact ha ch hch
    · exact hb ch hch
    · decide
    · exact hc ch hch
    · exact hrhex
    · exact hd ch hch
    · exact he ch hch
  · rw [h0]
    simp [List.getElem?_append, hla, hlb]

end RelayPoint.RouteProjection
