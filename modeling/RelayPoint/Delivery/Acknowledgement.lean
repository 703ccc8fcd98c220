import Mathlib.Data.List.Chain
import RelayPoint.Delivery.Acceptance
import RelayPoint.Delivery.Outbox

/-!
# Acknowledgement — the workers that empty the outbox

`processOne` takes a row of the outbox, sends the acknowledgement that it stands for to the router and
settles the row.  A claim runs out after a while, and then another worker may take the row while the
first one is still waiting for the router, so completions and retries come late and in any order.

The machine below runs any number of workers, and calls of the store with any arguments, against one
database, to which the service goes on adding rows.  Two records are kept beside the tables: the
`marks` of a row, which are the claims, releases and the completion in their order, and the requests
that were sent.  `Next` says which mark may follow which: the protocol is that the marks of every row
are a chain of it.
-/

namespace RelayPoint.Delivery

open Concurrency Wire
open Participation (isUuidv7 fitsBigint)
open Signaling (utf8)
open UuidText (uuidIn)

/-! ## The worker -/

inductive AckErr where
  | store
  | acknowledgementHash
  | unknownAcknowledgement
  | router (message : Bytes)
  deriving DecidableEq

def AckErr.message : AckErr → Bytes
  | .store => []
  | .acknowledgementHash => utf8 "delivery: acknowledgement hash mismatch"
  | .unknownAcknowledgement => utf8 "delivery: unknown acknowledgement disposition"
  | .router message => message

inductive AckOp where
  | claim (tenantId : String)
  | acknowledge (request : AcknowledgeRequest)
  | complete (tenantId receiptId claimToken : String) (result : AckResult)
  | retry (tenantId receiptId claimToken : String) (cause : Bytes)

def AckAns : AckOp → Type
  | .claim _ => Except AckErr (Option AckClaim)
  | .acknowledge _ => Except Bytes AckResult
  | .complete .. | .retry .. => Except AckErr Unit

abbrev AckProgram := Prog AckAns

def AckClaim.request (c : AckClaim) : AcknowledgeRequest where
  requestId := c.receipt.receiptId
  tenantId := c.receipt.tenantId
  reservationId := c.receipt.reservationId
  interactionId := c.receipt.interactionId
  expectedRouteVersion := c.expectedRouteVersion
  fencingToken := c.fencingToken
  receipt := c.receipt

def giveBack (tenantId : String) (claim : AckClaim) (err : AckErr) : AckProgram (Except AckErr Unit) := do
  match ← Prog.perform (AckOp.retry tenantId claim.request.requestId claim.claimToken err.message) with
  | .error retryErr => return .error retryErr
  | .ok () => return .error err

def AckResult.known (r : AckResult) : Bool :=
  r.disposition = ackApplied || r.disposition = ackAlreadyApplied || r.disposition = ackTerminalExpired

def processClaim (tenantId : String) (claim : AckClaim) : AckProgram (Except AckErr Unit) := do
  if claim.request.hash ≠ claim.requestHash then giveBack tenantId claim .acknowledgementHash
  else
    match ← Prog.perform (AckOp.acknowledge claim.request) with
    | .error message => giveBack tenantId claim (.router message)
    | .ok result =>
      if result.known then
        Prog.perform (AckOp.complete tenantId claim.request.requestId claim.claimToken result)
      else giveBack tenantId claim .unknownAcknowledgement

def processOne (tenantId : String) : AckProgram (Except AckErr Unit) := do
  match ← Prog.perform (AckOp.claim tenantId) with
  | .error err => return .error err
  | .ok none => return .ok ()
  | .ok (some claim) => processClaim tenantId claim

inductive AckCall where
  | processOne (tenantId : String)
  | claim (tenantId : String)
  | complete (tenantId receiptId claimToken : String) (result : AckResult)
  | retry (tenantId receiptId claimToken : String) (cause : Bytes)

def ackCall : AckCall → AckProgram (Except AckErr Unit)
  | .processOne tenantId => processOne tenantId
  | .claim tenantId => do return (← Prog.perform (AckOp.claim tenantId)).map fun _ => ()
  | .complete tenantId receiptId claimToken result =>
    Prog.perform (AckOp.complete tenantId receiptId claimToken result)
  | .retry tenantId receiptId claimToken cause => Prog.perform (AckOp.retry tenantId receiptId claimToken cause)

/-! ## The machine -/

inductive Mark where
  | claimed (token : String) (time : Int)
  | released
  | completed
  deriving DecidableEq, Repr

structure AckWorld where
  store : AckTables
  marks : ReceiptKey → List Mark := fun _ => []
  sent : List AcknowledgeRequest := []

def AckWorld.empty (now : Int) : AckWorld :=
  { store := { now } }

def AckWorld.mark (w : AckWorld) (store : AckTables) (key : ReceiptKey) (m : Mark) : AckWorld :=
  { w with store, marks := Function.update w.marks key (w.marks key ++ [m]) }

/-- `taken` is a claim that takes a row, with the token that `newID` gave; `nothing` one for which no
row is left, since all that are due are locked.  A transaction may fail, or commit and report an
error. -/
inductive AckChoice where
  | taken (key : ReceiptKey) (token : String) (elapsed : Nat) (lost : Bool)
  | nothing
  | go
  | fail
  | lost
  | answered (answer : Except Bytes AckResult)

def performClaim (w : AckWorld) (tenantId : String) :
    AckChoice → Option (Except AckErr (Option AckClaim) × AckWorld)
  | .taken key token elapsed lost =>
    if isUuidv7 token ∧ DatabaseTime (w.store.now + elapsed) then
      match claim w.store tenantId key token elapsed with
      | none => none
      | some (row, store) =>
        some (if lost then .error .store else (claimOf row token).elim (.error .store) fun c => .ok (some c),
          w.mark store key (.claimed token store.now))
    else none
  | .nothing => some (.ok none, w)
  | .fail => some (.error .store, w)
  | .go | .lost | .answered _ => none

def settle (w : AckWorld) (key : Option ReceiptKey) (tx : Option AckTables) (m : Mark) :
    AckChoice → Option (Except AckErr Unit × AckWorld)
  | .go =>
    match key, tx with
    | some key, some store => some (.ok (), w.mark store key m)
    | _, _ => some (.error .store, w)
  | .lost =>
    match key, tx with
    | some key, some store => some (.error .store, w.mark store key m)
    | _, _ => none
  | .fail => some (.error .store, w)
  | .taken .. | .nothing | .answered _ => none

def performAck (w : AckWorld) : (op : AckOp) → AckChoice → Option (AckAns op × AckWorld)
  | .claim tenantId, ch => performClaim w tenantId ch
  | .acknowledge request, .answered answer => some (answer, { w with sent := w.sent ++ [request] })
  | .acknowledge _, .taken .. | .acknowledge _, .nothing | .acknowledge _, .go | .acknowledge _, .fail
  | .acknowledge _, .lost => none
  | .complete tenantId receiptId claimToken result, ch =>
    settle w (w.store.target tenantId receiptId claimToken)
      (complete w.store tenantId receiptId claimToken result) .completed ch
  | .retry tenantId receiptId claimToken cause, ch =>
    settle w (w.store.target tenantId receiptId claimToken)
      (retry w.store tenantId receiptId claimToken cause) .released ch

/-- The service accepts an authorization, if it does: a request that is refused, that fails, or that was
accepted before writes nothing. -/
def AckTables.accept (w : AckTables) (principal : Principal) (authorization : DeliveryAuthorization)
    (receiptId : String) (sequence : Nat) : Option AckTables :=
  match checkRequest principal authorization, requireUuidv7 "receipt_id" receiptId with
  | .ok (), none =>
    let input := appendInput (normalizeAuthorization authorization) receiptId
    match append w.tables w.now sequence input with
    | .error _ => none
    | .ok (result, tables) =>
      if (w.tables.authorization input.authorization.key).isSome then none
      else
        some ({ w with tables }.write (OutboxRow.of input result).receiptKey { nextAttemptAt := w.now })
  | _, _ => none

inductive AckEvent where
  | pass (micros : Nat)
  | accept (principal : Principal) (authorization : DeliveryAuthorization) (receiptId : String) (sequence : Nat)

def tickAck (w : AckWorld) : AckEvent → Option AckWorld
  | .pass micros =>
    if DatabaseTime (w.store.now + micros) then
      some { w with store := { w.store with now := w.store.now + micros } }
    else none
  | .accept principal authorization receiptId sequence =>
    if fitsBigint sequence then
      match w.store.accept principal authorization receiptId sequence with
      | none => some w
      | some store => some { w with store }
    else none

def ackMachine : Machine AckAns AckWorld AckChoice AckEvent where
  perform := performAck
  tick := tickAck

/-! ## Marks -/

/-- Which mark may follow which: a claim is followed by a release, the completion, or a claim after it
has run out. -/
def Next : Mark → Mark → Prop
  | .claimed _ t, .claimed _ t' => t + defaultClaimTTL ≤ t'
  | .claimed .., .released | .claimed .., .completed | .released, .claimed .. => True
  | .released, .released | .released, .completed | .completed, _ => False

def Shows (c : Claiming) : Option Mark → Prop
  | none | some .released => c.status = .pending
  | some (.claimed token t) =>
    c.status = .claimed ∧ c.claimToken = some token ∧ c.claimUntil = some (t + defaultClaimTTL)
  | some .completed => c.status = .completed

structure Tracked (c : Claiming) (marks : List Mark) : Prop where
  chain : marks.IsChain Next
  shows : Shows c marks.getLast?

section Marks

variable {c c' : Claiming} {marks : List Mark}

theorem Tracked.snoc (h : Tracked c marks) {m : Mark} (hnext : ∀ m' ∈ marks.getLast?, Next m' m)
    (hshows : Shows c' (some m)) : Tracked c' (marks ++ [m]) := by
  refine ⟨List.isChain_append.2 ⟨h.chain, List.isChain_singleton m, ?_⟩, by simpa using hshows⟩
  intro m' hm' m'' hm''
  obtain rfl : m = m'' := by simpa using hm''
  exact hnext m' hm'

theorem Tracked.claimed (h : Tracked c marks) (hstatus : c.status = .claimed) :
    ∃ token t, marks.getLast? = some (.claimed token t) ∧ c.claimToken = some token ∧
      c.claimUntil = some (t + defaultClaimTTL) := by
  have hshows := h.shows
  cases hlast : marks.getLast? with
  | none =>
    rw [hlast] at hshows
    exact absurd (hstatus.symm.trans hshows) (by simp)
  | some m =>
    rw [hlast] at hshows
    cases m with
    | claimed token t => exact ⟨token, t, rfl, hshows.2⟩
    | released | completed => exact absurd (hstatus.symm.trans hshows) (by simp)

theorem Tracked.next_claim (h : Tracked c marks) {now : Int} (hdue : c.Due now) (token : String) {t : Int}
    (ht : now ≤ t) : ∀ m ∈ marks.getLast?, Next m (.claimed token t) := by
  intro m hm
  have hshows := h.shows
  rw [Option.mem_def.1 hm] at hshows
  cases m with
  | released => exact trivial
  | claimed token' t' =>
    rcases hdue.2 with hpending | ⟨-, u, hu, hle⟩
    · exact absurd (hpending.symm.trans hshows.1) (by simp)
    · obtain rfl : t' + defaultClaimTTL = u := Option.some.inj (hshows.2.2.symm.trans hu)
      exact hle.trans ht
  | completed =>
    rcases hdue.2 with hpending | ⟨hclaimed, -⟩
    · exact absurd (hpending.symm.trans hshows) (by simp)
    · exact absurd (hclaimed.symm.trans hshows) (by simp)

variable {after : List Mark}

theorem completed_last {before : List Mark} (h : (before ++ .completed :: after).IsChain Next) :
    after = [] := by
  cases after with
  | nil => rfl
  | cons m after =>
    have hchain := (List.isChain_append.1 h).2.1
    exact (List.isChain_cons_cons.1 hchain).1.elim

theorem claims_apart {token token' : String} {t' : Int} (between : List Mark) :
    ∀ {t : Int}, (.claimed token t :: (between ++ .claimed token' t' :: after)).IsChain Next →
      .released ∉ between → t + defaultClaimTTL ≤ t' := by
  induction between generalizing token with
  | nil => exact fun h _ => (List.isChain_cons_cons.1 h).1
  | cons m between ih =>
    intro t h hreleased
    rcases List.isChain_cons_cons.1 h with ⟨hnext, hrest⟩
    cases m with
    | released => exact absurd List.mem_cons_self hreleased
    | claimed token'' t'' =>
      have hlater := ih hrest fun hmem => hreleased (List.mem_cons_of_mem _ hmem)
      have hfirst : t + defaultClaimTTL ≤ t'' := hnext
      have hpositive : (0 : Int) ≤ defaultClaimTTL := by decide
      omega
    | completed =>
      have hlast := completed_last (show ([] ++ Mark.completed :: _).IsChain Next from hrest)
      simp at hlast

end Marks

/-! ## Discipline -/

structure Sane (w : AckWorld) : Prop where
  rows : ∀ row ∈ w.store.tables.outbox.rows, ∃ input result, Stored input result ∧ row = .of input result
  now : DatabaseTime w.store.now
  tracked : ∀ key, Tracked (w.store.claiming key) (w.marks key)
  present : ∀ key, w.marks key ≠ [] → (w.store.row key).isSome = true
  sent : ∀ r ∈ w.sent, ∃ row ∈ w.store.tables.outbox.rows, ∃ token claim,
    claimOf row token = some claim ∧ r = claim.request

structure Moves (w w' : AckWorld) : Prop where
  rows : w.store.tables.outbox.rows <+: w'.store.tables.outbox.rows
  completed : ∀ key, (w.store.claiming key).status = .completed →
    w'.store.claiming key = w.store.claiming key ∧ w'.marks key = w.marks key

theorem Moves.refl (w : AckWorld) : Moves w w :=
  ⟨List.prefix_rfl, fun _ _ => ⟨rfl, rfl⟩⟩

theorem Moves.trans {w₁ w₂ w₃ : AckWorld} (h : Moves w₁ w₂) (h' : Moves w₂ w₃) : Moves w₁ w₃ := by
  refine ⟨h.rows.trans h'.rows, fun key hkey => ?_⟩
  rcases h.completed key hkey with ⟨hclaiming, hmarks⟩
  rcases h'.completed key (by rw [hclaiming]; exact hkey) with ⟨hclaiming', hmarks'⟩
  exact ⟨hclaiming'.trans hclaiming, hmarks'.trans hmarks⟩

def ackDiscipline : Discipline AckWorld where
  Inv := Sane
  Rely := Moves
  Guar := Moves
  refl := Moves.refl
  trans := Moves.trans

section Steps

variable {w w' : AckWorld} {key : ReceiptKey}
variable {now : Int} {tenantId token receiptId : String} {row : OutboxRow} {store : AckTables}
variable {ch : AckChoice} {a : Except AckErr Unit}

theorem Sane.empty (h : DatabaseTime now) : Sane (AckWorld.empty now) where
  rows := by simp [AckWorld.empty, Tables.empty]
  now := h
  tracked := fun _ => ⟨List.isChain_nil, rfl⟩
  present := fun _ hmarks => absurd rfl hmarks
  sent := by simp [AckWorld.empty]

theorem Sane.mark (h : Sane w) {c : Claiming} {m : Mark} (hnow : DatabaseTime now)
    (hrow : (w.store.row key).isSome = true) (htracked : Tracked c (w.marks key ++ [m])) :
    Sane (w.mark ({ w.store with now := now }.write key c) key m) where
  rows := h.rows
  now := hnow
  tracked := by
    intro k
    by_cases hk : k = key
    · simpa [AckWorld.mark, hk] using htracked
    · simpa [AckWorld.mark, hk] using h.tracked k
  present := by
    intro k hmarks
    by_cases hk : k = key
    · rw [hk]
      exact hrow
    · exact h.present k (by simpa [AckWorld.mark, hk] using hmarks)
  sent := h.sent

theorem moves_mark {c : Claiming} {m : Mark} (hstatus : (w.store.claiming key).status ≠ .completed)
    : Moves w (w.mark ({ w.store with now := now }.write key c) key m) := by
  refine ⟨List.prefix_rfl, fun k hk => ?_⟩
  have hne : k ≠ key := fun heq => hstatus (heq ▸ hk)
  simp [AckWorld.mark, hne]

theorem Sane.claim (h : Sane w) {elapsed : Nat} (hnow : DatabaseTime (w.store.now + elapsed))
    (hclaim : claim w.store tenantId key token elapsed = some (row, store)) :
    Moves w (w.mark store key (.claimed token store.now)) ∧ Sane (w.mark store key (.claimed token store.now)) ∧
      row ∈ w.store.tables.outbox.rows := by
  rcases claim_some hclaim with ⟨hrow, hdue, rfl⟩
  have hcompleted : (w.store.claiming key).status ≠ .completed := by
    rcases hdue.2 with hpending | ⟨hclaimed, -⟩
    · simp [hpending]
    · simp [hclaimed]
  have htracked := h.tracked key
  have hnext := htracked.next_claim hdue token (t := w.store.now + elapsed) (by omega)
  exact ⟨moves_mark hcompleted, h.mark hnow (by simp [hrow]) (htracked.snoc hnext ⟨rfl, rfl, rfl⟩), (row_some hrow).1⟩

/-- What a completion or a retry does: it fails and changes nothing, or it settles the row that was last
claimed with its token; the answer may then be lost. -/
def Settles (w : AckWorld) (token : String) (a : Except AckErr Unit) (w' : AckWorld) : Prop :=
  (a = .error .store ∧ w' = w) ∨
    (a = .ok () ∨ a = .error .store) ∧ ∃ key k t c m, (w.marks key).getLast? = some (.claimed k t) ∧ uuidIn token = some k ∧
      (w.store.claiming key).status = .claimed ∧ w' = w.mark (w.store.write key c) key m

theorem Sane.settle (h : Sane w) {tx : Option AckTables} (m : Mark) (status : AckStatus)
    (hm : ∀ c : Claiming, c.status = status → Shows c (some m))
    (hnext : ∀ k t, Next (.claimed k t) m)
    (htx : ∀ store, tx = some store → ∃ key c, w.store.target tenantId receiptId token = some key ∧
      c.status = status ∧ store = w.store.write key c)
    (hsettle : settle w (w.store.target tenantId receiptId token) tx m ch = some (a, w')) :
    Settles w token a w' ∧ Moves w w' ∧ Sane w' := by
  have hsame : ∀ {b : Except AckErr Unit}, some (b, w) = some (a, w') → b = .error .store →
      Settles w token a w' ∧ Moves w w' ∧ Sane w' := by
    intro b heq hb
    cases heq
    exact ⟨.inl ⟨hb, rfl⟩, Moves.refl w, h⟩
  -- what follows when the row is found and written
  have hwritten : ∀ {key store}, w.store.target tenantId receiptId token = some key → tx = some store →
      a = .ok () ∨ a = .error .store → w' = w.mark store key m →
        Settles w token a w' ∧ Moves w w' ∧ Sane w' := by
    rintro key store hkey hstore ha rfl
    rcases htx store hstore with ⟨key', c, hkey', hc, rfl⟩
    obtain rfl : key = key' := Option.some.inj (hkey.symm.trans hkey')
    rcases target_some hkey with ⟨-, -, hrow, hstatus, k, hk, htoken⟩
    rcases (h.tracked key).claimed hstatus with ⟨k', t, hlast, htoken', -⟩
    obtain rfl : k = k' := Option.some.inj (htoken.symm.trans htoken')
    refine ⟨.inr ⟨ha, key, k, t, c, m, hlast, hk, hstatus, rfl⟩, moves_mark (by simp [hstatus]), ?_⟩
    refine h.mark h.now hrow ((h.tracked key).snoc ?_ (hm c hc))
    intro m' hm'
    obtain rfl : Mark.claimed k t = m' := Option.some.inj (hlast.symm.trans hm')
    exact hnext k t
  cases ch with
  | go =>
    cases hkey : w.store.target tenantId receiptId token with
    | none =>
      rw [hkey] at hsettle
      exact hsame hsettle rfl
    | some key =>
      cases hstore : tx with
      | none =>
        rw [hkey, hstore] at hsettle
        exact hsame hsettle rfl
      | some store =>
        rw [hkey, hstore] at hsettle
        obtain ⟨ha, hw⟩ := Prod.mk.inj (Option.some.inj hsettle)
        exact hwritten hkey hstore (.inl ha.symm) hw.symm
  | lost =>
    cases hkey : w.store.target tenantId receiptId token with
    | none =>
      rw [hkey] at hsettle
      cases hsettle
    | some key =>
      cases hstore : tx with
      | none =>
        rw [hkey, hstore] at hsettle
        cases hsettle
      | some store =>
        rw [hkey, hstore] at hsettle
        obtain ⟨ha, hw⟩ := Prod.mk.inj (Option.some.inj hsettle)
        exact hwritten hkey hstore (.inr ha.symm) hw.symm
  | fail => exact hsame hsettle rfl
  | taken | nothing | answered => cases hsettle

theorem Sane.complete (h : Sane w) {result : AckResult}
    (hperform : performAck w (.complete tenantId receiptId token result) ch = some (a, w')) :
    Settles w token a w' ∧ Moves w w' ∧ Sane w' := by
  refine h.settle .completed .completed (fun c hc => hc) (fun k t => trivial) ?_ hperform
  rintro store hstore
  exact complete_some hstore

theorem Sane.retry (h : Sane w) {cause : Bytes}
    (hperform : performAck w (.retry tenantId receiptId token cause) ch = some (a, w')) :
    Settles w token a w' ∧ Moves w w' ∧ Sane w' := by
  refine h.settle .released .pending (fun c hc => hc) (fun k t => trivial) ?_ hperform
  rintro store hstore
  exact retry_some hstore

variable {store' : AckTables} {p : Principal} {sequence : Nat}

theorem isSome_row_append (hrows : store'.tables.outbox.rows = store.tables.outbox.rows ++ [row])
    {k : ReceiptKey} (h : (store.row k).isSome = true) : (store'.row k).isSome = true := by
  rcases Option.isSome_iff_exists.1 h with ⟨r, hr⟩
  simp only [AckTables.row] at hr ⊢
  simp [hrows, hr]

theorem row_none_of_append {tables : Tables}
    (hrows : tables.outbox.rows = store.tables.outbox.rows ++ [row]) :
    store.row row.receiptKey = none := by
  refine List.find?_eq_none.2 fun r hr => ?_
  have hunique := tables.outbox.unique
  rw [hrows] at hunique
  have hfree := (List.pairwise_append.1 hunique).2.2 r hr row (by simp)
  intro hkey
  have heq : r.receiptKey = row.receiptKey := by simpa using hkey
  have htenant := congrArg ReceiptKey.tenantId heq
  have hreceipt := congrArg ReceiptKey.receiptId heq
  exact hfree ⟨htenant, hreceipt⟩

theorem isUuidv7_of_require {field value : String} (h : requireUuidv7 field value = none) :
    isUuidv7 value = true := by
  unfold requireUuidv7 at h
  split at h
  · next hid => exact hid
  · cases h

theorem length_issuer : (utf8 issuerServiceId).length ≤ 144 := by
  decide

theorem accept_some {a : DeliveryAuthorization} (hnow : DatabaseTime store.now)
    (hsequence : fitsBigint sequence = true) (h : store.accept p a receiptId sequence = some store')
    :
    ∃ input result tables, Stored input result ∧
      tables.outbox.rows = store.tables.outbox.rows ++ [.of input result] ∧
      store' = { store with tables }.write (OutboxRow.of input result).receiptKey { nextAttemptAt := store.now } := by
  unfold AckTables.accept at h
  split at h
  · next hcheck hreceipt =>
      dsimp only at h
      split at h
      · cases h
      · next result tables happend =>
          split at h
          · cases h
          · next hnone =>
              cases h
              rcases append_ok happend with ⟨rfl, row, hrow, hkey, -⟩ | ⟨hresult, hacc⟩
              · have hfound := authorization_of_mem hrow
                rw [hkey] at hfound
                exact absurd (by simp [hfound]) hnone
              · refine ⟨_, result, tables, ⟨valid_of_checkRequest hcheck, ?_, length_issuer, ?_, ?_⟩,
                  hacc.outbox, rfl⟩
                · rw [hresult]
                  exact isUuidv7_of_require hreceipt
                · rw [hresult]
                  exact hnow
                · rw [hresult]
                  exact of_decide_eq_true hsequence
  · cases h

theorem Sane.accept (h : Sane w) {a : DeliveryAuthorization}
    (hsequence : fitsBigint sequence = true)
    (haccept : w.store.accept p a receiptId sequence = some store) :
    Moves w { w with store } ∧ Sane { w with store } := by
  rcases accept_some h.now hsequence haccept with ⟨input, result, tables, hstored, hrows, rfl⟩
  have hnone : w.store.row (OutboxRow.of input result).receiptKey = none := row_none_of_append hrows
  have hmarks : w.marks (OutboxRow.of input result).receiptKey = [] := by
    by_contra hne
    have hrow := h.present _ hne
    rw [hnone] at hrow
    cases hrow
  have hfresh : (w.store.claiming (OutboxRow.of input result).receiptKey).status = .pending := by
    have hshows := (h.tracked (OutboxRow.of input result).receiptKey).shows
    rw [hmarks] at hshows
    exact hshows
  refine ⟨⟨by simp [hrows], fun k hk => ?_⟩, ?_, h.now, fun k => ?_, fun k hk => ?_, fun r hr => ?_⟩
  · have hne : k ≠ (OutboxRow.of input result).receiptKey := by
      rintro rfl
      exact absurd (hfresh.symm.trans hk) (by simp)
    simp [hne]
  · intro row hrow
    simp only [tables_write, hrows, List.mem_append, List.mem_singleton] at hrow
    rcases hrow with hrow | rfl
    · exact h.rows row hrow
    · exact ⟨input, result, hstored, rfl⟩
  · by_cases hk : k = (OutboxRow.of input result).receiptKey
    · simp only [claiming_write, hk, hmarks]
      exact ⟨List.isChain_nil, rfl⟩
    · simpa [hk] using h.tracked k
  · exact isSome_row_append hrows (h.present k hk)
  · rcases h.sent r hr with ⟨row, hrow, hclaim⟩
    exact ⟨row, by simp [hrows, hrow], hclaim⟩

theorem Sane.tick (h : Sane w) {e : AckEvent} (htick : tickAck w e = some w') : Moves w w' ∧ Sane w' := by
  cases e with
  | pass micros =>
    simp only [tickAck, Option.ite_none_right_eq_some, Option.some.injEq] at htick
    obtain ⟨hnow, rfl⟩ := htick
    exact ⟨⟨List.prefix_rfl, fun _ _ => ⟨rfl, rfl⟩⟩, h.rows, hnow, h.tracked, h.present, h.sent⟩
  | accept p a receiptId sequence =>
    simp only [tickAck, Option.ite_none_right_eq_some] at htick
    rcases htick with ⟨hsequence, htick⟩
    cases haccept : w.store.accept p a receiptId sequence with
    | none =>
      simp only [haccept, Option.some.injEq] at htick
      rw [← htick]
      exact ⟨Moves.refl w, h⟩
    | some store =>
      simp only [haccept, Option.some.injEq] at htick
      rw [← htick]
      exact h.accept hsequence haccept

end Steps

/-! ## Claims of stored rows -/

theorem claimOf_stored {input : AppendInput} {result : AppendResult} (h : Stored input result) (token : String) :
    ∃ claim, claimOf (.of input result) token = some claim ∧ claim.request = acknowledgement input result ∧
      claim.requestHash = (acknowledgement input result).hash := by
  have hfencing : isUuidv7 input.authorization.fencingToken = true :=
    isUuidv7_of_valid h.valid ("fencing_token", _) (by simp [idFields])
  refine ⟨⟨receiptFromAppend input result, token, input.authorization.routeVersion,
    input.authorization.fencingToken, (acknowledgement input result).hash⟩, ?_, rfl, rfl⟩
  simp only [claimOf, OutboxRow.of, unmarshalReceipt_marshal h.encodable,
    (RouteProjection.uuidIn_of_isUuidv7 hfencing).1]

section Walk

variable {ok : AckWorld → AckOp → AckChoice → Prop} {w : AckWorld}

def Verified (res : Except AckErr Unit) (_ : AckWorld) : Prop :=
  res ≠ .error .acknowledgementHash

def Held (w : AckWorld) (claim : AckClaim) : Prop :=
  ∃ row ∈ w.store.tables.outbox.rows, ∃ token, claimOf row token = some claim

variable {w' : AckWorld} {claim : AckClaim} {tenantId : String}

theorem Held.mono (h : Held w claim) (hmoves : Moves w w') : Held w' claim := by
  rcases h with ⟨row, hrow, htoken⟩
  exact ⟨row, hmoves.rows.subset hrow, htoken⟩

theorem Sane.verifies (h : Sane w) (hheld : Held w claim) :
    claim.request.hash = claim.requestHash := by
  rcases hheld with ⟨row, hrow, token, hclaim⟩
  rcases h.rows row hrow with ⟨input, result, hstored, rfl⟩
  rcases claimOf_stored hstored token with ⟨claim', hclaim', hrequest, hhash⟩
  obtain rfl : claim = claim' := Option.some.inj (hclaim.symm.trans hclaim')
  rw [hrequest, hhash]

theorem Settles.verified {token : String} {a : Except AckErr Unit} (h : Settles w token a w') :
    Verified a w' := by
  rcases h with ⟨ha, -⟩ | ⟨ha | ha, -⟩
  all_goals simp [Verified, ha]

theorem ensures_giveBack {err : AckErr} (herr : err ≠ .acknowledgementHash) :
    Ensures ackMachine ok ackDiscipline Verified (giveBack tenantId claim err) w := by
  refine ensures_perform ?_
  intro w₁ _ hsane ch a w₂ _ hperform
  rcases hsane.retry hperform with ⟨hsettles, hmoves, hsane'⟩
  refine ⟨hmoves, hsane', ?_⟩
  cases a with
  | error retryErr => exact ensures_pure hsettles.verified
  | ok u => exact ensures_pure (by simpa [Verified] using herr)

theorem ensures_complete (tenantId receiptId token : String) (result : AckResult) :
    Ensures ackMachine ok ackDiscipline Verified (Prog.perform (AckOp.complete tenantId receiptId token result)) w := by
  intro w₁ _ hsane ch a w₂ _ hperform
  rcases hsane.complete hperform with ⟨hsettles, hmoves, hsane'⟩
  exact ⟨hmoves, hsane', hsettles.verified⟩

theorem ensures_retry (tenantId receiptId token : String) (cause : Bytes) :
    Ensures ackMachine ok ackDiscipline Verified (Prog.perform (AckOp.retry tenantId receiptId token cause)) w := by
  intro w₁ _ hsane ch a w₂ _ hperform
  rcases hsane.retry hperform with ⟨hsettles, hmoves, hsane'⟩
  exact ⟨hmoves, hsane', hsettles.verified⟩

theorem ensures_processClaim (hsane : Sane w) (hheld : Held w claim) :
    Ensures ackMachine ok ackDiscipline Verified (processClaim tenantId claim) w := by
  unfold processClaim
  rw [if_neg (not_not.2 (hsane.verifies hheld))]
  refine ensures_perform ?_
  intro w₁ hmoves hsane₁ ch a w₂ _ hperform
  cases ch with
  | answered answer =>
    obtain ⟨rfl, rfl⟩ := Prod.mk.inj (Option.some.inj hperform)
    refine ⟨⟨List.prefix_rfl, fun _ _ => ⟨rfl, rfl⟩⟩, ?_, ?_⟩
    · refine ⟨hsane₁.rows, hsane₁.now, hsane₁.tracked, hsane₁.present, fun r hr => ?_⟩
      rcases List.mem_append.1 hr with hr | hr
      · exact hsane₁.sent r hr
      · rcases hheld.mono hmoves with ⟨row, hrow, token, hclaim⟩
        exact ⟨row, hrow, token, claim, hclaim, List.mem_singleton.1 hr⟩
    · cases answer with
      | error message => exact ensures_giveBack (by simp)
      | ok result =>
        by_cases hknown : result.known = true
        · simp only [hknown]
          exact ensures_complete tenantId _ _ result
        · simp only [hknown]
          exact ensures_giveBack (by simp)
  | taken | nothing | go | fail | lost => cases hperform

theorem performClaim_cases {ch : AckChoice} {a : Except AckErr (Option AckClaim)} (h : Sane w)
    (hperform : performClaim w tenantId ch = some (a, w')) :
    Moves w w' ∧ Sane w' ∧ (a = .ok none ∨ a = .error .store ∨ ∃ claim, a = .ok (some claim) ∧ Held w' claim) := by
  cases ch with
  | taken key token elapsed lost =>
    simp only [performClaim, Option.ite_none_right_eq_some] at hperform
    rcases hperform with ⟨⟨-, hnow⟩, hperform⟩
    cases hclaim : claim w.store tenantId key token elapsed with
    | none => simp [hclaim] at hperform
    | some p =>
      rcases p with ⟨row, store⟩
      simp only [hclaim] at hperform
      obtain ⟨rfl, rfl⟩ := hperform
      rcases h.claim hnow hclaim with ⟨hmoves, hsane, hrow⟩
      refine ⟨hmoves, hsane, ?_⟩
      cases lost with
      | true => exact .inr (.inl rfl)
      | false =>
        cases hof : claimOf row token with
        | none => exact .inr (.inl rfl)
        | some claim => exact .inr (.inr ⟨claim, rfl, row, hmoves.rows.subset hrow, token, hof⟩)
  | nothing =>
    cases hperform
    exact ⟨Moves.refl w, h, .inl rfl⟩
  | fail =>
    cases hperform
    exact ⟨Moves.refl w, h, .inr (.inl rfl)⟩
  | go | lost | answered => cases hperform

theorem ensures_ackCall (call : AckCall) : Ensures ackMachine ok ackDiscipline Verified (ackCall call) w := by
  cases call with
  | processOne tenantId =>
    refine ensures_perform ?_
    intro w₁ _ hsane ch a w₂ _ hperform
    rcases performClaim_cases hsane hperform with ⟨hmoves, hsane', rfl | rfl | ⟨claim, rfl, hheld⟩⟩
    · exact ⟨hmoves, hsane', ensures_pure (by simp [Verified])⟩
    · exact ⟨hmoves, hsane', ensures_pure (by simp [Verified])⟩
    · exact ⟨hmoves, hsane', ensures_processClaim hsane' hheld⟩
  | claim tenantId =>
    refine ensures_perform ?_
    intro w₁ _ hsane ch a w₂ _ hperform
    rcases performClaim_cases hsane hperform with ⟨hmoves, hsane', rfl | rfl | ⟨claim, rfl, -⟩⟩
    all_goals exact ⟨hmoves, hsane', ensures_pure (by simp [Verified, Except.map])⟩
  | complete tenantId receiptId token result => exact ensures_complete tenantId receiptId token result
  | retry tenantId receiptId token cause => exact ensures_retry tenantId receiptId token cause

end Walk

/-! ## Runs -/

abbrev AckConfig := Config AckAns AckCall AckWorld (Except AckErr Unit)

section Runs

variable {now : Int} {c c' : AckConfig}

theorem sound_ack (hnow : DatabaseTime now)
    (h : Reachable ackMachine ackCall Policy.free (AckWorld.empty now) c) :
    Sound ackMachine Policy.free ackDiscipline (fun _ _ => Verified) c :=
  h.sound id (fun call _ _ _ => ensures_ackCall call) (fun _ _ _ _ hsane htick => hsane.tick htick)
    (Sane.empty hnow)

theorem Moves.row {w w' : AckWorld} (h : Moves w w') {key : ReceiptKey} (hrow : (w.store.row key).isSome = true) :
    w'.store.row key = w.store.row key := by
  rcases Option.isSome_iff_exists.1 hrow with ⟨row, hfound⟩
  rcases h.rows with ⟨more, hmore⟩
  have hagain : w'.store.row key = some row := by
    simp only [AckTables.row, ← hmore] at hfound ⊢
    simp [hfound]
  rw [hagain, hfound]

theorem count_completed {marks : List Mark} (h : marks.IsChain Next) : marks.count .completed ≤ 1 := by
  by_cases hmem : Mark.completed ∈ marks
  · obtain ⟨before, after, rfl, hbefore⟩ := List.eq_append_cons_of_mem hmem
    rw [completed_last h]
    simp [List.count_eq_zero.2 hbefore]
  · simp [List.count_eq_zero.2 hmem]

theorem Sane.sent_eq {w : AckWorld} (h : Sane w) {r r' : AcknowledgeRequest} (hr : r ∈ w.sent) (hr' : r' ∈ w.sent)
    (htenant : r.tenantId = r'.tenantId) (hid : r.requestId = r'.requestId) : r = r' := by
  rcases h.sent r hr with ⟨row, hrow, token, claim, hclaim, rfl⟩
  rcases h.sent r' hr' with ⟨row', hrow', token', claim', hclaim', rfl⟩
  rcases h.rows row hrow with ⟨input, result, hstored, rfl⟩
  rcases h.rows row' hrow' with ⟨input', result', hstored', rfl⟩
  rcases claimOf_stored hstored token with ⟨_, hof, hrequest, -⟩
  rcases claimOf_stored hstored' token' with ⟨_, hof', hrequest', -⟩
  obtain rfl := Option.some.inj (hclaim.symm.trans hof)
  obtain rfl := Option.some.inj (hclaim'.symm.trans hof')
  rw [hrequest, hrequest'] at htenant hid
  have hsame : OutboxRow.of input result = OutboxRow.of input' result' :=
    w.store.tables.outbox.mem_eq_of_clash (fun hclash => ⟨hclash.1.symm, hclash.2.symm⟩) hrow hrow' ⟨htenant, hid⟩
  -- one row, so one claim but for the token, which is not part of the request
  have hreceipt : receiptFromAppend input result = receiptFromAppend input' result' := by
    have hbody := congrArg OutboxRow.receiptBody hsame
    have hdecoded := congrArg unmarshalReceipt hbody
    simp only [OutboxRow.of, unmarshalReceipt_marshal hstored.encodable,
      unmarshalReceipt_marshal hstored'.encodable, Option.some.injEq] at hdecoded
    exact hdecoded
  have hversion := congrArg OutboxRow.expectedRouteVersion hsame
  have hfencing := congrArg OutboxRow.fencingToken hsame
  have hreservation := congrArg DeliveryReceipt.reservationId hreceipt
  have hinteraction := congrArg DeliveryReceipt.interactionId hreceipt
  rw [hrequest, hrequest']
  simp only [acknowledgement, AcknowledgeRequest.mk.injEq]
  exact ⟨hid, htenant, hreservation, hinteraction, hversion, hfencing, hreceipt⟩

/-- In every state that workers, calls of the store and the clock lead to: a row is completed at most once
and does not change afterwards; a completion or a retry settles the row that was last claimed with its
token and is still claimed, or fails and changes nothing; two claims of a row with no release between them
are a TTL apart; and all requests sent for a receipt are the same. -/
theorem ack_claim_protocol (hnow : DatabaseTime now)
    (h : Reachable ackMachine ackCall Policy.free (AckWorld.empty now) c) :
    (∀ key, (c.world.marks key).count .completed ≤ 1) ∧
    (∀ ls c', run ackMachine ackCall Policy.free ls c = some c' →
      ∀ key, (c.world.store.claiming key).status = .completed →
        c'.world.store.row key = c.world.store.row key ∧
        c'.world.store.claiming key = c.world.store.claiming key ∧ c'.world.marks key = c.world.marks key) ∧
    (∀ tenantId receiptId token result ch a w',
      performAck c.world (.complete tenantId receiptId token result) ch = some (a, w') →
        Settles c.world token a w') ∧
    (∀ tenantId receiptId token cause ch a w',
      performAck c.world (.retry tenantId receiptId token cause) ch = some (a, w') →
        Settles c.world token a w') ∧
    (∀ key before between after token token' t t', c.world.marks key =
        before ++ .claimed token t :: (between ++ .claimed token' t' :: after) → .released ∉ between →
          t + defaultClaimTTL ≤ t') ∧
    ∀ r ∈ c.world.sent, ∀ r' ∈ c.world.sent, r.tenantId = r'.tenantId → r.requestId = r'.requestId → r = r' := by
  have hsound := sound_ack hnow h
  have hsane : Sane c.world := hsound.1
  refine ⟨fun key => count_completed (hsane.tracked key).chain, ?_, ?_, ?_, ?_, ?_⟩
  · intro ls c' hrun key hkey
    have hmoves : Moves c.world c'.world := hsound.run id (fun call _ _ _ => ensures_ackCall call)
      (fun _ _ _ _ hsane htick => hsane.tick htick) hrun
    have hmarks : c.world.marks key ≠ [] := by
      intro hnil
      have hshows := (hsane.tracked key).shows
      rw [hnil] at hshows
      exact absurd (hshows.symm.trans hkey) (by simp)
    exact ⟨hmoves.row (hsane.present key hmarks), hmoves.completed key hkey⟩
  · exact fun _ _ _ _ _ _ _ hperform => (hsane.complete hperform).1
  · exact fun _ _ _ _ _ _ _ hperform => (hsane.retry hperform).1
  · intro key before between after token token' t t' hmarks hreleased
    have hchain := (hsane.tracked key).chain
    rw [hmarks] at hchain
    exact claims_apart between (List.isChain_append.1 hchain).2.1 hreleased
  · exact fun r hr r' hr' htenant hid => hsane.sent_eq hr hr' htenant hid

end Runs

/-! ## A worker that comes late -/

namespace Scenario

def ackToken : String := "018f4000-0000-7000-8000-000000000041"
def ackToken₂ : String := "018f4000-0000-7000-8000-000000000042"

def ackKey : ReceiptKey :=
  ⟨tenant, receiptId⟩

def applied : AckResult :=
  ⟨ackApplied, 4, ""⟩

/-- The first worker waits for the router until its claim has run out; the second one takes the row and
gets an answer; the completion of the first one is refused. -/
def takenOver : List (Label AckCall AckChoice AckEvent) :=
  [.tick (.accept corex ⟨request, [], []⟩ receiptId 11), .spawn (.processOne tenant),
    .act 0 (.taken ackKey ackToken 3 false), .tick (.pass 30000000), .spawn (.processOne tenant),
    .act 1 (.taken ackKey ackToken₂ 5 false), .act 0 (.answered (.ok applied)),
    .act 1 (.answered (.ok applied)), .act 0 .go, .act 1 .go]

structure AckView where
  keys : List ReceiptKey
  first : Option (Except AckErr Unit)
  second : Option (Except AckErr Unit)
  status : AckStatus
  marks : List Mark
  sent : Nat
  deriving DecidableEq

def ackView (c : AckConfig) : AckView :=
  ⟨c.world.store.tables.outbox.rows.map OutboxRow.receiptKey, (c.result 0).map (·.2), (c.result 1).map (·.2),
    (c.world.store.claiming ackKey).status, c.world.marks ackKey, c.world.sent.length⟩

def takenOverView : AckView :=
  ⟨[ackKey], some (.error .store), some (.ok ()), .completed,
    [.claimed ackToken 4, .claimed ackToken₂ 30000009, .completed], 2⟩

theorem run_takenOver :
    (run ackMachine ackCall Policy.free takenOver ⟨AckWorld.empty 1, []⟩).map ackView = some takenOverView := by
  decide +kernel

end Scenario

open Scenario in
theorem ack_claim_protocol_takenOver : ∃ c : AckConfig,
    Reachable ackMachine ackCall Policy.free (AckWorld.empty 1) c ∧ ackView c = takenOverView ∧
    ∀ r ∈ c.world.sent, ∀ r' ∈ c.world.sent, r.tenantId = r'.tenantId → r.requestId = r'.requestId → r = r' := by
  rcases exists_of_run run_takenOver with ⟨c, hc, hview⟩
  have hnow : DatabaseTime 1 := by decide
  exact ⟨c, hc, hview, (ack_claim_protocol hnow hc).2.2.2.2.2⟩

/-- The hash that a worker computes from a claimed row is the one that was stored with the row, so no
worker returns a mismatch. -/
theorem acknowledgement_hash_verifies {now : Int} {c : AckConfig} (hnow : DatabaseTime now)
    (h : Reachable ackMachine ackCall Policy.free (AckWorld.empty now) c) :
    (∀ row ∈ c.world.store.tables.outbox.rows, ∀ token, ∃ claim, claimOf row token = some claim ∧
      claim.requestHash = row.requestHash ∧ claim.request.hash = row.requestHash) ∧
    ∀ th ∈ c.pool, th.prog ≠ .ret (.error .acknowledgementHash) := by
  have hsound := sound_ack hnow h
  have hsane : Sane c.world := hsound.1
  constructor
  · intro row hrow token
    rcases hsane.rows row hrow with ⟨input, result, hstored, rfl⟩
    rcases claimOf_stored hstored token with ⟨claim, hclaim, hrequest, hhash⟩
    exact ⟨claim, hclaim, hhash, by rw [hrequest]; rfl⟩
  · intro th hth hprog
    rcases hsound.2 th hth with ⟨-, w, -, hensures⟩
    rw [hprog] at hensures
    exact hensures rfl

open Scenario in
theorem acknowledgement_hash_verifies_takenOver : ∃ c : AckConfig, ∃ row ∈ c.world.store.tables.outbox.rows,
    row.receiptKey = ackKey ∧ ∃ claim, claimOf row ackToken = some claim ∧
      claim.requestHash = row.requestHash ∧ claim.request.hash = row.requestHash := by
  rcases exists_of_run run_takenOver with ⟨c, hc, hview⟩
  have hkeys : c.world.store.tables.outbox.rows.map OutboxRow.receiptKey = [ackKey] :=
    congrArg AckView.keys hview
  obtain ⟨row, hrow, hkey⟩ := List.mem_map.1 (hkeys ▸ List.mem_singleton_self ackKey)
  have hnow : DatabaseTime 1 := by decide
  exact ⟨c, row, hrow, hkey, (acknowledgement_hash_verifies hnow hc).1 row hrow ackToken⟩

/-! ## Retries

The text of an error is cut after 512 bytes.  Where that splits a character, the column refuses the
rest, the retry fails, and the row stays claimed. -/

def CutsBetween (cause : String) : Prop :=
  (utf8 cause).length ≤ 512 ∨
    ∃ before after, cause.toList = before ++ after ∧ (utf8 (String.ofList before)).length = 512

variable {cause : String}

theorem acceptsText_utf8 (h : Char.ofNat 0 ∉ cause.toList) : acceptsText (utf8 cause) = true := by
  have hdecode : Protobuf.TextDecoder.strict.decode (utf8 cause) = some cause :=
    Protobuf.TextDecoder.strict.decode_textBytes cause
  simp [acceptsText, hdecode, h]

theorem acceptsText_cutMessage (hzero : Char.ofNat 0 ∉ cause.toList) (hcut : CutsBetween cause) :
    acceptsText (cutMessage (utf8 cause)) = true := by
  unfold cutMessage
  split
  · next hlong =>
      rcases hcut with hshort | ⟨before, after, hsplit, hlength⟩
      · exact absurd hlong (Nat.not_lt.2 hshort)
      · have hbytes : utf8 cause = utf8 (String.ofList before) ++ after.flatMap String.utf8EncodeChar := by
          calc utf8 cause
              = cause.toList.flatMap String.utf8EncodeChar := Protobuf.textBytes_eq_flatMap cause
            _ = before.flatMap String.utf8EncodeChar ++ after.flatMap String.utf8EncodeChar := by
                  rw [hsplit, List.flatMap_append]
            _ = utf8 (String.ofList before) ++ after.flatMap String.utf8EncodeChar := by
                  rw [show utf8 (String.ofList before) = _ from Protobuf.textBytes_eq_flatMap _,
                    String.toList_ofList]
        rw [hbytes, List.take_left' hlength]
        refine acceptsText_utf8 ?_
        rw [String.toList_ofList]
        intro hmem
        exact hzero (hsplit ▸ List.mem_append_left after hmem)
  · exact acceptsText_utf8 hzero

namespace Scenario

def longCause : String :=
  String.ofList (List.replicate 511 'a' ++ ['é'])

def claimedOnce : List (Label AckCall AckChoice AckEvent) :=
  [.tick (.accept corex ⟨request, [], []⟩ receiptId 11), .spawn (.claim tenant),
    .act 0 (.taken ackKey ackToken 3 false)]

theorem run_claimedOnce :
    (run ackMachine ackCall Policy.free claimedOnce ⟨AckWorld.empty 1, []⟩).map
      (fun c => (c.world.store.target tenant receiptId ackToken, (c.world.store.claiming ackKey).attempts)) =
        some (some ackKey, 0) := by
  decide +kernel

theorem longCause_toList : longCause.toList = List.replicate 511 'a' ++ ['é'] :=
  String.toList_ofList

-- Of the two bytes of the last letter the cut leaves one.
theorem cutMessage_longCause : cutMessage (utf8 longCause) = List.replicate 511 97 ++ [195] := by
  have hbytes : utf8 longCause = List.replicate 511 97 ++ [195, 169] := by
    decide +kernel
  decide +kernel

end Scenario

end RelayPoint.Delivery
