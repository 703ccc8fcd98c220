import RelayPoint.Participation.Execution

/-!
# Custody — reconcile intents and the commands they hold

While a reconcile is under way its command is kept in two rows, which belong together: the intent, and
the pending input that counts the failed attempts (`Custody`).  No row of a ledger is above the head of
its interaction (`Bounded`).
-/

namespace RelayPoint.Participation

open Concurrency Journal

/-! ## Rows -/

def Intent.row (intent : Intent) (status : IntentStatus) : IntentRow :=
  ⟨intent.token, intent.key, intent.observedVersion, intent.requestedFrom, intent.requestedTo,
    intent.held.eventId, intent.held.hash, status⟩

def Issued (w : World) (intent : Intent) : Prop :=
  ∃ status, intent.row status ∈ w.intents.rows

structure PendingInput.HeldBy (input : PendingInput) (row : IntentRow) : Prop where
  key : input.key = row.key
  eventId : input.eventId = row.heldEventId
  hash : input.hash = row.heldHash
  status : input.status = .pending

structure PendingInput.Later (input input' : PendingInput) : Prop where
  key : input'.key = input.key
  eventId : input'.eventId = input.eventId
  attempts : input.attempts ≤ input'.attempts
  status : input.status ≠ .pending → input'.status = input.status

theorem PendingInput.Later.refl (input : PendingInput) : input.Later input :=
  ⟨rfl, rfl, le_rfl, fun _ => rfl⟩

theorem PendingInput.Later.trans {i j k : PendingInput} (h : i.Later j) (h' : j.Later k) : i.Later k where
  key := h'.key.trans h.key
  eventId := h'.eventId.trans h.eventId
  attempts := h.attempts.trans h'.attempts
  status := by
    intro hi
    have hj := h.status hi
    exact (h'.status (hj ▸ hi)).trans hj

def World.settled (w : World) (key : Key) (eventId : String) : Prop :=
  ∃ input ∈ w.pending.rows, input.key = key ∧ input.eventId = eventId ∧ input.status ≠ .pending

/-- A range that was asked for: the gap above the head, or one version that the ledger has lost. -/
structure IntentRow.Ranged (row : IntentRow) : Prop where
  pos : row.requestedFrom ≠ 0
  le : row.requestedFrom ≤ row.requestedTo
  fits : fitsBigint row.requestedTo = true
  shape : row.requestedFrom = row.observedVersion + 1 ∨
    row.requestedFrom = row.requestedTo ∧ row.requestedTo ≤ row.observedVersion

structure Custody (w : World) : Prop where
  ranged : ∀ row ∈ w.intents.rows, row.Ranged
  held : ∀ row ∈ w.intents.rows, row.status = .pending → ∃ input ∈ w.pending.rows, input.HeldBy row
  attempts : ∀ input ∈ w.pending.rows, input.status = .pending → input.attempts < 3
  audited : ∀ row ∈ w.dlq.rows, row.reason ≠ .divergentHistory → w.settled row.key row.eventId
  alerted : ∀ row ∈ w.alerts.rows, row.reason ≠ .divergentHistory → w.settled row.key row.eventId

structure Bounded (w : World) : Prop where
  versions : ∀ row ∈ w.versions.rows, row.version ≤ w.headVersion row.key
  events : ∀ row ∈ w.events.rows, row.version ≤ w.headVersion row.key

structure Follows (w w' : World) : Prop where
  issued : ∀ {intent}, Issued w intent → Issued w' intent
  pending : ∀ input ∈ w.pending.rows, ∃ input' ∈ w'.pending.rows, input.Later input'

theorem Follows.refl (w : World) : Follows w w :=
  ⟨id, fun input h => ⟨input, h, .refl input⟩⟩

theorem Follows.trans {w₁ w₂ w₃ : World} (h : Follows w₁ w₂) (h' : Follows w₂ w₃) : Follows w₁ w₃ where
  issued := fun hi => h'.issued (h.issued hi)
  pending := by
    intro input hinput
    rcases h.pending input hinput with ⟨later, hlater, hle⟩
    rcases h'.pending later hlater with ⟨last, hlast, hle'⟩
    exact ⟨last, hlast, hle.trans hle'⟩

theorem World.settled.follow {w w' : World} {key : Key} {eventId : String} (h : w.settled key eventId)
    (hf : Follows w w') : w'.settled key eventId := by
  rcases h with ⟨input, hinput, hkey, heventId, hstatus⟩
  rcases hf.pending input hinput with ⟨later, hlater, hle⟩
  exact ⟨later, hlater, hle.key.trans hkey, hle.eventId.trans heventId,
    (hle.status hstatus).symm ▸ hstatus⟩

def custody : Discipline World where
  Inv := fun w => Bounded w ∧ Custody w
  Rely := Follows
  Guar := Follows
  refl := Follows.refl
  trans := Follows.trans

theorem custody_empty : custody.Inv World.empty :=
  ⟨⟨by simp [World.empty], by simp [World.empty]⟩, by simp [World.empty], by simp [World.empty],
    by simp [World.empty], by simp [World.empty], by simp [World.empty]⟩

theorem PendingInput.clash_symm {r s : PendingInput} (h : PendingInput.Clash r s) :
    PendingInput.Clash s r := by
  rcases h with ⟨htenant, hevent⟩ | ⟨hkey, hversion⟩
  · exact .inl ⟨htenant.symm, hevent.symm⟩
  · exact .inr ⟨hkey.symm, hversion.symm⟩

/-! ## Ledgers -/

section Ledgers

variable {w w' : World}

structure Still (w w' : World) : Prop where
  head : w'.headVersion = w.headVersion
  versions : w'.versions.rows = w.versions.rows
  events : w'.events.rows = w.events.rows

theorem Bounded.keep (h : Bounded w) (hstill : Still w w') : Bounded w' where
  versions := by simpa only [hstill.versions, hstill.head] using h.versions
  events := by simpa only [hstill.events, hstill.head] using h.events

theorem still_lockHead (w : World) (key : Key) : Still w (w.lockHead key) := by
  have hhead := headVersion_lockHead w key
  rcases lockHead_eq w key with ⟨heads, heq⟩
  rw [heq] at hhead ⊢
  exact ⟨hhead, rfl, rfl⟩

theorem Bounded.extend {records : List Record} {final : Fold} (h : Bounded w)
    (hext : Extended w w' records final) (hkeys : ∀ r ∈ records, r.key = final.key)
    (hle : ∀ r ∈ records, r.version ≤ final.version)
    (hhead : w.headVersion final.key ≤ final.version) : Bounded w' := by
  have hup : ∀ key, w.headVersion key ≤ w'.headVersion key := by
    intro key
    by_cases hk : key = final.key
    · subst hk
      simpa [hext.head] using hhead
    · simp [hext.head, Function.update_of_ne hk]
  have hnew : ∀ r ∈ records, r.version ≤ w'.headVersion r.key := by
    intro r hr
    rw [hext.head, hkeys r hr, Function.update_self]
    exact hle r hr
  refine ⟨fun row hrow => ?_, fun row hrow => ?_⟩
  · rw [hext.versions] at hrow
    rcases List.mem_append.1 hrow with hrow | hrow
    · exact (h.versions row hrow).trans (hup row.key)
    · rcases List.mem_map.1 hrow with ⟨r, hr, rfl⟩
      exact hnew r hr
  · rw [hext.events] at hrow
    rcases List.mem_append.1 hrow with hrow | hrow
    · exact (h.events row hrow).trans (hup row.key)
    · rcases List.mem_map.1 hrow with ⟨r, hr, rfl⟩
      exact hnew r hr

theorem Bounded.restart {key : Key} {s : Snapshot} (h : Bounded w) (hre : Restarted w w' key s)
    (hhead : w.headVersion key ≤ s.fold.version) : Bounded w' := by
  have hup : ∀ k, w.headVersion k ≤ w'.headVersion k := by
    intro k
    by_cases hk : k = key
    · subst hk
      simpa [hre.head] using hhead
    · simp [hre.head, Function.update_of_ne hk]
  refine ⟨fun row hrow => ?_, fun row hrow => ?_⟩
  · rw [hre.versions] at hrow
    rcases List.mem_append.1 hrow with hrow | hrow
    · exact (h.versions row hrow).trans (hup row.key)
    · rw [List.mem_singleton.1 hrow]
      simp [hre.head]
  · rw [hre.events] at hrow
    rcases List.mem_append.1 hrow with hrow | hrow
    · exact (h.events row hrow).trans (hup row.key)
    · rw [List.mem_singleton.1 hrow]
      simp [hre.head]

theorem Bounded.ledgers {r : Record} (h : Bounded w) (hledgers : insertLedgers w r = .ok w')
    (hle : r.version ≤ w.headVersion r.key) : Bounded w' := by
  have hhead := (keeps_insertLedgers hledgers).head
  rcases insertLedgerRows_ok hledgers with ⟨_, hversions, hevents, _⟩
  refine ⟨fun row hrow => ?_, fun row hrow => ?_⟩
  · rw [hversions] at hrow
    rw [hhead]
    rcases List.mem_append.1 hrow with hrow | hrow
    · exact h.versions row hrow
    · rw [List.mem_singleton.1 hrow]
      exact hle
  · rw [hevents] at hrow
    rw [hhead]
    rcases List.mem_append.1 hrow with hrow | hrow
    · exact h.events row hrow
    · rw [List.mem_singleton.1 hrow]
      exact hle

end Ledgers

/-! ## What leaves the rows alone -/

structure Leaves (w w' : World) : Prop where
  pending : w'.pending = w.pending
  intents : w'.intents = w.intents
  dlq : w'.dlq = w.dlq
  alerts : w'.alerts = w.alerts

section Leaves

variable {w w' : World} {key : Key}

theorem Leaves.refl (w : World) : Leaves w w :=
  ⟨rfl, rfl, rfl, rfl⟩

theorem Leaves.trans {w₁ w₂ w₃ : World} (h : Leaves w₁ w₂) (h' : Leaves w₂ w₃) : Leaves w₁ w₃ :=
  ⟨h'.pending.trans h.pending, h'.intents.trans h.intents, h'.dlq.trans h.dlq,
    h'.alerts.trans h.alerts⟩

theorem Leaves.follows (h : Leaves w w') : Follows w w' where
  issued := by
    rintro intent ⟨status, hrow⟩
    exact ⟨status, h.intents ▸ hrow⟩
  pending := fun input hinput => ⟨input, h.pending ▸ hinput, .refl input⟩

theorem Leaves.custody (h : Leaves w w') (hw : Custody w) : Custody w' where
  ranged := by simpa only [h.intents] using hw.ranged
  held := by simpa only [h.intents, h.pending] using hw.held
  attempts := by simpa only [h.pending] using hw.attempts
  audited := by simpa only [World.settled, h.dlq, h.pending] using hw.audited
  alerted := by simpa only [World.settled, h.alerts, h.pending] using hw.alerted

theorem leaves_lockHead (w : World) (key : Key) : Leaves w (w.lockHead key) := by
  rcases lockHead_eq w key with ⟨heads, heq⟩
  rw [heq]
  exact ⟨rfl, rfl, rfl, rfl⟩

theorem leaves_setHead (w : World) (key : Key) (row : HeadRow) : Leaves w (w.setHead key row) := by
  rcases setHead_eq w key row with ⟨heads, heq⟩
  rw [heq]
  exact ⟨rfl, rfl, rfl, rfl⟩

theorem leaves_insertLedgerRows {version : Nat} {eventId : String} {hash : Digest}
    {body : Option Wire.Bytes} (h : insertLedgerRows w key version eventId hash body = .ok w') :
    Leaves w w' := by
  rcases (insertLedgerRows_ok h).1 with ⟨versions, events, rfl⟩
  exact ⟨rfl, rfl, rfl, rfl⟩

theorem leaves_installRecord {r : Record} (h : installRecord w r = .ok w') : Leaves w w' := by
  unfold installRecord at h
  split at h
  · cases h
  · next w₁ hledgers =>
      have hfirst := leaves_insertLedgerRows hledgers
      split at h
      all_goals
        cases h
        exact hfirst.trans ⟨rfl, rfl, rfl, rfl⟩

variable {records : List Record}

theorem leaves_installEach : ∀ {w : World}, installEach w records = .ok w' → Leaves w w' := by
  induction records with
  | nil =>
    intro w h
    cases h
    exact .refl w'
  | cons r rs ih =>
    intro w h
    cases hr : installRecord w r with
    | error e => simp [installEach, hr] at h
    | ok w₁ => exact (leaves_installRecord hr).trans (ih (by simpa [installEach, hr] using h))

theorem leaves_installRecords {final : Fold} (h : installRecords w records final = .ok w') :
    Leaves w w' := by
  unfold installRecords at h
  split at h
  · cases h
  · next w₁ heach =>
      split at h
      · cases h
      · next row _ =>
          cases h
          exact ((leaves_installEach heach).trans (leaves_setHead w₁ final.key row)).trans
            ⟨rfl, rfl, rfl, rfl⟩

end Leaves

/-! ## Completing a reconcile -/

section Complete

variable {w w' : World} {intent : Intent} {status : IntentStatus} {result : InputStatus}

theorem Issued.ranged (h : Issued w intent) (hw : Custody w) : (intent.row .pending).Ranged := by
  rcases h with ⟨status, hrow⟩
  have hranged := hw.ranged _ hrow
  exact ⟨hranged.pos, hranged.le, hranged.fits, hranged.shape⟩

theorem Issued.pending (h : Issued w intent) (hlock : w.lockIntent intent = true) :
    intent.row .pending ∈ w.intents.rows := by
  rcases h with ⟨status, hrow⟩
  simp only [World.lockIntent, Bool.and_eq_true, decide_eq_true_eq, List.any_eq_true] at hlock
  rcases hlock with ⟨_, row, hmem, ⟨⟨hkey, htoken⟩, _⟩, hpending⟩
  have hsame : row = intent.row status := w.intents.mem_eq_of_clash IntentRow.clash_symm hmem hrow
    (.inl ⟨congrArg Key.tenantId hkey, htoken⟩)
  rw [hsame] at hpending
  exact hpending ▸ hrow

theorem Custody.input (h : Custody w) (hissued : Issued w intent) (hlock : w.lockIntent intent = true) :
    ∃ i ∈ w.pending.rows, i.HeldBy (intent.row .pending) :=
  h.held _ (hissued.pending hlock) rfl

theorem issued_completeIntent {i : Intent} (h : Issued w i) : Issued (w.completeIntent intent status) i := by
  rcases h with ⟨s, hrow⟩
  have hmem := List.mem_map_of_mem (f := fun r : IntentRow =>
    if r.key.tenantId = intent.key.tenantId ∧ r.token = intent.token ∧ r.status = .pending then
      { r with status := status } else r) hrow
  split at hmem
  · exact ⟨status, hmem⟩
  · exact ⟨s, hmem⟩

variable {attempts : Nat → Nat}

theorem later_setInput {tenantId eventId : String} (hattempts : ∀ n, n ≤ attempts n)
    {i : PendingInput} (h : i ∈ w.pending.rows) :
    ∃ i' ∈ (w.setInput tenantId eventId attempts result).pending.rows, i.Later i' := by
  refine ⟨_, List.mem_map_of_mem h, ?_⟩
  split
  · next hmatch => exact ⟨rfl, rfl, hattempts _, fun hne => absurd hmatch.2.2 hne⟩
  · exact .refl i

def World.finish (w : World) (intent : Intent) (status : IntentStatus) (attempts : Nat → Nat)
    (result : InputStatus) : World :=
  (w.completeIntent intent status).setInput intent.key.tenantId intent.held.eventId attempts result

theorem follows_finish (hattempts : ∀ n, n ≤ attempts n) :
    Follows w (w.finish intent status attempts result) where
  issued := issued_completeIntent
  pending := fun _ hi => later_setInput hattempts hi

variable {attempts : Nat → Nat}

theorem mem_intents_finish (hstatus : status ≠ .pending) {row : IntentRow}
    (hrow : row ∈ (w.finish intent status attempts result).intents.rows) (hpending : row.status = .pending) :
    row ∈ w.intents.rows ∧ ¬ (row.key.tenantId = intent.key.tenantId ∧ row.token = intent.token) := by
  rcases List.mem_map.1 hrow with ⟨old, hold, rfl⟩
  split at hpending
  · exact absurd hpending hstatus
  · next hmatch =>
      rw [if_neg hmatch]
      exact ⟨hold, fun hk => hmatch ⟨hk.1, hk.2, hpending⟩⟩

theorem Custody.finish (h : Custody w) (hissued : Issued w intent) (hlock : w.lockIntent intent = true)
    (hattempts : ∀ n, n ≤ attempts n) (hstatus : status ≠ .pending) (hresult : result ≠ .pending)
    (hw' : w'.pending = (w.finish intent status attempts result).pending)
    (hintents : w'.intents = (w.finish intent status attempts result).intents)
    (hdlq : ∀ row ∈ w'.dlq.rows, row ∈ w.dlq.rows ∨ row.key = intent.key ∧ row.eventId = intent.held.eventId)
    (halerts : ∀ row ∈ w'.alerts.rows, row ∈ w.alerts.rows ∨
      row.key = intent.key ∧ row.eventId = intent.held.eventId) : Custody w' ∧ Follows w w' := by
  rcases h.input hissued hlock with ⟨own, hown, hheld⟩
  have hfollows : Follows w w' := by
    have hfinish : Follows w (w.finish intent status attempts result) := follows_finish hattempts
    exact ⟨fun hi => by simpa only [Issued, hintents] using hfinish.issued hi,
      by simpa only [hw'] using hfinish.pending⟩
  -- Its own input is completed.
  have hsettled : w'.settled intent.key intent.held.eventId := by
    refine ⟨{ own with attempts := attempts own.attempts, status := result }, ?_, hheld.key, hheld.eventId,
      hresult⟩
    rw [hw']
    refine List.mem_map.2 ⟨own, hown, if_pos ?_⟩
    exact ⟨congrArg Key.tenantId hheld.key, hheld.eventId, hheld.status⟩
  refine ⟨⟨fun row hrow => ?_, fun row hrow hpending => ?_, fun i hi hpending => ?_, fun row hrow hr => ?_,
    fun row hrow hr => ?_⟩, hfollows⟩
  · rw [hintents] at hrow
    rcases List.mem_map.1 hrow with ⟨old, hold, rfl⟩
    have hranged := h.ranged old hold
    split
    · exact ⟨hranged.pos, hranged.le, hranged.fits, hranged.shape⟩
    · exact hranged
  · rw [hintents] at hrow
    rcases mem_intents_finish hstatus hrow hpending with ⟨hold, hother⟩
    rcases h.held row hold hpending with ⟨i, hi, hrowheld⟩
    refine ⟨i, ?_, hrowheld⟩
    rw [hw']
    refine List.mem_map.2 ⟨i, hi, if_neg ?_⟩
    -- One input for both commands would make them two pending intents of one interaction.
    rintro ⟨htenant, hevent, _⟩
    have hsame : i = own := w.pending.mem_eq_of_clash PendingInput.clash_symm hi hown
      (.inl ⟨htenant.trans (congrArg Key.tenantId hheld.key).symm, hevent.trans hheld.eventId.symm⟩)
    have hkey : row.key = intent.key := by
      rw [← hrowheld.key, hsame]
      exact hheld.key
    have hrowsame : row = intent.row .pending := w.intents.mem_eq_of_clash IntentRow.clash_symm hold
      (hissued.pending hlock) (.inr ⟨hkey, hpending, rfl⟩)
    exact hother ⟨congrArg Key.tenantId hkey, by rw [hrowsame]; rfl⟩
  · rw [hw'] at hi
    rcases List.mem_map.1 hi with ⟨old, hold, rfl⟩
    split at hpending
    · exact absurd hpending hresult
    · next hmatch =>
        rw [if_neg hmatch]
        exact h.attempts old hold hpending
  · rcases hdlq row hrow with hold | ⟨hk, he⟩
    · exact (h.audited row hold hr).follow hfollows
    · rw [hk, he]
      exact hsettled
  · rcases halerts row hrow with hold | ⟨hk, he⟩
    · exact (h.alerted row hold hr).follow hfollows
    · rw [hk, he]
      exact hsettled

end Complete

/-! ## The methods of the store -/

section Begin

variable {w w' : World} {intent : Intent} {held : Record}

theorem Custody.hold {input : PendingInput} {rows : List IntentRow} (h : Custody w)
    (hpending : w'.pending.rows = w.pending.rows ++ [input])
    (hintents : w'.intents.rows = w.intents.rows ++ rows) (hdlq : w'.dlq = w.dlq)
    (halerts : w'.alerts = w.alerts) (hattempts : input.attempts = 0)
    (hrows : ∀ row ∈ rows, row.Ranged ∧ input.HeldBy row) : Custody w' ∧ Follows w w' := by
  have hold : ∀ i ∈ w.pending.rows, i ∈ w'.pending.rows := by
    intro i hi
    rw [hpending]
    exact List.mem_append_left _ hi
  have hfollows : Follows w w' := by
    refine ⟨?_, fun i hi => ⟨i, hold i hi, .refl i⟩⟩
    rintro i ⟨status, hrow⟩
    exact ⟨status, by rw [hintents]; exact List.mem_append_left _ hrow⟩
  refine ⟨⟨fun row hrow => ?_, fun row hrow hstatus => ?_, fun i hi hstatus => ?_, fun row hrow hr => ?_,
    fun row hrow hr => ?_⟩, hfollows⟩
  · rw [hintents] at hrow
    rcases List.mem_append.1 hrow with hrow | hrow
    · exact h.ranged row hrow
    · exact (hrows row hrow).1
  · rw [hintents] at hrow
    rcases List.mem_append.1 hrow with hrow | hrow
    · rcases h.held row hrow hstatus with ⟨i, hi, hheld⟩
      exact ⟨i, hold i hi, hheld⟩
    · exact ⟨input, by simp [hpending], (hrows row hrow).2⟩
  · rw [hpending] at hi
    rcases List.mem_append.1 hi with hi | hi
    · exact h.attempts i hi hstatus
    · rw [List.mem_singleton.1 hi, hattempts]
      decide
  · rw [hdlq] at hrow
    exact (h.audited row hrow hr).follow hfollows
  · rw [halerts] at hrow
    exact (h.alerted row hrow hr).follow hfollows

/-- A reconcile that has begun: its intent is issued and locked, for the command of the caller. -/
structure Started (w : World) (intent : Intent) (held : Record) : Prop where
  issued : Issued w intent
  locked : w.lockIntent intent = true
  key : intent.key = held.key
  held : intent.held = held.identity

theorem lockIntent_of_mem (hhead : w.headVersion intent.key = intent.observedVersion)
    (hrow : intent.row .pending ∈ w.intents.rows) : w.lockIntent intent = true := by
  simp only [World.lockIntent, hhead, decide_true, Bool.true_and, List.any_eq_true]
  exact ⟨_, hrow, by simp [Intent.row]⟩

structure Resumes (w : World) (intent : Intent) (held : Record) (row : IntentRow) : Prop where
  head : w.headVersion intent.key = intent.observedVersion
  pending : w.pendingIntent intent.key = some row
  observed : row.observedVersion = intent.observedVersion
  eventId : row.heldEventId = held.identity.eventId
  hash : row.heldHash = held.identity.hash

structure Inserts (w : World) (intent : Intent) (held : Record)
    (pending : Table PendingInput PendingInput.Clash) (intents : Table IntentRow IntentRow.Clash) : Prop where
  head : w.headVersion intent.key = intent.observedVersion
  pos : intent.requestedFrom ≠ 0
  le : intent.requestedFrom ≤ intent.requestedTo
  fits : fitsBigint intent.requestedTo = true
  pending : w.pending.insert (.of intent held) = some pending
  intents : w.intents.insert (.of intent held) = some intents

variable {intent' : Intent}

theorem Store.beginReconcile_cases {b : Bool}
    (h : Store.beginReconcile w intent held = .ok ((intent', b), w')) :
    (b = false ∧ (w' = w.lockHead intent.key ∨ ∃ pending, w.pending.insert (.of intent held) = some pending ∧
      w' = { w.lockHead intent.key with pending })) ∨
    (b = true ∧ ∃ row, Resumes w intent held row ∧ intent' = intent.resume row ∧ w' = w.lockHead intent.key) ∨
    (b = true ∧ intent' = intent ∧ ∃ pending intents, Inserts w intent held pending intents ∧
      w' = { w.lockHead intent.key with pending, intents }) := by
  unfold Store.beginReconcile at h
  split at h
  · cases h
    exact .inl ⟨rfl, .inl rfl⟩
  · next hhead =>
      split at h
      · next row hrow =>
          split at h
          · cases h
          · next hsame =>
              cases h
              simp only [not_or, not_not] at hsame
              exact .inr (.inl ⟨rfl, row, ⟨not_not.1 hhead, hrow, hsame.1, hsame.2.1, hsame.2.2⟩, rfl, rfl⟩)
      · split at h
        · cases h
        · split at h
          · cases h
            exact .inl ⟨rfl, .inl rfl⟩
          · next pending hpending =>
              split at h
              · cases h
              · next hrange =>
                  simp only [not_or, not_not] at hrange
                  split at h
                  · cases h
                    exact .inl ⟨rfl, .inr ⟨pending, hpending, rfl⟩⟩
                  · next intents hintents =>
                      cases h
                      exact .inr (.inr ⟨rfl, rfl, pending, intents,
                        ⟨not_not.1 hhead, hrange.1, Nat.le_of_not_lt hrange.2.1, hrange.2.2, hpending, hintents⟩, rfl⟩)

theorem Resumes.started {row : IntentRow} (h : Resumes w intent held row) (hkey : intent.key = held.key)
    (hheld : intent.held = held.identity) : Started (w.lockHead intent.key) (intent.resume row) held := by
  rcases mem_pendingIntent h.pending with ⟨hmem, hrkey, hstatus⟩
  have hsame : (intent.resume row).row .pending = row := by
    have heventId := h.eventId
    have hhash := h.hash
    cases row
    simp_all [Intent.row, Intent.resume]
  have hissued : (intent.resume row).row .pending ∈ (w.lockHead intent.key).intents.rows := by
    rw [hsame, (leaves_lockHead w intent.key).intents]
    exact hmem
  refine ⟨⟨_, hissued⟩, lockIntent_of_mem ?_ hissued, hkey, hheld⟩
  calc
    (w.lockHead intent.key).headVersion intent.key = w.headVersion intent.key := by
      rw [headVersion_lockHead]
    _ = intent.observedVersion := h.head
    _ = row.observedVersion := h.observed.symm

theorem Store.beginReconcile_custody {b : Bool} (hw : Custody w) (hkey : intent.key = held.key)
    (hheld : intent.held = held.identity)
    (hshape : intent.requestedFrom = intent.observedVersion + 1 ∨
      intent.requestedFrom = intent.requestedTo ∧ intent.requestedTo ≤ intent.observedVersion)
    (h : Store.beginReconcile w intent held = .ok ((intent', b), w')) :
    Custody w' ∧ Follows w w' ∧ (b = true → Started w' intent' held) := by
  have hleaves := leaves_lockHead w intent.key
  have hlocked := hleaves.custody hw
  rcases Store.beginReconcile_cases h with ⟨rfl, rfl | ⟨pending, hpending, rfl⟩⟩ | ⟨rfl, row, hre, rfl, rfl⟩ |
      ⟨rfl, rfl, pending, intents, hins, rfl⟩
  · exact ⟨hlocked, hleaves.follows, by simp⟩
  · have hrows : pending.rows = (w.lockHead intent.key).pending.rows ++ [.of intent held] := by
      rw [hleaves.pending]
      exact (Table.insert_eq_some hpending).1
    have hheld : Custody { w.lockHead intent.key with pending } ∧
        Follows (w.lockHead intent.key) { w.lockHead intent.key with pending } :=
      hlocked.hold hrows (List.append_nil _).symm rfl rfl rfl (by simp)
    exact ⟨hheld.1, hleaves.follows.trans hheld.2, by simp⟩
  · exact ⟨hlocked, hleaves.follows, fun _ => hre.started hkey hheld⟩
  · have hprows : pending.rows = (w.lockHead intent'.key).pending.rows ++ [.of intent' held] := by
      rw [hleaves.pending]
      exact (Table.insert_eq_some hins.pending).1
    have hirows : intents.rows = (w.lockHead intent'.key).intents.rows ++ [intent'.row .pending] := by
      have hrow : IntentRow.of intent' held = intent'.row .pending := by
        simp [IntentRow.of, Intent.row, hheld]
      rw [hleaves.intents, ← hrow]
      exact (Table.insert_eq_some hins.intents).1
    have hown : ∀ row ∈ [intent'.row .pending], row.Ranged ∧ (PendingInput.of intent' held).HeldBy row := by
      intro row hrow
      rw [List.mem_singleton.1 hrow]
      exact ⟨⟨hins.pos, hins.le, hins.fits, hshape⟩, rfl, by simp [Intent.row, PendingInput.of, hheld],
        by simp [Intent.row, PendingInput.of, hheld], rfl⟩
    have hboth : Custody { w.lockHead intent'.key with pending, intents } ∧
        Follows (w.lockHead intent'.key) { w.lockHead intent'.key with pending, intents } :=
      hlocked.hold hprows hirows rfl rfl rfl hown
    have hissued : intent'.row .pending ∈ intents.rows := by simp [hirows]
    refine ⟨hboth.1, hleaves.follows.trans hboth.2, fun _ => ⟨⟨_, hissued⟩, ?_, hkey, hheld⟩⟩
    refine lockIntent_of_mem ?_ hissued
    exact (congrFun (headVersion_lockHead w intent'.key) intent'.key).trans hins.head

end Begin

section Finish

variable {w w' : World} {intent : Intent} {held : Record} {b : Bool}
variable {r : Record} {tenantId eventId : String} {i : PendingInput}

theorem rows_insertAudit {key : Key} {token : String} {reason : Reason}
    (h : insertAudit w key token r reason = .ok w') :
    (∀ row ∈ w'.dlq.rows, row ∈ w.dlq.rows ∨
      row = ⟨key, nullIfEmpty token, r.identity.eventId, r.version, r.identity.hash, reason, r.identity.body⟩) ∧
    ∀ row ∈ w'.alerts.rows, row ∈ w.alerts.rows ∨
      row = ⟨key, nullIfEmpty token, r.identity.eventId, r.version, reason⟩ := by
  unfold insertAudit at h
  split at h
  · cases h
  · cases h
    exact ⟨fun row hrow => Table.mem_insertOrIgnore hrow, fun row hrow => Table.mem_insertOrIgnore hrow⟩

/-- A commit of an install at the end of a reconcile: nothing was done, or both rows are completed. -/
def Ends (w w' : World) (intent : Intent) (b : Bool) : Prop :=
  (b = false ∧ Leaves w w') ∨
    b = true ∧ w.lockIntent intent = true ∧ ∃ w₁, Leaves w w₁ ∧
      w' = w₁.completeReconcile intent .installed .installed

theorem Store.installReconcile_ends {records : List Record} {final : Fold}
    (h : Store.installReconcile w intent records final = .ok (b, w')) : Ends w w' intent b := by
  unfold Store.installReconcile at h
  split at h
  · cases h
    exact .inl ⟨rfl, leaves_lockHead w intent.key⟩
  · next hlock =>
      split at h
      · cases h
      · next w₁ hrecords =>
          cases h
          exact .inr ⟨rfl, not_not.1 hlock, w₁,
            (leaves_lockHead w intent.key).trans (leaves_installRecords hrecords), rfl⟩

theorem Store.installHistorical_cases (h : Store.installHistorical w intent r = .ok (b, w')) :
    (b = false ∧ w' = w.lockHead intent.key) ∨
      b = true ∧ w.lockIntent intent = true ∧ ∃ w₁, insertLedgers (w.lockHead intent.key) r = .ok w₁ ∧
        w' = w₁.completeReconcile intent .installed .installed := by
  unfold Store.installHistorical at h
  split at h
  · cases h
    exact .inl ⟨rfl, rfl⟩
  · next hlock =>
      split at h
      · cases h
      · next w₁ hledgers =>
          cases h
          exact .inr ⟨rfl, not_not.1 hlock, w₁, hledgers, rfl⟩

theorem Store.installHistorical_ends (h : Store.installHistorical w intent r = .ok (b, w')) :
    Ends w w' intent b := by
  have hleaves := leaves_lockHead w intent.key
  rcases Store.installHistorical_cases h with ⟨rfl, rfl⟩ | ⟨rfl, hlock, w₁, hledgers, rfl⟩
  · exact .inl ⟨rfl, hleaves⟩
  · exact .inr ⟨rfl, hlock, w₁, hleaves.trans (leaves_insertLedgerRows hledgers), rfl⟩

theorem Leaves.finish {w₁ : World} (h : Leaves w w₁) (intent : Intent) (status : IntentStatus)
    (attempts : Nat → Nat) (result : InputStatus) :
    (w₁.finish intent status attempts result).pending = (w.finish intent status attempts result).pending ∧
      (w₁.finish intent status attempts result).intents = (w.finish intent status attempts result).intents := by
  simp only [World.finish, World.setInput, World.completeIntent, h.pending, h.intents, and_self]

theorem Ends.custody (h : Ends w w' intent b) (hw : Custody w) (hissued : Issued w intent) :
    Custody w' ∧ Follows w w' := by
  rcases h with ⟨_, hleaves⟩ | ⟨_, hlock, w₁, hleaves, rfl⟩
  · exact ⟨hleaves.custody hw, hleaves.follows⟩
  · rcases hleaves.finish intent .installed id .installed with ⟨hpending, hintents⟩
    refine hw.finish hissued hlock (fun _ => le_rfl) (by decide) (by decide) hpending hintents ?_ ?_
    · intro row hrow
      exact .inl (hleaves.dlq ▸ hrow)
    · intro row hrow
      exact .inl (hleaves.alerts ▸ hrow)

theorem Store.installSnapshot_custody {s : Snapshot} (hw : Custody w) (hissued : Issued w intent)
    (hheld : intent.held = held.identity)
    (h : Store.installSnapshot w intent s held = .ok (b, w')) : Custody w' ∧ Follows w w' := by
  have hlocked := leaves_lockHead w intent.key
  unfold Store.installSnapshot at h
  split at h
  · cases h
    exact ⟨hlocked.custody hw, hlocked.follows⟩
  · next hlock =>
      have hlock := not_not.1 hlock
      split at h
      · cases h
      · next w₁ hledgers =>
          split at h
          · cases h
          · next row _ =>
              have hleaves := (hlocked.trans (leaves_insertLedgerRows hledgers)).trans
                (leaves_setHead w₁ intent.key row)
              split at h
              · cases h
              · next w₂ haudit =>
                  rcases rows_insertAudit haudit with ⟨hdlq, halerts⟩
                  rcases (insertAudit_ok haudit).1 with ⟨dlq, alerts, rfl⟩
                  cases h
                  rcases hleaves.finish intent .audited id .dlq with ⟨hpending, hintents⟩
                  refine hw.finish hissued hlock (fun _ => le_rfl) (by decide) (by decide) hpending hintents
                    ?_ ?_
                  · intro r hr
                    rcases hdlq r hr with hold | rfl
                    · exact .inl (hleaves.dlq ▸ hold)
                    · exact .inr ⟨rfl, by rw [hheld]⟩
                  · intro r hr
                    rcases halerts r hr with hold | rfl
                    · exact .inl (hleaves.alerts ▸ hold)
                    · exact .inr ⟨rfl, by rw [hheld]⟩

theorem mem_pendingInput (h : w.pendingInput tenantId eventId = some i) :
    i ∈ w.pending.rows ∧ i.key.tenantId = tenantId ∧ i.eventId = eventId ∧ i.status = .pending :=
  ⟨List.mem_of_find?_eq_some h, by simpa using List.find?_some h⟩

theorem Custody.count (hw : Custody w) (hi : w.pendingInput tenantId eventId = some i)
    (hattempts : i.attempts + 1 < 3) :
    Custody (w.setInput tenantId eventId (· + 1) .pending) ∧
      Follows w (w.setInput tenantId eventId (· + 1) .pending) := by
  have hfollows : Follows w (w.setInput tenantId eventId (· + 1) .pending) :=
    ⟨id, fun _ hj => later_setInput (fun n => Nat.le_succ n) hj⟩
  rcases mem_pendingInput hi with ⟨hmem, htenant, hevent, _⟩
  refine ⟨⟨hw.ranged, fun row hrow hstatus => ?_, fun j hj hstatus => ?_,
    fun row hrow hr => (hw.audited row hrow hr).follow hfollows,
    fun row hrow hr => (hw.alerted row hrow hr).follow hfollows⟩, hfollows⟩
  · rcases hw.held row hrow hstatus with ⟨j, hj, hheld⟩
    refine ⟨_, List.mem_map_of_mem hj, ?_⟩
    split
    · exact ⟨hheld.key, hheld.eventId, hheld.hash, rfl⟩
    · exact hheld
  · rcases List.mem_map.1 hj with ⟨old, hold, rfl⟩
    split
    · next hmatch =>
        have hsame : old = i := w.pending.mem_eq_of_clash PendingInput.clash_symm hold hmem
          (.inl ⟨hmatch.1.trans htenant.symm, hmatch.2.1.trans hevent.symm⟩)
        rw [hsame]
        exact hattempts
    · next hmatch =>
        rw [if_neg hmatch] at hstatus
        exact hw.attempts old hold hstatus

theorem Store.failReconcile_cases (h : Store.failReconcile w intent held = .ok (b, w')) :
    (b = false ∧ w.lockIntent intent = false ∧ w' = w.lockHead intent.key) ∨
      w.lockIntent intent = true ∧ ∃ i, w.pendingInput intent.key.tenantId held.identity.eventId = some i ∧
        ((b = false ∧ i.attempts + 1 < 3 ∧ w' = (w.lockHead intent.key).setInput intent.key.tenantId
            held.identity.eventId (· + 1) .pending) ∨
          b = true ∧ ∃ w₁, insertAudit (w.lockHead intent.key) intent.key intent.token held
              .reconcileExhausted = .ok w₁ ∧
            w' = (w₁.setInput intent.key.tenantId held.identity.eventId (· + 1) .dlq).completeIntent intent
              .audited) := by
  unfold Store.failReconcile at h
  split at h
  · next hlock =>
      cases h
      exact .inl ⟨rfl, by simpa using hlock, rfl⟩
  · next hlock =>
      refine .inr ⟨not_not.1 hlock, ?_⟩
      split at h
      · cases h
      · next i hi =>
          refine ⟨i, hi, ?_⟩
          split at h
          · next hattempts =>
              cases h
              exact .inl ⟨rfl, hattempts, rfl⟩
          · split at h
            · cases h
            · next w₁ haudit =>
                cases h
                exact .inr ⟨rfl, w₁, haudit, rfl⟩

theorem Store.failReconcile_custody (hw : Custody w) (hissued : Issued w intent)
    (hheld : intent.held = held.identity)
    (h : Store.failReconcile w intent held = .ok (b, w')) : Custody w' ∧ Follows w w' := by
  have hleaves := leaves_lockHead w intent.key
  have hlocked := hleaves.custody hw
  rcases Store.failReconcile_cases h with ⟨_, _, rfl⟩ | ⟨hlock, i, hi, ⟨_, hattempts, rfl⟩ | ⟨_, w₁, haudit, rfl⟩⟩
  · exact ⟨hlocked, hleaves.follows⟩
  · have hi' : (w.lockHead intent.key).pendingInput intent.key.tenantId held.identity.eventId = some i := by
      simpa only [World.pendingInput, hleaves.pending] using hi
    rcases hlocked.count hi' hattempts with ⟨hcustody, hfollows⟩
    exact ⟨hcustody, hleaves.follows.trans hfollows⟩
  · rcases rows_insertAudit haudit with ⟨hdlq, halerts⟩
    rcases (insertAudit_ok haudit).1 with ⟨dlq, alerts, rfl⟩
    rcases hleaves.finish intent .audited (· + 1) .dlq with ⟨hpending, hintents⟩
    refine hw.finish hissued hlock (fun n => Nat.le_succ n) (by decide) (by decide) ?_ hintents ?_ ?_
    · rw [← hheld]
      exact hpending
    · intro r hr
      rcases hdlq r hr with hold | rfl
      · exact .inl (hleaves.dlq ▸ hold)
      · exact .inr ⟨rfl, by rw [hheld]⟩
    · intro r hr
      rcases halerts r hr with hold | rfl
      · exact .inl (hleaves.alerts ▸ hold)
      · exact .inr ⟨rfl, by rw [hheld]⟩

theorem Store.recordPoison_custody {u : Unit} (hw : Custody w)
    (h : Store.recordPoison w r .divergentHistory = .ok (u, w')) : Custody w' ∧ Follows w w' := by
  unfold Store.recordPoison at h
  split at h
  · cases h
  · next w₁ haudit =>
      cases h
      rcases rows_insertAudit haudit with ⟨hdlq, halerts⟩
      rcases (insertAudit_ok haudit).1 with ⟨dlq, alerts, rfl⟩
      refine ⟨⟨hw.ranged, hw.held, hw.attempts, fun row hrow hr => ?_, fun row hrow hr => ?_⟩, id,
        fun i hi => ⟨i, hi, .refl i⟩⟩
      · rcases hdlq row hrow with hold | rfl
        · exact hw.audited row hold hr
        · exact absurd rfl hr
      · rcases halerts row hrow with hold | rfl
        · exact hw.alerted row hold hr
        · exact absurd rfl hr

end Finish

end RelayPoint.Participation
