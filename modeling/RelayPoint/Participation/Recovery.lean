import RelayPoint.Concurrency.Serial
import RelayPoint.Participation.Loss

/-!
# Recovery — a gap, an honest authority and a working store

`AuthorityHistory` is what the authority holds for one interaction, and `honest` the environment in
which a call of `Apply` should succeed: the store works, tokens are new, and `Replay` answers with the
requested range of that history.  Under these conditions every transaction on the way of a reconcile
commits, provided that the tables hold nothing that stands in its way.
-/

namespace RelayPoint.Participation

open Concurrency Journal

/-! ## The authority -/

/-- The commands of one interaction.  They are handed out in slices, whose length is an `int`. -/
structure AuthorityHistory where
  key : Key
  records : List Record
  keys : ∀ r ∈ records, r.key = key
  versions : Consecutive Record.version 0 records
  distinct : (records.map fun r => r.identity.eventId).Nodup
  bounded : records.length < 2 ^ 63

namespace AuthorityHistory

variable (h : AuthorityHistory)

def range (fromVersion toVersion : Nat) : List Record :=
  (h.records.drop (fromVersion - 1)).take (toVersion + 1 - fromVersion)

def answers (intent : Intent) : Choice → Bool
  | .replayed (.ok (some replay)) =>
    replay.commands = (h.range intent.requestedFrom intent.requestedTo).map Record.command &&
      replay.historyFloor ≠ 0 && replay.provenance ≠ "" &&
      intent.requestedTo ≤ replay.headVersion &&
      h.records.any fun head => head.version = replay.headVersion &&
        head.identity.eventId = replay.headEventId && head.identity.hash.1 = replay.headHash
  | _ => false

/-- The store does what it is asked to, tokens are new, and the authority sends its history. -/
def honest (w : World) : Op → Choice → Bool
  | .ids, .id token => isUuidv7 token &&
      w.intents.rows.all fun row => ! (row.key.tenantId = h.key.tenantId && row.token = token)
  | .ids, _ => false
  | .replay intent _, ch => h.answers intent ch
  | .snapshot _ _, _ => true
  | _, ch => ch = .go

abbrev Honest (w : World) (op : Op) (ch : Choice) : Prop :=
  h.honest w op ch = true

section Range

variable {h} {m : Nat} {held : Record}

theorem version_le (hheld : held ∈ h.records) : held.version ≤ h.records.length := by
  simpa using (h.versions.of_mem hheld).2.1

theorem fits (hheld : held ∈ h.records) : fitsBigint held.version = true := by
  have := version_le hheld
  have := h.bounded
  simp only [fitsBigint, decide_eq_true_eq]
  omega

def Separate (r s : Record) : Prop :=
  r.version ≠ s.version ∧ r.identity.eventId ≠ s.identity.eventId

theorem pairwise_separate : h.records.Pairwise Separate :=
  List.pairwise_and_iff.2 ⟨h.versions.pairwise_ne, List.pairwise_map.1 h.distinct⟩

variable (h m held) in
def gap : List Record :=
  h.range (m + 1) held.version

theorem gap_eq : h.gap m held = window h.records m held.version := by
  simp [gap, range, window]

theorem gap_subset : ∀ r ∈ h.gap m held, r ∈ h.records := by
  rw [gap_eq]
  exact window_subset

theorem consecutive_gap : Consecutive Record.version m (h.gap m held) := by
  rw [gap_eq]
  exact h.versions.window

theorem length_gap (hheld : held ∈ h.records) : (h.gap m held).length = held.version - m := by
  rw [gap_eq]
  exact h.versions.length_window hheld

theorem mem_gap (hheld : held ∈ h.records) (hm : m < held.version) : held ∈ h.gap m held := by
  rw [gap_eq]
  exact h.versions.mem_window hheld hm

theorem gap_separate : (h.gap m held).Pairwise Separate := by
  rw [gap_eq]
  exact pairwise_window h.pairwise_separate

end Range

end AuthorityHistory

theorem replayRecords_map {key : Key} {rs : List Record} :
    ∀ {b : Nat}, (∀ r ∈ rs, r.key = key) → Consecutive Record.version b rs →
      replayRecords key (b + 1) (rs.map Record.command) = .ok rs := by
  induction rs with
  | nil =>
    intro b _ _
    rfl
  | cons r rs ih =>
    intro b hkeys hcons
    rcases consecutive_cons.1 hcons with ⟨hv, htail⟩
    have hkey : r.key = key := hkeys r (by simp)
    have htenant : r.command.tenantId = key.tenantId := congrArg Key.tenantId hkey
    have hinteraction : r.command.interactionId = key.interactionId :=
      congrArg Key.interactionId hkey
    have hcanonical : canonical r.command = .ok r := dif_pos r.valid
    have hr : replayRecord key (b + 1) r.command = .ok r := by
      have hv : r.command.aggregateVersion = b + 1 := hv
      simp [replayRecord, hcanonical, htenant, hinteraction, hv]
    have hrs := ih (fun s hs => hkeys s (by simp [hs])) htail
    simp [replayRecords, hr, hrs]

theorem validateReplay_honest {h : AuthorityHistory} {held : Record} (hheld : held ∈ h.records)
    {m : Nat} (hm : m < held.version) {intent : Intent} (hkey : intent.key = h.key)
    (hfrom : intent.requestedFrom = m + 1) (hto : intent.requestedTo = held.version)
    {replay : ReplayResponse} (hans : h.answers intent (.replayed (.ok (some replay))) = true) :
    validateReplay (some replay) intent held = .ok (h.gap m held) := by
  simp only [AuthorityHistory.answers, hfrom, hto, Bool.and_eq_true, decide_eq_true_eq,
    List.any_eq_true] at hans
  obtain ⟨⟨⟨⟨hcommands, hfloor⟩, hprov⟩, hhead⟩, head, hmem, ⟨hversion, hid⟩, hhash⟩ := hans
  have hcommands : replay.commands = (h.gap m held).map Record.command := hcommands
  have hlen : replay.commands.length = held.version - (m + 1) + 1 := by
    rw [hcommands, List.length_map, AuthorityHistory.length_gap hheld]
    omega
  have hrecords : replayRecords intent.key (m + 1) replay.commands = .ok (h.gap m held) := by
    rw [hcommands, hkey]
    exact replayRecords_map (fun r hr => h.keys r (AuthorityHistory.gap_subset r hr))
      AuthorityHistory.consecutive_gap
  -- The named head is the last record of the range, or a later one.
  have hlast : (h.gap m held).getLast?.all (headMatches replay) = true := by
    cases hl : (h.gap m held).getLast? with
    | none => rfl
    | some last =>
      have hlast := AuthorityHistory.gap_subset last (List.mem_of_getLast? hl)
      by_cases hsame : replay.headVersion = last.version
      · have : head = last := h.versions.eq_of_version hmem hlast (hversion.trans hsame)
        subst this
        simp [headMatches, hid, hhash]
      · simp [headMatches, hsame]
  have hany : (h.gap m held).any (fun r => r.version = held.version &&
      sameIdentity r.identity held.identity) = true :=
    List.any_eq_true.2 ⟨held, AuthorityHistory.mem_gap hheld hm, by simp [sameIdentity]⟩
  have hcheck : ¬ (replay.historyFloor = 0 ∨ replay.provenance = "" ∨
      replay.headVersion < intent.requestedTo ∨
      replay.commands.length ≠ intent.requestedTo - intent.requestedFrom + 1) := by
    rw [hto, hfrom]
    simp only [not_or, not_not, Nat.not_lt]
    exact ⟨hfloor, hprov, hhead, hlen⟩
  unfold validateReplay
  dsimp only
  rw [if_neg hcheck, hfrom, hrecords]
  simp [hlast, hany]

/-! ## Transactions that commit -/

structure World.Fresh (w : World) (r : Record) : Prop where
  version : ∀ row ∈ w.versions.rows, ¬ VersionRow.Clash row (.of r)
  event : ∀ row ∈ w.events.rows, ¬ EventRow.Clash row (.of r)

instance (w : World) (r : Record) : Decidable (w.Fresh r) :=
  decidable_of_iff ((∀ row ∈ w.versions.rows, ¬ VersionRow.Clash row (.of r)) ∧
    ∀ row ∈ w.events.rows, ¬ EventRow.Clash row (.of r))
    ⟨fun h => ⟨h.1, h.2⟩, fun h => ⟨h.version, h.event⟩⟩

section Commit

variable {w : World} {records : List Record} {key : Key}
variable {r : Record}

theorem insertLedgers_total (hfits : fitsBigint r.version = true) (hfresh : w.Fresh r) :
    ∃ versions events, insertLedgers w r = .ok { w with versions := versions, events := events } ∧
      versions.rows = w.versions.rows ++ [.of r] ∧ events.rows = w.events.rows ++ [.of r] := by
  rcases Table.insert_of_free hfresh.version with ⟨versions, hversions, hvrows⟩
  rcases Table.insert_of_free hfresh.event with ⟨events, hevents, herows⟩
  refine ⟨versions, events, ?_, hvrows, herows⟩
  have hpos : r.version ≠ 0 := r.version_pos.ne'
  unfold insertLedgers insertLedgerRows
  rw [if_neg (by simp [hpos, hfits])]
  change w.versions.insert ⟨r.key, r.version, r.identity.eventId, r.identity.hash,
    some r.identity.body⟩ = some versions at hversions
  change w.events.insert ⟨r.key, r.identity.eventId, r.version, r.identity.hash⟩ = some events
    at hevents
  rw [hversions]
  simp only [hevents]

structure Committed (w w' : World) (records : List Record) : Prop where
  events : w'.events.rows = w.events.rows ++ records.map EventRow.of
  pending : w'.pending = w.pending
  intents : w'.intents = w.intents

theorem installRecord_total (hfits : fitsBigint r.version = true) (hfresh : w.Fresh r) :
    ∃ w', installRecord w r = .ok w' ∧ Committed w w' [r] ∧
      w'.versions.rows = w.versions.rows ++ [.of r] := by
  rcases insertLedgers_total hfits hfresh with ⟨versions, events, hledgers, hversions, hevents⟩
  unfold installRecord
  rw [hledgers]
  by_cases hassigned : r.command.desiredState = .assigned
  · simp only [hassigned]
    exact ⟨_, rfl, ⟨hevents, rfl, rfl⟩, hversions⟩
  · simp only [hassigned]
    exact ⟨_, rfl, ⟨hevents, rfl, rfl⟩, hversions⟩

theorem World.Fresh.of_committed {w' : World} {s : Record} (hs : w.Fresh s)
    (hsep : AuthorityHistory.Separate r s) (hc : Committed w w' [r])
    (hversions : w'.versions.rows = w.versions.rows ++ [.of r]) : w'.Fresh s where
  version := by
    rw [hversions]
    exact List.forall_mem_append.2 ⟨hs.version, List.forall_mem_singleton.2 fun h => hsep.1 h.2⟩
  event := by
    rw [hc.events]
    refine List.forall_mem_append.2 ⟨hs.event, List.forall_mem_singleton.2 ?_⟩
    rintro (⟨_, hid⟩ | ⟨_, hv⟩)
    · exact hsep.2 hid
    · exact hsep.1 hv

theorem World.Fresh.congr {w' : World} (h : w.Fresh r) (hversions : w'.versions = w.versions)
    (hevents : w'.events = w.events) : w'.Fresh r :=
  ⟨hversions ▸ h.version, hevents ▸ h.event⟩

theorem installEach_total :
    ∀ {w : World}, (∀ r ∈ records, fitsBigint r.version = true) → (∀ r ∈ records, w.Fresh r) →
      records.Pairwise AuthorityHistory.Separate →
      ∃ w', installEach w records = .ok w' ∧ Committed w w' records := by
  induction records with
  | nil =>
    intro w _ _ _
    exact ⟨w, rfl, by simp, rfl, rfl⟩
  | cons r rs ih =>
    intro w hfits hfresh hsep
    rcases List.forall_mem_cons.1 hfits with ⟨hfit, hfits⟩
    rcases List.forall_mem_cons.1 hfresh with ⟨hnew, hfresh⟩
    rcases List.pairwise_cons.1 hsep with ⟨hsep, hseps⟩
    rcases installRecord_total hfit hnew with ⟨w₁, h₁, hc₁, hv₁⟩
    rcases ih hfits (fun s hs => (hfresh s hs).of_committed (hsep s hs) hc₁ hv₁) hseps with
      ⟨w₂, h₂, hc₂⟩
    refine ⟨w₂, by simp [installEach, h₁, h₂], ?_, ?_, ?_⟩
    · simp [hc₂.events, hc₁.events]
    · exact hc₂.pending.trans hc₁.pending
    · exact hc₂.intents.trans hc₁.intents

theorem installRecords_total (final : Fold) (hpos : 0 < final.version)
    (hfits : fitsBigint final.version = true) (hrecords : ∀ r ∈ records, fitsBigint r.version = true)
    (hfresh : ∀ r ∈ records, w.Fresh r) (hsep : records.Pairwise AuthorityHistory.Separate) :
    ∃ w', installRecords w records final = .ok w' ∧ Committed w w' records := by
  rcases installEach_total hrecords hfresh hsep with ⟨w₁, h₁, hc⟩
  have hrow : ∃ row, headRow final.version final.identity none = some row :=
    ⟨_, dif_pos ⟨hpos, hfits, rfl⟩⟩
  rcases hrow with ⟨row, hrow⟩
  rcases setHead_eq w₁ final.key row with ⟨heads, hset⟩
  refine ⟨{ w₁ with heads := heads, installs := w₁.installs ++ [(final, w₁.participants final.key)] },
    ?_, hc.events, hc.pending, hc.intents⟩
  simp only [installRecords, h₁, hrow, hset]

end Commit

/-! ## Reconciling -/

def Op.stored : Op → Bool
  | .ids => false
  | .replay _ _ => false
  | .snapshot _ _ => false
  | _ => true

/-- No leftover of an earlier attempt blocks a reconcile at the present head: the interaction has a
pending intent for just this request, or no pending intent and no pending input that conflicts with
the command. -/
def World.unblocked (w : World) (held : Record) : Bool :=
  match w.pendingIntent held.key with
  | some row => row.observedVersion = w.headVersion held.key &&
      row.requestedFrom = w.headVersion held.key + 1 && row.requestedTo = held.version &&
      row.heldEventId = held.identity.eventId && row.heldHash = held.identity.hash
  | none => w.pending.rows.all fun row =>
    ! (row.key.tenantId = held.key.tenantId && row.eventId = held.identity.eventId) &&
      ! (row.key = held.key && row.version = held.version)

structure Begun (w w' : World) (intent : Intent) (held : Record) : Prop where
  key : intent.key = held.key
  observed : intent.observedVersion = w.headVersion held.key
  requestedFrom : intent.requestedFrom = w.headVersion held.key + 1
  requestedTo : intent.requestedTo = held.version
  identity : intent.held = held.identity
  keeps : Keeps w w'
  versions : w'.versions = w.versions
  events : w'.events = w.events
  locked : w'.lockIntent intent = true
  pending : ∀ row ∈ w'.pending.rows, row ∈ w.pending.rows ∨ row = .of intent held
  intents : ∀ row ∈ w'.intents.rows, row.status = .pending →
    row ∈ w.intents.rows ∧ row.key ≠ held.key ∨ row.key = held.key ∧ row.token = intent.token

section Reconcile

variable {w : World} {held : Record} {token : String} {fold : Fold}

theorem no_pendingIntent {key : Key} (h : w.pendingIntent key = none) :
    ∀ row ∈ w.intents.rows, row.key = key → row.status ≠ .pending := by
  intro row hrow hkey hstatus
  have := List.find?_eq_none.1 h row hrow
  simp [hkey, hstatus] at this

theorem Store.beginReconcile_new (hversion : fold.version = w.headVersion held.key)
    (hgap : fold.version < held.version) (hfits : fitsBigint held.version = true)
    (hnone : w.pendingIntent held.key = none)
    (hfree : ∀ row ∈ w.pending.rows, ¬ PendingInput.Clash row
      (.of (newIntent token fold held false) held))
    (htoken : ∀ row ∈ w.intents.rows, ¬ (row.key.tenantId = held.key.tenantId ∧ row.token = token)) :
    ∃ w', Store.beginReconcile w (newIntent token fold held false) held =
        .ok ((newIntent token fold held false, true), w') ∧
      Begun w w' (newIntent token fold held false) held := by
  have hkey : (newIntent token fold held false).key = held.key := rfl
  rcases Table.insert_of_free hfree with ⟨pending, hpending, hprows⟩
  have hintent : ∀ row ∈ w.intents.rows, ¬ IntentRow.Clash row
      (.of (newIntent token fold held false) held) := by
    rintro row hrow (hclash | ⟨hk, hstatus, _⟩)
    · exact htoken row hrow hclash
    · exact no_pendingIntent hnone row hrow hk hstatus
  rcases Table.insert_of_free hintent with ⟨intents, hintents, hirows⟩
  have hrange : ¬ ((newIntent token fold held false).requestedFrom = 0 ∨
      (newIntent token fold held false).requestedTo <
        (newIntent token fold held false).requestedFrom ∨
      ¬ fitsBigint (newIntent token fold held false).requestedTo) := by
    simp only [newIntent, Bool.false_eq_true, if_false]
    rintro (hzero | hlt | hbig)
    · omega
    · omega
    · exact hbig hfits
  have hbegin : Store.beginReconcile w (newIntent token fold held false) held =
      .ok ((newIntent token fold held false, true),
        { w.lockHead held.key with pending := pending, intents := intents }) := by
    unfold Store.beginReconcile
    rw [if_neg (by simpa [newIntent] using hversion.symm), hkey, hnone]
    simp only [hfits, not_true_eq_false, if_false, hpending, hrange, hintents]
  have hkeeps := (Store.beginReconcile_ok hbegin).1
  rcases lockHead_eq w held.key with ⟨heads, hlock⟩
  refine ⟨_, hbegin, rfl, hversion, ?_, rfl, rfl, hkeeps, by simp [hlock], by simp [hlock], ?_, ?_, ?_⟩
  · simp [newIntent, hversion]
  · have hhead := congrFun hkeeps.head held.key
    simp only [World.lockIntent, hkey, hhead, Bool.and_eq_true, decide_eq_true_eq]
    refine ⟨hversion.symm, List.any_eq_true.2 ⟨.of (newIntent token fold held false) held, ?_, ?_⟩⟩
    · simp [hirows]
    · simp [IntentRow.of, hkey]
  · intro row hrow
    rwa [hprows, List.mem_append, List.mem_singleton] at hrow
  · intro row hrow hstatus
    rw [hirows, List.mem_append, List.mem_singleton] at hrow
    rcases hrow with hrow | rfl
    · exact .inl ⟨hrow, fun hk => no_pendingIntent hnone row hrow hk hstatus⟩
    · exact .inr ⟨rfl, rfl⟩

theorem Store.beginReconcile_resume (hversion : fold.version = w.headVersion held.key)
    {row : IntentRow} (hrow : w.pendingIntent held.key = some row)
    (hobs : row.observedVersion = w.headVersion held.key)
    (hfrom : row.requestedFrom = w.headVersion held.key + 1) (hto : row.requestedTo = held.version)
    (hid : row.heldEventId = held.identity.eventId) (hhash : row.heldHash = held.identity.hash) :
    ∃ w', Store.beginReconcile w (newIntent token fold held false) held =
        .ok (((newIntent token fold held false).resume row, true), w') ∧
      Begun w w' ((newIntent token fold held false).resume row) held := by
  have hkey : (newIntent token fold held false).key = held.key := rfl
  have hobs' : (newIntent token fold held false).observedVersion = fold.version := rfl
  have hbegin : Store.beginReconcile w (newIntent token fold held false) held =
      .ok (((newIntent token fold held false).resume row, true), w.lockHead held.key) := by
    unfold Store.beginReconcile
    rw [hkey, hrow]
    simp [hobs, hobs', hversion, hid, hhash]
  have hkeeps := (Store.beginReconcile_ok hbegin).1
  rcases mem_pendingIntent hrow with ⟨hmem, hrkey, hstatus⟩
  rcases lockHead_eq w held.key with ⟨heads, hlock⟩
  have hintents : (w.lockHead held.key).intents = w.intents := by simp [hlock]
  have hpending : (w.lockHead held.key).pending = w.pending := by simp [hlock]
  refine ⟨_, hbegin, rfl, hobs, hfrom, hto, rfl, hkeeps, by simp [hlock], by simp [hlock], ?_, ?_, ?_⟩
  · have hhead := congrFun hkeeps.head held.key
    simp only [World.lockIntent, Intent.resume, hkey, hhead, hintents, Bool.and_eq_true,
      decide_eq_true_eq]
    exact ⟨hobs.symm, List.any_eq_true.2 ⟨row, hmem, by simp [hrkey, hstatus]⟩⟩
  · intro r hr
    rw [hpending] at hr
    exact .inl hr
  · intro r hr hrstatus
    rw [hintents] at hr
    by_cases hk : r.key = held.key
    · have hsame : r = row := w.intents.mem_eq_of_clash IntentRow.clash_symm hr hmem
        (.inr ⟨hk.trans hrkey.symm, hrstatus, hstatus⟩)
      exact .inr ⟨hk, by rw [hsame]; rfl⟩
    · exact .inl ⟨hr, hk⟩

theorem Store.beginReconcile_total (hversion : fold.version = w.headVersion held.key)
    (hgap : fold.version < held.version) (hfits : fitsBigint held.version = true)
    (hclear : w.unblocked held = true)
    (htoken : ∀ row ∈ w.intents.rows, ¬ (row.key.tenantId = held.key.tenantId ∧ row.token = token)) :
    ∃ intent w', Store.beginReconcile w (newIntent token fold held false) held =
        .ok ((intent, true), w') ∧ Begun w w' intent held := by
  unfold World.unblocked at hclear
  cases hrow : w.pendingIntent held.key with
  | none =>
    rw [hrow] at hclear
    simp only [List.all_eq_true, Bool.and_eq_true, Bool.not_eq_true', Bool.and_eq_false_iff,
      decide_eq_false_iff_not] at hclear
    refine ⟨_, Store.beginReconcile_new hversion hgap hfits hrow ?_ htoken⟩
    rintro row hmem (⟨htenant, hid⟩ | ⟨hk, hv⟩)
    · exact (hclear row hmem).1.elim (· htenant) (· hid)
    · exact (hclear row hmem).2.elim (· hk) (· hv)
  | some row =>
    rw [hrow] at hclear
    simp only [Bool.and_eq_true, decide_eq_true_eq] at hclear
    obtain ⟨⟨⟨⟨hobs, hfrom⟩, hto⟩, hid⟩, hhash⟩ := hclear
    exact ⟨_, Store.beginReconcile_resume hversion hrow hobs hfrom hto hid hhash⟩

end Reconcile

/-! ## Catching up -/

/-- The store has moved from its head to the held command, by the records in between. -/
structure CaughtUp (w w' : World) (held : Record) (records : List Record) : Prop where
  head : w'.headVersion = Function.update w.headVersion held.key held.version
  participants : w'.participants held.key = records.foldl Record.apply (w.participants held.key)
  versions : w'.versions.rows = w.versions.rows ++ records.map VersionRow.of
  events : w'.events.rows = w.events.rows ++ records.map EventRow.of
  pending : ∀ row ∈ w'.pending.rows, (∃ old ∈ w.pending.rows, row.key = old.key ∧
      row.eventId = old.eventId ∧ row.version = old.version) ∨
    row.key = held.key ∧ row.eventId = held.identity.eventId ∧ row.version = held.version
  intents : ∀ row ∈ w'.intents.rows, row.status = .pending → row ∈ w.intents.rows

section CatchUp

variable {h : AuthorityHistory} {w : World} {held : Record} {fold : Fold}
variable {intent : Intent} {status : IntentStatus} {input : InputStatus} {version : Nat}
variable {Q : Except Err (Fold × Option Identity) → World → Prop}

theorem pending_completeReconcile {row : PendingInput}
    (hrow : row ∈ (w.completeReconcile intent status input).pending.rows) :
    ∃ old ∈ w.pending.rows, row.key = old.key ∧ row.eventId = old.eventId ∧
      row.version = old.version := by
  simp only [World.completeReconcile, World.setInput, Table.rows_update,
    List.mem_map] at hrow
  rcases hrow with ⟨old, hold, rfl⟩
  refine ⟨old, hold, ?_⟩
  split_ifs <;> exact ⟨rfl, rfl, rfl⟩

theorem intents_completeReconcile (hstatus : status ≠ .pending) {row : IntentRow}
    (hrow : row ∈ (w.completeReconcile intent status input).intents.rows)
    (hpending : row.status = .pending) : row ∈ w.intents.rows ∧
      ¬ (row.key.tenantId = intent.key.tenantId ∧ row.token = intent.token) := by
  simp only [World.completeReconcile, World.setInput, World.completeIntent, Table.rows_update,
    List.mem_map] at hrow
  rcases hrow with ⟨old, hold, rfl⟩
  split_ifs at hpending ⊢ with hmatch
  · exact absurd hpending hstatus
  · exact ⟨hold, fun hk => hmatch ⟨hk.1, hk.2, hpending⟩⟩

theorem Store.installReconcile_total {w₁ : World} {final : Fold} (hb : Begun w w₁ intent held)
    (hheld : held ∈ h.records) (hgap : w.headVersion held.key < held.version)
    (hfresh : ∀ r ∈ h.gap (w.headVersion held.key) held, w.Fresh r) (hkey : final.key = held.key)
    (hversion : final.version = held.version) :
    ∃ w', Store.installReconcile w₁ intent (h.gap (w.headVersion held.key) held) final =
        .ok (true, w') ∧ CaughtUp w w' held (h.gap (w.headVersion held.key) held) := by
  rcases lockHead_eq w₁ intent.key with ⟨heads, hlock⟩
  have hkeys : ∀ r ∈ h.gap (w.headVersion held.key) held, r.key = final.key := by
    intro r hr
    rw [h.keys r (AuthorityHistory.gap_subset r hr), hkey, h.keys held hheld]
  have hfits := AuthorityHistory.fits hheld
  have hfresh₁ : ∀ r ∈ h.gap (w.headVersion held.key) held, (w₁.lockHead intent.key).Fresh r :=
    fun r hr => (hfresh r hr).congr (by simp [hlock, hb.versions]) (by simp [hlock, hb.events])
  rcases installRecords_total final (by omega) (by rw [hversion]; exact hfits)
    (fun r hr => AuthorityHistory.fits (AuthorityHistory.gap_subset r hr)) hfresh₁
    AuthorityHistory.gap_separate with ⟨w₂, hinstall, hcommit⟩
  have hrun : Store.installReconcile w₁ intent (h.gap (w.headVersion held.key) held) final =
      .ok (true, w₂.completeReconcile intent .installed .installed) := by
    simp only [Store.installReconcile, hb.locked, not_true_eq_false, if_false, hinstall]
  refine ⟨_, hrun, ?_⟩
  rcases Store.installReconcile_ok (by rw [hkey, hb.key]) hkeys hrun with
    ⟨hfalse, _⟩ | ⟨_, _, hext⟩
  · cases hfalse
  · have hpending : w₂.pending = w₁.pending := by rw [hcommit.pending, hlock]
    have hintents : w₂.intents = w₁.intents := by rw [hcommit.intents, hlock]
    refine ⟨?_, ?_, ?_, ?_, ?_, ?_⟩
    · rw [hext.head, hkey, hversion, hb.keeps.head]
    · rw [hext.participants, hkey, hb.keeps.participants]
      simp
    · rw [hext.versions, hb.versions]
    · have hevents : w₂.events.rows = w₁.events.rows ++
          (h.gap (w.headVersion held.key) held).map EventRow.of := by rw [hcommit.events, hlock]
      rw [hb.events] at hevents
      exact hevents
    · intro row hrow
      rcases pending_completeReconcile hrow with ⟨old, hold, hk, hid, hv⟩
      rw [hpending] at hold
      rcases hb.pending old hold with hold | rfl
      · exact .inl ⟨old, hold, hk, hid, hv⟩
      · exact .inr ⟨hk.trans hb.key, hid, hv⟩
    · intro row hrow hstatus
      rcases intents_completeReconcile (by simp) hrow hstatus with ⟨hrow, hother⟩
      rw [hintents] at hrow
      rcases hb.intents row hrow hstatus with hold | ⟨hk, htoken⟩
      · exact hold.1
      · exact absurd ⟨by rw [hk, hb.key], htoken⟩ hother

theorem transact_go {α : Type} {w' : World} {tx : Except Err (α × World)} {a : α}
    (h : tx = .ok (a, w')) : transact w tx .go = some (.ok a, w') := by
  rw [h]
  rfl

theorem honest_go {op : Op} (hop : op.stored = true) : ∀ ch, h.Honest w op ch → ch = .go := by
  cases op with
  | ids | replay _ _ | snapshot _ _ => cases hop
  | _ => simp [AuthorityHistory.Honest, AuthorityHistory.honest]

theorem serves_reconcile (hheld : held ∈ h.records) (hfold : fold.key = held.key)
    (hversion : fold.version = w.headVersion held.key) (hgap : w.headVersion held.key < held.version)
    (hclear : w.unblocked held = true)
    (hfresh : ∀ r ∈ h.gap (w.headVersion held.key) held, w.Fresh r) :
    Serves machine h.Honest (fun o w' => o = ⟨some .applied, none⟩ ∧
      CaughtUp w w' held (h.gap (w.headVersion held.key) held)) (reconcile fold held false) w := by
  have hfits := AuthorityHistory.fits hheld
  have hhkey := h.keys held hheld
  refine serves_perform ?_
  intro ch hok
  cases ch with
  | id token =>
    simp only [AuthorityHistory.Honest, AuthorityHistory.honest, Bool.and_eq_true,
      List.all_eq_true, Bool.not_eq_true', Bool.and_eq_false_iff, decide_eq_false_iff_not] at hok
    rcases hok with ⟨huuid, htoken⟩
    have htoken : ∀ row ∈ w.intents.rows,
        ¬ (row.key.tenantId = held.key.tenantId ∧ row.token = token) := by
      rintro row hrow ⟨htenant, heq⟩
      exact (htoken row hrow).elim (· (htenant.trans (congrArg Key.tenantId hhkey))) (· heq)
    refine ⟨token, w, by simp [machine, perform, huuid], ?_⟩
    simp only [huuid]
    rcases Store.beginReconcile_total hversion (hversion ▸ hgap) hfits hclear htoken with
      ⟨intent, w₁, hbegin, hb⟩
    refine serves_step (honest_go rfl) (transact_go hbegin) ?_
    -- The authority answers the request with the gap.
    refine serves_perform ?_
    intro ch hok
    have hans : h.answers intent ch = true := hok
    match ch, hans with
    | .replayed (.ok (some replay)), hans =>
      have hval := validateReplay_honest hheld hgap (hb.key.trans hhkey) hb.requestedFrom
        hb.requestedTo hans
      have hgapkeys : ∀ r ∈ h.gap (w.headVersion held.key) held, r.key = fold.key := by
        intro r hr
        rw [h.keys r (AuthorityHistory.gap_subset r hr), hfold, hhkey]
      rcases foldRecords_total hgapkeys (hversion ▸ AuthorityHistory.consecutive_gap) with
        ⟨final, hfinal⟩
      have hf := foldRecords_ok hfinal
      have hfinalv : final.version = held.version := by
        rw [hf.version, AuthorityHistory.length_gap hheld]
        omega
      refine ⟨.ok (some replay), w₁, rfl, ?_⟩
      simp only [hval, installReplay, hfinal]
      rcases Store.installReconcile_total hb hheld hgap hfresh ((hf.key hgapkeys).trans hfold)
        hfinalv with ⟨w₂, hinstall, hup⟩
      exact serves_step (honest_go rfl) (transact_go hinstall) (serves_pure ⟨rfl, hup⟩)
  | _ => simp [AuthorityHistory.Honest, AuthorityHistory.honest] at hok

theorem Store.install_total {final : Fold} (hheld : held ∈ h.records)
    (hnext : held.version = w.headVersion held.key + 1) (hkey : final.key = held.key)
    (hversion : final.version = held.version)
    (hfresh : ∀ r ∈ h.gap (w.headVersion held.key) held, w.Fresh r) :
    ∃ w', Store.install w (w.headVersion held.key) [held] final = .ok (true, w') ∧
      CaughtUp w w' held (h.gap (w.headVersion held.key) held) := by
  have hone : h.gap (w.headVersion held.key) held = [held] := by
    have hlen : (h.gap (w.headVersion held.key) held).length = 1 := by
      rw [AuthorityHistory.length_gap hheld]
      omega
    rcases List.length_eq_one_iff.1 hlen with ⟨r, hr⟩
    have hmem := AuthorityHistory.mem_gap hheld (m := w.headVersion held.key) (by omega)
    rw [hr] at hmem ⊢
    rw [List.mem_singleton.1 hmem]
  have hfits := AuthorityHistory.fits hheld
  rcases lockHead_eq w held.key with ⟨heads, hlock⟩
  have hfresh₁ : ∀ r ∈ [held], (w.lockHead held.key).Fresh r := by
    rw [← hone]
    exact fun r hr => (hfresh r hr).congr (by simp [hlock]) (by simp [hlock])
  rcases installRecords_total final (by omega) (by rw [hversion]; exact hfits)
    (by simpa using hfits) hfresh₁ (by simp) with ⟨w₁, hinstall, hcommit⟩
  have hrun : Store.install w (w.headVersion held.key) [held] final = .ok (true, w₁) := by
    simp only [Store.install, hkey, ne_eq, not_true_eq_false, if_false, hinstall]
  refine ⟨w₁, hrun, ?_⟩
  rcases Store.install_ok (by simpa using hkey.symm) hrun with ⟨hfalse, _⟩ | ⟨_, _, hext⟩
  · cases hfalse
  · rw [hone]
    refine ⟨by rw [hext.head, hkey, hversion], ?_, hext.versions, ?_, ?_, ?_⟩
    · rw [hext.participants, hkey]
      simp
    · rw [hcommit.events, hlock]
    · intro row hrow
      rw [hcommit.pending, hlock] at hrow
      exact .inl ⟨row, hrow, rfl, rfl, rfl⟩
    · intro row hrow _
      rw [hcommit.intents, hlock] at hrow
      exact hrow

theorem serves_loadLedger (hv : version ≠ 0) (hfits : fitsBigint version = true) {key : Key}
    (hQ : Q (.ok (fold, w.retained key version)) w) :
    Serves machine h.Honest Q (loadLedger fold key version) w := by
  unfold loadLedger
  rw [if_neg hv]
  refine serves_step (a := .ok (w.retained key version)) (honest_go rfl) ?_ (serves_pure hQ)
  change readAnswer w (if fitsBigint version then .ok (w.retained key version) else .error []) .go = _
  rw [if_pos hfits]
  rfl

theorem serves_load (hv : version ≠ 0) (hfits : fitsBigint version = true) {key : Key}
    (hQ : ∀ fold : Fold, fold.key = key → fold.version = w.headVersion key →
      Q (.ok (fold, w.retained key version)) w) :
    Serves machine h.Honest Q (load key version) w := by
  refine serves_step (honest_go rfl) rfl ?_
  cases hrow : w.heads key with
  | none => exact serves_loadLedger hv hfits (hQ _ rfl (by simp [World.headVersion, hrow, Fold.initial]))
  | some row =>
    have hcheck : ¬ (0 < row.version ∧ row.identity = none) := by
      rintro ⟨hpos, hnone⟩
      exact hpos.ne' (row.check.2 hnone)
    simp only [hcheck]
    refine serves_step (honest_go rfl) rfl ?_
    exact serves_loadLedger hv hfits (hQ _ rfl (by simp [World.headVersion, hrow, HeadRow.fold]))

theorem serves_applyRecord (hheld : held ∈ h.records) (habove : w.headVersion held.key < held.version)
    (hclear : w.headVersion held.key + 1 < held.version → w.unblocked held = true)
    (hfresh : ∀ r ∈ h.gap (w.headVersion held.key) held, w.Fresh r) :
    Serves machine h.Honest (fun o w' => o = ⟨some .applied, none⟩ ∧
      CaughtUp w w' held (h.gap (w.headVersion held.key) held)) (applyRecord held) w := by
  refine serves_bind (serves_load held.version_pos.ne' (AuthorityHistory.fits hheld) ?_)
  intro fold hfold hversion
  have hnot : ¬ held.version ≤ fold.version := by omega
  simp only [applyLoaded, hnot]
  by_cases hgap : fold.version + 1 < held.version
  · simp only [hgap]
    exact serves_reconcile hheld hfold hversion habove (hclear (hversion ▸ hgap)) hfresh
  · simp only [hgap]
    have hnext : held.version = fold.version + 1 := by omega
    have hkeys : ∀ r ∈ [held], r.key = fold.key := by simp [hfold]
    rcases foldRecords_total hkeys (consecutive_cons.2 ⟨hnext, consecutive_nil⟩) with ⟨final, hfinal⟩
    have hf := foldRecords_ok hfinal
    rcases Store.install_total hheld (by omega) ((hf.key hkeys).trans hfold)
      (by simp [hf.version, hnext]) hfresh with ⟨w', hinstall, hup⟩
    simp only [hfinal]
    exact serves_step (honest_go rfl) (transact_go (hversion ▸ hinstall)) (serves_pure ⟨rfl, hup⟩)

theorem apply_authorized {principal : Principal} (r : Record)
    (htenant : principal.tenantId = r.command.tenantId)
    (hgrant : validTransportGrant principal.grant capabilityWrite = true) :
    apply principal r.command = applyRecord r := by
  have hcanonical : canonical r.command = .ok r := dif_pos r.valid
  simp [apply, hcanonical, htenant, hgrant]

/-- With an honest authority and a working store a gap is closed, from any state of the store in
which no leftover of an earlier attempt and no ledger row stands in the way. -/
theorem gap_recovered {principal : Principal} (htenant : principal.tenantId = h.key.tenantId)
    (hgrant : validTransportGrant principal.grant capabilityWrite = true) (hheld : held ∈ h.records)
    (hgap : w.headVersion h.key + 1 < held.version) (hclear : w.unblocked held = true)
    (hfresh : ∀ r ∈ h.gap (w.headVersion h.key) held, w.Fresh r) :
    Serves machine h.Honest
      (fun o w' => o = ⟨some .applied, none⟩ ∧ w'.headVersion h.key = held.version)
      (apply principal held.command) w := by
  have hkey := h.keys held hheld
  rw [← hkey] at htenant hgap hfresh ⊢
  rw [apply_authorized held htenant hgrant]
  refine Serves.mono ?_ (serves_applyRecord hheld (by omega) (fun _ => hclear) hfresh)
  rintro o w' ⟨ho, hup⟩
  exact ⟨ho, by simp [hup.head]⟩

end CatchUp

/-! ## An intent that outlives its head -/

namespace Scenario

def caller : Principal :=
  ⟨tenant, writeGrant⟩

def history : AuthorityHistory where
  key := key
  records := [⟨first, by decide +kernel⟩, ⟨second, by decide +kernel⟩, thirdRecord]
  keys := by decide +kernel
  versions := consecutive_cons.2 ⟨rfl, consecutive_cons.2 ⟨rfl, consecutive_cons.2
    ⟨rfl, consecutive_nil⟩⟩⟩
  distinct := by decide +kernel
  bounded := by simp

def token₂ : String := "018f4000-0000-7000-8000-000000000007"

def replayFailed : Schedule :=
  [apply first] ++ acts 0 [.go, .go, .go] ++ [apply third] ++
    acts 1 [.go, .go, .go, .id token, .go, .replayed (.error []), .go]

def headMoved : Schedule :=
  [apply third] ++ acts 0 [.go, .go, .id token, .go, .replayed (.error []), .go] ++
    [apply first] ++ acts 1 [.go, .go, .go, .go]

def idle (c : Config Ans (Principal × ParticipationCommand) World Outcome) : Bool :=
  c.pool.all fun th =>
    match th.prog with
    | .ret _ => true
    | .call _ _ => false

end Scenario

open Scenario in
theorem gap_recovered_replayFailed :
    ∃ c : Config Ans (Principal × ParticipationCommand) World Outcome,
      Reachable machine applyCall anything World.empty c ∧ idle c = true ∧
        c.world.headVersion key + 1 < thirdRecord.version ∧
        Serves machine history.Honest
          (fun o w => o = ⟨some .applied, none⟩ ∧ w.headVersion key = thirdRecord.version)
          (Participation.apply caller thirdRecord.command) c.world := by
  have hrun : (run machine applyCall anything replayFailed ⟨World.empty, []⟩).map
      (fun c => (idle c, c.world.headVersion key, c.world.unblocked thirdRecord,
        decide (∀ r ∈ history.gap 1 thirdRecord, c.world.Fresh r))) =
        some (true, 1, true, true) := by
    decide +kernel
  rcases exists_of_run hrun with ⟨c, hc, hvalue⟩
  simp only [Prod.mk.injEq, decide_eq_true_eq] at hvalue
  rcases hvalue with ⟨hidle, hhead, hclear, hfresh⟩
  have hgap : c.world.headVersion key + 1 < thirdRecord.version := by
    rw [hhead]
    decide
  refine ⟨c, hc, hidle, hgap, ?_⟩
  refine gap_recovered (h := history) rfl (by decide) (by simp [history]) hgap hclear ?_
  rw [← hhead] at hfresh
  exact hfresh

open Scenario in
/-- The intent observed version 0.  At head 1 it makes every later attempt a divergent history. -/
theorem gap_wedged :
    ∃ c : Config Ans (Principal × ParticipationCommand) World Outcome,
      Reachable machine applyCall anything World.empty c ∧ idle c = true ∧
        c.world.headVersion key + 1 < thirdRecord.version ∧ thirdRecord ∈ history.records ∧
        ¬ Serves machine history.Honest
          (fun o w => o = ⟨some .applied, none⟩ ∧ w.headVersion key = thirdRecord.version)
          (Participation.apply caller thirdRecord.command) c.world := by
  have hrun : (run machine applyCall anything headMoved ⟨World.empty, []⟩).map
      (fun c => (idle c, c.world.headVersion key,
        (exec machine history.Honest [.go, .go, .go, .id token₂, .go]
          (Participation.apply caller thirdRecord.command) c.world).map fun p =>
            (p.1, p.2.headVersion key))) =
        some (true, 1, some (⟨none, some [.divergentHistory]⟩, 1)) := by
    decide +kernel
  rcases exists_of_run hrun with ⟨c, hc, hvalue⟩
  simp only [Prod.mk.injEq] at hvalue
  rcases hvalue with ⟨hidle, hhead, hexec⟩
  rcases Option.map_eq_some_iff.1 hexec with ⟨⟨o, w⟩, hexec, heq⟩
  refine ⟨c, hc, hidle, by rw [hhead]; decide, by simp [history], fun hserves => ?_⟩
  have ho := (hserves.exec hexec).1
  simp only [Prod.mk.injEq] at heq
  rw [heq.1] at ho
  cases ho

end RelayPoint.Participation
