import RelayPoint.Participation.Store

/-!
# Effects — what a committed transaction did to the tables

Three things can happen to the folded part of the store (heads, participants, ledgers):

* `Keeps` — the heads and the participants stay, the ledgers may get rows;
* `Extended` — an install moved one head forward by a list of records;
* `Restarted` — a snapshot replaced head and participants of one interaction.
-/

namespace RelayPoint.Participation

open Wire

/-! ## Effects -/

structure Keeps (w w' : World) : Prop where
  head : w'.headVersion = w.headVersion
  participants : w'.participants = w.participants
  base : w'.base = w.base
  installs : w'.installs = w.installs
  versions : w.versions.rows <+: w'.versions.rows
  events : w.events.rows <+: w'.events.rows
  dlq : w.dlq.rows <+: w'.dlq.rows

namespace Keeps

theorem refl (w : World) : Keeps w w :=
  ⟨rfl, rfl, rfl, rfl, List.prefix_rfl, List.prefix_rfl, List.prefix_rfl⟩

theorem trans {w₁ w₂ w₃ : World} (h : Keeps w₁ w₂) (h' : Keeps w₂ w₃) : Keeps w₁ w₃ :=
  ⟨h'.head.trans h.head, h'.participants.trans h.participants, h'.base.trans h.base,
    h'.installs.trans h.installs, h.versions.trans h'.versions, h.events.trans h'.events,
    h.dlq.trans h'.dlq⟩

end Keeps

def VersionRow.of (r : Record) : VersionRow :=
  ⟨r.key, r.version, r.identity.eventId, r.identity.hash, some r.identity.body⟩

def EventRow.of (r : Record) : EventRow :=
  ⟨r.key, r.identity.eventId, r.version, r.identity.hash⟩

structure Extended (w w' : World) (records : List Record) (final : Fold) : Prop where
  head : w'.headVersion = Function.update w.headVersion final.key final.version
  participants : w'.participants = Function.update w.participants final.key
    (records.foldl Record.apply (w.participants final.key))
  base : w'.base = w.base
  installs : w'.installs = w.installs ++ [(final, w'.participants final.key)]
  versions : w'.versions.rows = w.versions.rows ++ records.map VersionRow.of
  events : w'.events.rows = w.events.rows ++ records.map EventRow.of
  dlq : w'.dlq.rows = w.dlq.rows

structure Restarted (w w' : World) (key : Key) (s : Snapshot) : Prop where
  pos : 0 < s.fold.version
  fresh : ∀ row ∈ w.versions.rows, ¬ (row.key = key ∧ row.version = s.fold.version)
  head : w'.headVersion = Function.update w.headVersion key s.fold.version
  participants : w'.participants = Function.update w.participants key s.fold.participants
  base : w'.base = Function.update w.base key (some s)
  installs : w'.installs = w.installs
  versions : w'.versions.rows = w.versions.rows ++
    [⟨key, s.fold.version, s.fold.identity.eventId, s.fold.identity.hash, none⟩]
  events : w'.events.rows = w.events.rows ++
    [⟨key, s.fold.identity.eventId, s.fold.version, s.fold.identity.hash⟩]
  dlq : w.dlq.rows <+: w'.dlq.rows

theorem Extended.of_keeps {w w₁ w' w'' : World} {records : List Record} {final : Fold}
    (h : Extended w₁ w' records final) (hw : Keeps w w₁) (hrows : w₁.versions.rows = w.versions.rows)
    (hevents : w₁.events.rows = w.events.rows) (hdlq : w₁.dlq.rows = w.dlq.rows) (hw' : Keeps w' w'')
    (hrows' : w''.versions.rows = w'.versions.rows) (hevents' : w''.events.rows = w'.events.rows)
    (hdlq' : w''.dlq.rows = w'.dlq.rows) :
    Extended w w'' records final where
  head := by rw [hw'.head, h.head, hw.head]
  participants := by rw [hw'.participants, h.participants, hw.participants]
  base := by rw [hw'.base, h.base, hw.base]
  installs := by rw [hw'.installs, h.installs, hw.installs, hw'.participants]
  versions := by rw [hrows', h.versions, hrows]
  events := by rw [hevents', h.events, hevents]
  dlq := by rw [hdlq', h.dlq, hdlq]

/-! ## Statements -/

section Statements

variable {w w' : World} {key : Key} {intent : Intent} {r held : Record}

@[simp] theorem headVersion_lockHead (w : World) (key : Key) :
    (w.lockHead key).headVersion = w.headVersion := by
  funext k
  unfold World.lockHead
  cases hrow : w.heads key with
  | some row => rfl
  | none =>
    by_cases hk : k = key
    · subst hk
      simp [World.headVersion, hrow, HeadRow.initial]
    · simp [World.headVersion, Function.update_of_ne hk]

theorem isSome_lockHead (w : World) (key : Key) : ((w.lockHead key).heads key).isSome := by
  unfold World.lockHead
  cases hrow : w.heads key with
  | some row => simp [hrow]
  | none => simp

theorem lockHead_eq (w : World) (key : Key) :
    ∃ heads, w.lockHead key = { w with heads := heads } := by
  unfold World.lockHead
  cases w.heads key with
  | some row => exact ⟨w.heads, rfl⟩
  | none => exact ⟨_, rfl⟩

theorem keeps_lockHead (w : World) (key : Key) : Keeps w (w.lockHead key) := by
  have hhead := headVersion_lockHead w key
  rcases lockHead_eq w key with ⟨heads, heq⟩
  rw [heq] at hhead ⊢
  exact ⟨hhead, rfl, rfl, rfl, List.prefix_rfl, List.prefix_rfl, List.prefix_rfl⟩

theorem keeps_completeReconcile (w : World) (intent : Intent) (status : IntentStatus)
    (input : InputStatus) : Keeps w (w.completeReconcile intent status input) :=
  ⟨rfl, rfl, rfl, rfl, List.prefix_rfl, List.prefix_rfl, List.prefix_rfl⟩

variable {row : HeadRow} {eventId : String} {hash : Digest} {body : Option Bytes}

theorem headVersion_setHead (h : (w.heads key).isSome) :
    (w.setHead key row).headVersion = Function.update w.headVersion key row.version := by
  rcases Option.isSome_iff_exists.1 h with ⟨old, hold⟩
  funext k
  by_cases hk : k = key
  · subst hk
    simp [World.setHead, World.headVersion, hold]
  · simp [World.setHead, World.headVersion, hold, Function.update_of_ne hk]

theorem setHead_eq (w : World) (key : Key) (row : HeadRow) :
    ∃ heads, w.setHead key row = { w with heads := heads } := by
  unfold World.setHead
  cases w.heads key with
  | some old => exact ⟨_, rfl⟩
  | none => exact ⟨w.heads, rfl⟩

variable {version : Nat} {token : String} {reason : Reason}

theorem headRow_some {identity : Identity} {provenance : Option String}
    (h : headRow version identity provenance = some row) : 0 < version ∧ row.version = version := by
  unfold headRow at h
  split at h
  · next hv =>
      cases h
      exact ⟨hv.1, rfl⟩
  · cases h

theorem insertLedgerRows_ok (h : insertLedgerRows w key version eventId hash body = .ok w') :
    (∃ versions events, w' = { w with versions := versions, events := events }) ∧
      w'.versions.rows = w.versions.rows ++ [⟨key, version, eventId, hash, body⟩] ∧
      w'.events.rows = w.events.rows ++ [⟨key, eventId, version, hash⟩] ∧
      ∀ row ∈ w.versions.rows, ¬ (row.key = key ∧ row.version = version) := by
  unfold insertLedgerRows at h
  split at h
  · cases h
  · split at h
    · cases h
    · next versions hversions =>
        split at h
        · cases h
        · next events hevents =>
            cases h
            rcases Table.insert_eq_some hversions with ⟨hrows, hfree⟩
            exact ⟨⟨versions, events, rfl⟩, hrows, (Table.insert_eq_some hevents).1, hfree⟩

theorem insertLedgerRows_error {e : Err}
    (h : insertLedgerRows w key version eventId hash body = .error e) : e = [] := by
  unfold insertLedgerRows at h
  split at h
  · exact (Except.error.inj h).symm
  · split at h
    · exact (Except.error.inj h).symm
    · split at h
      · exact (Except.error.inj h).symm
      · cases h

theorem keeps_insertLedgers (h : insertLedgers w r = .ok w') : Keeps w w' := by
  rcases insertLedgerRows_ok h with ⟨⟨versions, events, heq⟩, hrows, hevents, _⟩
  subst heq
  exact ⟨rfl, rfl, rfl, rfl, ⟨_, hrows.symm⟩, ⟨_, hevents.symm⟩, List.prefix_rfl⟩

theorem mem_pendingIntent {row : IntentRow} (h : w.pendingIntent key = some row) :
    row ∈ w.intents.rows ∧ row.key = key ∧ row.status = .pending := by
  have hrow := List.find?_some h
  exact ⟨List.mem_of_find?_eq_some h, by simpa using hrow⟩

theorem insertAudit_ok (h : insertAudit w key token r reason = .ok w') :
    (∃ dlq alerts, w' = { w with dlq := dlq, alerts := alerts }) ∧ w.dlq.rows <+: w'.dlq.rows ∧
      ∃ row ∈ w'.dlq.rows, row.key = key ∧ row.eventId = r.identity.eventId := by
  unfold insertAudit at h
  split at h
  · cases h
  · cases h
    refine ⟨⟨_, _, rfl⟩, Table.rows_insertOrIgnore _ _, ?_⟩
    rcases Table.exists_insertOrIgnore w.dlq ⟨key, nullIfEmpty token, r.identity.eventId, r.version,
      r.identity.hash, reason, r.identity.body⟩ with ⟨row, hrow, rfl | hclash⟩
    · exact ⟨_, hrow, rfl, rfl⟩
    · exact ⟨row, hrow, hclash.1, hclash.2.1⟩

theorem insertAudit_total (hr : fitsBigint r.version = true) :
    ∃ w', insertAudit w key token r reason = .ok w' := by
  refine ⟨_, if_neg ?_⟩
  simp [hr]

theorem insertAudit_error {e : Err} (h : insertAudit w key token r reason = .error e) : e = [] := by
  unfold insertAudit at h
  split at h
  · exact (Except.error.inj h).symm
  · cases h

theorem keeps_insertAudit (h : insertAudit w key token r reason = .ok w') : Keeps w w' := by
  rcases insertAudit_ok h with ⟨⟨dlq, alerts, heq⟩, hdlq, _⟩
  subst heq
  exact ⟨rfl, rfl, rfl, rfl, List.prefix_rfl, List.prefix_rfl, hdlq⟩

end Statements

/-! ## Installing records -/

/-- What a run of `installEach` over records of one interaction did; heads and history stay. -/
structure Inserted (w w' : World) (key : Key) (records : List Record) : Prop where
  heads : w'.heads = w.heads
  base : w'.base = w.base
  installs : w'.installs = w.installs
  dlq : w'.dlq.rows = w.dlq.rows
  participants : w'.participants = Function.update w.participants key
    (records.foldl Record.apply (w.participants key))
  versions : w'.versions.rows = w.versions.rows ++ records.map VersionRow.of
  events : w'.events.rows = w.events.rows ++ records.map EventRow.of

section Install

variable {w w' : World}

theorem installRecord_ok {r : Record} (h : installRecord w r = .ok w') :
    Inserted w w' r.key [r] := by
  unfold installRecord at h
  split at h
  · cases h
  · next w₁ hledgers =>
      rcases insertLedgerRows_ok hledgers with ⟨⟨versions, events, heq⟩, hrows, hevents, _⟩
      subst heq
      split at h
      · next hassigned =>
          cases h
          refine ⟨rfl, rfl, rfl, rfl, ?_, hrows, hevents⟩
          simp [World.upsertParticipant, Record.apply, hassigned]
      · next hassigned =>
          cases h
          refine ⟨rfl, rfl, rfl, rfl, ?_, hrows, hevents⟩
          simp [World.deleteParticipant, Record.apply, hassigned]

theorem Inserted.trans {w₁ w₂ w₃ : World} {key : Key} {rs rs' : List Record}
    (h : Inserted w₁ w₂ key rs) (h' : Inserted w₂ w₃ key rs') :
    Inserted w₁ w₃ key (rs ++ rs') where
  heads := h'.heads.trans h.heads
  base := h'.base.trans h.base
  installs := h'.installs.trans h.installs
  dlq := h'.dlq.trans h.dlq
  participants := by simp [h'.participants, h.participants]
  versions := by simp [h'.versions, h.versions]
  events := by simp [h'.events, h.events]

variable {records : List Record}

theorem installEach_ok {key : Key} :
    ∀ {w w' : World}, (∀ r ∈ records, r.key = key) → installEach w records = .ok w' →
      Inserted w w' key records := by
  induction records with
  | nil =>
    intro w w' _ h
    cases h
    exact ⟨rfl, rfl, rfl, rfl, by simp, by simp, by simp⟩
  | cons r rs ih =>
    intro w w' hkeys h
    cases hr : installRecord w r with
    | error e => simp [installEach, hr] at h
    | ok w₁ =>
      have hfirst : Inserted w w₁ key [r] := hkeys r (by simp) ▸ installRecord_ok hr
      have hrest := ih (fun s hs => hkeys s (by simp [hs])) (by simpa [installEach, hr] using h)
      exact hfirst.trans hrest

theorem installEach_error {e : Err} : ∀ {w : World}, installEach w records = .error e → e = [] := by
  induction records with
  | nil =>
    intro w h
    cases h
  | cons r rs ih =>
    intro w h
    cases hr : installRecord w r with
    | ok w₁ => exact ih (by simpa [installEach, hr] using h)
    | error e' =>
      have he : e' = e := by simpa [installEach, hr] using h
      subst he
      unfold installRecord at hr
      split at hr
      · next e'' hledgers =>
          cases hr
          exact insertLedgerRows_error hledgers
      · split at hr <;> cases hr

theorem installRecords_error {final : Fold} {e : Err}
    (h : installRecords w records final = .error e) : e = [] := by
  unfold installRecords at h
  split at h
  · next e' hrecords =>
      cases h
      exact installEach_error hrecords
  · split at h
    · exact (Except.error.inj h).symm
    · cases h

theorem installRecords_ok {final : Fold} (hkeys : ∀ r ∈ records, r.key = final.key)
    (hlocked : (w.heads final.key).isSome) (h : installRecords w records final = .ok w') :
    Extended w w' records final := by
  unfold installRecords at h
  split at h
  · cases h
  · next w₁ hrecords =>
      have hins := installEach_ok hkeys hrecords
      split at h
      · cases h
      · next row hrow =>
          rcases headRow_some hrow with ⟨_, hversion⟩
          have hhead : (w₁.setHead final.key row).headVersion =
              Function.update w.headVersion final.key final.version := by
            rw [headVersion_setHead (by simpa [hins.heads] using hlocked)]
            congr 1
            funext k
            simp [World.headVersion, hins.heads]
          rcases setHead_eq w₁ final.key row with ⟨heads, heq⟩
          rw [heq] at h hhead
          cases h
          exact ⟨hhead, hins.participants, hins.base, by simp [hins.installs], hins.versions,
            hins.events, hins.dlq⟩

end Install

/-! ## The methods of the store -/

namespace Store

variable {w w' : World} {intent : Intent} {records : List Record} {final : Fold} {held : Record}
  {b : Bool}

variable {expected : Nat}

theorem install_ok (hkeys : ∀ r ∈ records, r.key = final.key)
    (h : install w expected records final = .ok (b, w')) :
    (b = false ∧ w.headVersion final.key ≠ expected ∧ Keeps w w') ∨
      (b = true ∧ w.headVersion final.key = expected ∧ Extended w w' records final) := by
  unfold install at h
  split at h
  · next hmoved =>
      cases h
      exact .inl ⟨rfl, hmoved, keeps_lockHead w final.key⟩
  · next hsame =>
      split at h
      · cases h
      · next w₁ hrecords =>
          cases h
          have hext := installRecords_ok hkeys (isSome_lockHead w final.key) hrecords
          rcases lockHead_eq w final.key with ⟨heads, heq⟩
          refine .inr ⟨rfl, not_not.1 hsame, hext.of_keeps (keeps_lockHead w final.key) ?_ ?_ ?_
            (Keeps.refl _) rfl rfl rfl⟩
          all_goals simp [heq]

theorem head_of_lockIntent (h : w.lockIntent intent = true) :
    w.headVersion intent.key = intent.observedVersion := by
  simp only [World.lockIntent, Bool.and_eq_true, decide_eq_true_eq] at h
  exact h.1

theorem installReconcile_ok (hkey : final.key = intent.key)
    (hkeys : ∀ r ∈ records, r.key = final.key)
    (h : installReconcile w intent records final = .ok (b, w')) :
    (b = false ∧ w.lockIntent intent = false ∧ Keeps w w') ∨
      (b = true ∧ w.lockIntent intent = true ∧ Extended w w' records final) := by
  unfold installReconcile at h
  split at h
  · next hlost =>
      cases h
      exact .inl ⟨rfl, by simpa using hlost, keeps_lockHead w intent.key⟩
  · next hlocked =>
      split at h
      · cases h
      · next w₁ hrecords =>
          cases h
          have hext := installRecords_ok hkeys (hkey ▸ isSome_lockHead w intent.key) hrecords
          rcases lockHead_eq w intent.key with ⟨heads, heq⟩
          refine .inr ⟨rfl, by simpa using hlocked, hext.of_keeps (keeps_lockHead w intent.key) ?_ ?_ ?_
            (keeps_completeReconcile _ _ _ _) rfl rfl rfl⟩
          all_goals simp [heq]

theorem installHistorical_ok {r : Record} (h : installHistorical w intent r = .ok (b, w')) :
    Keeps w w' := by
  unfold installHistorical at h
  split at h
  · cases h
    exact keeps_lockHead w intent.key
  · split at h
    · cases h
    · next w₁ hledgers =>
        cases h
        exact ((keeps_lockHead w intent.key).trans (keeps_insertLedgers hledgers)).trans
          (keeps_completeReconcile _ _ _ _)

theorem beginReconcile_ok {intent' : Intent}
    (h : beginReconcile w intent held = .ok ((intent', b), w')) :
    Keeps w w' ∧ intent'.key = intent.key ∧ intent'.observedVersion = intent.observedVersion := by
  have hlock := keeps_lockHead w intent.key
  have hpending : ∀ pending intents,
      Keeps w { w.lockHead intent.key with pending := pending, intents := intents } :=
    fun _ _ => ⟨hlock.head, hlock.participants, hlock.base, hlock.installs, hlock.versions,
      hlock.events, hlock.dlq⟩
  unfold beginReconcile at h
  split at h
  · cases h
    exact ⟨hlock, rfl, rfl⟩
  · split at h
    · split at h
      · cases h
      · next hsame =>
          cases h
          simp only [not_or, not_not] at hsame
          exact ⟨hlock, rfl, hsame.1⟩
    · split at h
      · cases h
      · split at h
        · cases h
          exact ⟨hlock, rfl, rfl⟩
        · split at h
          · cases h
          · split at h
            all_goals
              cases h
              exact ⟨hpending _ _, rfl, rfl⟩

theorem installSnapshot_ok {s : Snapshot} (h : installSnapshot w intent s held = .ok (b, w')) :
    (b = false ∧ w.lockIntent intent = false ∧ Keeps w w') ∨
      (b = true ∧ w.lockIntent intent = true ∧ Restarted w w' intent.key s) := by
  unfold installSnapshot at h
  split at h
  · next hlost =>
      cases h
      exact .inl ⟨rfl, by simpa using hlost, keeps_lockHead w intent.key⟩
  · next hlocked =>
      split at h
      · cases h
      · next w₁ hledgers =>
          have hhead₀ := headVersion_lockHead w intent.key
          have hsome := isSome_lockHead w intent.key
          rcases lockHead_eq w intent.key with ⟨heads₀, heq₀⟩
          rw [heq₀] at hledgers hhead₀ hsome
          rcases insertLedgerRows_ok hledgers with ⟨⟨versions, events, heq₁⟩, hrows, hevents, hfresh⟩
          have hhead₁ : w₁.headVersion = w.headVersion := by
            rw [heq₁]
            exact hhead₀
          split at h
          · cases h
          · next row hrow =>
              rcases headRow_some hrow with ⟨hpos, hversion⟩
              split at h
              · cases h
              · next w₂ haudit =>
                  have hhead : (w₁.setHead intent.key row).headVersion =
                      Function.update w.headVersion intent.key s.fold.version := by
                    rw [headVersion_setHead (by simpa [heq₁] using hsome), hversion, hhead₁]
                  rcases setHead_eq w₁ intent.key row with ⟨heads, heq⟩
                  rw [heq] at haudit hhead
                  rcases insertAudit_ok haudit with ⟨⟨dlq, alerts, rfl⟩, hdlq, _⟩
                  subst heq₁
                  cases h
                  exact .inr ⟨rfl, by simpa using hlocked, hpos, hfresh, hhead, rfl, rfl, rfl, hrows,
                    hevents, hdlq⟩

theorem recordPoison_ok {r : Record} {reason : Reason} {u : Unit}
    (h : recordPoison w r reason = .ok (u, w')) :
    Keeps w w' ∧ ∃ row ∈ w'.dlq.rows, row.key = r.key ∧ row.eventId = r.identity.eventId := by
  unfold recordPoison at h
  split at h
  · cases h
  · next w₁ haudit =>
      cases h
      exact ⟨keeps_insertAudit haudit, (insertAudit_ok haudit).2.2⟩

theorem failReconcile_ok (h : failReconcile w intent held = .ok (b, w')) :
    Keeps w w' ∧ (b = true → ∃ row ∈ w'.dlq.rows, row.key = intent.key ∧
      row.eventId = held.identity.eventId) := by
  have hlock := keeps_lockHead w intent.key
  unfold failReconcile at h
  split at h
  · cases h
    exact ⟨hlock, by simp⟩
  · split at h
    · cases h
    · split at h
      · cases h
        refine ⟨?_, by simp⟩
        exact ⟨hlock.head, hlock.participants, hlock.base, hlock.installs, hlock.versions,
          hlock.events, hlock.dlq⟩
      · split at h
        · cases h
        · next w₁ haudit =>
            cases h
            have haud := hlock.trans (keeps_insertAudit haudit)
            refine ⟨?_, fun _ => (insertAudit_ok haudit).2.2⟩
            exact ⟨haud.head, haud.participants, haud.base, haud.installs, haud.versions,
              haud.events, haud.dlq⟩

/-! The store's own errors are none of the sentinels, with one exception: a pending intent for
another request makes `BeginReconcile` report a divergent history. -/

variable {e : Err}

theorem install_error (h : install w expected records final = .error e) : e = [] := by
  unfold install at h
  split at h
  · cases h
  · split at h
    · next e' hrecords =>
        cases h
        exact installRecords_error hrecords
    · cases h

theorem installReconcile_error (h : installReconcile w intent records final = .error e) :
    e = [] := by
  unfold installReconcile at h
  split at h
  · cases h
  · split at h
    · next e' hrecords =>
        cases h
        exact installRecords_error hrecords
    · cases h

theorem installSnapshot_error {s : Snapshot} (h : installSnapshot w intent s held = .error e) :
    e = [] := by
  unfold installSnapshot at h
  split at h
  · cases h
  · split at h
    · next e' hledgers =>
        cases h
        exact insertLedgerRows_error hledgers
    · split at h
      · exact (Except.error.inj h).symm
      · split at h
        · next e' haudit =>
            cases h
            exact insertAudit_error haudit
        · cases h

theorem failReconcile_error (h : failReconcile w intent held = .error e) : e = [] := by
  unfold failReconcile at h
  split at h
  · cases h
  · split at h
    · exact (Except.error.inj h).symm
    · split at h
      · cases h
      · split at h
        · next e' haudit =>
            cases h
            exact insertAudit_error haudit
        · cases h

end Store

end RelayPoint.Participation
