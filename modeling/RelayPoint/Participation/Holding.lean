import RelayPoint.Participation.Custody

/-!
# Holding — calls of `Apply` keep their commands in custody

Every operation of `Apply` keeps `Custody` and `Bounded`, whatever the other calls do in between and
whatever the authority answers.
-/

namespace RelayPoint.Participation

open Concurrency Journal

/-! ## Commits -/

section Commit

variable {w w' : World} {fold final : Fold} {intent : Intent} {held r : Record} {records : List Record}
  {b : Bool}

theorem custody_transact {α : Type} {tx : Except Err (α × World)} {ch : Choice} {a : Except Err α}
    (hw : custody.Inv w) (hcommit : ∀ b w', tx = .ok (b, w') → Follows w w' ∧ custody.Inv w')
    (hp : transact w tx ch = some (a, w')) : Follows w w' ∧ custody.Inv w' := by
  rcases transact_cases hp with ⟨rfl, _⟩ | ⟨b, htx, _⟩
  · exact ⟨Follows.refl _, hw⟩
  · exact hcommit b w' htx

theorem Bounded.foldRecords (h : Bounded w) (hfold : Participation.foldRecords fold records = .ok final)
    (hkeys : ∀ r ∈ records, r.key = fold.key) (hhead : w.headVersion fold.key = fold.version)
    (hext : Extended w w' records final) : Bounded w' := by
  have hf := foldRecords_ok hfold
  have hkey : final.key = fold.key := hf.key hkeys
  refine h.extend hext (by simpa [hkey] using hkeys) (fun r hr => ?_) ?_
  · rw [hf.version]
    exact (hf.consecutive.of_mem hr).2.1
  · rw [hkey, hhead, hf.version]
    exact Nat.le_add_right _ _

theorem Store.install_custody (hw : custody.Inv w) (hfold : foldRecords fold records = .ok final)
    (hkeys : ∀ r ∈ records, r.key = fold.key)
    (h : Store.install w fold.version records final = .ok (b, w')) : Follows w w' ∧ custody.Inv w' := by
  have hkey : final.key = fold.key := (foldRecords_ok hfold).key hkeys
  have hleaves : Leaves w w' ∧ Bounded w' := by
    have hcases := Store.install_ok (by simpa [hkey] using hkeys) h
    have hlock := leaves_lockHead w final.key
    unfold Store.install at h
    split at h
    · cases h
      exact ⟨hlock, hw.1.keep (still_lockHead w final.key)⟩
    · next hsame =>
        split at h
        · cases h
        · next w₁ hrecords =>
            cases h
            refine ⟨hlock.trans (leaves_installRecords hrecords), ?_⟩
            rcases hcases with ⟨hfalse, _⟩ | ⟨_, hhead, hext⟩
            · cases hfalse
            · exact hw.1.foldRecords hfold hkeys (hkey ▸ hhead) hext
  exact ⟨hleaves.1.follows, hleaves.2, hleaves.1.custody hw.2⟩

theorem Store.beginReconcile_still {intent' : Intent}
    (h : Store.beginReconcile w intent held = .ok ((intent', b), w')) : Still w w' := by
  have hlock := still_lockHead w intent.key
  rcases Store.beginReconcile_cases h with ⟨_, rfl | ⟨pending, _, rfl⟩⟩ | ⟨_, row, _, _, rfl⟩ |
      ⟨_, rfl, pending, intents, _, rfl⟩
  · exact hlock
  · exact ⟨hlock.head, hlock.versions, hlock.events⟩
  · exact hlock
  · exact ⟨hlock.head, hlock.versions, hlock.events⟩

theorem Store.failReconcile_still (h : Store.failReconcile w intent held = .ok (b, w')) : Still w w' := by
  have hlock := still_lockHead w intent.key
  rcases Store.failReconcile_cases h with ⟨_, _, rfl⟩ | ⟨_, i, _, ⟨_, _, rfl⟩ | ⟨_, w₁, haudit, rfl⟩⟩
  · exact hlock
  · exact ⟨hlock.head, hlock.versions, hlock.events⟩
  · rcases (insertAudit_ok haudit).1 with ⟨dlq, alerts, rfl⟩
    exact ⟨hlock.head, hlock.versions, hlock.events⟩

theorem Store.recordPoison_still {reason : Reason} {u : Unit}
    (h : Store.recordPoison w r reason = .ok (u, w')) : Still w w' := by
  unfold Store.recordPoison at h
  split at h
  · cases h
  · next w₁ haudit =>
      cases h
      rcases (insertAudit_ok haudit).1 with ⟨dlq, alerts, rfl⟩
      exact ⟨rfl, rfl, rfl⟩

theorem Replayed.single (hrep : Replayed intent held records) (hpos : intent.requestedFrom ≠ 0)
    (hsame : intent.requestedFrom = intent.requestedTo) :
    ∃ r, records = [r] ∧ r.version = held.version ∧ r.version = intent.requestedTo := by
  have hlength : records.length = 1 := by
    rw [hrep.length, hsame, Nat.sub_self]
  rcases List.length_eq_one_iff.1 hlength with ⟨r, rfl⟩
  rcases hrep.held with ⟨r', hr', hversion⟩
  rw [List.mem_singleton.1 hr'] at hversion
  rcases Nat.exists_eq_succ_of_ne_zero hpos with ⟨n, hn⟩
  have hfirst := (consecutive_cons.1 (hrep.consecutive n hn)).1
  exact ⟨r, rfl, hversion, by rw [hfirst, ← hsame, hn]⟩

/-! A validated range contains the held version, so it is on the side of the head where the command is. -/

theorem Replayed.above (hrep : Replayed intent held records) (hranged : (intent.row .pending).Ranged)
    (hgap : intent.observedVersion < held.version) :
    intent.requestedFrom = intent.observedVersion + 1 := by
  rcases hranged.shape with hfrom | ⟨hsame, hle⟩
  · exact hfrom
  · rcases hrep.single hranged.pos hsame with ⟨r, rfl, hversion, hto⟩
    have hle : intent.requestedTo ≤ intent.observedVersion := hle
    omega

theorem Replayed.historical (hrep : Replayed intent held records)
    (hranged : (intent.row .pending).Ranged) (hle : held.version ≤ intent.observedVersion) :
    ∃ r, records = [r] ∧ r.version = held.version ∧ r.key = intent.key := by
  rcases hranged.shape with hfrom | ⟨hsame, _⟩
  · rcases hrep.held with ⟨r, hr, hversion⟩
    have habove : intent.observedVersion < r.version := ((hrep.consecutive _ hfrom).of_mem hr).1
    omega
  · rcases hrep.single hranged.pos hsame with ⟨r, rfl, hversion, _⟩
    exact ⟨r, rfl, hversion, hrep.key r (by simp)⟩

theorem Store.installReconcile_custody (hw : custody.Inv w) (hissued : Issued w intent)
    (hfold : Participation.foldRecords fold records = .ok final) (hkeys : ∀ r ∈ records, r.key = fold.key)
    (hkey : intent.key = fold.key) (hobs : intent.observedVersion = fold.version)
    (h : Store.installReconcile w intent records final = .ok (b, w')) : Follows w w' ∧ custody.Inv w' := by
  have hfkey : final.key = fold.key := (foldRecords_ok hfold).key hkeys
  rcases (Store.installReconcile_ends h).custody hw.2 hissued with ⟨hcustody, hfollows⟩
  refine ⟨hfollows, ?_, hcustody⟩
  have hcases := Store.installReconcile_ok (hfkey.trans hkey.symm) (by simpa [hfkey] using hkeys) h
  rcases hcases with ⟨rfl, hlost, _⟩ | ⟨_, hlock, hext⟩
  · unfold Store.installReconcile at h
    rw [hlost] at h
    cases h
    exact hw.1.keep (still_lockHead w intent.key)
  · refine hw.1.foldRecords hfold hkeys ?_ hext
    rw [← hkey, Store.head_of_lockIntent hlock, hobs]

theorem Store.installHistorical_custody (hw : custody.Inv w) (hissued : Issued w intent)
    (hkey : r.key = intent.key) (hle : r.version ≤ intent.observedVersion)
    (h : Store.installHistorical w intent r = .ok (b, w')) : Follows w w' ∧ custody.Inv w' := by
  rcases (Store.installHistorical_ends h).custody hw.2 hissued with ⟨hcustody, hfollows⟩
  refine ⟨hfollows, ?_, hcustody⟩
  have hlocked := hw.1.keep (still_lockHead w intent.key)
  rcases Store.installHistorical_cases h with ⟨_, rfl⟩ | ⟨_, hlock, w₁, hledgers, rfl⟩
  · exact hlocked
  · refine (hlocked.ledgers hledgers ?_).keep ⟨rfl, rfl, rfl⟩
    rw [headVersion_lockHead, hkey, Store.head_of_lockIntent hlock]
    exact hle

theorem Store.installSnapshot_inv {s : Snapshot} (hw : custody.Inv w) (hissued : Issued w intent)
    (hheld : intent.held = held.identity) (hobs : intent.observedVersion ≤ s.fold.version)
    (h : Store.installSnapshot w intent s held = .ok (b, w')) : Follows w w' ∧ custody.Inv w' := by
  rcases Store.installSnapshot_custody hw.2 hissued hheld h with ⟨hcustody, hfollows⟩
  refine ⟨hfollows, ?_, hcustody⟩
  rcases Store.installSnapshot_ok h with ⟨rfl, hlost, _⟩ | ⟨_, hlock, hre⟩
  · unfold Store.installSnapshot at h
    rw [hlost] at h
    cases h
    exact hw.1.keep (still_lockHead w intent.key)
  · refine hw.1.restart hre ?_
    rw [Store.head_of_lockIntent hlock]
    exact hobs

end Commit

/-! ## The calls -/

section Walk

variable {ok : World → Op → Choice → Prop} {w : World} {fold : Fold} {intent : Intent} {held record : Record}
  {records : List Record}

theorem custody_loadLedger {key : Key} {version : Nat} (hkey : fold.key = key) :
    Ensures machine ok custody (fun res _ => ∀ f i, res = .ok (f, i) → f.key = key)
      (loadLedger fold key version) w := by
  unfold loadLedger
  split
  · exact ensures_pure fun f i h => by cases h; exact hkey
  · refine ensures_perform ?_
    intro w₁ _ hinv ch a w₂ _ hp
    rcases readAnswer_cases hp with ⟨rfl, _⟩
    refine ⟨Follows.refl _, hinv, ?_⟩
    cases a with
    | error e => exact ensures_pure fun f i h => by cases h
    | ok retained => exact ensures_pure fun f i h => by cases h; exact hkey

theorem custody_load (key : Key) (version : Nat) :
    Ensures machine ok custody (fun res _ => ∀ f i, res = .ok (f, i) → f.key = key)
      (load key version) w := by
  refine ensures_perform ?_
  intro w₁ _ hinv ch a w₂ _ hp
  rcases readAnswer_cases hp with ⟨rfl, _⟩
  refine ⟨Follows.refl _, hinv, ?_⟩
  cases a with
  | error e => exact ensures_pure fun f i h => by cases h
  | ok row =>
    cases row with
    | none => exact custody_loadLedger rfl
    | some row =>
      dsimp only
      split
      · exact ensures_pure fun f i h => by cases h
      · refine ensures_perform ?_
        intro w₃ _ hinv₃ ch a w₄ _ hp
        rcases readAnswer_cases hp with ⟨rfl, _⟩
        refine ⟨Follows.refl _, hinv₃, ?_⟩
        cases a with
        | error e => exact ensures_pure fun f i h => by cases h
        | ok participants => exact custody_loadLedger rfl

theorem custody_failReconcile {cause : Err} (hissued : Issued w intent)
    (hheld : intent.held = held.identity) :
    Ensures machine ok custody (fun _ _ => True) (failReconcile intent held cause) w := by
  refine ensures_perform ?_
  intro w₁ hf hinv ch a w₂ _ hp
  have hcommit := custody_transact hinv (fun b w' h =>
    have hcustody := Store.failReconcile_custody hinv.2 (hf.issued hissued) hheld h
    ⟨hcustody.2, hinv.1.keep (Store.failReconcile_still h), hcustody.1⟩) hp
  refine ⟨hcommit.1, hcommit.2, ?_⟩
  cases a with
  | error e => exact ensures_pure trivial
  | ok b => cases b <;> exact ensures_pure trivial

theorem custody_snapshot (hissued : Issued w intent) (hheld : intent.held = held.identity) :
    Ensures machine ok custody (fun _ _ => True) (snapshot intent held) w := by
  refine ensures_perform ?_
  intro w₁ hf hinv ch a w₂ _ hp
  cases ch with
  | snapshotted answer =>
    obtain ⟨rfl, rfl⟩ := Prod.mk.inj (Option.some.inj (hp : some (answer, w₁) = some (a, w₂)))
    refine ⟨Follows.refl _, hinv, ?_⟩
    cases answer with
    | error e => exact custody_failReconcile (hf.issued hissued) hheld
    | ok wire =>
      cases hval : validateSnapshot wire intent held with
      | error e =>
        simp only [hval]
        exact ensures_pure trivial
      | ok s =>
        simp only [hval]
        refine ensures_perform ?_
        intro w₃ hf₃ hinv₃ ch a w₄ _ hp
        have hcommit := custody_transact hinv₃ (fun b w' h => Store.installSnapshot_inv hinv₃
          ((hf.trans hf₃).issued hissued) hheld (validateSnapshot_ok hval).observed h) hp
        exact ⟨hcommit.1, hcommit.2, ensures_pure trivial⟩
  | _ => cases hp

variable {historical : Bool}

theorem custody_installReplay (hissued : Issued w intent) (hinv : custody.Inv w)
    (hfold : fold.key = held.key) (hkey : intent.key = held.key)
    (hobs : intent.observedVersion = fold.version)
    (hside : if historical then held.version ≤ fold.version else fold.version < held.version)
    (hrep : Replayed intent held records) :
    Ensures machine ok custody (fun _ _ => True) (installReplay fold historical intent records) w := by
  have hranged := hissued.ranged hinv.2
  unfold installReplay
  cases historical with
  | true =>
    have hle : held.version ≤ intent.observedVersion := hobs ▸ hside
    rcases hrep.historical hranged hle with ⟨r, rfl, hversion, hrkey⟩
    refine ensures_perform ?_
    intro w₁ hf hinv₁ ch a w₂ _ hp
    have hcommit := custody_transact hinv₁ (fun b w' h => Store.installHistorical_custody hinv₁
      (hf.issued hissued) hrkey (hversion.le.trans hle) h) hp
    exact ⟨hcommit.1, hcommit.2, ensures_pure trivial⟩
  | false =>
    have hkeys : ∀ r ∈ records, r.key = fold.key := by
      intro r hr
      rw [hrep.key r hr, hkey, hfold]
    cases hfinal : foldRecords fold records with
    | error e => exact ensures_pure trivial
    | ok final =>
      refine ensures_perform ?_
      intro w₁ hf hinv₁ ch a w₂ _ hp
      have hcommit := custody_transact hinv₁ (fun b w' h => Store.installReconcile_custody hinv₁
        (hf.issued hissued) hfinal hkeys (hkey.trans hfold.symm) hobs h) hp
      exact ⟨hcommit.1, hcommit.2, ensures_pure trivial⟩

theorem custody_replay (hissued : Issued w intent) (hheld : intent.held = held.identity)
    (hfold : fold.key = held.key) (hkey : intent.key = held.key)
    (hobs : intent.observedVersion = fold.version)
    (hside : if historical then held.version ≤ fold.version else fold.version < held.version) :
    Ensures machine ok custody (fun _ _ => True) (replay fold held historical intent) w := by
  refine ensures_perform ?_
  intro w₁ hf hinv ch a w₂ _ hp
  cases ch with
  | replayed answer =>
    obtain ⟨rfl, rfl⟩ := Prod.mk.inj (Option.some.inj (hp : some (answer, w₁) = some (a, w₂)))
    refine ⟨Follows.refl _, hinv, ?_⟩
    have hissued₁ := hf.issued hissued
    cases answer with
    | error e =>
      by_cases hunknown : .unknownHistory ∈ e
      · simp only [hunknown]
        exact custody_snapshot hissued₁ hheld
      · simp only [hunknown]
        exact custody_failReconcile hissued₁ hheld
    | ok answer =>
      cases hval : validateReplay answer intent held with
      | error e =>
        simp only [hval]
        exact ensures_pure trivial
      | ok records =>
        simp only [hval]
        exact custody_installReplay hissued₁ hinv hfold hkey hobs hside (validateReplay_ok hval)
  | _ => cases hp

theorem newIntent_shape (token : String) (hle : historical = true → held.version ≤ fold.version) :
    (newIntent token fold held historical).requestedFrom =
        (newIntent token fold held historical).observedVersion + 1 ∨
      (newIntent token fold held historical).requestedFrom =
          (newIntent token fold held historical).requestedTo ∧
        (newIntent token fold held historical).requestedTo ≤
          (newIntent token fold held historical).observedVersion := by
  cases historical with
  | true => exact .inr ⟨rfl, hle rfl⟩
  | false => exact .inl rfl

theorem custody_reconcile (hfold : fold.key = held.key)
    (hside : if historical then held.version ≤ fold.version else fold.version < held.version) :
    Ensures machine ok custody (fun _ _ => True) (reconcile fold held historical) w := by
  refine ensures_perform ?_
  intro w₁ _ hinv ch a w₂ _ hp
  cases ch with
  | id token =>
    change (if isUuidv7 token then some (token, w₁) else none) = some (a, w₂) at hp
    split at hp
    · next huuid =>
        obtain ⟨rfl, rfl⟩ := Prod.mk.inj (Option.some.inj hp)
        refine ⟨Follows.refl _, hinv, ?_⟩
        simp only [huuid]
        refine ensures_perform ?_
        intro w₃ _ hinv₃ ch a w₄ _ hp
        have hbegin : ∀ {intent' : Intent} {b : Bool} {w' : World},
            Store.beginReconcile w₃ (newIntent token fold held historical) held =
              .ok ((intent', b), w') →
            Custody w' ∧ Follows w₃ w' ∧ (b = true → Started w' intent' held) :=
          Store.beginReconcile_custody hinv₃.2 rfl rfl
            (newIntent_shape token fun h => by simpa [h] using hside)
        have hcommit := custody_transact hinv₃ (fun b w' h => ⟨(hbegin h).2.1,
          hinv₃.1.keep (Store.beginReconcile_still h), (hbegin h).1⟩) hp
        refine ⟨hcommit.1, hcommit.2, ?_⟩
        rcases transact_cases hp with ⟨_, e, rfl, _⟩ | ⟨⟨intent, b⟩, htx, ⟨rfl, _⟩ | ⟨rfl, _⟩⟩
        · exact ensures_pure trivial
        · cases b with
          | false => exact ensures_pure trivial
          | true =>
            have hstarted := (hbegin htx).2.2 rfl
            exact custody_replay hstarted.issued hstarted.held hfold hstarted.key
              (Store.beginReconcile_ok htx).2.2 hside
        · exact ensures_pure trivial
    · cases hp
  | _ => cases hp

theorem custody_applyLoaded {retained : Option Identity} (hfold : fold.key = record.key) :
    Ensures machine ok custody (fun _ _ => True) (applyLoaded record fold retained) w := by
  unfold applyLoaded
  by_cases hle : record.version ≤ fold.version
  · simp only [hle]
    cases retained with
    | none => exact custody_reconcile hfold hle
    | some identity =>
      by_cases hsame : sameIdentity identity record.identity = true
      · simp only [hsame]
        exact ensures_pure trivial
      · simp only [hsame]
        refine ensures_perform ?_
        intro w₁ _ hinv ch a w₂ _ hp
        have hcommit := custody_transact hinv (fun b w' h =>
          have hcustody := Store.recordPoison_custody hinv.2 h
          ⟨hcustody.2, hinv.1.keep (Store.recordPoison_still h), hcustody.1⟩) hp
        refine ⟨hcommit.1, hcommit.2, ?_⟩
        cases a <;> exact ensures_pure trivial
  · simp only [hle]
    by_cases hgap : fold.version + 1 < record.version
    · simp only [hgap]
      exact custody_reconcile hfold (Nat.lt_of_not_le hle)
    · simp only [hgap]
      cases hfinal : foldRecords fold [record] with
      | error e => exact ensures_pure trivial
      | ok final =>
        refine ensures_perform ?_
        intro w₁ _ hinv ch a w₂ _ hp
        have hcommit := custody_transact hinv (fun b w' h =>
          Store.install_custody hinv hfinal (by simp [hfold]) h) hp
        exact ⟨hcommit.1, hcommit.2, ensures_pure trivial⟩

theorem custody_applyRecord : Ensures machine ok custody (fun _ _ => True) (applyRecord record) w := by
  refine ensures_bind (Ensures.mono ?_ (custody_load record.key record.version))
  intro res w₁ hres
  cases res with
  | error e => exact ensures_pure trivial
  | ok loaded => exact custody_applyLoaded (hres loaded.1 loaded.2 rfl)

end Walk

end RelayPoint.Participation
