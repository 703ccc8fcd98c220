import RelayPoint.Signaling.Router

/-!
# Provenance — what every message of a store written by routers looks like

Subjects, message ids and command ids of a log are tied together by the way routers build them.
`Sound` states this for a whole store; it holds in every run, whatever fails, and it is the reason
why a duplicate ack of an append always points to a fact of the same interaction and the same
command id.
-/

namespace RelayPoint.Signaling

open Journal

/-! ## Names -/

theorem logSubjectFor_injective {t i t' i' : String} (ht : DotFree t) (hi : DotFree i)
    (ht' : DotFree t') (hi' : DotFree i') (h : logSubjectFor t i = logSubjectFor t' i') :
    t = t' ∧ i = i' := by
  have hlist : t.toList ++ '.' :: ("interaction.".toList ++ (i.toList ++ '.' :: "log".toList)) =
      t'.toList ++ '.' :: ("interaction.".toList ++ (i'.toList ++ '.' :: "log".toList)) := by
    simpa [logSubjectFor] using congrArg String.toList h
  rcases eq_of_append_cons_eq ht ht' hlist with ⟨h₁, hrest⟩
  rcases eq_of_append_cons_eq hi hi' (List.append_cancel_left hrest) with ⟨h₂, _⟩
  exact ⟨String.toList_inj.1 h₁, String.toList_inj.1 h₂⟩

theorem stateKey_cancel {t i i' : String} (h : stateKey t i = stateKey t i') : i = i' := by
  have hlist : t.toList ++ '/' :: i.toList = t.toList ++ '/' :: i'.toList := by
    simpa [stateKey] using congrArg String.toList h
  have := List.append_cancel_left hlist
  exact String.toList_inj.1 (List.cons.inj this).2

theorem Privileged.subID_ne_empty (p : Privileged) (f : PlannedFact) : p.subID f ≠ "" := by
  intro h
  have := congrArg String.toList h
  simp [subID] at this

/-! ## Growth -/

def Extends (b b' : LogStore) : Prop :=
  b.stream <+: b'.stream

theorem Extends.refl (b : LogStore) : Extends b b :=
  List.prefix_refl _

theorem Extends.trans {b₁ b₂ b₃ : LogStore} (h : Extends b₁ b₂) (h' : Extends b₂ b₃) :
    Extends b₁ b₃ :=
  List.IsPrefix.trans h h'

theorem extends_commit (b : LogStore) (m : Msg String String Fact) : Extends b (b.commit m) :=
  List.prefix_append _ _

variable {b : LogStore} {m : Msg String String Fact} {subject : String}

theorem Extends.mem {b' : LogStore} (h : Extends b b') (hm : m ∈ b.stream) : m ∈ b'.stream :=
  List.IsPrefix.subset h hm

theorem Extends.mem_factsOf {b' : LogStore} (h : Extends b b') {f : Fact}
    (hf : f ∈ factsOf b subject) : f ∈ factsOf b' subject := by
  rcases List.mem_map.1 hf with ⟨m, hm, rfl⟩
  rcases mem_log.1 hm with ⟨hm, hs⟩
  exact List.mem_map.2 ⟨m, mem_log.2 ⟨h.mem hm, hs⟩, rfl⟩

theorem factsOf_commit_self :
    factsOf (b.commit m) m.subject = factsOf b m.subject ++ [m.payload] := by
  simp [factsOf, Broker.commit, log_concat_self rfl]

theorem factsOf_commit_other (h : m.subject ≠ subject) :
    factsOf (b.commit m) subject = factsOf b subject := by
  simp [factsOf, Broker.commit, log_concat_other h]

/-! ## Well-formed stores -/

def Minted (m : Msg String String Fact) : Prop :=
  ∃ tenant iid, DotFree tenant ∧ DotFree iid ∧ m.subject = logSubjectFor tenant iid ∧
    m.id = dedupID tenant iid m.payload.event.commandId ∧
    m.payload.event.commandId ≠ "" ∧ m.payload.event.payloadHash ≠ ""

structure Sound (b : LogStore) : Prop where
  window : b.WindowSound
  minted : ∀ m ∈ b.stream, Minted m

theorem Sound.empty : Sound Broker.empty where
  window := Broker.windowSound_empty
  minted := by
    intro m hm
    simp [Broker.empty] at hm

theorem Sound.commit (h : Sound b) (hm : Minted m) :
    Sound (b.commit m) where
  window := h.window.commit m
  minted := by
    intro m' hm'
    rcases List.mem_append.1 hm' with hm' | hm'
    · exact h.minted m' hm'
    · have : m' = m := by simpa using hm'
      rw [this]
      exact hm

theorem Sound.forget (h : Sound b) (id : String) : Sound (b.forget id) where
  window := h.window.forget id
  minted := h.minted

section Interaction

variable {b : LogStore} {t i cid : String} (ht : DotFree t) (hi : DotFree i)
include ht hi

theorem Sound.id_of_mem (h : Sound b) (hm : m ∈ b.stream) (hs : m.subject = logSubjectFor t i) :
    m.id = dedupID t i m.payload.event.commandId := by
  rcases h.minted m hm with ⟨t', i', ht', hi', hs', hid, _⟩
  rcases logSubjectFor_injective ht hi ht' hi' (hs.symm.trans hs') with ⟨rfl, rfl⟩
  exact hid

theorem Sound.of_id (h : Sound b) (hm : m ∈ b.stream) (hid : m.id = dedupID t i cid) :
    m.subject = logSubjectFor t i ∧ m.payload.event.commandId = cid := by
  rcases h.minted m hm with ⟨t', i', ht', hi', hs', hid', _⟩
  rcases dedupID_injective ht' hi' ht hi (hid'.symm.trans hid) with ⟨rfl, rfl, hc⟩
  exact ⟨hs', hc⟩

theorem Sound.original (h : Sound b) {n : Nat} (hl : b.window.lookup (dedupID t i cid) = some n) :
    ∃ m, 0 < n ∧ b.stream[n - 1]? = some m ∧ m.subject = logSubjectFor t i ∧
      m.payload.event.commandId = cid := by
  rcases h.window.of_lookup hl with ⟨m, hpos, hget, hid⟩
  rcases h.of_id ht hi (List.mem_of_getElem? hget) hid with ⟨hs, hc⟩
  exact ⟨m, hpos, hget, hs, hc⟩

end Interaction

/-! ## The messages of routers -/

def Ordinary.message (c : Ordinary) (st : InteractionState) (eventId : String) (at_ : Nat) :
    Msg String String Fact :=
  ⟨c.subject, c.dedupID, ⟨⟨c.ctx, none⟩, c.event st eventId at_⟩⟩

def Privileged.message (p : Privileged) (f : PlannedFact) (st : InteractionState)
    (eventId : String) (at_ : Nat) : Msg String String Fact :=
  ⟨p.subject, p.dedupID f, ⟨⟨p.ctx, some p.payload⟩, p.factEvent f st eventId at_⟩⟩

theorem Ordinary.minted_message (c : Ordinary) (st : InteractionState) (eventId : String)
    (at_ : Nat) : Minted (c.message st eventId at_) :=
  ⟨c.tenant, c.iid, c.tenant_dotFree, c.iid_dotFree, rfl, rfl, c.commandId_ne,
    hashPayload_ne_empty c.cmd⟩

theorem Privileged.minted_message (p : Privileged) (f : PlannedFact) (st : InteractionState)
    (eventId : String) (at_ : Nat) : Minted (p.message f st eventId at_) :=
  ⟨p.tenant, p.iid, p.tenant_dotFree, p.iid_dotFree, rfl, rfl, p.subID_ne_empty f,
    hashPayload_ne_empty (p.factCommand f)⟩

end RelayPoint.Signaling
