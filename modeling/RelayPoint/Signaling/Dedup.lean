import RelayPoint.Signaling.Execution

/-!
# Dedup — what the dedup entries of a cached state stand for

An accepted entry of the dedup cache claims that a fact with this command id and this payload hash
is in the log.  The cache is keyed by `tenant/iid`, a string that two interactions may share; what
tells them apart is that the tenant is part of the hashed payload.  So the claim rests on the hash:
`CollisionFree` says that the commands of a run with equal payload hashes have equal payloads.
-/

namespace RelayPoint.Signaling

open Concurrency Journal

/-! ## Hashes -/

def payloadOf (x : Command) : Command :=
  { x with commandId := "" }

def CollisionFree (H : Set Command) : Prop :=
  ∀ x ∈ H, ∀ y ∈ H, hashPayload x = hashPayload y → payloadOf x = payloadOf y

def HashedBy (H : Set Command) (m : Msg String String Fact) : Prop :=
  ∃ x ∈ H, ∃ iid, DotFree x.tenantId ∧ DotFree iid ∧ m.subject = logSubjectFor x.tenantId iid ∧
    m.payload.event.payloadHash = hashPayload x ∧ m.payload.event.eventType = x.type ∧
    m.payload.event.actorId = x.actorId

def AllHashed (H : Set Command) (b : LogStore) : Prop :=
  ∀ m ∈ b.stream, HashedBy H m

variable {H : Set Command} {b b' : LogStore}

theorem allHashed_empty : AllHashed H Broker.empty := by
  intro m hm
  simp [Broker.empty] at hm

theorem AllHashed.commit (h : AllHashed H b) {m : Msg String String Fact} (hm : HashedBy H m) :
    AllHashed H (b.commit m) := by
  intro m' hm'
  rcases List.mem_append.1 hm' with hm' | hm'
  · exact h m' hm'
  · have : m' = m := by simpa using hm'
    rw [this]
    exact hm

theorem Ordinary.hashedBy_message {c : Ordinary} (hc : c.cmd ∈ H) (st : InteractionState)
    (eventId : String) (at_ : Nat) : HashedBy H (c.message st eventId at_) := by
  refine ⟨c.cmd, hc, c.iid, ?_, c.iid_dotFree, ?_, rfl, rfl, rfl⟩
  · rw [c.tenant_eq]
    exact c.tenant_dotFree
  · rw [c.tenant_eq]
    rfl

theorem Privileged.hashedBy_message {p : Privileged} {f : PlannedFact} (hp : p.factCommand f ∈ H)
    (st : InteractionState) (eventId : String) (at_ : Nat) :
    HashedBy H (p.message f st eventId at_) :=
  ⟨p.factCommand f, hp, p.iid, p.tenant_dotFree, p.iid_dotFree, rfl, rfl, rfl, rfl⟩

/-! ## Entries -/

def Committed (b : LogStore) (subject commandId payloadHash : String) : Prop :=
  ∃ f ∈ factsOf b subject, f.event.commandId = commandId ∧ f.event.payloadHash = payloadHash

variable {subject id : String} {sr : StoredResult} {max : Nat}

theorem Committed.mono (hb : Extends b b') {commandId payloadHash : String}
    (h : Committed b subject commandId payloadHash) :
    Committed b' subject commandId payloadHash := by
  rcases h with ⟨f, hf, hid, hhash⟩
  exact ⟨f, hb.mem_factsOf hf, hid, hhash⟩

theorem committed_commit (m : Msg String String Fact) :
    Committed (b.commit m) m.subject m.payload.event.commandId m.payload.event.payloadHash :=
  ⟨m.payload, by rw [factsOf_commit_self]; simp, rfl, rfl⟩

def Backed (exempt : String → Prop) (b : LogStore) (key commandId payloadHash : String) : Prop :=
  (∃ t i, DotFree t ∧ DotFree i ∧ stateKey t i = key ∧
    Committed b (logSubjectFor t i) commandId payloadHash) ∨ exempt payloadHash

def Entries (exempt : String → Prop) (b : LogStore) (key : String) (st : InteractionState) : Prop :=
  ∀ id sr, st.results.lookup id = some sr →
    sr.payloadHash ≠ "" ∧ (sr.result.status = .accepted → Backed exempt b key id sr.payloadHash)

variable {exempt : String → Prop} {key : String} {st st' fresh : InteractionState}

theorem Backed.mono (hb : Extends b b') {hash : String} (h : Backed exempt b key id hash) :
    Backed exempt b' key id hash := by
  rcases h with ⟨t, i, ht, hi, hkey, hcom⟩ | hex
  · exact .inl ⟨t, i, ht, hi, hkey, hcom.mono hb⟩
  · exact .inr hex

theorem Entries.mono (hb : Extends b b') (h : Entries exempt b key st) :
    Entries exempt b' key st := by
  intro id sr hl
  rcases h id sr hl with ⟨hne, hacc⟩
  exact ⟨hne, fun hst => (hacc hst).mono hb⟩

theorem Entries.congr (h : Entries exempt b key st) (hres : st'.results = st.results) :
    Entries exempt b key st' := by
  intro id sr hl
  rw [hres] at hl
  exact h id sr hl

theorem Entries.put (h : Entries exempt b key st) (hne : sr.payloadHash ≠ "")
    (hacc : sr.result.status = .accepted → Backed exempt b key id sr.payloadHash)
    (hres : st'.results = st.results.put id sr max) : Entries exempt b key st' := by
  intro id' sr' hl
  rw [hres] at hl
  rcases FifoCache.lookup_put hl with ⟨rfl, rfl⟩ | ⟨_, hold⟩
  · exact ⟨hne, hacc⟩
  · exact h id' sr' hold

theorem Entries.refold (h : Entries exempt b key st) (hf : Entries exempt b key fresh) :
    Entries exempt b key (st.refold fresh max) := by
  intro id sr hl
  rcases FifoCache.lookup_copyMissing hl with hold | hnew
  · exact h id sr hold
  · exact hf id sr hnew

theorem built_lookup (h : (built b subject max).results.lookup id = some sr) :
    ∃ f ∈ factsOf b subject, f.event.commandId = id ∧
      sr = ⟨f.event.payloadHash, accepted id⟩ := by
  rcases InteractionState.rebuildFrom_results h with ⟨e, he, hid, hsr⟩
  rcases List.mem_map.1 he with ⟨f, hf, rfl⟩
  exact ⟨f, hf, hid, hsr⟩

theorem entries_built {t i : String} (ht : DotFree t) (hi : DotFree i) (hs : Sound b) :
    Entries exempt b (stateKey t i) (built b (logSubjectFor t i) max) := by
  intro id sr hl
  rcases built_lookup hl with ⟨f, hf, hid, rfl⟩
  refine ⟨?_, fun _ => .inl ⟨t, i, ht, hi, rfl, f, hf, hid, rfl⟩⟩
  rcases List.mem_map.1 hf with ⟨m, hm, rfl⟩
  rcases hs.minted m (mem_log.1 hm).1 with ⟨_, _, _, _, _, _, _, hhash⟩
  exact hhash

/-! ## The branches of the append loops keep the entries backed -/

section Branches

variable {c : Ordinary} {p : Privileged} {f : PlannedFact} {max n : Nat}

theorem Ordinary.backed (h : Committed b c.subject c.cmd.commandId c.payloadHash) :
    Backed exempt b c.key c.cmd.commandId c.payloadHash :=
  .inl ⟨c.tenant, c.iid, c.tenant_dotFree, c.iid_dotFree, rfl, h⟩

theorem Privileged.backed (h : Committed b p.subject (p.subID f) (p.factHash f)) :
    Backed exempt b p.key (p.subID f) (p.factHash f) :=
  .inl ⟨p.tenant, p.iid, p.tenant_dotFree, p.iid_dotFree, rfl, h⟩

theorem Entries.precheck (h : Entries exempt b c.key st) {out : CommandResult × InteractionState}
    (hpre : c.precheck max st = some out) : Entries exempt b c.key out.2 := by
  rcases Ordinary.precheck_some hpre with ⟨_, _, hst, _⟩ | hgates
  · simpa only [hst] using h
  · rcases Ordinary.gates_some hgates with ⟨_, hst⟩ | ⟨hres, hst⟩
    · simpa only [hst] using h
    · rw [hst]
      refine h.put (hashPayload_ne_empty c.cmd) ?_ rfl
      simp [hres]

theorem Entries.onCommit (h : Entries exempt b c.key st) (eventId : String) (at_ : Nat) :
    Entries exempt (b.commit (c.message st eventId at_)) c.key (c.onCommit max st n) := by
  have hold := h.mono (extends_commit b (c.message st eventId at_))
  refine hold.put (hashPayload_ne_empty c.cmd) ?_ rfl
  intro _
  exact Ordinary.backed (committed_commit (c.message st eventId at_))

theorem Entries.onDuplicate (h : Entries exempt b c.key st) (hs : Sound b)
    (hnew : (st.refold (built b c.subject max) max).results.lookup c.cmd.commandId = none →
      Backed exempt b c.key c.cmd.commandId c.payloadHash) :
    Entries exempt b c.key (c.onDuplicate max st (built b c.subject max)).2 := by
  have hmerged : Entries exempt b c.key (st.refold (built b c.subject max) max) :=
    h.refold (entries_built c.tenant_dotFree c.iid_dotFree hs)
  rcases c.onDuplicate_cases max st (built b c.subject max) with
    ⟨_, _, _, _, hout⟩ | ⟨_, _, _, hout⟩ | ⟨hl, hout⟩
  · simpa only [hout] using hmerged
  · simpa only [hout] using hmerged
  · rw [hout]
    exact hmerged.put (hashPayload_ne_empty c.cmd) (fun _ => hnew hl) rfl

theorem Entries.onAck {ev : Event} (h : Entries exempt b p.key st)
    (hback : Backed exempt b p.key (p.subID f) (p.factHash f)) :
    Entries exempt b p.key (p.onAck max f st ev n) :=
  h.put (hashPayload_ne_empty (p.factCommand f)) (fun _ => hback) rfl

end Branches

theorem Backed.committed {x : Command} {t i : String} (hH : CollisionFree H) (hall : AllHashed H b)
    (hx : x ∈ H) (hxt : x.tenantId = t) (hex : ¬ exempt (hashPayload x))
    (h : Backed exempt b (stateKey t i) id (hashPayload x)) :
    Committed b (logSubjectFor t i) id (hashPayload x) := by
  rcases h with ⟨t', i', ht', hi', hkey, f, hf, hid, hhash⟩ | hx'
  · rcases List.mem_map.1 hf with ⟨m, hm, rfl⟩
    rcases mem_log.1 hm with ⟨hmem, hsub⟩
    rcases hall m hmem with ⟨y, hy, j, hyt, hj, hsub', hyhash, _⟩
    have hpay := hH y hy x hx (hyhash.symm.trans hhash)
    have htenant : (payloadOf y).tenantId = (payloadOf x).tenantId := by rw [hpay]
    rcases logSubjectFor_injective ht' hi' hyt hj (hsub.symm.trans hsub') with ⟨hty, _⟩
    have htt : t' = t := hty.trans (htenant.trans hxt)
    rw [htt] at hkey hf
    have hii : i' = i := stateKey_cancel hkey
    rw [hii] at hf
    exact ⟨m.payload, hf, hid, hhash⟩
  · exact absurd hx' hex

end RelayPoint.Signaling
