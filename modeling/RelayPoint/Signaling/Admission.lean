import RelayPoint.Signaling.State

/-!
# Admission — what `HandleCommand` settles before it looks at any state

The head of `HandleCommand` parses the subject, checks the payload against the authenticated
identity, and splits commands in two: ordinary commands, which append one fact, and privileged
participation commands, which append one or two.  `classify` and `authorize` are these checks.  Their
results carry what was checked, so that the append loops can rely on it.
-/

namespace RelayPoint.Signaling

/-! ## Subject tokens -/

def DotFree (s : String) : Prop :=
  '.' ∉ s.toList
  deriving Decidable

theorem not_mem_of_mem_splitOn {x : Char} {part : List Char} :
    ∀ {l : List Char}, part ∈ l.splitOn x → x ∉ part := by
  intro l
  induction l generalizing part with
  | nil =>
    intro h
    have : part = [] := by simpa using h
    simp [this]
  | cons c l ih =>
    intro h
    rw [List.splitOn_cons_eq_if_modifyHead] at h
    by_cases hc : c = x
    · rcases List.mem_cons.1 (by simpa [hc] using h) with hpart | hpart
      · simp [hpart]
      · exact ih hpart
    · cases hs : l.splitOn x with
      | nil => exact absurd hs (List.splitOn_ne_nil _ _)
      | cons first rest =>
        rcases List.mem_cons.1 (by simpa [hc, hs] using h) with hpart | hpart
        · have hfirst : x ∉ first := ih (by simp [hs])
          simpa [hpart, hfirst] using fun hxc => hc (Eq.symm hxc)
        · exact ih (by simp [hs, hpart])

theorem dotFree_of_mem_splitDot {s part : String} (h : part ∈ splitDot s) : DotFree part := by
  rcases List.mem_map.1 h with ⟨chars, hmem, rfl⟩
  simpa [DotFree] using not_mem_of_mem_splitOn hmem

theorem parseCmdSubject_dotFree {s tenant iid suffix : String}
    (h : parseCmdSubject s = some (tenant, iid, suffix)) : DotFree tenant ∧ DotFree iid := by
  unfold parseCmdSubject at h
  split at h
  · rename_i p0 t p2 i p4 x hsplit
    split at h
    · cases h
    · split at h
      · cases h
      · cases h
        constructor
        all_goals exact dotFree_of_mem_splitDot (s := s) (by simp [hsplit])
  · cases h

theorem splitDot_of_parse {s tenant iid suffix : String}
    (h : parseCmdSubject s = some (tenant, iid, suffix)) :
    splitDot s = ["tenant", tenant, "interaction", iid, "cmd", suffix] ∧ tenant ≠ "" ∧
      suffix ≠ "" := by
  unfold parseCmdSubject at h
  split at h
  · next hsplit =>
      split at h
      · cases h
      · next hwords =>
          split at h
          · cases h
          · next hnonempty =>
              simp only [not_or, not_not] at hwords hnonempty
              cases h
              rw [hsplit, hwords.1, hwords.2.1, hwords.2.2]
              exact ⟨rfl, hnonempty.1, hnonempty.2.2⟩
  · cases h

theorem eq_of_append_cons_eq {x : Char} {b b' : List Char} : ∀ {a a' : List Char}, x ∉ a → x ∉ a' →
    a ++ x :: b = a' ++ x :: b' → a = a' ∧ b = b' := by
  intro a
  induction a with
  | nil =>
    intro a' _ ha' heq
    cases a' with
    | nil => simpa using heq
    | cons y a' =>
      have hy : x = y := by simpa using (List.cons.inj heq).1
      simp [← hy] at ha'
  | cons y a ih =>
    intro a' ha ha' heq
    cases a' with
    | nil =>
      have hy : y = x := by simpa using (List.cons.inj heq).1
      simp [hy] at ha
    | cons y' a' =>
      rcases List.cons.inj heq with ⟨hy, htail⟩
      rcases ih (fun hm => ha (List.mem_cons_of_mem _ hm))
        (fun hm => ha' (List.mem_cons_of_mem _ hm)) htail with ⟨h₁, h₂⟩
      exact ⟨by rw [hy, h₁], h₂⟩

theorem dedupID_injective {t i c t' i' c' : String} (ht : DotFree t) (hi : DotFree i)
    (ht' : DotFree t') (hi' : DotFree i') (h : dedupID t i c = dedupID t' i' c') :
    t = t' ∧ i = i' ∧ c = c' := by
  have hlist : t.toList ++ '.' :: (i.toList ++ '.' :: c.toList) =
      t'.toList ++ '.' :: (i'.toList ++ '.' :: c'.toList) := by
    simpa [dedupID] using congrArg String.toList h
  rcases eq_of_append_cons_eq ht ht' hlist with ⟨h₁, hrest⟩
  rcases eq_of_append_cons_eq hi hi' hrest with ⟨h₂, h₃⟩
  exact ⟨String.toList_inj.1 h₁, String.toList_inj.1 h₂, String.toList_inj.1 h₃⟩

/-! ## Ordinary commands -/

structure Ordinary where
  ctx : Identity
  tenant : String
  iid : String
  suffix : String
  cmd : Command
  tenant_dotFree : DotFree tenant
  iid_dotFree : DotFree iid
  commandId_ne : cmd.commandId ≠ ""
  tenant_eq : cmd.tenantId = tenant
  author : ctx.role ≠ roleTrustedBackend → cmd.actorId = suffix
  not_command : isParticipationCommand cmd.type = false
  not_fact : isParticipationFact cmd.type = false

structure Candidate where
  ctx : Identity
  tenant : String
  iid : String
  actor : String
  cmd : Command
  tenant_dotFree : DotFree tenant
  iid_dotFree : DotFree iid
  commandId_ne : cmd.commandId ≠ ""
  is_command : isParticipationCommand cmd.type = true

inductive Admission where
  | refuse (res : CommandResult)
  | ordinary (c : Ordinary)
  | privileged (p : Candidate)

/-- The checks of a decoded command against the authenticated identity and the subject: the reason
of the first one that fails. -/
def envelopeRefusal (devMode : Bool) (id : Identity) (tenant suffix : String) (cmd : Command) :
    Option String :=
  let authTenant := if id.tenantId = "" then tenant else id.tenantId
  if !isAuthenticated id && !devMode then some "unauthenticated"
  else if cmd.commandId = "" then some "missing command_id"
  else if tenant ≠ authTenant then some "subject tenant != authenticated tenant"
  else if cmd.tenantId ≠ authTenant then some "payload tenant_id != authenticated tenant"
  else if id.role ≠ roleTrustedBackend then
    if cmd.actorId = "" then some "missing actor_id"
    else if cmd.actorId ≠ suffix then some "actor_mismatch"
    else if id.userId ≠ "" ∧ suffix ≠ id.userId then some "actor_id != authenticated user"
    else none
  else none

/-- What a command that passes is bound to: the subject, and the identity where that is set. -/
structure Vetted (devMode : Bool) (id : Identity) (tenant suffix : String) (cmd : Command) : Prop where
  authenticated : devMode = false → isAuthenticated id = true
  commandId_ne : cmd.commandId ≠ ""
  tenant_eq : cmd.tenantId = tenant
  identity_tenant : id.tenantId ≠ "" → tenant = id.tenantId
  author : id.role ≠ roleTrustedBackend → cmd.actorId = suffix
  user : id.role ≠ roleTrustedBackend → id.userId ≠ "" → suffix = id.userId

theorem envelopeRefusal_none {devMode : Bool} {id : Identity} {tenant suffix : String}
    {cmd : Command} (h : envelopeRefusal devMode id tenant suffix cmd = none) :
    Vetted devMode id tenant suffix cmd := by
  simp only [envelopeRefusal] at h
  generalize hauthTenant : (if id.tenantId = "" then tenant else id.tenantId) = authTenant at h
  split at h
  · cases h
  · next hauth =>
      split at h
      · cases h
      · next hc =>
          split at h
          · cases h
          · next ht =>
              split at h
              · cases h
              · next hp =>
                  have ht := not_not.1 ht
                  have hactor : id.role ≠ roleTrustedBackend →
                      cmd.actorId = suffix ∧ (id.userId ≠ "" → suffix = id.userId) := by
                    intro hrole
                    rw [if_pos hrole] at h
                    split at h
                    · cases h
                    · split at h
                      · cases h
                      · next ha =>
                          split at h
                          · cases h
                          · next hu =>
                              exact ⟨not_not.1 ha, fun hne => not_not.1 fun hs => hu ⟨hne, hs⟩⟩
                  refine ⟨?_, hc, (not_not.1 hp).trans ht.symm, ?_, fun hrole => (hactor hrole).1,
                    fun hrole => (hactor hrole).2⟩
                  · intro hdev
                    simpa [hdev] using hauth
                  · intro hne
                    rw [ht, ← hauthTenant, if_neg hne]

/-- `HandleCommand` up to the first access to state; `data` is the outcome of decoding the
payload. -/
def classify (devMode : Bool) (id : Identity) (subject : String) (data : Option Command) :
    Admission :=
  match hs : parseCmdSubject subject, data with
  | none, _ => .refuse (rejected "" "bad subject")
  | some _, none => .refuse (rejected "" "bad payload")
  | some (tenant, iid, suffix), some cmd =>
    match he : envelopeRefusal devMode id tenant suffix cmd with
    | some reason => .refuse (rejected cmd.commandId reason)
    | none =>
      if hcmd : isParticipationCommand cmd.type = true then
        .privileged {
          ctx := id, tenant := tenant, iid := iid, actor := suffix, cmd := cmd
          tenant_dotFree := (parseCmdSubject_dotFree hs).1
          iid_dotFree := (parseCmdSubject_dotFree hs).2
          commandId_ne := (envelopeRefusal_none he).commandId_ne
          is_command := hcmd }
      else if hfact : isParticipationFact cmd.type = true then
        .refuse (rejected cmd.commandId "participation fact requires a privileged command")
      else if isAuthenticated id ∧ id.role ≠ roleTrustedBackend ∧
          !isSubscriberCapability id.capability then
        .refuse (rejected cmd.commandId "capability_denied")
      else
        .ordinary {
          ctx := id, tenant := tenant, iid := iid, suffix := suffix, cmd := cmd
          tenant_dotFree := (parseCmdSubject_dotFree hs).1
          iid_dotFree := (parseCmdSubject_dotFree hs).2
          commandId_ne := (envelopeRefusal_none he).commandId_ne
          tenant_eq := (envelopeRefusal_none he).tenant_eq
          author := (envelopeRefusal_none he).author
          not_command := by simpa using hcmd
          not_fact := by simpa using hfact }

section Origin

variable (devMode : Bool) (id : Identity) (subject : String) (data : Option Command)

/-- The command is the decoded payload, on the interaction and by the sender that the subject names,
and it passed the checks. -/
structure Ordinary.From (c : Ordinary) : Prop where
  payload : data = some c.cmd
  named : parseCmdSubject subject = some (c.tenant, c.iid, c.suffix)
  ctx : c.ctx = id
  vetted : Vetted devMode id c.tenant c.suffix c.cmd
  capable : isAuthenticated id = true → id.role ≠ roleTrustedBackend →
    isSubscriberCapability id.capability = true

structure Candidate.From (p : Candidate) : Prop where
  payload : data = some p.cmd
  named : parseCmdSubject subject = some (p.tenant, p.iid, p.actor)
  ctx : p.ctx = id
  vetted : Vetted devMode id p.tenant p.actor p.cmd

variable {devMode id subject data}

theorem classify_ordinary {c : Ordinary} (h : classify devMode id subject data = .ordinary c) :
    c.From devMode id subject data := by
  unfold classify at h
  split at h
  · cases h
  · cases h
  · next hs =>
      split at h
      · cases h
      · next he =>
          split at h
          · cases h
          · split at h
            · cases h
            · split at h
              · cases h
              · next hcap =>
                  cases h
                  refine ⟨rfl, hs, rfl, envelopeRefusal_none he, ?_⟩
                  intro hauth hrole
                  simpa [hauth, hrole] using hcap

theorem classify_privileged {p : Candidate} (h : classify devMode id subject data = .privileged p) :
    p.From devMode id subject data := by
  unfold classify at h
  split at h
  · cases h
  · cases h
  · next hs =>
      split at h
      · cases h
      · next he =>
          split at h
          · cases h
            exact ⟨rfl, hs, rfl, envelopeRefusal_none he⟩
          · split at h
            · cases h
            · split at h
              all_goals cases h

end Origin

/-! ## Privileged commands -/

structure ParticipationData where
  agent : String
  «from» : String
  reason : String
  requestId : String
  deriving DecidableEq, Repr

structure PlannedFact where
  eventType : String
  agent : String
  deriving DecidableEq, Repr

/-- The facts a payload lands, in order.  A transfer opens the new leg before it closes the old one. -/
def planFacts (cmdType : String) (pd : ParticipationData) : Except String (List PlannedFact) :=
  if cmdType = "participant.assign" then
    if pd.agent = "" then .error "missing agent" else .ok [⟨"participant.joined", pd.agent⟩]
  else if cmdType = "participant.unassign" then
    if pd.agent = "" then .error "missing agent" else .ok [⟨"participant.left", pd.agent⟩]
  else if cmdType = "participant.transfer" then
    if pd.agent = "" ∨ pd.from = "" then .error "missing from/agent"
    else .ok [⟨"participant.joined", pd.agent⟩, ⟨"participant.left", pd.from⟩]
  else .ok []

structure Privileged extends Candidate where
  pd : ParticipationData
  facts : List PlannedFact
  trusted : ctx.role = roleTrustedBackend
  planned : planFacts cmd.type pd = .ok facts

/-- The part of a privileged command that its id stands for; `From` counts for transfers only. -/
structure Payload where
  cmdType : String
  agent : String
  «from» : String
  deriving DecidableEq, Repr

def Privileged.payload (p : Privileged) : Payload where
  cmdType := p.cmd.type
  agent := p.pd.agent
  «from» := if p.cmd.type = "participant.transfer" then p.pd.from else ""

/-- `handleParticipation` up to the first access to state; `json` is the outcome of decoding
`cmd.Data`, which is not looked at when the field is empty. -/
def authorize (p : Candidate) (json : Option ParticipationData) : Except String Privileged :=
  if hrole : p.ctx.role ≠ roleTrustedBackend then
    .error "privileged command requires trusted-backend actor"
  else
    match if p.cmd.data = [] then some ⟨"", "", "", ""⟩ else json with
    | none => .error "bad participation payload"
    | some pd =>
      match hplan : planFacts p.cmd.type pd with
      | .error reason => .error reason
      | .ok facts =>
        .ok { p with pd := pd, facts := facts, trusted := not_not.1 hrole, planned := hplan }

theorem authorize_ok {p : Candidate} {json : Option ParticipationData} {q : Privileged}
    (h : authorize p json = .ok q) : q.toCandidate = p := by
  unfold authorize at h
  split at h
  · cases h
  · split at h
    · cases h
    · split at h
      · cases h
      · cases h
        rfl

theorem planFacts_isParticipationFact {cmdType : String} {pd : ParticipationData}
    {facts : List PlannedFact} (h : planFacts cmdType pd = .ok facts) :
    ∀ f ∈ facts, isParticipationFact f.eventType = true := by
  unfold planFacts at h
  repeat' split at h
  all_goals cases h
  all_goals simp [isParticipationFact]

theorem Privileged.isParticipationFact {p : Privileged} {f : PlannedFact} (hf : f ∈ p.facts) :
    Signaling.isParticipationFact f.eventType = true :=
  planFacts_isParticipationFact p.planned f hf

end RelayPoint.Signaling
