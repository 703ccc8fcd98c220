import RelayPoint.Signaling.Router

/-!
# Ingress — the identity that the router process derives from a command subject

The router trusts the broker's permissions: the last token of a command subject is the user who
published it.  Which users are trusted backends is a list of user ids in the environment.
-/

namespace RelayPoint.Signaling

/-! ## The operator's list -/

def isSpace (c : Char) : Bool :=
  c.toNat ∈ [0x09, 0x0a, 0x0b, 0x0c, 0x0d, 0x20, 0x85, 0xa0, 0x1680, 0x2028, 0x2029, 0x202f, 0x205f,
    0x3000] || 0x2000 ≤ c.toNat && c.toNat ≤ 0x200a

def trimSpace (s : String) : String :=
  String.ofList (((s.toList.dropWhile isSpace).reverse.dropWhile isSpace).reverse)

def trustedSet (csv : String) : List String :=
  (((csv.toList.splitOn ',').map String.ofList).map trimSpace).filter (· ≠ "")

/-! ## Identities -/

def identityFromSubject (subject : String) (trusted : List String) : Identity :=
  match splitDot subject with
  | [_, tenant, _, _, _, user] =>
    if tenant = "" ∨ user = "" then ⟨"", "", "", ""⟩
    else if user ∈ trusted then ⟨tenant, user, roleTrustedBackend, ""⟩
    else ⟨tenant, user, "", capabilityAgentFeed⟩
  | _ => ⟨"", "", "", ""⟩

theorem identityFromSubject_of_parse {s tenant iid suffix : String} {trusted : List String}
    (h : parseCmdSubject s = some (tenant, iid, suffix)) :
    identityFromSubject s trusted =
      if suffix ∈ trusted then ⟨tenant, suffix, roleTrustedBackend, ""⟩
      else ⟨tenant, suffix, "", capabilityAgentFeed⟩ := by
  rcases splitDot_of_parse h with ⟨hsplit, htenant, hsuffix⟩
  simp [identityFromSubject, hsplit, htenant, hsuffix]

/-! ## What the role decides -/

/-- Commands that change the membership are refused, and every other command but the start of an
interaction has to pass the membership gate. -/
structure Gated (call : Call) : Prop where
  privileged : ∀ cmd, call.data = some cmd → isParticipationCommand cmd.type = true →
    ∃ res, res.status = .rejected ∧ handleCommand call = pure res
  gate : ∀ c, call.request = .ordinary c → c.cmd.type ≠ "interaction.started" →
    c.gateParticipation = true

theorem classify_refuse {devMode : Bool} {id : Identity} {subject : String} {data : Option Command}
    {res : CommandResult} (h : classify devMode id subject data = .refuse res) :
    res.status = .rejected := by
  unfold classify at h
  split at h
  · cases h
    rfl
  · cases h
    rfl
  · split at h
    · cases h
      rfl
    · split at h
      · cases h
      · split at h
        · cases h
          rfl
        · split at h
          · cases h
            rfl
          · cases h

theorem authorize_untrusted {p : Candidate} {json : Option ParticipationData}
    (h : p.ctx.role ≠ roleTrustedBackend) :
    authorize p json = .error "privileged command requires trusted-backend actor" := by
  simp [authorize, h]

theorem Call.request_untrusted {call : Call} {cmd : Command}
    (hrole : call.id.role ≠ roleTrustedBackend) (hdata : call.data = some cmd)
    (htype : isParticipationCommand cmd.type = true) :
    ∃ res, res.status = .rejected ∧ call.request = .refuse res := by
  unfold Call.request
  cases hclass : classify call.router.devMode call.id call.subject call.data with
  | refuse res => exact ⟨res, classify_refuse hclass, rfl⟩
  | ordinary c =>
    have hcmd : cmd = c.cmd := Option.some.inj (hdata.symm.trans (classify_ordinary hclass).payload)
    rw [hcmd, c.not_command] at htype
    cases htype
  | privileged p =>
    simp only [authorize_untrusted ((classify_privileged hclass).ctx ▸ hrole)]
    exact ⟨_, rejected_status _ _, rfl⟩

theorem gated_of_untrusted {call : Call} (hauth : isAuthenticated call.id = true)
    (hrole : call.id.role ≠ roleTrustedBackend) : Gated call where
  privileged := by
    intro cmd hdata htype
    rcases Call.request_untrusted hrole hdata htype with ⟨res, hres, hrequest⟩
    exact ⟨res, hres, by simp [handleCommand, hrequest]⟩
  gate := by
    intro c hrequest htype
    simp [Ordinary.gateParticipation, (Call.request_ordinary hrequest).ctx, hauth, hrole, htype]

end RelayPoint.Signaling
