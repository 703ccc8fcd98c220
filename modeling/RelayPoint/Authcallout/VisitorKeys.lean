import RelayPoint.Authcallout.Grants

/-!
# VisitorKeys — `VisitorVerifier` and its cache of the desk's keys

A visitor's token is verified against a key set that the verifier fetches and caches.  A cached set is
used while it is younger than `ttl`; a key id that a fresh set lacks drives a refetch, but only one
within `refetchMin`.  Nothing holds back a refetch for a cache that is empty or stale.

The key library is a parameter: what it makes of the bytes of a key set (`parse`), of a key id
(`lookupKeyID`) and of a token (`headerKID`, `parseToken`).  What a call meets is a `Moment`: the clock
at each of its readings, and the answer of the source, should the call fetch.
-/

namespace RelayPoint.Authcallout

open Signaling (isSubscriberCapability)

/-! ## Claims -/

/-- What `Verify` reads of a token that has passed the signature and time checks.  A claim that is not
a string counts as missing, except that a role of any type is a role. -/
structure Claims where
  sub : String
  tid : Option String
  role : Option (Option String)
  cap : Option String
  cid : Option String

inductive ClaimError where
  | missingTidSub
  | unsafeToken (claim : String) (err : TokenError)
  | invalidSubscriber
  | missingCid
  deriving DecidableEq

def unsafeClaim (claim value : String) : Option ClaimError :=
  (validSubjectToken value).map (.unsafeToken claim)

def identityOf (c : Claims) : Except ClaimError Identity :=
  let tid := c.tid.getD ""
  if tid = "" ∨ c.sub = "" then .error .missingTidSub
  else
    match (unsafeClaim "tid" tid).or (unsafeClaim "sub" c.sub) with
    | some err => .error err
    | none =>
      match c.cap with
      | some capability =>
        if c.role.isSome ∨ c.cid.isSome ∨ ¬ isSubscriberCapability capability then
          .error .invalidSubscriber
        else .ok ⟨⟨tid, c.sub, "", capability⟩, ""⟩
      | none =>
        let cid := c.cid.getD ""
        if (c.role.bind id).getD "" ≠ "" ∨ cid = "" then .error .missingCid
        else
          match unsafeClaim "cid" cid with
          | some err => .error err
          | none => .ok ⟨⟨tid, c.sub, roleVisitor, ""⟩, cid⟩

/-! ## The verifier -/

def timeSub (t u : Int) : Int :=
  max (-2 ^ 63) (min (2 ^ 63 - 1) (t - u))

structure VisitorVerifier (KeySet : Type) where
  ttl : Int
  refetchMin : Int
  cached : Option KeySet
  fetchedAt : Int
  lastUnknownPoll : Int

structure Library (Raw KeySet : Type) where
  parse : Raw → Option KeySet
  lookupKeyID : KeySet → String → Bool
  headerKID : String → Option String
  /-- The signature and the times of a token are checked, the latter against the clock. -/
  parseToken : KeySet → String → Int → Option Claims

/-- The clock readings of a call in their order, and the source's answer to its fetch. -/
structure Moment (Raw : Type) where
  fresh : Int
  throttle : Int
  poll : Int
  landed : Int
  parsed : Int
  answer : Option Raw

inductive KeyError where
  | throttled
  | fetch
  | parse
  | unknownKid
  deriving DecidableEq

inductive Cause where
  | empty
  | unknownKid
  deriving DecidableEq

inductive Decision (KeySet : Type) where
  | serve (set : KeySet)
  | refuse
  | refetch (cause : Cause)

section Verifier

variable {Raw KeySet : Type} (lib : Library Raw KeySet)

def VisitorVerifier.isFresh (v : VisitorVerifier KeySet) (at_ : Int) : Bool :=
  v.cached.isSome && timeSub at_ v.fetchedAt < v.ttl

def decideKeys (v : VisitorVerifier KeySet) (kid : String) (m : Moment Raw) : Decision KeySet :=
  match v.cached with
  | none => .refetch .empty
  | some cached =>
    if v.isFresh m.fresh then
      if lib.lookupKeyID cached kid then .serve cached
      else if timeSub m.throttle v.lastUnknownPoll < v.refetchMin then .refuse
      else .refetch .unknownKid
    else .refetch .empty

def refetch (v : VisitorVerifier KeySet) (m : Moment Raw) :
    Except KeyError KeySet × VisitorVerifier KeySet :=
  match m.answer with
  | none => (.error .fetch, v)
  | some raw =>
    match lib.parse raw with
    | none => (.error .parse, v)
    | some set => (.ok set, { v with cached := some set, fetchedAt := m.landed })

def VisitorVerifier.noted (v : VisitorVerifier KeySet) (m : Moment Raw) :
    Cause → VisitorVerifier KeySet
  | .empty => v
  | .unknownKid => { v with lastUnknownPoll := m.poll }

structure Outcome (KeySet α : Type) where
  result : α
  verifier : VisitorVerifier KeySet
  started : Option Cause

def requireKid (kid : String) : Except KeyError KeySet → Except KeyError KeySet
  | .error err => .error err
  | .ok set => if lib.lookupKeyID set kid then .ok set else .error .unknownKid

def keySet (v : VisitorVerifier KeySet) (kid : String) (m : Moment Raw) :
    Outcome KeySet (Except KeyError KeySet) :=
  match decideKeys lib v kid m with
  | .serve set => ⟨.ok set, v, none⟩
  | .refuse => ⟨.error .throttled, v, none⟩
  | .refetch cause =>
    let (set, v) := refetch lib (v.noted m cause) m
    ⟨requireKid lib kid set, v, some cause⟩

inductive VisitorError where
  | emptyToken
  | header
  | jwks (err : KeyError)
  | token
  | claims (err : ClaimError)
  deriving DecidableEq

def admitted (token : String) (at_ : Int) : Except KeyError KeySet → Except VisitorError Identity
  | .error err => .error (.jwks err)
  | .ok set =>
    match lib.parseToken set token at_ with
    | none => .error .token
    | some claims =>
      match identityOf claims with
      | .error err => .error (.claims err)
      | .ok identity => .ok identity

def verify (v : VisitorVerifier KeySet) (token : String) (m : Moment Raw) :
    Outcome KeySet (Except VisitorError Identity) :=
  if token = "" then ⟨.error .emptyToken, v, none⟩
  else
    match lib.headerKID token with
    | none => ⟨.error .header, v, none⟩
    | some kid =>
      let out := keySet lib v kid m
      ⟨admitted lib token m.parsed out.result, out.verifier, out.started⟩

structure Call (Raw : Type) where
  token : String
  moment : Moment Raw

def serveAll (v : VisitorVerifier KeySet) (calls : List (Call Raw)) : VisitorVerifier KeySet :=
  calls.foldl (fun v c => (verify lib v c.token c.moment).verifier) v

def starts (cause : Cause) : VisitorVerifier KeySet → List (Call Raw) → Nat
  | _, [] => 0
  | v, c :: calls =>
    (if (verify lib v c.token c.moment).started = some cause then 1 else 0) +
      starts cause (verify lib v c.token c.moment).verifier calls

end Verifier

/-! ## What a call does to the verifier -/

section Calls

variable {Raw KeySet : Type} {lib : Library Raw KeySet} {v : VisitorVerifier KeySet}
variable {kid token : String} {m : Moment Raw}

theorem refetch_cases (lib : Library Raw KeySet) (v : VisitorVerifier KeySet) (m : Moment Raw) :
    (∃ raw set, m.answer = some raw ∧ lib.parse raw = some set ∧
      refetch lib v m = (.ok set, { v with cached := some set, fetchedAt := m.landed })) ∨
    ((∀ raw, m.answer = some raw → lib.parse raw = none) ∧
      ∃ err, refetch lib v m = (.error err, v)) := by
  cases hanswer : m.answer with
  | none => exact .inr ⟨by simp, .fetch, by simp only [refetch, hanswer]⟩
  | some raw =>
    cases hparse : lib.parse raw with
    | none =>
      refine .inr ⟨?_, .parse, by simp only [refetch, hanswer, hparse]⟩
      intro raw' heq
      rw [← Option.some.inj heq, hparse]
    | some set => exact .inl ⟨raw, set, rfl, hparse, by simp only [refetch, hanswer, hparse]⟩

theorem verify_cases (lib : Library Raw KeySet) (v : VisitorVerifier KeySet) (token : String)
    (m : Moment Raw) :
    ((verify lib v token m).verifier = v ∧ (verify lib v token m).started = none) ∨
    ∃ kid cause, token ≠ "" ∧ lib.headerKID token = some kid ∧
      decideKeys lib v kid m = .refetch cause ∧
      (verify lib v token m).verifier = (refetch lib (v.noted m cause) m).2 ∧
      (verify lib v token m).started = some cause := by
  by_cases hempty : token = ""
  · exact .inl ⟨by simp [verify, hempty], by simp [verify, hempty]⟩
  · cases hkid : lib.headerKID token with
    | none => exact .inl ⟨by simp [verify, hempty, hkid], by simp [verify, hempty, hkid]⟩
    | some kid =>
      cases hdecide : decideKeys lib v kid m with
      | serve set | refuse =>
        exact .inl ⟨by simp [verify, hempty, hkid, keySet, hdecide],
          by simp [verify, hempty, hkid, keySet, hdecide]⟩
      | refetch cause =>
        exact .inr ⟨kid, cause, hempty, rfl, hdecide,
          by simp [verify, hempty, hkid, keySet, hdecide],
          by simp [verify, hempty, hkid, keySet, hdecide]⟩

theorem decideKeys_refetch {cause : Cause} (h : decideKeys lib v kid m = .refetch cause) :
    (cause = .empty ∧ v.isFresh m.fresh = false) ∨
    (cause = .unknownKid ∧ v.isFresh m.fresh = true ∧
      ¬ timeSub m.throttle v.lastUnknownPoll < v.refetchMin) := by
  cases hcached : v.cached with
  | none =>
    simp only [decideKeys, hcached] at h
    cases h
    exact .inl ⟨rfl, by simp [VisitorVerifier.isFresh, hcached]⟩
  | some cached =>
    simp only [decideKeys, hcached] at h
    split at h
    · next hfresh =>
        split at h
        · cases h
        · split at h
          · cases h
          · next hopen =>
              cases h
              exact .inr ⟨rfl, hfresh, hopen⟩
    · next hstale =>
        cases h
        exact .inl ⟨rfl, by simpa using hstale⟩

@[simp] theorem noted_ttl {cause : Cause} : (v.noted m cause).ttl = v.ttl := by
  cases cause <;> rfl

@[simp] theorem noted_refetchMin {cause : Cause} : (v.noted m cause).refetchMin = v.refetchMin := by
  cases cause <;> rfl

theorem verify_durations : (verify lib v token m).verifier.ttl = v.ttl ∧
    (verify lib v token m).verifier.refetchMin = v.refetchMin := by
  rcases verify_cases lib v token m with ⟨hsame, _⟩ | ⟨kid, cause, _, _, _, hafter, _⟩
  · rw [hsame]
    exact ⟨rfl, rfl⟩
  · rw [hafter]
    rcases refetch_cases lib (v.noted m cause) m with ⟨_, _, _, _, heq⟩ | ⟨_, _, heq⟩
    all_goals
      rw [heq]
      exact ⟨noted_ttl, noted_refetchMin⟩

end Calls

/-! ## Calls within a short window -/

section Window

variable {Raw KeySet : Type} {lib : Library Raw KeySet} {v : VisitorVerifier KeySet}
variable {token : String} {m : Moment Raw} {start width : Int}

def During (start width t : Int) : Prop :=
  start ≤ t ∧ t ≤ start + width
  deriving Decidable

structure Moment.Within (m : Moment Raw) (start width : Int) : Prop where
  fresh : During start width m.fresh
  throttle : During start width m.throttle
  poll : During start width m.poll
  landed : During start width m.landed

theorem timeSub_lt {t u d : Int} (ht : During start width t) (hu : During start width u)
    (hd : width < d) : timeSub t u < d := by
  rcases ht with ⟨hst, hte⟩
  rcases hu with ⟨hsu, hue⟩
  simp only [timeSub]
  omega

def Polled (start width : Int) (v : VisitorVerifier KeySet) : Prop :=
  During start width v.lastUnknownPoll

def Renewed (start width : Int) (v : VisitorVerifier KeySet) : Prop :=
  v.cached.isSome ∧ During start width v.fetchedAt

theorem polled_verify (hm : m.Within start width)
    (h : Polled start width v ∨ (verify lib v token m).started = some .unknownKid) :
    Polled start width (verify lib v token m).verifier := by
  rcases verify_cases lib v token m with ⟨hsame, hnone⟩ | ⟨kid, cause, _, _, _, hafter, hstarted⟩
  · rw [hsame]
    exact h.resolve_right (by simp [hnone])
  · have hnoted : Polled start width (v.noted m cause) := by
      cases cause with
      | empty => exact h.resolve_right (by simp [hstarted])
      | unknownKid => exact hm.poll
    rw [hafter]
    rcases refetch_cases lib (v.noted m cause) m with ⟨_, _, _, _, heq⟩ | ⟨_, _, heq⟩
    all_goals
      rw [heq]
      exact hnoted

theorem not_started_of_polled (hwidth : width < v.refetchMin) (hm : m.Within start width)
    (h : Polled start width v) : (verify lib v token m).started ≠ some .unknownKid := by
  rcases verify_cases lib v token m with ⟨_, hnone⟩ | ⟨kid, cause, _, _, hdecide, _, hstarted⟩
  · simp [hnone]
  · rcases decideKeys_refetch hdecide with ⟨rfl, _⟩ | ⟨rfl, _, hopen⟩
    · simp [hstarted]
    · exact absurd (timeSub_lt hm.throttle h hwidth) hopen

theorem renewed_verify (hm : m.Within start width)
    (h : Renewed start width v ∨ ((verify lib v token m).started = some .empty ∧
      ∃ raw set, m.answer = some raw ∧ lib.parse raw = some set)) :
    Renewed start width (verify lib v token m).verifier := by
  rcases verify_cases lib v token m with ⟨hsame, hnone⟩ | ⟨kid, cause, _, _, _, hafter, hstarted⟩
  · rw [hsame]
    exact h.resolve_right (by simp [hnone])
  · rw [hafter]
    rcases refetch_cases lib (v.noted m cause) m with ⟨raw, set, _, _, heq⟩ | ⟨hbad, _, heq⟩
    · rw [heq]
      exact ⟨rfl, hm.landed⟩
    · rw [heq]
      have hold : Renewed start width v := by
        rcases h with hold | ⟨_, raw, set, hanswer, hparse⟩
        · exact hold
        · rw [hbad raw hanswer] at hparse
          cases hparse
      cases cause <;> exact hold

theorem not_started_of_renewed (hwidth : width < v.ttl) (hm : m.Within start width)
    (h : Renewed start width v) : (verify lib v token m).started ≠ some .empty := by
  rcases verify_cases lib v token m with ⟨_, hnone⟩ | ⟨kid, cause, _, _, hdecide, _, hstarted⟩
  · simp [hnone]
  · rcases decideKeys_refetch hdecide with ⟨rfl, hstale⟩ | ⟨rfl, _⟩
    · have hfresh : v.isFresh m.fresh = true := by
        simp only [VisitorVerifier.isFresh, Bool.and_eq_true, decide_eq_true_eq]
        exact ⟨h.1, timeSub_lt hm.fresh h.2 hwidth⟩
      rw [hfresh] at hstale
      cases hstale
    · simp [hstarted]

def Along (lib : Library Raw KeySet) (P : VisitorVerifier KeySet → Call Raw → Prop) :
    VisitorVerifier KeySet → List (Call Raw) → Prop
  | _, [] => True
  | v, c :: calls => P v c ∧ Along lib P (verify lib v c.token c.moment).verifier calls

section Once

variable {P : VisitorVerifier KeySet → Call Raw → Prop} (Done : VisitorVerifier KeySet → Prop)
variable {cause : Cause}
variable (hdone : ∀ v c, P v c → Done v →
  (verify lib v c.token c.moment).started ≠ some cause ∧ Done (verify lib v c.token c.moment).verifier)
include hdone

theorem starts_eq_zero (calls : List (Call Raw)) (h : Along lib P v calls) (hv : Done v) :
    starts lib cause v calls = 0 := by
  induction calls generalizing v with
  | nil => rfl
  | cons c calls ih =>
    rcases hdone v c h.1 hv with ⟨hnot, hafter⟩
    rw [starts, if_neg hnot, Nat.zero_add]
    exact ih h.2 hafter

theorem starts_le_one (hfire : ∀ v c, P v c → (verify lib v c.token c.moment).started = some cause →
      Done (verify lib v c.token c.moment).verifier)
    (calls : List (Call Raw)) (h : Along lib P v calls) : starts lib cause v calls ≤ 1 := by
  induction calls generalizing v with
  | nil => exact Nat.zero_le 1
  | cons c calls ih =>
    rw [starts]
    split
    · next hstarted => rw [starts_eq_zero Done hdone calls h.2 (hfire v c h.1 hstarted)]
    · rw [Nat.zero_add]
      exact ih h.2

end Once

def Answered (lib : Library Raw KeySet) : VisitorVerifier KeySet → List (Call Raw) → Prop :=
  Along lib fun v c => v.isFresh c.moment.fresh = false →
    ∃ raw set, c.moment.answer = some raw ∧ lib.parse raw = some set

structure Brief (start width : Int) (v : VisitorVerifier KeySet) (c : Call Raw) : Prop where
  ttl : width < v.ttl
  refetchMin : width < v.refetchMin
  within : c.moment.Within start width

theorem along_brief {P : VisitorVerifier KeySet → Call Raw → Prop} (calls : List (Call Raw))
    (httl : width < v.ttl) (hmin : width < v.refetchMin)
    (hcalls : ∀ c ∈ calls, c.moment.Within start width) (h : Along lib P v calls) :
    Along lib (fun v c => Brief start width v c ∧ P v c) v calls := by
  induction calls generalizing v with
  | nil => trivial
  | cons c calls ih =>
    refine ⟨⟨⟨httl, hmin, hcalls c (by simp)⟩, h.1⟩, ih ?_ ?_ ?_ h.2⟩
    · rwa [verify_durations.1]
    · rwa [verify_durations.2]
    · exact fun c' hc' => hcalls c' (by simp [hc'])

theorem along_true (calls : List (Call Raw)) : Along lib (fun _ _ => True) v calls := by
  induction calls generalizing v with
  | nil => trivial
  | cons c calls ih => exact ⟨trivial, ih⟩

theorem unknownKid_starts_le (lib : Library Raw KeySet) (calls : List (Call Raw)) (httl : width < v.ttl)
    (hmin : width < v.refetchMin) (hcalls : ∀ c ∈ calls, c.moment.Within start width) :
    starts lib .unknownKid v calls ≤ 1 := by
  refine starts_le_one (Polled start width) ?_ ?_ calls
    (along_brief calls httl hmin hcalls (along_true calls))
  · rintro v c ⟨hbrief, _⟩ hpolled
    exact ⟨not_started_of_polled hbrief.refetchMin hbrief.within hpolled,
      polled_verify hbrief.within (.inl hpolled)⟩
  · rintro v c ⟨hbrief, _⟩ hstarted
    exact polled_verify hbrief.within (.inr hstarted)

theorem stale_of_started (h : (verify lib v token m).started = some .empty) :
    v.isFresh m.fresh = false := by
  rcases verify_cases lib v token m with ⟨_, hnone⟩ | ⟨kid, cause, _, _, hdecide, _, hcause⟩
  · rw [hnone] at h
    cases h
  · rw [hcause] at h
    cases h
    rcases decideKeys_refetch hdecide with ⟨_, hstale⟩ | ⟨hother, _⟩
    · exact hstale
    · cases hother

theorem empty_starts_le (calls : List (Call Raw)) (httl : width < v.ttl)
    (hmin : width < v.refetchMin) (hcalls : ∀ c ∈ calls, c.moment.Within start width)
    (hanswered : Answered lib v calls) : starts lib .empty v calls ≤ 1 := by
  refine starts_le_one (Renewed start width) ?_ ?_ calls
    (along_brief calls httl hmin hcalls hanswered)
  · rintro v c ⟨hbrief, _⟩ hrenewed
    exact ⟨not_started_of_renewed hbrief.ttl hbrief.within hrenewed,
      renewed_verify hbrief.within (.inl hrenewed)⟩
  · rintro v c ⟨hbrief, hanswer⟩ hstarted
    exact renewed_verify hbrief.within (.inr ⟨hstarted, hanswer (stale_of_started hstarted)⟩)

end Window

/-! ## Where a key set comes from -/

section Origin

variable {Raw KeySet : Type} {lib : Library Raw KeySet} {v : VisitorVerifier KeySet}
variable {kid : String} {m : Moment Raw} {set : KeySet}

def VisitorVerifier.new (ttl refetchMin : Int) : VisitorVerifier KeySet :=
  ⟨ttl, refetchMin, none, 0, 0⟩

def Moment.Brings (lib : Library Raw KeySet) (m : Moment Raw) (set : KeySet) : Prop :=
  ∃ raw, m.answer = some raw ∧ lib.parse raw = some set

def Call.Fetches (lib : Library Raw KeySet) (v : VisitorVerifier KeySet) (c : Call Raw)
    (set : KeySet) : Prop :=
  (verify lib v c.token c.moment).started.isSome ∧ c.moment.Brings lib set

theorem keySet_ok (h : (keySet lib v kid m).result = .ok set) :
    lib.lookupKeyID set kid = true ∧
      ((v.cached = some set ∧ timeSub m.fresh v.fetchedAt < v.ttl) ∨
        ((keySet lib v kid m).started.isSome ∧ m.Brings lib set)) := by
  cases hdecide : decideKeys lib v kid m with
  | refuse => simp [keySet, hdecide] at h
  | serve set' =>
    have hset : set' = set := by simpa [keySet, hdecide] using h
    subst hset
    cases hcached : v.cached with
    | none => simp [decideKeys, hcached] at hdecide
    | some cached =>
      simp only [decideKeys, hcached] at hdecide
      split at hdecide
      · next hfresh =>
          split at hdecide
          · next hkid =>
              cases hdecide
              simp only [VisitorVerifier.isFresh, Bool.and_eq_true, decide_eq_true_eq] at hfresh
              exact ⟨hkid, .inl ⟨rfl, hfresh.2⟩⟩
          · split at hdecide <;> cases hdecide
      · cases hdecide
  | refetch cause =>
    have hrequire : requireKid lib kid (refetch lib (v.noted m cause) m).1 = .ok set := by
      simpa [keySet, hdecide] using h
    have hstarted : (keySet lib v kid m).started.isSome := by simp [keySet, hdecide]
    rcases refetch_cases lib (v.noted m cause) m with ⟨raw, got, hanswer, hparse, heq⟩ | ⟨_, _, heq⟩
    · rw [heq] at hrequire
      simp only [requireKid] at hrequire
      split at hrequire
      · next hkid =>
          cases hrequire
          exact ⟨hkid, .inr ⟨hstarted, raw, hanswer, hparse⟩⟩
      · cases hrequire
    · rw [heq] at hrequire
      cases hrequire

theorem serveAll_append (v : VisitorVerifier KeySet) (calls : List (Call Raw)) (c : Call Raw) :
    serveAll lib v (calls ++ [c]) = (verify lib (serveAll lib v calls) c.token c.moment).verifier := by
  simp [serveAll]

theorem serveAll_ttl (v : VisitorVerifier KeySet) (calls : List (Call Raw)) :
    (serveAll lib v calls).ttl = v.ttl := by
  induction calls generalizing v with
  | nil => rfl
  | cons c calls ih => exact (ih _).trans verify_durations.1

theorem cached_verify {c : Call Raw} (h : (verify lib v c.token c.moment).verifier.cached = some set) :
    (v.cached = some set ∧ (verify lib v c.token c.moment).verifier.fetchedAt = v.fetchedAt) ∨
      (c.Fetches lib v set ∧
        (verify lib v c.token c.moment).verifier.fetchedAt = c.moment.landed) := by
  rcases verify_cases lib v c.token c.moment with ⟨hsame, _⟩ | ⟨kid, cause, _, _, _, hafter, hstarted⟩
  · rw [hsame] at h ⊢
    exact .inl ⟨h, rfl⟩
  · rw [hafter] at h ⊢
    rcases refetch_cases lib (v.noted c.moment cause) c.moment with
      ⟨raw, got, hanswer, hparse, heq⟩ | ⟨_, _, heq⟩
    · rw [heq] at h ⊢
      cases h
      exact .inr ⟨⟨by simp [hstarted], raw, hanswer, hparse⟩, rfl⟩
    · rw [heq] at h ⊢
      cases cause <;> exact .inl ⟨h, rfl⟩

theorem cached_origin (ttl refetchMin : Int) (calls : List (Call Raw))
    (h : (serveAll lib (.new ttl refetchMin) calls).cached = some set) :
    ∃ earlier c later, calls = earlier ++ c :: later ∧
      c.Fetches lib (serveAll lib (.new ttl refetchMin) earlier) set ∧
      (serveAll lib (.new ttl refetchMin) calls).fetchedAt = c.moment.landed := by
  induction calls using List.reverseRecOn with
  | nil => cases h
  | append_singleton calls c ih =>
    rw [serveAll_append] at h ⊢
    rcases cached_verify h with ⟨hcached, hat⟩ | ⟨hfetches, hat⟩
    · rcases ih hcached with ⟨earlier, c', later, hcalls, hfetches, hlanded⟩
      exact ⟨earlier, c', later ++ [c], by simp [hcalls], hfetches, hat.trans hlanded⟩
    · exact ⟨calls, c, [], rfl, hfetches, hat⟩

end Origin

/-- As long as the source has a key set for the calls that find the cache empty or stale, calls within
a window shorter than both durations start at most one fetch of each kind; and any set that `keySet`
returns has the key, and was fetched less than the time to live before the call, or by it. -/
theorem visitor_fetches_bounded {Raw KeySet : Type} (lib : Library Raw KeySet) :
    (∀ (v : VisitorVerifier KeySet) (calls : List (Call Raw)) (start width : Int),
      width < v.ttl → width < v.refetchMin → (∀ c ∈ calls, c.moment.Within start width) →
      Answered lib v calls →
      starts lib .empty v calls ≤ 1 ∧ starts lib .unknownKid v calls ≤ 1 ∧
        starts lib .empty v calls + starts lib .unknownKid v calls ≤ 2) ∧
    ∀ (ttl refetchMin : Int) (calls : List (Call Raw)) (kid : String) (m : Moment Raw) (set : KeySet),
      (keySet lib (serveAll lib (.new ttl refetchMin) calls) kid m).result = .ok set →
      lib.lookupKeyID set kid = true ∧
      ((∃ earlier c later, calls = earlier ++ c :: later ∧
          c.Fetches lib (serveAll lib (.new ttl refetchMin) earlier) set ∧
          timeSub m.fresh c.moment.landed < ttl) ∨
        ((keySet lib (serveAll lib (.new ttl refetchMin) calls) kid m).started.isSome ∧
          m.Brings lib set)) := by
  refine ⟨?_, ?_⟩
  · intro v calls start width httl hmin hcalls hanswered
    have hempty := empty_starts_le calls httl hmin hcalls hanswered
    have hunknown := unknownKid_starts_le lib calls httl hmin hcalls
    exact ⟨hempty, hunknown, Nat.add_le_add hempty hunknown⟩
  · intro ttl refetchMin calls kid m set h
    rcases keySet_ok h with ⟨hkid, ⟨hcached, hfresh⟩ | hfetched⟩
    · rcases cached_origin ttl refetchMin calls hcached with
        ⟨earlier, c, later, hcalls, hfetches, hlanded⟩
      rw [hlanded, serveAll_ttl] at hfresh
      exact ⟨hkid, .inl ⟨earlier, c, later, hcalls, hfetches, hfresh⟩⟩
    · exact ⟨hkid, .inr hfetched⟩

namespace VisitorScenario

def lib : Library (List String) (List String) where
  parse := some
  lookupKeyID set kid := set.contains kid
  headerKID token := some token
  parseToken _ _ _ := none

def call (token : String) (time : Int) (answer : Option (List String)) : Call (List String) :=
  ⟨token, time, time, time, time, time, answer⟩

def forged : List (Call (List String)) :=
  [call "k1" 100 (some ["k1"]), call "k2" 101 (some ["k1"]), call "k3" 102 (some ["k1"])]

def failing : List (Call (List String)) :=
  [call "k1" 100 none, call "k2" 101 none, call "k3" 102 none]

def verifier : VisitorVerifier (List String) :=
  .new 10 5

end VisitorScenario

open VisitorScenario in
theorem visitor_fetches_bounded_forged :
    starts lib .empty verifier forged + starts lib .unknownKid verifier forged = 2 ∧
      starts lib .empty verifier forged ≤ 1 ∧ starts lib .unknownKid verifier forged ≤ 1 := by
  have hwithin : ∀ c ∈ forged, c.moment.Within 100 2 := by
    intro c hc
    simp only [forged, List.mem_cons, List.not_mem_nil, or_false] at hc
    rcases hc with rfl | rfl | rfl
    all_goals exact ⟨by decide, by decide, by decide, by decide⟩
  have hanswered : Answered lib verifier forged :=
    ⟨fun _ => ⟨_, _, rfl, rfl⟩, fun _ => ⟨_, _, rfl, rfl⟩, fun _ => ⟨_, _, rfl, rfl⟩, trivial⟩
  have hbound := (visitor_fetches_bounded lib).1 verifier forged 100 2 (by decide) (by decide) hwithin
    hanswered
  exact ⟨by decide +kernel, hbound.1, hbound.2.1⟩

open VisitorScenario in
/-- While the source fails, every call fetches. -/
theorem visitor_fetches_unbounded :
    (2 : Int) < verifier.ttl ∧ (2 : Int) < verifier.refetchMin ∧
      (∀ c ∈ failing, c.moment.Within 100 2) ∧
      starts lib .empty verifier failing + starts lib .unknownKid verifier failing = 3 := by
  refine ⟨by decide, by decide, ?_, by decide +kernel⟩
  intro c hc
  simp only [failing, List.mem_cons, List.not_mem_nil, or_false] at hc
  rcases hc with rfl | rfl | rfl
  all_goals exact ⟨by decide, by decide, by decide, by decide⟩

end RelayPoint.Authcallout
