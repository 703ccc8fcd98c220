import RelayPoint.Authcallout.Grants

/-!
# Confinement — what the minted grants reach

The tenant, the user and the conversation of an accepted identity are single tokens without wildcards,
and the connection id has no dot, so every pattern has the tokens that it is written with.  For each
role the subjects that the grant reaches are listed; confinement is read off the lists.
-/

namespace RelayPoint.Authcallout

open Pattern
open Signaling (splitDot DotFree parseCmdSubject isSubscriberCapability roleTrustedBackend)

/-! ## Tokens -/

theorem toList_dotted (tokens : List String) :
    (dotted tokens).toList = ['.'].intercalate (tokens.map String.toList) := by
  rw [dotted, String.toList_intercalate]
  rfl

theorem dotted_cons_cons (t u : String) (ts : List String) :
    dotted (t :: u :: ts) = t ++ "." ++ dotted (u :: ts) := by
  rw [← String.toList_inj]
  simp [toList_dotted]

theorem dotted_concat (t : String) (ts : List String) (u : String) :
    dotted (t :: (ts ++ [u])) = dotted (t :: ts) ++ "." ++ u := by
  induction ts generalizing t with
  | nil => simp [dotted]
  | cons v ts ih =>
    rw [List.cons_append, dotted_cons_cons, dotted_cons_cons, ih v]
    simp [String.append_assoc]

theorem dotted_append_head (x t : String) (ts : List String) :
    dotted ((x ++ t) :: ts) = x ++ dotted (t :: ts) := by
  cases ts with
  | nil => simp [dotted]
  | cons v ts => simp [dotted_cons_cons, String.append_assoc]

variable {tokens : List String} {t s conn : String} {g : Grant}

theorem splitDot_dotted (hne : tokens ≠ []) (hfree : ∀ t ∈ tokens, DotFree t) :
    splitDot (dotted tokens) = tokens := by
  have hparts : ∀ part ∈ tokens.map String.toList, '.' ∉ part := by
    intro part hpart
    rcases List.mem_map.1 hpart with ⟨t, ht, rfl⟩
    exact hfree t ht
  rw [splitDot, toList_dotted, List.splitOn_intercalate '.' hparts (by simpa using hne)]
  simp

@[simp] theorem token_star : token "*" = .any :=
  rfl

@[simp] theorem token_tail : token ">" = .rest :=
  rfl

theorem token_of_ne (hstar : t ≠ "*") (htail : t ≠ ">") : token t = .literal t := by
  simp [token, hstar, htail]

theorem checkChar_none {c : Char} (h : checkChar c = none) : c ≠ '.' ∧ c ≠ '*' ∧ c ≠ '>' := by
  unfold checkChar at h
  split at h
  · cases h
  · next hmeta => simpa [not_or] using hmeta

structure Plain (t : String) : Prop where
  dotFree : DotFree t
  literal : token t = .literal t

instance (t : String) : Decidable (Plain t) :=
  decidable_of_iff (DotFree t ∧ token t = .literal t) ⟨fun h => ⟨h.1, h.2⟩, fun h => ⟨h.1, h.2⟩⟩

theorem plain_of_valid (h : validSubjectToken t = none) : Plain t := by
  unfold validSubjectToken at h
  split at h
  · cases h
  · have hchars : ∀ c ∈ t.toList, checkChar c = none := List.findSome?_eq_none_iff.1 h
    refine ⟨fun hdot => (checkChar_none (hchars _ hdot)).1 rfl, ?_⟩
    refine token_of_ne ?_ ?_
    · rintro rfl
      exact (checkChar_none (hchars '*' (by decide))).2.1 rfl
    · rintro rfl
      exact (checkChar_none (hchars '>' (by decide))).2.2 rfl

theorem dotted_splitDot (s : String) : dotted (splitDot s) = s := by
  rw [← String.toList_inj, toList_dotted, splitDot]
  simp

theorem eq_dotted (h : splitDot s = tokens) : s = dotted tokens := by
  rw [← h, dotted_splitDot]

theorem covers_dotted (hne : tokens ≠ []) (hfree : ∀ t ∈ tokens, DotFree t) :
    Covers (dotted tokens) s ↔ Matches (tokens.map token) (splitDot s) := by
  rw [covers_iff, parsePattern, splitDot_dotted hne hfree]

theorem publishes_iff :
    g.Publishes s ↔ (g.pubAllow = [] ∨ ∃ p ∈ g.pubAllow, Covers p s) ∧
      ∀ p ∈ g.pubDeny, ¬ Covers p s := by
  simp [Grant.Publishes, Permission.grants, permission, covers_iff]

theorem reads_iff :
    g.Reads s ↔ (g.subAllow = [] ∨ ∃ p ∈ g.subAllow, Covers p s) ∧
      ∀ p ∈ g.subDeny, ¬ Covers p s := by
  simp [Grant.Reads, Permission.grants, permission, covers_iff]

theorem covers_tail : Covers ">" s := by
  have hne : splitDot s ≠ [] := by simp [splitDot]
  exact covers_iff.2 (matches_rest.2 hne)

theorem leads_of_covers : ∀ (pre suf : List String), pre ++ suf ≠ [] →
    (∀ t ∈ pre, Plain t) → (∀ t ∈ suf, DotFree t) → Covers (dotted (pre ++ suf)) s →
    ∃ rest, splitDot s = pre ++ rest := by
  intro pre suf hne hpre hsuf hcovers
  have hfree : ∀ t ∈ pre ++ suf, DotFree t := by
    intro t ht
    rcases List.mem_append.1 ht with ht | ht
    · exact (hpre t ht).dotFree
    · exact hsuf t ht
  rw [covers_dotted hne hfree, List.map_append] at hcovers
  generalize splitDot s = tokens at hcovers ⊢
  clear hne hfree
  induction pre generalizing tokens with
  | nil => exact ⟨tokens, rfl⟩
  | cons t pre ih =>
    rw [List.map_cons, (hpre t (by simp)).literal, List.cons_append, matches_literal] at hcovers
    rcases hcovers with ⟨tokens', rfl, hcovers⟩
    rcases ih (fun u hu => hpre u (by simp [hu])) tokens' hcovers with ⟨rest, rfl⟩
    exact ⟨rest, rfl⟩

theorem inbox_ne (ht : t.toList.head? ≠ some '_') : "_INBOX_" ++ conn ≠ t := by
  rintro rfl
  exact ht (by simp)

theorem plain_inbox (h : DotFree conn) : Plain ("_INBOX_" ++ conn) := by
  refine ⟨?_, ?_⟩
  · simpa [DotFree] using h
  · exact token_of_ne (inbox_ne (by decide)) (inbox_ne (by decide))

theorem splitDot_of_dotFree (h : DotFree s) : splitDot s = [s] := by
  have hsplit : splitDot (dotted [s]) = [s] := splitDot_dotted (by simp) (by simpa using h)
  simpa [dotted] using hsplit

/-- A subject below the inbox of a connection.  A dot in the connection id cuts the first token. -/
def InInbox (conn s : String) : Prop :=
  ∃ first rest, splitDot s = ("_INBOX_" ++ first) :: rest ∧ (DotFree conn → first = conn)

theorem InInbox.first_ne {rest : List String} (h : InInbox conn s) (ht : t.toList.head? ≠ some '_') :
    splitDot s ≠ t :: rest := by
  intro hs
  rcases h with ⟨first, rest', hfirst, _⟩
  rw [hs] at hfirst
  exact inbox_ne ht (List.cons.inj hfirst).1.symm

/-! ## What each role reaches -/

section Roles

variable {t self cid conn capability s : String}

inductive Publication (t self conn s : String) : Prop where
  | command {iid : String} :
      splitDot s = ["tenant", t, "interaction", iid, "cmd", self] → Publication t self conn s
  | presence {rest : List String} :
      splitDot s = "tenant" :: t :: "presence" :: rest → Publication t self conn s
  | api {rest : List String} : splitDot s = "$JS" :: rest → Publication t self conn s
  | inbox : InInbox conn s → Publication t self conn s

theorem covers_command (ht : Plain t) (hself : Plain self) :
    Covers (dotted ["tenant", t, "interaction", "*", "cmd", self]) s ↔
      ∃ iid, splitDot s = ["tenant", t, "interaction", iid, "cmd", self] := by
  have hfree : ∀ u ∈ ["tenant", t, "interaction", "*", "cmd", self], DotFree u := by
    simp [ht.dotFree, hself.dotFree]
    decide
  rw [covers_dotted (by simp) hfree]
  simp [ht.literal, hself.literal, token_of_ne]

theorem inInbox_of_covers (h : Covers (inbox conn) s) : InInbox conn s := by
  -- the pattern has the tokens of the connection id before its wildcard
  obtain ⟨first, more, hconn⟩ : ∃ first more, splitDot conn = first :: more :=
    List.exists_cons_of_ne_nil (by simp [splitDot])
  have hfree : ∀ u ∈ first :: more, DotFree u := by
    intro u hu
    rw [← hconn] at hu
    exact Signaling.dotFree_of_mem_splitDot hu
  have hpattern : inbox conn = dotted (("_INBOX_" ++ first) :: (more ++ [">"])) := by
    rw [dotted_concat, dotted_append_head, ← eq_dotted hconn, inbox]
    simp [dotted]
  rw [hpattern] at h
  have hsuf : ∀ u ∈ more ++ [">"], DotFree u := by
    simp only [List.mem_append, List.mem_singleton]
    rintro u (hu | rfl)
    · exact hfree u (by simp [hu])
    · decide
  rcases leads_of_covers ["_INBOX_" ++ first] (more ++ [">"]) (by simp)
    (by simpa using plain_inbox (hfree first (by simp))) hsuf h with ⟨rest, hs⟩
  refine ⟨first, rest, hs, ?_⟩
  intro hdot
  rw [splitDot_of_dotFree hdot] at hconn
  exact (List.cons.inj hconn).1.symm

theorem subscriber_publishes (ht : Plain t) (hself : Plain self)
    (h : (subscriberGrant t self conn capability).Publishes s) : Publication t self conn s := by
  have hallow := (publishes_iff.1 h).1
  simp only [subscriberGrant, reduceCtorEq, false_or] at hallow
  rcases hallow with ⟨p, hp, hcovers⟩
  simp only [List.mem_cons, List.not_mem_nil, or_false] at hp
  rcases hp with rfl | rfl | rfl | rfl
  · rcases (covers_command ht hself).1 hcovers with ⟨iid, hs⟩
    exact .command hs
  · rcases leads_of_covers ["tenant", t, "presence"] [self, "state"] (by simp)
      (by simp [ht]; decide) (by simp [hself.dotFree]; decide) hcovers with ⟨rest, hs⟩
    exact .presence hs
  · rcases leads_of_covers ["tenant", t, "presence"] [self, "typing", ">"] (by simp)
      (by simp [ht]; decide) (by simp [hself.dotFree]; decide) hcovers with ⟨rest, hs⟩
    exact .presence hs
  · exact .inbox (inInbox_of_covers hcovers)

theorem trustedBackend_publishes (ht : Plain t) (hself : Plain self)
    (h : (trustedBackendGrant t self conn).Publishes s) : Publication t self conn s := by
  have hapi : ∀ suf : List String, (∀ u ∈ suf, DotFree u) →
      Covers (dotted ("$JS" :: suf)) s → Publication t self conn s := by
    intro suf hsuf hcovers
    rcases leads_of_covers ["$JS"] suf (by simp) (by decide) hsuf hcovers with ⟨rest, hs⟩
    exact .api hs
  have hallow := (publishes_iff.1 h).1
  simp only [trustedBackendGrant, reduceCtorEq, false_or] at hallow
  rcases hallow with ⟨p, hp, hcovers⟩
  simp only [List.mem_cons, List.not_mem_nil, or_false] at hp
  rcases hp with rfl | rfl | rfl | rfl | rfl | rfl | rfl | rfl
  · rcases (covers_command ht hself).1 hcovers with ⟨iid, hs⟩
    exact .command hs
  · exact .inbox (inInbox_of_covers hcovers)
  all_goals exact hapi _ (by decide) hcovers

theorem visitor_publishes : ¬ (visitorGrant t cid conn).Publishes s := by
  intro h
  exact (publishes_iff.1 h).2 ">" (by simp [visitorGrant]) covers_tail

def ownFeed (t self : String) : String :=
  dotted ["tenant", t, "agent", self, "feed", ">"]

theorem covers_ownFeed (ht : Plain t) (hself : Plain self) :
    Covers (ownFeed t self) s ↔
      ∃ rest, splitDot s = "tenant" :: t :: "agent" :: self :: "feed" :: rest ∧ rest ≠ [] := by
  have hfree : ∀ u ∈ ["tenant", t, "agent", self, "feed", ">"], DotFree u := by
    simp [ht.dotFree, hself.dotFree]
    decide
  rw [ownFeed, covers_dotted (by simp) hfree]
  simp [ht.literal, hself.literal, token_of_ne]

/-- The subjects that a grant can read: its own feed, others of its tenant, and its inbox. -/
inductive Reading (t self conn s : String) : Prop where
  | feed : Covers (ownFeed t self) s → Reading t self conn s
  | tenant {third : String} {rest : List String} :
      splitDot s = "tenant" :: t :: third :: rest → third ≠ "agent" → Reading t self conn s
  | inbox : InInbox conn s → Reading t self conn s

theorem reading_tenant (ht : Plain t) {third : String} {suf : List String} (hthird : Plain third)
    (hne : third ≠ "agent") (hsuf : ∀ u ∈ suf, DotFree u)
    (h : Covers (dotted ("tenant" :: t :: third :: suf)) s) : Reading t self conn s := by
  have hpre : ∀ u ∈ ["tenant", t, third], Plain u := by
    simp [ht, hthird]
    decide
  rcases leads_of_covers ["tenant", t, third] suf (by simp) hpre hsuf h with ⟨rest, hs⟩
  exact .tenant hs hne

theorem subscriber_reads (ht : Plain t) (hself : Plain self)
    (h : (subscriberGrant t self conn capability).Reads s) : Reading t self conn s := by
  have hallow := (reads_iff.1 h).1
  simp only [subscriberGrant, List.cons_append, reduceCtorEq, false_or] at hallow
  rcases hallow with ⟨p, hp, hcovers⟩
  simp only [List.mem_cons] at hp
  rcases hp with rfl | rfl | rfl | rfl | rfl | rfl | rfl | hp
  · exact .feed hcovers
  · exact reading_tenant ht (by decide) (by decide) (by simp [hself.dotFree]; decide) hcovers
  · exact reading_tenant ht (by decide) (by decide) (by simp [hself.dotFree]; decide) hcovers
  · exact reading_tenant ht (by decide) (by decide) (by simp [hself.dotFree]) hcovers
  · exact reading_tenant ht (by decide) (by decide) (by decide) hcovers
  · exact reading_tenant ht (by decide) (by decide) (by decide) hcovers
  · exact .inbox (inInbox_of_covers hcovers)
  · split at hp
    · rw [List.mem_singleton.1 hp] at hcovers
      exact reading_tenant ht (by decide) (by decide) (by decide) hcovers
    · cases hp

theorem trustedBackend_reads (ht : Plain t)
    (h : (trustedBackendGrant t self conn).Reads s) : Reading t self conn s := by
  have hallow := (reads_iff.1 h).1
  simp only [trustedBackendGrant, reduceCtorEq, false_or] at hallow
  rcases hallow with ⟨p, hp, hcovers⟩
  simp only [List.mem_cons, List.not_mem_nil, or_false] at hp
  rcases hp with rfl | rfl | rfl | rfl
  · exact reading_tenant ht (by decide) (by decide) (by decide) hcovers
  · exact reading_tenant ht (by decide) (by decide) (by decide) hcovers
  · exact reading_tenant ht (by decide) (by decide) (by decide) hcovers
  · exact .inbox (inInbox_of_covers hcovers)

theorem covers_plain (hne : tokens ≠ []) (h : ∀ u ∈ tokens, Plain u) :
    Covers (dotted tokens) s ↔ splitDot s = tokens := by
  rw [covers_dotted hne fun u hu => (h u hu).dotFree]
  clear hne
  generalize splitDot s = parts
  induction tokens generalizing parts with
  | nil => simp
  | cons u tokens ih =>
    rw [List.map_cons, (h u (by simp)).literal, matches_literal]
    have ih := fun parts => ih (fun v hv => h v (by simp [hv])) parts
    constructor
    · rintro ⟨parts', rfl, hparts⟩
      rw [(ih parts').1 hparts]
    · rintro rfl
      exact ⟨tokens, rfl, (ih tokens).2 rfl⟩

def conversationLog (t cid : String) : String :=
  dotted ["tenant", t, "interaction", cid, "log"]

def conversationEvents (t cid : String) : String :=
  dotted ["tenant", t, "conversation", cid, "events"]

theorem visitor_reads (ht : Plain t) (hcid : Plain cid) (h : (visitorGrant t cid conn).Reads s) :
    s = conversationLog t cid ∨ s = conversationEvents t cid ∨ InInbox conn s := by
  have hallow := (reads_iff.1 h).1
  simp only [visitorGrant, reduceCtorEq, false_or] at hallow
  rcases hallow with ⟨p, hp, hcovers⟩
  simp only [List.mem_cons, List.not_mem_nil, or_false] at hp
  rcases hp with rfl | rfl | rfl
  · have hplain : ∀ u ∈ ["tenant", t, "interaction", cid, "log"], Plain u := by
      simp [ht, hcid]
      decide
    exact .inl (eq_dotted ((covers_plain (by simp) hplain).1 hcovers))
  · have hplain : ∀ u ∈ ["tenant", t, "conversation", cid, "events"], Plain u := by
      simp [ht, hcid]
      decide
    exact .inr (.inl (eq_dotted ((covers_plain (by simp) hplain).1 hcovers)))
  · exact .inr (.inr (inInbox_of_covers hcovers))

end Roles

/-! ## Accepted identities -/

inductive Minted (id : Identity) (conn : String) : Grant → Prop where
  | visitor : id.role = roleVisitor → id.capability = "" → Plain id.conversationId →
      Minted id conn (visitorGrant id.tenantId id.conversationId conn)
  | trustedBackend : id.role = roleTrustedBackend → id.capability = "" →
      Minted id conn (trustedBackendGrant id.tenantId id.userId conn)
  | subscriber : id.role = "" → isSubscriberCapability id.capability = true →
      Minted id conn (subscriberGrant id.tenantId id.userId conn id.capability)

theorem minted_of_grantsFor {id : Identity} (h : grantsFor id conn = .ok g) :
    Plain id.tenantId ∧ Plain id.userId ∧ Minted id conn g := by
  unfold grantsFor at h
  split at h
  · cases h
  · cases h
  · next htenant huser =>
      refine ⟨plain_of_valid htenant, plain_of_valid huser, ?_⟩
      split at h
      · cases h
      · split at h
        · next hrole =>
            split at h
            · cases h
            · next hcap =>
                split at h
                · cases h
                · next hcid =>
                    cases h
                    exact .visitor hrole (not_not.1 hcap) (plain_of_valid hcid)
        · split at h
          · next hrole =>
              split at h
              · cases h
              · next hcap =>
                  cases h
                  exact .trustedBackend hrole (not_not.1 hcap)
          · split at h
            · next hrole =>
                split at h
                · cases h
                · next hcap =>
                    cases h
                    rw [not_or, not_not] at hcap
                    exact .subscriber hrole hcap.1
            · cases h

theorem not_subscriberCapability_empty : isSubscriberCapability "" = false := by
  decide

/-! ## Confinement -/

def logPattern : String :=
  dotted ["tenant", "*", "interaction", "*", "log"]

def feedPattern : String :=
  dotted ["tenant", "*", "agent", "*", "feed", ">"]

theorem covers_logPattern :
    Covers logPattern s ↔ ∃ t iid, splitDot s = ["tenant", t, "interaction", iid, "log"] := by
  rw [logPattern, covers_dotted (by simp) (by decide)]
  simp [token_of_ne]

theorem covers_feedPattern :
    Covers feedPattern s ↔
      ∃ t a rest, splitDot s = "tenant" :: t :: "agent" :: a :: "feed" :: rest ∧ rest ≠ [] := by
  rw [feedPattern, covers_dotted (by simp) (by decide)]
  simp [token_of_ne]

theorem covers_broadInbox (h : Covers (dotted ["_INBOX", ">"]) s) :
    ∃ rest, splitDot s = "_INBOX" :: rest :=
  leads_of_covers ["_INBOX"] [">"] (by simp) (by decide) (by decide) h

def InboxSubject (s : String) : Prop :=
  ∃ c rest, splitDot s = ("_INBOX_" ++ c) :: rest

structure Confined (id : Identity) (g : Grant) : Prop where
  tenant : ∀ s, g.Publishes s ∨ g.Reads s → (splitDot s)[0]? = some "tenant" →
    (splitDot s)[1]? = some id.tenantId
  author : ∀ s tenant iid suffix, g.Publishes s → parseCmdSubject s = some (tenant, iid, suffix) →
    tenant = id.tenantId ∧ suffix = id.userId
  no_log : ∀ s, g.Publishes s → ¬ Covers logPattern s
  subscriber : isSubscriberCapability id.capability = true →
    ∀ s, (g.Reads s → ¬ Covers logPattern s) ∧
      (Covers feedPattern s → (g.Reads s ↔ Covers (ownFeed id.tenantId id.userId) s))
  visitor : id.role = roleVisitor →
    (∀ s, ¬ g.Publishes s) ∧ g.allowResponses = false ∧
      ∀ s, (splitDot s)[0]? = some "tenant" →
        (g.Reads s ↔ s = conversationLog id.tenantId id.conversationId ∨
          s = conversationEvents id.tenantId id.conversationId)

section Confined

variable {id : Identity} {conn s : String} {g : Grant} {t self : String}

theorem Publication.second (h : Publication t self conn s)
    (hs : (splitDot s)[0]? = some "tenant") : (splitDot s)[1]? = some t := by
  cases h with
  | command h | presence h => simp [h]
  | api h => simp [h] at hs
  | inbox h =>
    rcases h with ⟨first, rest, h, _⟩
    rw [h] at hs
    exact absurd (Option.some.inj hs) (inbox_ne (by decide))

theorem Publication.author {tenant iid suffix : String} (h : Publication t self conn s)
    (hparse : parseCmdSubject s = some (tenant, iid, suffix)) : tenant = t ∧ suffix = self := by
  have hs := (Signaling.splitDot_of_parse hparse).1
  cases h with
  | command h =>
    rw [hs] at h
    simp only [List.cons.injEq] at h
    exact ⟨h.2.1, h.2.2.2.2.2.1⟩
  | presence h | api h => simp [hs] at h
  | inbox h => exact absurd hs (h.first_ne (by decide))

theorem Reading.second (ht : Plain t) (hself : Plain self) (h : Reading t self conn s)
    (hs : (splitDot s)[0]? = some "tenant") : (splitDot s)[1]? = some t := by
  cases h with
  | feed h =>
    rcases (covers_ownFeed ht hself).1 h with ⟨rest, h, _⟩
    simp [h]
  | tenant h _ => simp [h]
  | inbox h =>
    rcases h with ⟨first, rest, h, _⟩
    rw [h] at hs
    exact absurd (Option.some.inj hs) (inbox_ne (by decide))

theorem Minted.publication (ht : Plain id.tenantId) (hself : Plain id.userId)
    (h : Minted id conn g) (hpub : g.Publishes s) : Publication id.tenantId id.userId conn s := by
  cases h with
  | visitor => exact absurd hpub visitor_publishes
  | trustedBackend => exact trustedBackend_publishes ht hself hpub
  | subscriber => exact subscriber_publishes ht hself hpub

theorem Minted.reading (ht : Plain id.tenantId) (hself : Plain id.userId)
    (h : Minted id conn g) (hread : g.Reads s) : Reading id.tenantId id.userId conn s := by
  cases h with
  | visitor _ _ hcid =>
    have hsplit : ∀ {tokens : List String}, tokens ≠ [] → (∀ u ∈ tokens, DotFree u) →
        s = dotted tokens → splitDot s = tokens := by
      rintro tokens hne hfree rfl
      exact splitDot_dotted hne hfree
    rcases visitor_reads ht hcid hread with hs | hs | hs
    · exact .tenant (hsplit (by simp) (by simp [ht.dotFree, hcid.dotFree]; decide) hs) (by decide)
    · exact .tenant (hsplit (by simp) (by simp [ht.dotFree, hcid.dotFree]; decide) hs) (by decide)
    · exact .inbox hs
  | trustedBackend => exact trustedBackend_reads ht hread
  | subscriber => exact subscriber_reads ht hself hread

theorem Minted.no_log (h : Minted id conn g) (hpub : g.Publishes s) : ¬ Covers logPattern s := by
  cases h with
  | visitor => exact absurd hpub visitor_publishes
  | trustedBackend => exact (publishes_iff.1 hpub).2 _ (by simp [trustedBackendGrant, logPattern])
  | subscriber => exact (publishes_iff.1 hpub).2 _ (by simp [subscriberGrant, logPattern])

theorem subscriber_reads_feed (ht : Plain t) (hself : Plain self) {capability : String}
    (h : Covers (ownFeed t self) s) : (subscriberGrant t self conn capability).Reads s := by
  rcases (covers_ownFeed ht hself).1 h with ⟨rest, hs, _⟩
  refine reads_iff.2 ⟨.inr ⟨ownFeed t self, by simp [subscriberGrant, ownFeed], h⟩, ?_⟩
  intro p hp
  simp only [subscriberGrant, List.mem_cons, List.not_mem_nil, or_false] at hp
  rcases hp with rfl | rfl
  · intro hdeny
    rcases covers_broadInbox hdeny with ⟨rest', hs'⟩
    simp [hs] at hs'
  · intro hdeny
    rcases covers_logPattern.1 hdeny with ⟨t', iid, hs'⟩
    simp [hs] at hs'

theorem Minted.subscriber_feeds (ht : Plain id.tenantId) (hself : Plain id.userId)
    (h : Minted id conn g) (hcap : isSubscriberCapability id.capability = true) :
    (g.Reads s → ¬ Covers logPattern s) ∧
      (Covers feedPattern s → (g.Reads s ↔ Covers (ownFeed id.tenantId id.userId) s)) := by
  cases h with
  | visitor _ hnone | trustedBackend _ hnone => simp [hnone, not_subscriberCapability_empty] at hcap
  | subscriber =>
    refine ⟨fun hread => (reads_iff.1 hread).2 _ (by simp [subscriberGrant, logPattern]), ?_⟩
    intro hfeed
    refine ⟨?_, subscriber_reads_feed ht hself⟩
    intro hread
    rcases covers_feedPattern.1 hfeed with ⟨t', a, rest, hs, _⟩
    cases subscriber_reads ht hself hread with
    | feed h => exact h
    | tenant h hne =>
      rw [hs] at h
      simp only [List.cons.injEq] at h
      exact absurd h.2.2.1.symm hne
    | inbox h => exact absurd hs (h.first_ne (by decide))

theorem visitor_reads_own {cid : String} (ht : Plain t) (hcid : Plain cid)
    (h : s = conversationLog t cid ∨ s = conversationEvents t cid) :
    (visitorGrant t cid conn).Reads s := by
  have hs : ∃ third, third ≠ "agent" ∧ ∃ last, splitDot s = ["tenant", t, third, cid, last] ∧
      dotted ["tenant", t, third, cid, last] ∈ (visitorGrant t cid conn).subAllow ∧
      Covers (dotted ["tenant", t, third, cid, last]) s := by
    rcases h with rfl | rfl
    · have hplain : ∀ u ∈ ["tenant", t, "interaction", cid, "log"], Plain u := by
        simp [ht, hcid]
        decide
      have hsplit := splitDot_dotted (by simp) fun u hu => (hplain u hu).dotFree
      exact ⟨"interaction", by decide, "log", hsplit, by simp [visitorGrant],
        (covers_plain (by simp) hplain).2 hsplit⟩
    · have hplain : ∀ u ∈ ["tenant", t, "conversation", cid, "events"], Plain u := by
        simp [ht, hcid]
        decide
      have hsplit := splitDot_dotted (by simp) fun u hu => (hplain u hu).dotFree
      exact ⟨"conversation", by decide, "events", hsplit, by simp [visitorGrant],
        (covers_plain (by simp) hplain).2 hsplit⟩
  rcases hs with ⟨third, hne, last, hs, hmem, hcovers⟩
  refine reads_iff.2 ⟨.inr ⟨_, hmem, hcovers⟩, ?_⟩
  intro p hp
  simp only [visitorGrant, List.mem_cons, List.not_mem_nil, or_false] at hp
  rcases hp with rfl | rfl
  · intro hdeny
    rcases covers_broadInbox hdeny with ⟨rest', hs'⟩
    simp [hs] at hs'
  · intro hdeny
    rcases covers_feedPattern.1 hdeny with ⟨t', a, rest, hs', _⟩
    rw [hs] at hs'
    simp only [List.cons.injEq] at hs'
    exact hne hs'.2.2.1

theorem roleVisitor_ne : roleVisitor ≠ roleTrustedBackend ∧ roleVisitor ≠ "" := by
  decide

theorem Minted.visitor_confined (ht : Plain id.tenantId)
    (h : Minted id conn g) (hrole : id.role = roleVisitor) :
    (∀ s, ¬ g.Publishes s) ∧ g.allowResponses = false ∧
      ∀ s, (splitDot s)[0]? = some "tenant" →
        (g.Reads s ↔ s = conversationLog id.tenantId id.conversationId ∨
          s = conversationEvents id.tenantId id.conversationId) := by
  cases h with
  | trustedBackend hother => exact absurd (hrole.symm.trans hother) roleVisitor_ne.1
  | subscriber hother => exact absurd (hrole.symm.trans hother) roleVisitor_ne.2
  | visitor _ _ hcid =>
    refine ⟨fun s => visitor_publishes, rfl, ?_⟩
    intro s hs
    refine ⟨?_, visitor_reads_own ht hcid⟩
    intro hread
    rcases visitor_reads ht hcid hread with hlog | hevents | ⟨first, rest, hinbox, _⟩
    · exact .inl hlog
    · exact .inr hevents
    · rw [hinbox] at hs
      exact absurd (Option.some.inj hs) (inbox_ne (by decide))

theorem Minted.confined (ht : Plain id.tenantId) (hself : Plain id.userId)
    (h : Minted id conn g) : Confined id g where
  tenant := by
    intro s hreach hs
    rcases hreach with hpub | hread
    · exact (h.publication ht hself hpub).second hs
    · exact (h.reading ht hself hread).second ht hself hs
  author := fun s tenant iid suffix hpub hparse => (h.publication ht hself hpub).author hparse
  no_log := fun s hpub => h.no_log hpub
  subscriber := fun hcap s => h.subscriber_feeds ht hself hcap
  visitor := h.visitor_confined ht

theorem Minted.inbox_conn (hconn : DotFree conn) (ht : Plain id.tenantId) (hself : Plain id.userId)
    (h : Minted id conn g) (hinbox : InboxSubject s) (hreach : g.Publishes s ∨ g.Reads s) :
    ∃ rest, splitDot s = ("_INBOX_" ++ conn) :: rest := by
  rcases hinbox with ⟨c, rest, hs⟩
  have hfirst : ∀ {first : String} {rest' : List String}, first.toList.head? ≠ some '_' →
      splitDot s ≠ first :: rest' := by
    intro first rest' hne heq
    rw [hs] at heq
    exact absurd (List.cons.inj heq).1 (inbox_ne hne)
  rcases hreach with hpub | hread
  · cases h.publication ht hself hpub with
    | command h | presence h | api h => exact absurd h (hfirst (by decide))
    | inbox h =>
      rcases h with ⟨first, rest', h, hfirst⟩
      exact ⟨rest', hfirst hconn ▸ h⟩
  · cases h.reading ht hself hread with
    | feed h =>
      rcases (covers_ownFeed ht hself).1 h with ⟨rest', h, _⟩
      exact absurd h (hfirst (by decide))
    | tenant h _ => exact absurd h (hfirst (by decide))
    | inbox h =>
      rcases h with ⟨first, rest', h, hfirst⟩
      exact ⟨rest', hfirst hconn ▸ h⟩

end Confined

/-- A minted grant is confined, and grants of different connections share no inbox. -/
theorem grants_confined {id : Identity} {conn : String} {g : Grant} (hconn : DotFree conn)
    (h : grantsFor id conn = .ok g) :
    Confined id g ∧
      ∀ id' conn' g', DotFree conn' → grantsFor id' conn' = .ok g' → conn ≠ conn' →
        ∀ s, InboxSubject s → g.Publishes s ∨ g.Reads s → ¬ (g'.Publishes s ∨ g'.Reads s) := by
  rcases minted_of_grantsFor h with ⟨ht, hself, hminted⟩
  refine ⟨hminted.confined ht hself, ?_⟩
  intro id' conn' g' hconn' h' hne s hinbox hreach hreach'
  rcases minted_of_grantsFor h' with ⟨ht', hself', hminted'⟩
  rcases hminted.inbox_conn hconn ht hself hinbox hreach with ⟨rest, hs⟩
  rcases hminted'.inbox_conn hconn' ht' hself' hinbox hreach' with ⟨rest', hs'⟩
  rw [hs] at hs'
  have hsame : conn.toList = conn'.toList := by
    simpa using congrArg String.toList (List.cons.inj hs').1
  exact hne (String.toList_inj.1 hsame)

namespace Scenario

def agent : Identity := ⟨⟨"acme", "alice", "", "agent-feed"⟩, ""⟩

def visitor : Identity := ⟨⟨"acme", "v-1", "visitor", ""⟩, "c-7"⟩

end Scenario

open Scenario in
theorem grants_confined_agent :
    ∃ g g', grantsFor agent "c1" = .ok g ∧ grantsFor visitor "c2" = .ok g' ∧ Confined agent g ∧
      ∀ s, InboxSubject s → g.Publishes s ∨ g.Reads s → ¬ (g'.Publishes s ∨ g'.Reads s) := by
  have hagent : grantsFor agent "c1" = .ok (subscriberGrant "acme" "alice" "c1" "agent-feed") := by
    decide +kernel
  have hvisitor : grantsFor visitor "c2" = .ok (visitorGrant "acme" "c-7" "c2") := by
    decide +kernel
  have hconfined := grants_confined (by decide) hagent
  exact ⟨_, _, hagent, hvisitor, hconfined.1,
    hconfined.2 visitor "c2" _ (by decide) hvisitor (by decide)⟩

end RelayPoint.Authcallout
