import RelayPoint.Data.Pattern
import RelayPoint.Signaling.Admission

/-!
# Grants — the permissions that the auth-callout mints for an identity

`grantsFor` turns a verified identity into lists of subject patterns.  The broker takes the patterns
and the subjects apart at their dots; a token `*` stands for one token and a token `>` for one or
more.  The permission to answer a request on its reply subject belongs to a message, not to a subject,
and is only recorded here.
-/

namespace RelayPoint.Authcallout

open Pattern
open Signaling (splitDot DotFree roleTrustedBackend isSubscriberCapability
  capabilityAgentFeedAdminOperationObserver)

/-! ## Identities -/

def roleVisitor : String := "visitor"

/-- The conversation is set for visitors only; the expiry of a credential is left out. -/
structure Identity extends Signaling.Identity where
  conversationId : String
  deriving DecidableEq, Repr

/-! ## Subject tokens -/

inductive TokenError where
  | empty
  | metacharacter (c : Char)
  | control
  deriving DecidableEq, Repr

def checkChar (c : Char) : Option TokenError :=
  if c = '.' ∨ c = '*' ∨ c = '>' then some (.metacharacter c)
  else if c ≤ ' ' ∨ c = '\x7f' then some .control
  else none

def validSubjectToken (s : String) : Option TokenError :=
  if s = "" then some .empty else s.toList.findSome? checkChar

def dotted (tokens : List String) : String :=
  ".".intercalate tokens

/-! ## Grants -/

structure Grant where
  pubAllow : List String
  pubDeny : List String
  subAllow : List String
  subDeny : List String
  allowResponses : Bool
  deriving DecidableEq, Repr

inductive GrantError where
  | invalidTenant (e : TokenError)
  | invalidUser (e : TokenError)
  | emptyConnection
  | visitorCapability
  | invalidConversation (e : TokenError)
  | trustedBackendCapability
  | capability (capability : String)
  | role (role : String)
  deriving DecidableEq, Repr

def logStreamName : String := "INTERACTION_LOGS"

def inbox (conn : String) : String :=
  dotted ["_INBOX_" ++ conn, ">"]

def visitorGrant (t cid conn : String) : Grant where
  pubAllow := []
  pubDeny := [">"]
  subAllow := [
    dotted ["tenant", t, "interaction", cid, "log"],
    dotted ["tenant", t, "conversation", cid, "events"],
    inbox conn]
  subDeny := [
    dotted ["_INBOX", ">"],
    dotted ["tenant", "*", "agent", "*", "feed", ">"]]
  allowResponses := false

def trustedBackendGrant (t self conn : String) : Grant where
  pubAllow := [
    dotted ["tenant", t, "interaction", "*", "cmd", self],
    inbox conn,
    dotted ["$JS", "API", "STREAM", "INFO", logStreamName],
    dotted ["$JS", "API", "CONSUMER", "CREATE", logStreamName, ">"],
    dotted ["$JS", "API", "CONSUMER", "DURABLE", "CREATE", logStreamName, ">"],
    dotted ["$JS", "API", "CONSUMER", "INFO", logStreamName, ">"],
    dotted ["$JS", "API", "CONSUMER", "MSG", "NEXT", logStreamName, ">"],
    dotted ["$JS", "API", "CONSUMER", "DELETE", logStreamName, ">"]]
  pubDeny := [dotted ["tenant", "*", "interaction", "*", "log"]]
  subAllow := [
    dotted ["tenant", t, "interaction", "*", "log"],
    dotted ["tenant", t, "notify", ">"],
    dotted ["tenant", t, "routing", ">"],
    inbox conn]
  subDeny := [dotted ["_INBOX", ">"]]
  allowResponses := true

def subscriberGrant (t self conn capability : String) : Grant where
  pubAllow := [
    dotted ["tenant", t, "interaction", "*", "cmd", self],
    dotted ["tenant", t, "presence", self, "state"],
    dotted ["tenant", t, "presence", self, "typing", ">"],
    inbox conn]
  pubDeny := [
    dotted ["tenant", "*", "interaction", "*", "log"],
    dotted ["tenant", "*", "agent", "*", "feed", ">"]]
  subAllow := [
    dotted ["tenant", t, "agent", self, "feed", ">"],
    dotted ["tenant", t, "routing", "offer", "user", self],
    dotted ["tenant", t, "routing", "offer", "user", self, "control"],
    dotted ["tenant", t, "notify", self],
    dotted ["tenant", t, "presence", "*", "state"],
    dotted ["tenant", t, "presence", "*", "typing", ">"],
    inbox conn] ++
    if capability = capabilityAgentFeedAdminOperationObserver then
      [dotted ["tenant", t, "admin", "operation", "*", "changed"]]
    else []
  subDeny := [
    dotted ["_INBOX", ">"],
    dotted ["tenant", "*", "interaction", "*", "log"]]
  allowResponses := true

def grantsFor (id : Identity) (conn : String) : Except GrantError Grant :=
  match validSubjectToken id.tenantId, validSubjectToken id.userId with
  | some e, _ => .error (.invalidTenant e)
  | none, some e => .error (.invalidUser e)
  | none, none =>
    if conn = "" then .error .emptyConnection
    else if id.role = roleVisitor then
      if id.capability ≠ "" then .error .visitorCapability
      else
        match validSubjectToken id.conversationId with
        | some e => .error (.invalidConversation e)
        | none => .ok (visitorGrant id.tenantId id.conversationId conn)
    else if id.role = roleTrustedBackend then
      if id.capability ≠ "" then .error .trustedBackendCapability
      else .ok (trustedBackendGrant id.tenantId id.userId conn)
    else if id.role = "" then
      if ¬ isSubscriberCapability id.capability ∨ id.conversationId ≠ "" then
        .error (.capability id.capability)
      else .ok (subscriberGrant id.tenantId id.userId conn id.capability)
    else .error (.role id.role)

/-! ## What a grant comes to -/

def token (t : String) : Token String :=
  if t = "*" then .any else if t = ">" then .rest else .literal t

def parsePattern (pattern : String) : List (Token String) :=
  (splitDot pattern).map token

/-- Does the subject match the pattern?  Not to be decided by unfolding a pattern with variables. -/
@[irreducible] def Covers (pattern subject : String) : Prop :=
  Matches (parsePattern pattern) (splitDot subject)

theorem covers_iff {pattern subject : String} :
    Covers pattern subject ↔ Matches (parsePattern pattern) (splitDot subject) := by
  unfold Covers
  exact Iff.rfl

instance (pattern subject : String) : Decidable (Covers pattern subject) :=
  decidable_of_iff _ covers_iff.symm

def permission (allow deny : List String) : Permission String :=
  ⟨allow.map parsePattern, deny.map parsePattern⟩

def Grant.Publishes (g : Grant) (subject : String) : Prop :=
  (permission g.pubAllow g.pubDeny).grants (splitDot subject)
  deriving Decidable

def Grant.Reads (g : Grant) (subject : String) : Prop :=
  (permission g.subAllow g.subDeny).grants (splitDot subject)
  deriving Decidable

end RelayPoint.Authcallout
