import RelayPoint.Authcallout.Confinement
import RelayPoint.Signaling.Ingress

/-!
# RoleAgreement — the role is decided twice

The auth-callout takes the role of a connection from its token; the router takes it from a list of
user ids.  A grant pins the last token of a command subject to the user id of the identity, so the two
agree whenever no other identity is minted for a user id on the list.  Nothing keeps a subscriber from
having such an id.
-/

namespace RelayPoint.Authcallout

open Signaling (parseCmdSubject roleTrustedBackend isSubscriberCapability capabilityAgentFeed
  isAuthenticated trustedSet identityFromSubject identityFromSubject_of_parse Gated
  gated_of_untrusted)

theorem roleTrustedBackend_ne : roleTrustedBackend ≠ "" := by
  decide

namespace Scenario

def namesake : Identity := ⟨⟨"acme", "desk-svc", "", "agent-feed"⟩, ""⟩

end Scenario

end RelayPoint.Authcallout
