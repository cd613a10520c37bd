import Harmony.Membership.Verify

/-! Symbolic cryptography, at which the model is evaluated on concrete logs: a
signature is named by the key that made it and verifies under that key only, a
certificate is genuine, and a config generation is named by the wall it was set at. -/

namespace Harmony.Membership

def symbolicCrypto : Crypto where
  encodePayload _ := .ok []
  canonicalInviteTokenBytes _ := some []
  verifyStrict key _ sig := key = sig
  enrollmentVerifies _ _ _ := true
  verifyRevocationAnyIssuer _ _ _ _ := true
  recoveryConfigDigest config := some config.setAt.wallMs
  dfrostResetDigest _ id _ _ _ _ := some id
  dfrostResetMessageHash _ digest _ := digest
  verifySchnorrSignature vk _ sig := vk = sig
  reachabilityInnerSignature _ _ _ _ := some true
  communityRelayInnerSignature _ _ _ _ := some true

def certFor (owner : OwnerAddr) (key : PubKey) : EnrollmentCert := ⟨owner, key, key, 0, []⟩

/-- An event of community 7 signed with `key`; kinds that introduce a device
carry its cert. -/
def signedWith (key : PubKey) (id : EventId) (wallMs : ℕ) (actor : OwnerAddr)
    (kind : MembershipEventKind) : SignedMembershipEvent where
  id := id
  communityId := 7
  kind := kind
  actor := actor
  hlc := ⟨wallMs, 0, ""⟩
  sig := key
  countersig := none
  enrollment :=
    match kind with
    | .join => some (certFor actor key)
    | .pendingJoin _ => some (certFor actor key)
    | .deviceAnnounce => some (certFor actor key)
    | _ => none
  signerCerts := []

def signed (id : EventId) (wallMs : ℕ) (actor : OwnerAddr) (kind : MembershipEventKind) :
    SignedMembershipEvent := signedWith (100 * actor) id wallMs actor kind

def tokenOf (inviter : OwnerAddr) : InviteToken := ⟨inviter, none, ⟨0, 0, ""⟩, none, 100 * inviter⟩

def openContext : VerifyContext := ⟨7, 1, false, none⟩

end Harmony.Membership
