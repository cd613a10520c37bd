import Harmony.Lib.TreeMap

/-! The data model of the community membership log: event kinds, signed events
and the materialized view. Fixed-width byte strings (addresses, ids, keys,
digests, signatures) are numbers, since only equality and their big-endian order
are ever used. -/

namespace Harmony.Membership

open Harmony.Lib

abbrev OwnerAddr := ℕ
abbrev SpaceId := ℕ
abbrev EventId := ℕ
abbrev ChannelId := ℕ
abbrev PubKey := ℕ
abbrev Digest := ℕ
abbrev Sig := ℕ
abbrev Bytes := List ℕ

/-- `u64::checked_add`. -/
def checkedAdd (a b : ℕ) : Option ℕ := if a + b < 2 ^ 64 then some (a + b) else none

/-- `u64::saturating_add`. -/
def saturatingAdd (a b : ℕ) : ℕ := min (a + b) (2 ^ 64 - 1)

structure Hlc where
  wallMs : ℕ
  logical : ℕ
  deviceId : String
deriving DecidableEq

structure RecipientCiphertext where
  recipient : OwnerAddr
  sealedKey : Bytes
deriving DecidableEq

structure PowerThresholds where
  invite : ℕ
  kick : ℕ
  setPower : ℕ
  max : ℕ
deriving DecidableEq

def powerThresholds : PowerThresholds := ⟨0, 50, 100, 100⟩

inductive ProposalKind where
  | setPower (target : OwnerAddr) (level : ℕ)
  | kick (target : OwnerAddr) (reason : Option String)
  | changeQuorum (newQuorum : ℕ)
  | setRecoveryDesignates (designates : List OwnerAddr) (threshold vetoWindowMs : ℕ)
  | changeThresholds (newThresholds : PowerThresholds)
deriving DecidableEq

inductive ChannelKind where
  | text
  | voice
  | townhall
deriving DecidableEq

inductive ResetVerdict where
  | endorse
  | veto
  | consumed
deriving DecidableEq

structure InviteToken where
  inviter : OwnerAddr
  inviteeHint : Option OwnerAddr
  mintedAt : Hlc
  expiresAt : Option ℕ
  sig : Sig
deriving DecidableEq

/-- The fields of a device enrollment cert that membership reads; `rest` stands
for its issuer, expiry and signatures, which only cert verification looks at. -/
structure EnrollmentCert where
  ownerId : OwnerAddr
  deviceId : ℕ
  deviceKey : PubKey
  issuedAt : ℕ
  rest : Bytes
deriving DecidableEq

inductive RevocationReason where
  | decommissioned
  | lost
  | compromised
  | other (text : String)
deriving DecidableEq

structure RevocationCert where
  ownerId : OwnerAddr
  target : ℕ
  issuedAt : ℕ
  reason : RevocationReason
  rest : Bytes
deriving DecidableEq

structure ReachabilityAnnouncePayload where
  announcedAtMs : ℕ
  rest : Bytes
deriving DecidableEq

structure CommunityRelayAnnouncePayload where
  adAt : ℕ
  rest : Bytes
deriving DecidableEq

inductive MembershipEventKind where
  | join
  | leave
  | invite (target : OwnerAddr)
  | kick (target : OwnerAddr) (reason : Option String)
  | setPower (target : OwnerAddr) (level : ℕ)
  | unban (target : OwnerAddr) (reason : Option String)
  | channelCreate (channelId : ChannelId) (name : String) (writePower : ℕ) (kind : ChannelKind)
  | channelModify (channelId : ChannelId) (name : Option String) (writePower : Option ℕ)
  | channelDelete (channelId : ChannelId)
  | epochRotation (priorEpoch : ℕ) (triggeredBy : EventId)
      (recipientCiphertexts : List RecipientCiphertext)
  | epochCatchup (epoch : ℕ) (triggeredBy : EventId)
      (recipientCiphertexts : List RecipientCiphertext)
  | fork (forkSpaceId : SpaceId) (reason : Option String)
  | pendingJoin (inviteToken : InviteToken)
  | joinCountersign (targetEventId : EventId)
  | adminProposal (proposalKind : ProposalKind)
  | adminCountersign (targetEventId : EventId)
  | reachabilityAnnounce (payload : ReachabilityAnnouncePayload)
  | communityRelayAnnounce (payload : CommunityRelayAnnouncePayload)
  | deviceAnnounce
  | deviceRetire (revocation : RevocationCert) (enrollment : EnrollmentCert)
  | recoveryProposal (lostAdmin newAdmin : OwnerAddr) (configDigest : Digest)
  | recoveryCosign (targetEventId : EventId)
  | recoveryVeto (targetEventId : EventId)
  | dfrostResetProposal (targetVk : PubKey) (targetEpoch : ℕ) (newMembers : List OwnerAddr)
      (newThreshold vetoWindowMs : ℕ)
  | dfrostResetCosign (targetEventId : EventId)
  | dfrostResetResponse (targetEventId : EventId) (verdict : ResetVerdict) (groupSig : Sig)
      (newVk : Option PubKey)
deriving DecidableEq

structure CounterSignature where
  signer : OwnerAddr
  sig : Sig
deriving DecidableEq

/-- `hlc` is the source's field `at`. -/
structure SignedMembershipEvent where
  id : EventId
  communityId : SpaceId
  kind : MembershipEventKind
  actor : OwnerAddr
  hlc : Hlc
  sig : Sig
  countersig : Option CounterSignature
  enrollment : Option EnrollmentCert
  signerCerts : List EnrollmentCert
deriving DecidableEq

/-- The part of an event its signature covers. -/
structure EventPayload where
  id : EventId
  communityId : SpaceId
  kind : MembershipEventKind
  actor : OwnerAddr
  hlc : Hlc
deriving DecidableEq

def SignedMembershipEvent.payload (e : SignedMembershipEvent) : EventPayload :=
  ⟨e.id, e.communityId, e.kind, e.actor, e.hlc⟩

inductive MemberStatus where
  | joined
  | invited
  | left
  | banned
  | pendingJoin
deriving DecidableEq

structure MemberState where
  status : MemberStatus
  joinedAt : Hlc
  leftAt : Option Hlc
  enrolledDeviceKeys : Finset PubKey
  revokedDeviceKeys : Finset PubKey
deriving DecidableEq

structure ChannelInfo where
  name : String
  writePower : ℕ
  kind : ChannelKind
  createdAt : Hlc
  deletedAt : Option Hlc
deriving DecidableEq

structure RecoveryDesignates where
  designates : List OwnerAddr
  threshold : ℕ
  vetoWindowMs : ℕ
  setAt : Hlc
deriving DecidableEq

inductive RecoveryPhase where
  | collecting
  | timeLocked
  | executed
  | vetoed
  | expired
  | configChanged
  | superseded
  | stalled
deriving DecidableEq

structure RecoveryProposalView where
  id : EventId
  proposer : OwnerAddr
  lostAdmin : OwnerAddr
  newAdmin : OwnerAddr
  signers : Finset OwnerAddr
  threshold : ℕ
  proposedAtWallMs : ℕ
  deadlineMs : Option ℕ
  phase : RecoveryPhase
  vetoedBy : Option OwnerAddr
deriving DecidableEq

inductive ResetPhase where
  | collecting
  | window
  | authorized
  | consumed
  | vetoed
  | expired
  | lapsed
deriving DecidableEq

structure ResetProposalView where
  id : EventId
  proposer : OwnerAddr
  targetVk : PubKey
  targetEpoch : ℕ
  newMembers : List OwnerAddr
  newThreshold : ℕ
  vetoWindowMs : ℕ
  signers : Finset OwnerAddr
  proposedAtWallMs : ℕ
  deadlineMs : Option ℕ
  authorizedAtMs : Option ℕ
  endorsed : Bool
  phase : ResetPhase
  consumedNewVk : Option PubKey
  consumptionSuperseded : Bool
  effectiveQuorum : Option ℕ
deriving DecidableEq

structure MaterializedMembership where
  members : BTreeMap OwnerAddr MemberState
  powerLevels : BTreeMap OwnerAddr ℕ
  channels : BTreeMap ChannelId ChannelInfo
  currentEpoch : Option ℕ
  pendingRotationFor : Finset OwnerAddr
  pendingCatchupFor : Finset OwnerAddr
  adminQuorum : ℕ
  powerThresholds : PowerThresholds
  recoveryDesignates : Option RecoveryDesignates
  recoveryProposals : List RecoveryProposalView
  resetProposals : List ResetProposalView

def MaterializedMembership.default : MaterializedMembership where
  members := ∅
  powerLevels := ∅
  channels := ∅
  currentEpoch := none
  pendingRotationFor := ∅
  pendingCatchupFor := ∅
  adminQuorum := 1
  powerThresholds := Membership.powerThresholds
  recoveryDesignates := none
  recoveryProposals := []
  resetProposals := []

namespace MaterializedMembership

def status (m : MaterializedMembership) (x : OwnerAddr) : Option MemberStatus :=
  m.members[x]?.map (·.status)

def power (m : MaterializedMembership) (x : OwnerAddr) : ℕ := m.powerLevels[x]?.getD 0

end MaterializedMembership

def isJoinedMember (m : MaterializedMembership) (x : OwnerAddr) : Bool :=
  m.status x = some .joined

/-- The canonical total order of the log: `(wall_ms, logical, device_id, id, sig)`. -/
def eventSortKey (e : SignedMembershipEvent) : ℕ ×ₗ ℕ ×ₗ String ×ₗ ℕ ×ₗ ℕ :=
  toLex (e.hlc.wallMs, toLex (e.hlc.logical, toLex (e.hlc.deviceId, toLex (e.id, e.sig))))

/-- What signature, certificate and digest checks the log relies on. The code
behind them is outside the repository; every result quantifies over all of it. -/
structure Crypto where
  /-- `canonical_cbor_encode(&EventPayload::from(event))`, or the text of its error. -/
  encodePayload : EventPayload → Except String Bytes
  canonicalInviteTokenBytes : InviteToken → Option Bytes
  /-- `VerifyingKey::from_bytes(key)` succeeds and `verify_strict` accepts. -/
  verifyStrict : PubKey → Bytes → Sig → Bool
  /-- Issuer, signatures and expiry of a cert whose owner has been checked. -/
  enrollmentVerifies : EnrollmentCert → List EnrollmentCert → ℕ → Bool
  verifyRevocationAnyIssuer :
    RevocationCert → EnrollmentCert → List EnrollmentCert → ℕ → Bool
  recoveryConfigDigest : RecoveryDesignates → Option Digest
  dfrostResetDigest : SpaceId → EventId → PubKey → ℕ → List OwnerAddr → ℕ → Option Digest
  dfrostResetMessageHash : String → Digest → Option PubKey → Digest
  verifySchnorrSignature : PubKey → Digest → Sig → Bool
  /-- `none` is an encoding failure of the inner signed bytes. -/
  reachabilityInnerSignature :
    ReachabilityAnnouncePayload → OwnerAddr → Hlc → PubKey → Option Bool
  communityRelayInnerSignature :
    CommunityRelayAnnouncePayload → OwnerAddr → Hlc → PubKey → Option Bool

def maxModerationReasonChars : ℕ := 280
def maxEnrolledDeviceKeys : ℕ := 32
def materializePendingExpiryMs : ℕ := 30 * 86400000
def adminProposalExpiryMs : ℕ := 30 * 86400000
def maxForwardSkewMs : ℕ := 5 * 60 * 1000
def recoveryVetoWindowFloorMs : ℕ := 7 * 86400000
def recoveryVetoWindowCeilingMs : ℕ := 365 * 86400000
def recoveryRotationFinalityMs : ℕ := 48 * 3600000
def resetVetoWindowFloorMs : ℕ := 24 * 3600000
def resetVetoWindowCeilingMs : ℕ := 30 * 86400000
def resetFinalityMs : ℕ := 48 * 3600000
def resetAuthorizedLapseMs : ℕ := 30 * 86400000
def reachabilityTimestampSkewMaxMs : ℕ := 30 * 60 * 1000

def rejectFuture (stamp now tolerance : ℕ) : Bool := stamp - now > tolerance

end Harmony.Membership
