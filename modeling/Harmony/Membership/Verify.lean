import Harmony.Lib.Checks
import Harmony.Membership.Materialize

/-! `verify_event`: the admission gate of the membership log. An event is judged
against the state that `priorStateAtEvent` derives from the events sorting before
it; the checks stand in the source's order, so the first one that fails names the
error. -/

namespace Harmony.Membership

open Harmony.Lib

structure VerifyContext where
  expectedCommunityId : SpaceId
  adminAddr : OwnerAddr
  isInviteOnly : Bool
  nowMs : Option ℕ
deriving DecidableEq

inductive VerifyError where
  | wrongCommunity
  | futureSkew
  | signatureInvalid
  | counterSigRequired
  | unexpectedCounterSig
  | counterSigPowerInsufficient
  | actorPowerInsufficient
  | kickTargetPowerNotLower
  | kickTargetNotMember
  | inviteTargetBanned
  | unbanTargetNotBanned
  | unbanTargetNotMember
  | reasonTooLong
  | reasonEmpty
  | powerLevelOutOfRange
  | bannedActorJoin
  | bannedActorLeave
  | actorNotJoined
  | counterSignerNotJoined
  | channelAdminInsufficientPower
  | channelModifyNoOp
  | channelNameInvalid
  | encodeError (text : String)
  | epochEventUnauthorized
  | pendingJoinTokenInvalid
  | pendingJoinTokenExpired
  | pendingJoinAlreadyMember
  | joinCountersignActorNotJoined
  | joinCountersignActorPowerInsufficient
  | adminProposalActorNotJoined
  | adminProposalActorNotAdmin
  | adminProposalKindInvalid
  | adminProposalNotAdminAffecting
  | adminProposalQuorumOutOfRange
  | adminCountersignActorNotJoined
  | adminCountersignActorNotAdmin
  | adminCountersignTargetIdMalformed
  | setPowerRequiresQuorum
  | setPowerAdminAffectingRequiresAdmin
  | kickRequiresQuorum
  | adminProposalThresholdsInvalid
  | recoveryDesignatesMalformed
  | recoveryDesignateNotJoined
  | recoveryThresholdOutOfRange
  | recoveryVetoWindowTooShort
  | recoveryVetoWindowTooLong
  | recoveryNotConfigured
  | recoveryProposalActorNotDesignate
  | recoveryProposalNewAdminInvalid
  | recoveryProposalLostAdminNotAdmin
  | recoveryProposalConfigDigestMismatch
  | recoveryProposalActorHasOpenProposal
  | recoveryCosignActorNotDesignate
  | recoveryCosignTargetIdMalformed
  | recoveryVetoActorNotAdmin
  | recoveryVetoTargetIdMalformed
  | dfrostResetProposalActorNotAdmin
  | dfrostResetProposalBadMembers
  | dfrostResetProposalBadThreshold
  | dfrostResetProposalBadWindow
  | dfrostResetProposalActorHasOpenProposal
  | dfrostResetCosignActorNotAdmin
  | dfrostResetCosignTargetIdMalformed
  | dfrostResetResponseActorNotEligible
  | dfrostResetResponseSigInvalid
  | dfrostResetResponseShapeInvalid
  | reachabilityInnerSigInvalid
  | reachabilityTimestampSkew
  | reachabilityActorNotMember
  | missingEnrollmentCert
  | enrollmentCertInvalid
  | enrollmentOwnerMismatch
  | signerNotEnrolledForActor
  | counterSignerNotEnrolled
  | deviceAnnounceForNonMember
  | enrolledDeviceKeyLimit
  | deviceAnnounceForRetiredKey
  | deviceRetireForNonMember
  | deviceRetireCertInvalid
  | communityRelayInnerSigInvalid
  | communityRelayTimestampSkew
  | communityRelayActorNotMember
deriving DecidableEq

/-! ### Signers -/

/-- The least of `keys` (a sorted set in the source) under which `sig` verifies. -/
def firstVerifyingKey (C : Crypto) (keys : Finset PubKey) (bytes : Bytes) (sig : Sig) :
    Option PubKey :=
  let verifying := keys.filter fun key => C.verifyStrict key bytes sig
  if h : verifying.Nonempty then some (verifying.min' h) else none

def encodedPayload (C : Crypto) (e : SignedMembershipEvent) : Except VerifyError Bytes :=
  match C.encodePayload e.payload with
  | .ok bytes => .ok bytes
  | .error text => .error (.encodeError text)

/-- Cert expiry is in seconds, event walls are in milliseconds. -/
def enrolledKeyFromCert (C : Crypto) (e : SignedMembershipEvent) : Except VerifyError PubKey :=
  match e.enrollment with
  | none => .error .missingEnrollmentCert
  | some cert => do
    ensure (cert.ownerId = e.actor) .enrollmentOwnerMismatch
    ensure (C.enrollmentVerifies cert e.signerCerts (e.hlc.wallMs / 1000)) .enrollmentCertInvalid
    return cert.deviceKey

def resolveEnrolledSigner (C : Crypto) (prior : MaterializedMembership)
    (e : SignedMembershipEvent) : Except VerifyError PubKey :=
  match prior.members[e.actor]? with
  | none => .error .signerNotEnrolledForActor
  | some member => do
    let bytes ← encodedPayload C e
    match firstVerifyingKey C member.enrolledDeviceKeys bytes e.sig with
    | some key => return key
    | none => .error .signerNotEnrolledForActor

/-- Kinds that introduce a device carry its cert; every other kind is signed by
a device the actor has already enrolled. -/
def resolveSigner (C : Crypto) (prior : MaterializedMembership) (e : SignedMembershipEvent) :
    Except VerifyError PubKey :=
  match e.kind with
  | .join => enrolledKeyFromCert C e
  | .pendingJoin _ => enrolledKeyFromCert C e
  | .deviceAnnounce => enrolledKeyFromCert C e
  | _ => resolveEnrolledSigner C prior e

def verifyMembershipSigner (C : Crypto) (e : SignedMembershipEvent) (key : PubKey) :
    Except VerifyError Unit := do
  let bytes ← encodedPayload C e
  ensure (C.verifyStrict key bytes e.sig) .signatureInvalid

def verifyCountersig (C : Crypto) (prior : MaterializedMembership) (e : SignedMembershipEvent)
    (cs : CounterSignature) : Except VerifyError Unit :=
  match prior.members[cs.signer]? with
  | none => .error .counterSignerNotEnrolled
  | some member => do
    let bytes ← encodedPayload C e
    ensure (firstVerifyingKey C member.enrolledDeviceKeys bytes cs.sig).isSome
      .counterSignerNotEnrolled

def verifyInviteTokenSigWithEnrolled (C : Crypto) (prior : MaterializedMembership)
    (token : InviteToken) : Except VerifyError Unit :=
  match prior.members[token.inviter]?, C.canonicalInviteTokenBytes token with
  | some member, some bytes =>
    ensure (firstVerifyingKey C member.enrolledDeviceKeys bytes token.sig).isSome
      .pendingJoinTokenInvalid
  | _, _ => .error .pendingJoinTokenInvalid

def verifyDeviceRetireCerts (C : Crypto) (actor : OwnerAddr) (revocation : RevocationCert)
    (enrollment : EnrollmentCert) (signerCerts : List EnrollmentCert) :
    Except VerifyError Unit := do
  ensure (enrollment.ownerId = actor && revocation.ownerId = actor &&
    revocation.target = enrollment.deviceId) .deviceRetireCertInvalid
  -- at its own issue time: an expired cert can still be retired
  ensure (C.enrollmentVerifies enrollment signerCerts enrollment.issuedAt)
    .deviceRetireCertInvalid
  match revocation.reason with
  | .other text => ensure (text.length ≤ maxModerationReasonChars) .deviceRetireCertInvalid
  | _ => pure ()
  ensure (C.verifyRevocationAnyIssuer revocation enrollment signerCerts revocation.issuedAt)
    .deviceRetireCertInvalid

/-! ### Texts -/

/-- `char::is_whitespace`: the Unicode White_Space property. -/
def isWhitespace (c : Char) : Bool :=
  (9 ≤ c.toNat && c.toNat ≤ 13) || c.toNat = 0x20 || c.toNat = 0x85 || c.toNat = 0xA0 ||
    c.toNat = 0x1680 || (0x2000 ≤ c.toNat && c.toNat ≤ 0x200A) || c.toNat = 0x2028 ||
    c.toNat = 0x2029 || c.toNat = 0x202F || c.toNat = 0x205F || c.toNat = 0x3000

/-- `s.trim().is_empty()`. -/
def isBlank (s : String) : Bool := s.toList.all isWhitespace

def reasonFits (reason : Option String) : Bool :=
  reason.all fun r => decide (r.length ≤ maxModerationReasonChars)

def channelNameOk (name : String) : Bool := !isBlank name && decide (name.length ≤ 32)

/-! ### Guards shared by several kinds -/

def countersigAllowed (ctx : VerifyContext) (e : SignedMembershipEvent) : Bool :=
  e.kind = .join && ctx.isInviteOnly && e.actor ≠ ctx.adminAddr

/-- Joined, or the bootstrap admin that never had a record. -/
def joinedOrBootstrap (ctx : VerifyContext) (prior : MaterializedMembership) (x : OwnerAddr) :
    Bool :=
  isJoinedMember prior x || (x = ctx.adminAddr && (prior.status x).isNone)

def actorPowerMeetsInviteTier (prior : MaterializedMembership) (actor : OwnerAddr) : Bool :=
  prior.powerThresholds.invite ≤ prior.power actor

def isAdminAffectingSetPower (prior : MaterializedMembership) (target : OwnerAddr)
    (level : ℕ) : Bool :=
  level = powerThresholds.max || prior.power target = powerThresholds.max

def verifyNotBanned (prior : MaterializedMembership) (e : SignedMembershipEvent) :
    Except VerifyError Unit :=
  match e.kind with
  | .join => ensure (prior.status e.actor ≠ some .banned) .bannedActorJoin
  | .leave => ensure (prior.status e.actor ≠ some .banned) .bannedActorLeave
  | _ => pure ()

def verifyInviteOnlyJoin (C : Crypto) (ctx : VerifyContext) (prior : MaterializedMembership)
    (e : SignedMembershipEvent) : Except VerifyError Unit :=
  if countersigAllowed ctx e then
    match e.countersig with
    | none => .error .counterSigRequired
    | some cs => do
      verifyCountersig C prior e cs
      ensure (isJoinedMember prior cs.signer) .counterSignerNotJoined
      ensure (prior.powerThresholds.invite ≤ prior.power cs.signer) .counterSigPowerInsufficient
  else pure ()

/-! ### Proposals -/

/-- Gates P2 to P6 of a PendingJoin; P1 is the cert check of `resolveSigner`. -/
def verifyPendingJoin (C : Crypto) (prior : MaterializedMembership) (e : SignedMembershipEvent)
    (token : InviteToken) : Except VerifyError Unit := do
  ensure (isJoinedMember prior token.inviter && actorPowerMeetsInviteTier prior token.inviter)
    .pendingJoinTokenInvalid
  ensure (token.inviteeHint.all fun hint => hint = e.actor) .pendingJoinTokenInvalid
  ensure (token.expiresAt.all fun exp => decide (e.hlc.wallMs < exp)) .pendingJoinTokenExpired
  verifyInviteTokenSigWithEnrolled C prior token
  ensure (prior.status e.actor = none || prior.status e.actor = some .left)
    .pendingJoinAlreadyMember

/-- Joined owners whose power entry is exactly 100. -/
def liveAdminCount (prior : MaterializedMembership) : ℕ :=
  (prior.powerLevels.toList.filter fun p => decide (p.2 = 100) && isJoinedMember prior p.1).length

def verifyProposalKind (prior : MaterializedMembership) (proposalKind : ProposalKind) :
    Except VerifyError Unit :=
  match proposalKind with
  | .setPower target level => do
    ensure (prior.status target).isSome .adminProposalKindInvalid
    ensure (level ≤ prior.powerThresholds.max) .adminProposalKindInvalid
    ensure (level = 100 || prior.power target = 100) .adminProposalNotAdminAffecting
  | .kick target reason => do
    ensure (isJoinedMember prior target) .adminProposalKindInvalid
    ensure (reason.all fun r => r.length ≠ 0 && decide (r.length ≤ maxModerationReasonChars))
      .adminProposalKindInvalid
    ensure (prior.power target = 100) .adminProposalNotAdminAffecting
  | .setRecoveryDesignates designates threshold vetoWindowMs => do
    ensure (designates ≠ [] && decide designates.Nodup) .recoveryDesignatesMalformed
    ensure (designates.all (isJoinedMember prior)) .recoveryDesignateNotJoined
    ensure (1 ≤ threshold && threshold ≤ designates.length) .recoveryThresholdOutOfRange
    ensure (recoveryVetoWindowFloorMs ≤ vetoWindowMs) .recoveryVetoWindowTooShort
    ensure (vetoWindowMs ≤ recoveryVetoWindowCeilingMs) .recoveryVetoWindowTooLong
  | .changeQuorum newQuorum => do
    ensure (1 ≤ newQuorum) .adminProposalKindInvalid
    ensure (newQuorum ≤ liveAdminCount prior) .adminProposalQuorumOutOfRange
  | .changeThresholds t =>
    ensure (t.invite ≤ t.kick && t.kick ≤ t.setPower && t.setPower ≤ t.max &&
      t.max = powerThresholds.max) .adminProposalThresholdsInvalid

def verifyAdminProposal (prior : MaterializedMembership) (e : SignedMembershipEvent)
    (proposalKind : ProposalKind) : Except VerifyError Unit := do
  ensure (isJoinedMember prior e.actor) .adminProposalActorNotJoined
  ensure (100 ≤ prior.power e.actor) .adminProposalActorNotAdmin
  verifyProposalKind prior proposalKind

def verifyRecoveryProposal (C : Crypto) (ctx : VerifyContext) (prior : MaterializedMembership)
    (e : SignedMembershipEvent) (lostAdmin newAdmin : OwnerAddr) (configDigest : Digest) :
    Except VerifyError Unit :=
  match prior.recoveryDesignates with
  | none => .error .recoveryNotConfigured
  | some config => do
    ensure (e.actor ∈ config.designates && isJoinedMember prior e.actor)
      .recoveryProposalActorNotDesignate
    ensure (prior.power lostAdmin = 100 && joinedOrBootstrap ctx prior lostAdmin)
      .recoveryProposalLostAdminNotAdmin
    ensure (newAdmin ≠ lostAdmin && prior.power newAdmin ≠ 100 && isJoinedMember prior newAdmin)
      .recoveryProposalNewAdminInvalid
    ensure (C.recoveryConfigDigest config = some configDigest)
      .recoveryProposalConfigDigestMismatch
    ensure (!prior.recoveryProposals.any fun p => p.proposer = e.actor &&
      (p.phase = .collecting || p.phase = .timeLocked)) .recoveryProposalActorHasOpenProposal

def verifyRecoveryCosign (prior : MaterializedMembership) (e : SignedMembershipEvent)
    (targetEventId : EventId) : Except VerifyError Unit :=
  match prior.recoveryDesignates with
  | none => .error .recoveryNotConfigured
  | some config => do
    ensure (e.actor ∈ config.designates && isJoinedMember prior e.actor)
      .recoveryCosignActorNotDesignate
    ensure (targetEventId ≠ 0) .recoveryCosignTargetIdMalformed

def verifyDfrostResetProposal (prior : MaterializedMembership) (e : SignedMembershipEvent)
    (newMembers : List OwnerAddr) (newThreshold vetoWindowMs : ℕ) :
    Except VerifyError Unit := do
  ensure (prior.power e.actor = 100 && isJoinedMember prior e.actor)
    .dfrostResetProposalActorNotAdmin
  -- sorted and deduplicated is strictly ascending
  ensure (decide (newMembers.Pairwise (· < ·)) && 2 ≤ newMembers.length &&
    newMembers.all (isJoinedMember prior)) .dfrostResetProposalBadMembers
  ensure (newMembers.length < 2 ^ 16 && 2 ≤ newThreshold && newThreshold ≤ newMembers.length)
    .dfrostResetProposalBadThreshold
  ensure (resetVetoWindowFloorMs ≤ vetoWindowMs && vetoWindowMs ≤ resetVetoWindowCeilingMs)
    .dfrostResetProposalBadWindow
  ensure (!prior.resetProposals.any fun p => p.proposer = e.actor &&
    (p.phase = .collecting || p.phase = .window || p.phase = .authorized))
    .dfrostResetProposalActorHasOpenProposal

def verifyDfrostResetResponse (C : Crypto) (ctx : VerifyContext) (prior : MaterializedMembership)
    (e : SignedMembershipEvent) (targetEventId : EventId) (verdict : ResetVerdict)
    (groupSig : Sig) (newVk : Option PubKey) : Except VerifyError Unit := do
  ensure (newVk.isSome = decide (verdict = .consumed)) .dfrostResetResponseShapeInvalid
  ensure (isJoinedMember prior e.actor) .dfrostResetResponseActorNotEligible
  match prior.resetProposals.find? fun p => p.id = targetEventId with
  | none => pure ()
  | some target => do
    ensure (verdict ≠ .consumed || e.actor ∈ target.newMembers)
      .dfrostResetResponseActorNotEligible
    match C.dfrostResetDigest ctx.expectedCommunityId target.id target.targetVk target.targetEpoch
        target.newMembers target.newThreshold, resetVerdictKey verdict target.targetVk newVk with
    | some digest, some (domain, verifyVk) =>
      ensure (C.verifySchnorrSignature verifyVk (C.dfrostResetMessageHash domain digest newVk)
        groupSig) .dfrostResetResponseSigInvalid
    | _, _ => .error .dfrostResetResponseSigInvalid

def verifyDeviceAnnounce (prior : MaterializedMembership) (e : SignedMembershipEvent) :
    Except VerifyError Unit :=
  match prior.members[e.actor]? with
  | none => .error .deviceAnnounceForNonMember
  | some member => do
    ensure (member.status = .joined) .deviceAnnounceForNonMember
    match e.enrollment with
    | none => pure ()
    | some cert => do
      ensure (cert.deviceKey ∈ member.enrolledDeviceKeys ||
        decide (member.enrolledDeviceKeys.card < maxEnrolledDeviceKeys)) .enrolledDeviceKeyLimit
      ensure (cert.deviceKey ∉ member.revokedDeviceKeys) .deviceAnnounceForRetiredKey

/-! ### The gate -/

/-- The membership match of `verify_event`. -/
def verifyMembershipRules (C : Crypto) (ctx : VerifyContext) (prior : MaterializedMembership)
    (e : SignedMembershipEvent) : Except VerifyError Unit :=
  match e.kind with
  | .join => pure ()
  | .leave => pure ()
  | .invite _ => ensure (isJoinedMember prior e.actor) .actorNotJoined
  | .kick _ _ => ensure (isJoinedMember prior e.actor) .actorNotJoined
  | .setPower _ _ => ensure (isJoinedMember prior e.actor) .actorNotJoined
  | .unban _ _ => ensure (isJoinedMember prior e.actor) .actorNotJoined
  | .channelCreate _ _ _ _ => ensure (isJoinedMember prior e.actor) .actorNotJoined
  | .channelModify _ _ _ => ensure (isJoinedMember prior e.actor) .actorNotJoined
  | .channelDelete _ => ensure (isJoinedMember prior e.actor) .actorNotJoined
  | .epochRotation _ _ _ => pure ()
  | .epochCatchup _ _ _ => pure ()
  | .fork _ _ => ensure (isJoinedMember prior e.actor) .actorNotJoined
  | .pendingJoin token => verifyPendingJoin C prior e token
  | .joinCountersign _ => pure ()
  | .adminProposal proposalKind => verifyAdminProposal prior e proposalKind
  | .adminCountersign targetEventId => do
    ensure (isJoinedMember prior e.actor) .adminCountersignActorNotJoined
    ensure (100 ≤ prior.power e.actor) .adminCountersignActorNotAdmin
    ensure (targetEventId ≠ 0) .adminCountersignTargetIdMalformed
  | .recoveryProposal lostAdmin newAdmin configDigest =>
    verifyRecoveryProposal C ctx prior e lostAdmin newAdmin configDigest
  | .recoveryCosign targetEventId => verifyRecoveryCosign prior e targetEventId
  | .recoveryVeto targetEventId => do
    ensure (prior.power e.actor = 100 && joinedOrBootstrap ctx prior e.actor)
      .recoveryVetoActorNotAdmin
    ensure (targetEventId ≠ 0) .recoveryVetoTargetIdMalformed
  | .dfrostResetProposal _ _ newMembers newThreshold vetoWindowMs =>
    verifyDfrostResetProposal prior e newMembers newThreshold vetoWindowMs
  | .dfrostResetCosign targetEventId => do
    ensure (prior.power e.actor = 100 && isJoinedMember prior e.actor)
      .dfrostResetCosignActorNotAdmin
    ensure (targetEventId ≠ 0) .dfrostResetCosignTargetIdMalformed
  | .dfrostResetResponse targetEventId verdict groupSig newVk =>
    verifyDfrostResetResponse C ctx prior e targetEventId verdict groupSig newVk
  | .reachabilityAnnounce _ => pure ()
  | .communityRelayAnnounce _ => pure ()
  | .deviceAnnounce => verifyDeviceAnnounce prior e
  | .deviceRetire revocation enrollment => do
    ensure (prior.status e.actor).isSome .deviceRetireForNonMember
    verifyDeviceRetireCerts C e.actor revocation enrollment e.signerCerts

/-- The inner signature, the timestamp skew and the membership of an announce. -/
def verifyAnnounce (prior : MaterializedMembership) (e : SignedMembershipEvent)
    (innerSignature : Option Bool) (stampMs : ℕ) (encode sigInvalid skew notMember : VerifyError) :
    Except VerifyError Unit := do
  ensure innerSignature.isSome encode
  ensure (innerSignature = some true) sigInvalid
  ensure (stampMs - e.hlc.wallMs + (e.hlc.wallMs - stampMs) ≤ reachabilityTimestampSkewMaxMs) skew
  ensure (isJoinedMember prior e.actor) notMember

/-- The per-kind power rules of `verify_event`. -/
def verifyPowerRules (C : Crypto) (ctx : VerifyContext) (prior : MaterializedMembership)
    (e : SignedMembershipEvent) (signer : PubKey) : Except VerifyError Unit :=
  let actorPower := prior.power e.actor
  match e.kind with
  | .invite target => do
    ensure (prior.powerThresholds.invite ≤ actorPower) .actorPowerInsufficient
    ensure (prior.status target ≠ some .banned) .inviteTargetBanned
  | .kick target reason => do
    ensure (prior.powerThresholds.kick ≤ actorPower) .actorPowerInsufficient
    ensure (prior.status target).isSome .kickTargetNotMember
    ensure (prior.power target < actorPower) .kickTargetPowerNotLower
    ensure (!(1 < prior.adminQuorum && prior.power target = 100)) .kickRequiresQuorum
    ensure (reasonFits reason) .reasonTooLong
  | .setPower target level => do
    ensure (prior.powerThresholds.setPower ≤ actorPower) .actorPowerInsufficient
    ensure (level ≤ prior.powerThresholds.max) .powerLevelOutOfRange
    let adminAffecting := isAdminAffectingSetPower prior target level
    ensure (!(adminAffecting && actorPower < prior.powerThresholds.max))
      .setPowerAdminAffectingRequiresAdmin
    ensure (!(1 < prior.adminQuorum && adminAffecting)) .setPowerRequiresQuorum
  | .unban target reason => do
    ensure (prior.powerThresholds.setPower ≤ actorPower) .actorPowerInsufficient
    ensure (prior.status target).isSome .unbanTargetNotMember
    ensure (prior.status target = some .banned) .unbanTargetNotBanned
    ensure (reasonFits reason) .reasonTooLong
  | .channelCreate _ name writePower _ => do
    ensure (prior.powerThresholds.kick ≤ actorPower) .channelAdminInsufficientPower
    ensure (channelNameOk name) .channelNameInvalid
    ensure (writePower ≤ prior.powerThresholds.max) .powerLevelOutOfRange
  | .channelModify _ name writePower => do
    ensure (prior.powerThresholds.kick ≤ actorPower) .channelAdminInsufficientPower
    ensure (name.isSome || writePower.isSome) .channelModifyNoOp
    ensure (name.all channelNameOk) .channelNameInvalid
    ensure (writePower.all fun wp => decide (wp ≤ prior.powerThresholds.max)) .powerLevelOutOfRange
  | .channelDelete _ =>
    ensure (prior.powerThresholds.kick ≤ actorPower) .channelAdminInsufficientPower
  | .epochRotation _ _ _ =>
    ensure (isEffectiveAdmin ctx.adminAddr prior e.actor || (prior.status e.actor).isSome)
      .epochEventUnauthorized
  | .epochCatchup epoch _ _ => do
    ensure (isEffectiveAdmin ctx.adminAddr prior e.actor) .epochEventUnauthorized
    ensure (epoch = prior.currentEpoch.getD 0) .epochEventUnauthorized
  | .fork _ reason => do
    ensure (prior.powerThresholds.invite ≤ actorPower) .actorPowerInsufficient
    ensure (reasonFits reason) .reasonTooLong
    ensure (reason.all fun r => !isBlank r) .reasonEmpty
  | .joinCountersign _ => do
    ensure (isJoinedMember prior e.actor) .joinCountersignActorNotJoined
    ensure (prior.powerThresholds.invite ≤ actorPower) .joinCountersignActorPowerInsufficient
  | .reachabilityAnnounce payload =>
    verifyAnnounce prior e (C.reachabilityInnerSignature payload e.actor e.hlc signer)
      payload.announcedAtMs (.encodeError "inner reachability sig encode")
      .reachabilityInnerSigInvalid .reachabilityTimestampSkew .reachabilityActorNotMember
  | .communityRelayAnnounce payload =>
    verifyAnnounce prior e (C.communityRelayInnerSignature payload e.actor e.hlc signer)
      payload.adAt (.encodeError "inner community relay sig encode")
      .communityRelayInnerSigInvalid .communityRelayTimestampSkew .communityRelayActorNotMember
  | _ => pure ()

def verifyEvent (C : Crypto) (ctx : VerifyContext) (prior : MaterializedMembership)
    (e : SignedMembershipEvent) : Except VerifyError Unit := do
  ensure (e.communityId = ctx.expectedCommunityId) .wrongCommunity
  ensure (ctx.nowMs.all fun now => !rejectFuture e.hlc.wallMs now maxForwardSkewMs) .futureSkew
  ensure (e.countersig.isNone || countersigAllowed ctx e) .unexpectedCounterSig
  let signer ← resolveSigner C prior e
  verifyMembershipSigner C e signer
  verifyNotBanned prior e
  verifyInviteOnlyJoin C ctx prior e
  verifyMembershipRules C ctx prior e
  verifyPowerRules C ctx prior e signer

def accepted (C : Crypto) (ctx : VerifyContext) (prior : MaterializedMembership)
    (e : SignedMembershipEvent) : Bool :=
  match verifyEvent C ctx prior e with
  | .ok _ => true
  | .error _ => false

theorem accepted_iff {C : Crypto} {ctx : VerifyContext} {prior : MaterializedMembership}
    {e : SignedMembershipEvent} :
    accepted C ctx prior e = true ↔ verifyEvent C ctx prior e = .ok () := by
  unfold accepted
  split <;> simp_all

theorem exists_error {C : Crypto} {ctx : VerifyContext} {prior : MaterializedMembership}
    {e : SignedMembershipEvent} (h : ¬accepted C ctx prior e = true) :
    ∃ err, verifyEvent C ctx prior e = .error err := by
  unfold accepted at h
  split at h
  · exact absurd rfl h
  · exact ⟨_, by assumption⟩

theorem verifyEvent_rules {C : Crypto} {ctx : VerifyContext} {prior : MaterializedMembership}
    {e : SignedMembershipEvent} (h : verifyEvent C ctx prior e = .ok ()) :
    verifyNotBanned prior e = .ok () ∧ verifyMembershipRules C ctx prior e = .ok () ∧
      ∃ signer, verifyPowerRules C ctx prior e signer = .ok () := by
  unfold verifyEvent at h
  simp only [bind_eq_ok] at h
  obtain ⟨_, -, _, -, _, -, signer, -, _, -, _, hbanned, _, -, _, hrules, hpower⟩ := h
  exact ⟨hbanned, hrules, signer, hpower⟩

end Harmony.Membership
