import Harmony.Lib.TreeMap
import Harmony.Membership.Types

/-! The wire of the voting log: event kinds, the signed envelope and the payloads of
the three tiers. Decoding, the signing bytes and SHA-256 are parameters; digests and
ids are the big-endian numbers of their bytes, as in the membership log. -/

namespace Harmony.Voting

open Harmony.Lib
open Harmony.Membership (OwnerAddr SpaceId ChannelId Digest Bytes Hlc)

abbrev PollId := ℕ

inductive Tier where
  | approval
  | conviction
  | sortition
deriving DecidableEq

inductive Lifecycle where
  | draft
  | «open»
  | thresholdReached
  | closed
  | finalized
  | archived
deriving DecidableEq

inductive PollEventKindCode where
  | pollCreate
  | pollOpen
  | pollExtend
  | pollClose
  | ballotCast
  | pollResult
  | signal
  | delegate
  | undelegate
  | sortitionSelection
  | deliberationStatement
  | deliberationVote
  | miniPublicDecline
  | draftCandidate
  | draftApproval
  | sortitionFailed
  | ratificationBallot
  | tallyShare
deriving DecidableEq

/-- All fields the signature covers. -/
structure SigInput where
  tag : Char
  version : ℕ
  tier : Tier
  kind : PollEventKindCode
  hlc : Hlc
  actor : OwnerAddr
  payload : Bytes
deriving DecidableEq

structure SignedVotingEvent extends SigInput where
  sig : Bytes
deriving DecidableEq

structure Eligibility where
  minPower : ℕ
  minVouchingDepth : Option ℕ
  sortitionSize : Option ℕ
deriving DecidableEq

/-! ### Payloads -/

structure Tier1PollConfig where
  options : List String
  windowSeconds : ℕ
  quorum : Option ℕ
  thresholdPercent : Option ℕ
  multiWinner : Option ℕ
  eligibility : Eligibility
  channelId : ChannelId
deriving DecidableEq

inductive AutoExecAction where
  | none
  | setPower (targetPubkey : OwnerAddr) (newPower : ℕ)
deriving DecidableEq

structure Tier2PollConfig where
  proposalText : String
  halfLifeSeconds : ℕ
  thresholdMinQ32 : ℤ
  thresholdMaxQ32 : ℤ
  beta : ℕ
  delegationAllowed : Bool
  autoExec : AutoExecAction
  eligibility : Eligibility
deriving DecidableEq

structure Tier3PollConfigPayload where
  proposalText : String
  sortitionSize : ℕ
  deliberationWindowSeconds : ℕ
  draftingWindowSeconds : ℕ
  ratificationWindowSeconds : ℕ
  privacyMode : String
  incentiveMode : String
  eligibility : Eligibility
  retryOf : Option PollId
  predecessor : Option PollId
  ce : Option ℕ
deriving DecidableEq

structure SignalPayload where
  proposalId : PollId
  support : Bool
deriving DecidableEq

/-- `recipient` is the source's field `to`. -/
structure DelegatePayload where
  recipient : OwnerAddr
  scope : String
deriving DecidableEq

structure SortitionSelectionPayload where
  pollId : PollId
  primary : List OwnerAddr
  backup : List OwnerAddr
deriving DecidableEq

/-- The payload of a statement and of a draft candidate. -/
structure TextPayload where
  pollId : PollId
  text : String
deriving DecidableEq

structure DeliberationVotePayload where
  pollId : PollId
  statementEventHash : Digest
  vote : ℕ
deriving DecidableEq

structure MiniPublicDeclinePayload where
  pollId : PollId
  reason : Option String
deriving DecidableEq

structure DraftApprovalPayload where
  pollId : PollId
  candidateEventHash : Digest
deriving DecidableEq

structure EncCiphertext where
  c1 : Digest
  c2 : Digest
deriving DecidableEq

structure BallotNizkProof where
  rangeProofs : Bytes
  consistencyProofs : Bytes
deriving DecidableEq

structure RatificationBallotPayload where
  pollId : PollId
  scores : Option (List ℕ)
  ciphertextsScores : Option (List EncCiphertext)
  ciphertextsIndicators : Option (List EncCiphertext)
  proof : Option BallotNizkProof
deriving DecidableEq

structure TallyShareEntry where
  share : Digest
  dleqProof : Bytes
deriving DecidableEq

structure TallySharePayload where
  pollId : PollId
  committeeEpoch : ℕ
  entries : List TallyShareEntry
deriving DecidableEq

structure CandidateRef where
  eventHash : Digest
  approvalCount : ℕ
deriving DecidableEq, Inhabited

structure StarResult where
  winner : CandidateRef
  finalists : List CandidateRef
  totalScores : List ℕ
  runoffVotes : List ℕ
deriving DecidableEq

structure Tier3PollResultPayload where
  pollId : PollId
  result : StarResult
deriving DecidableEq

/-- Serialization and hashing. A decoder either yields the payload or says why not. -/
structure Codec where
  signingBytes : SigInput → Except String Bytes
  sha256 : Bytes → Digest
  /-- `decode_poll_id_ref`: the field `pi` of a map. -/
  pollIdRef : Bytes → Option PollId
  tier1Config : Bytes → Except String Tier1PollConfig
  tier2Config : Bytes → Except String Tier2PollConfig
  tier3Config : Bytes → Except String Tier3PollConfigPayload
  signal : Bytes → Except String SignalPayload
  delegate : Bytes → Except String DelegatePayload
  undelegate : Bytes → Except String Unit
  sortitionSelection : Bytes → Except String SortitionSelectionPayload
  deliberationStatement : Bytes → Except String TextPayload
  deliberationVote : Bytes → Except String DeliberationVotePayload
  miniPublicDecline : Bytes → Except String MiniPublicDeclinePayload
  draftCandidate : Bytes → Except String TextPayload
  draftApproval : Bytes → Except String DraftApprovalPayload
  sortitionFailed : Bytes → Except String PollId
  ratificationBallot : Bytes → Except String RatificationBallotPayload
  tallyShare : Bytes → Except String TallySharePayload
  tier3PollResult : Bytes → Except String Tier3PollResultPayload

/-! ### Ids and keys -/

/-- The bytes of a fixed-width id, most significant first. -/
def beBytes : ℕ → ℕ → Bytes
  | 0, _ => []
  | width + 1, n => beBytes width (n / 256) ++ [n % 256]

/-- `PollId = SHA-256(community_id || signing bytes of the PollCreate)`. -/
def derivePollId (cx : Codec) (communityId : SpaceId) (createSigningBytes : Bytes) : PollId :=
  cx.sha256 (beBytes 16 communityId ++ createSigningBytes)

def sha256OfSigningBytes (cx : Codec) (ev : SignedVotingEvent) : Digest :=
  match cx.signingBytes ev.toSigInput with
  | .ok bytes => cx.sha256 bytes
  | .error _ => cx.sha256 ev.payload

/-- `(wall_ms, logical, device_id)`. -/
abbrev HlcKey := ℕ ×ₗ ℕ ×ₗ String

def hlcKey (h : Hlc) : HlcKey := toLex (h.wallMs, toLex (h.logical, h.deviceId))

/-- `(wall_ms, logical, device_id, event_hash)`, compared in this order. -/
def canonicalKey (cx : Codec) (ev : SignedVotingEvent) : HlcKey ×ₗ Digest :=
  toLex (hlcKey ev.hlc, sha256OfSigningBytes cx ev)

/-! ### Eligibility -/

structure MemberAttrs where
  power : ℕ
  vouchingDepth : ℕ
deriving DecidableEq

structure MembershipSnapshot where
  members : BTreeMap OwnerAddr MemberAttrs

inductive EligibilityFailure where
  | notMember
  | insufficientPower (required actual : ℕ)
  | insufficientVouchingDepth (required actual : ℕ)
deriving DecidableEq

def checkEligibility (snapshot : MembershipSnapshot) (signer : OwnerAddr)
    (eligibility : Eligibility) : Except EligibilityFailure Unit :=
  match snapshot.members[signer]? with
  | none => .error .notMember
  | some attrs =>
    if attrs.power < eligibility.minPower then
      .error (.insufficientPower eligibility.minPower attrs.power)
    else
      match eligibility.minVouchingDepth with
      | some depth =>
        if attrs.vouchingDepth < depth then
          .error (.insufficientVouchingDepth depth attrs.vouchingDepth)
        else .ok ()
      | none => .ok ()

/-- The members of the snapshot that pass the check, in ascending order. -/
def eligibleMembers (snapshot : MembershipSnapshot) (eligibility : Eligibility) :
    List OwnerAddr :=
  snapshot.members.keys.filter fun a => (checkEligibility snapshot a eligibility).isOk

/-! ### Lifecycle -/

structure LifecycleError where
  start : Lifecycle
  attempted : PollEventKindCode
deriving DecidableEq

def nextLifecycle (current : Lifecycle) (kind : PollEventKindCode) (tier : Tier) :
    Except LifecycleError Lifecycle :=
  match current, kind, tier with
  | .draft, .pollCreate, _ => .ok .open
  | .open, .ballotCast, .approval => .ok .open
  | .open, .pollExtend, .approval => .ok .open
  | .open, .pollOpen, .approval => .ok .open
  | .open, .pollClose, _ => .ok .closed
  | .closed, .pollResult, _ => .ok .finalized
  | .open, .signal, .conviction => .ok .thresholdReached
  | .thresholdReached, .signal, .conviction => .ok .open
  | .open, .delegate, .conviction => .ok .open
  | .open, .undelegate, .conviction => .ok .open
  | .thresholdReached, .delegate, .conviction => .ok .thresholdReached
  | .thresholdReached, .undelegate, .conviction => .ok .thresholdReached
  | .thresholdReached, .pollResult, .conviction => .ok .finalized
  | _, _, _ => .error ⟨current, kind⟩

structure PollMeta where
  pollId : PollId
  communityId : SpaceId
  creator : OwnerAddr
  tier : Tier
  eligibility : Eligibility
  lifecycle : Lifecycle
  createdAt : Hlc
  opensAt : Hlc
  closesAt : Hlc
  extendsAt : Option Hlc
  channelId : Option ChannelId
  finalizedAtMs : Option ℕ
deriving DecidableEq

end Harmony.Voting
