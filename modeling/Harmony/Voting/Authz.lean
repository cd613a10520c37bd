import Harmony.Voting.Approval
import Harmony.Voting.Sortition

/-! What the engine asks of an event before it applies it: the verifiers of the Tier-3 kinds,
the gate on the node's own events and the one on the events of peers. -/

namespace Harmony.Voting

open Harmony.Lib
open Harmony.Membership (OwnerAddr SpaceId Digest Bytes Hlc saturatingAdd maxForwardSkewMs)

/-- A future stamp is cut down to `now + tolerance`. -/
def clampFuture (stamp now tolerance : ℕ) : ℕ := min stamp (saturatingAdd now tolerance)

/-- The VRF outputs a node knows, by community, seed and epoch. -/
structure BeaconOracle where
  vrfOutputFor : SpaceId → Digest → ℕ → Option Digest

/-- The variants of `ValidateError` for ballots. -/
inductive BallotError where
  | ballotLengthMismatch (scores expected : ℕ)
  | ballotScoreOutOfRange (score : ℕ)
deriving DecidableEq

inductive VerifyError where
  | sortitionMismatch
  | beaconNotYetAvailable
  | notInMiniPublic (actor : OwnerAddr)
  | notInEligibleElectorate (actor : OwnerAddr)
  | sfActorNotProposer (actor : OwnerAddr)
  | backupPoolNotExhausted (declined capacity : ℕ)
  | tallyMismatch
  | tallySharesNotReady
  | payloadDecode (reason : String)
  | ballotInvalid (err : BallotError)
  | notInRatificationStage
  | unknownCandidate
  | notInClosedStage
  | statusQuoNotSynthesized
  | closeConditionNotMet
  | pollAlreadyFinalized
deriving DecidableEq

/-- A ballot without scores counts as one of length zero. -/
def validateRatificationBallot (pd : RatificationBallotPayload) (expectedCandidateCount : ℕ) :
    Except BallotError Unit :=
  let scores := pd.scores.getD []
  if scores.length ≠ expectedCandidateCount then
    .error (.ballotLengthMismatch scores.length expectedCandidateCount)
  else (scores.find? (5 < ·)).elim (.ok ()) fun s => .error (.ballotScoreOutOfRange s)

/-- `SHA-256(poll_create_hash || u64::to_le_bytes(epoch))`. -/
def deriveBeaconSeed (cx : Codec) (pollCreateHash : Digest) (communityEpoch : ℕ) : Digest :=
  cx.sha256 (beBytes 32 pollCreateHash ++ (beBytes 8 communityEpoch).reverse)

/-- `SHA-256(b"dfrost-vrf-seed-v1" || seed || epoch)`. -/
def deriveVrfSeed (cx : Codec) (seed : Digest) (epoch : ℕ) : Digest :=
  cx.sha256 ("dfrost-vrf-seed-v1".toUTF8.toList.map UInt8.toNat ++ beBytes 32 seed ++
    (beBytes 8 epoch).reverse)

namespace Tier3PollState

def closeConditionMet (s : Tier3PollState) (atWallMs : ℕ) : Bool :=
  s.currentStageAt ⟨atWallMs, 0, ""⟩ = .ratification &&
    saturatingAdd s.meta.pollCreateHlc.wallMs ((s.meta.config.deliberationWindowSeconds +
      s.meta.config.draftingWindowSeconds + s.meta.config.ratificationWindowSeconds) * 1000) ≤
        atWallMs

def declineCountAt (s : Tier3PollState) (now : Hlc) : ℕ := (s.declinedAt now).card

/-- Primary and backup seats together. -/
def poolCapacity (s : Tier3PollState) : ℕ :=
  s.sortitionResult.elim (2 * s.meta.config.sortitionSize) fun sr =>
    sr.primary.length + sr.backup.length

variable (cx : Codec) (cv : Curve)

/-- The seats a beacon draws. `rng seed n` are the outputs of `gen_range`, asked for a number
below `n`, `n - 1` and so on. -/
def drawSeats (rng : Digest → ℕ → ℕ → ℕ) (s : Tier3PollState) (vrfOutput : Digest) :
    Option SortitionResult :=
  fisherYatesSelect (rng vrfOutput s.eligibleElectorateSnapshot.length)
    s.eligibleElectorateSnapshot s.meta.config.sortitionSize s.meta.config.sortitionSize

def beaconSeed (s : Tier3PollState) : Digest :=
  deriveBeaconSeed cx s.meta.pollCreateEventHash s.meta.communityEpoch

end Tier3PollState

section Verifiers

variable (cx : Codec) (cv : Curve) (ev : SignedVotingEvent) (s : Tier3PollState)

/-- `none` is the panic of the draw on a small electorate. -/
def verifySs (rng : Digest → ℕ → ℕ → ℕ) (beaconOracle : BeaconOracle) (communityId : SpaceId) :
    Option (Except VerifyError Unit) :=
  match cx.sortitionSelection ev.payload with
  | .error reason => some (.error (.payloadDecode reason))
  | .ok payload =>
    match beaconOracle.vrfOutputFor communityId (s.beaconSeed cx) s.meta.communityEpoch with
    | none => some (.error .beaconNotYetAvailable)
    | some vrfOutput => (s.drawSeats rng vrfOutput).map fun recomputed =>
        if recomputed.primary ≠ payload.primary ∨ recomputed.backup ≠ payload.backup then
          .error .sortitionMismatch
        else .ok ()

def verifySd : Except VerifyError Unit :=
  if ev.actor ∉ s.currentMiniPublic ev.hlc then .error (.notInMiniPublic ev.actor) else .ok ()

def verifyDaCandidateExists : Except VerifyError Unit :=
  match cx.draftApproval ev.payload with
  | .error reason => .error (.payloadDecode reason)
  | .ok payload =>
    if s.candidates.any (·.eventHash = payload.candidateEventHash) then .ok ()
    else .error .unknownCandidate

def verifySf : Except VerifyError Unit :=
  if ev.actor ≠ s.meta.proposer then .error (.sfActorNotProposer ev.actor)
  else if s.declineCountAt ev.hlc < s.poolCapacity then
    .error (.backupPoolNotExhausted (s.declineCountAt ev.hlc) s.poolCapacity)
  else .ok ()

def verifyCl (receiverNowMs : ℕ) : Except VerifyError Unit :=
  if s.closeConditionMet (clampFuture ev.hlc.wallMs receiverNowMs maxForwardSkewMs) then .ok ()
  else .error .closeConditionNotMet

def ExpectedResultError.toVerifyError : ExpectedResultError → VerifyError
  | .statusQuoNotSynthesized => .statusQuoNotSynthesized
  | .tallySharesNotReady => .tallySharesNotReady

def decodePollResultClaim : Except VerifyError StarResult :=
  match cx.tier3PollResult ev.payload with
  | .error reason => .error (.payloadDecode reason)
  | .ok payload => .ok payload.result

def verifySr : Except VerifyError Unit :=
  if s.closeEventHash.isNone then .error .notInClosedStage
  else
    match decodePollResultClaim cx ev with
    | .error err => .error err
    | .ok claimed =>
      match expectedResultFromState cx cv s with
      | .error err => .error err.toVerifyError
      | .ok expected => if expected ≠ claimed then .error .tallyMismatch else .ok ()

def verifyRatificationBallot : Except VerifyError Unit :=
  if s.currentStageAt ev.hlc ≠ .ratification then .error .notInRatificationStage
  else if ev.actor ∉ s.eligibleElectorateSnapshot then .error (.notInEligibleElectorate ev.actor)
  else
    match cx.ratificationBallot ev.payload with
    | .error reason => .error (.payloadDecode reason)
    | .ok payload =>
      match ratificationOrdering cx s with
      | none => .error .statusQuoNotSynthesized
      | some advancers =>
        match validateRatificationBallot payload advancers.length with
        | .error err => .error (.ballotInvalid err)
        | .ok () => .ok ()

end Verifiers

/-! ### Gates -/

/-- Why a gate turns an event away; `what` is the label of its message. -/
inductive GateError where
  | decode (what reason : String)
  | notEligible (what : String) (err : EligibilityFailure)
  | undecodablePollId (what : String)
  | unknownPoll (what : String) (pid : PollId)
  | missingTier1Cfg (pid : PollId)
  | missingTier1Snapshot (pid : PollId)
  | notTier2 (pid : PollId)
  | noBeaconOracle
  | authz (what : String) (err : VerifyError)
deriving DecidableEq

namespace VotingLog

/-- The Tier-3 state of a poll. -/
def tier3Of (log : VotingLog) (pid : PollId) : Option Tier3PollState :=
  log.polls[pid]?.bind fun p => match p.tierState with
    | .tier3 t3 => some t3
    | _ => none

def withTier3 (log : VotingLog) (pid : PollId) (kind : String)
    (f : Tier3PollState → Except VerifyError Unit) : Except GateError Unit :=
  match log.tier3Of pid with
  | none => .error (.unknownPoll kind pid)
  | some t3 => (f t3).mapError (.authz kind)

variable (cx : Codec) (cv : Curve)

/-- `with_tier3` on the poll the payload names. -/
def withNamedTier3 (log : VotingLog) (event : SignedVotingEvent) (kind : String)
    (f : Tier3PollState → Except VerifyError Unit) : Except GateError Unit :=
  match cx.pollIdRef event.payload with
  | none => .error (.undecodablePollId kind)
  | some pid => log.withTier3 pid kind f

/-- The gate on the node's own events; the engine's own kinds pass. -/
def publishGate (log : VotingLog) (event : SignedVotingEvent) : Except GateError Unit :=
  match event.kind with
  | .miniPublicDecline => log.withNamedTier3 cx event "kd=md/dc" (verifySd event)
  | .draftCandidate => log.withNamedTier3 cx event "kd=md/dc" (verifySd event)
  | .draftApproval => log.withNamedTier3 cx event "kd=da" fun t3 => do
      verifySd event t3
      verifyDaCandidateExists cx event t3
  | .ratificationBallot => log.withNamedTier3 cx event "kd=rb" (verifyRatificationBallot cx event)
  | _ => .ok ()

end VotingLog

/-- What the check of a peer's event comes to under the lock of the log. A PollResult leaves
with a copy of the poll; `panicked` is the draw on a small electorate. -/
inductive Verdict where
  | decided (result : Except GateError Unit)
  | recompute (t3 : Tier3PollState) (key : PollId ×ₗ Digest) (claimed : StarResult)
  | panicked

namespace VotingLog

section Inbound

variable (cx : Codec) (log : VotingLog) (event : SignedVotingEvent)
  (snapshot : MembershipSnapshot)

/-- The config of a PollCreate has to admit its creator. -/
def creatorEligible {α : Type} (what : String) (decoded : Except String α)
    (eligibility : α → Eligibility) : Except GateError Unit :=
  match decoded with
  | .error reason => .error (.decode what reason)
  | .ok cfg => (checkEligibility snapshot event.actor (eligibility cfg)).mapError (.notEligible what)

/-- Against the membership of the time the poll was created. -/
def voterEligible (tier1Ballot : Bytes → Except String Tier1Ballot) : Except GateError Unit :=
  match tier1Ballot event.payload with
  | .error reason => .error (.decode "Tier1Ballot" reason)
  | .ok ballot =>
    match log.polls[ballot.pollId]? with
    | none => .error (.unknownPoll "Tier 1 BallotCast" ballot.pollId)
    | some p =>
      match p.tier1Cfg, p.tier1Snapshot with
      | none, _ => .error (.missingTier1Cfg ballot.pollId)
      | some _, none => .error (.missingTier1Snapshot ballot.pollId)
      | some cfg, some frozen =>
        (checkEligibility frozen event.actor cfg.eligibility).mapError
          (.notEligible "Tier 1 BallotCast")

def signalEligible : Except GateError Unit :=
  match cx.signal event.payload with
  | .error reason => .error (.decode "SignalPayload" reason)
  | .ok payload =>
    match log.polls[payload.proposalId]? with
    | none => .error (.unknownPoll "Tier 2 Signal" payload.proposalId)
    | some p =>
      match p.tierState with
      | .tier2 t2 => (checkEligibility snapshot event.actor t2.config.eligibility).mapError
          (.notEligible "Tier 2 Signal")
      | _ => .error (.notTier2 payload.proposalId)

/-- The arm of `kd=rs` up to the release of the lock. -/
def resultVerdict : Verdict :=
  match cx.pollIdRef event.payload with
  | none => .decided (.error (.undecodablePollId "kd=rs"))
  | some pid =>
    match log.tier3Of pid with
    | none => .decided (.error (.unknownPoll "kd=rs" pid))
    | some t3 =>
      if t3.stage = .finalized then .decided (.error (.authz "kd=rs" .pollAlreadyFinalized))
      else
        match t3.closeEventHash with
        | none => .decided (.error (.authz "kd=rs" .notInClosedStage))
        | some closeHash =>
          match decodePollResultClaim cx event with
          | .error err => .decided (.error (.authz "kd=rs" err))
          | .ok claimed => .recompute t3 (toLex (pid, closeHash)) claimed

/-- Without an oracle the selection is turned away. -/
def selectionVerdict (rng : Digest → ℕ → ℕ → ℕ) (communityId : SpaceId)
    (beaconOracle : Option BeaconOracle) : Verdict :=
  match cx.pollIdRef event.payload with
  | none => .decided (.error (.undecodablePollId "kd=ss"))
  | some pid =>
    match log.tier3Of pid, beaconOracle with
    | none, _ => .decided (.error (.unknownPoll "kd=ss" pid))
    | some _, none => .decided (.error .noBeaconOracle)
    | some t3, some oracle =>
      (verifySs cx event t3 rng oracle communityId).elim .panicked fun r =>
        .decided (r.mapError (.authz "kd=ss"))

/-- Without a clock the close is let through. -/
def closeVerdict (receiverNowMs : Option ℕ) : Verdict :=
  .decided (receiverNowMs.elim (.ok ()) fun now =>
    log.withNamedTier3 cx event "kd=cl" fun t3 => verifyCl event t3 now)

/-- `inbound_eligibility_check`, the PollResult up to the copy of the poll. -/
def inboundEligibilityCheck (tier1Ballot : Bytes → Except String Tier1Ballot)
    (rng : Digest → ℕ → ℕ → ℕ) (communityId : SpaceId) (beaconOracle : Option BeaconOracle)
    (receiverNowMs : Option ℕ) : Verdict :=
  match event.tier, event.kind with
  | .approval, .pollCreate => .decided (creatorEligible event snapshot "Tier 1 PollCreate"
      (cx.tier1Config event.payload) (·.eligibility))
  | .approval, .ballotCast => .decided (log.voterEligible event tier1Ballot)
  | .conviction, .pollCreate => .decided (creatorEligible event snapshot "Tier 2 PollCreate"
      (cx.tier2Config event.payload) (·.eligibility))
  | .conviction, .signal => .decided (log.signalEligible cx event snapshot)
  | .sortition, .pollCreate => .decided (creatorEligible event snapshot "Tier 3 PollCreate"
      (cx.tier3Config event.payload) (·.eligibility))
  | .sortition, .pollClose => log.closeVerdict cx event receiverNowMs
  | .sortition, .sortitionSelection =>
    log.selectionVerdict cx event rng communityId beaconOracle
  | .sortition, .sortitionFailed =>
    .decided (log.withNamedTier3 cx event "kd=sf" (verifySf event))
  | .sortition, .pollResult => log.resultVerdict cx event
  | .sortition, .miniPublicDecline => .decided (log.publishGate cx event)
  | .sortition, .draftCandidate => .decided (log.publishGate cx event)
  | .sortition, .draftApproval => .decided (log.publishGate cx event)
  | .sortition, .ratificationBallot => .decided (log.publishGate cx event)
  | _, _ => .decided (.ok ())

end Inbound

end VotingLog
end Harmony.Voting
