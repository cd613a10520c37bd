import Harmony.Lib.Hex
import Harmony.Lib.Trace
import Harmony.Voting.Authz
import Harmony.Voting.Resets

/-! The voting engine of one community. Events of peers come in live and by backfill, the node
publishes its own, and after some of them the engine mints the next step of a poll. Every one of
these is a task that takes the lock of the log or of the tracker several times and lets go of it
in between; a step of the engine is one such section, so that tasks interleave freely. -/

namespace Harmony.Voting

open Harmony.Lib
open Harmony.Membership (OwnerAddr SpaceId EventId Digest Bytes Hlc saturatingAdd rejectFuture
  maxForwardSkewMs)

/-! ### Replay tracker -/

/-- `(actor, device_id, wall_ms, logical)`. -/
abbrev VotingEventCoord := (OwnerAddr ×ₗ String) × (ℕ ×ₗ ℕ)

def SignedVotingEvent.coord (ev : SignedVotingEvent) : VotingEventCoord := (ev.lane, ev.ordinal)

def maxVerifySrMemoEntries : ℕ := 1024

def engineAutoLanePrefix : String := "engine-auto-"

structure VotingReplayTracker where
  seen : BTreeMap (OwnerAddr ×ₗ String) (ℕ ×ₗ ℕ) := ∅
  seenCoords : Finset VotingEventCoord := ∅
  verifySrMemo : BTreeMap (PollId ×ₗ Digest) StarResult := ∅

namespace VotingReplayTracker

def record (tracker : VotingReplayTracker) (event : SignedVotingEvent) : VotingReplayTracker :=
  { tracker with
    seen := tracker.seen.insert event.lane
      (max (tracker.seen[event.lane]?.getD (toLex (0, 0))) event.ordinal)
    seenCoords := insert event.coord tracker.seenCoords }

def contains (tracker : VotingReplayTracker) (event : SignedVotingEvent) : Bool :=
  tracker.seen[event.lane]?.any (event.ordinal ≤ ·)

def seenCoord (tracker : VotingReplayTracker) (event : SignedVotingEvent) : Bool :=
  event.coord ∈ tracker.seenCoords

/-- Lanes of the engine have several writers and are compared by coordinate. -/
def isInboundDuplicate (tracker : VotingReplayTracker) (event : SignedVotingEvent) : Bool :=
  if engineAutoLanePrefix.toList.isPrefixOf event.hlc.deviceId.toList ∧
      event.kind ∈ [.pollClose, .pollResult, .sortitionFailed] then tracker.seenCoord event
  else tracker.contains event

def verifySrMemoGet (tracker : VotingReplayTracker) (key : PollId ×ₗ Digest) : Option StarResult :=
  tracker.verifySrMemo[key]?

/-- A full memo is cleared; an entry that is there stays. -/
def verifySrMemoInsert (tracker : VotingReplayTracker) (key : PollId ×ₗ Digest)
    (value : StarResult) : VotingReplayTracker :=
  let memo := if tracker.verifySrMemo[key]?.isNone ∧
      maxVerifySrMemoEntries ≤ tracker.verifySrMemo.size then ∅ else tracker.verifySrMemo
  { tracker with verifySrMemo := memo.insert key (memo[key]?.getD value) }

end VotingReplayTracker

/-! ### Signatures -/

inductive VotingVerifyError where
  | actorNotInMembership
  | identityNotResolvable
  | actorAddressMismatch
  | invalidSignature
  | malformedEvent
  | badSignatureLength
deriving DecidableEq

/-- The identity of a public key, its address first, and the Ed25519 check. -/
structure IdentityCrypto where
  fromPublicBytes : Bytes → Option (OwnerAddr × Bytes)
  verifyStrict : Bytes → Bytes → Bytes → Bool

/-- `identity` is what the resolver has for the actor. -/
def verifyVotingEvent (cx : Codec) (crypto : IdentityCrypto) (event : SignedVotingEvent)
    (snapshot : MembershipSnapshot) (identity : Option Bytes) : Except VotingVerifyError Unit :=
  if snapshot.members[event.actor]?.isNone then .error .actorNotInMembership
  else
    match identity with
    | none => .error .identityNotResolvable
    | some bytes =>
      match crypto.fromPublicBytes bytes with
      | none => .error .actorAddressMismatch
      | some (address, verifyingKey) =>
        if address ≠ event.actor then .error .actorAddressMismatch
        else
          match cx.signingBytes event.toSigInput with
          | .error _ => .error .malformedEvent
          | .ok bytes =>
            if event.sig.length ≠ 64 then .error .badSignatureLength
            else if crypto.verifyStrict verifyingKey bytes event.sig then .ok ()
            else .error .invalidSignature

/-! ### Minting -/

/-- The payloads the engine writes, and its signature. -/
structure EventEncoder where
  pollRef : PollId → Bytes
  pollResult : PollId → StarResult → Bytes
  sortitionSelection : PollId → SortitionResult → Bytes
  sign : SigInput → Bytes

/-- Strictly newer than `base`, on a lane of the poll. -/
def engineAutoHlcFromBase (base : Hlc) (pid : PollId) (kind : String) : Hlc :=
  let lane := engineAutoLanePrefix ++ kind ++ "-" ++
    String.ofList (((beBytes 32 pid).take 4).flatMap (hexPad 2))
  if base.logical = 2 ^ 32 - 1 then ⟨saturatingAdd base.wallMs 1, 0, lane⟩
  else ⟨base.wallMs, base.logical + 1, lane⟩

/-- A Tier-3 event of the engine. -/
def EventEncoder.build (encoder : EventEncoder) (kind : PollEventKindCode) (hlc : Hlc)
    (actor : OwnerAddr) (payload : Bytes) : SignedVotingEvent :=
  let input : SigInput := ⟨'p', 1, .sortition, kind, hlc, actor, payload⟩
  { input with sig := encoder.sign input }

namespace Tier3PollState

/-- The last of the orderings by time, behind every decline. -/
def lastPossibleHlc : Hlc :=
  ⟨2 ^ 64 - 1, 2 ^ 32 - 1, String.singleton (Char.ofNat 0x10ffff)⟩

/-- The trigger of `kd=sf`: the proposer finds the pool exhausted. -/
def failsFor (s : Tier3PollState) (selfOwner : OwnerAddr) : Bool :=
  s.stage = .sortition && s.meta.proposer = selfOwner &&
    s.sortitionResult.any fun sr =>
      0 < sr.primary.length + sr.backup.length &&
        sr.primary.length + sr.backup.length ≤ s.declineCountAt lastPossibleHlc

/-- The trigger of `kd=cl`; a clock that cannot be read does not cut. -/
def closesAt (s : Tier3PollState) (receiverNowMs : Option ℕ) : Bool :=
  s.closeEventHash.isNone && s.lastHlc.any fun last => s.closeConditionMet
    (match receiverNowMs.filter (· ≠ 0) with
     | some now => clampFuture last.wallMs now maxForwardSkewMs
     | none => last.wallMs)

def maxReceivedHlc (s : Tier3PollState) : Option Hlc :=
  s.maxApplied.map fun key => ⟨(ofLex key).1, (ofLex (ofLex key).2).1, ""⟩

/-- The tally a public poll is finalized with once it is closed, a secret one once enough
shares are in. -/
def resultToMint (cx : Codec) (cv : Curve) (s : Tier3PollState) : Option StarResult :=
  if s.result.isSome then none
  else if s.meta.config.privacyMode = "pu" then
    if s.closeEventHash.isNone then none
    else (ratificationOrdering cx s).map fun ordered => tallyStar ordered s.ratificationBallots
  else if s.meta.config.privacyMode = "se" then
    (ratificationOrdering cx s).bind fun ordered => recoverSecretTally cv s ordered
  else none

end Tier3PollState

/-! ### The engine -/

structure VotingLogEngineParams where
  cx : Codec
  cv : Curve
  communityId : SpaceId
  selfOwner : OwnerAddr
  tier1Ballot : Bytes → Except String Tier1Ballot
  crypto : IdentityCrypto
  encoder : EventEncoder
  rng : Digest → ℕ → ℕ → ℕ
  tick : TickContext

/-- The two ways an event of a peer arrives. -/
inductive Route where
  | live
  | backfill
deriving DecidableEq

/-- A task between two of its sections; the comment says which section is next. -/
inductive IngestTask where
  /-- `inbound_eligibility_check` -/
  | verified (event : SignedVotingEvent) (snapshot : MembershipSnapshot)
  /-- `verify_sr_memo_get`, and on a miss the recomputation -/
  | copied (event : SignedVotingEvent) (snapshot : MembershipSnapshot) (t3 : Tier3PollState)
      (key : PollId ×ₗ Digest) (claimed : StarResult)
  /-- `verify_sr_memo_insert` and the comparison -/
  | recomputed (event : SignedVotingEvent) (snapshot : MembershipSnapshot)
      (key : PollId ×ₗ Digest) (expected claimed : StarResult)
  /-- `apply_with_snapshot` of a peer's event -/
  | eligible (event : SignedVotingEvent) (snapshot : MembershipSnapshot)
  /-- `record` of a peer's event -/
  | applied (event : SignedVotingEvent)
  /-- `record` of an own event -/
  | accepted (event : SignedVotingEvent) (snapshot : Option MembershipSnapshot)
  /-- `apply_with_snapshot` of an own event -/
  | announced (event : SignedVotingEvent) (snapshot : Option MembershipSnapshot)

structure VotingLogEngine where
  node : VotingNode := {}
  tracker : VotingReplayTracker := {}
  tasks : List IngestTask := []

/-- The kinds only the engine itself publishes. -/
def engineKind (kind : PollEventKindCode) : Bool :=
  kind ∈ [.sortitionSelection, .sortitionFailed, .pollClose, .pollResult]

/-- What the commands build: no event of the engine, and no Tier-3 poll without its epoch. -/
def commandBuilds (cx : Codec) (event : SignedVotingEvent) : Bool :=
  !(event.tier = .sortition && engineKind event.kind) &&
    !(event.tier = .sortition && event.kind = .pollCreate &&
      !((cx.tier3Config event.payload).toOption.bind (·.ce)).isSome)

inductive EngineStep where
  /-- A packet, the membership of its time and what the resolver has for its actor. -/
  | receive (route : Route) (event : SignedVotingEvent) (receiverNowMs : Option ℕ)
      (snapshot : Option MembershipSnapshot) (identity : Option Bytes)
  /-- A command of the user. -/
  | publish (event : SignedVotingEvent) (snapshot : Option MembershipSnapshot)
  /-- `on_dfrost_beacon`. -/
  | beacon (messageHash vrfOutput : Digest) (nowMs : ℕ)
  /-- The three triggers of `maybe_trigger_engine_auto_orchestration`. -/
  | mintFailed (pid : PollId) (base : Hlc)
  | mintClose (pid : PollId) (base : Hlc) (receiverNowMs : Option ℕ)
  | mintResult (pid : PollId)
  /-- The next section of a task. -/
  | advance (task : ℕ) (beaconOracle : Option BeaconOracle) (receiverNowMs : Option ℕ)
  | pass (pass : TickPass) (nowMs : ℤ)
  /-- `void_tier3_polls_for_reset`. -/
  | reset (oldEpoch : ℕ) (resetId : EventId)
  /-- `maybe_install_committee_oracle_for_poll`. -/
  | installOracle (pid : PollId) (oracle : CommitteeOracle)

def EngineStep.resets : EngineStep → Option VoidedInfo
  | .reset oldEpoch resetId => some ⟨resetId, oldEpoch⟩
  | _ => none

def maxDeviceIdLen : ℕ := 64

namespace VotingLogEngine

variable (P : VotingLogEngineParams)

def setLog (engine : VotingLogEngine) (log : VotingLog) : VotingLogEngine :=
  { engine with node := { engine.node with log := log } }

def spawn (engine : VotingLogEngine) (task : IngestTask) : VotingLogEngine :=
  { engine with tasks := engine.tasks ++ [task] }

/-- The first gates of `process_inbound` and `apply_backfilled_event`, up to the signature. -/
def admitsPacket (engine : VotingLogEngine) (route : Route) (event : SignedVotingEvent)
    (receiverNowMs : Option ℕ) (snapshot : MembershipSnapshot) (identity : Option Bytes) : Bool :=
  event.hlc.deviceId.utf8ByteSize ≤ maxDeviceIdLen &&
    !receiverNowMs.any (fun now => now ≠ 0 && rejectFuture event.hlc.wallMs now maxForwardSkewMs) &&
    !(match route with
      | .live => engine.tracker.isInboundDuplicate event
      | .backfill => engine.tracker.seenCoord event) &&
    (verifyVotingEvent P.cx P.crypto event snapshot identity).isOk

def receive (engine : VotingLogEngine) (route : Route) (event : SignedVotingEvent)
    (receiverNowMs : Option ℕ) (snapshot : Option MembershipSnapshot) (identity : Option Bytes) :
    VotingLogEngine :=
  match snapshot with
  | none => engine
  | some snapshot =>
    if engine.admitsPacket P route event receiverNowMs snapshot identity then
      engine.spawn (.verified event snapshot)
    else engine

/-- The gate of `publish_event`. -/
def publish (engine : VotingLogEngine) (event : SignedVotingEvent)
    (snapshot : Option MembershipSnapshot) : VotingLogEngine :=
  if (engine.node.log.publishGate P.cx event).isOk then engine.spawn (.accepted event snapshot)
  else engine

/-- Every poll the beacon is for and that has no selection yet. -/
def awaitingBeacon (engine : VotingLogEngine) (messageHash : Digest) : List PollId :=
  engine.node.log.polls.keys.filter fun pid => (engine.node.log.tier3Of pid).any fun t3 =>
    t3.stage = .sortition && t3.sortitionResult.isNone &&
      deriveVrfSeed P.cx (t3.beaconSeed P.cx) t3.meta.communityEpoch = messageHash

/-- `publish_sortition_selection`; the event carries no signature. -/
def selectionEvent (pid : PollId) (t3 : Tier3PollState) (vrfOutput : Digest) (nowMs : ℕ) :
    Option SignedVotingEvent :=
  if t3.eligibleElectorateSnapshot.length < t3.meta.config.sortitionSize * 2 then none
  else (t3.drawSeats P.rng vrfOutput).map fun selection =>
    { tag := 'p', version := 1, tier := .sortition, kind := .sortitionSelection,
      hlc := ⟨nowMs, 0, "engine-" ++
        String.ofList (((beBytes 32 pid).take 4).flatMap (hexPad 2))⟩,
      actor := 0, payload := P.encoder.sortitionSelection pid selection,
      sig := List.replicate 64 0 }

def onBeacon (engine : VotingLogEngine) (messageHash vrfOutput : Digest) (nowMs : ℕ) :
    VotingLogEngine :=
  ((engine.awaitingBeacon P messageHash).filterMap fun pid =>
    (engine.node.log.tier3Of pid).bind fun t3 => selectionEvent P pid t3 vrfOutput nowMs).foldl
      (fun engine event => engine.spawn (.accepted event none)) engine

def mintFailed (engine : VotingLogEngine) (pid : PollId) (base : Hlc) : VotingLogEngine :=
  match engine.node.log.tier3Of pid with
  | none => engine
  | some t3 =>
    if t3.failsFor P.selfOwner then
      engine.spawn (.accepted (P.encoder.build .sortitionFailed
        (engineAutoHlcFromBase base pid "sf") P.selfOwner (P.encoder.pollRef pid)) none)
    else engine

def mintClose (engine : VotingLogEngine) (pid : PollId) (base : Hlc)
    (receiverNowMs : Option ℕ) : VotingLogEngine :=
  match engine.node.log.tier3Of pid with
  | none => engine
  | some t3 =>
    if t3.closesAt receiverNowMs then
      engine.spawn (.accepted (P.encoder.build .pollClose
        (engineAutoHlcFromBase base pid "cl") P.selfOwner (P.encoder.pollRef pid)) none)
    else engine

/-- `kd=rs`, also that of `try_finalize_secret_tally`. -/
def mintResult (engine : VotingLogEngine) (pid : PollId) : VotingLogEngine :=
  match engine.node.log.tier3Of pid with
  | none => engine
  | some t3 =>
    match t3.resultToMint P.cx P.cv, t3.maxReceivedHlc with
    | some result, some base => engine.spawn (.accepted (P.encoder.build .pollResult
        (engineAutoHlcFromBase base pid "rs") P.selfOwner (P.encoder.pollResult pid result)) none)
    | _, _ => engine

/-- What is left of a task after a section, if it goes on. -/
abbrev AfterSection := VotingLogEngine × Option IngestTask

/-- The claim is compared whether the result was remembered or not. -/
def compareClaim (event : SignedVotingEvent) (snapshot : MembershipSnapshot)
    (expected claimed : StarResult) : Option IngestTask :=
  if expected = claimed then some (.eligible event snapshot) else none

def checkEligible (engine : VotingLogEngine) (event : SignedVotingEvent)
    (snapshot : MembershipSnapshot) (beaconOracle : Option BeaconOracle)
    (receiverNowMs : Option ℕ) : Option IngestTask :=
  match engine.node.log.inboundEligibilityCheck P.cx event snapshot P.tier1Ballot P.rng
      P.communityId beaconOracle receiverNowMs with
  | .decided (.ok ()) => some (.eligible event snapshot)
  | .decided (.error _) => none
  | .recompute t3 key claimed => some (.copied event snapshot t3 key claimed)
  | .panicked => none

def lookUp (engine : VotingLogEngine) (event : SignedVotingEvent) (snapshot : MembershipSnapshot)
    (t3 : Tier3PollState) (key : PollId ×ₗ Digest) (claimed : StarResult) : Option IngestTask :=
  match engine.tracker.verifySrMemoGet key with
  | some expected => compareClaim event snapshot expected claimed
  | none =>
    match expectedResultFromState P.cx P.cv t3 with
    | .ok expected => some (.recomputed event snapshot key expected claimed)
    | .error _ => none

def apply (engine : VotingLogEngine) (event : SignedVotingEvent)
    (snapshot : Option MembershipSnapshot) (next : Option IngestTask) : AfterSection :=
  match engine.node.log.applyWithSnapshot P.cx P.cv event P.communityId snapshot with
  | (log, .ok _) => (engine.setLog log, next)
  | (log, .error _) => (engine.setLog log, none)

def runSection (engine : VotingLogEngine) (beaconOracle : Option BeaconOracle)
    (receiverNowMs : Option ℕ) : IngestTask → AfterSection
  | .verified event snapshot =>
    (engine, engine.checkEligible P event snapshot beaconOracle receiverNowMs)
  | .copied event snapshot t3 key claimed => (engine, engine.lookUp P event snapshot t3 key claimed)
  | .recomputed event snapshot key expected claimed =>
    ({ engine with tracker := engine.tracker.verifySrMemoInsert key expected },
      compareClaim event snapshot expected claimed)
  | .eligible event snapshot => engine.apply P event (some snapshot) (some (.applied event))
  | .applied event => ({ engine with tracker := engine.tracker.record event }, none)
  | .accepted event snapshot =>
    ({ engine with tracker := engine.tracker.record event }, some (.announced event snapshot))
  | .announced event snapshot => engine.apply P event snapshot none

/-- A task that ends leaves the list. -/
def advance (engine : VotingLogEngine) (i : ℕ) (beaconOracle : Option BeaconOracle)
    (receiverNowMs : Option ℕ) : VotingLogEngine :=
  match engine.tasks[i]? with
  | none => engine
  | some task =>
    match engine.runSection P beaconOracle receiverNowMs task with
    | (engine, some task) => { engine with tasks := engine.tasks.set i task }
    | (engine, none) => { engine with tasks := engine.tasks.eraseIdx i }

def step (engine : VotingLogEngine) : EngineStep → VotingLogEngine
  | .receive route event receiverNowMs snapshot identity =>
    engine.receive P route event receiverNowMs snapshot identity
  | .publish event snapshot =>
    if commandBuilds P.cx event then engine.publish P event snapshot else engine
  | .beacon messageHash vrfOutput nowMs => engine.onBeacon P messageHash vrfOutput nowMs
  | .mintFailed pid base => engine.mintFailed P pid base
  | .mintClose pid base receiverNowMs => engine.mintClose P pid base receiverNowMs
  | .mintResult pid => engine.mintResult P pid
  | .advance task beaconOracle receiverNowMs => engine.advance P task beaconOracle receiverNowMs
  | .pass pass nowMs => { engine with node := engine.node.pass P.cx P.tick nowMs pass }
  | .reset oldEpoch resetId =>
    engine.setLog (engine.node.log.voidTier3PollsForReset oldEpoch resetId).1
  | .installOracle pid oracle => engine.setLog (engine.node.log.installCommitteeOracle pid oracle)

/-- An engine that starts with an empty log. -/
def run (steps : List EngineStep) : VotingLogEngine := steps.foldl (step P) {}

end VotingLogEngine
end Harmony.Voting
