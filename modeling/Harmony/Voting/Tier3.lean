import Harmony.Lib.Sorted
import Harmony.Voting.Star

/-! The state machine of a Tier-3 poll: sortition, deliberation, drafting and
ratification, as one event after the other is applied to it. The group, the proofs
over it and the committee history are parameters. -/

namespace Harmony.Voting

open Harmony.Lib
open Harmony.Membership (OwnerAddr EventId Digest Bytes Hlc saturatingAdd)

/-! ### Group operations -/

/-- Ristretto points, the proofs of a ballot and of a share, and how shares decrypt. -/
structure Curve where
  Point : Type
  DleqProof : Type
  zero : Point
  basepoint : Point
  add : Point → Point → Point
  sub : Point → Point → Point
  compressPoint : Point → Digest
  decompressPoint : Digest → Option Point
  verifyBallotBundle : Point → List EncCiphertext → List EncCiphertext → BallotNizkProof → Bool
  dleqFromBytes : Bytes → Option DleqProof
  dleqVerify : Point → Point → Point → Point → DleqProof → Bool
  combineShares : Point → BTreeMap ℕ Point → Option Point
  bsgs : Point → ℕ → Option ℕ

structure CommitteePublicState where
  epoch : ℕ
  jointVerifyingKey : Digest
  verifyingShares : BTreeMap OwnerAddr Digest
  threshold : ℕ

structure CommitteeOracle where
  committeeAtEpoch : ℕ → Option CommitteePublicState
  latestEpoch : Option ℕ

/-- `NullCommitteeOracle` knows of no committee. -/
def nullCommitteeOracle : CommitteeOracle := ⟨fun _ => none, none⟩

/-! ### State -/

inductive Stage where
  | sortition
  | deliberation
  | drafting
  | ratification
  | finalized
  | failed
deriving DecidableEq

structure VoidedInfo where
  resetId : EventId
  oldEpoch : ℕ
deriving DecidableEq

structure SortitionResult where
  primary : List OwnerAddr
  backup : List OwnerAddr
deriving DecidableEq

/-- `proposer` is absent for the status quo. -/
structure DraftCandidateState where
  eventHash : Digest
  text : String
  proposer : Option OwnerAddr
  approvals : Finset OwnerAddr
deriving DecidableEq

structure DeliberationStatement where
  eventHash : Digest
  author : OwnerAddr
  text : String
  createdAtHlc : Hlc
deriving DecidableEq

inductive BridgingVoteCode where
  | agree
  | disagree
  | pass
deriving DecidableEq

def BridgingVoteCode.fromU8 : ℕ → Option BridgingVoteCode
  | 0 => some .agree
  | 1 => some .disagree
  | 2 => some .pass
  | _ => none

structure DeliberationVoteEntry where
  voter : OwnerAddr
  statementEventHash : Digest
  vote : BridgingVoteCode
  lastUpdateHlc : Hlc
  lastUpdateEventHash : Digest
deriving DecidableEq

structure DeliberationState where
  statements : BTreeMap Digest DeliberationStatement := ∅
  votes : BTreeMap (OwnerAddr ×ₗ Digest) DeliberationVoteEntry := ∅
  statementsPerAuthor : BTreeMap OwnerAddr ℕ := ∅

structure Tier3PollMeta where
  pollId : PollId
  proposer : OwnerAddr
  pollCreateHlc : Hlc
  config : Tier3PollConfigPayload
  pollCreateEventHash : Digest
  communityEpoch : ℕ
deriving DecidableEq

structure TallyShareRecord where
  entries : List TallyShareEntry
  lastUpdateHlc : Hlc
  lastUpdateEventHash : Digest
deriving DecidableEq

/-- `tallyShares` is the only part of the secret tally that events write. -/
structure Tier3PollState where
  «meta» : Tier3PollMeta
  stage : Stage
  eligibleElectorateSnapshot : List OwnerAddr
  sortitionResult : Option SortitionResult
  declines : List (OwnerAddr × Hlc)
  candidates : List DraftCandidateState
  ratificationBallots : List RatificationBallotPayload
  declinesPerActor : BTreeMap OwnerAddr ℕ
  candidatesPerActor : BTreeMap OwnerAddr ℕ
  ballotsPerActor : BTreeMap OwnerAddr ℕ
  closeEventHash : Option Digest
  result : Option StarResult
  deliberation : DeliberationState
  lastHlc : Option Hlc
  lastReceivedHlc : BTreeMap (OwnerAddr ×ₗ String) (ℕ ×ₗ ℕ)
  maxApplied : Option HlcKey
  rebuildCount : ℕ
  tallyShares : BTreeMap (OwnerAddr ×ₗ ℕ) TallyShareRecord
  committeeOracle : CommitteeOracle
  rbNizkVerdicts : BTreeMap (Digest ×ₗ ℕ) Bool
  voided : Option VoidedInfo

inductive Tier3ApplyError where
  | pollInFailedState
  | pollInFinalizedState
  | pollVoided
  | payloadDecode (reason : String)
  | invalidKindForTier3 (kind : PollEventKindCode)
  | hlcNotMonotonic
deriving DecidableEq

inductive ApplyOutcome where
  | applied
  | dropped
deriving DecidableEq

/-! ### Poll configuration -/

inductive ValidateError where
  | emptyProposalText
  | sortitionSizeOutOfRange (size : ℕ)
  | deliberationWindowTooSmall (seconds : ℕ)
  | draftingWindowTooSmall (seconds : ℕ)
  | ratificationWindowTooSmall (seconds : ℕ)
  | unknownPrivacyMode (mode : String)
  | unknownIncentiveMode (mode : String)
deriving DecidableEq

def validateTier3PollConfig (pd : Tier3PollConfigPayload) : Except ValidateError Unit :=
  if pd.proposalText.isEmpty then .error .emptyProposalText
  else if ¬(20 ≤ pd.sortitionSize ∧ pd.sortitionSize ≤ 300) then
    .error (.sortitionSizeOutOfRange pd.sortitionSize)
  else if pd.deliberationWindowSeconds < 60 then
    .error (.deliberationWindowTooSmall pd.deliberationWindowSeconds)
  else if pd.draftingWindowSeconds < 60 then
    .error (.draftingWindowTooSmall pd.draftingWindowSeconds)
  else if pd.ratificationWindowSeconds < 60 then
    .error (.ratificationWindowTooSmall pd.ratificationWindowSeconds)
  else if pd.privacyMode ∉ ["pu", "se"] then .error (.unknownPrivacyMode pd.privacyMode)
  else if pd.incentiveMode ∉ ["a", "b", "c", "d"] then
    .error (.unknownIncentiveMode pd.incentiveMode)
  else .ok ()

/-! ### Drafting -/

def maxRatificationCandidates : ℕ := 5

/-- `event_hash = SHA-256(poll_id || "status_quo")`. -/
def synthesizeStatusQuo (cx : Codec) (pollId : PollId) : DraftCandidateState where
  eventHash := cx.sha256 (beBytes 32 pollId ++ "status_quo".toUTF8.toList.map UInt8.toNat)
  text := "<status quo>"
  proposer := none
  approvals := ∅

/-- More approvals first, ties by the smaller event hash. -/
def approvalOrder (a b : CandidateRef) : Prop :=
  b.approvalCount < a.approvalCount ∨
    (a.approvalCount = b.approvalCount ∧ a.eventHash ≤ b.eventHash)

instance : DecidableRel approvalOrder := fun a b => by unfold approvalOrder; infer_instance

def DraftCandidateState.toRef (c : DraftCandidateState) : CandidateRef :=
  ⟨c.eventHash, c.approvals.card⟩

/-- The candidates that at least half of the mini-public approved, best first, and the
status quo behind them. -/
def draftingAdvancers (candidates : List DraftCandidateState) (miniPublicSize : ℕ)
    (statusQuoHash : Digest) : Option (List CandidateRef) :=
  let threshold := (miniPublicSize + 1) / 2
  let passers := candidates.filter fun c =>
    c.eventHash ≠ statusQuoHash ∧ threshold ≤ c.approvals.card
  let advancers := ((passers.map DraftCandidateState.toRef).insertionSort approvalOrder).take
    (maxRatificationCandidates - 1)
  (candidates.find? (·.eventHash = statusQuoHash)).map fun sq => advancers ++ [sq.toRef]

def ratificationCandidatesOrdering (advancers : List CandidateRef) : List CandidateRef :=
  advancers.insertionSort approvalOrder

/-- Every reader of the ordering adds the status quo to the candidates first. -/
def ratificationOrdering (cx : Codec) (s : Tier3PollState) : Option (List CandidateRef) :=
  let sq := synthesizeStatusQuo cx s.meta.pollId
  (draftingAdvancers (s.candidates ++ [sq]) s.meta.config.sortitionSize sq.eventHash).map
    ratificationCandidatesOrdering

/-! ### Tally -/

def pairCount (n : ℕ) : ℕ := n * (n - 1) / 2

def addCiphertexts (cv : Curve) (sums : List (cv.Point × cv.Point)) (cts : List EncCiphertext) :
    Option (List (cv.Point × cv.Point)) :=
  (sums.zip cts).mapM fun (sum, ct) => do
    some (cv.add sum.1 (← cv.decompressPoint ct.c1), cv.add sum.2 (← cv.decompressPoint ct.c2))

def aggregateStep (cv : Curve) (n : ℕ)
    (sums : List (cv.Point × cv.Point) × List (cv.Point × cv.Point))
    (b : RatificationBallotPayload) :
    Option (List (cv.Point × cv.Point) × List (cv.Point × cv.Point)) := do
  let cs ← b.ciphertextsScores
  let ci ← b.ciphertextsIndicators
  if cs.length ≠ n ∨ ci.length ≠ pairCount n then none
  else some (← addCiphertexts cv sums.1 cs, ← addCiphertexts cv sums.2 ci)

def aggregateSeBallots (cv : Curve) (ballots : List RatificationBallotPayload) (n : ℕ) :
    Option (List EncCiphertext) :=
  if ballots.isEmpty then none
  else do
    let zero := (cv.zero, cv.zero)
    let (score, ind) ← ballots.foldlM (aggregateStep cv n)
      (List.replicate n zero, List.replicate (pairCount n) zero)
    some ((score ++ ind).map fun p => ⟨cv.compressPoint p.1, cv.compressPoint p.2⟩)

/-- The pass-through the source ships. -/
def lwwDedupSeBallots (ballots : List RatificationBallotPayload) :
    List RatificationBallotPayload := ballots

def sharesAt (s : Tier3PollState) (epoch : ℕ) : List (OwnerAddr × List TallyShareEntry) :=
  (s.tallyShares.toList.filter fun p => (ofLex p.1).2 = epoch).map fun p =>
    ((ofLex p.1).1, p.2.entries)

/-- One aggregate decrypted by the selected shares; `total` is the number of aggregates. -/
def decryptAggregate (cv : Curve) (cs : CommitteePublicState)
    (selected : List (OwnerAddr × List TallyShareEntry)) (total bound idx : ℕ)
    (aggregate : EncCiphertext) : Option ℕ := do
  let c1 ← cv.decompressPoint aggregate.c1
  let c2 ← cv.decompressPoint aggregate.c2
  let shares ← selected.mapM fun (addr, entries) => do
    let i ← cs.verifyingShares.keys.idxOf? addr
    if entries.length ≠ total then none
    else
      let entry ← entries[idx]?
      some ((i + 1) % 2 ^ 16, ← cv.decompressPoint entry.share)
  let d ← cv.combineShares c1 (shares.foldl (fun m p => m.insert p.1 p.2) ∅)
  cv.bsgs (cv.sub c2 d) bound

/-- What one epoch's shares recover from the ballots. -/
def recoverAtEpoch (cv : Curve) (s : Tier3PollState) (ordered : List CandidateRef)
    (ballots : List RatificationBallotPayload) (epoch : ℕ) : Option StarResult := do
  let n := ordered.length
  let total := n + pairCount n
  let cs ← s.committeeOracle.committeeAtEpoch epoch
  let shares := sharesAt s epoch
  if shares.length < cs.threshold then none
  else
    let aggregates ← aggregateSeBallots cv ballots n
    if aggregates.length ≠ total then none
    else
      let electorate := s.eligibleElectorateSnapshot.length
      let sums ← aggregates.zipIdx.mapM fun (aggregate, idx) =>
        decryptAggregate cv cs (shares.take cs.threshold) total
          (if idx < n then min (electorate * 5) (2 ^ 64 - 1) else electorate) idx aggregate
      some (computeStarFromSums ordered (sums.take n) (sums.drop n) ballots.length)

/-- Epochs are tried newest first. -/
def recoverSecretTally (cv : Curve) (s : Tier3PollState) (ordered : List CandidateRef) :
    Option StarResult :=
  if ordered.isEmpty then none
  else
    let epochs := (s.tallyShares.keys.map fun k => (ofLex k).2).dedup.insertionSort (· ≥ ·)
    epochs.findSome? (recoverAtEpoch cv s ordered (lwwDedupSeBallots s.ratificationBallots))

def recomputeExpectedResult (cv : Curve) (s : Tier3PollState) (ordered : List CandidateRef) :
    Option StarResult :=
  if s.meta.config.privacyMode = "se" then recoverSecretTally cv s ordered
  else some (tallyStar ordered s.ratificationBallots)

inductive ExpectedResultError where
  | statusQuoNotSynthesized
  | tallySharesNotReady
deriving DecidableEq

def expectedResultFromState (cx : Codec) (cv : Curve) (s : Tier3PollState) :
    Except ExpectedResultError StarResult :=
  match ratificationOrdering cx s with
  | none => .error .statusQuoNotSynthesized
  | some ordered =>
    match recomputeExpectedResult cv s ordered with
    | none => .error .tallySharesNotReady
    | some result => .ok result

end Harmony.Voting
