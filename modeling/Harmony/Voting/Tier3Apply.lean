import Harmony.Voting.Tier3

/-! `Tier3PollState::apply_event`: guards, one handler per event kind and the common
tail, and the replay of a poll from its recorded events. A handler returns the new
state and whether the event counts as applied. -/

namespace Harmony.Voting

open Harmony.Lib
open Harmony.Membership (OwnerAddr EventId Digest Bytes Hlc saturatingAdd)

def maxDeclinesPerActor : ℕ := 2

def maxDraftCandidatesPerActor : ℕ := 5

def maxRatificationBallotsPerActor : ℕ := 2

def maxStatementsPerAuthor : ℕ := 5

def countOf (counts : BTreeMap OwnerAddr ℕ) (actor : OwnerAddr) : ℕ := counts[actor]?.getD 0

def bumpCount (counts : BTreeMap OwnerAddr ℕ) (actor : OwnerAddr) : BTreeMap OwnerAddr ℕ :=
  counts.insert actor (countOf counts actor + 1)

/-- `char::is_whitespace`. -/
def isWhitespace (c : Char) : Bool :=
  let n := c.toNat
  (9 ≤ n && n ≤ 13) || (0x2000 ≤ n && n ≤ 0x200A) ||
    [0x20, 0x85, 0xA0, 0x1680, 0x2028, 0x2029, 0x202F, 0x205F, 0x3000].contains n

namespace SignedVotingEvent

def lane (ev : SignedVotingEvent) : OwnerAddr ×ₗ String := toLex (ev.actor, ev.hlc.deviceId)

/-- `(wall_ms, logical)`. -/
def ordinal (ev : SignedVotingEvent) : ℕ ×ₗ ℕ := toLex (ev.hlc.wallMs, ev.hlc.logical)

def key (ev : SignedVotingEvent) : HlcKey := hlcKey ev.hlc

end SignedVotingEvent

namespace Tier3PollState

def newFromCreate («meta» : Tier3PollMeta) (electorate : List OwnerAddr) : Tier3PollState where
  «meta» := «meta»
  stage := .sortition
  eligibleElectorateSnapshot := electorate
  sortitionResult := none
  declines := []
  candidates := []
  ratificationBallots := []
  declinesPerActor := ∅
  candidatesPerActor := ∅
  ballotsPerActor := ∅
  closeEventHash := none
  result := none
  deliberation := {}
  lastHlc := none
  lastReceivedHlc := ∅
  maxApplied := none
  rebuildCount := 0
  tallyShares := ∅
  committeeOracle := nullCommitteeOracle
  rbNizkVerdicts := ∅
  voided := none

def Terminal (s : Tier3PollState) : Prop := s.stage = .failed ∨ s.stage = .finalized

instance (s : Tier3PollState) : Decidable s.Terminal := by unfold Terminal; infer_instance

def currentStageAt (s : Tier3PollState) (now : Hlc) : Stage :=
  if s.stage = .failed then .failed
  else if s.stage = .finalized then .finalized
  else if s.sortitionResult.isNone then .sortition
  else
    let stage2 := saturatingAdd s.meta.pollCreateHlc.wallMs
      (s.meta.config.deliberationWindowSeconds * 1000)
    let stage3 := saturatingAdd stage2 (s.meta.config.draftingWindowSeconds * 1000)
    if now.wallMs < stage2 then .deliberation
    else if now.wallMs < stage3 then .drafting
    else .ratification

def declinedAt (s : Tier3PollState) (now : Hlc) : Finset OwnerAddr :=
  ((s.declines.filter fun d => hlcKey d.2 ≤ hlcKey now).map Prod.fst).toFinset

/-- The first members of `primary || backup` that did not decline, as many as `primary` has. -/
def currentMiniPublic (s : Tier3PollState) (now : Hlc) : Finset OwnerAddr :=
  match s.sortitionResult with
  | none => ∅
  | some sr => (sr.primary ++ sr.backup).foldl (fun set member =>
      if sr.primary.length ≤ set.card then set
      else if member ∈ s.declinedAt now then set
      else insert member set) ∅

/-- Terminal stage, voided poll, or a lane that would run backwards. -/
def guard (s : Tier3PollState) (ev : SignedVotingEvent) : Option Tier3ApplyError :=
  if s.stage = .failed then some .pollInFailedState
  else if s.stage = .finalized then some .pollInFinalizedState
  else if s.voided.isSome then some .pollVoided
  else if s.lastReceivedHlc[ev.lane]?.any (ev.ordinal < ·) then some .hlcNotMonotonic
  else none

/-- What a handler returns: the state, and `advance_last_hlc`. -/
abbrev Handled := Except Tier3ApplyError (Tier3PollState × Bool)

def decode {α : Type} : Except String α → Except Tier3ApplyError α
  | .ok payload => .ok payload
  | .error reason => .error (.payloadDecode reason)

variable (cx : Codec) (cv : Curve)

/-! ### Handlers -/

def applySortitionSelection (s : Tier3PollState) (ev : SignedVotingEvent) : Handled := do
  let payload ← decode (cx.sortitionSelection ev.payload)
  pure ({ s with sortitionResult := some ⟨payload.primary, payload.backup⟩ }, true)

def applyMiniPublicDecline (s : Tier3PollState) (ev : SignedVotingEvent) : Handled := do
  let _ ← decode (cx.miniPublicDecline ev.payload)
  if maxDeclinesPerActor ≤ countOf s.declinesPerActor ev.actor then pure (s, false)
  else pure ({ s with
    declines := s.declines ++ [(ev.actor, ev.hlc)]
    declinesPerActor := bumpCount s.declinesPerActor ev.actor }, true)

/-- Deliberation is open to the actor at the event's time. -/
def mayDeliberate (s : Tier3PollState) (ev : SignedVotingEvent) : Bool :=
  s.currentStageAt ev.hlc = .deliberation ∧ ev.actor ∈ s.currentMiniPublic ev.hlc

/-- At most 280 characters, not all of them white space. -/
def textOk (text : String) : Bool := text.length ≤ 280 && !text.toList.all isWhitespace

/-- The per-author counter moves only when the statement was not there yet. -/
def insertStatement (d : DeliberationState) (hash : Digest) (statement : DeliberationStatement) :
    DeliberationState :=
  { d with
    statements := d.statements.insert hash statement
    statementsPerAuthor :=
      if d.statements[hash]?.isNone then bumpCount d.statementsPerAuthor statement.author
      else d.statementsPerAuthor }

def applyDeliberationStatement (s : Tier3PollState) (ev : SignedVotingEvent) : Handled := do
  let payload ← decode (cx.deliberationStatement ev.payload)
  if ¬s.mayDeliberate ev then pure (s, false)
  else if ¬textOk payload.text then pure (s, false)
  else if maxStatementsPerAuthor ≤ countOf s.deliberation.statementsPerAuthor ev.actor then
    pure (s, false)
  else
    let hash := sha256OfSigningBytes cx ev
    pure ({ s with deliberation :=
      insertStatement s.deliberation hash ⟨hash, ev.actor, payload.text, ev.hlc⟩ }, true)

/-- The stamp votes and tally shares are compared by. -/
def stamp (hlc : Hlc) (hash : Digest) : HlcKey ×ₗ Digest := toLex (hlcKey hlc, hash)

def applyDeliberationVote (s : Tier3PollState) (ev : SignedVotingEvent) : Handled := do
  let payload ← decode (cx.deliberationVote ev.payload)
  if ¬s.mayDeliberate ev then pure (s, false)
  else
    match s.deliberation.statements[payload.statementEventHash]? with
    | none => pure (s, false)
    | some target =>
      if target.author = ev.actor then pure (s, false)
      else
        match BridgingVoteCode.fromU8 payload.vote with
        | none => pure (s, false)
        | some code =>
          let hash := sha256OfSigningBytes cx ev
          let key : OwnerAddr ×ₗ Digest := toLex (ev.actor, payload.statementEventHash)
          if s.deliberation.votes[key]?.all fun old =>
              stamp old.lastUpdateHlc old.lastUpdateEventHash < stamp ev.hlc hash then
            pure ({ s with deliberation := { s.deliberation with
              votes := s.deliberation.votes.insert key
                ⟨ev.actor, payload.statementEventHash, code, ev.hlc, hash⟩ } }, true)
          else pure (s, false)

def applyDraftCandidate (s : Tier3PollState) (ev : SignedVotingEvent) : Handled := do
  let payload ← decode (cx.draftCandidate ev.payload)
  if maxDraftCandidatesPerActor ≤ countOf s.candidatesPerActor ev.actor then pure (s, false)
  else pure ({ s with
    candidates := s.candidates ++
      [⟨sha256OfSigningBytes cx ev, payload.text, some ev.actor, {ev.actor}⟩]
    candidatesPerActor := bumpCount s.candidatesPerActor ev.actor }, true)

/-- Adds the actor to the approvals of the first candidate with this hash. -/
def approveFirst (hash : Digest) (actor : OwnerAddr) :
    List DraftCandidateState → List DraftCandidateState
  | [] => []
  | c :: cs =>
    if c.eventHash = hash then { c with approvals := insert actor c.approvals } :: cs
    else c :: approveFirst hash actor cs

def applyDraftApproval (s : Tier3PollState) (ev : SignedVotingEvent) : Handled := do
  let payload ← decode (cx.draftApproval ev.payload)
  if s.candidates.any (·.eventHash = payload.candidateEventHash) then
    pure ({ s with
      candidates := approveFirst payload.candidateEventHash ev.actor s.candidates }, true)
  else pure (s, false)

def applySortitionFailed (s : Tier3PollState) (ev : SignedVotingEvent) : Handled := do
  let _ ← decode (cx.sortitionFailed ev.payload)
  pure ({ s with stage := .failed }, true)

def ballotSize (s : Tier3PollState) : ℕ := (ratificationOrdering cx s).elim 0 List.length

/-- The encoding fits the privacy mode and the number of candidates; a range proof takes
384 bytes and a consistency proof 832. -/
def ballotShapeOk (mode : String) (n : ℕ) (payload : RatificationBallotPayload) : Bool :=
  if mode = "pu" then
    payload.scores.isSome && payload.ciphertextsScores.isNone &&
      payload.ciphertextsIndicators.isNone && payload.proof.isNone
  else if mode = "se" then
    payload.scores.isNone &&
      payload.ciphertextsScores.any (·.length = n) &&
      payload.ciphertextsIndicators.any (·.length = pairCount n) &&
      payload.proof.any fun p =>
        p.rangeProofs.length = 384 * n ∧ p.consistencyProofs.length = 832 * pairCount n
  else false

def bundleVerifies (cs : CommitteePublicState) (payload : RatificationBallotPayload) : Bool :=
  match cv.decompressPoint cs.jointVerifyingKey, payload.proof with
  | some y, some proof => cv.verifyBallotBundle y (payload.ciphertextsScores.getD [])
      (payload.ciphertextsIndicators.getD []) proof
  | _, _ => false

/-- The proof of a secret ballot, from the cache where it has a verdict. -/
def nizkOk (s : Tier3PollState) (hash : Digest) (payload : RatificationBallotPayload) : Bool :=
  match s.committeeOracle.latestEpoch with
  | none => false
  | some epoch =>
    match s.committeeOracle.committeeAtEpoch epoch with
    | none => false
    | some cs => s.rbNizkVerdicts[(toLex (hash, epoch) : Digest ×ₗ ℕ)]?.getD
        (bundleVerifies cv cs payload)

/-- The ballot is well formed for this poll. -/
def ballotOk (s : Tier3PollState) (hash : Digest) (payload : RatificationBallotPayload) : Bool :=
  ballotShapeOk s.meta.config.privacyMode (s.ballotSize cx) payload &&
    (s.meta.config.privacyMode ≠ "se" || s.nizkOk cv hash payload)

/-- Only the verdict of an accepted secret ballot is remembered. -/
def rememberVerdict (s : Tier3PollState) (hash : Digest) : BTreeMap (Digest ×ₗ ℕ) Bool :=
  if s.meta.config.privacyMode = "se" then
    s.committeeOracle.latestEpoch.elim s.rbNizkVerdicts fun epoch =>
      s.rbNizkVerdicts.insert (toLex (hash, epoch)) true
  else s.rbNizkVerdicts

def applyRatificationBallot (s : Tier3PollState) (ev : SignedVotingEvent) : Handled := do
  let payload ← decode (cx.ratificationBallot ev.payload)
  let hash := sha256OfSigningBytes cx ev
  -- without an ordering the ballot is not counted as applied
  let advance := (ratificationOrdering cx s).isSome
  if ¬s.ballotOk cx cv hash payload then pure (s, false)
  else if maxRatificationBallotsPerActor ≤ countOf s.ballotsPerActor ev.actor then pure (s, false)
  else pure ({ s with
    ratificationBallots := s.ratificationBallots ++ [payload]
    ballotsPerActor := bumpCount s.ballotsPerActor ev.actor
    rbNizkVerdicts := s.rememberVerdict hash }, advance)

/-- `ratification_end_ms`; the addition wraps. -/
def ratificationEndMs (s : Tier3PollState) : ℕ :=
  (s.meta.pollCreateHlc.wallMs + (s.meta.config.deliberationWindowSeconds +
    s.meta.config.draftingWindowSeconds + s.meta.config.ratificationWindowSeconds) * 1000) % 2 ^ 64

/-- Every entry proves its share against the member's key and the ballots' aggregate. -/
def sharesVerify (s : Tier3PollState) (key : Digest) (entries : List TallyShareEntry) (n : ℕ) :
    Bool :=
  match cv.decompressPoint key, aggregateSeBallots cv s.ratificationBallots n with
  | some y, some aggregates => (entries.zip aggregates).all fun (entry, aggregate) =>
      match cv.decompressPoint aggregate.c1, cv.decompressPoint entry.share,
          cv.dleqFromBytes entry.dleqProof with
      | some c1, some d, some proof => cv.dleqVerify cv.basepoint y c1 d proof
      | _, _, _ => false
  | _, _ => false

def tallyShareOk (s : Tier3PollState) (ev : SignedVotingEvent) (payload : TallySharePayload) :
    Bool :=
  let n := s.ballotSize cx
  s.meta.config.privacyMode = "se" && s.ratificationEndMs ≤ ev.hlc.wallMs &&
    payload.entries.length = n + pairCount n &&
    (s.committeeOracle.committeeAtEpoch payload.committeeEpoch).any fun cs =>
      cs.verifyingShares[ev.actor]?.any fun key => s.sharesVerify cv key payload.entries n

def applyTallyShare (s : Tier3PollState) (ev : SignedVotingEvent) : Handled := do
  let payload ← decode (cx.tallyShare ev.payload)
  let hash := sha256OfSigningBytes cx ev
  let key : OwnerAddr ×ₗ ℕ := toLex (ev.actor, payload.committeeEpoch)
  let fresh := s.tallyShares[key]?.all fun old =>
    stamp old.lastUpdateHlc old.lastUpdateEventHash < stamp ev.hlc hash
  if s.tallyShareOk cx cv ev payload && fresh then
    pure ({ s with tallyShares := s.tallyShares.insert key ⟨payload.entries, ev.hlc, hash⟩ },
      (ratificationOrdering cx s).isSome)
  else pure (s, false)

/-- The first close wins. -/
def applyPollClose (s : Tier3PollState) (ev : SignedVotingEvent) : Handled :=
  pure ({ s with
    closeEventHash := some (s.closeEventHash.getD (sha256OfSigningBytes cx ev)) }, true)

/-- A public poll stores its own tally, a secret one the claimed result. -/
def applyPollResult (s : Tier3PollState) (ev : SignedVotingEvent) : Handled := do
  let payload ← decode (cx.tier3PollResult ev.payload)
  let result :=
    if s.meta.config.privacyMode = "pu" then
      match expectedResultFromState cx cv s with
      | .ok result => result
      | .error _ => payload.result
    else payload.result
  pure ({ s with result := some result, stage := .finalized }, true)

def dispatch (s : Tier3PollState) (ev : SignedVotingEvent) : Handled :=
  match ev.kind with
  | .sortitionSelection => s.applySortitionSelection cx ev
  | .miniPublicDecline => s.applyMiniPublicDecline cx ev
  | .deliberationStatement => s.applyDeliberationStatement cx ev
  | .deliberationVote => s.applyDeliberationVote cx ev
  | .draftCandidate => s.applyDraftCandidate cx ev
  | .draftApproval => s.applyDraftApproval cx ev
  | .sortitionFailed => s.applySortitionFailed cx ev
  | .ratificationBallot => s.applyRatificationBallot cx cv ev
  | .tallyShare => s.applyTallyShare cx cv ev
  | .pollClose => s.applyPollClose cx ev
  | .pollResult => s.applyPollResult cx cv ev
  | kind => .error (.invalidKindForTier3 kind)

/-- The tail: the lane and the watermark of received events rise on every event that is
not rejected, the watermark of applied ones only if it was applied. -/
def finish (s : Tier3PollState) (ev : SignedVotingEvent) (advance : Bool) : Tier3PollState :=
  { s with
    lastReceivedHlc := s.lastReceivedHlc.insert ev.lane
      (s.lastReceivedHlc[ev.lane]?.elim ev.ordinal (max ev.ordinal))
    maxApplied := some (s.maxApplied.elim ev.key (max ev.key))
    lastHlc := if advance then some ev.hlc else s.lastHlc }

def applyEvent (s : Tier3PollState) (ev : SignedVotingEvent) :
    Tier3PollState × Except Tier3ApplyError ApplyOutcome :=
  match s.guard ev with
  | some err => (s, .error err)
  | none =>
    match s.dispatch cx cv ev with
    | .error err => (s, .error err)
    | .ok (s', advance) =>
      (s'.finish ev advance, .ok (if advance then .applied else .dropped))

/-! ### Replay -/

/-- What a rebuild starts from: everything that events write is cleared. -/
def reset (s : Tier3PollState) : Tier3PollState :=
  { newFromCreate s.meta s.eligibleElectorateSnapshot with
    committeeOracle := s.committeeOracle
    rebuildCount := s.rebuildCount + 1
    rbNizkVerdicts := s.rbNizkVerdicts
    voided := s.voided }

/-- Errors are ignored. -/
def replay (s : Tier3PollState) (events : List SignedVotingEvent) : Tier3PollState :=
  events.foldl (fun s ev => (s.applyEvent cx cv ev).1) s

def rebuildFromEvents (s : Tier3PollState) (events : List SignedVotingEvent) : Tier3PollState :=
  s.reset.replay cx cv (sortBy (canonicalKey cx) events)

end Tier3PollState
end Harmony.Voting
