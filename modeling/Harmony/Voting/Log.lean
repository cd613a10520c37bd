import Harmony.Lib.Checks
import Harmony.Voting.Proposal
import Harmony.Voting.Tier3Apply

/-! The voting log of a community: every accepted event in arrival order and the
polls materialized from them, as `apply_with_snapshot` and the archive sweep leave
them. -/

namespace Harmony.Voting

open Harmony.Lib
open Harmony.Membership (OwnerAddr SpaceId ChannelId Digest Bytes Hlc)

inductive ApplyError where
  | signingBytesError
  | missingPollIdRef
  | illegalTransition
  | eventBeforePollCreate
  | payloadDecode
  | payloadValidate
  | wrongTierForEvent
  | delegationRejected
  | invalidKindForTier3
  | retryOfPollNotFound
  | retryOfPollNotFailed
  | wrongTierStateForTier3Event
  | retryOfPollNotTier3
  | pollVoided
deriving DecidableEq

/-! ### Tier-1 configuration -/

inductive Tier1ValidationError where
  | tooFewOptions
  | tooManyOptions
  | emptyOptionLabel (index : ℕ)
  | optionLabelTooLong (index : ℕ)
  | windowTooShort
  | windowTooLong
  | thresholdOutOfRange
  | multiWinnerZero
  | multiWinnerExceedsOptions
deriving DecidableEq

/-- The first label that is empty or longer than 80 characters. -/
def validateLabels : ℕ → List String → Except Tier1ValidationError Unit
  | _, [] => .ok ()
  | i, label :: labels =>
    if label.isEmpty then .error (.emptyOptionLabel i)
    else if 80 < label.length then .error (.optionLabelTooLong i)
    else validateLabels (i + 1) labels

def validatePollConfig (cfg : Tier1PollConfig) : Except Tier1ValidationError Unit :=
  if cfg.options.length < 2 then .error .tooFewOptions
  else if 20 < cfg.options.length then .error .tooManyOptions
  else do
    validateLabels 0 cfg.options
    if cfg.windowSeconds < 60 then .error .windowTooShort
    else if 2592000 < cfg.windowSeconds then .error .windowTooLong
    else if cfg.thresholdPercent.any (100 < ·) then .error .thresholdOutOfRange
    else if cfg.multiWinner = some 0 then .error .multiWinnerZero
    else if cfg.multiWinner.any (cfg.options.length < ·) then .error .multiWinnerExceedsOptions
    else .ok ()

structure Tier1TallyState where
  counts : List ℕ
  ballotCount : ℕ
deriving DecidableEq

def Tier1TallyState.empty (optionsLen : ℕ) : Tier1TallyState := ⟨List.replicate optionsLen 0, 0⟩

/-! ### State -/

inductive TierState where
  | tier1 (tally : Tier1TallyState)
  | tier2 (proposal : Tier2ProposalState)
  | tier3 (poll : Tier3PollState)

structure PollState where
  «meta» : PollMeta
  events : List SignedVotingEvent
  tierState : TierState
  tier1Cfg : Option Tier1PollConfig
  tier1Snapshot : Option MembershipSnapshot

structure VotingLog where
  events : List SignedVotingEvent := []
  polls : BTreeMap PollId PollState := ∅
  delegationGraph : DelegationGraph := {}
  retiredEpochWatermark : Option VoidedInfo := none

namespace PollState

def push (p : PollState) (event : SignedVotingEvent) : PollState :=
  { p with events := p.events ++ [event] }

def setLifecycle (p : PollState) (lifecycle : Lifecycle) : PollState :=
  { p with «meta» := { p.meta with lifecycle := lifecycle } }

@[simp] theorem setLifecycle_events (p : PollState) (l : Lifecycle) :
    (p.setLifecycle l).events = p.events := rfl

@[simp] theorem push_events (p : PollState) (event : SignedVotingEvent) :
    (p.push event).events = p.events ++ [event] := rfl

/-- The terminal stage of a Tier-3 poll, mirrored in its lifecycle. -/
def syncLifecycleFromStage (p : PollState) : PollState :=
  match p.tierState with
  | .tier3 t3 =>
    match t3.stage with
    | .finalized => { p with «meta» := { p.meta with
        lifecycle := .finalized
        finalizedAtMs := t3.lastHlc.elim p.meta.finalizedAtMs fun h => some h.wallMs } }
    | .failed => p.setLifecycle .closed
    | _ => p
  | _ => p

/-- A Tier-3 poll folded anew from its recorded events. -/
def rebuild (cx : Codec) (cv : Curve) (p : PollState) : PollState :=
  match p.tierState with
  | .tier3 t3 => syncLifecycleFromStage
      { p with tierState := .tier3 (t3.rebuildFromEvents cx cv p.events) }
  | _ => p.syncLifecycleFromStage

/-- The least key of a recorded PollResult. -/
def finalizeKey (p : PollState) : Option HlcKey :=
  ((p.events.filter (·.kind = .pollResult)).map (·.key)).min?

end PollState

namespace VotingLog

/-- An accepted event goes to the poll and to the log. -/
def record (log : VotingLog) (pid : PollId) (p : PollState) (event : SignedVotingEvent) :
    VotingLog :=
  { log with polls := log.polls.insert pid p, events := log.events ++ [event] }

variable (cx : Codec) (cv : Curve)

/-! ### Apply -/

/-- The poll an event is about; delegations carry the zero id. -/
def pollIdOf (communityId : SpaceId) (event : SignedVotingEvent) : Except ApplyError PollId :=
  match event.kind with
  | .pollCreate =>
    match cx.signingBytes event.toSigInput with
    | .ok bytes => .ok (derivePollId cx communityId bytes)
    | .error _ => .error .signingBytesError
  | .signal =>
    match cx.signal event.payload with
    | .ok payload => .ok payload.proposalId
    | .error _ => .error .payloadDecode
  | .delegate => .ok 0
  | .undelegate => .ok 0
  | _ => (cx.pollIdRef event.payload).elim (.error .missingPollIdRef) .ok

def applySignal (log : VotingLog) (event : SignedVotingEvent) (pid : PollId) :
    VotingLog × Except ApplyError PollId :=
  match cx.signal event.payload with
  | .error _ => (log, .error .payloadDecode)
  | .ok payload =>
    match log.polls[pid]? with
    | none => (log, .error .eventBeforePollCreate)
    | some p =>
      if ¬(p.meta.lifecycle = .open ∨ p.meta.lifecycle = .thresholdReached) then
        (log, .error .illegalTransition)
      else
        match p.tierState with
        | .tier2 t2 =>
          let t2 := t2.signal event.actor payload.support event.hlc.wallMs event.hlc.logical
            (p.meta.lifecycle = .thresholdReached)
          (log.record pid ({ p with tierState := .tier2 t2 }.push event) event, .ok pid)
        | _ => (log, .error .wrongTierForEvent)

def applyDelegate (log : VotingLog) (event : SignedVotingEvent) (pid : PollId) :
    VotingLog × Except ApplyError PollId :=
  match cx.delegate event.payload with
  | .error _ => (log, .error .payloadDecode)
  | .ok payload =>
    match log.delegationGraph.applyDelegate event.actor payload.recipient event.ordinal with
    | (graph, .error _) => ({ log with delegationGraph := graph }, .error .delegationRejected)
    | (graph, .ok ()) =>
      ({ log with delegationGraph := graph, events := log.events ++ [event] }, .ok pid)

def applyUndelegate (log : VotingLog) (event : SignedVotingEvent) (pid : PollId) :
    VotingLog × Except ApplyError PollId :=
  match cx.undelegate event.payload with
  | .error _ => (log, .error .payloadDecode)
  | .ok () =>
    ({ log with
       delegationGraph := log.delegationGraph.applyUndelegate event.actor event.ordinal
       events := log.events ++ [event] }, .ok pid)

/-- Kinds whose late arrival can change what other events did. -/
def triggerKind (kind : PollEventKindCode) : Bool :=
  kind ∈ [.sortitionSelection, .miniPublicDecline, .deliberationStatement, .deliberationVote]

/-- A ballot of a public poll that sorts before its finalization. -/
def refoldsBallot (p : PollState) (t3 : Tier3PollState) (event : SignedVotingEvent) : Bool :=
  t3.meta.config.privacyMode = "pu" && event.kind = .ratificationBallot &&
    p.finalizeKey.any (event.key < ·)

def tier3Error : Tier3ApplyError → ApplyError
  | .invalidKindForTier3 _ => .invalidKindForTier3
  | .pollInFailedState => .illegalTransition
  | .pollInFinalizedState => .illegalTransition
  | .hlcNotMonotonic => .illegalTransition
  | .payloadDecode _ => .payloadDecode
  | .pollVoided => .pollVoided

/-- The poll after a Tier-3 event, and whether the event is recorded. -/
def applyTier3To (p : PollState) (t3 : Tier3PollState) (event : SignedVotingEvent) :
    PollState × Except ApplyError Unit :=
  match t3.applyEvent cx cv event with
  | (t3', .ok outcome) =>
    let p' := ({ p with tierState := .tier3 t3' }.syncLifecycleFromStage).push event
    -- out of order, applied, and of an order-dependent kind
    if t3.maxApplied.any (event.key ≤ ·) && outcome = .applied && triggerKind event.kind then
      (p'.rebuild cx cv, .ok ())
    else (p', .ok ())
  | (t3', .error err) =>
    let p' := { p with tierState := .tier3 t3' }
    if err = .pollInFinalizedState && refoldsBallot p t3 event then
      ((p'.push event).rebuild cx cv, .ok ())
    else (p', .error (tier3Error err))

def applyTier3 (log : VotingLog) (event : SignedVotingEvent) (pid : PollId) :
    VotingLog × Except ApplyError PollId :=
  match log.polls[pid]? with
  | none => (log, .error .eventBeforePollCreate)
  | some p =>
    match p.tierState with
    | .tier3 t3 =>
      match applyTier3To cx cv p t3 event with
      | (p', .ok ()) => (log.record pid p' event, .ok pid)
      | (p', .error err) => ({ log with polls := log.polls.insert pid p' }, .error err)
    | _ => (log, .error .wrongTierStateForTier3Event)

/-- `wall_ms + seconds * 1000` as a close time; the addition wraps. -/
def closeAfter (hlc : Hlc) (seconds : ℕ) : Hlc :=
  ⟨(hlc.wallMs + seconds * 1000) % 2 ^ 64, 0, hlc.deviceId⟩

def newMeta (pid : PollId) (communityId : SpaceId) (event : SignedVotingEvent)
    (lifecycle : Lifecycle) (eligibility : Eligibility) (closesAt : Hlc)
    (channelId : Option ChannelId) : PollMeta where
  pollId := pid
  communityId := communityId
  creator := event.actor
  tier := event.tier
  eligibility := eligibility
  lifecycle := lifecycle
  createdAt := event.hlc
  opensAt := event.hlc
  closesAt := closesAt
  extendsAt := none
  channelId := channelId
  finalizedAtMs := none

def decodeConfig {α : Type} : Except String α → Except ApplyError α
  | .ok cfg => .ok cfg
  | .error _ => .error .payloadDecode

def createTier1 (event : SignedVotingEvent) (communityId : SpaceId)
    (snapshot : Option MembershipSnapshot) (pid : PollId) (next : Lifecycle) :
    Except ApplyError PollState := do
  let cfg ← decodeConfig (cx.tier1Config event.payload)
  if ¬(validatePollConfig cfg).isOk then .error .payloadValidate
  else pure {
    «meta» := newMeta pid communityId event next cfg.eligibility
      (closeAfter event.hlc cfg.windowSeconds) (some cfg.channelId)
    events := [event]
    tierState := .tier1 (.empty cfg.options.length)
    tier1Cfg := some cfg
    tier1Snapshot := snapshot }

def createTier2 (event : SignedVotingEvent) (communityId : SpaceId)
    (snapshot : Option MembershipSnapshot) (pid : PollId) (next : Lifecycle) :
    Except ApplyError PollState := do
  let cfg ← decodeConfig (cx.tier2Config event.payload)
  if cfg.thresholdMaxQ32 < cfg.thresholdMinQ32 ∨ cfg.halfLifeSeconds = 0 then
    .error .payloadValidate
  else
    let totalSupply := snapshot.elim 0 fun snap => (eligibleMembers snap cfg.eligibility).length
    pure {
      «meta» := newMeta pid communityId event next cfg.eligibility event.hlc none
      events := [event]
      tierState := .tier2 { config := cfg, totalSupply := totalSupply }
      tier1Cfg := none
      tier1Snapshot := none }

/-- A retry names a Tier-3 poll whose sortition failed. -/
def checkRetryOf (log : VotingLog) (cfg : Tier3PollConfigPayload) : Except ApplyError Unit :=
  match cfg.retryOf with
  | none => .ok ()
  | some prevId =>
    match log.polls[prevId]? with
    | none => .error .retryOfPollNotFound
    | some prev =>
      match prev.tierState with
      | .tier3 t3 => if t3.stage = .failed then .ok () else .error .retryOfPollNotFailed
      | _ => .error .retryOfPollNotTier3

/-- A poll at or below the retired epoch is born voided. -/
def voidedAt (watermark : Option VoidedInfo) (communityEpoch : ℕ) : Option VoidedInfo :=
  watermark.filter fun w => communityEpoch ≤ w.oldEpoch

def createTier3 (log : VotingLog) (event : SignedVotingEvent) (communityId : SpaceId)
    (snapshot : Option MembershipSnapshot) (pid : PollId) (next : Lifecycle) :
    Except ApplyError PollState := do
  let cfg ← decodeConfig (cx.tier3Config event.payload)
  if ¬(validateTier3PollConfig cfg).isOk then .error .payloadValidate
  else
    log.checkRetryOf cfg
    match cx.signingBytes event.toSigInput with
    | .error _ => .error .signingBytesError
    | .ok bytes =>
      let electorate := snapshot.elim [] fun snap => eligibleMembers snap cfg.eligibility
      let t3 := Tier3PollState.newFromCreate
        ⟨pid, event.actor, event.hlc, cfg, cx.sha256 bytes, cfg.ce.getD 0⟩ electorate
      pure {
        «meta» := newMeta pid communityId event next cfg.eligibility
          (closeAfter event.hlc (cfg.deliberationWindowSeconds + cfg.draftingWindowSeconds +
            cfg.ratificationWindowSeconds)) none
        events := [event]
        tierState := .tier3 { t3 with
          voided := voidedAt log.retiredEpochWatermark (cfg.ce.getD 0) }
        tier1Cfg := none
        tier1Snapshot := none }

def createPoll (log : VotingLog) (event : SignedVotingEvent) (communityId : SpaceId)
    (snapshot : Option MembershipSnapshot) (pid : PollId) (next : Lifecycle) :
    Except ApplyError PollState :=
  match event.tier with
  | .approval => createTier1 cx event communityId snapshot pid next
  | .conviction => createTier2 cx event communityId snapshot pid next
  | .sortition => log.createTier3 cx event communityId snapshot pid next

/-- The path driven by the lifecycle table. -/
def applyLifecycle (log : VotingLog) (event : SignedVotingEvent) (communityId : SpaceId)
    (snapshot : Option MembershipSnapshot) (pid : PollId) : VotingLog × Except ApplyError PollId :=
  match log.polls[pid]? with
  | some p =>
    match nextLifecycle p.meta.lifecycle event.kind event.tier with
    | .error _ => (log, .error .illegalTransition)
    | .ok next => (log.record pid ((p.setLifecycle next).push event) event, .ok pid)
  | none =>
    if event.kind ≠ .pollCreate then (log, .error .eventBeforePollCreate)
    else
      match nextLifecycle .draft event.kind event.tier with
      | .error _ => (log, .error .illegalTransition)
      | .ok next =>
        match log.createPoll cx event communityId snapshot pid next with
        | .error err => (log, .error err)
        | .ok p => (log.record pid p event, .ok pid)

def applyWithSnapshot (log : VotingLog) (event : SignedVotingEvent) (communityId : SpaceId)
    (snapshot : Option MembershipSnapshot) : VotingLog × Except ApplyError PollId :=
  match pollIdOf cx communityId event with
  | .error err => (log, .error err)
  | .ok pid =>
    if event.kind = .signal ∧ event.tier = .conviction then log.applySignal cx event pid
    else if event.kind = .delegate ∧ event.tier = .conviction then log.applyDelegate cx event pid
    else if event.kind = .undelegate ∧ event.tier = .conviction then
      log.applyUndelegate cx event pid
    else if event.tier = .sortition ∧ event.kind ≠ .pollCreate then log.applyTier3 cx cv event pid
    else log.applyLifecycle cx event communityId snapshot pid

/-! ### Archive sweep -/

def ninetyDaysMs : ℕ := 90 * 24 * 60 * 60 * 1000

/-- When the poll was finalized: its first PollResult, else the stamp of the tick. -/
def finalizedAt (p : PollState) : Option ℕ :=
  ((p.events.find? (·.kind = .pollResult)).map (·.hlc.wallMs)).or p.meta.finalizedAtMs

/-- Finalized for more than ninety days. -/
def dueForArchive (nowWallMs : ℕ) (p : PollState) : Bool :=
  p.meta.lifecycle = .finalized && (finalizedAt p).any fun at_ => ninetyDaysMs < nowWallMs - at_

/-- The kinds an archived poll keeps. -/
def auditKind (kind : PollEventKindCode) : Bool := kind = .pollCreate || kind = .pollResult

def archivePoll (p : PollState) : PollState :=
  { p with events := p.events.filter fun e => auditKind e.kind }.setLifecycle .archived

/-- The top-level `retain`. -/
def keptBySweep (archived : PollId → Bool) (event : SignedVotingEvent) : Bool :=
  event.kind = .pollCreate ||
    (cx.pollIdRef event.payload).all fun pid => !archived pid || event.kind = .pollResult

def toArchive (log : VotingLog) (nowWallMs : ℕ) : List PollId :=
  log.polls.keys.filter fun pid => log.polls[pid]?.any (dueForArchive nowWallMs)

def archiveFinalizedPolls (log : VotingLog) (nowWallMs : ℕ) : VotingLog × List PollId :=
  let due := log.toArchive nowWallMs
  if due.isEmpty then (log, [])
  else
    ({ log with
       polls := log.polls.map fun pid p => if pid ∈ due then archivePoll p else p
       events := log.events.filter (keptBySweep cx (· ∈ due)) }, due)

/-! ### What a call does -/

/-- The poll an event belongs to: the one a PollCreate derives, a Signal proposes to or
another payload names. Delegations belong to none. -/
def pollOf (communityId : SpaceId) (event : SignedVotingEvent) : Option PollId :=
  if event.kind = .delegate ∨ event.kind = .undelegate then none
  else (pollIdOf cx communityId event).toOption

/-- How an accepted event changes its poll. -/
inductive PollUpdate (log : VotingLog) (event : SignedVotingEvent) :
    Option PollState → PollState → Prop
  | signal {p : PollState} {t2 : Tier2ProposalState} {payload : SignalPayload}
      (hk : event.kind = .signal) (ht : event.tier = .conviction)
      (hdecode : cx.signal event.payload = .ok payload)
      (hlife : p.meta.lifecycle = .open ∨ p.meta.lifecycle = .thresholdReached)
      (hstate : p.tierState = .tier2 t2) :
      PollUpdate log event (some p) ({ p with tierState := .tier2 (t2.signal event.actor
        payload.support event.hlc.wallMs event.hlc.logical
        (p.meta.lifecycle = Lifecycle.thresholdReached)) }.push event)
  | tier3 {p p' : PollState} {t3 : Tier3PollState} (ht : event.tier = .sortition)
      (hk : event.kind ≠ .pollCreate) (hstate : p.tierState = .tier3 t3)
      (happly : applyTier3To cx cv p t3 event = (p', .ok ())) : PollUpdate log event (some p) p'
  | lifecycle {p : PollState} {next : Lifecycle} (hnext :
      nextLifecycle p.meta.lifecycle event.kind event.tier = .ok next)
      (hk : event.tier = .conviction → event.kind ≠ .signal ∧ event.kind ≠ .delegate ∧
        event.kind ≠ .undelegate) (ht : event.tier = .sortition → event.kind = .pollCreate) :
      PollUpdate log event (some p) ((p.setLifecycle next).push event)
  | create {communityId : SpaceId} {snapshot : Option MembershipSnapshot} {pid : PollId}
      {p : PollState} (hk : event.kind = .pollCreate)
      (hcreate : log.createPoll cx event communityId snapshot pid .open = .ok p) :
      PollUpdate log event none p

/-- A call is rejected without effect, records a delegation in the log alone, or records
an event in the log and in its poll. -/
inductive ApplyEffect (communityId : SpaceId) (log : VotingLog) (event : SignedVotingEvent) :
    VotingLog → Prop
  | rejected : ApplyEffect communityId log event log
  | delegation (graph : DelegationGraph) (h : event.kind = .delegate ∨ event.kind = .undelegate) :
      ApplyEffect communityId log event
        { log with delegationGraph := graph, events := log.events ++ [event] }
  | recorded (pid : PollId) (p : PollState) (howner : pollOf cx communityId event = some pid)
      (hupdate : PollUpdate cx cv log event log.polls[pid]? p) :
      ApplyEffect communityId log event (log.record pid p event)

variable {cx cv} {communityId : SpaceId} {log : VotingLog} {event : SignedVotingEvent}
  {pid : PollId}

theorem pollOf_eq_some (hid : pollIdOf cx communityId event = .ok pid)
    (hd : event.kind ≠ .delegate) (hu : event.kind ≠ .undelegate) :
    pollOf cx communityId event = some pid := by
  simp [pollOf, hid, hd, hu, Except.toOption]

theorem pollOf_delegation (hk : event.kind = .delegate ∨ event.kind = .undelegate) :
    pollOf cx communityId event = none := if_pos hk

@[simp] theorem syncLifecycleFromStage_events (p : PollState) :
    p.syncLifecycleFromStage.events = p.events := by
  unfold PollState.syncLifecycleFromStage
  split
  · split <;> rfl
  · rfl

@[simp] theorem syncLifecycleFromStage_tierState (p : PollState) :
    p.syncLifecycleFromStage.tierState = p.tierState := by
  unfold PollState.syncLifecycleFromStage
  split
  · split <;> rfl
  · rfl

@[simp] theorem rebuild_events (p : PollState) : (p.rebuild cx cv).events = p.events := by
  unfold PollState.rebuild
  split <;> simp

theorem applyEvent_of_error {t3 t3' : Tier3PollState} {err : Tier3ApplyError}
    (h : t3.applyEvent cx cv event = (t3', .error err)) : t3' = t3 := by
  unfold Tier3PollState.applyEvent at h
  split at h
  · exact (Prod.mk.inj h).1.symm
  · split at h
    · exact (Prod.mk.inj h).1.symm
    · simp at h

/-- What a recorded Tier-3 event leaves behind: the state after it, or the poll folded anew. -/
inductive Tier3Effect (cx : Codec) (cv : Curve) (p : PollState) (t3 : Tier3PollState)
    (event : SignedVotingEvent) : Tier3PollState → Prop
  | applied (outcome : ApplyOutcome) (hok : (t3.applyEvent cx cv event).2 = .ok outcome)
      (hkeep : ¬(t3.maxApplied.any (event.key ≤ ·) = true ∧ outcome = .applied ∧
        triggerKind event.kind = true)) :
      Tier3Effect cx cv p t3 event (t3.applyEvent cx cv event).1
  | rebuilt : Tier3Effect cx cv p t3 event
      ((t3.applyEvent cx cv event).1.rebuildFromEvents cx cv (p.events ++ [event]))

theorem rebuild_tierState {p : PollState} {t3 : Tier3PollState} (h : p.tierState = .tier3 t3) :
    (p.rebuild cx cv).tierState = .tier3 (t3.rebuildFromEvents cx cv p.events) := by
  simp [PollState.rebuild, h]

theorem applyTier3To_effect {p p' : PollState} {t3 : Tier3PollState}
    (h : applyTier3To cx cv p t3 event = (p', .ok ())) :
    ∃ t3', p'.tierState = .tier3 t3' ∧ Tier3Effect cx cv p t3 event t3' := by
  have hrebuilt : ∀ q : PollState, q.events = p.events ++ [event] →
      q.tierState = .tier3 (t3.applyEvent cx cv event).1 → q.rebuild cx cv = p' →
      ∃ t3', p'.tierState = .tier3 t3' ∧ Tier3Effect cx cv p t3 event t3' := by
    rintro q hevents hstate rfl
    refine ⟨_, rebuild_tierState hstate, ?_⟩
    rw [hevents]
    exact .rebuilt
  unfold applyTier3To at h
  split at h
  · rename_i t3' outcome ht
    have ht1 : (t3.applyEvent cx cv event).1 = t3' := congrArg Prod.fst ht
    have ht2 : (t3.applyEvent cx cv event).2 = .ok outcome := congrArg Prod.snd ht
    dsimp only at h
    split_ifs at h with htrigger
    · exact hrebuilt _ (by simp [PollState.push]) (by simp [PollState.push, ht1])
        (Prod.mk.inj h).1
    · rw [← (Prod.mk.inj h).1]
      refine ⟨t3', by simp [PollState.push], ?_⟩
      rw [← ht1]
      exact .applied outcome ht2 (by simpa [and_assoc] using htrigger)
  · rename_i t3' err ht
    have ht1 : (t3.applyEvent cx cv event).1 = t3' := congrArg Prod.fst ht
    dsimp only at h
    split_ifs at h
    · exact hrebuilt _ (by simp [PollState.push]) (by simp [PollState.push, ht1])
        (Prod.mk.inj h).1
    · simp at h

theorem applyTier3To_of_ok {p p' : PollState} {t3 : Tier3PollState}
    (h : applyTier3To cx cv p t3 event = (p', .ok ())) :
    p'.events = p.events ++ [event] ∧ ∃ t3', p'.tierState = .tier3 t3' := by
  obtain ⟨t3', ht3', -⟩ : ∃ t3', p'.tierState = .tier3 t3' ∧ Tier3Effect cx cv p t3 event t3' :=
    applyTier3To_effect h
  refine ⟨?_, t3', ht3'⟩
  unfold applyTier3To at h
  split at h
  · dsimp only at h
    split_ifs at h
    · rw [← (Prod.mk.inj h).1]
      simp [PollState.push]
    · rw [← (Prod.mk.inj h).1]
      simp [PollState.push]
  · dsimp only at h
    split_ifs at h
    · rw [← (Prod.mk.inj h).1]
      simp [PollState.push]
    · simp at h

theorem applyTier3To_of_error {p p' : PollState} {t3 : Tier3PollState} {err : ApplyError}
    (hp : p.tierState = .tier3 t3) (h : applyTier3To cx cv p t3 event = (p', .error err)) :
    p' = p := by
  unfold applyTier3To at h
  split at h
  · dsimp only at h
    split_ifs at h <;> simp at h
  · rename_i t3' err' ht
    obtain rfl := applyEvent_of_error ht
    dsimp only at h
    split_ifs at h
    · simp at h
    · rw [← (Prod.mk.inj h).1, ← hp]

theorem applyTier3To_delegation {p : PollState} {t3 : Tier3PollState}
    (hk : event.kind = .delegate ∨ event.kind = .undelegate) :
    ∃ p' err, applyTier3To cx cv p t3 event = (p', .error err) := by
  have herr : ∃ t3' err, t3.applyEvent cx cv event = (t3', .error err) := by
    unfold Tier3PollState.applyEvent
    split
    · exact ⟨_, _, rfl⟩
    · have hd : t3.dispatch cx cv event = .error (.invalidKindForTier3 event.kind) := by
        rcases hk with hk | hk <;> simp [Tier3PollState.dispatch, hk]
      rw [hd]
      exact ⟨_, _, rfl⟩
  obtain ⟨t3', err, ht⟩ := herr
  have href : refoldsBallot p t3 event = false := by
    rcases hk with hk | hk <;> simp [refoldsBallot, hk]
  simp [applyTier3To, ht, href]

theorem insert_self_polls {p : PollState} (h : log.polls[pid]? = some p) :
    { log with polls := log.polls.insert pid p } = log := by
  have : log.polls.insert pid p = log.polls := by
    refine Std.ExtTreeMap.ext_getElem? fun k => ?_
    rw [BTreeMap.get_insert]
    split_ifs with hk
    · rw [← hk, h]
    · rfl
  rw [this]

theorem nextLifecycle_delegation_eq_error {l : Lifecycle} {kind : PollEventKindCode}
    {tier : Tier} (hk : kind = .delegate ∨ kind = .undelegate) (ht : tier ≠ .conviction) :
    nextLifecycle l kind tier = .error ⟨l, kind⟩ := by
  rcases hk with rfl | rfl <;> cases l <;> cases tier <;> first | rfl | exact absurd rfl ht

theorem createPoll_of_ok {snapshot : Option MembershipSnapshot} {next : Lifecycle}
    {p : PollState} (h : log.createPoll cx event communityId snapshot pid next = .ok p) :
    p.events = [event] ∧ p.meta.lifecycle = next := by
  unfold createPoll at h
  split at h
  · simp only [createTier1, bind_eq_ok] at h
    obtain ⟨cfg, -, h⟩ := h
    split_ifs at h
    rw [← pure_eq_ok.mp h]
    exact ⟨rfl, rfl⟩
  · simp only [createTier2, bind_eq_ok] at h
    obtain ⟨cfg, -, h⟩ := h
    split_ifs at h
    rw [← pure_eq_ok.mp h]
    exact ⟨rfl, rfl⟩
  · simp only [createTier3, bind_eq_ok] at h
    obtain ⟨cfg, -, h⟩ := h
    split_ifs at h
    obtain ⟨_, -, h⟩ := bind_eq_ok.mp h
    split at h
    · simp at h
    · rw [← pure_eq_ok.mp h]
      exact ⟨rfl, rfl⟩

theorem PollUpdate.events {old : Option PollState} {p : PollState}
    (h : PollUpdate cx cv log event old p) : p.events = old.elim [] (·.events) ++ [event] := by
  cases h with
  | signal => rfl
  | tier3 _ _ _ happly => exact (applyTier3To_of_ok happly).1
  | lifecycle => rfl
  | create _ hcreate => simpa using (createPoll_of_ok hcreate).1

section Branches

theorem applySignal_effect (howner : pollOf cx communityId event = some pid)
    (hk : event.kind = .signal) (ht : event.tier = .conviction) :
    ApplyEffect cx cv communityId log event (log.applySignal cx event pid).1 := by
  unfold applySignal
  split
  · exact .rejected
  · rename_i payload hdecode
    split
    · exact .rejected
    · rename_i p hp
      split_ifs with hlife
      · split
        · rename_i t2 hstate
          refine .recorded pid _ howner ?_
          rw [hp]
          exact .signal hk ht hdecode hlife hstate
        · exact .rejected
      · exact .rejected

theorem applyDelegate_effect (hk : event.kind = .delegate) :
    ApplyEffect cx cv communityId log event (log.applyDelegate cx event pid).1 := by
  unfold applyDelegate
  split
  · exact .rejected
  · split
    · rename_i graph err hg
      have : graph = log.delegationGraph := by
        unfold DelegationGraph.applyDelegate at hg
        split_ifs at hg <;> simp_all
      rw [this]
      exact .rejected
    · exact .delegation _ (.inl hk)

theorem applyUndelegate_effect (hk : event.kind = .undelegate) :
    ApplyEffect cx cv communityId log event (log.applyUndelegate cx event pid).1 := by
  unfold applyUndelegate
  split
  · exact .rejected
  · exact .delegation _ (.inr hk)

theorem applyTier3_effect (hid : pollIdOf cx communityId event = .ok pid)
    (ht : event.tier = .sortition) (hk : event.kind ≠ .pollCreate) :
    ApplyEffect cx cv communityId log event (log.applyTier3 cx cv event pid).1 := by
  unfold applyTier3
  split
  · exact .rejected
  · rename_i p hp
    split
    · rename_i t3 hstate
      split
      · rename_i p' hok
        by_cases hd : event.kind = .delegate ∨ event.kind = .undelegate
        · obtain ⟨_, _, herr⟩ : ∃ p' err, applyTier3To cx cv p t3 event = (p', .error err) :=
            applyTier3To_delegation hd
          simp [herr] at hok
        · rw [not_or] at hd
          refine .recorded pid p' (pollOf_eq_some hid hd.1 hd.2) ?_
          rw [hp]
          exact .tier3 ht hk hstate hok
      · rename_i p' err herr
        obtain rfl := applyTier3To_of_error hstate herr
        rw [insert_self_polls hp]
        exact .rejected
    · exact .rejected

/-- No entry of the lifecycle table is reached by a delegation on this path. -/
theorem applyLifecycle_effect {snapshot : Option MembershipSnapshot}
    (hid : pollIdOf cx communityId event = .ok pid)
    (hk : event.tier = .conviction → event.kind ≠ .signal ∧ event.kind ≠ .delegate ∧
      event.kind ≠ .undelegate) (ht : event.tier = .sortition → event.kind = .pollCreate) :
    ApplyEffect cx cv communityId log event
      (log.applyLifecycle cx event communityId snapshot pid).1 := by
  unfold applyLifecycle
  split
  · rename_i p hp
    split
    · exact .rejected
    · rename_i next hnext
      refine .recorded pid _ (pollOf_eq_some hid ?_ ?_) ?_
      · intro hd
        have ht : event.tier ≠ .conviction := fun h => (hk h).2.1 hd
        simp [nextLifecycle_delegation_eq_error (.inl hd) ht] at hnext
      · intro hd
        have ht : event.tier ≠ .conviction := fun h => (hk h).2.2 hd
        simp [nextLifecycle_delegation_eq_error (.inr hd) ht] at hnext
      · rw [hp]
        exact .lifecycle hnext hk ht
  · rename_i hp
    split_ifs with hc
    · exact .rejected
    · have hc : event.kind = .pollCreate := by simpa using hc
      split
      · exact .rejected
      · rename_i next hnext
        have hnext : next = .open := by
          rw [hc] at hnext
          cases hnext
          rfl
        subst hnext
        split
        · exact .rejected
        · rename_i p hcreate
          refine .recorded pid p (pollOf_eq_some hid (by simp [hc]) (by simp [hc])) ?_
          rw [hp]
          exact .create hc hcreate

end Branches

theorem applyWithSnapshot_effect (event : SignedVotingEvent)
    (snapshot : Option MembershipSnapshot) :
    ApplyEffect cx cv communityId log event
      (log.applyWithSnapshot cx cv event communityId snapshot).1 := by
  unfold applyWithSnapshot
  split
  · exact .rejected
  · rename_i pid hid
    split_ifs with hsignal hdelegate hundelegate htier3
    · exact applySignal_effect (pollOf_eq_some hid (by simp [hsignal.1]) (by simp [hsignal.1]))
        hsignal.1 hsignal.2
    · exact applyDelegate_effect hdelegate.1
    · exact applyUndelegate_effect hundelegate.1
    · exact applyTier3_effect hid htier3.1 htier3.2
    · refine applyLifecycle_effect hid (fun ht => ?_) fun ht => ?_
      · exact ⟨fun h => hsignal ⟨h, ht⟩, fun h => hdelegate ⟨h, ht⟩, fun h => hundelegate ⟨h, ht⟩⟩
      · by_contra hc
        exact htier3 ⟨ht, hc⟩

end VotingLog
end Harmony.Voting
