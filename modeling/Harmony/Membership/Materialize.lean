import Harmony.Lib.Sorted
import Harmony.Membership.Recovery

/-! `materialize_with_now`: three pre-passes over the unsorted input, one replay
of the events in `eventSortKey` order, and a post-pass that judges recoveries and
resets at the time reference. An arm that the source leaves with `continue`
returns `none`. -/

namespace Harmony.Membership

open Harmony.Lib

/-! ### Pre-passes -/

def eventsMaxWallMs (events : List SignedMembershipEvent) : ℕ :=
  (events.map (·.hlc.wallMs)).foldr max 0

/-- The time reference: the latest wall of the log, raised to `now_ms`. -/
def currentMaxWallMs (events : List SignedMembershipEvent) (nowMs : Option ℕ) : ℕ :=
  match nowMs with
  | some now => max (eventsMaxWallMs events) now
  | none => eventsMaxWallMs events

def countersignTarget (e : SignedMembershipEvent) : Option EventId :=
  match e.kind with
  | .joinCountersign targetEventId => some targetEventId
  | _ => none

def countersignedPendingIds (events : List SignedMembershipEvent) : Finset EventId :=
  (events.filterMap countersignTarget).toFinset

def countersignPassesCausalityGuard (countersignWallMs targetPendingWallMs : ℕ) : Bool :=
  decide (targetPendingWallMs ≤ countersignWallMs)

/-- PendingJoin id to its invite-token signature and wall. -/
def pendingToken (events : List SignedMembershipEvent) : BTreeMap EventId (Sig × ℕ) :=
  BTreeMap.ofEntries (·.id) (fun e : SignedMembershipEvent =>
    match e.kind with
    | .pendingJoin inviteToken => some (inviteToken.sig, e.hlc.wallMs)
    | _ => none) events

/-- One step of the claimant contest: `c` replaces the current best countersign
of its token unless that one sorts before it. -/
def bestStep (pending : BTreeMap EventId (Sig × ℕ))
    (best : BTreeMap Sig SignedMembershipEvent) (c : SignedMembershipEvent) :
    BTreeMap Sig SignedMembershipEvent :=
  match (countersignTarget c).bind (fun target => pending[target]?) with
  | none => best
  | some (tok, targetWall) =>
    if countersignPassesCausalityGuard c.hlc.wallMs targetWall = false then best
    else match best[tok]? with
      | some cur => if eventSortKey cur ≤ eventSortKey c then best else best.insert tok c
      | none => best.insert tok c

def bestCountersigns (events : List SignedMembershipEvent) :
    BTreeMap Sig SignedMembershipEvent :=
  events.foldl (bestStep (pendingToken events)) ∅

/-- The single-use claimant of each invite token. -/
def canonicalPendingIds (events : List SignedMembershipEvent) : Finset EventId :=
  ((bestCountersigns events).toList.filterMap fun p => countersignTarget p.2).toFinset

/-- AdminProposal id to its kind, proposer and wall. -/
def proposalsIndex (events : List SignedMembershipEvent) :
    BTreeMap EventId (ProposalKind × OwnerAddr × ℕ) :=
  BTreeMap.ofEntries (·.id) (fun e : SignedMembershipEvent =>
    match e.kind with
    | .adminProposal proposalKind => some (proposalKind, e.actor, e.hlc.wallMs)
    | _ => none) events

/-- What the replay reads besides the events themselves. -/
structure ReplayEnv where
  crypto : Crypto
  adminAddr : OwnerAddr
  currentMaxWallMs : ℕ
  countersignedPendingIds : Finset EventId
  canonicalPendingIds : Finset EventId
  proposalsIndex : BTreeMap EventId (ProposalKind × OwnerAddr × ℕ)

def prePass (C : Crypto) (events : List SignedMembershipEvent) (adminAddr : OwnerAddr)
    (nowMs : Option ℕ) : ReplayEnv where
  crypto := C
  adminAddr := adminAddr
  currentMaxWallMs := currentMaxWallMs events nowMs
  countersignedPendingIds := countersignedPendingIds events
  canonicalPendingIds := canonicalPendingIds events
  proposalsIndex := proposalsIndex events

/-! ### Member records -/

def insertEnrolledKeyCapped (set : Finset PubKey) (key : PubKey) : Finset PubKey :=
  if key ∈ set ∨ set.card < maxEnrolledDeviceKeys then insert key set else set

def insertEnrolledKeyUnlessRetired (member : MemberState) (key : PubKey) : MemberState :=
  if key ∈ member.revokedDeviceKeys then member
  else { member with
    enrolledDeviceKeys := insertEnrolledKeyCapped member.enrolledDeviceKeys key }

/-- The record a Join or PendingJoin writes: prior keys and tombstones are kept,
the key of the carried cert is added unless it is tombstoned. -/
def admitted (status : MemberStatus) (e : SignedMembershipEvent)
    (prior : Option MemberState) : MemberState :=
  let enrolled := prior.elim ∅ (·.enrolledDeviceKeys)
  let revoked := prior.elim ∅ (·.revokedDeviceKeys)
  { status := status
    joinedAt := e.hlc
    leftAt := none
    enrolledDeviceKeys :=
      match e.enrollment with
      | none => enrolled
      | some cert =>
        if cert.deviceKey ∈ revoked then enrolled
        else insertEnrolledKeyCapped enrolled cert.deviceKey
    revokedDeviceKeys := revoked }

/-- Joined and Banned shadow a Join and a PendingJoin. -/
def shadowed (prior : Option MemberState) : Bool :=
  match prior with
  | some s => s.status = .joined || s.status = .banned
  | none => false

def onJoin (e : SignedMembershipEvent) (prior : Option MemberState) : Option MemberState :=
  if shadowed prior then prior else some (admitted .joined e prior)

def onLeave (e : SignedMembershipEvent) (prior : Option MemberState) : Option MemberState :=
  prior.map fun s =>
    if s.status = .banned then s else { s with status := .left, leftAt := some e.hlc }

def onInvite (e : SignedMembershipEvent) (prior : Option MemberState) : Option MemberState :=
  match prior with
  | none => some ⟨.invited, e.hlc, none, ∅, ∅⟩
  | some s =>
    if s.status = .left then some ⟨.invited, e.hlc, none, ∅, s.revokedDeviceKeys⟩ else some s

def onKick (leftAt : Hlc) (prior : Option MemberState) : Option MemberState :=
  prior.map fun s => { s with status := .banned, leftAt := some leftAt }

/-- The ban an executed recovery derives: the first ban of a record stands, and the
bootstrap admin gets a record to be banned in. -/
def onDerivedKick (isBootstrapAdmin : Bool) (derivedAt : Hlc) (prior : Option MemberState) :
    Option MemberState :=
  match prior with
  | some s =>
    if s.status = .banned then some s
    else some { s with status := .banned, leftAt := some derivedAt }
  | none =>
    if isBootstrapAdmin then some ⟨.banned, derivedAt, some derivedAt, ∅, ∅⟩ else none

def onUnban (prior : Option MemberState) : Option MemberState :=
  prior.map fun s => if s.status = .banned then { s with status := .left } else s

def onPendingJoin (countersigned expired : Bool) (e : SignedMembershipEvent)
    (prior : Option MemberState) : Option MemberState :=
  if shadowed prior then prior
  else if countersigned then some (admitted .joined e prior)
  else if expired then prior
  else some (admitted .pendingJoin e prior)

def onDeviceAnnounce (e : SignedMembershipEvent) (prior : Option MemberState) :
    Option MemberState :=
  prior.map fun s =>
    if s.status = .joined then
      match e.enrollment with
      | none => s
      | some cert => insertEnrolledKeyUnlessRetired s cert.deviceKey
    else s

def onDeviceRetire (key : PubKey) (prior : Option MemberState) : Option MemberState :=
  prior.map fun s =>
    { s with
      enrolledDeviceKeys := s.enrolledDeviceKeys.erase key
      revokedDeviceKeys := insert key s.revokedDeviceKeys }

/-! ### The running state -/

/-- The state of the main pass; `replayed` is `sorted[..idx]`. -/
structure ReplayState where
  replayed : List SignedMembershipEvent
  m : MaterializedMembership
  runningSignersSeen : EventId → Finset OwnerAddr
  appliedAdminProposals : Finset EventId
  seenAdminProposals : Finset EventId
  recProposals : BTreeMap EventId RecoveryWork
  recPendingCosigns : EventId → List QueuedRecoveryCosign
  recVetoes : List (EventId × ℕ × OwnerAddr)
  recRotationApplied : Finset EventId
  recConfigChangeWalls : List ℕ
  resetWork : BTreeMap EventId ResetWork
  pendingResetCosigns : EventId → List OwnerAddr
  pendingResetResponses : EventId → List QueuedResetResponse

def ReplayState.init (adminAddr : OwnerAddr) : ReplayState where
  replayed := []
  m := { MaterializedMembership.default with powerLevels := (∅ : BTreeMap _ _).insert adminAddr 100 }
  runningSignersSeen := fun _ => ∅
  appliedAdminProposals := ∅
  seenAdminProposals := ∅
  recProposals := ∅
  recPendingCosigns := fun _ => []
  recVetoes := []
  recRotationApplied := ∅
  recConfigChangeWalls := []
  resetWork := ∅
  pendingResetCosigns := fun _ => []
  pendingResetResponses := fun _ => []

/-- Kick, direct or by proposal: ban an existing record and, unless the target
was still pending, mark that a rotation is needed. -/
def kickMember (m : MaterializedMembership) (target : OwnerAddr) (leftAt : Hlc) :
    MaterializedMembership :=
  { m with
    members := m.members.alter target (onKick leftAt)
    pendingRotationFor :=
      if m.status target = some .pendingJoin then m.pendingRotationFor
      else insert target m.pendingRotationFor }

def applyAdminProposalEffect (m : MaterializedMembership) (proposalKind : ProposalKind)
    (effectiveEvent : SignedMembershipEvent) : MaterializedMembership :=
  match proposalKind with
  | .setPower target level => { m with powerLevels := m.powerLevels.insert target level }
  | .kick target _ => kickMember m target effectiveEvent.hlc
  | .changeQuorum newQuorum => { m with adminQuorum := newQuorum }
  | .setRecoveryDesignates designates threshold vetoWindowMs =>
    { m with
      recoveryDesignates := some ⟨designates, threshold, vetoWindowMs, effectiveEvent.hlc⟩ }
  | .changeThresholds newThresholds => { m with powerThresholds := newThresholds }

def applyTippedProposal (st : ReplayState) (id : EventId) (kind : ProposalKind)
    (e : SignedMembershipEvent) : ReplayState :=
  { st with
    m := applyAdminProposalEffect st.m kind e
    appliedAdminProposals := insert id st.appliedAdminProposals
    recConfigChangeWalls :=
      match kind with
      | .setRecoveryDesignates _ _ _ => st.recConfigChangeWalls ++ [e.hlc.wallMs]
      | _ => st.recConfigChangeWalls }

def addSigner (st : ReplayState) (id : EventId) (actor : OwnerAddr) : ReplayState :=
  { st with
    runningSignersSeen :=
      Function.update st.runningSignersSeen id (insert actor (st.runningSignersSeen id)) }

def applyAdminProposal (env : ReplayEnv) (st : ReplayState) (e : SignedMembershipEvent) :
    ReplayState :=
  let st := addSigner { st with seenAdminProposals := insert e.id st.seenAdminProposals } e.id e.actor
  if e.id ∉ st.appliedAdminProposals ∧ st.m.adminQuorum ≤ (st.runningSignersSeen e.id).card ∧
      0 < st.m.adminQuorum then
    -- the proposal is its own trigger, so its age is 0 and it cannot have expired
    match env.proposalsIndex[e.id]? with
    | some (kind, _, _) => applyTippedProposal st e.id kind e
    | none => st
  else st

def applyAdminCountersign (env : ReplayEnv) (st : ReplayState) (e : SignedMembershipEvent)
    (targetEventId : EventId) : ReplayState :=
  if targetEventId ∉ st.seenAdminProposals then addSigner st targetEventId e.actor
  else if targetEventId ∈ st.appliedAdminProposals then st
  else match env.proposalsIndex[targetEventId]? with
    | some (kind, _, proposerWallMs) =>
      let st := addSigner st targetEventId e.actor
      if (st.runningSignersSeen targetEventId).card = st.m.adminQuorum ∧ 0 < st.m.adminQuorum ∧
          e.hlc.wallMs - proposerWallMs ≤ adminProposalExpiryMs then
        applyTippedProposal st targetEventId kind e
      else st
    | none => st

/-! ### Epoch events -/

/-- The issuer has kick power and is Joined, or is the bootstrap admin without a record. -/
def isEffectiveAdmin (adminAddr : OwnerAddr) (m : MaterializedMembership) (issuer : OwnerAddr) :
    Bool :=
  decide (m.powerThresholds.kick ≤ m.power issuer) &&
    (isJoinedMember m issuer || (m.status issuer = none && issuer = adminAddr))

/-- The departed address a rotation's trigger names, with the promoted admin of
an executed recovery. Only events already replayed can be triggers. -/
def rotationTrigger (st : ReplayState) (e : SignedMembershipEvent) (triggeredBy : EventId) :
    Option (OwnerAddr × Option OwnerAddr) :=
  match st.replayed.find? (fun t => t.id = triggeredBy) with
  | none => none
  | some t =>
    match t.kind with
    | .kick target _ => some (target, none)
    | .leave => some (t.actor, none)
    | .recoveryProposal lostAdmin newAdmin _ =>
      match (evaluateRecoveryPhases st.recProposals st.recVetoes st.recConfigChangeWalls
          e.hlc.wallMs)[triggeredBy]? with
      | some o =>
        if o.phase = .executed ∧
            (o.deadlineMs.bind fun d => checkedAdd d recoveryRotationFinalityMs).any
              (fun eligible => decide (eligible < e.hlc.wallMs)) then
          some (lostAdmin, some newAdmin)
        else none
      | none => none
    | _ => none

def triggerIsLeave (st : ReplayState) (triggeredBy : EventId) : Bool :=
  (st.replayed.find? (fun t => t.id = triggeredBy)).any fun t => t.kind = .leave

/-- Joined or Invited: the members a rotation has to reach. -/
def holdsKey (m : MaterializedMembership) (x : OwnerAddr) : Bool :=
  m.status x = some .joined || m.status x = some .invited

def expectedRecipients (m : MaterializedMembership) (target : OwnerAddr) : List OwnerAddr :=
  m.members.keys.filter fun addr => decide (addr ≠ target) && holdsKey m addr

/-- The checks of the rotation arm; `none` when the rotation is dropped. -/
def rotationVerdict (env : ReplayEnv) (st : ReplayState) (e : SignedMembershipEvent)
    (priorEpoch : ℕ) (triggeredBy : EventId) (recipients : List RecipientCiphertext) :
    Option (OwnerAddr × Option OwnerAddr) :=
  if priorEpoch ≠ st.m.currentEpoch.getD 0 then none
  else match rotationTrigger st e triggeredBy with
    | none => none
    | some (target, recoveryIssuer) =>
      let actual := recipients.map (·.recipient)
      if target ∈ actual then none
      else if (expectedRecipients st.m target).all (fun x => decide (x ∈ actual)) = false then none
      else
        let isAdmin := isEffectiveAdmin env.adminAddr st.m e.actor
        let isSelfLeaver := triggerIsLeave st triggeredBy && decide (e.actor = target) &&
          (st.m.status e.actor).isSome
        let isRecoveryNewAdmin := decide (recoveryIssuer = some e.actor) &&
          isJoinedMember st.m e.actor
        if isAdmin || isSelfLeaver || isRecoveryNewAdmin then some (target, recoveryIssuer)
        else none

def applyEpochRotation (env : ReplayEnv) (st : ReplayState) (e : SignedMembershipEvent)
    (priorEpoch : ℕ) (triggeredBy : EventId) (recipients : List RecipientCiphertext) :
    Option ReplayState :=
  (rotationVerdict env st e priorEpoch triggeredBy recipients).map fun verdict =>
    { st with
      m := { st.m with
        currentEpoch := some (st.m.currentEpoch.getD 0 + 1)
        pendingRotationFor := st.m.pendingRotationFor.erase verdict.1 }
      recRotationApplied :=
        if verdict.2.isSome then insert triggeredBy st.recRotationApplied
        else st.recRotationApplied }

/-- The joiner a catchup's trigger names: a Join, or a countersigned PendingJoin. -/
def catchupTrigger (env : ReplayEnv) (st : ReplayState) (triggeredBy : EventId) :
    Option OwnerAddr :=
  match st.replayed.find? (fun t => t.id = triggeredBy) with
  | none => none
  | some t =>
    match t.kind with
    | .join => some t.actor
    | .pendingJoin _ =>
      if triggeredBy ∈ env.countersignedPendingIds then some t.actor else none
    | _ => none

def applyEpochCatchup (env : ReplayEnv) (st : ReplayState) (e : SignedMembershipEvent)
    (epoch : ℕ) (triggeredBy : EventId) (recipients : List RecipientCiphertext) :
    Option ReplayState :=
  if epoch ≠ st.m.currentEpoch.getD 0 then none
  else match catchupTrigger env st triggeredBy with
    | none => none
    | some target =>
      if target ∉ recipients.map (·.recipient) then none
      else if isEffectiveAdmin env.adminAddr st.m e.actor = false then none
      else some { st with
        m := { st.m with
          pendingCatchupFor := st.m.pendingCatchupFor \ (recipients.map (·.recipient)).toFinset } }

/-! ### Recovery and reset events -/

def applyRecoveryProposal (env : ReplayEnv) (st : ReplayState) (e : SignedMembershipEvent)
    (lostAdmin newAdmin : OwnerAddr) (configDigest : Digest) : Option ReplayState :=
  match st.m.recoveryDesignates with
  | none => none
  | some config =>
    if runningRecoveryDigest env.crypto st.m ≠ some configDigest then none
    else if e.actor ∉ config.designates ∨ isJoinedMember st.m e.actor = false then none
    else
      let work : RecoveryWork :=
        { proposer := e.actor
          lostAdmin := lostAdmin
          newAdmin := newAdmin
          t0WallMs := e.hlc.wallMs
          threshold := config.threshold
          vetoWindowMs := config.vetoWindowMs
          designates := config.designates
          configDigest := configDigest
          signers := {e.actor}
          tRReached := none
          deadlineAtReplay := none
          newAdminJoined := isJoinedMember st.m newAdmin }
      let work := maybeTipRecoveryThreshold work e.hlc.wallMs
      -- queued cosigns tip at the proposal's own wall, never at their own
      let work := (st.recPendingCosigns e.id).foldl
        (fun w cosign => foldRecoveryCosign w cosign e.hlc.wallMs) work
      some { st with
        recPendingCosigns := Function.update st.recPendingCosigns e.id []
        recProposals := st.recProposals.insert e.id work }

def queuedCosign (env : ReplayEnv) (st : ReplayState) (e : SignedMembershipEvent) :
    QueuedRecoveryCosign :=
  ⟨e.actor, runningRecoveryDigest env.crypto st.m, isJoinedMember st.m e.actor⟩

def applyRecoveryCosign (env : ReplayEnv) (st : ReplayState) (e : SignedMembershipEvent)
    (targetEventId : EventId) : ReplayState :=
  match st.recProposals[targetEventId]? with
  | some work =>
    { st with
      recProposals := st.recProposals.insert targetEventId
        (foldRecoveryCosign work (queuedCosign env st e) e.hlc.wallMs) }
  | none =>
    { st with
      recPendingCosigns := Function.update st.recPendingCosigns targetEventId
        (st.recPendingCosigns targetEventId ++ [queuedCosign env st e]) }

/-- Power 100 and Joined, or the bootstrap admin without a record. -/
def vetoQualifies (adminAddr : OwnerAddr) (m : MaterializedMembership) (actor : OwnerAddr) : Bool :=
  decide (m.power actor = 100) &&
    (isJoinedMember m actor || (decide (actor = adminAddr) && m.status actor = none))

def applyRecoveryVeto (env : ReplayEnv) (st : ReplayState) (e : SignedMembershipEvent)
    (targetEventId : EventId) : ReplayState :=
  if vetoQualifies env.adminAddr st.m e.actor then
    { st with recVetoes := st.recVetoes ++ [(targetEventId, e.hlc.wallMs, e.actor)] }
  else st

def applyDfrostResetProposal (env : ReplayEnv) (st : ReplayState) (e : SignedMembershipEvent)
    (targetVk : PubKey) (targetEpoch : ℕ) (newMembers : List OwnerAddr)
    (newThreshold vetoWindowMs : ℕ) : ReplayState :=
  let work : ResetWork :=
    { proposer := e.actor
      spaceId := e.communityId
      targetVk := targetVk
      targetEpoch := targetEpoch
      newMembers := newMembers
      newThreshold := newThreshold
      vetoWindowMs := vetoWindowMs
      t0WallMs := e.hlc.wallMs
      signers := {e.actor}
      tQReached := none
      effectiveQuorum := none
      responses := [] }
  let work := (st.pendingResetCosigns e.id).foldl foldResetCosign work
  let work := maybeTipResetQuorum work st.m.adminQuorum e.hlc.wallMs
  let work := (st.pendingResetResponses e.id).foldl
    (fun w response => foldResetResponse env.crypto w e.id response) work
  { st with
    pendingResetCosigns := Function.update st.pendingResetCosigns e.id []
    pendingResetResponses := Function.update st.pendingResetResponses e.id []
    resetWork := st.resetWork.insert e.id work }

def applyDfrostResetCosign (st : ReplayState) (e : SignedMembershipEvent)
    (targetEventId : EventId) : ReplayState :=
  match st.resetWork[targetEventId]? with
  | some work =>
    if e.actor ∈ work.signers then st
    else { st with
      resetWork := st.resetWork.insert targetEventId
        (maybeTipResetQuorum (foldResetCosign work e.actor) st.m.adminQuorum e.hlc.wallMs) }
  | none =>
    { st with
      pendingResetCosigns := Function.update st.pendingResetCosigns targetEventId
        (st.pendingResetCosigns targetEventId ++ [e.actor]) }

def applyDfrostResetResponse (env : ReplayEnv) (st : ReplayState) (e : SignedMembershipEvent)
    (targetEventId : EventId) (verdict : ResetVerdict) (groupSig : Sig) (newVk : Option PubKey) :
    ReplayState :=
  let response : QueuedResetResponse := ⟨e.hlc.wallMs, e.id, e.actor, verdict, groupSig, newVk⟩
  match st.resetWork[targetEventId]? with
  | some work =>
    { st with
      resetWork := st.resetWork.insert targetEventId
        (foldResetResponse env.crypto work targetEventId response) }
  | none =>
    { st with
      pendingResetResponses := Function.update st.pendingResetResponses targetEventId
        (st.pendingResetResponses targetEventId ++ [response]) }

/-! ### One event, and the whole replay -/

/-- A member who joins after a rotation needs the current key. -/
def markCatchup (m : MaterializedMembership) (x : OwnerAddr) : Finset OwnerAddr :=
  if 0 < m.currentEpoch.getD 0 then insert x m.pendingCatchupFor else m.pendingCatchupFor

def pendingExpired (env : ReplayEnv) (e : SignedMembershipEvent) : Bool :=
  decide (materializePendingExpiryMs < env.currentMaxWallMs - e.hlc.wallMs)

def applyEvent (env : ReplayEnv) (st : ReplayState) (e : SignedMembershipEvent) :
    Option ReplayState :=
  let m := st.m
  match e.kind with
  | .join =>
    some { st with
      m := { m with
        members := m.members.alter e.actor (onJoin e)
        pendingCatchupFor :=
          if shadowed m.members[e.actor]? then m.pendingCatchupFor else markCatchup m e.actor } }
  | .leave =>
    some { st with
      m := { m with
        members := m.members.alter e.actor (onLeave e)
        -- only a Leave that moved a record needs a rotation
        pendingRotationFor :=
          if m.status e.actor = none ∨ m.status e.actor = some .banned then m.pendingRotationFor
          else insert e.actor m.pendingRotationFor } }
  | .invite target =>
    some { st with m := { m with members := m.members.alter target (onInvite e) } }
  | .kick target _ => some { st with m := kickMember m target e.hlc }
  | .setPower target level =>
    some { st with m := { m with powerLevels := m.powerLevels.insert target level } }
  | .unban target _ =>
    some { st with m := { m with members := m.members.alter target onUnban } }
  | .channelCreate channelId name writePower kind =>
    some { st with
      m := { m with
        channels := m.channels.alter channelId fun prior =>
          some (prior.getD ⟨name, writePower, kind, e.hlc, none⟩) } }
  | .channelModify channelId name writePower =>
    some { st with
      m := { m with
        channels := m.channels.modify channelId fun info =>
          { info with
            name := name.getD info.name
            writePower := writePower.getD info.writePower } } }
  | .channelDelete channelId =>
    some { st with
      m := { m with
        channels := m.channels.modify channelId fun info =>
          { info with deletedAt := some (info.deletedAt.getD e.hlc) } } }
  | .epochRotation priorEpoch triggeredBy recipients =>
    applyEpochRotation env st e priorEpoch triggeredBy recipients
  | .epochCatchup epoch triggeredBy recipients =>
    applyEpochCatchup env st e epoch triggeredBy recipients
  | .fork _ _ => some st
  | .pendingJoin _ =>
    let countersigned : Bool := e.id ∈ env.canonicalPendingIds
    some { st with
      m := { m with
        members := m.members.alter e.actor (onPendingJoin countersigned (pendingExpired env e) e)
        pendingCatchupFor :=
          if shadowed m.members[e.actor]? || !countersigned then m.pendingCatchupFor
          else markCatchup m e.actor } }
  | .joinCountersign _ => some st
  | .adminProposal _ => some (applyAdminProposal env st e)
  | .adminCountersign targetEventId => some (applyAdminCountersign env st e targetEventId)
  | .reachabilityAnnounce _ => some st
  | .communityRelayAnnounce _ => some st
  | .deviceAnnounce =>
    some { st with m := { m with members := m.members.alter e.actor (onDeviceAnnounce e) } }
  | .deviceRetire _ cert =>
    some { st with m := { m with members := m.members.alter e.actor (onDeviceRetire cert.deviceKey) } }
  | .recoveryProposal lostAdmin newAdmin configDigest =>
    applyRecoveryProposal env st e lostAdmin newAdmin configDigest
  | .recoveryCosign targetEventId => some (applyRecoveryCosign env st e targetEventId)
  | .recoveryVeto targetEventId => some (applyRecoveryVeto env st e targetEventId)
  | .dfrostResetProposal targetVk targetEpoch newMembers newThreshold vetoWindowMs =>
    some (applyDfrostResetProposal env st e targetVk targetEpoch newMembers newThreshold
      vetoWindowMs)
  | .dfrostResetCosign targetEventId => some (applyDfrostResetCosign st e targetEventId)
  | .dfrostResetResponse targetEventId verdict groupSig newVk =>
    some (applyDfrostResetResponse env st e targetEventId verdict groupSig newVk)

/-- After an event that was not dropped: while the replay is inside a proposal's
window, note whether its new admin is Joined. -/
def refreshNewAdmin (e : SignedMembershipEvent) (st : ReplayState) : ReplayState :=
  { st with
    recProposals := st.recProposals.map fun _ work =>
      if work.deadlineAtReplay.all (fun d => decide (e.hlc.wallMs ≤ d)) then
        { work with newAdminJoined := isJoinedMember st.m work.newAdmin }
      else work }

def step (env : ReplayEnv) (st : ReplayState) (e : SignedMembershipEvent) : ReplayState :=
  { ((applyEvent env st e).map (refreshNewAdmin e)).getD st with replayed := st.replayed ++ [e] }

def replay (env : ReplayEnv) (sorted : List SignedMembershipEvent) : ReplayState :=
  sorted.foldl (step env) (ReplayState.init env.adminAddr)

/-! ### Post-pass -/

/-- The derived effect of one executed recovery: promote, ban the lost admin,
mark the rotation. -/
def executeRecovery (env : ReplayEnv) (st : ReplayState) (m : MaterializedMembership)
    (id : EventId) (work : RecoveryWork) (deadlineMs : ℕ) : MaterializedMembership :=
  let derivedAt : Hlc := ⟨deadlineMs, 0, ""⟩
  { m with
    powerLevels := m.powerLevels.insert work.newAdmin 100
    members := m.members.alter work.lostAdmin
      (onDerivedKick (decide (work.lostAdmin = env.adminAddr)) derivedAt)
    pendingRotationFor :=
      if m.status work.lostAdmin = some .pendingJoin ∨ id ∈ st.recRotationApplied then
        m.pendingRotationFor
      else insert work.lostAdmin m.pendingRotationFor }

def recoveryPostPass (env : ReplayEnv) (st : ReplayState)
    (outcomes : BTreeMap EventId RecoveryOutcome) : MaterializedMembership :=
  st.recProposals.toList.foldl (fun m p =>
    match outcomes[p.1]? with
    | some outcome =>
      if outcome.phase = .executed then
        outcome.deadlineMs.elim m (executeRecovery env st m p.1 p.2)
      else m
    | none => m) st.m

def recoveryViews (recProposals : BTreeMap EventId RecoveryWork)
    (outcomes : BTreeMap EventId RecoveryOutcome) : List RecoveryProposalView :=
  (recProposals.toList.filterMap fun p => outcomes[p.1]?.map fun outcome =>
    { id := p.1
      proposer := p.2.proposer
      lostAdmin := p.2.lostAdmin
      newAdmin := p.2.newAdmin
      signers := p.2.signers
      threshold := p.2.threshold
      proposedAtWallMs := p.2.t0WallMs
      deadlineMs := outcome.deadlineMs
      phase := outcome.phase
      vetoedBy := outcome.vetoedBy : RecoveryProposalView }).insertionSort
    fun v w => (toLex (v.proposedAtWallMs, v.id) : ℕ ×ₗ ℕ) ≤ toLex (w.proposedAtWallMs, w.id)

/-- A consumed reset is superseded by a later valid veto under the same key. -/
def consumptionSuperseded (resetWork : BTreeMap EventId ResetWork) (targetVk : PubKey)
    (outcome : ResetOutcome) : Bool :=
  decide (outcome.phase = .consumed) && outcome.consumedAtMs.any fun consumedAt =>
    resetWork.toList.any fun p => decide (p.2.targetVk = targetVk) &&
      p.2.responses.any fun r => decide (r.2.2.1 = .veto) && decide (consumedAt < r.1)

def resetViews (resetWork : BTreeMap EventId ResetWork)
    (outcomes : BTreeMap EventId ResetOutcome) : List ResetProposalView :=
  (resetWork.toList.filterMap fun p => outcomes[p.1]?.map fun outcome =>
    { id := p.1
      proposer := p.2.proposer
      targetVk := p.2.targetVk
      targetEpoch := p.2.targetEpoch
      newMembers := p.2.newMembers
      newThreshold := p.2.newThreshold
      vetoWindowMs := p.2.vetoWindowMs
      signers := p.2.signers
      proposedAtWallMs := p.2.t0WallMs
      deadlineMs := outcome.deadlineMs
      authorizedAtMs := outcome.authorizedAtMs
      endorsed := outcome.endorsed
      phase := outcome.phase
      consumedNewVk := outcome.consumedNewVk
      consumptionSuperseded := consumptionSuperseded resetWork p.2.targetVk outcome
      effectiveQuorum := p.2.effectiveQuorum : ResetProposalView }).insertionSort
    fun v w => (toLex (v.proposedAtWallMs, v.id) : ℕ ×ₗ ℕ) ≤ toLex (w.proposedAtWallMs, w.id)

def recoveryOutcomesAt (st : ReplayState) (t : ℕ) : BTreeMap EventId RecoveryOutcome :=
  evaluateRecoveryPhases st.recProposals st.recVetoes st.recConfigChangeWalls t

def postPass (env : ReplayEnv) (st : ReplayState) : MaterializedMembership :=
  let outcomes := recoveryOutcomesAt st env.currentMaxWallMs
  { recoveryPostPass env st outcomes with
    recoveryProposals := recoveryViews st.recProposals outcomes
    resetProposals :=
      resetViews st.resetWork (evaluateResetPhases st.resetWork env.currentMaxWallMs) }

def sortEvents (events : List SignedMembershipEvent) : List SignedMembershipEvent :=
  sortBy eventSortKey events

def materializeWithNow (C : Crypto) (events : List SignedMembershipEvent)
    (adminAddr : OwnerAddr) (nowMs : Option ℕ) : MaterializedMembership :=
  let env := prePass C events adminAddr nowMs
  postPass env (replay env (sortEvents events))

def materializeWithBounds (C : Crypto) (events : List SignedMembershipEvent)
    (adminAddr : OwnerAddr) (nowMs receiverNowMs : Option ℕ) : MaterializedMembership :=
  match receiverNowMs with
  | some rn =>
    materializeWithNow C
      (events.filter fun e => !rejectFuture e.hlc.wallMs rn maxForwardSkewMs) adminAddr nowMs
  | none => materializeWithNow C events adminAddr nowMs

/-- The state `verify_event` judges an event against: the events that sort
strictly before it, aged to its own wall. -/
def priorStateAtEvent (C : Crypto) (allEvents : List SignedMembershipEvent)
    (target : SignedMembershipEvent) (adminAddr : OwnerAddr) : MaterializedMembership :=
  materializeWithNow C (before eventSortKey allEvents target) adminAddr (some target.hlc.wallMs)

end Harmony.Membership
