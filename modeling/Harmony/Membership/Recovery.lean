import Harmony.Membership.Types

/-! Lifecycles that are judged at read time: admin recovery proposals and
committee resets. The replay accumulates work entries; `evaluateRecoveryPhases`
and `evaluateResetPhases` are pure functions of the entries and a clock. -/

namespace Harmony.Membership

open Harmony.Lib

structure RecoveryWork where
  proposer : OwnerAddr
  lostAdmin : OwnerAddr
  newAdmin : OwnerAddr
  t0WallMs : ℕ
  threshold : ℕ
  vetoWindowMs : ℕ
  designates : List OwnerAddr
  configDigest : Digest
  signers : Finset OwnerAddr
  tRReached : Option ℕ
  deadlineAtReplay : Option ℕ
  newAdminJoined : Bool
deriving DecidableEq

/-- Set once, at the first fold that brings the signers to the threshold. -/
def maybeTipRecoveryThreshold (work : RecoveryWork) (atWallMs : ℕ) : RecoveryWork :=
  if work.tRReached = none ∧ 0 < work.threshold ∧ work.threshold ≤ work.signers.card then
    { work with
      tRReached := some atWallMs
      deadlineAtReplay := checkedAdd atWallMs work.vetoWindowMs }
  else work

structure QueuedRecoveryCosign where
  actor : OwnerAddr
  runningDigest : Option Digest
  joined : Bool
deriving DecidableEq

def foldRecoveryCosign (work : RecoveryWork) (cosign : QueuedRecoveryCosign)
    (tipWallMs : ℕ) : RecoveryWork :=
  if cosign.joined = false then work
  else if cosign.runningDigest ≠ some work.configDigest then work
  else if cosign.actor ∉ work.designates then work
  else if cosign.actor ∈ work.signers then work
  else maybeTipRecoveryThreshold
    { work with signers := insert cosign.actor work.signers } tipWallMs

def runningRecoveryDigest (C : Crypto) (m : MaterializedMembership) : Option Digest :=
  m.recoveryDesignates.bind C.recoveryConfigDigest

structure RecoveryOutcome where
  phase : RecoveryPhase
  deadlineMs : Option ℕ
  vetoedBy : Option OwnerAddr
deriving DecidableEq

/-- The deadline and whether collecting has expired, at time reference `t`. -/
def recoveryDeadline (work : RecoveryWork) (t : ℕ) : Option ℕ × Bool :=
  match work.tRReached with
  | some tr =>
    if tr - work.t0WallMs ≤ adminProposalExpiryMs then
      -- an overflowing window fails closed: no deadline, collecting expired
      match checkedAdd tr work.vetoWindowMs with
      | some deadline => (some deadline, false)
      | none => (none, true)
    else (none, true)
  | none => (none, decide (t - work.t0WallMs > adminProposalExpiryMs))

/-- A wall inside `[t0, deadline]`; without a deadline the window is open-ended. -/
def inRecoveryWindow (t0 : ℕ) (deadline : Option ℕ) (wall : ℕ) : Bool :=
  decide (t0 ≤ wall) && deadline.all (fun d => decide (wall ≤ d))

/-- First pass of `evaluateRecoveryPhases`: one proposal, ignoring its rivals. -/
def recoveryOutcome (recVetoes : List (EventId × ℕ × OwnerAddr)) (configChangeWalls : List ℕ)
    (t : ℕ) (id : EventId) (work : RecoveryWork) : RecoveryOutcome :=
  let (deadline, collectExpired) := recoveryDeadline work t
  let vetoedBy := (recVetoes.find? fun v =>
    decide (v.1 = id) && inRecoveryWindow work.t0WallMs deadline v.2.1).map (·.2.2)
  let configKilled := configChangeWalls.any (inRecoveryWindow work.t0WallMs deadline)
  let phase : RecoveryPhase :=
    if vetoedBy.isSome then .vetoed
    else if configKilled then .configChanged
    else if collectExpired then .expired
    else match deadline with
      | none => .collecting
      | some d =>
        if t > d ∧ work.newAdminJoined then .executed
        else if t > d then .stalled
        else .timeLocked
  ⟨phase, deadline, if phase = .vetoed then vetoedBy else none⟩

/-- The tie-break key `(t_R, id)` of an executable proposal. -/
def rivalKey (id : EventId) (work : RecoveryWork) (o : RecoveryOutcome) : ℕ ×ₗ ℕ :=
  toLex (o.deadlineMs.getD 0 - work.vetoWindowMs, id)

/-- Second pass, first half: the least key per lost admin among executable proposals. -/
def recoveryWinners (outcome : EventId → RecoveryWork → RecoveryOutcome)
    (recProposals : BTreeMap EventId RecoveryWork) : BTreeMap OwnerAddr (ℕ ×ₗ ℕ) :=
  recProposals.toList.foldl (fun winners p =>
    let o := outcome p.1 p.2
    if o.phase = .executed then
      winners.alter p.2.lostAdmin fun best =>
        some (best.elim (rivalKey p.1 p.2 o) (min (rivalKey p.1 p.2 o)))
    else winners) ∅

def evaluateRecoveryPhases (recProposals : BTreeMap EventId RecoveryWork)
    (recVetoes : List (EventId × ℕ × OwnerAddr)) (configChangeWalls : List ℕ) (t : ℕ) :
    BTreeMap EventId RecoveryOutcome :=
  let outcome := recoveryOutcome recVetoes configChangeWalls t
  let winners := recoveryWinners outcome recProposals
  recProposals.map fun id work =>
    let o := outcome id work
    if o.phase = .executed ∧ winners[work.lostAdmin]? ≠ some (rivalKey id work o) then
      { o with phase := .superseded }
    else o

structure ResetWork where
  proposer : OwnerAddr
  spaceId : SpaceId
  targetVk : PubKey
  targetEpoch : ℕ
  newMembers : List OwnerAddr
  newThreshold : ℕ
  vetoWindowMs : ℕ
  t0WallMs : ℕ
  signers : Finset OwnerAddr
  tQReached : Option ℕ
  effectiveQuorum : Option ℕ
  responses : List (ℕ × EventId × ResetVerdict × Option PubKey)
deriving DecidableEq

def maybeTipResetQuorum (work : ResetWork) (adminQuorumNow atWallMs : ℕ) : ResetWork :=
  if work.tQReached = none ∧ 0 < adminQuorumNow ∧ adminQuorumNow ≤ work.signers.card then
    { work with tQReached := some atWallMs, effectiveQuorum := some adminQuorumNow }
  else work

def foldResetCosign (work : ResetWork) (actor : OwnerAddr) : ResetWork :=
  { work with signers := insert actor work.signers }

structure QueuedResetResponse where
  wallMs : ℕ
  responseId : EventId
  actor : OwnerAddr
  verdict : ResetVerdict
  groupSig : Sig
  newVk : Option PubKey
deriving DecidableEq

def dfrostResetEndorseDomain : String := "harmony-dfrost-reset-endorse-v1"
def dfrostResetVetoDomain : String := "harmony-dfrost-reset-veto-v1"
def dfrostResetConsumedDomain : String := "harmony-dfrost-reset-consumed-v1"

/-- The domain tag of a verdict and the key its group signature is checked
under; a consumed verdict without a successor key has neither. -/
def resetVerdictKey (verdict : ResetVerdict) (targetVk : PubKey) (newVk : Option PubKey) :
    Option (String × PubKey) :=
  match verdict with
  | .endorse => some (dfrostResetEndorseDomain, targetVk)
  | .veto => some (dfrostResetVetoDomain, targetVk)
  | .consumed => newVk.map fun nv => (dfrostResetConsumedDomain, nv)

/-- An invalid response is dropped, a valid one is appended. -/
def foldResetResponse (C : Crypto) (work : ResetWork) (proposalId : EventId)
    (response : QueuedResetResponse) : ResetWork :=
  if response.verdict = .consumed ∧ response.actor ∉ work.newMembers then work
  else
    match C.dfrostResetDigest work.spaceId proposalId work.targetVk work.targetEpoch
        work.newMembers work.newThreshold,
      resetVerdictKey response.verdict work.targetVk response.newVk with
    | some digest, some (domain, verifyVk) =>
      let messageHash := C.dfrostResetMessageHash domain digest response.newVk
      if C.verifySchnorrSignature verifyVk messageHash response.groupSig then
        { work with
          responses := work.responses ++
            [(response.wallMs, response.responseId, response.verdict, response.newVk)] }
      else work
    | _, _ => work

structure ResetOutcome where
  phase : ResetPhase
  deadlineMs : Option ℕ
  authorizedAtMs : Option ℕ
  endorsed : Bool
  consumedNewVk : Option PubKey
  consumedAtMs : Option ℕ
deriving DecidableEq

/-- The deadline and whether collecting has expired, as for recoveries. -/
def resetDeadline (work : ResetWork) (t : ℕ) : Option ℕ × Bool :=
  match work.tQReached with
  | some tq =>
    if tq - work.t0WallMs ≤ adminProposalExpiryMs then
      match checkedAdd tq work.vetoWindowMs with
      | some d => (some d, false)
      | none => (none, true)
    else (none, true)
  | none => (none, decide (t - work.t0WallMs > adminProposalExpiryMs))

/-- The outcome of the endorse/veto contest and of the finality wait:
phase, authorization time, whether endorsed. -/
def resetContest (work : ResetWork) (t : ℕ) : ResetPhase × Option ℕ × Bool :=
  let (deadline, collectExpired) := resetDeadline work t
  let tQ := if collectExpired then none else work.tQReached
  let responseWindowEnd := deadline.getD (saturatingAdd work.t0WallMs adminProposalExpiryMs)
  let winner := (work.responses.filter fun r =>
    decide (r.2.2.1 ≠ .consumed) && decide (work.t0WallMs ≤ r.1) &&
      decide (r.1 ≤ responseWindowEnd)).argmin fun r => (toLex (r.1, r.2.1) : ℕ ×ₗ ℕ)
  match winner with
  | some (_, _, .veto, _) => (.vetoed, none, false)
  | some (wWall, _, .endorse, _) =>
    match tQ with
    | some tq => (.authorized, some (max wWall tq), true)
    | none => if collectExpired then (.expired, none, false) else (.collecting, none, false)
  | _ =>
    if collectExpired then (.expired, none, false)
    else match tQ with
      | none => (.collecting, none, false)
      | some _ =>
        match (deadline.bind fun d => checkedAdd d resetFinalityMs) with
        | some fd => if t > fd then (.authorized, some fd, false) else (.window, none, false)
        | none => (.window, none, false)

def resetOutcome (t : ℕ) (work : ResetWork) : ResetOutcome :=
  let deadline := (resetDeadline work t).1
  let (phase, authorizedAtMs, endorsed) := resetContest work t
  match phase, authorizedAtMs with
  | .authorized, some a =>
    -- a consumed response counts from authorization up to the lapse cutoff
    let lapseCutoff := checkedAdd a resetAuthorizedLapseMs
    let consumption := (work.responses.filter fun r =>
      decide (r.2.2.1 = .consumed) && r.2.2.2.isSome && decide (a ≤ r.1) &&
        lapseCutoff.all (fun cut => decide (r.1 < cut))).argmin
          fun r => (toLex (r.1, r.2.1) : ℕ ×ₗ ℕ)
    match consumption with
    | some (cWall, _, _, nv) =>
      ⟨.consumed, deadline, authorizedAtMs, endorsed, nv, some cWall⟩
    | none =>
      if lapseCutoff.any (fun cut => decide (t > cut)) then
        ⟨.lapsed, deadline, authorizedAtMs, endorsed, none, none⟩
      else ⟨.authorized, deadline, authorizedAtMs, endorsed, none, none⟩
  | _, _ => ⟨phase, deadline, authorizedAtMs, endorsed, none, none⟩

def evaluateResetPhases (workMap : BTreeMap EventId ResetWork) (t : ℕ) :
    BTreeMap EventId ResetOutcome :=
  workMap.map fun _ work => resetOutcome t work

end Harmony.Membership
