import Harmony.Voting.Log

/-! `run_voting_tick` on the log of one community. The passes of a tick take the lock
one after the other, so calls of other tasks can fall between them: a pass is a step
of its own and a tick is five of them in a row. -/

namespace Harmony.Voting

open Harmony.Membership (SpaceId)

structure TickContext where
  contestabilityWindowMs : ℤ
  /-- An identity directory and a device cipher are at hand. -/
  canPersist : Bool

/-- The log, and what the tick carries from one pass to the next. -/
structure VotingNode where
  log : VotingLog := {}
  toFinalize : List PollId := []
  lastArchiveSweepMs : ℤ := 0

inductive TickPass where
  | closeExpired
  | detectThreshold
  | collectUncontested
  | finalize
  | archiveSweep
deriving DecidableEq

def archiveSweepIntervalMs : ℤ := 24 * 60 * 60 * 1000

namespace PollState

/-- Pass 1. -/
def closeExpired (nowMs : ℤ) (p : PollState) : PollState :=
  if p.meta.tier = .approval ∧ p.meta.lifecycle = .open ∧ p.meta.closesAt.wallMs ≤ nowMs then
    p.setLifecycle .closed
  else p

/-- Pass 2: the threshold is crossed, or conviction fell below it again. -/
def detectThreshold (nowMs : ℤ) (graph : DelegationGraph) (p : PollState) : PollState :=
  if p.meta.tier ≠ .conviction then p
  else
    match p.tierState with
    | .tier2 t2 =>
      let total := t2.totalConvictionAtWithDelegation nowMs graph
      let threshold := t2.thresholdConvictionAt
      if p.meta.lifecycle = .open ∧ threshold ≤ total then
        { p with tierState := .tier2 { t2 with
          thresholdReachedAtMs := some nowMs
          lastUnsignalAfterThresholdMs := none } }.setLifecycle .thresholdReached
      else if p.meta.lifecycle = .thresholdReached ∧ total < threshold then
        { p with tierState := .tier2 { t2 with
          thresholdReachedAtMs := none
          lastUnsignalAfterThresholdMs := some nowMs } }.setLifecycle .open
      else p
    | _ => p

/-- The window has passed since the later of the crossing and the last unsignal. -/
def uncontested (windowMs nowMs : ℤ) (p : PollState) : Bool :=
  p.meta.lifecycle = .thresholdReached &&
    match p.tierState with
    | .tier2 t2 => t2.thresholdReachedAtMs.any fun reachedAt =>
        windowMs ≤ nowMs - max reachedAt (t2.lastUnsignalAfterThresholdMs.getD reachedAt)
    | _ => false

/-- The second half of pass 3a checks the window once more. -/
def finalizeUncontested (windowMs nowMs : ℤ) (p : PollState) : PollState :=
  if p.uncontested windowMs nowMs then
    { p with «meta» := { p.meta with
      lifecycle := .finalized
      finalizedAtMs := some (nowMs.toNat % 2 ^ 64) } }
  else p

end PollState

namespace VotingNode

variable (cx : Codec) (cv : Curve) (communityId : SpaceId) (ctx : TickContext)

def mapPolls (node : VotingNode) (f : PollId → PollState → PollState) : VotingNode :=
  { node with log := { node.log with polls := node.log.polls.map f } }

def pass (node : VotingNode) (nowMs : ℤ) : TickPass → VotingNode
  | .closeExpired => node.mapPolls fun _ p => p.closeExpired nowMs
  | .detectThreshold => node.mapPolls fun _ p => p.detectThreshold nowMs node.log.delegationGraph
  | .collectUncontested =>
    { node with toFinalize := node.log.polls.keys.filter fun pid =>
        node.log.polls[pid]?.any fun p =>
          p.meta.tier = .conviction && p.uncontested ctx.contestabilityWindowMs nowMs }
  | .finalize =>
    { node.mapPolls fun pid p =>
        if pid ∈ node.toFinalize then p.finalizeUncontested ctx.contestabilityWindowMs nowMs
        else p with toFinalize := [] }
  | .archiveSweep =>
    if archiveSweepIntervalMs ≤ nowMs - node.lastArchiveSweepMs then
      { node with
        log := if ctx.canPersist then (node.log.archiveFinalizedPolls cx nowMs.toNat).1 else node.log
        lastArchiveSweepMs := nowMs }
    else node

end VotingNode

/-- One step of a node: a call on the log, or a pass of a tick. -/
inductive VotingStep where
  | apply (event : SignedVotingEvent) (snapshot : Option MembershipSnapshot)
  | pass (pass : TickPass) (nowMs : ℤ)

/-- `run_voting_tick`, undisturbed. -/
def runVotingTick (nowMs : ℤ) : List VotingStep :=
  [.pass .closeExpired nowMs, .pass .detectThreshold nowMs, .pass .collectUncontested nowMs,
    .pass .finalize nowMs, .pass .archiveSweep nowMs]

namespace VotingNode

variable (cx : Codec) (cv : Curve) (communityId : SpaceId) (ctx : TickContext)

def step (node : VotingNode) : VotingStep → VotingNode
  | .apply event snapshot =>
    { node with log := (node.log.applyWithSnapshot cx cv event communityId snapshot).1 }
  | .pass pass nowMs => node.pass cx ctx nowMs pass

def run (steps : List VotingStep) : VotingNode := steps.foldl (step cx cv communityId ctx) {}

end VotingNode
end Harmony.Voting
