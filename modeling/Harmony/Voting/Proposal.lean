import Harmony.Voting.Delegation
import Harmony.Voting.Events

/-! A Tier-2 proposal: the conviction of its voters, weighted by delegation, against a
threshold that falls with participation. -/

namespace Harmony.Voting

open Harmony.Lib
open Harmony.Membership (OwnerAddr)

/-- `i128` arithmetic wraps; the thresholds come from the wire. -/
def wrapI128 (x : ℤ) : ℤ := Int.bmod x (2 ^ 128)

/-- The accounts that delegate to `delegate` directly. -/
def DelegationGraph.delegatorsOf (g : DelegationGraph) (delegate : OwnerAddr) : List OwnerAddr :=
  (g.edges.toList.filter fun p => p.2.1 = delegate).map Prod.fst

structure Tier2ProposalState where
  config : Tier2PollConfig
  totalSupply : ℕ
  perVoter : BTreeMap OwnerAddr VoterConvictionState := ∅
  thresholdReachedAtMs : Option ℤ := none
  lastUnsignalAfterThresholdMs : Option ℤ := none

namespace Tier2ProposalState

def halfLifeMs (t2 : Tier2ProposalState) : ℤ := t2.config.halfLifeSeconds * 1000

def totalConvictionAt (t2 : Tier2ProposalState) (tMs : ℤ) : ℤ :=
  (t2.perVoter.values.map fun v => v.convictionAt tMs t2.halfLifeMs).sum

def effectiveSupplyAt (t2 : Tier2ProposalState) : ℕ :=
  t2.perVoter.values.countP (·.isSupporting)

/-- `T_min + (T_max - T_min) (1 - ratio) ^ beta`. -/
def thresholdConvictionAt (t2 : Tier2ProposalState) : ℤ :=
  if t2.totalSupply = 0 then t2.config.thresholdMaxQ32
  else if t2.config.beta = 0 then t2.config.thresholdMaxQ32
  else
    let ratio := max 0 (min (t2.effectiveSupplyAt * q32 / t2.totalSupply) q32)
    let oneMinus := q32 - ratio
    let pow := (fun p => p * oneMinus / 2 ^ 32)^[t2.config.beta - 1] oneMinus
    let span := wrapI128 (t2.config.thresholdMaxQ32 - t2.config.thresholdMinQ32)
    wrapI128 (t2.config.thresholdMinQ32 + wrapI128 (span * pow) / 2 ^ 32)

/-- A voter counts once more for every delegator without a signal of its own. -/
def totalConvictionAtWithDelegation (t2 : Tier2ProposalState) (tMs : ℤ)
    (g : DelegationGraph) : ℤ :=
  if t2.config.delegationAllowed then
    (t2.perVoter.toList.map fun (voter, v) =>
      v.convictionAt tMs t2.halfLifeMs *
        (1 + (g.delegatorsOf voter).countP fun d => (t2.perVoter[d]?).isNone)).sum
  else t2.totalConvictionAt tMs

/-- A Signal of `actor`; an unsignal past the threshold restarts the contest. -/
def signal (t2 : Tier2ProposalState) (actor : OwnerAddr) (support : Bool) (wallMs logical : ℕ)
    (inThresholdReached : Bool) : Tier2ProposalState :=
  { t2 with
    perVoter := t2.perVoter.insert actor
      ((t2.perVoter[actor]?.getD {}).applySignal support wallMs logical t2.halfLifeMs)
    lastUnsignalAfterThresholdMs :=
      if !support && inThresholdReached then some wallMs else t2.lastUnsignalAfterThresholdMs }

end Tier2ProposalState
end Harmony.Voting
