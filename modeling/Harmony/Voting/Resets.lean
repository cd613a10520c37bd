import Harmony.Voting.Tiers

/-! What happens to the polls of a community from outside their events: a reset of the
committee voids the open Tier-3 polls of its epochs, and a new poll is given its view of the
committees. -/

namespace Harmony.Voting

open Harmony.Lib
open Harmony.Membership (EventId)

def Tier3PollState.voidable (s : Tier3PollState) (oldEpoch : ℕ) : Bool :=
  s.voided.isNone && !decide s.Terminal && s.meta.communityEpoch ≤ oldEpoch

def Tier3PollState.voidedBy (s : Tier3PollState) (info : VoidedInfo) : Tier3PollState :=
  if s.voidable info.oldEpoch then { s with voided := some info } else s

namespace PollState

def voidable (p : PollState) (oldEpoch : ℕ) : Bool :=
  match p.tierState with
  | .tier3 t3 => t3.voidable oldEpoch
  | _ => false

def voidFor (p : PollState) (info : VoidedInfo) : PollState :=
  match p.tierState with
  | .tier3 t3 => { p with tierState := .tier3 (t3.voidedBy info) }
  | _ => p

def setOracle (p : PollState) (oracle : CommitteeOracle) : PollState :=
  match p.tierState with
  | .tier3 t3 => { p with tierState := .tier3 { t3 with committeeOracle := oracle } }
  | _ => p

end PollState

namespace VotingLog

def raiseWatermark (watermark : Option VoidedInfo) (info : VoidedInfo) : Option VoidedInfo :=
  if watermark.all (·.oldEpoch < info.oldEpoch) then some info else watermark

/-- The log, and how many polls were voided. -/
def voidTier3PollsForReset (log : VotingLog) (oldEpoch : ℕ) (resetId : EventId) :
    VotingLog × ℕ :=
  let info : VoidedInfo := ⟨resetId, oldEpoch⟩
  ({ log with
     polls := log.polls.map fun _ p => p.voidFor info
     retiredEpochWatermark := raiseWatermark log.retiredEpochWatermark info },
   (log.polls.toList.filter fun q => q.2.voidable oldEpoch).length)

/-- The resets of all retired committees once more, oldest first. -/
def replayVkLineageVoids (log : VotingLog) (lineage : List (ℕ × EventId)) : VotingLog × ℕ :=
  lineage.foldl (fun (log, total) (oldEpoch, resetId) =>
    let (log, count) := log.voidTier3PollsForReset oldEpoch resetId
    (log, total + count)) (log, 0)

def installCommitteeOracle (log : VotingLog) (pid : PollId) (oracle : CommitteeOracle) :
    VotingLog :=
  { log with polls := log.polls.alter pid (·.map (·.setOracle oracle)) }

end VotingLog
end Harmony.Voting
