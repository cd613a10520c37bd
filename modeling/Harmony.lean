import Harmony.Membership.Devices
import Harmony.Membership.Catchups
import Harmony.Membership.Proposals
import Harmony.Membership.Terminal
import Harmony.Membership.ResetRuns
import Harmony.Membership.Lockout
import Harmony.Membership.AutoExec
import Harmony.Membership.ViewCache
import Harmony.Reconcile.ChunkIndex
import Harmony.Reconcile.Rounds
import Harmony.Voting.DelegationOrder
import Harmony.Voting.Stores
import Harmony.Voting.Ballots
import Harmony.Voting.Tiers
import Harmony.Voting.Neutrality
import Harmony.Voting.SecretStar
import Harmony.Voting.Drops
import Harmony.Voting.Weights
import Harmony.Voting.ConvictionGrowth
import Harmony.Voting.Rebuild
import Harmony.Voting.Tier3Runs
import Harmony.Voting.Restore
import Harmony.Voting.SecretPolls
import Harmony.Voting.Selections
import Harmony.Voting.ResetVoids
import Harmony.Voting.MiniPublic
import Harmony.Voting.Sortition
import Harmony.Voting.Bridging
import Harmony.Voting.Approval
import Harmony.Owner.ReceivedGrants
import Harmony.Owner.DeviceLists
import Harmony.Owner.SpaceTable
import Harmony.Owner.Survival
import Harmony.Owner.Collapse
import Harmony.Owner.DmRows
import Harmony.Owner.Grants
import Harmony.Channel.Crashes
import Harmony.Deposits.Consistency
import Harmony.Fleet.KeyEpoch
import Harmony.Hosting.Pacts
import Harmony.Hosting.Applied
import Harmony.Transport.SpillRuns
import Harmony.Transport.Sweeps
import Harmony.Transport.DmInvites
import Harmony.Transport.ZenohAdmission
import Harmony.Files.Sealed
import Harmony.Mint.Edits
import Harmony.Mint.Stamps
import Harmony.Mint.Tombstones
import Harmony.FleetSync.Dirty
import Harmony.FleetSync.Durability
import Harmony.Lib.Joins
import Harmony.Owner.MergeLaws
import Harmony.Channel.Healing
