import Harmony.Lib.Checks
import Harmony.Lib.Sorted
import Harmony.Membership.Types

/-! The owner-state store that an owner's own devices replicate: conversation
rows and their delivery records, tombstones, the device cache, libraries,
friends and file grants. Ids, keys and content ids are numbers, as only equality
and their big-endian order are used; a `BTreeSet` is a `Finset`. -/

namespace Harmony.Membership

/-- The derived order of `Hlc`: lexicographic in declaration order. -/
def Hlc.key (h : Hlc) : ℕ ×ₗ ℕ ×ₗ String := toLex (h.wallMs, toLex (h.logical, h.deviceId))

theorem Hlc.key_injective : Function.Injective Hlc.key := by
  rintro ⟨w, l, d⟩ ⟨w', l', d'⟩ h
  simpa [Hlc.key] using h

instance : LinearOrder Hlc := LinearOrder.lift' Hlc.key Hlc.key_injective

end Harmony.Membership

namespace Harmony.Owner

open Harmony.Lib
open Harmony.Membership (OwnerAddr SpaceId Hlc Bytes)

abbrev ContentId := ℕ
abbrev OutboxEntryId := ℕ
abbrev DeviceIdentityHash := ℕ
abbrev IdentityPub := ℕ
abbrev DmContentKey := ℕ
abbrev EpochKey := ℕ

def isStrictlyNewerThan (a b : Hlc) : Bool := b < a

@[simp] theorem isStrictlyNewerThan_iff {a b : Hlc} : isStrictlyNewerThan a b = true ↔ b < a := by
  simp [isStrictlyNewerThan]

inductive SpaceKind where
  | folder
  | community
  | channel
  | publicChannel
  | dm
  | groupDm
deriving DecidableEq

inductive TransportBinding where
  | zenoh (topic : String)
deriving DecidableEq

inductive NotificationPref where
  | all
  | mentions
  | muted
deriving DecidableEq

inductive ReadReceiptPref where
  | off
  | broadcast
deriving DecidableEq

/-- `ReadReceiptPref::stored`: no preference is kept for `off`. -/
def ReadReceiptPref.stored : ReadReceiptPref → Option ReadReceiptPref
  | off => none
  | other => some other

structure Space where
  id : SpaceId
  kind : SpaceKind
  parent : Option SpaceId := none
  communityId : Option SpaceId := none
  name : String := ""
  transport : Option TransportBinding := none
  members : List OwnerAddr := []
  customName : Option String := none
  notificationPref : Option NotificationPref := none
  readReceiptPref : Option ReadReceiptPref := none
  leftAt : Option Hlc := none
  createdAt : Hlc
  updatedAt : Hlc
  contentKey : Option DmContentKey := none
  priorContentKeys : List DmContentKey := []
  currentEpoch : Option ℕ := none
  currentEpochKey : Option EpochKey := none
  oldEpochKeys : BTreeMap ℕ EpochKey := ∅
  adminAddr : Option OwnerAddr := none
  isInviteOnly : Option Bool := none
  sharedInProfile : Bool := false
  pendingJoinAt : Option Hlc := none

inductive DedupeKey where
  | none
  | id (id : SpaceId)
  | topic (topic : String)
  | sortedMembers (members : List OwnerAddr)
deriving DecidableEq

/-- The derived order of `DedupeKey`: by variant, then by payload. -/
def DedupeKey.key : DedupeKey → ℕ ×ₗ ℕ ×ₗ String ×ₗ List ℕ
  | .none => toLex (0, toLex (0, toLex ("", [])))
  | .id i => toLex (1, toLex (i, toLex ("", [])))
  | .topic t => toLex (2, toLex (0, toLex (t, [])))
  | .sortedMembers ms => toLex (3, toLex (0, toLex ("", ms)))

theorem DedupeKey.key_injective : Function.Injective DedupeKey.key := by
  intro a b h
  cases a <;> cases b <;> simp_all [DedupeKey.key]

instance : LinearOrder DedupeKey := LinearOrder.lift' DedupeKey.key DedupeKey.key_injective

instance DedupeKey.transOrd : Std.TransOrd DedupeKey := inferInstance

instance : Std.LawfulEqOrd DedupeKey where
  eq_of_compare h := compare_eq_iff_eq.mp h

/-- The fields that only a community row carries. -/
inductive CommunityField where
  | pendingJoinAt
  | currentEpoch
  | currentEpochKey
  | oldEpochKeys
  | adminAddr
  | isInviteOnly
  | sharedInProfile
deriving DecidableEq

/-- `InvariantError`: one constructor for each message of `validate_invariants`,
with the values the message prints. -/
inductive InvariantError where
  | onlyCommunityCarries (kind : SpaceKind) (field : CommunityField)
  | folderTransport
  | folderMembers
  | channelCommunityId
  | channelTransport
  | publicChannelCommunityId
  | publicChannelTransport
  | dmMembers (len unique : ℕ)
  | dmMembersUnsorted
  | dmTransport
  | groupDmMembers (len unique : ℕ)
  | groupDmMembersUnsorted
  | groupDmTransport
  | communityMissing (field : CommunityField)
  | communityMembers
  | communityTransport
  | communityCommunityId
  | communityContentKey
  | contentKeyRequired (kind : SpaceKind)
  | communityPriorContentKeys
  | contentKeyForbidden (kind : SpaceKind)
  | priorContentKeysForbidden (kind : SpaceKind)
  | priorContentKeysTooMany (len : ℕ)
  | priorContentKeysUnsorted
  | contentKeyInPrior
deriving DecidableEq

def maxPriorContentKeys : ℕ := 16

/-- `windows(2).all(|w| w[0] < w[1])`. -/
def strictlyAscending (l : List ℕ) : Bool := decide (l.IsChain (· < ·))

namespace Space

/-- The first part of `validate_invariants`: rows of other kinds leave the
community fields at their defaults. -/
def validateCommunityFields (s : Space) : Except InvariantError Unit := do
  ensure s.pendingJoinAt.isNone (.onlyCommunityCarries s.kind .pendingJoinAt)
  ensure s.currentEpoch.isNone (.onlyCommunityCarries s.kind .currentEpoch)
  ensure s.currentEpochKey.isNone (.onlyCommunityCarries s.kind .currentEpochKey)
  ensure s.oldEpochKeys.isEmpty (.onlyCommunityCarries s.kind .oldEpochKeys)
  ensure s.adminAddr.isNone (.onlyCommunityCarries s.kind .adminAddr)
  ensure s.isInviteOnly.isNone (.onlyCommunityCarries s.kind .isInviteOnly)
  ensure (!s.sharedInProfile) (.onlyCommunityCarries s.kind .sharedInProfile)

/-- The second part: what each kind asks of the other fields. -/
def validateKind (s : Space) : Except InvariantError Unit :=
  match s.kind with
  | .folder => do
    ensure s.transport.isNone .folderTransport
    ensure s.members.isEmpty .folderMembers
  | .channel => do
    ensure s.communityId.isSome .channelCommunityId
    ensure s.transport.isSome .channelTransport
  | .publicChannel => do
    ensure s.communityId.isNone .publicChannelCommunityId
    ensure s.transport.isSome .publicChannelTransport
  | .dm => do
    let unique := s.members.toFinset.card
    ensure (s.members.length = 2 ∧ unique = 2) (.dmMembers s.members.length unique)
    ensure (strictlyAscending s.members) .dmMembersUnsorted
    ensure s.transport.isNone .dmTransport
  | .groupDm => do
    let unique := s.members.toFinset.card
    ensure (3 ≤ s.members.length ∧ s.members.length ≤ 16 ∧ unique = s.members.length)
      (.groupDmMembers s.members.length unique)
    ensure (strictlyAscending s.members) .groupDmMembersUnsorted
    ensure s.transport.isNone .groupDmTransport
  | .community => do
    ensure s.currentEpoch.isSome (.communityMissing .currentEpoch)
    ensure s.currentEpochKey.isSome (.communityMissing .currentEpochKey)
    ensure s.adminAddr.isSome (.communityMissing .adminAddr)
    ensure s.isInviteOnly.isSome (.communityMissing .isInviteOnly)
    ensure s.members.isEmpty .communityMembers
    ensure s.transport.isNone .communityTransport
    ensure s.communityId.isNone .communityCommunityId
    ensure s.contentKey.isNone .communityContentKey

/-- The third part: content keys belong to direct messages. -/
def validateContentKey (s : Space) : Except InvariantError Unit :=
  match s.kind with
  | .dm | .groupDm => ensure s.contentKey.isSome (.contentKeyRequired s.kind)
  | .community => ensure s.priorContentKeys.isEmpty .communityPriorContentKeys
  | _ => do
    ensure s.contentKey.isNone (.contentKeyForbidden s.kind)
    ensure s.priorContentKeys.isEmpty (.priorContentKeysForbidden s.kind)

/-- The last part: prior keys are few, in canonical order, and not current. -/
def validatePriorContentKeys (s : Space) : Except InvariantError Unit := do
  ensure (s.priorContentKeys.length ≤ maxPriorContentKeys)
    (.priorContentKeysTooMany s.priorContentKeys.length)
  ensure (strictlyAscending s.priorContentKeys) .priorContentKeysUnsorted
  ensure (s.contentKey.all fun ck => ck ∉ s.priorContentKeys) .contentKeyInPrior

def validateInvariants (s : Space) : Except InvariantError Unit := do
  if s.kind ≠ .community then s.validateCommunityFields else pure ()
  s.validateKind
  s.validateContentKey
  s.validatePriorContentKeys

def dedupeKey (s : Space) : DedupeKey :=
  match s.kind with
  | .folder => .none
  | .community | .channel | .groupDm => .id s.id
  | .publicChannel =>
    match s.transport with
    | some (.zenoh topic) => .topic topic
    | none => .id s.id
  | .dm => .sortedMembers (sortBy (fun m => m) s.members)

end Space

inductive DeliveryStatus where
  | pending
  | partialAcks
  | complete
  | expired
deriving DecidableEq

structure OutboxEntry where
  id : OutboxEntryId
  spaceId : SpaceId
  recipientOwners : List OwnerAddr
  messageCid : Option ContentId
  createdAt : Hlc
  deliveredTo : Finset OwnerAddr
  deliveryStatus : DeliveryStatus
deriving DecidableEq

def OutboxEntry.computeStatus (e : OutboxEntry) (isExpired : Bool) : DeliveryStatus :=
  if e.recipientOwners.all (· ∈ e.deliveredTo) then .complete
  else if isExpired then .expired
  else if e.deliveredTo = ∅ then .pending
  else .partialAcks

/-- `InboxKey`, ordered by space and then by message. -/
abbrev InboxKey := SpaceId ×ₗ ContentId

structure InboxEntry where
  spaceId : SpaceId
  messageCid : ContentId
  «from» : OwnerAddr
  receivedAt : Hlc
deriving DecidableEq

def InboxEntry.key (e : InboxEntry) : InboxKey := toLex (e.spaceId, e.messageCid)

structure ReadMarker where
  spaceId : SpaceId
  lastReadAt : Hlc
deriving DecidableEq

structure LibraryEntry where
  address : OwnerAddr
  addedAt : Hlc
  removedAt : Option Hlc
deriving DecidableEq

structure GrantEntry where
  granteeOwner : OwnerAddr
  grantedAt : ℕ
  revokedAt : ℕ
deriving DecidableEq

structure ReceivedFileGrant where
  granterOwner : OwnerAddr
  cid : ContentId
  fileName : String
  fileSize : ℕ
  mime : String
  sealedDek : Bytes
  receivedAt : ℕ
deriving DecidableEq

structure DeviceTunnelContact where
  irohNodeId : ℕ
  homeRelayUrl : Option String
  pqDsaPubkey : Bytes
  pqKemPubkey : Bytes
deriving DecidableEq

def DeviceTunnelContact.hasValidKeySizes (c : DeviceTunnelContact) : Bool :=
  c.pqDsaPubkey.length = 1952 ∧ c.pqKemPubkey.length = 1184 ∧
    c.homeRelayUrl.all fun u => u.utf8ByteSize ≤ 2048

/-- One position of the three parallel vectors of an `OwnerDeviceEntry`. -/
structure DeviceRow where
  device : DeviceIdentityHash
  identityPub : Option IdentityPub
  tunnelContact : Option DeviceTunnelContact
deriving DecidableEq

/-- `OwnerDeviceEntry`; `devices` zips its device hashes, identity pubs and tunnel
contacts, which are of one length in every stored or decoded entry. -/
structure OwnerDeviceEntry where
  devices : List DeviceRow
  learnedAt : Hlc
deriving DecidableEq

inductive FriendStatus where
  | pending
  | active
  | revoked
deriving DecidableEq

inductive FriendOrigin where
  | mutualKey
  | token
  | introduction
deriving DecidableEq

structure FriendEntry where
  masterEd25519 : ℕ
  display : Option String
  status : FriendStatus
  establishedVia : FriendOrigin
  referrable : Bool
  learnedAt : Hlc
  sealedSecret : Option Bytes
deriving DecidableEq

structure OwnerState where
  spaces : BTreeMap SpaceId Space := ∅
  outbox : BTreeMap OutboxEntryId OutboxEntry := ∅
  inbox : BTreeMap InboxKey InboxEntry := ∅
  markers : BTreeMap SpaceId ReadMarker := ∅
  tombstones : Finset SpaceId := ∅
  dedupeTombstones : BTreeMap DedupeKey Hlc := ∅
  ownerDeviceCache : BTreeMap OwnerAddr OwnerDeviceEntry := ∅
  libraries : BTreeMap OwnerAddr LibraryEntry := ∅
  outboxTombstones : BTreeMap OutboxEntryId Hlc := ∅
  friendGraph : BTreeMap OwnerAddr FriendEntry := ∅
  revokedDmDevices : BTreeMap OwnerAddr (Finset ℕ) := ∅
  fileDeks : BTreeMap ContentId Bytes := ∅
  fileGrants : BTreeMap ContentId (List GrantEntry) := ∅
  receivedFileGrants : BTreeMap ContentId ReceivedFileGrant := ∅
  burnedContent : Finset ContentId := ∅
  dismissedReceivedGrants : BTreeMap ContentId ℕ := ∅

/-- The creation-pinned fields of a community row. -/
inductive PinnedField where
  | currentEpochKey
  | currentEpoch
  | oldEpochKeys
  | adminAddr
  | isInviteOnly
  | createdAt
deriving DecidableEq

/-- The messages that an apply function puts into `InvariantFail`. -/
inductive InvariantFailure where
  | space (e : InvariantError)
  | kindChanged (old new : SpaceKind) (id : SpaceId)
  | dedupeKeyChanged (id : SpaceId)
  | contentKeyChanged (id : SpaceId)
  | pinnedFieldChanged (field : PinnedField) (id : SpaceId)
  | deliveredToNotRecipient (id : OutboxEntryId)
  | envelopeMismatch (id : OutboxEntryId)
  | conflictingIdentityPubs (addr : OwnerAddr) (device : DeviceIdentityHash)
  | identityPubDerivesElsewhere (addr : OwnerAddr) (device derived : DeviceIdentityHash)
  | identityPubInvalid (addr : OwnerAddr) (device : DeviceIdentityHash)
  | tunnelContactInvalid (addr : OwnerAddr)
  | devicesDiverge (addr : OwnerAddr)
  | conflictingCachedPub (addr : OwnerAddr) (device : DeviceIdentityHash)
  | masterKeyMismatch
  | friendDiverges (addr : OwnerAddr)
deriving DecidableEq

/-- The register a stale stamp was meant for. -/
inductive StaleKind where
  | readMarker
  | ownerDeviceEntry
  | friendEntry
deriving DecidableEq

inductive RejectionReason where
  | tombstoned (id : SpaceId)
  | dedupeTombstoned (dedupeKey : DedupeKey) (deletedAt : Hlc)
  | invariantFail (failure : InvariantFailure)
  | staleHlc (kind : StaleKind) (deviceId : String)
  | outboxEntryTombstoned
deriving DecidableEq

inductive ApplyOutcome where
  | inserted
  | merged (oldId : Option SpaceId)
  | rejected (reason : RejectionReason)
deriving DecidableEq

end Harmony.Owner
