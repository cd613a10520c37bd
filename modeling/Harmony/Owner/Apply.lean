import Harmony.Lib.Slice
import Harmony.Owner.Types

/-! The typed merge functions of the owner state. Each takes one incoming record
and answers with the next state and an outcome; a rejection names the guard that
fired. -/

namespace Harmony.Owner

open Harmony.Lib
open Harmony.Membership (OwnerAddr SpaceId Hlc Bytes)

/-- The key derivations that the identity library provides. -/
structure IdentityKeys where
  /-- `derive_device_hash_from_identity_pub`; none for a malformed pub. -/
  deriveDeviceHash : IdentityPub → Option DeviceIdentityHash
  /-- `owner_id_from_master_ed25519`. -/
  ownerIdFromMaster : ℕ → OwnerAddr

def mergePriorContentKeys (winnerCurrent : DmContentKey) (winnerPrior : List DmContentKey)
    (loserCurrent : DmContentKey) (loserPrior : List DmContentKey) : List DmContentKey :=
  let all := (winnerPrior ++ loserCurrent :: loserPrior).filter (· ≠ winnerCurrent)
  (sortDedup (fun k => k) all).take maxPriorContentKeys

/-- The content keys of two merged rows; the row with the smaller id wins. -/
def mergeContentKeys (a b : Space) : Option DmContentKey × List DmContentKey :=
  match a.contentKey, b.contentKey with
  | some ack, some bck =>
    if a.id ≤ b.id then
      (some ack, mergePriorContentKeys ack a.priorContentKeys bck b.priorContentKeys)
    else (some bck, mergePriorContentKeys bck b.priorContentKeys ack a.priorContentKeys)
  | none, none => (none, [])
  | some ck, none => (some ck, [])
  | none, some ck => (some ck, [])

def lwwMergeSpace (a b : Space) : Space :=
  let newer := if isStrictlyNewerThan b.updatedAt a.updatedAt then b else a
  let keys := mergeContentKeys a b
  let creatorSide := if isStrictlyNewerThan a.createdAt b.createdAt then b else a
  { newer with
    createdAt := creatorSide.createdAt
    contentKey := keys.1
    priorContentKeys := keys.2
    currentEpoch := creatorSide.currentEpoch
    currentEpochKey := creatorSide.currentEpochKey
    oldEpochKeys := creatorSide.oldEpochKeys
    adminAddr := creatorSide.adminAddr
    isInviteOnly := creatorSide.isInviteOnly }

/-- The guards of a same-id update in `apply_space`. -/
def sameIdChecks (existing incoming : Space) : Except InvariantFailure Unit := do
  ensure (existing.kind = incoming.kind) (.kindChanged existing.kind incoming.kind incoming.id)
  ensure (incoming.dedupeKey = existing.dedupeKey) (.dedupeKeyChanged incoming.id)
  ensure (existing.contentKey = incoming.contentKey) (.contentKeyChanged incoming.id)
  if existing.kind = .community then do
    ensure (existing.currentEpochKey = incoming.currentEpochKey)
      (.pinnedFieldChanged .currentEpochKey incoming.id)
    ensure (existing.currentEpoch = incoming.currentEpoch)
      (.pinnedFieldChanged .currentEpoch incoming.id)
    ensure (existing.oldEpochKeys = incoming.oldEpochKeys)
      (.pinnedFieldChanged .oldEpochKeys incoming.id)
    ensure (existing.adminAddr = incoming.adminAddr) (.pinnedFieldChanged .adminAddr incoming.id)
    ensure (existing.isInviteOnly = incoming.isInviteOnly)
      (.pinnedFieldChanged .isInviteOnly incoming.id)
    ensure (existing.createdAt = incoming.createdAt) (.pinnedFieldChanged .createdAt incoming.id)
  else pure ()

/-- The first live row, in id order, with the given dedupe key; folders never match. -/
def findDedupe (spaces : BTreeMap SpaceId Space) (dk : DedupeKey) : Option (SpaceId × Space) :=
  if dk = .none then none else spaces.toList.find? fun p => p.2.dedupeKey = dk

/-- The entry that `record_dedupe_tombstone` leaves: the later of two deletions. -/
def putDedupeTombstone (tombstones : BTreeMap DedupeKey Hlc) (dk : DedupeKey) (deletedAt : Hlc) :
    BTreeMap DedupeKey Hlc :=
  match tombstones[dk]? with
  | none => tombstones.insert dk deletedAt
  | some old =>
    if isStrictlyNewerThan deletedAt old then tombstones.insert dk deletedAt else tombstones

/-- The body of `apply_outbox` on the two maps it uses. -/
def putOutbox (tombstones : BTreeMap OutboxEntryId Hlc) (outbox : BTreeMap OutboxEntryId OutboxEntry)
    (incoming : OutboxEntry) : BTreeMap OutboxEntryId OutboxEntry × ApplyOutcome :=
  if tombstones[incoming.id]?.any fun t => isStrictlyNewerThan t incoming.createdAt then
    (outbox, .rejected .outboxEntryTombstoned)
  else if ¬incoming.deliveredTo ⊆ incoming.recipientOwners.toFinset then
    (outbox, .rejected (.invariantFail (.deliveredToNotRecipient incoming.id)))
  else
    match outbox[incoming.id]? with
    | none =>
      let isExpired := incoming.deliveryStatus = .expired
      let entry := { incoming with deliveryStatus := incoming.computeStatus isExpired }
      (outbox.insert entry.id entry, .inserted)
    | some existing =>
      if existing.messageCid ≠ incoming.messageCid ∨
          existing.recipientOwners ≠ incoming.recipientOwners ∨
          existing.createdAt ≠ incoming.createdAt then
        (outbox, .rejected (.invariantFail (.envelopeMismatch incoming.id)))
      else
        let joined := { existing with deliveredTo := existing.deliveredTo ∪ incoming.deliveredTo }
        let isExpired := existing.deliveryStatus = .expired ∨ incoming.deliveryStatus = .expired
        let merged := { joined with deliveryStatus := joined.computeStatus isExpired }
        (outbox.insert incoming.id merged, .merged none)

/-- The body of `apply_inbox`: the earliest receipt of a message stands. -/
def putInbox (inbox : BTreeMap InboxKey InboxEntry) (incoming : InboxEntry) :
    BTreeMap InboxKey InboxEntry × ApplyOutcome :=
  match inbox[incoming.key]? with
  | none => (inbox.insert incoming.key incoming, .inserted)
  | some existing =>
    let earlier :=
      if isStrictlyNewerThan existing.receivedAt incoming.receivedAt then incoming else existing
    (inbox.insert incoming.key earlier, .merged none)

/-- The body of `apply_marker`: read progress only advances. -/
def putMarker (markers : BTreeMap SpaceId ReadMarker) (incoming : ReadMarker) :
    BTreeMap SpaceId ReadMarker × ApplyOutcome :=
  match markers[incoming.spaceId]? with
  | none => (markers.insert incoming.spaceId incoming, .inserted)
  | some existing =>
    if isStrictlyNewerThan incoming.lastReadAt existing.lastReadAt then
      (markers.insert incoming.spaceId incoming, .merged none)
    else if isStrictlyNewerThan existing.lastReadAt incoming.lastReadAt then
      (markers, .rejected (.staleHlc .readMarker incoming.lastReadAt.deviceId))
    else (markers, .merged none)

/-- The outbox part of `canonicalize_dependent_space_ids`. -/
def rewriteOutbox (outbox : BTreeMap OutboxEntryId OutboxEntry) (loser winner : SpaceId) :
    BTreeMap OutboxEntryId OutboxEntry :=
  outbox.map fun _ e => if e.spaceId = loser then { e with spaceId := winner } else e

/-- Its inbox part: the entries filed under the loser are taken out and applied
again under the winner, so that a collision keeps the earliest receipt. -/
def rewriteInbox (inbox : BTreeMap InboxKey InboxEntry) (loser winner : SpaceId) :
    BTreeMap InboxKey InboxEntry :=
  let filed := inbox.toList.filter fun p => (ofLex p.1).1 = loser
  let kept := inbox.filter fun k _ => (ofLex k).1 ≠ loser
  filed.foldl (fun inbox p => (putInbox inbox { p.2 with spaceId := winner }).1) kept

/-- Its marker part. -/
def rewriteMarkers (markers : BTreeMap SpaceId ReadMarker) (loser winner : SpaceId) :
    BTreeMap SpaceId ReadMarker :=
  match markers[loser]? with
  | some marker => (putMarker (markers.erase loser) { marker with spaceId := winner }).1
  | none => markers

namespace OwnerState

/-- Whether a deletion of the row's dedupe identity dominates its creation. -/
def dominated (s : OwnerState) (sp : Space) : Bool :=
  sp.dedupeKey ≠ .none ∧
    s.dedupeTombstones[sp.dedupeKey]?.any fun deletedAt =>
      !isStrictlyNewerThan sp.createdAt deletedAt

/-- The guards of `apply_space` that come before the lookup: the row is well
formed and neither its id nor its dedupe identity is deleted. -/
def gateSpace (s : OwnerState) (incoming : Space) : Except RejectionReason Unit := do
  match incoming.validateInvariants with
  | .error e => .error (.invariantFail (.space e))
  | .ok () => pure ()
  ensure (incoming.id ∉ s.tombstones) (.tombstoned incoming.id)
  match s.dedupeTombstones[incoming.dedupeKey]? with
  | some deletedAt =>
    ensure (!s.dominated incoming) (.dedupeTombstoned incoming.dedupeKey deletedAt)
  | none => pure ()

def applySpace (s : OwnerState) (incoming : Space) : OwnerState × ApplyOutcome :=
  match s.gateSpace incoming with
  | .error r => (s, .rejected r)
  | .ok () =>
    match s.spaces[incoming.id]? with
    | some existing =>
      match sameIdChecks existing incoming with
      | .error e => (s, .rejected (.invariantFail e))
      | .ok () =>
        ({ s with spaces := s.spaces.insert incoming.id (lwwMergeSpace existing incoming) },
          .merged none)
    | none =>
      match findDedupe s.spaces incoming.dedupeKey with
      | none => ({ s with spaces := s.spaces.insert incoming.id incoming }, .inserted)
      | some (existingId, existing) =>
        let winnerId := min existingId incoming.id
        let loserId := max existingId incoming.id
        let merged := { lwwMergeSpace existing incoming with id := winnerId }
        ({ s with spaces := (s.spaces.erase loserId).insert winnerId merged },
          .merged (some loserId))

def tombstoneSpace (s : OwnerState) (id : SpaceId) : OwnerState :=
  { s with spaces := s.spaces.erase id, tombstones := insert id s.tombstones }

def recordDedupeTombstone (s : OwnerState) (dk : DedupeKey) (deletedAt : Hlc) : OwnerState :=
  { s with dedupeTombstones := putDedupeTombstone s.dedupeTombstones dk deletedAt }

/-- The deletion stamp of `remove_space_permanent`: the wall clock, or one tick
past the row's own stamp when the clock is not ahead of it. -/
def deletionStamp (base : Hlc) (wallNowMs : ℕ) (deviceId : String) : Hlc :=
  if base.wallMs < wallNowMs then ⟨wallNowMs, 0, deviceId⟩
  else ⟨base.wallMs, min (base.logical + 1) (2 ^ 32 - 1), deviceId⟩

def removeSpacePermanent (s : OwnerState) (id : SpaceId) (wallNowMs : ℕ) (deviceId : String) :
    OwnerState :=
  let recorded : OwnerState :=
    match s.spaces[id]? with
    | some space =>
      if space.dedupeKey ≠ DedupeKey.none then
        s.recordDedupeTombstone space.dedupeKey (deletionStamp space.updatedAt wallNowMs deviceId)
      else s
    | none => s
  recorded.tombstoneSpace id

def applyOutbox (s : OwnerState) (incoming : OutboxEntry) : OwnerState × ApplyOutcome :=
  let r := putOutbox s.outboxTombstones s.outbox incoming
  ({ s with outbox := r.1 }, r.2)

def applyInbox (s : OwnerState) (incoming : InboxEntry) : OwnerState × ApplyOutcome :=
  let r := putInbox s.inbox incoming
  ({ s with inbox := r.1 }, r.2)

def applyMarker (s : OwnerState) (incoming : ReadMarker) : OwnerState × ApplyOutcome :=
  let r := putMarker s.markers incoming
  ({ s with markers := r.1 }, r.2)

def canonicalizeDependentSpaceIds (s : OwnerState) (loser winner : SpaceId) : OwnerState :=
  { s with
    outbox := rewriteOutbox s.outbox loser winner
    inbox := rewriteInbox s.inbox loser winner
    markers := rewriteMarkers s.markers loser winner }

def applySpaceWithCanonicalization (s : OwnerState) (incoming : Space) :
    OwnerState × ApplyOutcome :=
  let predictedWinner :=
    (findDedupe s.spaces incoming.dedupeKey).map fun p => min p.1 incoming.id
  let r := s.applySpace incoming
  match r.2, predictedWinner with
  | .merged (some loser), some winner => (r.1.canonicalizeDependentSpaceIds loser winner, r.2)
  | _, _ => r

inductive ReadReceiptError where
  | spaceNotFound (id : SpaceId)
  | dmOnly (kind : SpaceKind)
deriving DecidableEq

def setReadReceiptPref (s : OwnerState) (id : SpaceId) (pref : ReadReceiptPref) (newHlc : Hlc) :
    OwnerState × Except ReadReceiptError Bool :=
  match s.spaces[id]? with
  | none => (s, .error (.spaceNotFound id))
  | some space =>
    if space.kind ≠ .dm ∧ space.kind ≠ .groupDm then (s, .error (.dmOnly space.kind))
    else if space.readReceiptPref = pref.stored then (s, .ok false)
    else
      ({ s with
          spaces := s.spaces.insert id
            { space with readReceiptPref := pref.stored, updatedAt := newHlc } }, .ok true)

end OwnerState

end Harmony.Owner
