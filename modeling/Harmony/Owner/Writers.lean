import Harmony.Owner.Grants

/-! A device's own writes to its registers, and the states that the devices of an owner
reach with them and with merges. -/

namespace Harmony.Owner

open Harmony.Lib
open Harmony.Membership (OwnerAddr SpaceId Hlc Bytes)

/-- `EXPIRATION_MS`, thirty days. -/
def expirationMs : ℕ := 30 * 24 * 60 * 60 * 1000

/-- `STUCK_THRESHOLD_MS`, one minute. -/
def stuckThresholdMs : ℕ := 60000

inductive DeleteDmError where
  | alreadyDelivered (id : OutboxEntryId)
  | notYetStuck (ageMs thresholdMs : ℕ)
deriving DecidableEq

structure DeleteDmOutboxOutcome where
  deletedOutboxId : Option OutboxEntryId := none
  deletedInboxKey : Option InboxKey := none
  spaceId : Option SpaceId := none
  messageCid : Option ContentId := none
deriving DecidableEq

/-- The errors of adding and removing a library: the clock is behind the entry. -/
inductive LibraryError where
  | addBackward
  | removeBackward
deriving DecidableEq

/-- A delivery record that the wall clock has overtaken. -/
def OutboxEntry.overdue (e : OutboxEntry) (nowMs : ℕ) : Bool :=
  (e.deliveryStatus = .pending ∨ e.deliveryStatus = .partialAcks) ∧
    expirationMs ≤ nowMs - e.createdAt.wallMs ∧ ¬e.recipientOwners.all (· ∈ e.deliveredTo)

/-- `merge_add_library`: an entry that is present keeps its later stamps. -/
def mergeAddLibrary (existing : Option LibraryEntry) (addr : OwnerAddr) (nowHlc : Hlc) :
    Except LibraryError LibraryEntry :=
  if existing.any fun prev => prev.removedAt.any fun rm => isStrictlyNewerThan rm nowHlc then
    .error .addBackward
  else
    let chosenAdded :=
      match existing with
      | some prev => if isStrictlyNewerThan prev.addedAt nowHlc then prev.addedAt else nowHlc
      | none => nowHlc
    .ok ⟨addr, chosenAdded, existing.bind LibraryEntry.removedAt⟩

def mergeRemoveLibrary (existing : Option LibraryEntry) (nowHlc : Hlc) : Except LibraryError Unit :=
  ensure (existing.all fun lib => isStrictlyNewerThan nowHlc lib.addedAt) .removeBackward

namespace OwnerState

/-- `mark_ack_delivered`; true when the acknowledgement is new. -/
def markAckDelivered (s : OwnerState) (id : OutboxEntryId) (recipient : OwnerAddr) :
    OwnerState × Bool :=
  match s.outbox[id]? with
  | none => (s, false)
  | some entry =>
    if recipient ∉ entry.recipientOwners ∨ recipient ∈ entry.deliveredTo then (s, false)
    else
      let acked := { entry with deliveredTo := insert recipient entry.deliveredTo }
      let wasExpired := entry.deliveryStatus = .expired
      let marked := { acked with deliveryStatus := acked.computeStatus wasExpired }
      ({ s with outbox := s.outbox.insert id marked }, true)

/-- The expiration sweep of `drain`, with the messages it reports. -/
def expirationSweep (s : OwnerState) (nowMs : ℕ) : OwnerState × List (SpaceId × ContentId) :=
  let expired := (s.outbox.toList.filter fun p => p.2.overdue nowMs).filterMap fun p =>
    p.2.messageCid.map fun cid => (p.2.spaceId, cid)
  ({ s with
      outbox := s.outbox.map fun _ e =>
        if e.overdue nowMs then { e with deliveryStatus := .expired } else e }, expired)

/-- `delete_dm_outbox_entry`: an undelivered record that is stuck goes together with the
owner's own copy of the message, and leaves a tombstone. -/
def deleteDmOutboxEntry (s : OwnerState) (messageId : OutboxEntryId) (wallNowMs : ℕ)
    (deviceId : String) : OwnerState × Except DeleteDmError DeleteDmOutboxOutcome :=
  match s.outbox[messageId]? with
  | none => (s, .ok {})
  | some e =>
    let ageMs := wallNowMs - e.createdAt.wallMs
    if e.deliveryStatus = .complete then (s, .error (.alreadyDelivered messageId))
    else if (e.deliveryStatus = .pending ∨ e.deliveryStatus = .partialAcks) ∧
        ageMs < stuckThresholdMs then
      (s, .error (.notYetStuck ageMs stuckThresholdMs))
    else
      let inboxKey : Option InboxKey := e.messageCid.map fun cid => toLex (e.spaceId, cid)
      let tombstoneHlc := deletionStamp e.createdAt wallNowMs deviceId
      ({ s with
          outbox := s.outbox.erase messageId
          inbox := inboxKey.elim s.inbox fun k => s.inbox.erase k
          outboxTombstones := s.outboxTombstones.insert messageId tombstoneHlc },
        .ok ⟨some messageId, inboxKey, some e.spaceId, e.messageCid⟩)

def addLibrary (s : OwnerState) (addr : OwnerAddr) (nowHlc : Hlc) :
    OwnerState × Except LibraryError Unit :=
  match mergeAddLibrary s.libraries[addr]? addr nowHlc with
  | .error e => (s, .error e)
  | .ok entry => ({ s with libraries := s.libraries.insert addr entry }, .ok ())

def removeLibrary (s : OwnerState) (addr : OwnerAddr) (nowHlc : Hlc) :
    OwnerState × Except LibraryError Unit :=
  match mergeRemoveLibrary s.libraries[addr]? nowHlc, s.libraries[addr]? with
  | .error e, _ => (s, .error e)
  | .ok (), none => (s, .ok ())
  | .ok (), some lib =>
    ({ s with libraries := s.libraries.insert addr { lib with removedAt := some nowHlc } }, .ok ())

/-- `apply_revoked_dm_device`; true when the key is new and the cap keeps it. -/
def applyRevokedDmDevice (s : OwnerState) (owner : OwnerAddr) (ed25519 : ℕ) : OwnerState × Bool :=
  let set := s.revokedDmDevices[owner]?.getD ∅
  let kept := capRevoked (insert ed25519 set)
  ({ s with revokedDmDevices := s.revokedDmDevices.insert owner kept },
    ed25519 ∉ set ∧ ed25519 ∈ kept)

/-- The write of `unfriend_inner`, after it read the entry that it revokes. -/
def unfriend (keys : IdentityKeys) (s : OwnerState) (peerAddr : OwnerAddr) (existing : FriendEntry)
    (learnedAt : Hlc) : OwnerState × ApplyOutcome :=
  let tombstone : FriendEntry :=
    { existing with status := .revoked, learnedAt := learnedAt, sealedSecret := none }
  let r := s.applyFriendUpdate keys peerAddr tombstone
  match r.2 with
  | .rejected _ => r
  | _ => ({ r.1 with revokedDmDevices := r.1.revokedDmDevices.erase peerAddr }, r.2)

def burnGc (s : OwnerState) (cid : ContentId) : OwnerState :=
  { s with
    burnedContent := insert cid s.burnedContent
    fileDeks := s.fileDeks.erase cid
    fileGrants := s.fileGrants.erase cid }

/-- `grant_read`: a grant is recorded for content that has a key. -/
def grantRead (s : OwnerState) (cid : ContentId) (granteeOwner : OwnerAddr) (nowMs : ℕ) :
    OwnerState :=
  if s.fileDeks[cid]?.isSome then s.recordGrant cid granteeOwner nowMs else s

/-- The states that the devices of an owner reach: their own writes, and merges of what
other devices reached. Rows and the other registers may change in any way. New content
is never burned content, as its id is the hash of a fresh ciphertext. -/
inductive Held (keys : IdentityKeys) : OwnerState → Prop where
  | start : Held keys {}
  | elsewhere {s} (spaces tombstones dedupeTombstones cache received dismissed) :
    Held keys s → Held keys { s with
      spaces := spaces
      tombstones := tombstones
      dedupeTombstones := dedupeTombstones
      ownerDeviceCache := cache
      receivedFileGrants := received
      dismissedReceivedGrants := dismissed }
  | space {s} (sp : Space) : Held keys s → Held keys (s.applySpaceWithCanonicalization sp).1
  | outbox {s} (e : OutboxEntry) : Held keys s → Held keys (s.applyOutbox e).1
  | ack {s} (id : OutboxEntryId) (recipient : OwnerAddr) :
    Held keys s → Held keys (s.markAckDelivered id recipient).1
  | expire {s} (nowMs : ℕ) : Held keys s → Held keys (s.expirationSweep nowMs).1
  | deleteDm {s} (id : OutboxEntryId) (wallNowMs : ℕ) (deviceId : String) :
    Held keys s → Held keys (s.deleteDmOutboxEntry id wallNowMs deviceId).1
  | inbox {s} (e : InboxEntry) : Held keys s → Held keys (s.applyInbox e).1
  | marker {s} (m : ReadMarker) : Held keys s → Held keys (s.applyMarker m).1
  | addLibrary {s} (addr : OwnerAddr) (nowHlc : Hlc) : Held keys s → Held keys (s.addLibrary addr nowHlc).1
  | removeLibrary {s} (addr : OwnerAddr) (nowHlc : Hlc) :
    Held keys s → Held keys (s.removeLibrary addr nowHlc).1
  | friend {s} (addr : OwnerAddr) (entry : FriendEntry) :
    Held keys s → Held keys (s.applyFriendUpdate keys addr entry).1
  | unfriend {s} (addr : OwnerAddr) (existing : FriendEntry) (learnedAt : Hlc) :
    Held keys s → Held keys (s.unfriend keys addr existing learnedAt).1
  | revokedDevice {s} (owner : OwnerAddr) (ed25519 : ℕ) :
    Held keys s → Held keys (s.applyRevokedDmDevice owner ed25519).1
  | ingest {s} (cid : ContentId) (sealedDek : Bytes) (fresh : cid ∉ s.burnedContent) :
    Held keys s → Held keys { s with fileDeks := s.fileDeks.insert cid sealedDek }
  | grant {s} (cid : ContentId) (grantee : OwnerAddr) (nowMs : ℕ) :
    Held keys s → Held keys (s.grantRead cid grantee nowMs)
  | revokeGrant {s} (cid : ContentId) (grantee : OwnerAddr) (nowMs : ℕ) :
    Held keys s → Held keys (s.revokeGrantInner cid grantee nowMs).1
  | burn {s} (cid : ContentId) : Held keys s → Held keys (s.burnGc cid)
  | merge {s remote} (now : Option ℕ) :
    Held keys s → Held keys remote → Held keys (s.mergeRemoteIntoLocal keys now remote)

end OwnerState

end Harmony.Owner
