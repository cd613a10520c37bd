import Harmony.Lib.Keyed
import Harmony.Owner.Peers

/-! `merge_remote_into_local`: a sibling device's whole snapshot folded into the
local state, one register after the other in the source's order. The receiver's
own clock is read once; a stamp too far ahead of it is skipped. -/

namespace Harmony.Owner

open Harmony.Lib
open Harmony.Membership (OwnerAddr SpaceId Hlc Bytes rejectFuture maxForwardSkewMs)

/-- `wall_exceeds_forward_skew_logged`; an unreadable clock lets every stamp pass. -/
def wallExceedsForwardSkew (wallMs : ℕ) (receiverNow : Option ℕ) : Bool :=
  receiverNow.any fun now => rejectFuture wallMs now maxForwardSkewMs

def LibraryEntry.latest (e : LibraryEntry) : Hlc :=
  match e.removedAt with
  | some rm => if isStrictlyNewerThan rm e.addedAt then rm else e.addedAt
  | none => e.addedAt

/-- One grant record joined into a grant list: both stamps only grow. -/
def joinGrant (entries : List GrantEntry) (g : GrantEntry) : List GrantEntry :=
  if entries.any fun e => e.granteeOwner = g.granteeOwner then
    entries.modify (entries.findIdx fun e => e.granteeOwner = g.granteeOwner) fun e =>
      { e with
        grantedAt := if e.grantedAt < g.grantedAt then g.grantedAt else e.grantedAt
        revokedAt := if e.revokedAt < g.revokedAt then g.revokedAt else e.revokedAt }
  else entries ++ [g]

def GrantEntry.sortKey (g : GrantEntry) : ℕ ×ₗ ℕ := toLex (g.granteeOwner, g.grantedAt)

/-- A grant is active unless it was received no later than its dismissal. -/
def activeAt (dismissedAt : Option ℕ) (receivedAt : ℕ) : Bool :=
  dismissedAt.all fun d => d < receivedAt

def ReceivedFileGrant.rank (g : ReceivedFileGrant) : List ℕ ×ₗ ℕ := toLex (g.sealedDek, g.receivedAt)

def incomingWins (dismissedAt : Option ℕ) (grant existing : ReceivedFileGrant) : Bool :=
  match activeAt dismissedAt grant.receivedAt, activeAt dismissedAt existing.receivedAt with
  | true, false => true
  | false, true => false
  | _, _ => grant.rank < existing.rank

section Registers

variable (keys : IdentityKeys) (now : Option ℕ)

/-- The pair of maps that the loop over outbox tombstones works on. -/
abbrev OutboxMaps := BTreeMap OutboxEntryId Hlc × BTreeMap OutboxEntryId OutboxEntry

/-- One remote outbox tombstone: the newer stamp stands, and a local entry that it
postdates goes. -/
def mergeOutboxTombstone (maps : OutboxMaps) (id : OutboxEntryId) (remoteHlc : Hlc) : OutboxMaps :=
  let tombstones :=
    if maps.1[id]?.all fun existing => isStrictlyNewerThan remoteHlc existing then
      maps.1.insert id remoteHlc
    else maps.1
  let swept := maps.2[id]?.any fun e =>
    tombstones[id]?.any fun merged => isStrictlyNewerThan merged e.createdAt
  (tombstones, if swept then maps.2.erase id else maps.2)

def mergeDedupeTombstone (tombstones : BTreeMap DedupeKey Hlc) (dk : DedupeKey) (remoteHlc : Hlc) :
    BTreeMap DedupeKey Hlc :=
  if wallExceedsForwardSkew remoteHlc.wallMs now then tombstones
  else putDedupeTombstone tombstones dk remoteHlc

def mergeMarker (markers : BTreeMap SpaceId ReadMarker) (m : ReadMarker) :
    BTreeMap SpaceId ReadMarker :=
  if wallExceedsForwardSkew m.lastReadAt.wallMs now then markers else (putMarker markers m).1

/-- An entry of a snapshot's device cache, as the arguments of an update. -/
def OwnerDeviceEntry.toUpdate (entry : OwnerDeviceEntry) : DeviceUpdate where
  devices := entry.devices.map DeviceRow.device
  deviceIdentityPubs := entry.devices.map DeviceRow.identityPub
  deviceTunnelContacts := entry.devices.map DeviceRow.tunnelContact
  learnedAt := entry.learnedAt

def mergeDevices (cache : BTreeMap OwnerAddr OwnerDeviceEntry) (addr : OwnerAddr)
    (entry : OwnerDeviceEntry) : BTreeMap OwnerAddr OwnerDeviceEntry :=
  if wallExceedsForwardSkew entry.learnedAt.wallMs now then cache
  else (putDevices keys cache addr entry.toUpdate).1

def mergeLibrary (libraries : BTreeMap OwnerAddr LibraryEntry) (addr : OwnerAddr)
    (remote : LibraryEntry) : BTreeMap OwnerAddr LibraryEntry :=
  if wallExceedsForwardSkew remote.addedAt.wallMs now ||
      remote.removedAt.any fun rm => wallExceedsForwardSkew rm.wallMs now then libraries
  else if libraries[addr]?.all fun existing => isStrictlyNewerThan remote.latest existing.latest
  then libraries.insert addr remote
  else libraries

def mergeFriend (friends : BTreeMap OwnerAddr FriendEntry) (addr : OwnerAddr)
    (entry : FriendEntry) : BTreeMap OwnerAddr FriendEntry :=
  if wallExceedsForwardSkew entry.learnedAt.wallMs now then friends
  else (putFriend keys friends addr entry).1

def mergeRevoked (revoked : BTreeMap OwnerAddr (Finset ℕ)) (owner : OwnerAddr) (set : Finset ℕ) :
    BTreeMap OwnerAddr (Finset ℕ) :=
  revoked.insert owner (capRevoked (revoked[owner]?.getD ∅ ∪ set))

/-- Whether the friend graph holds the owner as revoked. -/
def isRevokedFriend (friends : BTreeMap OwnerAddr FriendEntry) (owner : OwnerAddr) : Bool :=
  friends[owner]?.any fun e => e.status = .revoked

def mergeFileDek (fileDeks : BTreeMap ContentId Bytes) (cid : ContentId) (sealedDek : Bytes) :
    BTreeMap ContentId Bytes :=
  if fileDeks[cid]?.isSome then fileDeks else fileDeks.insert cid sealedDek

def mergeFileGrants (fileGrants : BTreeMap ContentId (List GrantEntry)) (cid : ContentId)
    (remoteGrants : List GrantEntry) : BTreeMap ContentId (List GrantEntry) :=
  let accepted := remoteGrants.filter fun g =>
    !(wallExceedsForwardSkew g.grantedAt now || wallExceedsForwardSkew g.revokedAt now)
  let entry := accepted.foldl joinGrant (fileGrants[cid]?.getD [])
  fileGrants.insert cid (sortBy GrantEntry.sortKey entry)

def mergeDismissed (dismissed : BTreeMap ContentId ℕ) (cid : ContentId) (dismissedAt : ℕ) :
    BTreeMap ContentId ℕ :=
  if wallExceedsForwardSkew dismissedAt now then dismissed
  else dismissed.insert cid (max (dismissed[cid]?.getD 0) dismissedAt)

def mergeReceivedGrant (dismissed : BTreeMap ContentId ℕ)
    (received : BTreeMap ContentId ReceivedFileGrant) (cid : ContentId)
    (grant : ReceivedFileGrant) : BTreeMap ContentId ReceivedFileGrant :=
  if wallExceedsForwardSkew grant.receivedAt now then received
  else if received[cid]?.all fun existing => incomingWins dismissed[cid]? grant existing then
    received.insert cid grant
  else received

end Registers

namespace OwnerState

variable (keys : IdentityKeys) (now : Option ℕ)

def mergeSpace (s : OwnerState) (sp : Space) : OwnerState :=
  if wallExceedsForwardSkew sp.updatedAt.wallMs now then s
  else (s.applySpaceWithCanonicalization sp).1

/-- The live rows that the dedupe tombstones dominate, in id order. -/
def dedupeDominated (s : OwnerState) : List SpaceId :=
  (s.spaces.toList.filter fun p => s.dominated p.2).map Prod.fst

/-- The conversation part of the merge: outbox tombstones, rows, delivery records
and markers, then both kinds of row tombstones and the sweep. -/
def mergeConversations (s remote : OwnerState) : OwnerState :=
  let maps := remote.outboxTombstones.foldl mergeOutboxTombstone (s.outboxTombstones, s.outbox)
  let s := { s with outboxTombstones := maps.1, outbox := maps.2 }
  let s := remote.spaces.foldl (fun s _ sp => s.mergeSpace now sp) s
  let s := { s with
    outbox := remote.outbox.foldl (fun m _ e => (putOutbox s.outboxTombstones m e).1) s.outbox
    inbox := remote.inbox.foldl (fun m _ e => (putInbox m e).1) s.inbox
    markers := remote.markers.foldl (fun m _ e => mergeMarker now m e) s.markers }
  let s := (remote.tombstones.sort (· ≤ ·)).foldl tombstoneSpace s
  let s := { s with
    dedupeTombstones := remote.dedupeTombstones.foldl (mergeDedupeTombstone now) s.dedupeTombstones }
  s.dedupeDominated.foldl tombstoneSpace s

/-- The part about other owners: device cache, libraries, friends, and their
revoked keys, which go when the owner is no longer a friend. -/
def mergePeers (s remote : OwnerState) : OwnerState :=
  let friends := remote.friendGraph.foldl (mergeFriend keys now) s.friendGraph
  let revoked := remote.revokedDmDevices.foldl mergeRevoked s.revokedDmDevices
  { s with
    ownerDeviceCache := remote.ownerDeviceCache.foldl (mergeDevices keys now) s.ownerDeviceCache
    libraries := remote.libraries.foldl (mergeLibrary now) s.libraries
    friendGraph := friends
    revokedDmDevices := revoked.filter fun owner _ => !isRevokedFriend friends owner }

/-- The file part: keys and grants with the burn sweep, then received grants with
the dismissal sweep. -/
def mergeFiles (s remote : OwnerState) : OwnerState :=
  let burned := s.burnedContent ∪ remote.burnedContent
  let deks := remote.fileDeks.foldl mergeFileDek s.fileDeks
  let grants := remote.fileGrants.foldl (mergeFileGrants now) s.fileGrants
  let dismissed :=
    remote.dismissedReceivedGrants.foldl (mergeDismissed now) s.dismissedReceivedGrants
  let received :=
    remote.receivedFileGrants.foldl (mergeReceivedGrant now dismissed) s.receivedFileGrants
  { s with
    burnedContent := burned
    fileDeks := deks.filter fun cid _ => cid ∉ burned
    fileGrants := grants.filter fun cid _ => cid ∉ burned
    dismissedReceivedGrants := dismissed
    receivedFileGrants := received.filter fun cid g => activeAt dismissed[cid]? g.receivedAt }

/-- `merge_remote_into_local`, with the reading of `receiver_now_ms` as an argument. -/
def mergeRemoteIntoLocal (s remote : OwnerState) : OwnerState :=
  ((s.mergeConversations now remote).mergePeers keys now remote).mergeFiles now remote

theorem applySpaceWithCanonicalization_cases (s : OwnerState) (sp : Space) :
    (∃ spaces, (s.applySpaceWithCanonicalization sp).1 = { s with spaces := spaces }) ∨
      ∃ spaces loser winner, (s.applySpaceWithCanonicalization sp).2 = .merged (some loser) ∧
        (s.applySpaceWithCanonicalization sp).1 =
          { s with
            spaces := spaces
            outbox := rewriteOutbox s.outbox loser winner
            inbox := rewriteInbox s.inbox loser winner
            markers := rewriteMarkers s.markers loser winner } := by
  have happly : ∃ spaces, (s.applySpace sp).1 = { s with spaces := spaces } := by
    unfold applySpace
    split
    · exact ⟨s.spaces, rfl⟩
    · split
      · split
        · exact ⟨s.spaces, rfl⟩
        · exact ⟨_, rfl⟩
      · split <;> exact ⟨_, rfl⟩
  obtain ⟨spaces, hs⟩ := happly
  simp only [applySpaceWithCanonicalization]
  split
  · next hout _ =>
    rw [hs]
    exact Or.inr ⟨spaces, _, _, hout, rfl⟩
  · exact Or.inl ⟨spaces, hs⟩

theorem applySpaceWithCanonicalization_eq (s : OwnerState) (sp : Space) :
    ∃ spaces outbox inbox markers, (s.applySpaceWithCanonicalization sp).1 =
      { s with spaces := spaces, outbox := outbox, inbox := inbox, markers := markers } := by
  rcases s.applySpaceWithCanonicalization_cases sp with ⟨spaces, h⟩ | ⟨spaces, _, _, -, h⟩
  · exact ⟨spaces, s.outbox, s.inbox, s.markers, h⟩
  · exact ⟨spaces, _, _, _, h⟩

def rest (s : OwnerState) : OwnerState :=
  { s with
    spaces := ∅
    outbox := ∅
    inbox := ∅
    markers := ∅
    tombstones := ∅
    dedupeTombstones := ∅
    outboxTombstones := ∅ }

theorem mergeSpace_rest (s : OwnerState) (sp : Space) : (s.mergeSpace now sp).rest = s.rest := by
  unfold mergeSpace
  split_ifs
  · rfl
  · obtain ⟨_, _, _, _, h⟩ := s.applySpaceWithCanonicalization_eq sp
    rw [h]
    rfl

theorem foldl_tombstoneSpace_rest (ids : List SpaceId) (s : OwnerState) :
    (ids.foldl tombstoneSpace s).rest = s.rest := by
  induction ids generalizing s with
  | nil => rfl
  | cons id ids ih => exact ih _

theorem mergeConversations_rest (s remote : OwnerState) :
    (s.mergeConversations now remote).rest = s.rest := by
  unfold mergeConversations
  rw [foldl_tombstoneSpace_rest]
  refine (foldl_tombstoneSpace_rest _ _).trans ?_
  refine foldl_induction (P := fun t : OwnerState => t.rest = s.rest) _ rfl ?_
  intro t _ sp _ ht
  exact (mergeSpace_rest now t sp).trans ht

end OwnerState
end Harmony.Owner
