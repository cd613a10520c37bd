import Harmony.Lib.Smallest
import Harmony.Owner.Dependents
import Harmony.Owner.Writers

/-! What every state that the devices of an owner reach has in common: each record stands
under its key, each delivery record has the status of its acknowledgements, and the
sweeps left nothing behind. -/

namespace Harmony.Owner

open Harmony.Lib
open Harmony.Membership (OwnerAddr SpaceId Hlc Bytes)

/-- A delivery record under its id: it counts acknowledgements of its recipients, has
the status that these call for, and no tombstone postdates it. -/
structure OutboxEntry.Sound (tombstone : Option Hlc) (id : OutboxEntryId) (e : OutboxEntry) : Prop where
  ownId : e.id = id
  delivered : e.deliveredTo ⊆ e.recipientOwners.toFinset
  status : e.deliveryStatus = e.computeStatus (e.deliveryStatus = .expired)
  live : ∀ t, tombstone = some t → t ≤ e.createdAt

def OutboxSound (tombstones : BTreeMap OutboxEntryId Hlc)
    (outbox : BTreeMap OutboxEntryId OutboxEntry) : Prop :=
  ∀ (id : OutboxEntryId) (e : OutboxEntry), outbox[id]? = some e → e.Sound tombstones[id]? id

def InboxSound (inbox : BTreeMap InboxKey InboxEntry) : Prop :=
  ∀ (k : InboxKey) (e : InboxEntry), inbox[k]? = some e → e.key = k

def MarkersSound (markers : BTreeMap SpaceId ReadMarker) : Prop :=
  ∀ (id : SpaceId) (m : ReadMarker), markers[id]? = some m → m.spaceId = id

def FriendsSound (keys : IdentityKeys) (friends : BTreeMap OwnerAddr FriendEntry) : Prop :=
  ∀ (addr : OwnerAddr) (e : FriendEntry), friends[addr]? = some e →
    keys.ownerIdFromMaster e.masterEd25519 = addr

def RevokedSound (revoked : BTreeMap OwnerAddr (Finset ℕ)) : Prop :=
  ∀ (owner : OwnerAddr) (set : Finset ℕ), revoked[owner]? = some set →
    set.card ≤ maxRevokedDmDevicesPerOwner

/-- No key and no grant is left of burned content, and a grant list has one row for
each grantee. -/
structure FilesSound (burned : Finset ContentId) (deks : BTreeMap ContentId Bytes)
    (grants : BTreeMap ContentId (List GrantEntry)) : Prop where
  deks : ∀ (cid : ContentId) (dek : Bytes), deks[cid]? = some dek → cid ∉ burned
  grants : ∀ (cid : ContentId) (rows : List GrantEntry), grants[cid]? = some rows →
    cid ∉ burned ∧ OneRowEach rows

structure OwnerState.Sound (keys : IdentityKeys) (s : OwnerState) : Prop where
  outbox : OutboxSound s.outboxTombstones s.outbox
  inbox : InboxSound s.inbox
  markers : MarkersSound s.markers
  friends : FriendsSound keys s.friendGraph
  revoked : RevokedSound s.revokedDmDevices
  files : FilesSound s.burnedContent s.fileDeks s.fileGrants

section Outbox

variable {tombstone : Option Hlc} {id : OutboxEntryId} {e x : OutboxEntry}
  {tombstones : BTreeMap OutboxEntryId Hlc} {outbox : BTreeMap OutboxEntryId OutboxEntry}

theorem OutboxEntry.settled_status (e : OutboxEntry) (isExpired : Bool) :
    (e.settled isExpired).deliveryStatus =
      (e.settled isExpired).computeStatus ((e.settled isExpired).deliveryStatus = .expired) := by
  change e.computeStatus isExpired = e.computeStatus (e.computeStatus isExpired = .expired)
  unfold OutboxEntry.computeStatus
  cases isExpired <;> split_ifs <;> simp_all

theorem OutboxEntry.Sound.settled (h : e.Sound tombstone id) (isExpired : Bool) :
    (e.settled isExpired).Sound tombstone id :=
  ⟨h.ownId, h.delivered, e.settled_status isExpired, h.live⟩

theorem OutboxEntry.Sound.join (h : x.Sound tombstone id) (hsame : x.SameEnvelope e)
    (hd : e.deliveredTo ⊆ e.recipientOwners.toFinset) : (x.join e).Sound tombstone id where
  ownId := h.ownId
  delivered := by
    rw [← hsame.2.1] at hd
    exact Finset.union_subset h.delivered hd
  status := OutboxEntry.settled_status _ _
  live := h.live

theorem not_any_iff {e : OutboxEntry} :
    (tombstone.any fun t => isStrictlyNewerThan t e.createdAt) = false ↔
      ∀ t, tombstone = some t → t ≤ e.createdAt := by
  cases tombstone <;> simp [isStrictlyNewerThan]

theorem received_sound {old : Option OutboxEntry} (hid : e.id = id)
    (hold : ∀ x, old = some x → x.Sound tombstone id) {y : OutboxEntry}
    (hy : received tombstone old e = some y) : y.Sound tombstone id := by
  unfold received at hy
  split_ifs at hy with ht hd
  · exact hold y hy
  · have hlive := not_any_iff.mp (Bool.eq_false_iff.mpr ht)
    cases old with
    | none =>
      cases hy
      exact ⟨hid, hd, e.settled_status _, hlive⟩
    | some x =>
      dsimp only at hy
      split_ifs at hy with hsame
      · cases hy
        exact (hold x rfl).join hsame hd
      · exact hold y hy
  · exact hold y hy

theorem OutboxSound.put (h : OutboxSound tombstones outbox) (e : OutboxEntry) :
    OutboxSound tombstones (putOutbox tombstones outbox e).1 := by
  intro id y hy
  rw [putOutbox_get] at hy
  split_ifs at hy with hk
  · exact received_sound hk (h id) hy
  · exact h id y hy

theorem OutboxSound.insert (h : OutboxSound tombstones outbox) (he : e.Sound tombstones[id]? id) :
    OutboxSound tombstones (outbox.insert id e) := by
  intro id' y hy
  rw [BTreeMap.get_insert] at hy
  split_ifs at hy with hk
  · cases hy
    exact hk ▸ he
  · exact h id' y hy

theorem OutboxSound.mergeTombstone {maps : OutboxMaps} (h : OutboxSound maps.1 maps.2)
    (id : OutboxEntryId) (hlc : Hlc) :
    OutboxSound (mergeOutboxTombstone maps id hlc).1 (mergeOutboxTombstone maps id hlc).2 := by
  intro id' y hy
  have hget := mergeOutboxTombstone_get maps id hlc id'
  by_cases hk : id = id'
  · rw [if_pos hk, Prod.mk.injEq] at hget
    rw [hget.2] at hy
    rw [hget.1]
    obtain ⟨hold, hnew⟩ := Option.filter_eq_some_iff.mp hy
    have hs := h id' y hold
    exact ⟨hs.ownId, hs.delivered, hs.status, not_any_iff.mp (by simpa using hnew)⟩
  · rw [if_neg hk, Prod.mk.injEq] at hget
    rw [hget.2] at hy
    rw [hget.1]
    exact h id' y hy

theorem OutboxSound.rewrite (h : OutboxSound tombstones outbox) (loser winner : SpaceId) :
    OutboxSound tombstones (rewriteOutbox outbox loser winner) := by
  intro id y hy
  rw [rewriteOutbox_get, Option.map_eq_some_iff] at hy
  obtain ⟨x, hx, rfl⟩ := hy
  have hs := h id x hx
  split_ifs
  · exact ⟨hs.ownId, hs.delivered, hs.status, hs.live⟩
  · exact hs

end Outbox

section Others

variable {inbox : BTreeMap InboxKey InboxEntry} {markers : BTreeMap SpaceId ReadMarker}
  {keys : IdentityKeys} {friends : BTreeMap OwnerAddr FriendEntry}
  {revoked : BTreeMap OwnerAddr (Finset ℕ)}

theorem earlier_key {old : Option InboxEntry} {e : InboxEntry} {k : InboxKey} (he : e.key = k)
    (hold : ∀ x, old = some x → x.key = k) : (earlier old e).key = k := by
  cases old with
  | none => exact he
  | some x =>
    dsimp only [earlier]
    split_ifs
    · exact he
    · exact hold x rfl

theorem InboxSound.put (h : InboxSound inbox) (e : InboxEntry) : InboxSound (putInbox inbox e).1 := by
  intro k y hy
  rw [putInbox_get] at hy
  split_ifs at hy with hk
  · cases hy
    exact earlier_key hk (h k)
  · exact h k y hy

theorem InboxSound.erase (h : InboxSound inbox) (k : InboxKey) : InboxSound (inbox.erase k) := by
  intro k' y hy
  rw [BTreeMap.get_erase] at hy
  split_ifs at hy
  exact h k' y hy

theorem InboxSound.rewrite (h : InboxSound inbox) (loser winner : SpaceId) :
    InboxSound (rewriteInbox inbox loser winner) := by
  refine List.foldlRecOn (motive := InboxSound) _ _ ?_ fun _ ht p _ => ht.put _
  intro k y hy
  rw [Std.ExtTreeMap.getElem?_filter'] at hy
  exact h k y (Option.filter_eq_some_iff.mp hy).1

theorem later_spaceId {old : Option ReadMarker} {m : ReadMarker} {id : SpaceId}
    (hm : m.spaceId = id) (hold : ∀ x, old = some x → x.spaceId = id) : (later old m).spaceId = id := by
  cases old with
  | none => exact hm
  | some x =>
    dsimp only [later]
    split_ifs
    · exact hm
    · exact hold x rfl

theorem MarkersSound.put (h : MarkersSound markers) (m : ReadMarker) :
    MarkersSound (putMarker markers m).1 := by
  intro id y hy
  rw [putMarker_get] at hy
  split_ifs at hy with hk
  · cases hy
    exact later_spaceId hk (h id)
  · exact h id y hy

theorem MarkersSound.rewrite (h : MarkersSound markers) (loser winner : SpaceId) :
    MarkersSound (rewriteMarkers markers loser winner) := by
  unfold rewriteMarkers
  split
  · refine MarkersSound.put (fun id y hy => ?_) _
    rw [BTreeMap.get_erase] at hy
    split_ifs at hy
    exact h id y hy
  · exact h

theorem FriendsSound.put (h : FriendsSound keys friends) (addr : OwnerAddr) (entry : FriendEntry) :
    FriendsSound keys (putFriend keys friends addr entry).1 := by
  unfold putFriend
  have hinsert : ¬keys.ownerIdFromMaster entry.masterEd25519 ≠ addr →
      FriendsSound keys (friends.insert addr entry) := by
    intro hid a y hy
    rw [BTreeMap.get_insert] at hy
    split_ifs at hy with ha
    · cases hy
      exact ha ▸ not_not.mp hid
    · exact h a y hy
  split_ifs with hid
  · exact h
  · split
    · exact hinsert hid
    · split_ifs
      · exact h
      · exact h
      · exact h
      · exact hinsert hid

theorem capRevoked_eq (set : Finset ℕ) :
    capRevoked set = (smallest maxRevokedDmDevicesPerOwner set).toFinset := by
  unfold capRevoked
  generalize hk : set.card - maxRevokedDmDevicesPerOwner = k
  induction k generalizing set with
  | zero =>
    rw [Function.iterate_zero, id, smallest_of_card_le (by omega), Finset.sort_toFinset]
  | succ k ih =>
    obtain ⟨m, hm⟩ := Finset.max_of_nonempty (s := set) (Finset.card_pos.mp (by omega))
    have hmem := Finset.mem_of_max hm
    have hpop : popLast set = set.erase m := by rw [popLast, hm]
    have hcard := Finset.card_erase_of_mem hmem
    have htop : ∀ b ∈ set.erase m, b < m := fun b hb =>
      lt_of_le_of_ne (Finset.le_max_of_eq (Finset.mem_of_mem_erase hb) hm) (Finset.ne_of_mem_erase hb)
    have hsame := smallest_insert_top (n := maxRevokedDmDevicesPerOwner) htop (by omega)
    rw [Finset.insert_erase hmem] at hsame
    rw [Function.iterate_succ_apply, hpop, ih (set.erase m) (by omega), hsame]

theorem card_capRevoked (set : Finset ℕ) : (capRevoked set).card ≤ maxRevokedDmDevicesPerOwner := by
  rw [capRevoked_eq]
  exact (List.toFinset_card_le _).trans (List.length_take_le _ _)

theorem RevokedSound.insert_cap (h : RevokedSound revoked) (owner : OwnerAddr) (set : Finset ℕ) :
    RevokedSound (revoked.insert owner (capRevoked set)) := by
  intro o y hy
  rw [BTreeMap.get_insert] at hy
  split_ifs at hy
  · rw [← Option.some.inj hy]
    exact card_capRevoked set
  · exact h o y hy

theorem RevokedSound.erase (h : RevokedSound revoked) (owner : OwnerAddr) :
    RevokedSound (revoked.erase owner) := by
  intro o y hy
  rw [BTreeMap.get_erase] at hy
  split_ifs at hy
  exact h o y hy

end Others

section Files

variable {burned : Finset ContentId} {deks : BTreeMap ContentId Bytes}
  {grants : BTreeMap ContentId (List GrantEntry)} {cid : ContentId} {rows gs : List GrantEntry}

/-- A row that meets another of its grantee: both stamps only grow. -/
def GrantEntry.meet (g e : GrantEntry) : GrantEntry :=
  { e with
    grantedAt := if e.grantedAt < g.grantedAt then g.grantedAt else e.grantedAt
    revokedAt := if e.revokedAt < g.revokedAt then g.revokedAt else e.revokedAt }

theorem GrantEntry.meet_grantee (g e : GrantEntry) : (g.meet e).granteeOwner = e.granteeOwner := rfl

theorem OneRowEach.joinGrant (h : OneRowEach rows) (g : GrantEntry) :
    OneRowEach (joinGrant rows g) := by
  change OneRowEach (upsertRow rows g.granteeOwner g.meet g)
  exact upsertRow_keys g.meet_grantee rfl h

theorem rowOf_joinGrant (rows : List GrantEntry) (g : GrantEntry) (a : OwnerAddr) :
    rowOf (joinGrant rows g) a =
      if g.granteeOwner = a then some ((rowOf rows a).elim g g.meet) else rowOf rows a := by
  change rowOf (upsertRow rows g.granteeOwner g.meet g) a = _
  rw [rowOf_upsertRow g.meet_grantee rfl]
  by_cases ha : g.granteeOwner = a
  · rw [if_pos ha.symm, if_pos ha, ha]
  · rw [if_neg (Ne.symm ha), if_neg ha]

theorem OneRowEach.foldl_joinGrant (h : OneRowEach rows) (gs : List GrantEntry) :
    OneRowEach (gs.foldl Owner.joinGrant rows) :=
  List.foldlRecOn gs _ h fun _ ht g _ => ht.joinGrant g

theorem rowOf_foldl_joinGrant (hgs : OneRowEach gs) (rows : List GrantEntry) (a : OwnerAddr) :
    rowOf (gs.foldl joinGrant rows) a =
      (rowOf gs a).elim (rowOf rows a) fun g => some ((rowOf rows a).elim g g.meet) :=
  foldl_view (P := fun _ => True) GrantEntry.granteeOwner rowOf joinGrant
    (f := fun g old => some (old.elim g g.meet)) hgs (fun _ _ _ _ => trivial)
    (fun rows _ g _ a => rowOf_joinGrant rows g a) trivial a

theorem FilesSound.deks_insert (h : FilesSound burned deks grants) (hcid : cid ∉ burned) (dek : Bytes) :
    FilesSound burned (deks.insert cid dek) grants := by
  refine ⟨fun c d hd => ?_, h.grants⟩
  rw [BTreeMap.get_insert] at hd
  split_ifs at hd with hc
  · exact hc ▸ hcid
  · exact h.deks c d hd

theorem FilesSound.grants_insert (h : FilesSound burned deks grants) (hcid : cid ∉ burned)
    (hrows : OneRowEach rows) : FilesSound burned deks (grants.insert cid rows) := by
  refine ⟨h.deks, fun c rs hrs => ?_⟩
  rw [BTreeMap.get_insert] at hrs
  split_ifs at hrs with hc
  · cases hrs
    exact hc ▸ ⟨hcid, hrows⟩
  · exact h.grants c rs hrs

theorem FilesSound.burn (h : FilesSound burned deks grants) (cid : ContentId) :
    FilesSound (insert cid burned) (deks.erase cid) (grants.erase cid) := by
  constructor
  · intro c d hd
    rw [BTreeMap.get_erase] at hd
    split_ifs at hd with hc
    simpa [eq_comm (a := c), hc] using h.deks c d hd
  · intro c rs hrs
    rw [BTreeMap.get_erase] at hrs
    split_ifs at hrs with hc
    obtain ⟨hb, hone⟩ := h.grants c rs hrs
    exact ⟨by simpa [eq_comm (a := c), hc] using hb, hone⟩

theorem filesSound_filter (hrows : ∀ (c : ContentId) (rs : List GrantEntry), grants[c]? = some rs →
    OneRowEach rs) :
    FilesSound burned (deks.filter fun c _ => c ∉ burned) (grants.filter fun c _ => c ∉ burned) := by
  constructor
  · intro c d hd
    rw [Std.ExtTreeMap.getElem?_filter'] at hd
    simpa using (Option.filter_eq_some_iff.mp hd).2
  · intro c rs hrs
    rw [Std.ExtTreeMap.getElem?_filter'] at hrs
    obtain ⟨hold, hb⟩ := Option.filter_eq_some_iff.mp hrs
    exact ⟨by simpa using hb, hrows c rs hold⟩

end Files

namespace OwnerState

section Calls

variable {keys : IdentityKeys} {s remote : OwnerState}

theorem Sound.empty : Sound keys {} where
  outbox := fun _ _ h => by simp at h
  inbox := fun _ _ h => by simp at h
  markers := fun _ _ h => by simp at h
  friends := fun _ _ h => by simp at h
  revoked := fun _ _ h => by simp at h
  files := ⟨fun _ _ h => by simp at h, fun _ _ h => by simp at h⟩

theorem Sound.applySpaceWithCanonicalization (h : Sound keys s) (sp : Space) :
    Sound keys (s.applySpaceWithCanonicalization sp).1 := by
  rcases s.applySpaceWithCanonicalization_cases sp with ⟨spaces, heq⟩ | ⟨spaces, l, w, -, heq⟩ <;>
    rw [heq]
  · exact ⟨h.outbox, h.inbox, h.markers, h.friends, h.revoked, h.files⟩
  · exact ⟨h.outbox.rewrite l w, h.inbox.rewrite l w, h.markers.rewrite l w, h.friends, h.revoked,
      h.files⟩

theorem Sound.markAckDelivered (h : Sound keys s) (id : OutboxEntryId) (recipient : OwnerAddr) :
    Sound keys (s.markAckDelivered id recipient).1 := by
  unfold OwnerState.markAckDelivered
  split
  · exact h
  · next entry he =>
    split_ifs with hskip
    · exact h
    · have hs := h.outbox id entry he
      rw [not_or, not_not] at hskip
      have hacked : OutboxEntry.Sound s.outboxTombstones[id]? id
          (OutboxEntry.settled { entry with deliveredTo := insert recipient entry.deliveredTo }
            (entry.deliveryStatus = .expired)) :=
        ⟨hs.ownId, Finset.insert_subset (List.mem_toFinset.mpr hskip.1) hs.delivered,
          OutboxEntry.settled_status _ _, hs.live⟩
      exact { h with outbox := h.outbox.insert hacked }

theorem Sound.expirationSweep (h : Sound keys s) (nowMs : ℕ) :
    Sound keys (s.expirationSweep nowMs).1 := by
  refine { h with outbox := fun id y hy => ?_ }
  change (s.outbox.map fun _ e =>
    if e.overdue nowMs then { e with deliveryStatus := .expired } else e)[id]? = some y at hy
  rw [Std.ExtTreeMap.getElem?_map, Option.map_eq_some_iff] at hy
  obtain ⟨e, he, rfl⟩ := hy
  have hs := h.outbox id e he
  split_ifs with hdue
  · -- an overdue record lacks an acknowledgement, so its status is `expired`
    have hopen : ¬e.recipientOwners.all (· ∈ e.deliveredTo) := by
      simp only [OutboxEntry.overdue, decide_eq_true_eq] at hdue
      exact hdue.2.2
    refine ⟨hs.ownId, hs.delivered, ?_, hs.live⟩
    simp only [OutboxEntry.computeStatus, decide_true, if_true]
    rw [if_neg hopen]
  · exact hs

theorem Sound.deleteDmOutboxEntry (h : Sound keys s) (id : OutboxEntryId) (wallNowMs : ℕ)
    (deviceId : String) : Sound keys (s.deleteDmOutboxEntry id wallNowMs deviceId).1 := by
  unfold OwnerState.deleteDmOutboxEntry
  split
  · exact h
  · next e he =>
    dsimp only
    split_ifs
    · exact h
    · exact h
    · refine { h with outbox := fun id' y hy => ?_, inbox := ?_ }
      · rw [BTreeMap.get_erase] at hy
        split_ifs at hy with hid
        rw [BTreeMap.get_insert, if_neg hid]
        exact h.outbox id' y hy
      · cases e.messageCid with
        | none => exact h.inbox
        | some cid => exact h.inbox.erase _

theorem Sound.addLibrary (h : Sound keys s) (addr : OwnerAddr) (nowHlc : Hlc) :
    Sound keys (s.addLibrary addr nowHlc).1 := by
  unfold OwnerState.addLibrary
  split
  · exact h
  · exact { h with }

theorem Sound.removeLibrary (h : Sound keys s) (addr : OwnerAddr) (nowHlc : Hlc) :
    Sound keys (s.removeLibrary addr nowHlc).1 := by
  unfold OwnerState.removeLibrary
  split
  · exact h
  · exact h
  · exact { h with }

theorem Sound.applyFriendUpdate (h : Sound keys s) (addr : OwnerAddr) (entry : FriendEntry) :
    Sound keys (s.applyFriendUpdate keys addr entry).1 :=
  { h with friends := h.friends.put addr entry }

theorem Sound.unfriend (h : Sound keys s) (addr : OwnerAddr) (existing : FriendEntry)
    (learnedAt : Hlc) : Sound keys (s.unfriend keys addr existing learnedAt).1 := by
  have happ := h.applyFriendUpdate addr
    { existing with status := .revoked, learnedAt := learnedAt, sealedSecret := none }
  unfold OwnerState.unfriend
  dsimp only
  split
  · exact happ
  · exact { happ with revoked := happ.revoked.erase addr }

theorem Sound.grantRead (h : Sound keys s) (cid : ContentId) (grantee : OwnerAddr) (nowMs : ℕ) :
    Sound keys (s.grantRead cid grantee nowMs) := by
  unfold OwnerState.grantRead
  split_ifs with hdek
  · obtain ⟨dek, hdek⟩ := Option.isSome_iff_exists.mp hdek
    have hrows : OneRowEach (s.grantsOf cid) := by
      unfold grantsOf
      cases hg : s.fileGrants[cid]? with
      | none => exact List.nodup_nil
      | some rows => exact (h.files.grants cid rows hg).2
    have hnew : OneRowEach (upsertRow (s.grantsOf cid) grantee (reshare nowMs) ⟨grantee, nowMs, 0⟩) :=
      upsertRow_keys (reshare_grantee nowMs) rfl hrows
    exact { h with files := h.files.grants_insert (h.files.deks cid dek hdek) hnew }
  · exact h

theorem Sound.revokeGrantInner (h : Sound keys s) (cid : ContentId) (grantee : OwnerAddr)
    (nowMs : ℕ) : Sound keys (s.revokeGrantInner cid grantee nowMs).1 := by
  unfold OwnerState.revokeGrantInner
  split
  · exact h
  · next rows hrows =>
    split
    · exact h
    · split_ifs
      · exact h
      · obtain ⟨hburn, hone⟩ := h.files.grants cid rows hrows
        have hkept : OneRowEach (rows.modify (rows.findIdx fun e => e.granteeOwner = grantee)
            (retract nowMs)) := by
          rw [OneRowEach, (modify_findIdx (retract_grantee nowMs) rows grantee).1]
          exact hone
        exact { h with files := h.files.grants_insert hburn hkept }

end Calls

/-! ### Merging -/

section Merge

variable {keys : IdentityKeys} {now : Option ℕ} {s remote : OwnerState}

/-- What a merge leaves in the registers that no row reaches. -/
structure MergedRest (keys : IdentityKeys) (now : Option ℕ) (s remote m : OwnerState) : Prop where
  libraries : m.libraries = remote.libraries.foldl (mergeLibrary now) s.libraries
  friends : m.friendGraph = remote.friendGraph.foldl (mergeFriend keys now) s.friendGraph
  revoked : m.revokedDmDevices =
    (remote.revokedDmDevices.foldl mergeRevoked s.revokedDmDevices).filter fun owner _ =>
      !isRevokedFriend m.friendGraph owner
  burned : m.burnedContent = s.burnedContent ∪ remote.burnedContent
  deks : m.fileDeks = (remote.fileDeks.foldl mergeFileDek s.fileDeks).filter fun cid _ =>
    cid ∉ m.burnedContent
  grants : m.fileGrants = (remote.fileGrants.foldl (mergeFileGrants now) s.fileGrants).filter
    fun cid _ => cid ∉ m.burnedContent

theorem mergedRest (keys : IdentityKeys) (now : Option ℕ) (s remote : OwnerState) :
    MergedRest keys now s remote (s.mergeRemoteIntoLocal keys now remote) := by
  have hrest := mergeConversations_rest now s remote
  have hlib := congrArg (fun t : OwnerState => t.libraries) hrest
  have hfr := congrArg (fun t : OwnerState => t.friendGraph) hrest
  have hrev := congrArg (fun t : OwnerState => t.revokedDmDevices) hrest
  have hburn := congrArg (fun t : OwnerState => t.burnedContent) hrest
  have hdeks := congrArg (fun t : OwnerState => t.fileDeks) hrest
  have hgrants := congrArg (fun t : OwnerState => t.fileGrants) hrest
  dsimp only [rest] at hlib hfr hrev hburn hdeks hgrants
  constructor <;>
    simp only [mergeRemoteIntoLocal, mergePeers, mergeFiles, hlib, hfr, hrev, hburn, hdeks, hgrants]

theorem Sound.sweepOutbox (h : Sound keys s) (remote : OwnerState) :
    Sound keys (s.sweepOutbox remote) := by
  refine { h with outbox := ?_ }
  exact foldl_induction (P := fun maps : OutboxMaps => OutboxSound maps.1 maps.2)
    remote.outboxTombstones h.outbox fun _ id hlc _ hm => hm.mergeTombstone id hlc

theorem Sound.beforeDeletions (h : Sound keys s) (now : Option ℕ) (remote : OwnerState) :
    Sound keys (s.beforeDeletions now remote) := by
  refine foldl_induction (P := Sound keys) remote.spaces (h.sweepOutbox remote) ?_
  intro t _ sp _ ht
  unfold mergeSpace
  split_ifs
  · exact ht
  · exact ht.applySpaceWithCanonicalization sp

theorem Sound.mergeRemoteIntoLocal (h : Sound keys s) (now : Option ℕ) (remote : OwnerState) :
    Sound keys (s.mergeRemoteIntoLocal keys now remote) := by
  have hN := h.beforeDeletions now remote
  have htomb : (s.beforeDeletions now remote).outboxTombstones =
      (s.sweepOutbox remote).outboxTombstones := mergeSpaces_outboxTombstones now _ remote
  obtain ⟨hrec, htombs, -⟩ := mergeRemoteIntoLocal_records keys now s remote
  have hm := mergedRest keys now s remote
  constructor
  · have hout := congrArg Prod.fst hrec
    dsimp only [records] at hout
    rw [hout, htombs, ← htomb]
    exact foldl_induction (P := OutboxSound (s.beforeDeletions now remote).outboxTombstones)
      remote.outbox hN.outbox fun _ _ e _ ht => ht.put e
  · have hin := congrArg (fun r => r.2.1) hrec
    dsimp only [records] at hin
    rw [hin]
    exact foldl_induction (P := InboxSound) remote.inbox hN.inbox fun _ _ e _ ht => ht.put e
  · have hmark := congrArg (fun r => r.2.2) hrec
    dsimp only [records] at hmark
    rw [hmark]
    refine foldl_induction (P := MarkersSound) remote.markers hN.markers fun _ _ e _ ht => ?_
    unfold mergeMarker
    split_ifs
    · exact ht
    · exact ht.put e
  · rw [hm.friends]
    refine foldl_induction (P := FriendsSound keys) remote.friendGraph h.friends fun _ a e _ ht => ?_
    unfold mergeFriend
    split_ifs
    · exact ht
    · exact ht.put a e
  · have hall : RevokedSound (remote.revokedDmDevices.foldl mergeRevoked s.revokedDmDevices) :=
      foldl_induction (P := RevokedSound) remote.revokedDmDevices h.revoked
        fun _ o set _ ht => ht.insert_cap o _
    intro o set hset
    rw [hm.revoked, Std.ExtTreeMap.getElem?_filter'] at hset
    exact hall o set (Option.filter_eq_some_iff.mp hset).1
  · rw [hm.deks, hm.grants]
    refine filesSound_filter ?_
    have hrows : ∀ (c : ContentId) (rs : List GrantEntry), s.fileGrants[c]? = some rs → OneRowEach rs :=
      fun c rs hrs => (h.files.grants c rs hrs).2
    refine foldl_induction (P := fun grants : BTreeMap ContentId (List GrantEntry) =>
      ∀ (c : ContentId) (rs : List GrantEntry), grants[c]? = some rs → OneRowEach rs)
      remote.fileGrants hrows fun t cid gs _ ht c rs hrs => ?_
    simp only [mergeFileGrants, BTreeMap.get_insert] at hrs
    split_ifs at hrs
    · rw [← Option.some.inj hrs]
      have hheld : OneRowEach (t[cid]?.getD []) := by
        cases hg : t[cid]? with
        | none => exact List.nodup_nil
        | some old => exact ht cid old hg
      exact ((sortBy_perm _).map _).nodup_iff.mpr (hheld.foldl_joinGrant _)
    · exact ht c rs hrs

/-- Whatever the devices of an owner reach keeps every register sound. -/
theorem Held.sound {s : OwnerState} (h : Held keys s) : Sound keys s := by
  induction h with
  | start => exact Sound.empty
  | elsewhere _ _ _ _ _ _ _ ih => exact { ih with }
  | space sp _ ih => exact ih.applySpaceWithCanonicalization sp
  | outbox e _ ih => exact { ih with outbox := ih.outbox.put e }
  | ack id recipient _ ih => exact ih.markAckDelivered id recipient
  | expire nowMs _ ih => exact ih.expirationSweep nowMs
  | deleteDm id wallNowMs deviceId _ ih => exact ih.deleteDmOutboxEntry id wallNowMs deviceId
  | inbox e _ ih => exact { ih with inbox := ih.inbox.put e }
  | marker m _ ih => exact { ih with markers := ih.markers.put m }
  | addLibrary addr nowHlc _ ih => exact ih.addLibrary addr nowHlc
  | removeLibrary addr nowHlc _ ih => exact ih.removeLibrary addr nowHlc
  | friend addr entry _ ih => exact ih.applyFriendUpdate addr entry
  | unfriend addr existing learnedAt _ ih => exact ih.unfriend addr existing learnedAt
  | revokedDevice owner ed25519 _ ih => exact { ih with revoked := ih.revoked.insert_cap owner _ }
  | ingest cid sealedDek fresh _ ih => exact { ih with files := ih.files.deks_insert fresh sealedDek }
  | grant cid grantee nowMs _ ih => exact ih.grantRead cid grantee nowMs
  | revokeGrant cid grantee nowMs _ ih => exact ih.revokeGrantInner cid grantee nowMs
  | burn cid _ ih => exact { ih with files := ih.files.burn cid }
  | merge now _ _ ih _ => exact ih.mergeRemoteIntoLocal now _

end Merge

end OwnerState

end Harmony.Owner
