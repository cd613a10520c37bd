import Harmony.Lib.Register
import Harmony.Owner.Merge

/-! What each loop of the merge leaves at one key of its map: the entry of the
snapshot, if there is one, met by the local entry of that key. -/

namespace Harmony.Owner

open Harmony.Lib
open Harmony.Membership (OwnerAddr SpaceId Hlc Bytes)

def earlier (old : Option InboxEntry) (e : InboxEntry) : InboxEntry :=
  match old with
  | none => e
  | some x => if isStrictlyNewerThan x.receivedAt e.receivedAt then e else x

theorem putInbox_get (inbox : BTreeMap InboxKey InboxEntry) (e : InboxEntry) (k : InboxKey) :
    (putInbox inbox e).1[k]? = if e.key = k then some (earlier inbox[k]? e) else inbox[k]? := by
  unfold putInbox
  by_cases hk : e.key = k
  · subst hk
    cases hm : inbox[e.key]? <;> simp [earlier]
  · rw [if_neg hk]
    split <;> rw [BTreeMap.get_insert, if_neg hk]

theorem foldl_putInbox_get {t : BTreeMap InboxKey InboxEntry}
    (hkey : ∀ (k : InboxKey) (e : InboxEntry), t[k]? = some e → e.key = k)
    (inbox : BTreeMap InboxKey InboxEntry) (k : InboxKey) :
    (t.foldl (fun m _ e => (putInbox m e).1) inbox)[k]? =
      t[k]?.elim inbox[k]? fun e => some (earlier inbox[k]? e) :=
  foldl_values_get (fun m k => m[k]?) (fun m e => (putInbox m e).1)
    (f := fun e w => some (earlier w e)) hkey (fun m e k => putInbox_get m e k) inbox k

def later (old : Option ReadMarker) (m : ReadMarker) : ReadMarker :=
  match old with
  | none => m
  | some x => if isStrictlyNewerThan m.lastReadAt x.lastReadAt then m else x

theorem putMarker_get (markers : BTreeMap SpaceId ReadMarker) (m : ReadMarker) (id : SpaceId) :
    (putMarker markers m).1[id]? =
      if m.spaceId = id then some (later markers[id]? m) else markers[id]? := by
  unfold putMarker
  by_cases hk : m.spaceId = id
  · subst hk
    rw [if_pos rfl]
    cases hm : markers[m.spaceId]? with
    | none => simp [later]
    | some x =>
      dsimp only [later]
      split_ifs
      · simp
      · exact hm
      · exact hm
  · rw [if_neg hk]
    split
    · rw [BTreeMap.get_insert, if_neg hk]
    · split_ifs
      · rw [BTreeMap.get_insert, if_neg hk]
      · rfl
      · rfl

theorem mergeMarker_get (now : Option ℕ) (markers : BTreeMap SpaceId ReadMarker) (m : ReadMarker)
    (id : SpaceId) :
    (mergeMarker now markers m)[id]? =
      if m.spaceId = id then
        if wallExceedsForwardSkew m.lastReadAt.wallMs now then markers[id]?
        else some (later markers[id]? m)
      else markers[id]? := by
  unfold mergeMarker
  by_cases hskew : wallExceedsForwardSkew m.lastReadAt.wallMs now = true
  · simp [hskew]
  · simp only [if_neg hskew, putMarker_get]

theorem foldl_mergeMarker_get (now : Option ℕ) {t : BTreeMap SpaceId ReadMarker}
    (hkey : ∀ (k : SpaceId) (m : ReadMarker), t[k]? = some m → m.spaceId = k)
    (markers : BTreeMap SpaceId ReadMarker) (id : SpaceId) :
    (t.foldl (fun m _ e => mergeMarker now m e) markers)[id]? =
      t[id]?.elim markers[id]? fun m =>
        if wallExceedsForwardSkew m.lastReadAt.wallMs now then markers[id]?
        else some (later markers[id]? m) :=
  foldl_values_get (fun m k => m[k]?) (mergeMarker now)
    (f := fun m w => if wallExceedsForwardSkew m.lastReadAt.wallMs now then w
      else some (later w m)) hkey (fun m e k => mergeMarker_get now m e k) markers id

/-- Two delivery records of one id carry one envelope. -/
def OutboxEntry.SameEnvelope (x e : OutboxEntry) : Prop :=
  x.messageCid = e.messageCid ∧ x.recipientOwners = e.recipientOwners ∧ x.createdAt = e.createdAt

instance (x e : OutboxEntry) : Decidable (x.SameEnvelope e) :=
  inferInstanceAs (Decidable (_ ∧ _ ∧ _))

def OutboxEntry.settled (e : OutboxEntry) (isExpired : Bool) : OutboxEntry :=
  { e with deliveryStatus := e.computeStatus isExpired }

def OutboxEntry.join (x e : OutboxEntry) : OutboxEntry :=
  OutboxEntry.settled { x with deliveredTo := x.deliveredTo ∪ e.deliveredTo }
    (x.deliveryStatus = .expired ∨ e.deliveryStatus = .expired)

def received (tombstone : Option Hlc) (old : Option OutboxEntry) (e : OutboxEntry) :
    Option OutboxEntry :=
  if tombstone.any fun t => isStrictlyNewerThan t e.createdAt then old
  else if ¬e.deliveredTo ⊆ e.recipientOwners.toFinset then old
  else
    match old with
    | none => some (e.settled (e.deliveryStatus = .expired))
    | some x => if x.SameEnvelope e then some (x.join e) else some x

theorem putOutbox_get (tombstones : BTreeMap OutboxEntryId Hlc)
    (outbox : BTreeMap OutboxEntryId OutboxEntry) (e : OutboxEntry) (k : OutboxEntryId) :
    (putOutbox tombstones outbox e).1[k]? =
      if e.id = k then received tombstones[k]? outbox[k]? e else outbox[k]? := by
  unfold putOutbox received
  by_cases hk : e.id = k
  · subst hk
    rw [if_pos rfl]
    by_cases ht : (tombstones[e.id]?.any fun t => isStrictlyNewerThan t e.createdAt) = true
    · rw [if_pos ht, if_pos ht]
    · rw [if_neg ht, if_neg ht]
      by_cases hd : e.deliveredTo ⊆ e.recipientOwners.toFinset
      · rw [if_neg (not_not.mpr hd), if_neg (not_not.mpr hd)]
        cases hm : outbox[e.id]? with
        | none => simp [OutboxEntry.settled]
        | some x =>
          by_cases hsame : x.SameEnvelope e
          · obtain ⟨h1, h2, h3⟩ := hsame
            simp [OutboxEntry.SameEnvelope, OutboxEntry.join, OutboxEntry.settled, h1, h2, h3]
          · have hne : x.messageCid ≠ e.messageCid ∨ x.recipientOwners ≠ e.recipientOwners ∨
                x.createdAt ≠ e.createdAt := by
              unfold OutboxEntry.SameEnvelope at hsame
              tauto
            simp only [if_pos hne, if_neg hsame]
            exact hm
      · rw [if_pos hd, if_pos hd]
  · rw [if_neg hk]
    repeat' split
    all_goals first | rfl | rw [BTreeMap.get_insert, if_neg hk]

theorem foldl_putOutbox_get (tombstones : BTreeMap OutboxEntryId Hlc)
    {t : BTreeMap OutboxEntryId OutboxEntry}
    (hkey : ∀ (k : OutboxEntryId) (e : OutboxEntry), t[k]? = some e → e.id = k)
    (outbox : BTreeMap OutboxEntryId OutboxEntry) (k : OutboxEntryId) :
    (t.foldl (fun m _ e => (putOutbox tombstones m e).1) outbox)[k]? =
      t[k]?.elim outbox[k]? fun e => received tombstones[k]? outbox[k]? e := by
  have h := foldl_values_get (fun (p : BTreeMap OutboxEntryId OutboxEntry) k => (k, p[k]?))
    (fun m e => (putOutbox tombstones m e).1) (f := fun e w => (w.1, received tombstones[w.1]? w.2 e))
    hkey (fun m e k => by rw [putOutbox_get]; split_ifs <;> rfl) outbox k
  have h2 := congrArg Prod.snd h
  dsimp only at h2
  rw [h2]
  cases t[k]? <;> rfl

def laterStamp (old : Option Hlc) (h : Hlc) : Hlc := old.elim h (max h)

def sweptBy (tombstone : Option Hlc) (old : Option OutboxEntry) : Option OutboxEntry :=
  old.filter fun e => !tombstone.any fun t => isStrictlyNewerThan t e.createdAt

theorem mergeOutboxTombstone_get (maps : OutboxMaps) (id : OutboxEntryId) (h : Hlc)
    (k : OutboxEntryId) :
    ((mergeOutboxTombstone maps id h).1[k]?, (mergeOutboxTombstone maps id h).2[k]?) =
      if id = k then
        (some (laterStamp maps.1[k]? h), sweptBy (some (laterStamp maps.1[k]? h)) maps.2[k]?)
      else (maps.1[k]?, maps.2[k]?) := by
  have htomb : ∀ k, (if maps.1[id]?.all fun x => isStrictlyNewerThan h x then maps.1.insert id h
      else maps.1)[k]? = if id = k then some (laterStamp maps.1[k]? h) else maps.1[k]? := by
    intro k
    by_cases hk : id = k
    · subst hk
      rw [if_pos rfl]
      cases hm : maps.1[id]? with
      | none => simp [laterStamp]
      | some x =>
        by_cases hnew : isStrictlyNewerThan h x = true
        · simp [hnew, laterStamp, max_eq_left (isStrictlyNewerThan_iff.mp hnew).le]
        · have hle : h ≤ x := not_lt.mp fun hlt => hnew (isStrictlyNewerThan_iff.mpr hlt)
          simp [hnew, hm, laterStamp, max_eq_right hle]
    · rw [if_neg hk]
      split_ifs
      · rw [BTreeMap.get_insert, if_neg hk]
      · rfl
  simp only [mergeOutboxTombstone, htomb, if_true]
  by_cases hk : id = k
  · subst hk
    simp only [if_true, Prod.mk.injEq, true_and]
    cases hm : maps.2[id]? with
    | none => simp [sweptBy, hm]
    | some e =>
      by_cases hnew : isStrictlyNewerThan (laterStamp maps.1[id]? h) e.createdAt = true
      · simp [sweptBy, hnew, Option.filter_some]
      · simp [sweptBy, hnew, hm, Option.filter_some]
  · simp only [if_neg hk, Prod.mk.injEq, true_and]
    split_ifs
    · rw [BTreeMap.get_erase, if_neg hk]
    · rfl

/-- The outbox tombstones and entries after the snapshot's tombstones. -/
theorem foldl_mergeOutboxTombstone_get (t : BTreeMap OutboxEntryId Hlc) (maps : OutboxMaps)
    (k : OutboxEntryId) :
    ((t.foldl mergeOutboxTombstone maps).1[k]?, (t.foldl mergeOutboxTombstone maps).2[k]?) =
      t[k]?.elim (maps.1[k]?, maps.2[k]?) fun h =>
        (some (laterStamp maps.1[k]? h), sweptBy (some (laterStamp maps.1[k]? h)) maps.2[k]?) := by
  have hstep : StepsAtKey (fun (maps : OutboxMaps) k => (maps.1[k]?, maps.2[k]?)) mergeOutboxTombstone
      fun _ h w => (some (laterStamp w.1 h), sweptBy (some (laterStamp w.1 h)) w.2) :=
    fun maps id h k => mergeOutboxTombstone_get maps id h k
  exact hstep.foldl t maps k

theorem foldl_mergeLibrary_get (now : Option ℕ) (t libraries : BTreeMap OwnerAddr LibraryEntry)
    (addr : OwnerAddr) :
    (t.foldl (mergeLibrary now) libraries)[addr]? =
      t[addr]?.elim libraries[addr]? fun e =>
        if wallExceedsForwardSkew e.addedAt.wallMs now ||
            e.removedAt.any fun rm => wallExceedsForwardSkew rm.wallMs now then libraries[addr]?
        else latest LibraryEntry.latest libraries[addr]? (some e) := by
  have hstep : StepsAtKey (fun (m : BTreeMap OwnerAddr LibraryEntry) a => m[a]?) (mergeLibrary now)
      fun _ e old => if wallExceedsForwardSkew e.addedAt.wallMs now ||
          e.removedAt.any fun rm => wallExceedsForwardSkew rm.wallMs now then old
        else latest LibraryEntry.latest old (some e) := by
    intro m k e a
    dsimp only
    unfold mergeLibrary
    by_cases hskew : (wallExceedsForwardSkew e.addedAt.wallMs now ||
        e.removedAt.any fun rm => wallExceedsForwardSkew rm.wallMs now) = true
    · simp only [if_pos hskew, ite_self]
    · rw [if_neg hskew, if_neg hskew]
      by_cases hk : k = a
      · subst hk
        cases hm : m[k]? with
        | none => simp
        | some x =>
          by_cases hnew : x.latest < e.latest
          · simp [latest_some_some, hnew]
          · simp [latest_some_some, hnew, hm]
      · rw [if_neg hk]
        split_ifs
        · rw [BTreeMap.get_insert, if_neg hk]
        · rfl
  exact hstep.foldl t libraries addr

theorem foldl_mergeFriend_get (keys : IdentityKeys) (now : Option ℕ)
    (t friends : BTreeMap OwnerAddr FriendEntry) (addr : OwnerAddr) :
    (t.foldl (mergeFriend keys now) friends)[addr]? =
      t[addr]?.elim friends[addr]? fun e =>
        if wallExceedsForwardSkew e.learnedAt.wallMs now then friends[addr]?
        else if keys.ownerIdFromMaster e.masterEd25519 ≠ addr then friends[addr]?
        else latest FriendEntry.learnedAt friends[addr]? (some e) := by
  have hstep : StepsAtKey (fun (m : BTreeMap OwnerAddr FriendEntry) a => m[a]?)
      (mergeFriend keys now) fun a e old =>
        if wallExceedsForwardSkew e.learnedAt.wallMs now then old
        else if keys.ownerIdFromMaster e.masterEd25519 ≠ a then old
        else latest FriendEntry.learnedAt old (some e) := by
    intro m k e a
    dsimp only
    unfold mergeFriend putFriend
    by_cases hskew : wallExceedsForwardSkew e.learnedAt.wallMs now = true
    · simp only [if_pos hskew, ite_self]
    · rw [if_neg hskew, if_neg hskew]
      by_cases hk : k = a
      · subst hk
        rw [if_pos rfl]
        by_cases hid : keys.ownerIdFromMaster e.masterEd25519 ≠ k
        · rw [if_pos hid, if_pos hid]
        · rw [if_neg hid, if_neg hid]
          cases hm : m[k]? with
          | none => simp
          | some x =>
            rcases lt_trichotomy x.learnedAt e.learnedAt with hlt | heq | hgt
            · simp [latest_some_some, hlt, hlt.not_gt, hlt.ne]
            · simp only [isStrictlyNewerThan_iff, heq, lt_irrefl, if_false, if_true,
                latest_some_some]
              split_ifs <;> exact hm
            · simp [latest_some_some, hgt, hgt.not_gt, hm]
      · rw [if_neg hk]
        repeat' split
        all_goals first | rfl | rw [BTreeMap.get_insert, if_neg hk]
  exact hstep.foldl t friends addr

theorem foldl_mergeRevoked_get (t revoked : BTreeMap OwnerAddr (Finset ℕ)) (owner : OwnerAddr) :
    (t.foldl mergeRevoked revoked)[owner]? =
      t[owner]?.elim revoked[owner]? fun set =>
        some (capRevoked (revoked[owner]?.getD ∅ ∪ set)) := by
  have hstep : StepsAtKey (fun (m : BTreeMap OwnerAddr (Finset ℕ)) o => m[o]?) mergeRevoked
      fun _ set old => some (capRevoked (old.getD ∅ ∪ set)) := by
    intro m k set a
    dsimp only
    rw [mergeRevoked, BTreeMap.get_insert]
    split_ifs with hk
    · rw [hk]
    · rfl
  exact hstep.foldl t revoked owner

theorem foldl_mergeFileDek_get (t deks : BTreeMap ContentId Bytes) (cid : ContentId) :
    (t.foldl mergeFileDek deks)[cid]? =
      t[cid]?.elim deks[cid]? fun dek => some (deks[cid]?.getD dek) := by
  have hstep : StepsAtKey (fun (m : BTreeMap ContentId Bytes) c => m[c]?) mergeFileDek
      fun _ dek old => some (old.getD dek) := by
    intro m k dek a
    dsimp only
    unfold mergeFileDek
    by_cases hk : k = a
    · subst hk
      cases hm : m[k]? <;> simp [hm]
    · rw [if_neg hk]
      split_ifs
      · rfl
      · rw [BTreeMap.get_insert, if_neg hk]
  exact hstep.foldl t deks cid

theorem foldl_mergeFileGrants_get (now : Option ℕ) (t grants : BTreeMap ContentId (List GrantEntry))
    (cid : ContentId) :
    (t.foldl (mergeFileGrants now) grants)[cid]? =
      t[cid]?.elim grants[cid]? fun gs =>
        some (sortBy GrantEntry.sortKey ((gs.filter fun g =>
          !(wallExceedsForwardSkew g.grantedAt now || wallExceedsForwardSkew g.revokedAt now)).foldl
            joinGrant (grants[cid]?.getD []))) := by
  have hstep : StepsAtKey (fun (m : BTreeMap ContentId (List GrantEntry)) c => m[c]?)
      (mergeFileGrants now) fun _ gs old =>
        some (sortBy GrantEntry.sortKey ((gs.filter fun g =>
          !(wallExceedsForwardSkew g.grantedAt now || wallExceedsForwardSkew g.revokedAt now)).foldl
            joinGrant (old.getD []))) := by
    intro m k gs a
    dsimp only
    rw [mergeFileGrants, BTreeMap.get_insert]
    split_ifs with hk
    · rw [hk]
    · rfl
  exact hstep.foldl t grants cid

end Harmony.Owner
